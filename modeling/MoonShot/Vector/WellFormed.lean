import MoonShot.Vector.Insertion
import MoonShot.Vector.Comparators

/-!
Every graph that is built.

Owns the growth of a graph by one node, and the representation that every sequence of `Add`
keeps: ranges of links that do not overlap, links to other nodes of their level, and an entry
point of the highest level.

Does not own the order of scores.
-/

namespace MoonShot.Vector

open MoonShot.Lib
open FloatCompare

namespace FreshDiskAnnVectorIndex

/-! ## Growth -/

/-- The graph with one more node, which has no links. -/
def grown (index : FreshDiskAnnVectorIndex) (docId : UInt32) (level : Nat) :
    FreshDiskAnnVectorIndex :=
  { index with
    links := index.links ++ List.replicate ((level + 1) * index.maxNeighbors) noNode
    linkCounts := index.linkCounts ++ List.replicate (level + 1) 0
    docIds := index.docIds ++ [docId]
    nodes := index.nodes ++ [⟨level, index.links.length⟩] }

section Grown

variable {index : FreshDiskAnnVectorIndex} {docId : UInt32} {level : Nat}

theorem grown_nodeAt_old {nodeId : Nat} (old : nodeId < index.nodes.length) :
    (index.grown docId level).nodeAt nodeId = index.nodeAt nodeId :=
  List.getD_append _ _ _ _ old

theorem grown_nodeAt_new :
    (index.grown docId level).nodeAt index.nodes.length = ⟨level, index.links.length⟩ := by
  rw [nodeAt, grown, List.getD_append_right _ _ _ _ (Nat.le_refl _), Nat.sub_self]
  rfl

theorem grown_nodeLevel_old {nodeId : Nat} (old : nodeId < index.nodes.length) :
    (index.grown docId level).nodeLevel nodeId = index.nodeLevel nodeId := by
  rw [nodeLevel, grown_nodeAt_old old, nodeLevel]

theorem grown_length : (index.grown docId level).nodes.length = index.nodes.length + 1 := by
  rw [grown, List.length_append, List.length_singleton]

theorem grown_hasLayer_old {nodeId other : Nat} (old : nodeId < index.nodes.length) :
    (index.grown docId level).HasLayer nodeId other ↔ index.HasLayer nodeId other := by
  rw [HasLayer, HasLayer, grown_nodeLevel_old old, grown_length]
  exact and_congr_left fun _ => ⟨fun _ => old, fun _ => Nat.lt_succ_of_lt old⟩

/-- A layer of the grown graph is one of the old graph or of the new node. -/
theorem grown_hasLayer_cases {nodeId other : Nat}
    (layer : (index.grown docId level).HasLayer nodeId other) :
    index.HasLayer nodeId other ∨ nodeId = index.nodes.length := by
  have inside := layer.1
  rw [grown_length] at inside
  by_cases old : nodeId < index.nodes.length
  · exact Or.inl ((grown_hasLayer_old old).mp layer)
  · exact Or.inr (by omega)

theorem grown_layout (layout : index.Layout) : (index.grown docId level).Layout := by
  have count : layerCount (index.grown docId level).nodes = layerCount index.nodes + (level + 1) := by
    rw [grown, layerCount, List.map_append, List.sum_append, layerCount]
    rfl
  refine ⟨layout.positive, fun nodeId node here => ?_, ?_, ?_⟩
  · have inside := (List.getElem?_eq_some_iff.mp here).1
    rw [grown_length] at inside
    show node.linkOffset =
      layerCount ((index.nodes ++ [(⟨level, index.links.length⟩ : Node)]).take nodeId) *
        index.maxNeighbors
    rw [List.take_append_of_le_length (by omega)]
    by_cases old : nodeId < index.nodes.length
    · refine layout.offsets nodeId node ?_
      rw [← here]
      exact (List.getElem?_append_left old).symm
    · have isNew : nodeId = index.nodes.length := by omega
      have same : some (⟨level, index.links.length⟩ : Node) = some node := by
        rw [← here, isNew, grown, List.getElem?_append_right (Nat.le_refl _), Nat.sub_self]
        rfl
      rw [← Option.some_inj.mp same, isNew, List.take_length]
      exact layout.links
  · have links := layout.links
    rw [count, Nat.add_mul]
    show (index.links ++ List.replicate ((level + 1) * index.maxNeighbors) noNode).length =
      layerCount index.nodes * index.maxNeighbors + (level + 1) * index.maxNeighbors
    rw [List.length_append, List.length_replicate, links]
  · rw [count, ← layout.counts]
    show (index.linkCounts ++ List.replicate _ 0).length = _
    rw [List.length_append, List.length_replicate]

theorem grown_linkCount_old (layout : index.Layout) {nodeId other : Nat}
    (layer : index.HasLayer nodeId other) :
    (index.grown docId level).linkCount nodeId other = index.linkCount nodeId other := by
  have same : (index.grown docId level).linkCountIndex nodeId other =
      index.linkCountIndex nodeId other := by
    rw [linkCountIndex, grown_nodeAt_old layer.1]
    rfl
  rw [linkCount, same, grown]
  exact List.getD_append _ _ _ _ (layout.countIndex_lt layer)

theorem grown_neighbors_old (layout : index.Layout) (fits : index.Fits) {nodeId other : Nat}
    (layer : index.HasLayer nodeId other) :
    (index.grown docId level).neighbors nodeId other = index.neighbors nodeId other := by
  have room := layout.range_inside layer
  have most := fits nodeId other layer
  have same : (index.grown docId level).linkOffset nodeId other = index.linkOffset nodeId other := by
    rw [linkOffset, grown_nodeAt_old layer.1]
    rfl
  rw [neighbors_eq ((grown_hasLayer_old layer.1).mpr layer), neighbors_eq layer,
    grown_linkCount_old layout layer, same, linksAt, grown,
    List.drop_append_of_le_length (by omega), List.take_append_of_le_length
      (by rw [List.length_drop]; omega)]
  rfl

theorem grown_neighbors_new (layout : index.Layout) {other : Nat}
    (layer : (index.grown docId level).HasLayer index.nodes.length other) :
    (index.grown docId level).linkCount index.nodes.length other = 0 ∧
      (index.grown docId level).neighbors index.nodes.length other = [] := by
  have position : (index.grown docId level).linkCountIndex index.nodes.length other =
      index.linkCounts.length + other := by
    rw [linkCountIndex, grown_nodeAt_new]
    show index.links.length / index.maxNeighbors + other = _
    rw [layout.links, Nat.mul_div_cancel _ layout.positive, layout.counts]
  have count : (index.grown docId level).linkCount index.nodes.length other = 0 := by
    rw [linkCount, position, grown]
    show (index.linkCounts ++ List.replicate (level + 1) 0).getD _ 0 = 0
    rw [List.getD_append_right _ _ _ _ (Nat.le_add_right _ _), List.getD_eq_getElem?_getD,
      List.getElem?_replicate]
    split <;> rfl
  refine ⟨count, ?_⟩
  rw [neighbors_eq layer, count, linksAt, List.take_zero]

/-- A new node is linked with no other one. -/
theorem grown_linked (linked : Linked index) : Linked (index.grown docId level) := by
  refine ⟨grown_layout linked.layout, fun nodeId other layer => ?_, fun nodeId other layer => ?_,
    fun nodeId other layer neighbor member => ?_⟩
  all_goals rcases grown_hasLayer_cases layer with old | rfl
  · rw [grown_linkCount_old linked.layout old]
    exact linked.fits nodeId other old
  · rw [(grown_neighbors_new linked.layout layer).1]
    exact Nat.zero_le _
  · rw [grown_neighbors_old linked.layout linked.fits old]
    exact linked.nodup nodeId other old
  · rw [(grown_neighbors_new linked.layout layer).2]
    exact List.nodup_nil
  · rw [grown_neighbors_old linked.layout linked.fits old] at member
    obtain ⟨neighborLayer, apart⟩ := linked.leads nodeId other old neighbor member
    exact ⟨(grown_hasLayer_old neighborLayer.1).mpr neighborLayer, apart⟩
  · rw [(grown_neighbors_new linked.layout layer).2] at member
    exact absurd member List.not_mem_nil

theorem grown_unlinked (linked : Linked index) (limit : Nat) :
    Unlinked index.nodes.length limit (index.grown docId level) := by
  intro other _ nodeId layer member
  rcases grown_hasLayer_cases layer with old | rfl
  · rw [grown_neighbors_old linked.layout linked.fits old] at member
    exact absurd (linked.leads nodeId other old _ member).1.1 (Nat.lt_irrefl _)
  · rw [(grown_neighbors_new linked.layout layer).2] at member
    exact absurd member List.not_mem_nil

theorem grown_docIds (docIds : index.docIds.length = index.nodes.length) :
    (index.grown docId level).docIds.length = (index.grown docId level).nodes.length := by
  rw [grown_length, ← docIds, grown, List.length_append, List.length_singleton]

/-- The entry point is still the highest of the old nodes. -/
theorem grown_entry (entry : index.Entry index.nodes.length) :
    (index.grown docId level).Entry index.nodes.length := by
  refine ⟨entry.inside, ?_, fun nodeId old => ?_⟩
  · exact (grown_nodeLevel_old entry.inside).trans entry.level
  · rw [grown_nodeLevel_old old]
    exact entry.most nodeId old

theorem Entry.ne_noNode (entry : index.Entry index.nodes.length)
    (limit : index.nodes.length < 0xFFFFFFFF) : index.entryPoint ≠ noNode := by
  have inside := entry.inside
  unfold noNode
  omega

/-- The first node is the entry point. -/
theorem first_entry (none : index.nodes = []) (docId : UInt32) (level : Nat) :
    ({ index.grown docId level with
      entryPoint := index.nodes.length
      maxLevel := (index.grown docId level).nodeLevel index.nodes.length } :
        FreshDiskAnnVectorIndex).Entry (index.grown docId level).nodes.length := by
  refine ⟨?_, rfl, fun nodeId inside => ?_⟩
  · rw [grown_length]
    exact Nat.lt_succ_self _
  · rw [grown_length, none] at inside
    have isFirst : nodeId = index.nodes.length := by
      rw [none]
      exact Nat.lt_one_iff.mp inside
    rw [isFirst]
    exact Nat.le_refl _

end Grown

/-- There is no room for the links of a node of the level. -/
def LinksFull (index : FreshDiskAnnVectorIndex) (level : Nat) : Prop :=
  (level + 1) * index.maxNeighbors > 0xFFFFFFFF ∨
    index.links.length > 0xFFFFFFFF - (level + 1) * index.maxNeighbors

theorem allocateLinks_cases (index : FreshDiskAnnVectorIndex) (level : Nat) :
    index.LinksFull level ∧ index.allocateLinks level = none ∨
      ¬index.LinksFull level ∧ index.allocateLinks level =
        some ({ index with
          links := index.links ++ List.replicate ((level + 1) * index.maxNeighbors) noNode
          linkCounts := index.linkCounts ++ List.replicate (level + 1) 0 },
          ⟨level, index.links.length⟩) := by
  unfold allocateLinks LinksFull
  dsimp only
  split
  · rename_i full
    exact Or.inl ⟨full, rfl⟩
  · rename_i room
    exact Or.inr ⟨room, rfl⟩

/-! ## What every `Add` keeps -/

/-- What holds of a graph between two calls. -/
structure Sound (index : FreshDiskAnnVectorIndex) : Prop where
  linked : Linked index
  docIds : index.docIds.length = index.nodes.length
  limit : index.nodes.length ≤ 0xFFFFFFFF
  entry : (index.nodes = [] ∧ index.entryPoint = noNode ∧ index.maxLevel = 0) ∨
    index.Entry index.nodes.length

theorem new_sound (maxNeighbors efConstruction : Nat) : (new maxNeighbors efConstruction).Sound := by
  have none : ∀ nodeId level, ¬(new maxNeighbors efConstruction).HasLayer nodeId level :=
    fun nodeId _ layer => absurd layer.1 (Nat.not_lt_zero nodeId)
  refine ⟨⟨⟨?_, (fun nodeId node here => by cases here), ?_, rfl⟩, fun nodeId level layer => ?_,
    fun nodeId level layer => ?_, fun nodeId level layer => ?_⟩, rfl, Nat.zero_le _,
    Or.inl ⟨rfl, rfl, rfl⟩⟩
  · exact Nat.lt_of_lt_of_le Nat.two_pos (Nat.le_max_left 2 _)
  · exact (Nat.zero_mul _).symm
  all_goals exact absurd layer (none nodeId level)

section Add

variable {S : Type} [FloatCompare S] {heaps : Heaps S} {cosine : UInt32 → UInt32 → S} {sorts : Prop}

/-- A graph of this size refuses the document: its id does not fit, or there is no room. -/
def RefusesAt (maxNeighbors nodeCount linkSlots : Nat) (docId : UInt64) : Prop :=
  (docId.toNat > 0xFFFFFFFF ∨ nodeCount ≥ 0xFFFFFFFF) ∨
    ((Context.VectorIndex.randomLevel docId + 1) * maxNeighbors > 0xFFFFFFFF ∨
      linkSlots > 0xFFFFFFFF - (Context.VectorIndex.randomLevel docId + 1) * maxNeighbors)

instance (maxNeighbors nodeCount linkSlots : Nat) (docId : UInt64) :
    Decidable (RefusesAt maxNeighbors nodeCount linkSlots docId) :=
  inferInstanceAs (Decidable (_ ∨ _))

def Refuses (index : FreshDiskAnnVectorIndex) (docId : UInt64) : Prop :=
  RefusesAt index.maxNeighbors index.nodes.length index.links.length docId

/-- The documents that a graph of this size takes. -/
def taken (maxNeighbors : Nat) : (nodeCount linkSlots : Nat) → List UInt64 → List UInt64
  | _, _, [] => []
  | nodeCount, linkSlots, docId :: rest =>
      if RefusesAt maxNeighbors nodeCount linkSlots docId then
        taken maxNeighbors nodeCount linkSlots rest
      else
        docId :: taken maxNeighbors (nodeCount + 1)
          (linkSlots + (Context.VectorIndex.randomLevel docId + 1) * maxNeighbors) rest

theorem taken_sublist (maxNeighbors : Nat) (docIds : List UInt64) :
    ∀ nodeCount linkSlots, (taken maxNeighbors nodeCount linkSlots docIds).Sublist docIds := by
  induction docIds with
  | nil => exact fun _ _ => List.Sublist.refl _
  | cons docId rest inductionHypothesis =>
      intro nodeCount linkSlots
      rw [taken]
      split
      · exact (inductionHypothesis _ _).cons docId
      · exact (inductionHypothesis _ _).cons_cons docId

/-- What a call leaves: the graph as it was, or a sound graph with one document more. -/
structure Added (index : FreshDiskAnnVectorIndex) (docId : UInt64)
    (result : FreshDiskAnnVectorIndex × Bool) : Prop where
  sound : result.1.Sound
  maxNeighbors : result.1.maxNeighbors = index.maxNeighbors
  refused : result.2 = false → index.Refuses docId ∧ result.1 = index
  accepted : result.2 = true → ¬index.Refuses docId ∧
    result.1.docIds = index.docIds ++ [docId.toUInt32] ∧
    result.1.links.length = index.links.length +
      (Context.VectorIndex.randomLevel docId + 1) * index.maxNeighbors

/-- `Add` refuses the document, or works on the grown graph. -/
theorem add_cases (index : FreshDiskAnnVectorIndex) (docId : UInt64) :
    index.Refuses docId ∧ index.add heaps cosine docId = .ok (index, false) ∨
      ¬index.Refuses docId ∧
        index.add heaps cosine docId =
          let grown := index.grown docId.toUInt32 (Context.VectorIndex.randomLevel docId)
          if index.entryPoint = noNode then
            .ok ({ grown with
              entryPoint := index.nodes.length
              maxLevel := grown.nodeLevel index.nodes.length }, true)
          else (grown.connect heaps cosine index.nodes.length).map fun connected =>
            (connected, true) := by
  unfold add Refuses
  by_cases full : docId.toNat > 0xFFFFFFFF ∨ index.nodes.length ≥ 0xFFFFFFFF
  · rw [if_pos full]
    exact Or.inl ⟨Or.inl full, rfl⟩
  · rw [if_neg full]
    rcases allocateLinks_cases index (Context.VectorIndex.randomLevel docId) with
      ⟨linksFull, none⟩ | ⟨room, some⟩
    · rw [none]
      exact Or.inl ⟨Or.inr linksFull, rfl⟩
    · rw [some]
      exact Or.inr ⟨not_or.mpr ⟨full, room⟩, rfl⟩

theorem grown_links_length (index : FreshDiskAnnVectorIndex) (docId : UInt32) (level : Nat) :
    (index.grown docId level).links.length =
      index.links.length + (level + 1) * index.maxNeighbors := by
  rw [grown, List.length_append, List.length_replicate]

theorem add_leads {index : FreshDiskAnnVectorIndex} (sound : index.Sound) (docId : UInt64)
    (orders : sorts → ¬index.Refuses docId → (index.grown docId.toUInt32
      (Context.VectorIndex.randomLevel docId)).OrdersDocs cosine) :
    Leads (Stops sorts) (index.add heaps cosine docId) (index.Added docId) := by
  rcases @add_cases S _ heaps cosine index docId with ⟨refuses, ran⟩ | ⟨takes, ran⟩
  · rw [ran]
    exact ⟨sound, rfl, fun _ => ⟨refuses, rfl⟩, fun same => by cases same⟩
  · rw [ran]
    have limit : index.nodes.length < 0xFFFFFFFF :=
      Nat.not_le.mp (not_or.mp (not_or.mp takes).1).2
    have links := index.grown_links_length docId.toUInt32 (Context.VectorIndex.randomLevel docId)
    generalize sameLevel : Context.VectorIndex.randomLevel docId = level at orders links ⊢
    have linked := @grown_linked index docId.toUInt32 level sound.linked
    have docIds := @grown_docIds index docId.toUInt32 level sound.docIds
    have few : (index.grown docId.toUInt32 level).nodes.length ≤ 0xFFFFFFFF := by
      rw [grown_length]
      exact limit
    dsimp only
    split
    · rename_i isEmpty
      have none : index.nodes = [] := by
        rcases sound.entry with empty | entry
        · exact empty.1
        · exact absurd isEmpty (entry.ne_noNode limit)
      have firstLinked : Linked { index.grown docId.toUInt32 level with
          entryPoint := index.nodes.length
          maxLevel := (index.grown docId.toUInt32 level).nodeLevel index.nodes.length } :=
        ⟨⟨linked.layout.positive, linked.layout.offsets, linked.layout.links,
          linked.layout.counts⟩, linked.fits, linked.nodup, linked.leads⟩
      exact ⟨⟨firstLinked, docIds, few, Or.inr (first_entry none _ _)⟩, rfl,
        (fun same => by cases same), fun _ => ⟨takes, rfl, by rw [sameLevel]; exact links⟩⟩
    · rename_i hasNodes
      have entry : index.Entry index.nodes.length := by
        rcases sound.entry with empty | entry
        · exact absurd empty.2.1 hasNodes
        · exact entry
      have connected := @connect_leads S _ heaps cosine sorts _ _
        (fun holds => orders holds takes) grown_length linked
        (grown_unlinked sound.linked) (grown_entry entry)
      refine connected.bind fun connected kept => ?_
      obtain ⟨nodes, ids, most, connectedLinked, connectedEntry⟩ := kept
      have connectedLinks : connected.links.length = index.links.length +
          (Context.VectorIndex.randomLevel docId + 1) * index.maxNeighbors := by
        rw [sameLevel, connectedLinked.layout.links, nodes, most, ← linked.layout.links, links]
      refine Leads.pure ⟨⟨connectedLinked, ?_, ?_, Or.inr connectedEntry⟩, most,
        (fun same => by cases same), fun _ => ⟨takes, ids, connectedLinks⟩⟩
      · rw [ids, nodes, docIds]
      · rw [nodes]
        exact few

/-- The scores of these documents are ordered, or there is none to compare. -/
def OrdersScores (cosine : UInt32 → UInt32 → S) (docIds : List UInt32) : Prop :=
  docIds.length ≤ 1 ∨ ∃ scores : S → Prop, LinearOn scores ∧
    ∀ left ∈ docIds, ∀ right ∈ docIds, scores (cosine left right)

theorem OrdersScores.mono {docIds fewer : List UInt32} (orders : OrdersScores cosine docIds)
    (sub : fewer.Sublist docIds) : OrdersScores cosine fewer := by
  rcases orders with short | ⟨scores, linear, ordered⟩
  · exact Or.inl (Nat.le_trans sub.length_le short)
  · exact Or.inr ⟨scores, linear, fun left leftIn right rightIn =>
      ordered left (sub.subset leftIn) right (sub.subset rightIn)⟩

theorem OrdersScores.ordersDocs {index : FreshDiskAnnVectorIndex}
    (docIds : index.docIds.length = index.nodes.length)
    (orders : OrdersScores cosine index.docIds) : index.OrdersDocs cosine := by
  intro nodeId inside
  rcases orders with short | ⟨scores, linear, ordered⟩
  · rw [docIds] at short
    exact orders_of_short short
  · have stored : ∀ nodeId, nodeId < index.nodes.length →
        index.docIds.getD nodeId 0 ∈ index.docIds := by
      intro nodeId inside
      rw [← docIds] at inside
      rw [List.getD_eq_getElem _ _ inside]
      exact List.getElem_mem inside
    exact linear.orders fun other otherInside =>
      ordered _ (stored nodeId inside) _ (stored other otherInside)

/-- The link slots of the nodes of documents. -/
def linkSlotsOf (maxNeighbors : Nat) (docIds : List UInt64) : Nat :=
  (docIds.map fun docId => (Context.VectorIndex.randomLevel docId + 1) * maxNeighbors).sum

/-- The documents that a graph takes. -/
def takes (index : FreshDiskAnnVectorIndex) (docIds : List UInt64) : List UInt64 :=
  taken index.maxNeighbors index.nodes.length index.links.length docIds

theorem takes_refused {index : FreshDiskAnnVectorIndex} {docId : UInt64} {rest : List UInt64}
    (refuses : index.Refuses docId) : index.takes (docId :: rest) = index.takes rest := by
  rw [takes, taken]
  exact if_pos refuses

theorem takes_accepted {index after : FreshDiskAnnVectorIndex} {docId : UInt64}
    {rest : List UInt64} (accepts : ¬index.Refuses docId) (sound : index.Sound)
    (added : index.Added docId (after, true)) :
    index.takes (docId :: rest) = docId :: after.takes rest := by
  obtain ⟨-, stored, links⟩ := added.accepted rfl
  have nodes : after.nodes.length = index.nodes.length + 1 := by
    have length := congrArg List.length stored
    rw [List.length_append, List.length_singleton, sound.docIds] at length
    exact added.sound.docIds.symm.trans length
  have most : after.maxNeighbors = index.maxNeighbors := added.maxNeighbors
  have slots : after.links.length = index.links.length +
      (Context.VectorIndex.randomLevel docId + 1) * index.maxNeighbors := links
  rw [takes, taken, takes, nodes, most, slots]
  exact if_neg accepts

theorem takes_head {index : FreshDiskAnnVectorIndex} {docId : UInt64} {rest : List UInt64}
    (accepts : ¬index.Refuses docId) : ∃ others, index.takes (docId :: rest) = docId :: others := by
  rw [takes, taken]
  exact ⟨_, if_neg accepts⟩

/-- What a run of calls leaves: a sound graph of the old documents and of those taken. -/
structure AddedAll (index : FreshDiskAnnVectorIndex) (docIds : List UInt64)
    (after : FreshDiskAnnVectorIndex) : Prop where
  sound : after.Sound
  stored : after.docIds = index.docIds ++ (index.takes docIds).map UInt64.toUInt32
  slots : after.links.length = index.links.length + linkSlotsOf index.maxNeighbors (index.takes docIds)
  narrow : ∀ docId ∈ index.takes docIds, docId.toNat ≤ 0xFFFFFFFF

/-- The ids are the ones of the documents. -/
theorem AddedAll.docIds {index after : FreshDiskAnnVectorIndex} {docIds : List UInt64}
    (added : index.AddedAll docIds after) :
    after.docIds.map UInt32.toUInt64 =
      index.docIds.map UInt32.toUInt64 ++ index.takes docIds := by
  rw [added.stored, List.map_append, List.map_map]
  refine congrArg _ ?_
  conv_rhs => rw [← List.map_id (index.takes docIds)]
  exact List.map_congr_left fun docId member => Format.toUInt64_docId (added.narrow docId member)

theorem addAll_leads (docIds : List UInt64) :
    ∀ {index : FreshDiskAnnVectorIndex}, index.Sound →
      (sorts → OrdersScores cosine
        (index.docIds ++ (index.takes docIds).map UInt64.toUInt32)) →
        Leads (Stops sorts) (index.addAll heaps cosine docIds) (index.AddedAll docIds) := by
  induction docIds with
  | nil =>
      intro index sound _
      exact ⟨sound, (List.append_nil _).symm, rfl, fun _ member => absurd member List.not_mem_nil⟩
  | cons docId rest inductionHypothesis =>
      intro index sound orders
      have added := @add_leads S _ heaps cosine sorts index sound docId fun holds accepts => by
        refine OrdersScores.ordersDocs (grown_docIds sound.docIds) ((orders holds).mono ?_)
        obtain ⟨others, head⟩ := @takes_head index docId rest accepts
        rw [head, List.map_cons]
        exact (List.cons_sublist_cons.mpr (List.nil_sublist _)).append_left index.docIds
      rw [addAll, List.foldlM_cons]
      have first : Leads (Stops sorts) ((index.add heaps cosine docId).map Prod.fst)
          fun after => ∃ flag, index.Added docId (after, flag) := by
        cases ran : index.add heaps cosine docId with
        | error fault =>
            rw [ran] at added
            exact added
        | ok result =>
            rw [ran] at added
            exact ⟨result.2, added⟩
      refine first.bind fun after kept => ?_
      obtain ⟨flag, afterAdded⟩ := kept
      cases flag with
      | false =>
          obtain ⟨refuses, same⟩ := afterAdded.refused rfl
          have unchanged : after = index := same
          rw [unchanged]
          rw [takes_refused refuses] at orders
          refine (inductionHypothesis sound orders).mono fun last lastKept => ?_
          refine ⟨lastKept.sound, ?_, ?_, ?_⟩
          · rw [takes_refused refuses]
            exact lastKept.stored
          · rw [takes_refused refuses]
            exact lastKept.slots
          · rw [takes_refused refuses]
            exact lastKept.narrow
      | true =>
          obtain ⟨accepts, stored, links⟩ := afterAdded.accepted rfl
          have afterLinks : after.links.length = index.links.length +
            (Context.VectorIndex.randomLevel docId + 1) * index.maxNeighbors := links
          have most : after.maxNeighbors = index.maxNeighbors := afterAdded.maxNeighbors
          have ids : after.docIds = index.docIds ++ [docId.toUInt32] := stored
          have all := @takes_accepted index after docId rest accepts sound afterAdded
          have next : after.docIds ++ (after.takes rest).map UInt64.toUInt32 =
              index.docIds ++ (index.takes (docId :: rest)).map UInt64.toUInt32 := by
            rw [all, ids, List.append_assoc, List.map_cons, List.singleton_append]
          rw [← next] at orders
          refine (inductionHypothesis afterAdded.sound orders).mono fun last lastKept => ?_
          refine ⟨lastKept.sound, lastKept.stored.trans next, ?_, fun other member => ?_⟩
          · rw [lastKept.slots, afterLinks, all, most, linkSlotsOf, linkSlotsOf, List.map_cons,
              List.sum_cons, Nat.add_assoc]
          rw [all] at member
          rcases List.mem_cons.mp member with rfl | later
          · exact Nat.not_lt.mp (not_or.mp (not_or.mp accepts).1).1
          · exact lastKept.narrow other later

end Add

/-! ## The representation -/

/-- The representation: every layer has its own range of links and its own count, a link leads
to another node of the layer, and the entry point has the highest level. -/
structure WellFormed (index : FreshDiskAnnVectorIndex) : Prop where
  rangesInside : ∀ nodeId level, index.HasLayer nodeId level →
    index.linkOffset nodeId level + index.maxNeighbors ≤ index.links.length
  rangesApart : ∀ nodeId level other otherLevel, index.HasLayer nodeId level →
    index.HasLayer other otherLevel → (other ≠ nodeId ∨ otherLevel ≠ level) →
      index.linkOffset nodeId level + index.maxNeighbors ≤ index.linkOffset other otherLevel ∨
        index.linkOffset other otherLevel + index.maxNeighbors ≤ index.linkOffset nodeId level
  countsInside : ∀ nodeId level, index.HasLayer nodeId level →
    index.linkCountIndex nodeId level < index.linkCounts.length
  countsApart : ∀ nodeId level other otherLevel, index.HasLayer nodeId level →
    index.HasLayer other otherLevel → (other ≠ nodeId ∨ otherLevel ≠ level) →
      index.linkCountIndex nodeId level ≠ index.linkCountIndex other otherLevel
  counts : ∀ nodeId level, index.HasLayer nodeId level →
    index.linkCount nodeId level ≤ index.maxNeighbors
  neighborsLead : ∀ nodeId level, index.HasLayer nodeId level →
    ∀ neighbor ∈ index.neighbors nodeId level, index.HasLayer neighbor level ∧ neighbor ≠ nodeId
  neighborsNodup : ∀ nodeId level, index.HasLayer nodeId level →
    (index.neighbors nodeId level).Nodup
  entry : (index.nodes = [] ∧ index.entryPoint = noNode) ∨ index.Entry index.nodes.length

theorem Sound.wellFormed {index : FreshDiskAnnVectorIndex} (sound : index.Sound) :
    index.WellFormed := by
  have layout := sound.linked.layout
  exact ⟨fun _ _ layer => layout.range_inside layer,
    fun _ _ _ _ layer otherLayer apart => layout.ranges_apart layer otherLayer apart,
    fun _ _ layer => layout.countIndex_lt layer,
    fun _ _ _ _ layer otherLayer apart => layout.countIndex_ne layer otherLayer apart,
    sound.linked.fits, sound.linked.leads, sound.linked.nodup,
    sound.entry.imp_left fun empty => ⟨empty.1, empty.2.1⟩⟩

/-- With scores of a linear order every sequence of `Add` on an empty graph goes through. -/
theorem addAll_builds {S : Type} [LinearOrder S] (heaps : Heaps S) (cosine : UInt32 → UInt32 → S)
    (maxNeighbors efConstruction : Nat) (docIds : List UInt64) :
    ∃ index, (new maxNeighbors efConstruction).addAll heaps cosine docIds = .ok index ∧
      (new maxNeighbors efConstruction).AddedAll docIds index := by
  have added := @addAll_leads S _ heaps cosine True docIds (new maxNeighbors efConstruction)
    (new_sound maxNeighbors efConstruction) fun _ =>
      Or.inr ⟨fun _ => True, linearOn_of_linearOrder, fun _ _ _ _ => trivial⟩
  exact added.exists_ok fun _ stops => stops.2 trivial

/-- Every graph that is built holds the documents that it takes, in a sound representation. -/
theorem addAll_wellFormed {S : Type} [LinearOrder S] (heaps : Heaps S)
    (cosine : UInt32 → UInt32 → S) (maxNeighbors efConstruction : Nat) (docIds : List UInt64) :
    ∃ index, (new maxNeighbors efConstruction).addAll heaps cosine docIds = .ok index ∧
      index.docIds.map UInt32.toUInt64 = (new maxNeighbors efConstruction).takes docIds ∧
      index.docIds.length = index.nodes.length ∧ index.WellFormed := by
  obtain ⟨index, ran, kept⟩ := addAll_builds heaps cosine maxNeighbors efConstruction docIds
  exact ⟨index, ran, kept.docIds, kept.sound.docIds, kept.sound.wellFormed⟩

end FreshDiskAnnVectorIndex

end MoonShot.Vector
