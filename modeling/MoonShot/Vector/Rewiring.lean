import MoonShot.Vector.LayerSearch

/-!
Writing the neighbours of one layer.

Owns what `SetNeighbors`, `SortLayerByScore` and `LinkBack` leave of the links, and when the
sorts in them are given an order.

Does not own which nodes are linked.
-/

namespace MoonShot.Vector

open MoonShot.Lib
open FloatCompare

/-- A fault that only a sort without an order raises, where `sorts` says that there is none. -/
def Stops (sorts : Prop) (fault : Fault) : Prop := fault = .assertion ∧ ¬sorts

namespace FreshDiskAnnVectorIndex

variable {S : Type} [FloatCompare S]

/-- The comparison orders the scores of different nodes of these. -/
def Orders (score : Nat → S) (inside : Nat → Prop) : Prop :=
  ∀ items : List (ScoredNode S), (items.map ScoredNode.nodeId).Nodup →
    (∀ item ∈ items, inside item.nodeId ∧ item = scored score item.nodeId) →
      OrderOn compareNodes items

theorem Orders.mono {score : Nat → S} {inside fewer : Nat → Prop} (orders : Orders score inside)
    (sub : ∀ nodeId, fewer nodeId → inside nodeId) : Orders score fewer :=
  fun items nodup here => orders items nodup fun item member =>
    ⟨sub item.nodeId (here item member).1, (here item member).2⟩

/-- One node has no other one to be compared with. -/
theorem orders_of_short {score : Nat → S} {limit : Nat} (short : limit ≤ 1) :
    Orders score fun nodeId => nodeId < limit := by
  intro items nodup here
  have most := length_le_of_below nodup fun nodeId member => by
    obtain ⟨item, itemIn, rfl⟩ := List.mem_map.mp member
    exact (here item itemIn).1
  rw [List.length_map] at most
  exact orderOn_of_short (Nat.le_trans most short)

theorem sortBy_orders {sorts : Prop} {score : Nat → S} {inside : Nat → Prop}
    (orders : sorts → Orders score inside) {items : List (ScoredNode S)}
    (nodup : (items.map ScoredNode.nodeId).Nodup)
    (here : ∀ item ∈ items, inside item.nodeId ∧ item = scored score item.nodeId) :
    Leads (Stops sorts) (sortBy compareNodes items) fun sorted => sorted.Perm items := by
  unfold sortBy
  split
  · exact List.mergeSort_perm _ _
  · rename_i noOrder
    exact ⟨rfl, fun holds => noOrder (orders holds items nodup here)⟩

/-- A sort of nodes by their scores. -/
theorem sortBy_nodes {sorts : Prop} {score : Nat → S} {inside : Nat → Prop}
    (orders : sorts → Orders score inside) {nodes : List Nat} (nodup : nodes.Nodup)
    (here : ∀ nodeId ∈ nodes, inside nodeId) :
    Leads (Stops sorts)
      (sortBy (fun left right => compareScoreThenDocId (score left) left (score right) right) nodes)
      fun sorted => sorted.Perm nodes := by
  unfold sortBy
  split
  · exact List.mergeSort_perm _ _
  · rename_i noOrder
    refine ⟨rfl, fun holds => noOrder ?_⟩
    have nodeIds : (nodes.map (scored score)).map ScoredNode.nodeId = nodes := by
      rw [List.map_map]
      exact List.map_id nodes
    obtain ⟨swapped, transitive⟩ := orders holds (nodes.map (scored score))
      (by rwa [nodeIds]) fun item member => by
      obtain ⟨nodeId, inNodes, rfl⟩ := List.mem_map.mp member
      exact ⟨here nodeId inNodes, rfl⟩
    refine ⟨List.pairwise_map.mp swapped, fun first firstIn second secondIn third thirdIn => ?_⟩
    exact transitive _ (List.mem_map_of_mem firstIn) _ (List.mem_map_of_mem secondIn) _
      (List.mem_map_of_mem thirdIn)

/-! ## One layer -/

/-- No layer holds more links than it has room for. -/
def Fits (index : FreshDiskAnnVectorIndex) : Prop :=
  ∀ nodeId level, index.HasLayer nodeId level → index.linkCount nodeId level ≤ index.maxNeighbors

section OneLayer

variable {index : FreshDiskAnnVectorIndex} {nodeId level : Nat}

omit [FloatCompare S] in
theorem linksAt_length {offset count : Nat} (inside : offset + count ≤ index.links.length) :
    (index.linksAt offset count).length = count := by
  rw [linksAt, List.length_take, List.length_drop]
  omega

theorem neighbors_length (layout : index.Layout) (fits : index.Fits)
    (layer : index.HasLayer nodeId level) :
    index.linkCount nodeId level = (index.neighbors nodeId level).length := by
  have room := layout.range_inside layer
  have most := fits nodeId level layer
  rw [neighbors_eq layer, linksAt_length (by omega)]

/-- `SetNeighbors` -/
theorem setNeighbors_rewired (layout : index.Layout) (fits : index.Fits)
    (layer : index.HasLayer nodeId level) {row : List Nat} (few : row.length ≤ index.maxNeighbors) :
    Rewired index (index.setNeighbors nodeId level row) nodeId level row := by
  have room := layout.range_inside layer
  have filled : index.linkOffset nodeId level +
      (List.replicate index.maxNeighbors noNode).length ≤ index.links.length := by
    rwa [List.length_replicate]
  have cleared := @writeAt_length index.links (List.replicate index.maxNeighbors noNode)
    (index.linkOffset nodeId level) filled
  have copied : index.linkOffset nodeId level + row.length ≤
      (writeAt index.links (index.linkOffset nodeId level)
        (List.replicate index.maxNeighbors noNode)).length := by
    rw [cleared]
    omega
  rw [setNeighbors, if_pos ((hasLayer_iff layer.1).mpr layer), Nat.min_eq_left few]
  dsimp only
  rw [List.take_length]
  refine rewired_of_writes layout layer fits rfl rfl ?_ ?_ fun start count apart => ?_
  · rw [writeAt_length copied, cleared]
  · exact take_drop_writeAt copied
  · refine (take_drop_writeAt_apart copied ?_).trans (take_drop_writeAt_apart filled ?_)
    · omega
    · rw [List.length_replicate]
      exact apart

theorem set_linkCount (layout : index.Layout) (layer : index.HasLayer nodeId level) {count : Nat}
    (same : index.linkCount nodeId level = count) :
    index.linkCounts = index.linkCounts.set (index.linkCountIndex nodeId level) count := by
  have inside := layout.countIndex_lt layer
  rw [← same, linkCount, List.getD_eq_getElem _ _ inside, List.set_getElem_self]

variable {sorts : Prop} {cosine : UInt32 → UInt32 → S}

/-- `SortLayerByScore` only moves the links of the layer. -/
theorem sortLayerByScore_leads (layout : index.Layout) (fits : index.Fits)
    (layer : index.HasLayer nodeId level) {inside : Nat → Prop}
    (orders : sorts → Orders (index.scoreDoc cosine nodeId) inside)
    (nodup : (index.neighbors nodeId level).Nodup)
    (here : ∀ neighbor ∈ index.neighbors nodeId level, inside neighbor) :
    Leads (Stops sorts) (index.sortLayerByScore cosine nodeId level) fun after =>
      ∃ row, row.Perm (index.neighbors nodeId level) ∧ Rewired index after nodeId level row := by
  have room := layout.range_inside layer
  have most := fits nodeId level layer
  have length := neighbors_length layout fits layer
  rw [sortLayerByScore]
  have links : index.linksAt (index.linkOffset nodeId level)
      (index.linkCounts.getD (index.linkCountIndex nodeId level) 0) =
      index.neighbors nodeId level := (neighbors_eq layer).symm
  rw [links]
  refine (sortBy_nodes orders nodup here).bind fun row perm => ?_
  refine Leads.pure ⟨row, perm, ?_⟩
  have size := perm.length_eq
  have written : index.linkOffset nodeId level + row.length ≤ index.links.length := by omega
  refine rewired_of_writes layout layer fits rfl (set_linkCount layout layer (by omega)) ?_ ?_
    fun start count apart => ?_
  · exact writeAt_length written
  · exact take_drop_writeAt written
  · exact take_drop_writeAt_apart written (by omega)

/-- The position of the worst neighbour is one of the layer. -/
theorem worseNeighbor_position {offset : Nat} {count : Nat} {positions : List Nat}
    (below : ∀ position ∈ positions, position < count) {worst : Nat × S} (start : worst.1 < count) :
    (positions.foldl (index.worseNeighbor cosine nodeId offset) worst).1 < count := by
  induction positions generalizing worst with
  | nil => exact start
  | cons position rest inductionHypothesis =>
      refine inductionHypothesis (fun other member => below other (List.mem_cons_of_mem _ member)) ?_
      rw [worseNeighbor]
      split
      · exact below position List.mem_cons_self
      · exact start

/-- `LinkBack` leaves the layer as it is, appends the node to it, or puts it in the place of one
of its links. -/
theorem linkBack_leads (layout : index.Layout) (fits : index.Fits)
    (layer : index.HasLayer nodeId level) {inside : Nat → Prop}
    (orders : sorts → Orders (index.scoreDoc cosine nodeId) inside)
    (here : ∀ neighbor ∈ index.neighbors nodeId level, inside neighbor) {neighbor : Nat}
    (neighborHere : inside neighbor) (nodup : (index.neighbors nodeId level).Nodup) :
    Leads (Stops sorts) (index.linkBack cosine nodeId neighbor level) fun after =>
      ∃ row, Rewired index after nodeId level row ∧ row.Nodup ∧ row.length ≤ index.maxNeighbors ∧
        ∀ other ∈ row, other = neighbor ∨ other ∈ index.neighbors nodeId level := by
  have room := layout.range_inside layer
  have most := fits nodeId level layer
  have length := neighbors_length layout fits layer
  have unchanged : Leads (Stops sorts) (Except.ok index : Checked FreshDiskAnnVectorIndex)
      fun after => ∃ row, Rewired index after nodeId level row ∧ row.Nodup ∧
        row.length ≤ index.maxNeighbors ∧
          ∀ other ∈ row, other = neighbor ∨ other ∈ index.neighbors nodeId level :=
    ⟨_, Rewired.unchanged length, nodup, by omega, fun _ member => Or.inr member⟩
  have links : index.linksAt (index.linkOffset nodeId level)
      (index.linkCounts.getD (index.linkCountIndex nodeId level) 0) =
      index.neighbors nodeId level := (neighbors_eq layer).symm
  have count : index.linkCounts.getD (index.linkCountIndex nodeId level) 0 =
      index.linkCount nodeId level := rfl
  rw [linkBack, if_pos ((hasLayer_iff layer.1).mpr layer)]
  dsimp only
  rw [links, count]
  by_cases known : neighbor ∈ index.neighbors nodeId level
  · rw [if_pos known]
    exact unchanged
  rw [if_neg known]
  by_cases free : index.linkCount nodeId level < index.maxNeighbors
  · rw [if_pos free]
    have row : (index.neighbors nodeId level ++ [neighbor]).length =
        index.linkCount nodeId level + 1 := by
      rw [List.length_append, List.length_singleton, length]
    refine ⟨index.neighbors nodeId level ++ [neighbor], ?_, ?_, by omega, ?_⟩
    · refine rewired_of_writes layout layer fits rfl (by rw [row]) (List.length_set ..) ?_
        fun start count apart => ?_
      · rw [row, neighbors_eq layer]
        exact take_succ_drop_set (by omega)
      · exact take_drop_set_apart (by omega)
    · rw [List.nodup_append]
      refine ⟨nodup, List.nodup_singleton neighbor, fun first inRow second same => ?_⟩
      rw [List.mem_singleton.mp same]
      rintro rfl
      exact known inRow
    · intro other member
      rcases List.mem_append.mp member with inRow | same
      · exact Or.inr inRow
      · exact Or.inl (List.mem_singleton.mp same)
  rw [if_neg free]
  split
  · -- the new link takes the place of the worst one, and the layer is sorted
    generalize worstHere : (List.range' 1 (index.linkCount nodeId level - 1)).foldl
      (index.worseNeighbor cosine nodeId (index.linkOffset nodeId level))
      (0, index.scoreDoc cosine nodeId (index.links.getD (index.linkOffset nodeId level) noNode)) =
        worst
    have positive := layout.positive
    have inRow : worst.1 < index.linkCount nodeId level := by
      rw [← worstHere]
      refine worseNeighbor_position (fun position member => ?_) (by omega)
      have bounds := List.mem_range'_1.mp member
      omega
    have row : ((index.neighbors nodeId level).set worst.1 neighbor).length =
        index.linkCount nodeId level := by
      rw [List.length_set, length]
    have replaced : Rewired index
        { index with links := index.links.set (index.linkOffset nodeId level + worst.1) neighbor }
        nodeId level ((index.neighbors nodeId level).set worst.1 neighbor) := by
      refine rewired_of_writes layout layer fits rfl (set_linkCount layout layer row.symm)
        (List.length_set ..) ?_ fun start count apart => ?_
      · rw [row, neighbors_eq layer]
        exact take_drop_set (by omega) inRow
      · exact take_drop_set_apart (by omega)
    have replacedNodup : ((index.neighbors nodeId level).set worst.1 neighbor).Nodup :=
      nodup.set known
    have members : ∀ other ∈ (index.neighbors nodeId level).set worst.1 neighbor,
        other = neighbor ∨ other ∈ index.neighbors nodeId level := fun other member =>
      (List.mem_or_eq_of_mem_set member).symm
    have after := sortLayerByScore_leads (replaced.layout layout) (fun other otherLevel otherLayer => by
        have otherBefore := (frame_hasLayer replaced.frame).mp otherLayer
        by_cases same : other = nodeId ∧ otherLevel = level
        · rw [same.1, same.2, replaced.count, row]
          exact most
        · rw [(replaced.others other otherLevel otherBefore (by tauto)).2]
          exact fits other otherLevel otherBefore)
      ((frame_hasLayer replaced.frame).mpr layer)
      (fun holds => by
        rw [frame_scoreDoc replaced.frame]
        exact orders holds)
      (by rwa [replaced.here])
      (fun other member => by
        rw [replaced.here] at member
        rcases members other member with rfl | earlier
        · exact neighborHere
        · exact here other earlier)
    refine after.mono fun sortedIndex sorted => ?_
    obtain ⟨sortedRow, perm, rewired⟩ := sorted
    rw [replaced.here] at perm
    refine ⟨sortedRow, replaced.again rewired, perm.nodup_iff.mpr replacedNodup, ?_,
      fun other member => members other (perm.mem_iff.mp member)⟩
    rw [perm.length_eq, row]
    exact most
  · exact unchanged

end OneLayer

end FreshDiskAnnVectorIndex

end MoonShot.Vector
