import MoonShot.Vector.Rewiring

/-!
Insertion into the vector graph.

Owns what holds of every graph that `Add` builds: where the links stand, that they lead to
other nodes of their level, and that the entry point has the highest level.

Does not own the searches for a query.
-/

namespace MoonShot.Vector

open MoonShot.Lib
open FloatCompare

namespace FreshDiskAnnVectorIndex

variable {S : Type} [FloatCompare S]

/-! ## Graphs with links -/

/-- The links lead to other nodes of their level. -/
structure Linked (index : FreshDiskAnnVectorIndex) : Prop where
  layout : index.Layout
  fits : index.Fits
  nodup : ∀ nodeId level, index.HasLayer nodeId level → (index.neighbors nodeId level).Nodup
  leads : ∀ nodeId level, index.HasLayer nodeId level → ∀ neighbor ∈ index.neighbors nodeId level,
    index.HasLayer neighbor level ∧ neighbor ≠ nodeId

/-- Only links differ. -/
def SameNodes (first second : FreshDiskAnnVectorIndex) : Prop :=
  second = { first with links := second.links, linkCounts := second.linkCounts }

/-- Below the limit no link leads to the node. -/
def Unlinked (newNode limit : Nat) (index : FreshDiskAnnVectorIndex) : Prop :=
  ∀ level, level < limit → ∀ nodeId, index.HasLayer nodeId level →
    newNode ∉ index.neighbors nodeId level

section Rewire

variable {before after : FreshDiskAnnVectorIndex} {nodeId level : Nat} {row : List Nat}

omit [FloatCompare S] in
theorem Linked.rewired (linked : Linked before) (rewired : Rewired before after nodeId level row)
    (nodup : row.Nodup) (few : row.length ≤ before.maxNeighbors)
    (leads : ∀ neighbor ∈ row, before.HasLayer neighbor level ∧ neighbor ≠ nodeId) :
    Linked after := by
  have most : after.maxNeighbors = before.maxNeighbors := by rw [rewired.frame]
  refine ⟨rewired.layout linked.layout, fun other otherLevel layer => ?_,
    fun other otherLevel layer => ?_, fun other otherLevel layer neighbor member => ?_⟩
  all_goals
    have layerBefore := (frame_hasLayer rewired.frame).mp layer
    by_cases same : other = nodeId ∧ otherLevel = level
  · rw [same.1, same.2, rewired.count, most]
    exact few
  · rw [(rewired.others other otherLevel layerBefore (by tauto)).2, most]
    exact linked.fits other otherLevel layerBefore
  · rw [same.1, same.2, rewired.here]
    exact nodup
  · rw [(rewired.others other otherLevel layerBefore (by tauto)).1]
    exact linked.nodup other otherLevel layerBefore
  · rw [same.1, same.2, rewired.here] at member
    rw [frame_hasLayer rewired.frame, same.1, same.2]
    exact leads neighbor member
  · rw [(rewired.others other otherLevel layerBefore (by tauto)).1] at member
    rw [frame_hasLayer rewired.frame]
    exact linked.leads other otherLevel layerBefore neighbor member

omit [FloatCompare S] in
theorem Unlinked.rewired {newNode limit : Nat} (unlinked : Unlinked newNode limit before)
    (rewired : Rewired before after nodeId level row) (above : limit ≤ level) :
    Unlinked newNode limit after := by
  intro otherLevel below other layer
  have layerBefore := (frame_hasLayer rewired.frame).mp layer
  rw [(rewired.others other otherLevel layerBefore (Or.inr (by omega))).1]
  exact unlinked otherLevel below other layerBefore

end Rewire

omit [FloatCompare S] in
theorem SameNodes.trans {first second third : FreshDiskAnnVectorIndex}
    (left : SameNodes first second) (right : SameNodes second third) : SameNodes first third := by
  unfold SameNodes at left right ⊢
  rw [right, left]

omit [FloatCompare S] in
/-- The nodes of a level without the new node are left by no link to them. -/
theorem Linked.closed {index : FreshDiskAnnVectorIndex} (linked : Linked index) {newNode limit : Nat}
    (unlinked : Unlinked newNode limit index) {level : Nat} (below : level < limit) :
    index.Closed level fun nodeId => index.HasLayer nodeId level ∧ nodeId ≠ newNode := by
  refine ⟨fun nodeId here => here.1.1, fun nodeId here neighbor member => ?_⟩
  refine ⟨(linked.leads nodeId level here.1 neighbor member).1, ?_⟩
  rintro rfl
  exact unlinked level below nodeId here.1 member

/-! ## One layer of the new node -/

/-- A loop over levels from the highest down. -/
theorem leads_levels {α : Type} {allowed : Fault → Prop} {turn : α → Nat → Checked α}
    {holds : Nat → α → Prop} {low : Nat} :
    ∀ {count : Nat} {state : α}, holds (low + count) state →
      (∀ level, low ≤ level → level < low + count → ∀ before, holds (level + 1) before →
        Leads allowed (turn before level) (holds level)) →
      Leads allowed ((List.range' low count).reverse.foldlM turn state) (holds low) := by
  intro count
  induction count with
  | zero =>
      intro state start _
      exact start
  | succ count inductionHypothesis =>
      intro state start turns
      rw [List.range'_1_concat, List.reverse_append, List.reverse_singleton, List.singleton_append,
        List.foldlM_cons]
      refine (turns (low + count) (Nat.le_add_right _ _) (by omega) state start).bind
        fun after kept => ?_
      exact inductionHypothesis kept fun level least below => turns level least (by omega)

section Connect

variable {heaps : Heaps S} {cosine : UInt32 → UInt32 → S} {sorts : Prop}

/-- The scores of every node with all nodes are ordered. -/
def OrdersDocs (index : FreshDiskAnnVectorIndex) (cosine : UInt32 → UInt32 → S) : Prop :=
  ∀ nodeId, nodeId < index.nodes.length →
    Orders (index.scoreDoc cosine nodeId) fun other => other < index.nodes.length

theorem OrdersDocs.same {first second : FreshDiskAnnVectorIndex} (same : SameNodes first second)
    (orders : first.OrdersDocs cosine) : second.OrdersDocs cosine := by
  have nodes := frame_nodes same
  have scores := @frame_scoreDoc first second same S cosine
  unfold OrdersDocs at orders ⊢
  rw [nodes, scores]
  exact orders

/-- `LinkBack` of the new node into nodes of the level. -/
theorem linkBacks_leads {newNode level : Nat} {start : FreshDiskAnnVectorIndex}
    (orders : sorts → start.OrdersDocs cosine) (newLayer : start.HasLayer newNode level)
    (linked : Linked start) (unlinked : Unlinked newNode level start) {selected : List Nat}
    (here : ∀ nodeId ∈ selected, start.HasLayer nodeId level ∧ nodeId ≠ newNode) :
    Leads (Stops sorts)
      (selected.foldlM
        (fun (index : FreshDiskAnnVectorIndex) neighbor =>
          index.linkBack cosine neighbor newNode level) start)
      fun after => SameNodes start after ∧ Linked after ∧ Unlinked newNode level after := by
  refine Leads.foldlM ⟨rfl, linked, unlinked⟩ fun nodeId member index kept => ?_
  obtain ⟨same, indexLinked, indexUnlinked⟩ := kept
  obtain ⟨startLayer, apart⟩ := here nodeId member
  have layer := (frame_hasLayer same).mpr startLayer
  have newHere := (frame_hasLayer same).mpr newLayer
  have back := @linkBack_leads S _ index nodeId level sorts cosine indexLinked.layout
    indexLinked.fits layer (fun other => other < index.nodes.length)
    (fun holds => OrdersDocs.same same (orders holds) nodeId layer.1)
    (fun neighbor inRow => (indexLinked.leads nodeId level layer neighbor inRow).1.1) newNode
    newHere.1 (indexLinked.nodup nodeId level layer)
  refine back.mono fun after wired => ?_
  obtain ⟨row, rewired, nodup, few, members⟩ := wired
  refine ⟨same.trans rewired.frame, ?_, indexUnlinked.rewired rewired (Nat.le_refl level)⟩
  refine indexLinked.rewired rewired nodup few fun neighbor inRow => ?_
  rcases members neighbor inRow with rfl | earlier
  · exact ⟨newHere, apart.symm⟩
  · exact indexLinked.leads nodeId level layer neighbor earlier

/-- What `SearchLayer` finds. -/
structure Found (score : Nat → S) (ef : Nat) (inside : Nat → Prop) (found : List (ScoredNode S)) :
    Prop where
  inside : ∀ item ∈ found, inside item.nodeId
  scores : ∀ item ∈ found, item = scored score item.nodeId
  nodup : (found.map ScoredNode.nodeId).Nodup
  size : 1 ≤ ef → found.length ≤ ef

omit [FloatCompare S] in
theorem Found.perm {score : Nat → S} {ef : Nat} {inside : Nat → Prop}
    {found sorted : List (ScoredNode S)} (here : Found score ef inside found)
    (perm : sorted.Perm found) : Found score ef inside sorted :=
  ⟨fun item member => here.inside item (perm.mem_iff.mp member),
    fun item member => here.scores item (perm.mem_iff.mp member),
    (perm.map ScoredNode.nodeId).nodup_iff.mpr here.nodup,
    fun positive => Nat.le_trans (Nat.le_of_eq perm.length_eq) (here.size positive)⟩

theorem searchLayer_leads {index : FreshDiskAnnVectorIndex} {level entry ef : Nat}
    {score : Nat → S} {inside : Nat → Prop} (closed : index.Closed level inside)
    (here : inside entry) (orders : sorts → Orders score inside) :
    Leads (Stops sorts) (index.searchLayer heaps entry ef level score)
      (Found score ef inside) := by
  obtain ⟨final, ran, searching⟩ := @searchLoop_searching S _ heaps index ef level score inside
    entry closed here
  have unsorted : Found score ef inside (heaps.results.items final.results) :=
    ⟨fun item member => searching.visitedInside _ (searching.results item member).1,
      fun item member => (searching.results item member).2, searching.resultsNodup,
      searching.size⟩
  rw [searchLayer, ran, ok_bind]
  refine (sortBy_orders orders unsorted.nodup fun item member =>
    ⟨unsorted.inside item member, unsorted.scores item member⟩).mono fun sorted perm => ?_
  exact unsorted.perm perm

theorem selectNeighbors_leads {candidates : List (ScoredNode S)} {score : Nat → S} {ef : Nat}
    {inside : Nat → Prop} (found : Found score ef inside candidates)
    (orders : sorts → Orders score inside) (maxNeighbors : Nat) :
    Leads (Stops sorts) (selectNeighbors candidates maxNeighbors) fun selected =>
      selected.Nodup ∧ selected.length ≤ maxNeighbors ∧ ∀ nodeId ∈ selected, inside nodeId := by
  rw [selectNeighbors]
  refine (sortBy_orders orders found.nodup fun item member =>
    ⟨found.inside item member, found.scores item member⟩).bind fun sorted perm => ?_
  have sortedFound := found.perm perm
  refine Leads.pure ⟨?_, ?_, fun nodeId member => ?_⟩
  · exact sortedFound.nodup.sublist ((List.take_sublist _ _).map _)
  · rw [List.length_map, List.length_take]
    exact Nat.min_le_left _ _
  · obtain ⟨item, taken, rfl⟩ := List.mem_map.mp member
    exact sortedFound.inside item (List.mem_of_mem_take taken)

/-- What holds when the layers from the limit on are linked. -/
structure Linking (grown : FreshDiskAnnVectorIndex) (newNode limit : Nat)
    (state : FreshDiskAnnVectorIndex × Nat) : Prop where
  same : SameNodes grown state.1
  linked : Linked state.1
  unlinked : Unlinked newNode limit state.1
  entry : ∀ level, level < limit → grown.HasLayer state.2 level
  apart : state.2 ≠ newNode

/-- One turn of the loop over the layers. -/
theorem linkLayer_leads {grown : FreshDiskAnnVectorIndex} {newNode level : Nat}
    (orders : sorts → grown.OrdersDocs cosine) (newLayer : grown.HasLayer newNode level)
    {state : FreshDiskAnnVectorIndex × Nat} (linking : Linking grown newNode (level + 1) state) :
    Leads (Stops sorts) (linkLayer heaps cosine newNode state level)
      (Linking grown newNode level) := by
  obtain ⟨index, entry⟩ := state
  obtain ⟨same, linked, unlinked, entryLayer, apart⟩ := linking
  have indexOrders : sorts → index.OrdersDocs cosine := fun holds => (orders holds).same same
  have newHere := (frame_hasLayer same).mpr newLayer
  have closed := linked.closed unlinked (Nat.lt_succ_self level)
  have entryHere : index.HasLayer entry level ∧ entry ≠ newNode :=
    ⟨(frame_hasLayer same).mpr (entryLayer level (Nat.lt_succ_self level)), apart⟩
  have scores : sorts → Orders (index.scoreDoc cosine newNode) fun nodeId =>
      index.HasLayer nodeId level ∧ nodeId ≠ newNode := fun holds =>
    (indexOrders holds newNode newHere.1).mono fun nodeId here => here.1.1
  rw [linkLayer]
  dsimp only
  refine (searchLayer_leads closed entryHere scores).bind fun candidates found => ?_
  refine (selectNeighbors_leads found scores index.maxNeighbors).bind fun selected chosen => ?_
  obtain ⟨nodup, few, here⟩ := chosen
  have set := setNeighbors_rewired linked.layout linked.fits newHere few
  have setLinked := linked.rewired set nodup few here
  have setUnlinked : Unlinked newNode level (index.setNeighbors newNode level selected) :=
    Unlinked.rewired (fun other below => unlinked other (by omega)) set (Nat.le_refl level)
  refine (linkBacks_leads (fun holds => (indexOrders holds).same set.frame)
    ((frame_hasLayer set.frame).mpr newHere) setLinked setUnlinked fun nodeId member =>
      ⟨(frame_hasLayer set.frame).mpr (here nodeId member).1, (here nodeId member).2⟩).bind
    fun after kept => ?_
  obtain ⟨sameAfter, linkedAfter, unlinkedAfter⟩ := kept
  have next : (∀ other, other < level →
      grown.HasLayer ((candidates.head?.map ScoredNode.nodeId).getD entry) other) ∧
        (candidates.head?.map ScoredNode.nodeId).getD entry ≠ newNode := by
    cases candidates with
    | nil => exact ⟨fun other below => entryLayer other (by omega), apart⟩
    | cons first rest =>
        have firstFound := found.inside first List.mem_cons_self
        have firstHere := (frame_hasLayer same).mp firstFound.1
        exact ⟨fun other below => ⟨firstHere.1, Nat.le_trans (Nat.le_of_lt below) firstHere.2⟩,
          firstFound.2⟩
  exact Leads.pure ⟨same.trans (SameNodes.trans set.frame sameAfter), linkedAfter, unlinkedAfter,
    next.1, next.2⟩

/-- The entry point has the highest level of the other nodes. -/
structure Entry (index : FreshDiskAnnVectorIndex) (nodeCount : Nat) : Prop where
  inside : index.entryPoint < nodeCount
  level : index.nodeLevel index.entryPoint = index.maxLevel
  most : ∀ nodeId, nodeId < nodeCount → index.nodeLevel nodeId ≤ index.maxLevel

/-- `AddNode` behind the allocation. -/
theorem connect_leads {grown : FreshDiskAnnVectorIndex} {newNode : Nat}
    (orders : sorts → grown.OrdersDocs cosine) (last : grown.nodes.length = newNode + 1)
    (linked : Linked grown) (unlinked : ∀ limit, Unlinked newNode limit grown)
    (entry : grown.Entry newNode) :
    Leads (Stops sorts) (grown.connect heaps cosine newNode) fun connected =>
      connected.nodes = grown.nodes ∧ connected.docIds = grown.docIds ∧
        connected.maxNeighbors = grown.maxNeighbors ∧ Linked connected ∧
          connected.Entry connected.nodes.length := by
  have newInside : newNode < grown.nodes.length := by omega
  have entryInside := entry.inside
  -- the walk down to the first layer of the new node
  have walked : Leads (Stops sorts)
      ((levelsDown grown.maxLevel (grown.nodeLevel newNode + 1)).foldlM
        (fun entry level => grown.greedySearchLayer entry level (grown.scoreDoc cosine newNode))
        grown.entryPoint)
      fun entry => (∀ level, level < min grown.maxLevel (grown.nodeLevel newNode) + 1 →
        grown.HasLayer entry level) ∧ entry ≠ newNode := by
    have start : ∀ level, level ≤ grown.maxLevel → grown.HasLayer grown.entryPoint level := by
      intro level below
      exact ⟨by omega, by rw [entry.level]; exact below⟩
    by_cases higher : grown.nodeLevel newNode < grown.maxLevel
    · have walk := @leads_levels Nat (Stops sorts)
        (fun entry level => grown.greedySearchLayer entry level (grown.scoreDoc cosine newNode))
        (fun limit entry => (∀ level, level < limit → grown.HasLayer entry level) ∧ entry ≠ newNode)
        (grown.nodeLevel newNode + 1) (grown.maxLevel + 1 - (grown.nodeLevel newNode + 1))
        grown.entryPoint ⟨fun level below => start level (by omega), by omega⟩
        (fun level _ _ before kept => by
          have closed := linked.closed (unlinked (level + 1)) (Nat.lt_succ_self level)
          obtain ⟨best, ran, here, -⟩ := greedySearchLayer_ends closed
            ⟨kept.1 level (Nat.lt_succ_self level), kept.2⟩ (grown.scoreDoc cosine newNode)
          rw [ran]
          exact ⟨fun other below => ⟨here.1.1, Nat.le_trans (Nat.le_of_lt below) here.1.2⟩, here.2⟩)
      refine walk.mono fun best kept => ⟨fun level below => kept.1 level (by omega), kept.2⟩
    · have none : grown.maxLevel + 1 - (grown.nodeLevel newNode + 1) = 0 := by omega
      rw [levelsDown, none]
      exact ⟨fun level below => start level (by omega), by omega⟩
  rw [connect]
  dsimp only
  refine walked.bind fun first firstHere => ?_
  have loop := @leads_levels (FreshDiskAnnVectorIndex × Nat) (Stops sorts)
    (linkLayer heaps cosine newNode) (Linking grown newNode) 0
    (min grown.maxLevel (grown.nodeLevel newNode) + 1 - 0) (grown, first)
    (by
      rw [Nat.sub_zero, Nat.zero_add]
      exact ⟨rfl, linked, unlinked _, firstHere.1, firstHere.2⟩)
    (fun level _ below before linking =>
      linkLayer_leads orders ⟨newInside, by omega⟩ linking)
  refine Leads.bind loop fun connected linking => ?_
  have same := linking.same
  have nodes := frame_nodes same
  have levels := frame_nodeLevel same
  have docIds : connected.1.docIds = grown.docIds := by rw [same]
  have most : connected.1.maxNeighbors = grown.maxNeighbors := by rw [same]
  have highest : connected.1.maxLevel = grown.maxLevel := by rw [same]
  have entryPoint : connected.1.entryPoint = grown.entryPoint := by rw [same]
  rw [highest]
  split
  · rename_i higher
    refine Leads.pure ⟨nodes, docIds, most, ?_, ?_, ?_, fun nodeId inside => ?_⟩
    · exact ⟨⟨linking.linked.layout.positive, linking.linked.layout.offsets,
        linking.linked.layout.links, linking.linked.layout.counts⟩, linking.linked.fits,
        linking.linked.nodup, linking.linked.leads⟩
    · show newNode < connected.1.nodes.length
      rw [nodes]
      exact newInside
    · exact levels newNode
    · show connected.1.nodeLevel nodeId ≤ grown.nodeLevel newNode
      have below : nodeId < connected.1.nodes.length := inside
      rw [nodes] at below
      rw [levels]
      by_cases isNew : nodeId = newNode
      · rw [isNew]
      · exact Nat.le_trans (entry.most nodeId (by omega)) (Nat.le_of_lt higher)
  · rename_i notHigher
    refine Leads.pure ⟨nodes, docIds, most, linking.linked, ?_, ?_, fun nodeId inside => ?_⟩
    · rw [entryPoint, nodes]
      omega
    · rw [levels, entryPoint, highest]
      exact entry.level
    · rw [nodes] at inside
      rw [levels, highest]
      by_cases isNew : nodeId = newNode
      · rw [isNew]
        exact Nat.not_lt.mp notHigher
      · exact entry.most nodeId (by omega)

end Connect

end FreshDiskAnnVectorIndex

end MoonShot.Vector
