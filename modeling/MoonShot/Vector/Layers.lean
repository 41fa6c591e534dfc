import MoonShot.Vector.Graph

/-!
Where the links of the vector graph stand.

Owns the layout of the nodes in the flat array, the slot of every layer, and what a write to
one layer does to the neighbours of all.

Does not own which neighbours are written.
-/

namespace MoonShot.Vector

open MoonShot.Lib

namespace FreshDiskAnnVectorIndex

/-! ## Layout -/

/-- How many layers the nodes have. -/
def layerCount (nodes : List Node) : Nat := (nodes.map fun node => node.level + 1).sum

/-- Node after node, layer after layer. -/
structure Layout (index : FreshDiskAnnVectorIndex) : Prop where
  positive : 0 < index.maxNeighbors
  offsets : ∀ nodeId node, index.nodes[nodeId]? = some node →
    node.linkOffset = layerCount (index.nodes.take nodeId) * index.maxNeighbors
  links : index.links.length = layerCount index.nodes * index.maxNeighbors
  counts : index.linkCounts.length = layerCount index.nodes

/-- The node is there and has the level. -/
def HasLayer (index : FreshDiskAnnVectorIndex) (nodeId level : Nat) : Prop :=
  nodeId < index.nodes.length ∧ level ≤ index.nodeLevel nodeId

/-- The number of a layer among all. -/
def slot (index : FreshDiskAnnVectorIndex) (nodeId level : Nat) : Nat :=
  layerCount (index.nodes.take nodeId) + level

/-- `self.m_LinkCounts[self.LinkCountIndex(nodeID, level)]` -/
def linkCount (index : FreshDiskAnnVectorIndex) (nodeId level : Nat) : Nat :=
  index.linkCounts.getD (index.linkCountIndex nodeId level) 0

section Slots

variable {index : FreshDiskAnnVectorIndex} {nodeId level : Nat}

theorem nodes_at (inside : nodeId < index.nodes.length) :
    index.nodes[nodeId]? = some (index.nodeAt nodeId) := by
  rw [nodeAt, List.getD_eq_getElem _ _ inside, List.getElem?_eq_getElem inside]

theorem layerCount_take_succ (inside : nodeId < index.nodes.length) :
    layerCount (index.nodes.take (nodeId + 1)) =
      layerCount (index.nodes.take nodeId) + (index.nodeLevel nodeId + 1) := by
  rw [layerCount, layerCount, List.take_add_one, nodes_at inside, List.map_append, List.sum_append]
  simp [nodeLevel]

theorem layerCount_take_mono {first second : Nat} (ordered : first ≤ second) :
    layerCount (index.nodes.take first) ≤ layerCount (index.nodes.take second) := by
  obtain ⟨rest, split⟩ : index.nodes.take first <+: index.nodes.take second :=
    List.take_prefix_take_left ordered
  rw [← split, layerCount, layerCount, List.map_append, List.sum_append]
  exact Nat.le_add_right _ _

theorem slot_lt_next (layer : index.HasLayer nodeId level) :
    index.slot nodeId level < layerCount (index.nodes.take (nodeId + 1)) := by
  rw [layerCount_take_succ layer.1, slot]
  have inside := layer.2
  omega

theorem slot_lt (layer : index.HasLayer nodeId level) :
    index.slot nodeId level < layerCount index.nodes := by
  have whole := @layerCount_take_mono index (nodeId + 1) index.nodes.length layer.1
  rw [List.take_length] at whole
  exact Nat.lt_of_lt_of_le (slot_lt_next layer) whole

/-- Two layers have two slots. -/
theorem slot_injective {other otherLevel : Nat} (layer : index.HasLayer nodeId level)
    (otherLayer : index.HasLayer other otherLevel)
    (same : index.slot nodeId level = index.slot other otherLevel) :
    nodeId = other ∧ level = otherLevel := by
  have before := slot_lt_next layer
  have otherBefore := slot_lt_next otherLayer
  rcases Nat.lt_trichotomy nodeId other with less | equal | greater
  · have ordered := @layerCount_take_mono index (nodeId + 1) other less
    rw [same, slot] at before
    omega
  · refine ⟨equal, ?_⟩
    rw [slot, slot, equal] at same
    omega
  · have ordered := @layerCount_take_mono index (other + 1) nodeId greater
    rw [← same, slot] at otherBefore
    omega

variable (layout : index.Layout)

include layout

theorem Layout.linkOffset_eq (inside : nodeId < index.nodes.length) :
    index.linkOffset nodeId level = index.slot nodeId level * index.maxNeighbors := by
  rw [linkOffset, layout.offsets nodeId _ (nodes_at inside), slot, Nat.add_mul]

theorem Layout.linkCountIndex_eq (inside : nodeId < index.nodes.length) :
    index.linkCountIndex nodeId level = index.slot nodeId level := by
  rw [linkCountIndex, layout.offsets nodeId _ (nodes_at inside),
    Nat.mul_div_cancel _ layout.positive, slot]

/-- The links of a layer are inside the array. -/
theorem Layout.range_inside (layer : index.HasLayer nodeId level) :
    index.linkOffset nodeId level + index.maxNeighbors ≤ index.links.length := by
  have next := Nat.mul_le_mul_right index.maxNeighbors (Nat.succ_le_of_lt (slot_lt layer))
  rw [Nat.succ_mul] at next
  rw [layout.linkOffset_eq layer.1, layout.links]
  exact next

/-- The links of two layers do not overlap. -/
theorem Layout.ranges_apart {other otherLevel : Nat} (layer : index.HasLayer nodeId level)
    (otherLayer : index.HasLayer other otherLevel) (apart : other ≠ nodeId ∨ otherLevel ≠ level) :
    index.linkOffset nodeId level + index.maxNeighbors ≤ index.linkOffset other otherLevel ∨
      index.linkOffset other otherLevel + index.maxNeighbors ≤ index.linkOffset nodeId level := by
  rw [layout.linkOffset_eq layer.1, layout.linkOffset_eq otherLayer.1, ← Nat.succ_mul,
    ← Nat.succ_mul]
  rcases Nat.lt_trichotomy (index.slot nodeId level) (index.slot other otherLevel) with
    less | equal | greater
  · exact Or.inl (Nat.mul_le_mul_right _ less)
  · obtain ⟨sameNode, sameLevel⟩ := slot_injective layer otherLayer equal
    rcases apart with node | level
    · exact absurd sameNode.symm node
    · exact absurd sameLevel.symm level
  · exact Or.inr (Nat.mul_le_mul_right _ greater)

theorem Layout.countIndex_lt (layer : index.HasLayer nodeId level) :
    index.linkCountIndex nodeId level < index.linkCounts.length := by
  rw [layout.linkCountIndex_eq layer.1, layout.counts]
  exact slot_lt layer

theorem Layout.countIndex_ne {other otherLevel : Nat} (layer : index.HasLayer nodeId level)
    (otherLayer : index.HasLayer other otherLevel) (apart : other ≠ nodeId ∨ otherLevel ≠ level) :
    index.linkCountIndex nodeId level ≠ index.linkCountIndex other otherLevel := by
  rw [layout.linkCountIndex_eq layer.1, layout.linkCountIndex_eq otherLayer.1]
  intro same
  obtain ⟨sameNode, sameLevel⟩ := slot_injective layer otherLayer same
  rcases apart with node | level
  · exact node sameNode.symm
  · exact level sameLevel.symm

end Slots

/-! ## Writes into the array -/

theorem hasLayer_iff {index : FreshDiskAnnVectorIndex} {nodeId level : Nat}
    (inside : nodeId < index.nodes.length) :
    index.hasLevel nodeId level = true ↔ index.HasLayer nodeId level := by
  rw [hasLevel, decide_eq_true_eq, HasLayer]
  exact (and_iff_right inside).symm

theorem neighbors_eq {index : FreshDiskAnnVectorIndex} {nodeId level : Nat}
    (layer : index.HasLayer nodeId level) :
    index.neighbors nodeId level =
      index.linksAt (index.linkOffset nodeId level) (index.linkCount nodeId level) :=
  if_pos ((hasLayer_iff layer.1).mpr layer)

theorem neighbors_of_no_layer {index : FreshDiskAnnVectorIndex} {nodeId level : Nat}
    (inside : nodeId < index.nodes.length) (none : ¬index.HasLayer nodeId level) :
    index.neighbors nodeId level = [] := if_neg fun has => none ((hasLayer_iff inside).mp has)

theorem writeAt_length {list values : List Nat} {offset : Nat}
    (inside : offset + values.length ≤ list.length) :
    (writeAt list offset values).length = list.length := by
  rw [writeAt, List.length_append, List.length_append, List.length_take, List.length_drop]
  omega

/-- What is written stands there. -/
theorem take_drop_writeAt {list values : List Nat} {offset : Nat}
    (inside : offset + values.length ≤ list.length) :
    ((writeAt list offset values).drop offset).take values.length = values := by
  have front : (list.take offset).length = offset := by
    rw [List.length_take]
    omega
  rw [writeAt, List.append_assoc, List.drop_append_of_le_length (Nat.le_of_eq front.symm),
    List.drop_of_length_le (Nat.le_of_eq front), List.nil_append, List.take_left]

/-- A write elsewhere does not change a range. -/
theorem take_drop_writeAt_apart {list values : List Nat} {offset start count : Nat}
    (inside : offset + values.length ≤ list.length)
    (apart : start + count ≤ offset ∨ offset + values.length ≤ start) :
    ((writeAt list offset values).drop start).take count = (list.drop start).take count := by
  have front : (list.take offset).length = offset := by
    rw [List.length_take]
    omega
  refine List.ext_getElem? fun position => ?_
  rw [List.getElem?_take, List.getElem?_take]
  split
  · rename_i below
    rw [List.getElem?_drop, List.getElem?_drop, writeAt, List.append_assoc]
    rcases apart with before | behind
    · rw [List.getElem?_append_left (by omega), List.getElem?_take_of_lt (by omega)]
    · rw [List.getElem?_append_right (by omega), List.getElem?_append_right (by omega),
        List.getElem?_drop, front]
      congr 1
      omega
  · rfl

theorem take_drop_set_apart {list : List Nat} {position value start count : Nat}
    (apart : position < start ∨ start + count ≤ position) :
    ((list.set position value).drop start).take count = (list.drop start).take count := by
  refine List.ext_getElem? fun index => ?_
  rw [List.getElem?_take, List.getElem?_take]
  split
  · rename_i below
    rw [List.getElem?_drop, List.getElem?_drop, List.getElem?_set_ne (by omega)]
  · rfl

/-- A write into a range. -/
theorem take_drop_set {list : List Nat} {position value start count : Nat}
    (inside : start + count ≤ list.length) (below : position < count) :
    ((list.set (start + position) value).drop start).take count =
      ((list.drop start).take count).set position value := by
  refine List.ext_getElem? fun index => ?_
  rw [List.getElem?_take]
  by_cases same : position = index
  · rw [if_pos (by omega), List.getElem?_drop, ← same, List.getElem?_set_self (by omega),
      List.getElem?_set_self (by rw [List.length_take, List.length_drop]; omega)]
  · rw [List.getElem?_set_ne same, List.getElem?_take]
    split
    · rw [List.getElem?_drop, List.getElem?_drop, List.getElem?_set_ne (by omega)]
    · rfl

theorem take_succ_drop_set {list : List Nat} {value start count : Nat}
    (inside : start + count < list.length) :
    ((list.set (start + count) value).drop start).take (count + 1) =
      (list.drop start).take count ++ [value] := by
  rw [List.take_add_one, take_drop_set_apart (Or.inr (Nat.le_refl _)), List.getElem?_drop,
    List.getElem?_set_self inside]
  rfl

/-! ## One layer rewired -/

/-- Only the links of one layer change. -/
structure Rewired (before after : FreshDiskAnnVectorIndex) (nodeId level : Nat)
    (row : List Nat) : Prop where
  frame : after = { before with links := after.links, linkCounts := after.linkCounts }
  linksLength : after.links.length = before.links.length
  countsLength : after.linkCounts.length = before.linkCounts.length
  here : after.neighbors nodeId level = row
  count : after.linkCount nodeId level = row.length
  others : ∀ other otherLevel, before.HasLayer other otherLevel →
    (other ≠ nodeId ∨ otherLevel ≠ level) →
      after.neighbors other otherLevel = before.neighbors other otherLevel ∧
        after.linkCount other otherLevel = before.linkCount other otherLevel

section Frame

variable {before after : FreshDiskAnnVectorIndex}
  (frame : after = { before with links := after.links, linkCounts := after.linkCounts })

include frame

theorem frame_nodes : after.nodes = before.nodes := by rw [frame]

theorem frame_nodeLevel (nodeId : Nat) : after.nodeLevel nodeId = before.nodeLevel nodeId := by
  rw [nodeLevel, nodeLevel, nodeAt, nodeAt, frame_nodes frame]

theorem frame_hasLayer {nodeId level : Nat} :
    after.HasLayer nodeId level ↔ before.HasLayer nodeId level := by
  rw [HasLayer, HasLayer, frame_nodeLevel frame, frame_nodes frame]

theorem frame_linkOffset (nodeId level : Nat) :
    after.linkOffset nodeId level = before.linkOffset nodeId level := by
  rw [frame]
  rfl

theorem frame_linkCountIndex (nodeId level : Nat) :
    after.linkCountIndex nodeId level = before.linkCountIndex nodeId level := by
  rw [frame]
  rfl

theorem frame_scoreDoc {S : Type} (cosine : UInt32 → UInt32 → S) :
    after.scoreDoc cosine = before.scoreDoc cosine := by
  rw [frame]
  rfl

theorem frame_layout (layout : before.Layout) (links : after.links.length = before.links.length)
    (counts : after.linkCounts.length = before.linkCounts.length) : after.Layout := by
  have nodes := frame_nodes frame
  have most : after.maxNeighbors = before.maxNeighbors := by rw [frame]
  refine ⟨?_, ?_, ?_, ?_⟩
  · rw [most]
    exact layout.positive
  · rw [nodes, most]
    exact layout.offsets
  · rw [links, nodes, most]
    exact layout.links
  · rw [counts, nodes]
    exact layout.counts

end Frame

theorem Rewired.layout {before after : FreshDiskAnnVectorIndex} {nodeId level : Nat}
    {row : List Nat} (rewired : Rewired before after nodeId level row) (layout : before.Layout) :
    after.Layout := frame_layout rewired.frame layout rewired.linksLength rewired.countsLength

/-- The same row again. -/
theorem Rewired.unchanged {index : FreshDiskAnnVectorIndex} {nodeId level : Nat}
    (count : index.linkCount nodeId level = (index.neighbors nodeId level).length) :
    Rewired index index nodeId level (index.neighbors nodeId level) :=
  ⟨rfl, rfl, rfl, rfl, count, fun _ _ _ _ => ⟨rfl, rfl⟩⟩

/-- One layer rewired after the other. -/
theorem Rewired.again {first second third : FreshDiskAnnVectorIndex} {nodeId level : Nat}
    {firstRow secondRow : List Nat} (rewired : Rewired first second nodeId level firstRow)
    (again : Rewired second third nodeId level secondRow) :
    Rewired first third nodeId level secondRow := by
  refine ⟨?_, again.linksLength.trans rewired.linksLength,
    again.countsLength.trans rewired.countsLength, again.here, again.count,
    fun other otherLevel layer apart => ?_⟩
  · rw [again.frame, rewired.frame]
  · obtain ⟨firstSame, firstCount⟩ := rewired.others other otherLevel layer apart
    obtain ⟨secondSame, secondCount⟩ := again.others other otherLevel
      ((frame_hasLayer rewired.frame).mpr layer) apart
    exact ⟨secondSame.trans firstSame, secondCount.trans firstCount⟩

/-- Links and counts that change in one layer only. -/
theorem rewired_of_writes {before after : FreshDiskAnnVectorIndex} (layout : before.Layout)
    {nodeId level : Nat} (layer : before.HasLayer nodeId level) {row : List Nat}
    (fits : ∀ other otherLevel, before.HasLayer other otherLevel →
      before.linkCount other otherLevel ≤ before.maxNeighbors)
    (frame : after = { before with links := after.links, linkCounts := after.linkCounts })
    (counts : after.linkCounts =
      before.linkCounts.set (before.linkCountIndex nodeId level) row.length)
    (length : after.links.length = before.links.length)
    (here : after.linksAt (before.linkOffset nodeId level) row.length = row)
    (apart : ∀ start count, (start + count ≤ before.linkOffset nodeId level ∨
      before.linkOffset nodeId level + before.maxNeighbors ≤ start) →
        after.linksAt start count = before.linksAt start count) :
    Rewired before after nodeId level row := by
  have inside := layout.countIndex_lt layer
  have count : after.linkCount nodeId level = row.length := by
    rw [linkCount, frame_linkCountIndex frame, counts, List.getD_eq_getElem?_getD,
      List.getElem?_set_self inside]
    rfl
  refine ⟨frame, length, by rw [counts, List.length_set], ?_, count,
    fun other otherLevel otherLayer otherApart => ?_⟩
  · rw [neighbors_eq ((frame_hasLayer frame).mpr layer), count, frame_linkOffset frame, here]
  · have otherCount : after.linkCount other otherLevel = before.linkCount other otherLevel := by
      rw [linkCount, frame_linkCountIndex frame, counts, List.getD_eq_getElem?_getD,
        List.getElem?_set_ne (layout.countIndex_ne layer otherLayer otherApart),
        ← List.getD_eq_getElem?_getD, linkCount]
    refine ⟨?_, otherCount⟩
    rw [neighbors_eq ((frame_hasLayer frame).mpr otherLayer), neighbors_eq otherLayer, otherCount,
      frame_linkOffset frame]
    refine apart _ _ ?_
    have most := fits other otherLevel otherLayer
    rcases layout.ranges_apart layer otherLayer otherApart with behind | ahead
    · exact Or.inr behind
    · exact Or.inl (Nat.le_trans (Nat.add_le_add_left most _) ahead)

end FreshDiskAnnVectorIndex

end MoonShot.Vector
