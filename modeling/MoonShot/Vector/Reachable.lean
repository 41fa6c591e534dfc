import Mathlib.Logic.Relation
import Mathlib.Data.Set.Card
import MoonShot.Vector.Insertion
import MoonShot.Vector.Comparators

/-!
The search of a layer that keeps all it visits.

Owns what is reachable through the links of a layer, and that a search which may keep as many
results as there are reachable nodes finds exactly these.

Does not own the search for a query.
-/

namespace MoonShot.Vector

open MoonShot.Lib
open FloatCompare

/-- Heaps that show what `BinaryHeap` shows: the highest score of the candidates and, under
`Reverse`, the lowest score of the results. -/
structure BinaryHeaps (S : Type) [LinearOrder S] extends Heaps S where
  candidatesShow : candidates.ShowsGreatest ScoredNode.score
  resultsShow : results.ShowsLeast ScoredNode.score

/-- Heaps that keep their items sorted. -/
def BinaryHeaps.sorted {S : Type} [LinearOrder S] : BinaryHeaps S where
  candidates := .ofMinHeap (@MinHeap.sorted _ _ _ (OrderDual.toDual ∘ ScoredNode.score))
  results := .ofMinHeap (@MinHeap.sorted _ _ _ ScoredNode.score)
  candidatesShow := Heap.ofMinHeap_showsGreatest _
  resultsShow := Heap.ofMinHeap_showsLeast _

namespace FreshDiskAnnVectorIndex

/-- The node is reached from the entry through links of the layer. -/
def Reaches (index : FreshDiskAnnVectorIndex) (level entry nodeId : Nat) : Prop :=
  Relation.ReflTransGen (fun node neighbor => neighbor ∈ index.neighbors node level) entry nodeId

/-- The nodes of the graph are left by no link. -/
theorem Linked.closed_nodes {index : FreshDiskAnnVectorIndex} (linked : Linked index)
    (level : Nat) : index.Closed level fun nodeId => nodeId < index.nodes.length := by
  refine ⟨fun _ inside => inside, fun nodeId inside neighbor member => ?_⟩
  by_cases layer : index.HasLayer nodeId level
  · exact (linked.leads nodeId level layer neighbor member).1.1
  · rw [neighbors_of_no_layer inside layer] at member
    exact absurd member List.not_mem_nil

theorem Closed.reaches {index : FreshDiskAnnVectorIndex} {level entry nodeId : Nat}
    {inside : Nat → Prop} (closed : index.Closed level inside) (here : inside entry)
    (reaches : index.Reaches level entry nodeId) : inside nodeId := by
  induction reaches with
  | refl => exact here
  | tail _ link inductionHypothesis => exact closed.links _ inductionHypothesis _ link

/-- The reachable nodes are left by no link. -/
theorem Closed.closed_reaches {index : FreshDiskAnnVectorIndex} {level entry : Nat}
    {inside : Nat → Prop} (closed : index.Closed level inside) (here : inside entry) :
    index.Closed level (index.Reaches level entry) :=
  ⟨fun nodeId reaches => closed.exists_ nodeId (closed.reaches here reaches),
    fun _ reaches _ link => reaches.tail link⟩

/-! ## A search that drops nothing -/

section Complete

variable {S : Type} [LinearOrder S] {heaps : BinaryHeaps S} {index : FreshDiskAnnVectorIndex}
  {ef level entry : Nat} {score : Nat → S}

/-- All visited nodes are results, and their neighbours are visited once they are no longer
candidates, except for the ones in work. -/
structure Complete (index : FreshDiskAnnVectorIndex) (level entry : Nat) (score : Nat → S) (ef : Nat)
    (inWork : Nat → Prop) (state : LayerState heaps.toHeaps) : Prop where
  searching : Searching score ef (index.Reaches level entry) state
  whole : ((heaps.results.items state.results).map ScoredNode.nodeId).Perm state.visited
  entry : entry ∈ state.visited
  expanded : ∀ nodeId ∈ state.visited,
    nodeId ∈ (heaps.candidates.items state.candidates).map ScoredNode.nodeId ∨ inWork nodeId ∨
      ∀ neighbor ∈ index.neighbors nodeId level, neighbor ∈ state.visited

theorem length_lt_ncard {limit : Nat} {inside : Nat → Prop}
    (below : ∀ nodeId, inside nodeId → nodeId < limit) {seen : List Nat} (nodup : seen.Nodup)
    (seenInside : ∀ nodeId ∈ seen, inside nodeId) {fresh : Nat} (isFresh : fresh ∉ seen)
    (freshInside : inside fresh) : seen.length < Set.ncard { nodeId | inside nodeId } := by
  have finite : { nodeId | inside nodeId }.Finite :=
    (Set.finite_Iio limit).subset fun nodeId member => below nodeId member
  have more : (fresh :: seen).Nodup := List.nodup_cons.mpr ⟨isFresh, nodup⟩
  have sub : ((fresh :: seen).toFinset : Set Nat) ⊆ { nodeId | inside nodeId } := by
    intro nodeId member
    rcases List.mem_cons.mp (List.mem_toFinset.mp member) with rfl | earlier
    · exact freshInside
    · exact seenInside nodeId earlier
  have card := Set.ncard_le_ncard sub finite
  rw [Set.ncard_coe_finset, List.toFinset_card_of_nodup more, List.length_cons] at card
  exact card

/-- A neighbour that is offered is visited, and nothing is dropped. -/
theorem Complete.offer {inWork : Nat → Prop} {state : LayerState heaps.toHeaps}
    (closed : index.Closed level (index.Reaches level entry))
    (room : Set.ncard { nodeId | index.Reaches level entry nodeId } ≤ ef)
    (complete : Complete index level entry score ef inWork state) {neighbor : Nat}
    (here : index.Reaches level entry neighbor) :
    Complete index level entry score ef inWork (offerNeighbor ef score state neighbor) ∧
      state.visited ⊆ (offerNeighbor ef score state neighbor).visited ∧
        neighbor ∈ (offerNeighbor ef score state neighbor).visited := by
  have searching := complete.searching.offer here
  rcases offerNeighbor_cases ef score state neighbor with
    ⟨seen, same⟩ | ⟨fresh, -, same⟩ | ⟨fresh, notPushed, -⟩
  · rw [same]
    exact ⟨complete, List.Subset.refl _, seen⟩
  · have few := length_lt_ncard closed.exists_ complete.searching.visitedNodup
      complete.searching.visitedInside fresh here
    have size := complete.whole.length_eq
    rw [List.length_map] at size
    obtain ⟨dropped, split, none, -⟩ := pushedResults_items ef score state neighbor
    have empty : dropped = [] := none.mpr (by omega)
    rw [empty, List.nil_append] at split
    rw [same] at searching ⊢
    refine ⟨⟨searching, ?_, List.mem_cons_of_mem _ complete.entry, fun nodeId member => ?_⟩,
      List.subset_cons_self _ _, List.mem_cons_self⟩
    · exact (split.map ScoredNode.nodeId).trans (complete.whole.cons neighbor)
    · have pushed := (heaps.candidates.items_push state.candidates (scored score neighbor)).map
        ScoredNode.nodeId
      rcases List.mem_cons.mp member with rfl | earlier
      · exact Or.inl (pushed.mem_iff.mpr List.mem_cons_self)
      · rcases complete.expanded nodeId earlier with waiting | working | done
        · exact Or.inl (pushed.mem_iff.mpr (List.mem_cons_of_mem _ waiting))
        · exact Or.inr (Or.inl working)
        · exact Or.inr (Or.inr fun other link => List.mem_cons_of_mem _ (done other link))
  · have few := length_lt_ncard closed.exists_ complete.searching.visitedNodup
      complete.searching.visitedInside fresh here
    have size := complete.whole.length_eq
    rw [List.length_map] at size
    exact absurd (Or.inl (by omega)) notPushed

theorem Complete.offers {inWork : Nat → Prop}
    (closed : index.Closed level (index.Reaches level entry))
    (room : Set.ncard { nodeId | index.Reaches level entry nodeId } ≤ ef) {neighbors : List Nat} :
    ∀ {state : LayerState heaps.toHeaps}, Complete index level entry score ef inWork state →
      (∀ neighbor ∈ neighbors, index.Reaches level entry neighbor) →
        Complete index level entry score ef inWork
            (neighbors.foldl (offerNeighbor ef score) state) ∧
          state.visited ⊆ (neighbors.foldl (offerNeighbor ef score) state).visited ∧
            ∀ neighbor ∈ neighbors,
              neighbor ∈ (neighbors.foldl (offerNeighbor ef score) state).visited := by
  induction neighbors with
  | nil =>
      intro state complete _
      exact ⟨complete, List.Subset.refl _, fun _ member => absurd member List.not_mem_nil⟩
  | cons neighbor rest inductionHypothesis =>
      intro state complete here
      obtain ⟨offered, grows, seen⟩ := complete.offer closed room (here neighbor List.mem_cons_self)
      obtain ⟨last, lastGrows, all⟩ := inductionHypothesis offered fun other member =>
        here other (List.mem_cons_of_mem _ member)
      refine ⟨last, List.Subset.trans grows lastGrows, fun other member => ?_⟩
      rcases List.mem_cons.mp member with rfl | later
      · exact lastGrows seen
      · exact all other later

/-- One turn of the search. -/
theorem Complete.turn {state : LayerState heaps.toHeaps}
    (closed : index.Closed level (index.Reaches level entry))
    (room : Set.ncard { nodeId | index.Reaches level entry nodeId } ≤ ef)
    (complete : Complete index level entry score ef (fun _ => False) state)
    {current : ScoredNode S} (shown : heaps.candidates.peek state.candidates = some current) :
    Complete index level entry score ef (fun _ => False)
      ((index.neighbors current.nodeId level).foldl (offerNeighbor ef score) (popped state)) := by
  have split := (heaps.candidates.items_pop state.candidates current shown).map ScoredNode.nodeId
  have taken : Complete index level entry score ef (fun nodeId => nodeId = current.nodeId)
      (popped state) := by
    refine ⟨complete.searching.pop shown, complete.whole, complete.entry, fun nodeId member => ?_⟩
    rcases complete.expanded nodeId member with waiting | working | done
    · rcases List.mem_cons.mp (split.mem_iff.mpr waiting) with isCurrent | later
      · exact Or.inr (Or.inl isCurrent)
      · exact Or.inl later
    · exact absurd working id
    · exact Or.inr (Or.inr done)
  have visited := (complete.searching.candidates current (Heap.mem_of_peek shown)).1
  obtain ⟨offered, -, all⟩ := taken.offers closed room fun neighbor member =>
    closed.links current.nodeId (complete.searching.visitedInside _ visited) neighbor member
  refine ⟨offered.searching, offered.whole, offered.entry, fun nodeId member => ?_⟩
  rcases offered.expanded nodeId member with waiting | rfl | done
  · exact Or.inl waiting
  · exact Or.inr (Or.inr all)
  · exact Or.inr (Or.inr done)

/-- A candidate is a result too, so that none is worse than all results. -/
theorem Complete.not_worse {state : LayerState heaps.toHeaps}
    (complete : Complete index level entry score ef (fun _ => False) state)
    {current : ScoredNode S} (shown : heaps.candidates.peek state.candidates = some current) :
    isWorse state current = false := by
  obtain ⟨visited, shape⟩ := complete.searching.candidates current (Heap.mem_of_peek shown)
  obtain ⟨result, kept, same⟩ := List.mem_map.mp (complete.whole.mem_iff.mpr visited)
  have sameScore : result.score = current.score := by
    rw [(complete.searching.results result kept).2, same, shape]
    rfl
  unfold isWorse
  cases peeked : heaps.results.peek state.results with
  | none => rfl
  | some least =>
      have lower := heaps.resultsShow state.results least peeked result kept
      rw [sameScore] at lower
      exact decide_eq_false (not_lt.mpr lower)

/-- A search with room for all reachable nodes ends with exactly these. -/
theorem searchLayer_complete (closed : index.Closed level (index.Reaches level entry))
    (room : Set.ncard { nodeId | index.Reaches level entry nodeId } ≤ ef) :
    ∃ final : LayerState heaps.toHeaps,
      index.searchLoop ef level score (index.nodes.length + 1) (startState entry score) =
          .ok final ∧
        ∀ nodeId, nodeId ∈ (heaps.results.items final.results).map ScoredNode.nodeId ↔
          index.Reaches level entry nodeId := by
  have results := heaps.results.items_push heaps.results.empty (scored score entry)
  have candidates := heaps.candidates.items_push heaps.candidates.empty (scored score entry)
  rw [heaps.results.items_empty] at results
  rw [heaps.candidates.items_empty] at candidates
  have start : Complete index level entry score ef (fun _ => False)
      (startState entry score : LayerState heaps.toHeaps) := by
    refine ⟨startState_searching Relation.ReflTransGen.refl, results.map ScoredNode.nodeId,
      List.mem_singleton_self entry, fun nodeId member => Or.inl ?_⟩
    exact (candidates.map ScoredNode.nodeId).mem_iff.mpr member
  have ended := @searchLoop_ends S _ heaps.toHeaps index ef level score
    (Complete index level entry score ef fun _ => False)
    (fun state complete => complete.searching.bounded closed)
    (fun state current complete shown _ => complete.turn closed room shown)
    (index.nodes.length + 1) (startState entry score) start (by
      have one := candidates.length_eq
      show (heaps.candidates.items (heaps.candidates.push heaps.candidates.empty
        (scored score entry))).length + index.nodes.length < index.nodes.length + 1 + 1
      rw [one, List.length_singleton]
      omega)
  obtain ⟨final, ran, finished⟩ := ended
  refine ⟨final, ran, ?_⟩
  rcases finished with ⟨complete, none⟩ | ⟨before, current, complete, shown, worse, -⟩
  · have empty := (heaps.candidates.peek_eq_none final.candidates).mp none
    intro nodeId
    rw [complete.whole.mem_iff]
    refine ⟨complete.searching.visitedInside nodeId, fun reaches => ?_⟩
    induction reaches with
    | refl => exact complete.entry
    | tail _ link inductionHypothesis =>
        rcases complete.expanded _ inductionHypothesis with waiting | working | done
        · rw [empty] at waiting
          exact absurd waiting List.not_mem_nil
        · exact absurd working id
        · exact done _ link
  · rw [complete.not_worse shown] at worse
    cases worse

end Complete

end FreshDiskAnnVectorIndex

end MoonShot.Vector
