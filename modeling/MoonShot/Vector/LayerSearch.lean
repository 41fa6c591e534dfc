import MoonShot.Vector.Layers

/-!
The searches in one layer of the vector graph.

Owns the end of both searches on every set of nodes that the links of the layer do not leave:
the greedy walk ends at a node without a better neighbour, and the search with two heaps
ends with scored nodes of the set.

Does not own how the layers are linked.
-/

namespace MoonShot.Vector

open MoonShot.Lib
open FloatCompare

namespace FreshDiskAnnVectorIndex

variable {S : Type} [FloatCompare S]

/-- A set of nodes that the links of the layer do not leave. -/
structure Closed (index : FreshDiskAnnVectorIndex) (level : Nat) (inside : Nat → Prop) : Prop where
  exists_ : ∀ nodeId, inside nodeId → nodeId < index.nodes.length
  links : ∀ nodeId, inside nodeId → ∀ neighbor ∈ index.neighbors nodeId level, inside neighbor

theorem length_le_of_below {nodes : List Nat} {limit : Nat} (nodup : nodes.Nodup)
    (below : ∀ nodeId ∈ nodes, nodeId < limit) : nodes.length ≤ limit := by
  have sub : nodes ⊆ List.range limit := fun nodeId member => List.mem_range.mpr (below nodeId member)
  have most := (nodup.subperm sub).length_le
  rwa [List.length_range] at most

/-! ## The greedy walk -/

/-- From a better node the loop over the neighbours only gets better. -/
theorem improve_better (score : Nat → S) (neighbors : List Nat) (best : Nat) :
    (neighbors.foldl (improve score) (best, true)).2 = true ∧
      ((neighbors.foldl (improve score) (best, true)).1 = best ∨
        ((neighbors.foldl (improve score) (best, true)).1 ∈ neighbors ∧
          less (score best) (score (neighbors.foldl (improve score) (best, true)).1) = true)) := by
  induction neighbors generalizing best with
  | nil => exact ⟨rfl, Or.inl rfl⟩
  | cons neighbor rest inductionHypothesis =>
      rw [List.foldl_cons, improve]
      split
      · rename_i better
        obtain ⟨changed, same | ⟨member, more⟩⟩ := inductionHypothesis neighbor
        · refine ⟨changed, Or.inr ⟨?_, ?_⟩⟩
          · rw [same]
            exact List.mem_cons_self
          · rw [same]
            exact better
        · exact ⟨changed, Or.inr ⟨List.mem_cons_of_mem _ member,
            less_trans _ _ _ better more⟩⟩
      · obtain ⟨changed, same | ⟨member, more⟩⟩ := inductionHypothesis best
        · exact ⟨changed, Or.inl same⟩
        · exact ⟨changed, Or.inr ⟨List.mem_cons_of_mem _ member, more⟩⟩

/-- The loop over the neighbours finds a better one, or there is none. -/
theorem improve_cases (score : Nat → S) (neighbors : List Nat) (best : Nat) :
    (neighbors.foldl (improve score) (best, false) = (best, false) ∧
        ∀ neighbor ∈ neighbors, less (score best) (score neighbor) = false) ∨
      ((neighbors.foldl (improve score) (best, false)).2 = true ∧
        (neighbors.foldl (improve score) (best, false)).1 ∈ neighbors ∧
          less (score best) (score (neighbors.foldl (improve score) (best, false)).1) = true) := by
  induction neighbors with
  | nil => exact Or.inl ⟨rfl, fun _ member => absurd member List.not_mem_nil⟩
  | cons neighbor rest inductionHypothesis =>
      rw [List.foldl_cons, improve]
      split
      · rename_i better
        obtain ⟨changed, same | ⟨member, more⟩⟩ := improve_better score rest neighbor
        · refine Or.inr ⟨changed, ?_, ?_⟩
          · rw [same]
            exact List.mem_cons_self
          · rw [same]
            exact better
        · exact Or.inr ⟨changed, List.mem_cons_of_mem _ member, less_trans _ _ _ better more⟩
      · rename_i notBetter
        rcases inductionHypothesis with ⟨unchanged, none⟩ | ⟨changed, member, more⟩
        · refine Or.inl ⟨unchanged, fun other member => ?_⟩
          rcases List.mem_cons.mp member with rfl | later
          · exact Bool.eq_false_iff.mpr notBetter
          · exact none other later
        · exact Or.inr ⟨changed, List.mem_cons_of_mem _ member, more⟩

/-- The walk ends in the set, at a node without a better neighbour. -/
theorem greedyLoop_ends {index : FreshDiskAnnVectorIndex} {level : Nat} {inside : Nat → Prop}
    (closed : index.Closed level inside) (score : Nat → S) :
    ∀ (turns best : Nat) (seen : List Nat), inside best → (best :: seen).Nodup →
      (∀ nodeId ∈ seen, inside nodeId ∧ less (score nodeId) (score best) = true) →
        index.nodes.length < turns + seen.length →
          ∃ last, index.greedyLoop level score turns best = .ok last ∧ inside last ∧
            ∀ neighbor ∈ index.neighbors last level, less (score last) (score neighbor) = false := by
  intro turns
  induction turns with
  | zero =>
      intro best seen here nodup worse many
      -- more nodes were seen than there are
      have most := length_le_of_below nodup fun nodeId member => by
        rcases List.mem_cons.mp member with rfl | earlier
        · exact closed.exists_ nodeId here
        · exact closed.exists_ nodeId (worse nodeId earlier).1
      rw [List.length_cons] at most
      omega
  | succ turns inductionHypothesis =>
      intro best seen here nodup worse many
      rw [greedyLoop]
      rcases improve_cases score (index.neighbors best level) best with
        ⟨unchanged, none⟩ | ⟨changed, member, better⟩
      · rw [unchanged]
        exact ⟨best, rfl, here, none⟩
      · rw [if_pos changed]
        generalize (index.neighbors best level).foldl (improve score) (best, false) = next at *
        have worseNext : ∀ nodeId ∈ best :: seen,
            inside nodeId ∧ less (score nodeId) (score next.1) = true := by
          intro nodeId earlier
          rcases List.mem_cons.mp earlier with rfl | inSeen
          · exact ⟨here, better⟩
          · exact ⟨(worse nodeId inSeen).1, less_trans _ _ _ (worse nodeId inSeen).2 better⟩
        refine inductionHypothesis next.1 (best :: seen) (closed.links best here _ member)
          (List.nodup_cons.mpr ⟨fun again => ?_, nodup⟩) worseNext ?_
        · have irreflexive := (worseNext next.1 again).2
          rw [less_irrefl] at irreflexive
          cases irreflexive
        · rw [List.length_cons]
          omega

theorem greedySearchLayer_ends {index : FreshDiskAnnVectorIndex} {level entry : Nat}
    {inside : Nat → Prop} (closed : index.Closed level inside) (here : inside entry)
    (score : Nat → S) :
    ∃ last, index.greedySearchLayer entry level score = .ok last ∧ inside last ∧
      ∀ neighbor ∈ index.neighbors last level, less (score last) (score neighbor) = false :=
  greedyLoop_ends closed score _ entry [] here (List.nodup_singleton entry)
    (fun _ member => absurd member List.not_mem_nil) (Nat.lt_succ_self _)

/-! ## The search with two heaps -/

section Layer

variable {heaps : Heaps S} {index : FreshDiskAnnVectorIndex} {ef level : Nat} {score : Nat → S}

/-- The scored node of a node. -/
def scored (score : Nat → S) (nodeId : Nat) : ScoredNode S := ⟨score nodeId, nodeId⟩

/-- What holds of the search in every turn. -/
structure Searching (score : Nat → S) (ef : Nat) (inside : Nat → Prop)
    (state : LayerState heaps) : Prop where
  visitedNodup : state.visited.Nodup
  visitedInside : ∀ nodeId ∈ state.visited, inside nodeId
  candidates : ∀ item ∈ heaps.candidates.items state.candidates,
    item.nodeId ∈ state.visited ∧ item = scored score item.nodeId
  results : ∀ item ∈ heaps.results.items state.results,
    item.nodeId ∈ state.visited ∧ item = scored score item.nodeId
  resultsNodup : ((heaps.results.items state.results).map ScoredNode.nodeId).Nodup
  size : 1 ≤ ef → (heaps.results.items state.results).length ≤ ef
  present : 1 ≤ ef → 1 ≤ (heaps.results.items state.results).length

variable {inside : Nat → Prop}

omit [FloatCompare S] in
theorem startState_searching {entry : Nat} (here : inside entry) :
    Searching score ef inside (startState entry score : LayerState heaps) := by
  have candidates := heaps.candidates.items_push heaps.candidates.empty ⟨score entry, entry⟩
  have results := heaps.results.items_push heaps.results.empty ⟨score entry, entry⟩
  rw [heaps.candidates.items_empty] at candidates
  rw [heaps.results.items_empty] at results
  have only : ∀ {item : ScoredNode S}, item ∈ [(⟨score entry, entry⟩ : ScoredNode S)] →
      item.nodeId ∈ [entry] ∧ item = scored score item.nodeId := by
    intro item member
    rw [List.mem_singleton.mp member]
    exact ⟨List.mem_singleton_self _, rfl⟩
  refine ⟨List.nodup_singleton entry, fun nodeId member => ?_, fun item member => ?_,
    fun item member => ?_, ?_, fun positive => ?_, fun _ => Nat.le_of_eq results.length_eq.symm⟩
  · rw [List.mem_singleton.mp member]
    exact here
  · exact only (candidates.mem_iff.mp member)
  · exact only (results.mem_iff.mp member)
  · exact (results.map ScoredNode.nodeId).nodup_iff.mpr (List.nodup_singleton _)
  · show (heaps.results.items (heaps.results.push heaps.results.empty ⟨score entry, entry⟩)).length ≤
      ef
    rw [results.length_eq]
    exact positive

/-- Whether a neighbour is pushed. -/
def isPushed (ef : Nat) (score : Nat → S) (state : LayerState heaps) (neighbor : Nat) : Prop :=
  (heaps.results.items state.results).length < ef ∨
    (match heaps.results.peek state.results with
      | some entry => less entry.score (score neighbor)
      | none => true) = true

/-- The results with one more. -/
def pushedResults (ef : Nat) (score : Nat → S) (state : LayerState heaps) (neighbor : Nat) :
    heaps.results.Carrier :=
  let results := heaps.results.push state.results (scored score neighbor)
  if (heaps.results.items results).length > ef then heaps.results.pop results else results

/-- What an offer does. -/
theorem offerNeighbor_cases (ef : Nat) (score : Nat → S) (state : LayerState heaps)
    (neighbor : Nat) :
    (neighbor ∈ state.visited ∧ offerNeighbor ef score state neighbor = state) ∨
      (neighbor ∉ state.visited ∧ isPushed ef score state neighbor ∧
        offerNeighbor ef score state neighbor =
          ⟨heaps.candidates.push state.candidates (scored score neighbor),
            pushedResults ef score state neighbor, neighbor :: state.visited⟩) ∨
      (neighbor ∉ state.visited ∧ ¬isPushed ef score state neighbor ∧
        offerNeighbor ef score state neighbor =
          { state with visited := neighbor :: state.visited }) := by
  by_cases seen : neighbor ∈ state.visited
  · exact Or.inl ⟨seen, if_pos seen⟩
  · by_cases pushed : isPushed ef score state neighbor
    · refine Or.inr (Or.inl ⟨seen, pushed, ?_⟩)
      rw [offerNeighbor, if_neg seen]
      exact if_pos pushed
    · refine Or.inr (Or.inr ⟨seen, pushed, ?_⟩)
      rw [offerNeighbor, if_neg seen]
      exact if_neg pushed

omit [FloatCompare S] in
/-- The results with one more hold the old ones and the new one, or all but one of these. -/
theorem pushedResults_items (ef : Nat) (score : Nat → S) (state : LayerState heaps)
    (neighbor : Nat) :
    ∃ dropped, (dropped ++ heaps.results.items (pushedResults ef score state neighbor)).Perm
        (scored score neighbor :: heaps.results.items state.results) ∧
      (dropped = [] ↔ (heaps.results.items state.results).length < ef) ∧ dropped.length ≤ 1 := by
  have pushed := heaps.results.items_push state.results (scored score neighbor)
  have length := pushed.length_eq
  rw [List.length_cons] at length
  unfold pushedResults
  dsimp only
  split
  · rename_i many
    obtain ⟨least, shown⟩ := @Heap.exists_peek _ heaps.results
      (heaps.results.push state.results (scored score neighbor)) (by
        intro none
        rw [none] at length
        cases length)
    refine ⟨[least], (heaps.results.items_pop _ least shown).trans pushed, ?_, Nat.le_refl 1⟩
    refine iff_of_false (List.cons_ne_nil _ _) ?_
    omega
  · exact ⟨[], pushed, iff_of_true rfl (by omega), Nat.zero_le 1⟩

theorem Searching.offer {state : LayerState heaps} (searching : Searching score ef inside state)
    {neighbor : Nat} (here : inside neighbor) :
    Searching score ef inside (offerNeighbor ef score state neighbor) := by
  rcases offerNeighbor_cases ef score state neighbor with
    ⟨-, same⟩ | ⟨fresh, pushed, same⟩ | ⟨fresh, -, same⟩
  · rw [same]
    exact searching
  · rw [same]
    obtain ⟨dropped, split, -, -⟩ := pushedResults_items ef score state neighbor
    have inResults : ∀ item ∈ heaps.results.items (pushedResults ef score state neighbor),
        item = scored score neighbor ∨ item ∈ heaps.results.items state.results := by
      intro item member
      exact List.mem_cons.mp (split.mem_iff.mp (List.mem_append_right _ member))
    refine ⟨List.nodup_cons.mpr ⟨fresh, searching.visitedNodup⟩, fun nodeId member => ?_,
      fun item member => ?_, fun item member => ?_, ?_, fun positive => ?_, fun positive => ?_⟩
    · rcases List.mem_cons.mp member with rfl | earlier
      · exact here
      · exact searching.visitedInside nodeId earlier
    · rcases Heap.mem_push.mp member with rfl | earlier
      · exact ⟨List.mem_cons_self, rfl⟩
      · obtain ⟨visited, shape⟩ := searching.candidates item earlier
        exact ⟨List.mem_cons_of_mem _ visited, shape⟩
    · rcases inResults item member with rfl | earlier
      · exact ⟨List.mem_cons_self, rfl⟩
      · obtain ⟨visited, shape⟩ := searching.results item earlier
        exact ⟨List.mem_cons_of_mem _ visited, shape⟩
    · have whole : ((scored score neighbor :: heaps.results.items state.results).map
          ScoredNode.nodeId).Nodup := by
        refine List.nodup_cons.mpr ⟨fun again => ?_, searching.resultsNodup⟩
        obtain ⟨item, member, same⟩ := List.mem_map.mp again
        have visited := (searching.results item member).1
        rw [same] at visited
        exact fresh visited
      have parts := (split.map ScoredNode.nodeId).nodup_iff.mpr whole
      rw [List.map_append] at parts
      exact (List.nodup_append.mp parts).2.1
    · obtain ⟨dropped, split, none, few⟩ := pushedResults_items ef score state neighbor
      have length := split.length_eq
      rw [List.length_append, List.length_cons] at length
      have size := searching.size positive
      show (heaps.results.items (pushedResults ef score state neighbor)).length ≤ ef
      by_cases room : (heaps.results.items state.results).length < ef
      · omega
      · have some : dropped ≠ [] := fun empty => room (none.mp empty)
        have one := List.length_pos_iff.mpr some
        omega
    · -- what is pushed replaces at most one result
      obtain ⟨dropped, split, -, few⟩ := pushedResults_items ef score state neighbor
      have length := split.length_eq
      rw [List.length_append, List.length_cons] at length
      have present := searching.present positive
      show 1 ≤ (heaps.results.items (pushedResults ef score state neighbor)).length
      omega
  · rw [same]
    refine ⟨List.nodup_cons.mpr ⟨fresh, searching.visitedNodup⟩, fun nodeId member => ?_,
      fun item member => ?_, fun item member => ?_, searching.resultsNodup, searching.size,
      searching.present⟩
    · rcases List.mem_cons.mp member with rfl | earlier
      · exact here
      · exact searching.visitedInside nodeId earlier
    · obtain ⟨visited, shape⟩ := searching.candidates item member
      exact ⟨List.mem_cons_of_mem _ visited, shape⟩
    · obtain ⟨visited, shape⟩ := searching.results item member
      exact ⟨List.mem_cons_of_mem _ visited, shape⟩

theorem Searching.offers {state : LayerState heaps} (searching : Searching score ef inside state)
    {neighbors : List Nat} (here : ∀ neighbor ∈ neighbors, inside neighbor) :
    Searching score ef inside (neighbors.foldl (offerNeighbor ef score) state) := by
  induction neighbors generalizing state with
  | nil => exact searching
  | cons neighbor rest inductionHypothesis =>
      exact inductionHypothesis (searching.offer (here neighbor List.mem_cons_self))
        fun other member => here other (List.mem_cons_of_mem _ member)

/-- The state behind a popped candidate. -/
def popped (state : LayerState heaps) : LayerState heaps :=
  { state with candidates := heaps.candidates.pop state.candidates }

omit [FloatCompare S] in
theorem Searching.pop {state : LayerState heaps} (searching : Searching score ef inside state)
    {current : ScoredNode S} (shown : heaps.candidates.peek state.candidates = some current) :
    Searching score ef inside (popped state) :=
  { searching with
    candidates := fun item member =>
      searching.candidates item (Heap.mem_of_mem_pop shown member) }

/-! ### The end of the search -/

/-- An offer adds no more candidates than it visits nodes. -/
theorem offers_potential (ef : Nat) (score : Nat → S) (neighbors : List Nat)
    (state : LayerState heaps) :
    (heaps.candidates.items (neighbors.foldl (offerNeighbor ef score) state).candidates).length +
        state.visited.length ≤
      (heaps.candidates.items state.candidates).length +
        (neighbors.foldl (offerNeighbor ef score) state).visited.length ∧
      state.visited.length ≤ (neighbors.foldl (offerNeighbor ef score) state).visited.length := by
  induction neighbors generalizing state with
  | nil => exact ⟨Nat.le_refl _, Nat.le_refl _⟩
  | cons neighbor rest inductionHypothesis =>
      rw [List.foldl_cons]
      obtain ⟨candidates, visited⟩ := inductionHypothesis (offerNeighbor ef score state neighbor)
      rcases offerNeighbor_cases ef score state neighbor with
        ⟨-, same⟩ | ⟨-, -, same⟩ | ⟨-, -, same⟩
      · rw [same] at candidates visited ⊢
        exact ⟨candidates, visited⟩
      · rw [same] at candidates visited ⊢
        rw [Heap.length_push, List.length_cons] at candidates
        rw [List.length_cons] at visited
        exact ⟨by omega, by omega⟩
      · rw [same] at candidates visited ⊢
        dsimp only at candidates visited ⊢
        rw [List.length_cons] at candidates visited
        exact ⟨by omega, by omega⟩

/-- Whether the search ends in front of this candidate. -/
def isWorse (state : LayerState heaps) (current : ScoredNode S) : Bool :=
  match heaps.results.peek state.results with
  | some entry => less current.score entry.score
  | none => false

/-- How the search ends: without candidates, or in front of one that is worse than all
results. -/
def Ended (keeps : LayerState heaps → Prop) (final : LayerState heaps) : Prop :=
  (keeps final ∧ heaps.candidates.peek final.candidates = none) ∨
    ∃ before current, keeps before ∧ heaps.candidates.peek before.candidates = some current ∧
      isWorse before current = true ∧ final = popped before

/-- The search ends, in a state that follows from what its turns keep. -/
theorem searchLoop_ends {keeps : LayerState heaps → Prop}
    (bounded : ∀ state, keeps state → state.visited.length ≤ index.nodes.length)
    (turn : ∀ state current, keeps state →
      heaps.candidates.peek state.candidates = some current → isWorse state current = false →
        keeps ((index.neighbors current.nodeId level).foldl (offerNeighbor ef score)
          (popped state))) :
    ∀ (turns : Nat) (state : LayerState heaps), keeps state →
      (heaps.candidates.items state.candidates).length + index.nodes.length <
          turns + state.visited.length →
        ∃ final, index.searchLoop ef level score turns state = .ok final ∧ Ended keeps final := by
  intro turns
  induction turns with
  | zero =>
      intro state kept many
      have most := bounded state kept
      omega
  | succ turns inductionHypothesis =>
      intro state kept many
      rw [searchLoop]
      cases shown : heaps.candidates.peek state.candidates with
      | none => exact ⟨state, rfl, Or.inl ⟨kept, shown⟩⟩
      | some current =>
          dsimp only
          have length := Heap.length_pop shown
          cases worse : isWorse state current with
          | true =>
              refine ⟨popped state, ?_, Or.inr ⟨state, current, kept, shown, worse, rfl⟩⟩
              exact if_pos worse
          | false =>
              have next := turn state current kept shown worse
              have potential := offers_potential ef score (index.neighbors current.nodeId level)
                (popped state)
              have most := bounded _ next
              obtain ⟨final, ran, ended⟩ := inductionHypothesis _ next (by
                have visited : (popped state).visited = state.visited := rfl
                have candidates : (popped state).candidates =
                  heaps.candidates.pop state.candidates := rfl
                rw [visited, candidates] at potential
                omega)
              refine ⟨final, ?_, ended⟩
              have goesOn : ¬(isWorse state current = true) := by rw [worse]; decide
              exact (if_neg goesOn).trans ran

omit [FloatCompare S] in
theorem Searching.bounded {state : LayerState heaps} (searching : Searching score ef inside state)
    (closed : index.Closed level inside) : state.visited.length ≤ index.nodes.length :=
  length_le_of_below searching.visitedNodup fun nodeId member =>
    closed.exists_ nodeId (searching.visitedInside nodeId member)

/-- The search goes through its turns. -/
theorem searchLoop_searching {entry : Nat} (closed : index.Closed level inside)
    (here : inside entry) :
    ∃ final : LayerState heaps,
      index.searchLoop ef level score (index.nodes.length + 1) (startState entry score) =
        .ok final ∧ Searching score ef inside final := by
  have start : Searching score ef inside (startState entry score : LayerState heaps) :=
    startState_searching here
  have one : (heaps.candidates.items (startState entry score : LayerState heaps).candidates).length =
      1 := by
    rw [startState, Heap.length_push, heaps.candidates.items_empty, List.length_nil]
  obtain ⟨final, ran, ended⟩ := @searchLoop_ends S _ heaps index ef level score
    (Searching score ef inside) (fun state searching => searching.bounded closed)
    (fun state current searching shown _ => (searching.pop shown).offers fun neighbor member =>
      closed.links current.nodeId (searching.visitedInside _
        (searching.candidates current (Heap.mem_of_peek shown)).1) neighbor member)
    (index.nodes.length + 1) (startState entry score) start (by
      rw [one]
      show 1 + index.nodes.length < index.nodes.length + 1 + 1
      omega)
  refine ⟨final, ran, ?_⟩
  rcases ended with ⟨searching, -⟩ | ⟨before, current, searching, shown, -, rfl⟩
  · exact searching
  · exact searching.pop shown

end Layer

end FreshDiskAnnVectorIndex

end MoonShot.Vector
