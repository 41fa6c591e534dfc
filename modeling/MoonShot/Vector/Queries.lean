import MoonShot.Vector.Reachable
import MoonShot.Vector.WellFormed

/-!
What the searches of a built graph return.

Owns the answers of `Search`, of the search of one layer and of the greedy walk, for every
graph that `Add` builds and scores of a linear order.

Does not own how close the answers for few results come to the best ones.
-/

namespace MoonShot.Vector

open MoonShot.Lib
open FloatCompare

namespace FreshDiskAnnVectorIndex

section Steps

variable {S : Type} [FloatCompare S] {heaps : Heaps S} {index : FreshDiskAnnVectorIndex}

/-- The walk from the entry point down to the lowest layer. -/
theorem walkDown_ends (linked : Linked index) (score : Nat → S) (high low : Nat) {entry : Nat}
    (here : entry < index.nodes.length) :
    ∃ last, (levelsDown high low).foldlM
        (fun entry level => index.greedySearchLayer entry level score) entry = .ok last ∧
      last < index.nodes.length := by
  have walk : Leads (fun _ => False) ((levelsDown high low).foldlM
      (fun entry level => index.greedySearchLayer entry level score) entry)
      fun last => last < index.nodes.length := by
    refine Leads.foldlM here fun level _ before inside => ?_
    obtain ⟨last, ran, lastInside, -⟩ := greedySearchLayer_ends (linked.closed_nodes level) inside
      score
    rw [ran]
    exact lastInside
  exact walk.exists_ok fun _ none => none

/-! ## The nodes of a search -/

omit [FloatCompare S] in
/-- The nodes that were not found behind the ones that were are all nodes. -/
theorem withUnseen_all (query : Query S) {candidates : List (ScoredNode S)}
    (nodup : (candidates.map ScoredNode.nodeId).Nodup)
    (inside : ∀ item ∈ candidates, item.nodeId < index.nodes.length) :
    ((index.withUnseen query 0 candidates).map ScoredNode.nodeId).Perm
      (List.range index.nodes.length) := by
  have below : ∀ nodeId ∈ candidates.map ScoredNode.nodeId, nodeId ∈ List.range index.nodes.length := by
    intro nodeId member
    obtain ⟨item, itemIn, rfl⟩ := List.mem_map.mp member
    exact List.mem_range.mpr (inside item itemIn)
  unfold withUnseen
  split
  · rw [List.map_append, List.map_map]
    have unseen : ((List.range index.nodes.length).filter fun nodeId =>
        !(candidates.map ScoredNode.nodeId).contains nodeId).map (ScoredNode.nodeId ∘ fun nodeId =>
          (⟨index.scoreQuery query nodeId, nodeId⟩ : ScoredNode S)) =
        (List.range index.nodes.length).filter fun nodeId =>
          !(candidates.map ScoredNode.nodeId).contains nodeId := List.map_id _
    rw [unseen]
    refine (List.perm_ext_iff_of_nodup ?_ List.nodup_range).mpr fun nodeId => ?_
    · refine List.nodup_append.mpr ⟨nodup, List.nodup_range.filter _, ?_⟩
      intro nodeId seen other notSeen same
      have fresh := (List.mem_filter.mp notSeen).2
      rw [← same, Bool.not_eq_true', List.contains_eq_mem, decide_eq_false_iff_not] at fresh
      exact fresh seen
    · rw [List.mem_append, List.mem_filter, Bool.not_eq_true', List.contains_eq_mem,
        decide_eq_false_iff_not]
      constructor
      · rintro (seen | ⟨node, -⟩)
        · exact below nodeId seen
        · exact node
      · intro node
        by_cases seen : nodeId ∈ candidates.map ScoredNode.nodeId
        · exact Or.inl seen
        · exact Or.inr ⟨node, seen⟩
  · rename_i enough
    have many : index.nodes.length ≤ candidates.length := by
      by_contra few
      exact enough ⟨rfl, Nat.not_le.mp few⟩
    refine (nodup.subperm below).perm_of_length_le ?_
    rw [List.length_range, List.length_map]
    exact many

omit [FloatCompare S] in
theorem withUnseen_inside (query : Query S) (topK : Nat) {candidates : List (ScoredNode S)}
    (inside : ∀ item ∈ candidates, item.nodeId < index.nodes.length) :
    ∀ item ∈ index.withUnseen query topK candidates, item.nodeId < index.nodes.length := by
  intro item member
  unfold withUnseen at member
  split at member
  · rcases List.mem_append.mp member with found | unseen
    · exact inside item found
    · obtain ⟨nodeId, node, rfl⟩ := List.mem_map.mp unseen
      exact List.mem_range.mp (List.mem_filter.mp node).1
  · exact inside item member

omit [FloatCompare S] in
theorem withUnseen_nodup (query : Query S) (topK : Nat) {candidates : List (ScoredNode S)}
    (nodup : (candidates.map ScoredNode.nodeId).Nodup)
    (inside : ∀ item ∈ candidates, item.nodeId < index.nodes.length) :
    ((index.withUnseen query topK candidates).map ScoredNode.nodeId).Nodup := by
  by_cases all : topK = 0
  · rw [all]
    exact (withUnseen_all query nodup inside).nodup_iff.mpr List.nodup_range
  · have only : index.withUnseen query topK candidates = candidates := if_neg fun both => all both.1
    rw [only]
    exact nodup

/-- The result for a node. -/
def resultOf (index : FreshDiskAnnVectorIndex) (query : Query S) (candidate : ScoredNode S) :
    VectorSearchResult S :=
  ⟨(index.docIds.getD candidate.nodeId 0).toUInt64, index.scoreQuery query candidate.nodeId⟩

omit [FloatCompare S] in
theorem docIds_of_range (docIds : index.docIds.length = index.nodes.length) :
    (List.range index.nodes.length).map (fun nodeId => (index.docIds.getD nodeId 0).toUInt64) =
      index.docIds.map UInt32.toUInt64 := by
  refine List.ext_getElem ?_ fun position inRange inDocs => ?_
  · rw [List.length_map, List.length_map, List.length_range, docIds]
  · rw [List.length_map] at inDocs
    rw [List.getElem_map, List.getElem_map, List.getElem_range, List.getD_eq_getElem _ _ inDocs]

omit [FloatCompare S] in
theorem resultOf_docIds (query : Query S) (candidates : List (ScoredNode S)) :
    (candidates.map (index.resultOf query)).map VectorSearchResult.docId =
      (candidates.map ScoredNode.nodeId).map fun nodeId =>
        (index.docIds.getD nodeId 0).toUInt64 := by
  rw [List.map_map, List.map_map]
  rfl

omit [FloatCompare S] in
theorem resultOf_score (query : Query S) (candidate : ScoredNode S) :
    (index.resultOf query candidate).score =
      query.score (index.resultOf query candidate).docId.toUInt32 := by
  rw [resultOf, UInt32.toUInt32_toUInt64]
  rfl

omit [FloatCompare S] in
theorem resultOf_id (query : Query S) (candidate : ScoredNode S) :
    (index.resultOf query candidate).docId.toUInt32.toNat =
      (index.resultOf query candidate).docId.toNat := by
  rw [resultOf, UInt32.toUInt32_toUInt64, UInt32.toNat_toUInt64]

omit [FloatCompare S] in
/-- A search for all nodes has the documents of all nodes. -/
theorem resultOf_all (docIds : index.docIds.length = index.nodes.length) (query : Query S)
    {candidates : List (ScoredNode S)} (nodup : (candidates.map ScoredNode.nodeId).Nodup)
    (inside : ∀ item ∈ candidates, item.nodeId < index.nodes.length) :
    (((index.withUnseen query 0 candidates).map (index.resultOf query)).map
      VectorSearchResult.docId).Perm (index.docIds.map UInt32.toUInt64) := by
  rw [resultOf_docIds, ← docIds_of_range docIds]
  exact (withUnseen_all query nodup inside).map _

/-- A search for a query of the right dimension: the walk, the search of the lowest layer and
the sort. -/
theorem search_steps (sound : index.Sound) (some : index.nodes ≠ []) {query : Query S}
    (dimension : query.dimension = Postings.docVectorDim) (topK efSearch : Nat) :
    ∃ entry, entry < index.nodes.length ∧
      index.search heaps query topK efSearch = (do
        let candidates ← index.searchLayer heaps entry
          (max efSearch (if topK = 0 then index.nodes.length else topK)) 0 (index.scoreQuery query)
        let results ← sortBy compareResults
          ((index.withUnseen query topK candidates).map (index.resultOf query))
        pure (if topK > 0 ∧ results.length > topK then results.take topK else results)) := by
  have entryInside : index.entryPoint < index.nodes.length := by
    rcases sound.entry with empty | entry
    · exact absurd empty.1 some
    · exact entry.inside
  obtain ⟨entry, walked, inside⟩ := walkDown_ends sound.linked (index.scoreQuery query)
    index.maxLevel 1 entryInside
  refine ⟨entry, inside, ?_⟩
  rw [search, if_neg (by rw [not_or, not_not]; exact ⟨dimension, some⟩), walked, ok_bind]
  rfl

end Steps

section Sorting

variable {S : Type} [LinearOrder S]

/-- Sorting by score and then by id. -/
theorem sortBy_scores {α : Type} (scoreOf : α → S) (idOf : α → Nat) (items : List α) :
    ∃ sorted,
      sortBy (fun left right =>
        compareScoreThenDocId (scoreOf left) (idOf left) (scoreOf right) (idOf right)) items =
          .ok sorted ∧
        sorted.Perm items ∧
        sorted.Pairwise fun left right =>
          scoreOf right < scoreOf left ∨ scoreOf left = scoreOf right ∧ idOf left ≤ idOf right := by
  have linear := @linearOn_of_linearOrder S _
  have order := @LinearOn.orderOn S _ _ α linear scoreOf idOf items fun _ _ => trivial
  have notBehind : ∀ left right, compareScoreThenDocId (scoreOf left) (idOf left) (scoreOf right)
      (idOf right) ≠ .gt ↔
        scoreOf right < scoreOf left ∨ scoreOf left = scoreOf right ∧ idOf left ≤ idOf right := by
    intro left right
    rw [linear.compare_ne_gt trivial trivial]
    exact or_congr_left decide_eq_true_iff
  refine ⟨_, if_pos order, List.mergeSort_perm _ _, ?_⟩
  refine (sortBy_sorted (fun first second third => ?_) (fun first second => ?_)
    (if_pos order)).imp fun {left right} ordered => (notBehind left right).mp ordered
  · exact linear.compare_trans trivial trivial trivial
  · rw [notBehind, notBehind]
    rcases lt_trichotomy (scoreOf first) (scoreOf second) with below | same | above
    · exact Or.inr (Or.inl below)
    · rcases Nat.le_total (idOf first) (idOf second) with before | behind
      · exact Or.inl (Or.inr ⟨same, before⟩)
      · exact Or.inr (Or.inr ⟨same.symm, behind⟩)
    · exact Or.inl (Or.inl above)

end Sorting

section Searches

variable {S : Type} [LinearOrder S] {heaps : BinaryHeaps S} {index : FreshDiskAnnVectorIndex}

/-- The nodes of a layer search: some of the graph, without repetition, no more than wanted and
in order. -/
structure LayerFound (index : FreshDiskAnnVectorIndex) (level entry ef : Nat) (score : Nat → S)
    (found : List (ScoredNode S)) : Prop where
  inside : ∀ item ∈ found, item.nodeId < index.nodes.length ∧ item.score = score item.nodeId
  nodup : (found.map ScoredNode.nodeId).Nodup
  few : found.length ≤ ef
  present : found ≠ []
  sorted : found.Pairwise fun left right =>
    right.score < left.score ∨ left.score = right.score ∧ left.nodeId < right.nodeId
  exact_ : Set.ncard { nodeId | index.Reaches level entry nodeId } ≤ ef →
    ∀ nodeId, nodeId ∈ found.map ScoredNode.nodeId ↔ index.Reaches level entry nodeId

theorem searchLayer_found (linked : Linked index) {level entry ef : Nat}
    (here : entry < index.nodes.length) (positive : 1 ≤ ef) (score : Nat → S) :
    ∃ found, index.searchLayer heaps.toHeaps entry ef level score = .ok found ∧
      LayerFound index level entry ef score found := by
  have closed := linked.closed_nodes level
  obtain ⟨final, ran, searching⟩ := @searchLoop_searching S _ heaps.toHeaps index ef level score _
    entry closed here
  obtain ⟨sorted, sort, perm, ordered⟩ := sortBy_scores ScoredNode.score ScoredNode.nodeId
    (heaps.results.items final.results)
  have nodes := perm.map ScoredNode.nodeId
  have nodup := nodes.nodup_iff.mpr searching.resultsNodup
  have run : index.searchLayer heaps.toHeaps entry ef level score = .ok sorted := by
    rw [searchLayer, ran, ok_bind]
    exact sort
  refine ⟨sorted, run, fun item member => ?_, nodup, ?_, ?_, ?_, fun room nodeId => ?_⟩
  · obtain ⟨visited, shape⟩ := searching.results item (perm.mem_iff.mp member)
    refine ⟨searching.visitedInside _ visited, ?_⟩
    rw [shape]
    rfl
  · rw [perm.length_eq]
    exact searching.size positive
  · rw [← List.length_pos_iff, perm.length_eq]
    exact searching.present positive
  · have apart : sorted.Pairwise fun left right => left.nodeId ≠ right.nodeId :=
      List.pairwise_map.mp nodup
    refine (ordered.and apart).imp fun {left right} both => ?_
    exact both.1.imp_right fun tied => ⟨tied.1, Nat.lt_of_le_of_ne tied.2 both.2⟩
  · obtain ⟨last, lastRan, reached⟩ := @searchLayer_complete S _ heaps index ef level entry score
      (closed.closed_reaches here) room
    have same : final = last := Except.ok.inj (ran.symm.trans lastRan)
    rw [nodes.mem_iff, same]
    exact reached nodeId

/-! ## Answers -/

/-- The order of the answers: the score descending, then the document. -/
def Ranked (results : List (VectorSearchResult S)) : Prop :=
  results.Pairwise fun left right =>
    right.score < left.score ∨ left.score = right.score ∧ left.docId.toNat ≤ right.docId.toNat

/-- A search for a query of the right dimension ranks some of the nodes, and returns all of
these or the first ones. -/
theorem search_ranks (sound : index.Sound) (some : index.nodes ≠ []) {query : Query S}
    (dimension : query.dimension = Postings.docVectorDim) (topK efSearch : Nat) :
    ∃ candidates : List (ScoredNode S), ∃ results : List (VectorSearchResult S),
      (candidates.map ScoredNode.nodeId).Nodup ∧
        (∀ item ∈ candidates, item.nodeId < index.nodes.length) ∧
        results.Perm ((index.withUnseen query topK candidates).map (index.resultOf query)) ∧
        results ≠ [] ∧ Ranked results ∧
        index.search heaps.toHeaps query topK efSearch =
          .ok (if topK > 0 ∧ results.length > topK then results.take topK else results) := by
  obtain ⟨entry, inside, steps⟩ := @search_steps S _ heaps.toHeaps index sound some query dimension
    topK efSearch
  have positive : 1 ≤ max efSearch (if topK = 0 then index.nodes.length else topK) := by
    have nodes := List.length_pos_iff.mpr some
    split <;> omega
  obtain ⟨candidates, ran, found⟩ := @searchLayer_found S _ heaps index sound.linked 0 entry _
    inside positive (index.scoreQuery query)
  obtain ⟨results, sort, perm, ordered⟩ := sortBy_scores VectorSearchResult.score
    (fun result => result.docId.toUInt32.toNat)
    ((index.withUnseen query topK candidates).map (index.resultOf query))
  refine ⟨candidates, results, found.nodup, fun item member => (found.inside item member).1, perm,
    ?_, ?_, ?_⟩
  · obtain ⟨item, member⟩ := List.exists_mem_of_ne_nil _ found.present
    have kept : item ∈ index.withUnseen query topK candidates := by
      unfold withUnseen
      split
      · exact List.mem_append_left _ member
      · exact member
    exact List.ne_nil_of_mem (perm.mem_iff.mpr (List.mem_map_of_mem kept))
  · refine ordered.imp_of_mem fun {left right} leftIn rightIn ranked => ?_
    obtain ⟨leftNode, -, rfl⟩ := List.mem_map.mp (perm.mem_iff.mp leftIn)
    obtain ⟨rightNode, -, rfl⟩ := List.mem_map.mp (perm.mem_iff.mp rightIn)
    rwa [resultOf_id, resultOf_id] at ranked
  · rw [steps, ran, ok_bind]
    exact congrArg (· >>= _) sort

/-- All documents, in order and with their scores. -/
structure AllFound (index : FreshDiskAnnVectorIndex) (query : Query S)
    (results : List (VectorSearchResult S)) : Prop where
  documents : (results.map VectorSearchResult.docId).Perm (index.docIds.map UInt32.toUInt64)
  scores : ∀ result ∈ results, result.score = query.score result.docId.toUInt32
  ranked : Ranked results

theorem search_all (sound : index.Sound) {query : Query S}
    (dimension : query.dimension = Postings.docVectorDim) (efSearch : Nat) :
    ∃ results, index.search heaps.toHeaps query 0 efSearch = .ok results ∧
      index.AllFound query results := by
  by_cases empty : index.nodes = []
  · have docIds : index.docIds = [] := by
      apply List.eq_nil_of_length_eq_zero
      rw [sound.docIds, empty, List.length_nil]
    refine ⟨[], if_pos (Or.inr empty), ?_, (fun _ member => absurd member List.not_mem_nil),
      List.Pairwise.nil⟩
    rw [docIds]
    exact List.Perm.nil
  · obtain ⟨candidates, results, nodup, inside, perm, -, ranked, ran⟩ :=
      @search_ranks S _ heaps index sound empty query dimension 0 efSearch
    rw [if_neg fun both => Nat.lt_irrefl 0 both.1] at ran
    refine ⟨results, ran, ?_, fun result member => ?_, ranked⟩
    · exact (perm.map VectorSearchResult.docId).trans
        (resultOf_all sound.docIds query nodup inside)
    · obtain ⟨candidate, -, rfl⟩ := List.mem_map.mp (perm.mem_iff.mp member)
      exact resultOf_score query candidate

theorem search_some (sound : index.Sound) (query : Query S) {topK : Nat} (positive : 0 < topK)
    (efSearch : Nat) :
    ∃ results, index.search heaps.toHeaps query topK efSearch = .ok results ∧
      results.length ≤ topK ∧
        (results.map VectorSearchResult.docId).Subperm (index.docIds.map UInt32.toUInt64) ∧
        (query.dimension = Postings.docVectorDim → index.nodes ≠ [] → results ≠ []) := by
  by_cases refused : query.dimension ≠ Postings.docVectorDim ∨ index.nodes = []
  · refine ⟨[], if_pos refused, Nat.zero_le _, List.nil_subperm, fun dimension some => ?_⟩
    exact absurd refused (not_or.mpr ⟨not_not.mpr dimension, some⟩)
  · obtain ⟨dimension, some⟩ := not_or.mp refused
    obtain ⟨candidates, results, nodup, inside, perm, present, -, ran⟩ :=
      @search_ranks S _ heaps index sound some query (not_not.mp dimension) topK efSearch
    have only : index.withUnseen query topK candidates = candidates :=
      if_neg fun both => Nat.ne_of_gt positive both.1
    rw [only] at perm
    have nodes : (candidates.map ScoredNode.nodeId).Subperm (List.range index.nodes.length) :=
      nodup.subperm fun nodeId member => by
        obtain ⟨item, itemIn, rfl⟩ := List.mem_map.mp member
        exact List.mem_range.mpr (inside item itemIn)
    have documents : (results.map VectorSearchResult.docId).Subperm
        (index.docIds.map UInt32.toUInt64) := by
      refine (perm.map VectorSearchResult.docId).subperm.trans ?_
      rw [resultOf_docIds, ← docIds_of_range sound.docIds]
      obtain ⟨same, samePerm, sub⟩ := nodes
      exact ⟨same.map _, samePerm.map _, sub.map _⟩
    refine ⟨_, ran, ?_, ?_, fun _ _ => ?_⟩
    · split
      · exact List.length_take_le topK results
      · rename_i short
        exact Nat.not_lt.mp fun long => short ⟨positive, long⟩
    · split
      · exact ((List.take_sublist topK results).map _).subperm.trans documents
      · exact documents
    · split
      · rw [ne_eq, List.take_eq_nil_iff]
        exact not_or.mpr ⟨Nat.ne_of_gt positive, present⟩
      · exact present

/-- What the searches of a graph of these documents return. -/
structure Answers (index : FreshDiskAnnVectorIndex) (heaps : BinaryHeaps S)
    (added : List UInt64) : Prop where
  all : ∀ (query : Query S) (efSearch : Nat), query.dimension = Postings.docVectorDim →
    ∃ results, index.search heaps.toHeaps query 0 efSearch = .ok results ∧
      index.AllFound query results
  some : ∀ (query : Query S) (topK efSearch : Nat), 0 < topK →
    ∃ results, index.search heaps.toHeaps query topK efSearch = .ok results ∧
      results.length ≤ topK ∧
      (results.map VectorSearchResult.docId).Subperm (index.docIds.map UInt32.toUInt64) ∧
      (added.Nodup → (results.map VectorSearchResult.docId).Nodup) ∧
      (query.dimension = Postings.docVectorDim → index.nodes ≠ [] → results ≠ [])
  layer : ∀ (level entry ef : Nat) (score : Nat → S), entry < index.nodes.length → 1 ≤ ef →
    ∃ found, index.searchLayer heaps.toHeaps entry ef level score = .ok found ∧
      LayerFound index level entry ef score found
  greedy : ∀ (level entry : Nat) (score : Nat → S), entry < index.nodes.length →
    ∃ last, index.greedySearchLayer entry level score = .ok last ∧ last < index.nodes.length ∧
      ∀ neighbor ∈ index.neighbors last level, score neighbor ≤ score last

theorem Sound.answers (sound : index.Sound) {added accepted : List UInt64}
    (sub : accepted.Sublist added) (docIds : index.docIds.map UInt32.toUInt64 = accepted) :
    index.Answers heaps added := by
  refine ⟨fun query efSearch dimension => search_all sound dimension efSearch,
    fun query topK efSearch positive => ?_,
    fun level entry ef score here positive => searchLayer_found sound.linked here positive score,
    fun level entry score here => ?_⟩
  · obtain ⟨results, ran, few, documents, present⟩ := @search_some S _ heaps index sound query topK
      positive efSearch
    refine ⟨results, ran, few, documents, fun distinct => ?_, present⟩
    obtain ⟨same, perm, subSame⟩ := documents
    rw [docIds] at subSame
    exact perm.nodup_iff.mp ((distinct.sublist sub).sublist subSame)
  · obtain ⟨last, ran, inside, best⟩ := greedySearchLayer_ends (sound.linked.closed_nodes level)
      here score
    refine ⟨last, ran, inside, fun neighbor member => ?_⟩
    exact not_lt.mp (of_decide_eq_false (best neighbor member))

end Searches

/-- Every graph that is built holds the documents that it takes, and answers as it should. -/
theorem addAll_answers {S : Type} [LinearOrder S] (heaps : BinaryHeaps S)
    (cosine : UInt32 → UInt32 → S) (maxNeighbors efConstruction : Nat) (docIds : List UInt64) :
    ∃ index, (new maxNeighbors efConstruction).addAll heaps.toHeaps cosine docIds = .ok index ∧
      index.docIds.map UInt32.toUInt64 = (new maxNeighbors efConstruction).takes docIds ∧
      (index.docIds.map UInt32.toUInt64).Sublist docIds ∧ index.Answers heaps docIds := by
  obtain ⟨index, ran, kept⟩ := addAll_builds heaps.toHeaps cosine maxNeighbors efConstruction docIds
  have sub := taken_sublist (new maxNeighbors efConstruction).maxNeighbors docIds 0 0
  have same : index.docIds.map UInt32.toUInt64 =
      (new maxNeighbors efConstruction).takes docIds := kept.docIds
  refine ⟨index, ran, same, ?_, kept.sound.answers sub same⟩
  rw [same]
  exact sub

/-- The graph of a document that is added twice. -/
def twice : FreshDiskAnnVectorIndex :=
  { maxNeighbors := 2
    efConstruction := 2
    nodes := [⟨0, 0⟩, ⟨0, 2⟩]
    docIds := [5, 5]
    links := [1, noNode, 0, noNode]
    linkCounts := [1, 1]
    entryPoint := 0
    maxLevel := 0 }

/-- A document that is added twice has two nodes, and a search returns it twice. -/
theorem search_returns_document_twice :
    (new 2 2).addAll (BinaryHeaps.sorted : BinaryHeaps Nat).toHeaps (fun _ _ => 1) [5, 5] =
        .ok twice ∧
      twice.search (BinaryHeaps.sorted : BinaryHeaps Nat).toHeaps
        ⟨Postings.docVectorDim, fun _ => 1⟩ 2 200 = .ok [⟨5, 1⟩, ⟨5, 1⟩] ∧
      ¬(([⟨5, 1⟩, ⟨5, 1⟩] : List (VectorSearchResult Nat)).map VectorSearchResult.docId).Nodup := by
  refine ⟨by decide +kernel, ?_, by decide⟩
  have loop : (twice.searchLoop 200 0 (fun _ => 1) 3
      (startState 0 fun _ => 1 : LayerState (BinaryHeaps.sorted : BinaryHeaps Nat).toHeaps)).map
        (fun state => (BinaryHeaps.sorted : BinaryHeaps Nat).results.items state.results) =
      .ok [⟨1, 1⟩, ⟨1, 0⟩] := by
    decide +kernel
  have layer : twice.searchLayer (BinaryHeaps.sorted : BinaryHeaps Nat).toHeaps 0 200 0
      (fun _ => 1) = .ok [⟨1, 0⟩, ⟨1, 1⟩] := by
    have sorted : sortBy compareNodes ([⟨1, 1⟩, ⟨1, 0⟩] : List (ScoredNode Nat)) =
        .ok [⟨1, 0⟩, ⟨1, 1⟩] := sortBy_pair (by decide)
    cases ran : twice.searchLoop 200 0 (fun _ => 1) 3
        (startState 0 fun _ => 1 : LayerState (BinaryHeaps.sorted : BinaryHeaps Nat).toHeaps) with
    | error fault =>
        rw [ran] at loop
        cases loop
    | ok state =>
        rw [ran] at loop
        show (twice.searchLoop 200 0 (fun _ => 1) 3 (startState 0 fun _ => 1) >>= fun state =>
          sortBy compareNodes (BinaryHeaps.sorted.results.items state.results)) = _
        rw [ran, ← sorted]
        exact congrArg (sortBy compareNodes) (Except.ok.inj loop)
  have results : sortBy compareResults ([⟨5, 1⟩, ⟨5, 1⟩] : List (VectorSearchResult Nat)) =
      .ok [⟨5, 1⟩, ⟨5, 1⟩] := sortBy_pair (by decide)
  show (twice.searchLayer (BinaryHeaps.sorted : BinaryHeaps Nat).toHeaps 0 200 0 (fun _ => 1) >>=
    fun candidates => sortBy compareResults ((twice.withUnseen
      ⟨Postings.docVectorDim, fun _ => 1⟩ 2 candidates).map
        (twice.resultOf ⟨Postings.docVectorDim, fun _ => 1⟩)) >>= fun results =>
          pure (if 2 > 0 ∧ results.length > 2 then results.take 2 else results)) = _
  rw [layer, ok_bind]
  exact (congrArg (· >>= _) results).trans rfl

end FreshDiskAnnVectorIndex

end MoonShot.Vector
