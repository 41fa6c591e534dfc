import MoonShot.Vector.Queries

/-!
The graph behind the vector index of a context.

Owns that the graph is what the context knows of it, the documents in order and the link slots,
and the search of the context in that graph, which answers as the context relies on.

Does not own when the context builds the graph.
-/

namespace MoonShot.Vector

open MoonShot.Lib
open MoonShot.Postings

namespace FreshDiskAnnVectorIndex

/-- What the context knows of a graph. -/
def abstraction (index : FreshDiskAnnVectorIndex) (docData : Bytes) (firstDocId : UInt64) :
    Context.VectorIndex :=
  ⟨index.docIds, index.links.length, docData, firstDocId⟩

theorem context_add (context : Context.VectorIndex) (docId : UInt64) :
    context.add docId =
      if RefusesAt Context.VectorIndex.maxNeighbors context.docIds.length context.linkSlots docId then
        context
      else
        { context with
          docIds := context.docIds ++ [docId.toUInt32]
          linkSlots := context.linkSlots +
            (Context.VectorIndex.randomLevel docId + 1) * Context.VectorIndex.maxNeighbors } := by
  unfold Context.VectorIndex.add
  dsimp only
  by_cases full : docId.toNat > 0xFFFFFFFF ∨ context.docIds.length ≥ 0xFFFFFFFF
  · rw [if_pos full]
    exact (if_pos (Or.inl full)).symm
  · rw [if_neg full]
    exact if_congr (or_iff_right full).symm rfl rfl

/-- The context takes the documents that the graph takes. -/
theorem context_addAll (docIds : List UInt64) :
    ∀ context : Context.VectorIndex,
      docIds.foldl Context.VectorIndex.add context =
        { context with
          docIds := context.docIds ++ (taken Context.VectorIndex.maxNeighbors
            context.docIds.length context.linkSlots docIds).map UInt64.toUInt32
          linkSlots := context.linkSlots + linkSlotsOf Context.VectorIndex.maxNeighbors
            (taken Context.VectorIndex.maxNeighbors context.docIds.length context.linkSlots
              docIds) } := by
  induction docIds with
  | nil =>
      intro context
      rw [taken, List.map_nil, List.append_nil]
      rfl
  | cons docId rest inductionHypothesis =>
      intro context
      rw [List.foldl_cons, context_add, taken]
      split
      · exact inductionHypothesis context
      · rw [inductionHypothesis]
        dsimp only
        rw [List.length_append, List.length_singleton, List.append_assoc, List.map_cons,
          List.singleton_append, linkSlotsOf, linkSlotsOf, List.map_cons, List.sum_cons,
          Nat.add_assoc]

/-- The graph refines the vector index of the context. -/
theorem AddedAll.refines {index after : FreshDiskAnnVectorIndex} {docIds : List UInt64}
    (sound : index.Sound) (most : index.maxNeighbors = Context.VectorIndex.maxNeighbors)
    (added : index.AddedAll docIds after) (docData : Bytes) (firstDocId : UInt64) :
    after.abstraction docData firstDocId =
      docIds.foldl Context.VectorIndex.add (index.abstraction docData firstDocId) := by
  rw [context_addAll, abstraction, added.stored, added.slots, takes, most, ← sound.docIds]
  rfl

/-! ## The graph of a store -/

/-- The documents of a store that have a vector. -/
def vectorDocuments (store : PostingStore) : List UInt64 :=
  store.docStats.keys.filter fun docId => (store.docVectors.get? docId).isSome

/-- The graph that `BuildIndexData` builds. -/
theorem build_refines {S : Type} [LinearOrder S] (heaps : Heaps S) (cosine : UInt32 → UInt32 → S)
    (float : FloatOps) (store : PostingStore) :
    ∃ index, (new 32 200).addAll heaps cosine (vectorDocuments store) = .ok index ∧
      index.abstraction (Context.buildIndexData float store true).docData
          (Format.storeFirstDocId store) =
        (Context.buildIndexData float store true).vectorIndex := by
  obtain ⟨index, ran, added⟩ := addAll_builds heaps cosine 32 200 (vectorDocuments store)
  exact ⟨index, ran, added.refines (new_sound 32 200) rfl _ _⟩

/-! ## The search of a context -/

section Searches

variable {S : Type} [LinearOrder S]

theorem add_builds (heaps : Heaps S) (cosine : UInt32 → UInt32 → S)
    {index : FreshDiskAnnVectorIndex} (sound : index.Sound) (docId : UInt64) :
    ∃ result, index.add heaps cosine docId = .ok result ∧ index.Added docId result := by
  have added := @add_leads S _ heaps cosine True index sound docId fun _ _ =>
    OrdersScores.ordersDocs (grown_docIds sound.docIds)
      (Or.inr ⟨fun _ => True, linearOn_of_linearOrder, fun _ _ _ _ => trivial⟩)
  exact added.exists_ok fun _ stops => stops.2 trivial

/-- The documents that a graph refuses leave no trace in it. -/
theorem addAll_takes (heaps : Heaps S) (cosine : UInt32 → UInt32 → S) (docIds : List UInt64) :
    ∀ {index : FreshDiskAnnVectorIndex}, index.Sound →
      index.addAll heaps cosine (index.takes docIds) = index.addAll heaps cosine docIds := by
  induction docIds with
  | nil => exact fun _ => rfl
  | cons docId rest inductionHypothesis =>
      intro index sound
      obtain ⟨⟨after, flag⟩, ran, added⟩ := add_builds heaps cosine sound docId
      have whole : index.addAll heaps cosine (docId :: rest) = after.addAll heaps cosine rest := by
        rw [addAll, List.foldlM_cons, ran]
        rfl
      cases flag with
      | false =>
          obtain ⟨refuses, same⟩ := added.refused rfl
          have unchanged : after = index := same
          rw [whole, takes_refused refuses, unchanged]
          exact inductionHypothesis sound
      | true =>
          obtain ⟨accepts, -⟩ := added.accepted rfl
          rw [whole, takes_accepted accepts sound added, addAll, List.foldlM_cons, ran]
          exact inductionHypothesis added.sound

/-- The scores of the records of a vector index, and how they are reported. -/
structure RecordScores (S : Type) where
  docs : Context.VectorIndex → UInt32 → UInt32 → S
  query : Context.VectorIndex → List F32 → UInt32 → S
  report : S → F32

variable (heaps : BinaryHeaps S) (scores : RecordScores S)

/-- The search in the graph of the documents of a vector index. -/
def searchIn (context : Context.VectorIndex) (query : List F32) (topK efSearch : Nat) :
    Checked (List (VectorSearchResult S)) := do
  let graph ← (new 32 200).addAll heaps.toHeaps (scores.docs context)
    (context.docIds.map UInt32.toUInt64)
  graph.search heaps.toHeaps ⟨docVectorDim, scores.query context query⟩ topK efSearch

/-- The first document is refused by no empty graph. -/
theorem takes_first (docId : UInt32) (rest : List UInt64) :
    ∃ others, (new 32 200).takes (docId.toUInt64 :: rest) = docId.toUInt64 :: others := by
  apply takes_head
  have level : Context.VectorIndex.randomLevel docId.toUInt64 ≤ 16 :=
    Context.VectorIndex.randomLevelLoop_le 16 _
  have narrow := docId.toNat_lt
  unfold Refuses RefusesAt
  change ¬((docId.toUInt64.toNat > 0xFFFFFFFF ∨ 0 ≥ 0xFFFFFFFF) ∨
    ((Context.VectorIndex.randomLevel docId.toUInt64 + 1) * 32 > 0xFFFFFFFF ∨
      0 > 0xFFFFFFFF - (Context.VectorIndex.randomLevel docId.toUInt64 + 1) * 32))
  rw [UInt32.toNat_toUInt64]
  omega

/-- The search goes through, finds documents of the index only, and finds some. -/
theorem searchIn_answers (context : Context.VectorIndex) (query : List F32)
    (topK efSearch : Nat) :
    ∃ results, searchIn heaps scores context query topK efSearch = .ok results ∧
      (∀ result ∈ results, ∃ node ∈ context.docIds, result.docId = node.toUInt64) ∧
      (context.docIds ≠ [] → 0 < topK → results ≠ []) := by
  obtain ⟨graph, ran, kept⟩ := addAll_builds heaps.toHeaps (scores.docs context) 32 200
    (context.docIds.map UInt32.toUInt64)
  have docIds : graph.docIds.map UInt32.toUInt64 =
      (new 32 200).takes (context.docIds.map UInt32.toUInt64) := kept.docIds
  have sub : (graph.docIds.map UInt32.toUInt64).Sublist (context.docIds.map UInt32.toUInt64) := by
    rw [docIds]
    exact taken_sublist _ _ 0 0
  have answers := @Sound.answers S _ heaps graph kept.sound _ _ sub rfl
  have steps : searchIn heaps scores context query topK efSearch =
      graph.search heaps.toHeaps ⟨docVectorDim, scores.query context query⟩ topK efSearch := by
    rw [searchIn, ran]
    rfl
  have stored : ∀ {results : List (VectorSearchResult S)},
      (results.map VectorSearchResult.docId).Subperm (graph.docIds.map UInt32.toUInt64) →
        ∀ result ∈ results, ∃ node ∈ context.docIds, result.docId = node.toUInt64 := by
    intro results documents result member
    have inside := sub.subset (documents.subset (List.mem_map_of_mem member))
    obtain ⟨node, nodeMember, same⟩ := List.mem_map.mp inside
    exact ⟨node, nodeMember, same.symm⟩
  rw [steps]
  by_cases positive : 0 < topK
  · obtain ⟨results, searched, -, documents, -, present⟩ := answers.some
      ⟨docVectorDim, scores.query context query⟩ topK efSearch positive
    refine ⟨results, searched, stored documents, fun nonempty _ => present rfl ?_⟩
    obtain ⟨first, rest, split⟩ := List.exists_cons_of_ne_nil nonempty
    obtain ⟨others, taken⟩ := takes_first first (rest.map UInt32.toUInt64)
    rw [split, List.map_cons, taken] at docIds
    have length := congrArg List.length docIds
    rw [List.length_map, kept.sound.docIds, List.length_cons] at length
    exact List.ne_nil_of_length_eq_add_one length
  · obtain rfl := Nat.eq_zero_of_not_pos positive
    obtain ⟨results, searched, found⟩ := answers.all ⟨docVectorDim, scores.query context query⟩
      efSearch rfl
    exact ⟨results, searched, stored found.documents.subperm,
      fun _ none => absurd none (Nat.lt_irrefl 0)⟩

/-- The search that a context relies on. -/
def graphSearch : Context.GraphSearch where
  search context query topK efSearch :=
    ((searchIn heaps scores context query topK efSearch).toOption.getD []).map
      fun result => ⟨result.docId, scores.report result.score⟩
  answersNodes := by
    intro context query topK efSearch result member
    obtain ⟨results, ran, documents, -⟩ :=
      searchIn_answers heaps scores context query topK efSearch
    rw [ran] at member
    obtain ⟨found, inside, rfl⟩ := List.mem_map.mp member
    exact documents found inside
  answers := by
    intro context query topK efSearch nonempty positive
    obtain ⟨results, ran, -, present⟩ :=
      searchIn_answers heaps scores context query topK efSearch
    rw [ran]
    exact List.map_eq_nil_iff.not.mpr (present nonempty positive)

/-- A context that has built its index searches the graph of the documents of the store. -/
theorem graphSearch_built (float : FloatOps) (store : PostingStore) (query : List F32)
    (topK efSearch : Nat) :
    ∃ graph results,
      (new 32 200).addAll heaps.toHeaps
          (scores.docs (Context.buildIndexData float store true).vectorIndex)
          (vectorDocuments store) = .ok graph ∧
        graph.abstraction (Context.buildIndexData float store true).docData
            (Format.storeFirstDocId store) =
          (Context.buildIndexData float store true).vectorIndex ∧
        graph.search heaps.toHeaps ⟨docVectorDim, scores.query
            (Context.buildIndexData float store true).vectorIndex query⟩ topK efSearch =
          .ok results ∧
        (graphSearch heaps scores).search (Context.buildIndexData float store true).vectorIndex
            query topK efSearch =
          results.map fun result => ⟨result.docId, scores.report result.score⟩ := by
  generalize same : (Context.buildIndexData float store true).vectorIndex = context
  obtain ⟨graph, ran, refined⟩ :=
    build_refines heaps.toHeaps (scores.docs context) float store
  rw [same] at refined
  obtain ⟨results, searched, -⟩ := searchIn_answers heaps scores context query topK efSearch
  have documents : context.docIds.map UInt32.toUInt64 =
      (new 32 200).takes (vectorDocuments store) := by
    obtain ⟨other, otherRan, kept⟩ := addAll_builds heaps.toHeaps (scores.docs context) 32 200
      (vectorDocuments store)
    obtain rfl := Except.ok.inj (ran.symm.trans otherRan)
    rw [← refined]
    exact kept.docIds
  have steps : searchIn heaps scores context query topK efSearch =
      graph.search heaps.toHeaps ⟨docVectorDim, scores.query context query⟩ topK efSearch := by
    rw [searchIn, documents, addAll_takes heaps.toHeaps (scores.docs context) _
      (new_sound 32 200), ran]
    rfl
  refine ⟨graph, results, ran, refined, steps.symm.trans searched, ?_⟩
  show ((searchIn heaps scores context query topK efSearch).toOption.getD []).map _ = _
  rw [searched]
  rfl

end Searches

end FreshDiskAnnVectorIndex

end MoonShot.Vector
