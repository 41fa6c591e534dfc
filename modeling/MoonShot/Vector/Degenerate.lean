import MoonShot.Context.State
import MoonShot.Vector.Refinement
import MoonShot.Vector.Scores

/-!
Sorts of the graph of a store.

Owns when no sort is given a comparison that is no order, from the first document that is added
to the last result of a search: at most one vector, or no vector that is all zero.

Does not own what a sort does with such a comparison.
-/

namespace MoonShot.Vector

open MoonShot.Lib
open MoonShot.Format
open MoonShot.Postings
open FloatCompare

namespace FreshDiskAnnVectorIndex

/-! ## Searches with floats -/

section Searches

variable {S : Type} [FloatCompare S] {heaps : Heaps S} {index : FreshDiskAnnVectorIndex}

/-- The scores of the query with the documents are ordered, or there is none to compare. -/
def OrdersQuery (index : FreshDiskAnnVectorIndex) (query : Query S) : Prop :=
  index.nodes.length ≤ 1 ∨
    ∃ scores : S → Prop, LinearOn scores ∧ ∀ docId ∈ index.docIds, scores (query.score docId)

omit [FloatCompare S] in
theorem Sound.scores (sound : index.Sound) {query : Query S} {scores : S → Prop}
    (ordered : ∀ docId ∈ index.docIds, scores (query.score docId)) {nodeId : Nat}
    (inside : nodeId < index.nodes.length) : scores (index.scoreQuery query nodeId) := by
  rw [← sound.docIds] at inside
  rw [scoreQuery, List.getD_eq_getElem _ _ inside]
  exact ordered _ (List.getElem_mem inside)

theorem OrdersQuery.orders (sound : index.Sound) {query : Query S}
    (orders : index.OrdersQuery query) :
    Orders (index.scoreQuery query) fun nodeId => nodeId < index.nodes.length := by
  rcases orders with short | ⟨scores, linear, ordered⟩
  · exact orders_of_short short
  · exact linear.orders fun nodeId inside => sound.scores ordered inside

/-- The results are ordered too. -/
theorem OrdersQuery.orderOn (sound : index.Sound) {query : Query S}
    (orders : index.OrdersQuery query) {candidates : List (ScoredNode S)}
    (nodup : (candidates.map ScoredNode.nodeId).Nodup)
    (inside : ∀ item ∈ candidates, item.nodeId < index.nodes.length) :
    OrderOn compareResults (candidates.map (index.resultOf query)) := by
  rcases orders with short | ⟨scores, linear, ordered⟩
  · refine orderOn_of_short (Nat.le_trans ?_ short)
    have most := length_le_of_below nodup fun nodeId member => by
      obtain ⟨item, itemIn, rfl⟩ := List.mem_map.mp member
      exact inside item itemIn
    rwa [List.length_map] at most ⊢
  · refine linear.orderOn VectorSearchResult.score (fun result => result.docId.toUInt32.toNat)
      fun result member => ?_
    obtain ⟨candidate, candidateIn, rfl⟩ := List.mem_map.mp member
    exact sound.scores ordered (inside candidate candidateIn)

/-- A search with ordered scores goes through. -/
theorem search_leads {sorts : Prop} (sound : index.Sound) (query : Query S)
    (orders : sorts → index.OrdersQuery query) (topK efSearch : Nat) :
    Leads (Stops sorts) (index.search heaps query topK efSearch) fun _ => True := by
  by_cases refused : query.dimension ≠ docVectorDim ∨ index.nodes = []
  · rw [search, if_pos refused]
    exact Leads.pure trivial
  · obtain ⟨dimension, some⟩ := not_or.mp refused
    obtain ⟨entry, inside, steps⟩ := @search_steps S _ heaps index sound some query
      (not_not.mp dimension) topK efSearch
    rw [steps]
    refine (searchLayer_leads (sound.linked.closed_nodes 0) inside fun holds =>
      (orders holds).orders sound).bind fun candidates found => ?_
    have sorted : Leads (Stops sorts) (sortBy compareResults
        ((index.withUnseen query topK candidates).map (index.resultOf query))) fun _ => True := by
      unfold sortBy
      split
      · exact Leads.pure trivial
      · rename_i noOrder
        exact ⟨rfl, fun holds => noOrder ((orders holds).orderOn sound
          (withUnseen_nodup query topK found.nodup found.inside)
          (withUnseen_inside query topK found.inside))⟩
    exact sorted.bind fun results _ => Leads.pure trivial

end Searches

theorem exists_other {α : Type} {items : List α} (distinct : items.Nodup) (many : 1 < items.length)
    (item : α) : ∃ other ∈ items, other ≠ item := by
  match items, distinct, many with
  | first :: second :: rest, distinct, _ =>
      by_cases same : first = item
      · refine ⟨second, List.mem_cons_of_mem _ List.mem_cons_self, fun equal => ?_⟩
        rw [← same] at equal
        exact (List.nodup_cons.mp distinct).1 (equal ▸ List.mem_cons_self)
      · exact ⟨first, List.mem_cons_self, same⟩

/-- A search for all documents, one of which has no number for its score, stops. -/
theorem search_stops {heaps : Heaps Score} {index : FreshDiskAnnVectorIndex} (sound : index.Sound)
    (distinct : index.docIds.Nodup) (many : 1 < index.docIds.length) {query : Query Score}
    (dimension : query.dimension = docVectorDim) {docId : UInt32} (member : docId ∈ index.docIds)
    (none : query.score docId = .nan) (efSearch : Nat) :
    index.search heaps query 0 efSearch = .error .assertion := by
  have some : index.nodes ≠ [] := by
    intro empty
    rw [sound.docIds, empty, List.length_nil] at many
    omega
  obtain ⟨entry, inside, steps⟩ := @search_steps Score _ heaps index sound some query dimension 0
    efSearch
  have searched := @searchLayer_leads Score _ heaps False index 0 entry
    (max efSearch (if 0 = 0 then index.nodes.length else 0)) (index.scoreQuery query) _
    (sound.linked.closed_nodes 0) inside False.elim
  rw [steps]
  cases ran : index.searchLayer heaps entry (max efSearch (if 0 = 0 then index.nodes.length else 0)) 0
    (index.scoreQuery query) with
  | error fault =>
      rw [ran] at searched
      rw [searched.1]
      rfl
  | ok candidates =>
      rw [ran] at searched
      have found : Found (index.scoreQuery query) _ _ candidates := searched
      have documents := resultOf_all sound.docIds query found.nodup found.inside
      have resultIn : ∀ doc ∈ index.docIds, ∃ result ∈ (index.withUnseen query 0 candidates).map
          (index.resultOf query), result.docId = doc.toUInt64 ∧ result.score = query.score doc := by
        intro doc docIn
        obtain ⟨result, resultIn, same⟩ :=
          List.mem_map.mp (documents.mem_iff.mpr (List.mem_map_of_mem docIn))
        obtain ⟨candidate, -, shape⟩ := List.mem_map.mp resultIn
        refine ⟨result, resultIn, same, ?_⟩
        rw [← shape, resultOf_score, shape, same, UInt32.toUInt32_toUInt64]
      obtain ⟨other, otherIn, apart⟩ := exists_other distinct many docId
      obtain ⟨first, firstIn, firstDoc, firstScore⟩ := resultIn docId member
      obtain ⟨second, secondIn, secondDoc, -⟩ := resultIn other otherIn
      have differ : first ≠ second := fun same => by
        rw [same, secondDoc] at firstDoc
        have ids := congrArg UInt64.toUInt32 firstDoc
        rw [UInt32.toUInt32_toUInt64, UInt32.toUInt32_toUInt64] at ids
        exact apart ids
      have noOrder : ¬OrderOn compareResults ((index.withUnseen query 0 candidates).map
          (index.resultOf query)) := not_orderOn_of_nan firstIn secondIn differ
        (firstScore.trans none)
      have sort : sortBy compareResults ((index.withUnseen query 0 candidates).map
          (index.resultOf query)) = .error .assertion := if_neg noOrder
      rw [ok_bind]
      exact congrArg (· >>= _) sort

/-! ## The graph of a store -/

/-- `GetDocVector` -/
def getDocVector (docData : Bytes) (firstDocId docId : UInt64) : DocVector :=
  let bytes :=
    slice docData ((docId - firstDocId).toNat * docRecSize + docVectorOffset) docVectorDim
  if size : bytes.length = docVectorDim then ⟨bytes, size⟩
  else ⟨List.replicate docVectorDim 0, List.length_replicate⟩

section Store

variable (quotient : RootQuotient) (float : FloatOps) (store : PostingStore)

/-- The vector of a document in the records of the store. -/
def storedVector (docId : UInt32) : DocVector :=
  getDocVector (encodeDocData float store).1 (storeFirstDocId store) docId.toUInt64

/-- The documents of the graph of `BuildIndexData`. -/
def graphDocuments : List UInt32 := (Context.buildIndexData float store true).vectorIndex.docIds

/-- The graph of `BuildIndexData`. -/
def buildGraph (heaps : Heaps Score) : Checked FreshDiskAnnVectorIndex :=
  (new 32 200).addAll heaps
    (fun left right =>
      scoreDocToDoc quotient (storedVector float store left) (storedVector float store right) .cosine)
    (vectorDocuments store)

/-- A query with a metric. -/
def queryOf (query : QueryVector) (metric : VectorMetric) : Query Score :=
  ⟨query.components.length,
    fun docId => scoreQueryToDoc quotient query (storedVector float store docId) metric⟩

/-- No sort stops for want of an order, neither while the graph is built nor in a search for
the query. -/
def SortsOrdered (heaps : Heaps Score) (query : QueryVector) : Prop :=
  match buildGraph quotient float store heaps with
  | .error fault => fault ≠ .assertion
  | .ok index => ∀ metric topK efSearch,
      index.search heaps (queryOf quotient float store query metric) topK efSearch ≠
        .error .assertion

/-- At most one document, or no vector that is all zero. -/
def Comparable (query : QueryVector) : Prop :=
  (graphDocuments float store).length ≤ 1 ∨
    (∀ docId ∈ graphDocuments float store, ¬DocVectorIsZero (storedVector float store docId)) ∧
      ¬query.IsZero

variable {quotient float store} {heaps : Heaps Score}

/-- The documents of the vector index are the ones that the graph takes. -/
theorem graphDocuments_eq : graphDocuments float store =
    ((new 32 200).takes (vectorDocuments store)).map UInt64.toUInt32 :=
  congrArg Context.VectorIndex.docIds (context_addAll (vectorDocuments store)
    (Context.VectorIndex.new.setDocData (encodeDocData float store).1 (storeFirstDocId store)))

theorem buildGraph_documents {index : FreshDiskAnnVectorIndex}
    (added : (new 32 200).AddedAll (vectorDocuments store) index) :
    index.docIds = graphDocuments float store ∧ index.docIds.Nodup := by
  refine ⟨added.stored.trans graphDocuments_eq.symm, ?_⟩
  have ids := added.docIds
  refine List.Nodup.of_map UInt32.toUInt64 ?_
  rw [ids]
  have keys : store.docStats.keys.Nodup := store.docStats.nodup
  exact (keys.filter _).sublist (taken_sublist _ _ _ _)

/-- A store whose vectors can be compared builds a graph. -/
theorem buildGraph_of_comparable {query : QueryVector}
    (comparable : Comparable float store query) :
    ∃ index, buildGraph quotient float store heaps = .ok index ∧
      (new 32 200).AddedAll (vectorDocuments store) index := by
  have built := @addAll_leads Score _ heaps (fun left right => scoreDocToDoc quotient
    (storedVector float store left) (storedVector float store right) .cosine) True
    (vectorDocuments store) (new 32 200) (new_sound 32 200) fun _ => by
      have all : (new 32 200).docIds ++
          ((new 32 200).takes (vectorDocuments store)).map UInt64.toUInt32 =
            graphDocuments float store := graphDocuments_eq.symm
      rw [all]
      refine comparable.imp id fun vectors => ⟨Score.IsNumber, Score.linearOn_numbers, ?_⟩
      intro left leftIn right rightIn
      exact (scoreDocToDoc_isNumber _ _ _).mpr ⟨vectors.1 left leftIn, vectors.1 right rightIn⟩
  exact built.exists_ok fun _ stops => stops.2 trivial

theorem sortsOrdered_iff (query : QueryVector) :
    SortsOrdered quotient float store heaps query ↔ Comparable float store query := by
  constructor
  · intro ordered
    by_contra degenerate
    obtain ⟨many, vectors⟩ := not_or.mp degenerate
    have built := @addAll_leads Score _ heaps (fun left right => scoreDocToDoc quotient
      (storedVector float store left) (storedVector float store right) .cosine) False
      (vectorDocuments store) (new 32 200) (new_sound 32 200) False.elim
    unfold SortsOrdered buildGraph at ordered
    split at ordered
    · rename_i fault ran
      rw [ran] at built
      exact ordered built.1
    · rename_i index ran
      rw [ran] at built
      have added : (new 32 200).AddedAll (vectorDocuments store) index := built
      obtain ⟨documents, distinct⟩ := @buildGraph_documents float store index added
      rw [← documents] at many vectors
      have several : 1 < index.docIds.length := Nat.not_le.mp many
      obtain ⟨docId, member, none⟩ : ∃ docId ∈ index.docIds,
          (queryOf quotient float store query .cosine).score docId = .nan := by
        by_contra numbers
        refine vectors ⟨fun docId member => ?_, ?_⟩
        · have number : (scoreQueryToDoc quotient query (storedVector float store docId)
            .cosine).IsNumber := fun none => numbers ⟨docId, member, none⟩
          exact ((scoreQueryToDoc_isNumber _ _ _).mp number).2
        · obtain ⟨docId, member⟩ := List.exists_mem_of_length_pos (Nat.lt_trans Nat.zero_lt_one several)
          have number : (scoreQueryToDoc quotient query (storedVector float store docId)
            .cosine).IsNumber := fun none => numbers ⟨docId, member, none⟩
          exact ((scoreQueryToDoc_isNumber _ _ _).mp number).1
      exact ordered .cosine 0 0
        (search_stops added.sound distinct several query.size member none 0)
  · intro comparable
    obtain ⟨index, ran, added⟩ := @buildGraph_of_comparable quotient float store heaps query comparable
    unfold SortsOrdered
    rw [ran]
    intro metric topK efSearch stops
    have documents := (@buildGraph_documents float store index added).1
    have searched := @search_leads Score _ heaps index True added.sound
      (queryOf quotient float store query metric) (fun _ => by
        unfold OrdersQuery
        rw [← added.sound.docIds, documents]
        refine comparable.imp id fun vectors => ⟨Score.IsNumber, Score.linearOn_numbers, ?_⟩
        intro docId member
        exact scoreQueryToDoc_number quotient vectors.2 (vectors.1 docId member) metric)
      topK efSearch
    rw [stops] at searched
    exact searched.2 trivial

end Store

/-! ## Documents that are added -/

/-- The store behind a sequence of `AddDocument`, each with or without its vector. -/
def documentsStore (float : FloatOps) (text : Context.TextOps)
    (documents : List (Context.Document × Bool)) : PostingStore :=
  (documents.foldl
    (fun (context : Context.IndexContext) document =>
      context.addDocument float text document.1 document.2) .new).base.store

/-- All sorts over added documents are given an order exactly when the vectors can be compared. -/
theorem added_sorts_ordered_iff (heaps : Heaps Score) (quotient : RootQuotient) (float : FloatOps)
    (text : Context.TextOps) (documents : List (Context.Document × Bool)) (query : QueryVector) :
    SortsOrdered quotient float (documentsStore float text documents) heaps query ↔
      Comparable float (documentsStore float text documents) query :=
  sortsOrdered_iff query

/-- Items in the order of their arrival. -/
def stackHeap (α : Type) : Heap α where
  Carrier := List α
  empty := []
  items := id
  push items item := item :: items
  peek items := items.head?
  pop items := items.tail
  items_empty := rfl
  items_push _ _ := List.Perm.refl _
  peek_eq_none _ := List.head?_eq_none_iff
  items_pop items item front := by
    cases items with
    | nil => cases front
    | cons first rest =>
        obtain rfl : first = item := by simpa using front
        exact List.Perm.refl _

/-- Quantisation of zero and of one. -/
def slotFloat : FloatOps :=
  { (default : FloatOps) with quantize := fun value => if value = 0 then 0 else 127 }

/-- A tokenizer for single words, and the embedding of the word `a` and of no word. -/
def slotText : Context.TextOps where
  tokenize word := if word = Str.empty then [] else [word]
  embed tokens :=
    if tokens = [] then List.replicate docVectorDim 0
    else List.replicate 12 0 ++ [0x3F800000] ++ List.replicate 115 0

/-- A document with the body `a`, and one without text. -/
def mixedDocuments : List (Context.Document × Bool) :=
  [({ docId := 0, body := ⟨[0x61], validUtf8_a⟩ }, true), ({ docId := 1 }, true)]

/-- The document without text has no score, so that the sort of both is given no order. -/
theorem empty_document_stops_sort :
    ¬SortsOrdered (fun _ _ _ => 1) slotFloat (documentsStore slotFloat slotText mixedDocuments)
      ⟨stackHeap _, stackHeap _⟩ ⟨List.replicate docVectorDim 1, List.length_replicate⟩ := by
  rw [sortsOrdered_iff]
  rintro (few | ⟨vectors, -⟩)
  · exact absurd few (by decide +kernel)
  · exact vectors 1 (by decide +kernel) (by decide +kernel)

end FreshDiskAnnVectorIndex

end MoonShot.Vector
