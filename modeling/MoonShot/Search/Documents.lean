import MoonShot.Context.CacheSizes
import MoonShot.Context.RoundTrip
import MoonShot.Search.Readers

/-!
What a search for a text query over a context returns.

Owns that the documents of a query tree all have postings and so have records, that the reader of
a base and a delta starts on the documents of both, and what the executor returns from it: it
never panics, and gives the documents of the query, or a largest selection of them, or those
among the first documents it was allowed to visit.

Does not own vector queries.
-/

namespace MoonShot.Postings.PostingStore

open MoonShot.Lib

/-- Documents with postings have records, and no list is kept under the empty key. -/
structure Rooted (store : PostingStore) : Prop where
  posted : ∀ key docId tf, store.tf? key docId = some tf → store.HasDoc docId
  noEmptyKey : store.getPostingList .empty = none

section Rooted

variable {store : PostingStore}

theorem rooted_new : Rooted new := by
  constructor
  · intro key docId tf found
    cases found
  · rfl

/-- A call that leaves the lists as they are and drops no record. -/
theorem Rooted.touch {after : PostingStore} (rooted : Rooted store)
    (postings : after.postings = store.postings)
    (records : ∀ docId, store.HasDoc docId → after.HasDoc docId) : Rooted after := by
  constructor
  · intro key docId tf found
    unfold PostingStore.tf? getPostingList at found
    rw [postings] at found
    exact records docId (rooted.posted key docId tf found)
  · unfold getPostingList
    rw [postings]
    exact rooted.noEmptyKey

/-- The keys of a stream end in its letter. -/
theorem append_letter_ne_empty (term : Str) (stream : Stream) :
    term.append stream.letter ≠ .empty := by
  intro same
  have lengths := congrArg (fun text : Str => text.bytes.length) same
  have letter : stream.letter.bytes.length = 1 := by cases stream <;> rfl
  have empty : Str.empty.bytes.length = 0 := rfl
  simp only [Str.append, List.length_append, letter, empty] at lengths
  omega

theorem foldl_addPosting_empty (terms : List (Str × UInt32)) (store : PostingStore)
    (stream : Stream) (docId : UInt64) :
    (terms.foldl
        (fun store term => store.addPosting (term.1.append stream.letter) docId term.2)
        store).getPostingList .empty = store.getPostingList .empty := by
  induction terms generalizing store with
  | nil => rfl
  | cons term rest inductionHypothesis =>
      rw [List.foldl_cons, inductionHypothesis, getPostingList_addPosting,
        if_neg (append_letter_ne_empty term.1 stream).symm]

theorem Rooted.write (rooted : Rooted store) (words : List Str) (docId : UInt64)
    (postingType : Str) : Rooted (store.write words docId postingType) := by
  by_cases empty : words = []
  · unfold PostingStore.write
    rw [if_pos empty]
    exact rooted
  · have records := (write_records store empty docId postingType).1
    constructor
    · intro key other tf found
      unfold HasDoc
      rw [records, AssocMap.mem_keys_upsert]
      unfold PostingStore.write at found
      rw [if_neg empty] at found
      cases foldl_addPosting_tf? found with
      | inl same => exact Or.inl same
      | inr earlier => exact Or.inr (rooted.posted key other tf earlier)
    · unfold PostingStore.write
      rw [if_neg empty]
      exact (foldl_addPosting_empty _ store (streamAbbrev postingType) docId).trans
        rooted.noEmptyKey

theorem Rooted.apply (float : FloatOps) (rooted : Rooted store) (call : StoreCall) :
    Rooted (call.apply float store) := by
  have upserted : ∀ {after : PostingStore} {docId : UInt64} {change : DocStats → DocStats},
      after.docStats = store.docStats.upsert docId {} change →
      ∀ other, store.HasDoc other → after.HasDoc other := by
    intro after docId change records other known
    unfold HasDoc
    rw [records, AssocMap.mem_keys_upsert]
    exact Or.inr known
  cases call with
  | write words docId postingType => exact rooted.write words docId postingType
  | setDocImportance docId score => exact rooted.touch rfl (upserted rfl)
  | setDocVector docId vector =>
      show Rooted (store.setDocVector float docId vector)
      unfold PostingStore.setDocVector
      split
      · exact rooted.touch rfl (@upserted _ docId id rfl)
      · exact rooted
  | setDocPath docId path => exact rooted.touch rfl (upserted rfl)
  | setDocLengths docId titleLen bodyLen urlLen anchorLen metaLen =>
      exact rooted.touch rfl (upserted rfl)

end Rooted

end MoonShot.Postings.PostingStore

namespace MoonShot.Index

open MoonShot.Lib
open MoonShot.Postings
open MoonShot.Reader

/-- A query tree denotes no document that none of its terms has. -/
theorem Meaning.docsOf_subset (meaning : Meaning) {documents : Finset UInt64}
    (lists : ∀ key, meaning.lists key ⊆ documents) (node : EvalNode) :
    meaning.docsOf node ⊆ documents := by
  have union : ∀ nodes : List EvalNode, (∀ node ∈ nodes, meaning.docsOf node ⊆ documents) →
      unionAll (nodes.map meaning.docsOf) ⊆ documents := by
    intro nodes each doc member
    obtain ⟨docs, listed, inside⟩ := mem_unionAll.mp member
    obtain ⟨node, nodeListed, rfl⟩ := List.mem_map.mp listed
    exact each node nodeListed inside
  match node with
  | .term key wordSpan =>
      rw [docsOf]
      exact lists key
  | .and children =>
      rw [docsOf, denotations_eq]
      intro doc member
      obtain ⟨some_, all⟩ := mem_interAll.mp member
      obtain ⟨docs, listed⟩ := List.exists_mem_of_ne_nil _ some_
      obtain ⟨node, nodeListed, same⟩ := List.mem_map.mp listed
      have inside := all docs listed
      rw [← same] at inside
      exact docsOf_subset meaning lists node inside
  | .or children =>
      rw [docsOf, denotations_eq]
      apply union children
      intro node nodeListed
      exact docsOf_subset meaning lists node
  | .weakAnd children minShouldMatch =>
      rw [docsOf_weakAnd, weakAndSets_eq]
      apply (Finset.filter_subset _ _).trans
      apply union
      intro node member
      -- The nodes that count are children, or parts of children.
      have smaller : sizeOf node < sizeOf children := by
        unfold weakAndNodes at member
        split at member
        · exact List.sizeOf_lt_of_mem member
        · exact List.sizeOf_lt_of_mem (List.mem_filter.mp member).1
        · dsimp only at member
          split at member
          · exact sizeOf_flatten (List.mem_filter.mp member).1
          · exact sizeOf_flatten (List.mem_filter.mp member).1
      exact docsOf_subset meaning lists node
  | .not base exclude =>
      rw [docsOf]
      exact Finset.sdiff_subset.trans (docsOf_subset meaning lists base)
  | .boost base boost boostWeight =>
      rw [docsOf]
      exact docsOf_subset meaning lists base
termination_by sizeOf node
decreasing_by
  · have := List.sizeOf_lt_of_mem nodeListed
    simp only [EvalNode.and.sizeOf_spec]
    omega
  · have := List.sizeOf_lt_of_mem nodeListed
    simp only [EvalNode.or.sizeOf_spec]
    omega
  · simp only [EvalNode.weakAnd.sizeOf_spec]
    omega
  · simp only [EvalNode.not.sizeOf_spec]
    omega
  · simp only [EvalNode.boost.sizeOf_spec]
    omega

end MoonShot.Index

namespace MoonShot.Context

open MoonShot.Lib
open MoonShot.Postings
open MoonShot.Format
open MoonShot.Table
open MoonShot.Serializer
open MoonShot.Reader
open MoonShot.Index
open MoonShot.Query
open MoonShot.Search

/-! ## One index -/

/-- A store that a writer filled, and whose index can be saved and read. -/
structure Served (float : FloatOps) (store : PostingStore) : Prop where
  storable : Storable float store
  rooted : PostingStore.Rooted store
  fits : ∀ key, ContinuationsFit float store key

/-- The documents that the index of a store has for a query tree. -/
def LocalIndex.matching (float : FloatOps) (store : PostingStore) (index : LocalIndex)
    (node : EvalNode) : Finset UInt64 :=
  (index.queryContext.meaning (builtLists float store)).docsOf node

section Index

variable {float : FloatOps} {store : PostingStore} {index : LocalIndex}

theorem Served.posted (served : Served float store) {key : Str} {list : PostingList}
    (found : store.getPostingList key = some list) {entry : IndexEntry}
    (member : entry ∈ list.entries) : store.HasDoc entry.docId :=
  served.rooted.posted key entry.docId entry.termFrequency
    (PostingStore.tf?_eq_some.mpr ⟨list, found, member⟩)

theorem Served.queryable (served : Served float store) : Queryable float store where
  addressable := served.storable.addressable
  fits := served.fits
  bound := by
    intro key list found entry member
    have small := served.storable.fit entry.docId (served.posted found member)
    have last : noMoreDocs.toNat = 2 ^ 64 - 1 := by decide
    rw [UInt64.lt_iff_toNat_lt, last]
    omega
  noEmptyKey := served.rooted.noEmptyKey

/-- The documents of a query are documents of the store. -/
theorem Served.hasDoc_of_matching (served : Served float store) {node : EvalNode} {doc : UInt64}
    (member : doc ∈ index.matching float store node) : store.HasDoc doc := by
  have lists : ∀ key, builtLists float store key ⊆ store.docStats.keys.toFinset := by
    intro key doc inside
    obtain ⟨posting, listed, same⟩ := IndexReader.mem_idsOf.mp inside
    unfold keptPostings at listed
    split at listed
    · split at listed
      · rename_i list found
        obtain ⟨entry, entryListed, rfl⟩ := List.mem_map.mp listed
        rw [← same, List.mem_toFinset]
        exact served.posted found entryListed
      · cases listed
    · cases listed
  exact List.mem_toFinset.mp (Meaning.docsOf_subset
    (index.queryContext.meaning (builtLists float store)) lists node member)

/-- The header of a served store counts documents. -/
theorem LocalIndex.BuiltFrom.documentCount_pos (built : index.BuiltFrom float store)
    (storable : Storable float store) : index.documentCount > 0 := by
  show index.header.numDocuments > 0
  rw [(built.recordsOf storable.fit).count]
  exact UInt64.lt_iff_toNat_lt.mpr (recordCount_pos storable.nonempty storable.fit)

/-- A new reader for a tree stands before all its documents. -/
theorem LocalIndex.BuiltFrom.reads (built : index.BuiltFrom float store)
    (served : Served float store) (node : EvalNode) :
    ∃ enough, ∀ fuel, enough ≤ fuel → ∃ reader,
      buildRootReader fuel index.queryContext (some node) = some reader ∧
        reader.At fuel (index.matching float store node) := by
  have counted : index.queryContext.documentCount > 0 := built.documentCount_pos served.storable
  have documents : index.queryContext.numDocuments ≠ 0 := by
    unfold QueryContext.numDocuments
    rw [if_pos counted]
    exact (UInt64.pos_iff_ne_zero.mp counted)
  obtain ⟨enough, builds⟩ :=
    (@reads_built float store served.queryable index.queryContext built.table documents).builds node
  refine ⟨enough, ?_⟩
  intro fuel bounded
  obtain ⟨reader, readerEq, fresh⟩ := builds fuel bounded
  refine ⟨.text index.table.indexBlocks reader, congrArg (Option.map _) readerEq, ?_⟩
  exact ⟨builtPostings float store, fun word => keptPostings_ascending _, fresh.stands⟩

end Index

/-! ## A base and a delta -/

namespace IndexContext

/-- The context has the index of the first store, and of the second one when there is one. -/
structure Serves (float : FloatOps) (base : PostingStore) (delta : Option PostingStore)
    (context : IndexContext) : Prop where
  baseBuilt : context.base.BuiltFrom float base
  deltaBuilt : Option.Rel (fun attached store => attached.index.BuiltFrom float store)
    context.delta delta
  baseServed : Served float base
  deltaServed : ∀ store ∈ delta, Served float store

/-- The documents of a query tree in a base and its delta. -/
def matching (float : FloatOps) (base : PostingStore) (delta : Option PostingStore)
    (context : IndexContext) (node : EvalNode) : Finset UInt64 :=
  context.base.matching float base node ∪
    match context.delta, delta with
    | some attached, some store => attached.index.matching float store node
    | _, _ => ∅

section Serves

variable {float : FloatOps} {base : PostingStore} {delta : Option PostingStore}
    {context : IndexContext} {tree : EvalTree} {node : EvalNode}

theorem buildLocalReader_root (graph : GraphSearch) (fuel : Nat) (index : LocalIndex)
    (root : tree.root = some node) :
    (index.buildLocalReader graph fuel tree).1 =
      buildRootReader fuel index.queryContext (some node) := by
  unfold LocalIndex.buildLocalReader
  rw [if_neg (by rw [root]; exact fun both => Bool.false_ne_true both.1), root]

/-- The reader of a context for a tree stands before the documents of both indexes. -/
theorem Serves.getReader (serves : context.Serves float base delta) (graph : GraphSearch)
    (root : tree.root = some node) :
    ∃ enough, ∀ fuel, enough ≤ fuel → ∃ reader, context.getReader graph fuel tree = some reader ∧
      reader.At fuel (context.matching float base delta node) := by
  obtain ⟨enough, baseReads⟩ := serves.baseBuilt.reads serves.baseServed node
  have related := serves.deltaBuilt
  have deltaServed := serves.deltaServed
  unfold IndexContext.getReader matching
  cases attachedEq : context.delta with
  | none =>
      refine ⟨enough, ?_⟩
      intro fuel bounded
      obtain ⟨reader, built, stands⟩ := baseReads fuel bounded
      rw [buildLocalReader_root graph fuel context.base root, built]
      refine ⟨.single reader, rfl, ?_⟩
      rw [Finset.union_empty]
      exact stands
  | some attached =>
      rw [attachedEq] at related
      cases related with
      | @some _ store deltaBuilt =>
          have storeServed := deltaServed store rfl
          obtain ⟨deltaEnough, deltaReads⟩ := deltaBuilt.reads storeServed node
          refine ⟨max enough deltaEnough, ?_⟩
          intro fuel bounded
          obtain ⟨reader, built, stands⟩ := baseReads fuel (by omega)
          obtain ⟨deltaReader, deltaReaderEq, deltaStands⟩ := deltaReads fuel (by omega)
          have counted := deltaBuilt.documentCount_pos storeServed.storable
          have both : attached.index.documentCount > 0 ∧
              (tree.root.isSome = true ∨ tree.vectorQuery ≠ []) :=
            ⟨counted, Or.inl (by rw [root]; rfl)⟩
          rw [buildLocalReader_root graph fuel context.base root, built]
          refine ⟨bothReaders fuel reader deltaReader, ?_,
            [context.base.matching float base node, attached.index.matching float store node], ?_⟩
          · simp only [Option.bind_eq_bind, Option.bind_some, if_pos both,
              buildLocalReader_root graph fuel attached.index root, deltaReaderEq]
            rfl
          · have union := orAt_new (LocalReader.cursor_lawful fuel)
              (List.Forall₂.cons stands (List.Forall₂.cons deltaStands List.Forall₂.nil))
            rw [unionAll, List.foldr_cons, List.foldr_cons, List.foldr_nil,
              Finset.union_empty] at union
            exact union

/-- Every document of the query has its record. -/
theorem Serves.record (serves : context.Serves float base delta) {doc : UInt64}
    (member : doc ∈ context.matching float base delta node) :
    ∃ entry, context.getDocDataEntry doc = some entry ∧ entry.docId.toUInt64 = doc := by
  have baseAnswers := serves.baseBuilt.answers serves.baseServed.storable
  have related := serves.deltaBuilt
  have deltaServed := serves.deltaServed
  unfold matching at member
  cases attachedEq : context.delta with
  | none =>
      rw [attachedEq, Finset.union_empty] at member
      have inBase := serves.baseServed.hasDoc_of_matching member
      have small := serves.baseServed.storable.fit doc inBase
      have record := baseAnswers.records doc
      unfold getDocDataEntry
      dsimp only
      rw [readerDocumentIdValue_small (by omega : doc.toNat < 2 ^ 59)]
      cases found : context.base.findRecord doc with
      | none =>
          rw [found] at record
          exact absurd inBase record
      | some entry =>
          rw [found] at record
          obtain ⟨stats, _, recorded⟩ := record
          refine ⟨entry, rfl, ?_⟩
          rw [recorded.docId]
          exact toUInt64_docId small
  | some attached =>
      rw [attachedEq] at related member
      cases related with
      | @some _ store deltaBuilt =>
          have storeServed := deltaServed store rfl
          apply getDocDataEntry_answers baseAnswers (deltaBuilt.answers storeServed.storable)
            attachedEq serves.baseServed.storable.fit storeServed.storable.fit
          cases Finset.mem_union.mp member with
          | inl inBase => exact Or.inl (serves.baseServed.hasDoc_of_matching inBase)
          | inr inDelta => exact Or.inr (storeServed.hasDoc_of_matching inDelta)

end Serves

end IndexContext

/-! ## The small index and its delta -/

/-- `AddDocument` keeps a store rooted. -/
theorem rooted_writeDocument (float : FloatOps) (text : TextOps) {store : PostingStore}
    (rooted : PostingStore.Rooted store) (docId : UInt64) (document : Document)
    (buildVector : Bool) :
    PostingStore.Rooted (writeDocument float text store docId document buildVector) := by
  have written := ((((rooted.write (text.tokenize document.title) docId titleName).write
    (text.tokenize (if document.url = Str.empty then document.path else document.url)) docId
    urlName).write (text.tokenize document.anchor) docId anchorName).write
    (text.tokenize document.body) docId bodyName).write (text.tokenize document.metadata) docId
    metaName
  have ranked := written.apply float (.setDocImportance docId document.importance)
  unfold writeDocument
  dsimp only
  have embedded : ∀ {ranked : PostingStore} (vector : List F32), PostingStore.Rooted ranked →
      PostingStore.Rooted
        (if buildVector then ranked.setDocVector float docId vector else ranked) := by
    intro ranked vector rooted
    cases buildVector with
    | true => exact rooted.apply float (.setDocVector docId vector)
    | false => exact rooted
  by_cases empty : document.path = Str.empty
  · rw [if_pos empty]
    exact embedded _ ranked
  · rw [if_neg empty]
    exact (embedded _ ranked).apply float (.setDocPath docId document.path)

/-- The small index has one list. -/
theorem wordStore_keys {docId : UInt64} (small : docId = 0 ∨ docId = 1) :
    (wordStore docId).postings.keys = [bodyTerm] := by
  cases small with
  | inl first =>
      rw [first]
      decide +kernel
  | inr second =>
      rw [second]
      decide +kernel

theorem wordStore_served {docId : UInt64} (small : docId = 0 ∨ docId = 1) :
    Served default (wordStore docId) := by
  constructor
  · exact wordStore_storable small
  · exact rooted_writeDocument default wordText PostingStore.rooted_new docId _ true
  · intro key
    cases found : (wordStore docId).getPostingList key with
    | none => simp [ContinuationsFit, placementFor, found]
    | some list =>
        have member := (AssocMap.mem_keys_iff (wordStore docId).postings key).mpr ⟨list, found⟩
        rw [wordStore_keys small, List.mem_singleton] at member
        rw [member]
        cases small with
        | inl first =>
            rw [first]
            decide +kernel
        | inr second =>
            rw [second]
            decide +kernel

/-- The files of the small index and of its delta with the document 1. -/
def bothFiles : FileSystem :=
  Function.update wordFiles (deltaIndexPath wordPath)
    (some (builtParts default (wordStore 1)).bytes)

/-- A context that opens them serves both. -/
theorem bothFiles_serves : ∃ opened, IndexContext.new.loadIndex bothFiles wordPath = (opened, .ok ()) ∧
    opened.Serves default (wordStore 0) (some (wordStore 1)) := by
  have baseServed := wordStore_served (Or.inl rfl : (0 : UInt64) = 0 ∨ (0 : UInt64) = 1)
  have deltaServed := wordStore_served (Or.inr rfl : (1 : UInt64) = 0 ∨ (1 : UInt64) = 1)
  have base : bothFiles wordPath = some (builtParts default (wordStore 0)).bytes := by
    unfold bothFiles
    rw [Function.update_of_ne (IndexContext.deltaIndexPath_ne wordPath).symm]
    exact Function.update_self ..
  obtain ⟨opened, read, built, attached, attachedEq, deltaBuilt⟩ :=
    IndexContext.loadIndex_withDelta baseServed.storable deltaServed.storable base
      (Function.update_self ..)
  refine ⟨opened, read, built, ?_, baseServed, ?_⟩
  · rw [attachedEq]
    exact Option.Rel.some deltaBuilt
  · intro store same
    rw [← Option.some.inj same]
    exact deltaServed

end MoonShot.Context

namespace MoonShot.Search

open MoonShot.Lib
open MoonShot.Postings
open MoonShot.Format
open MoonShot.Reader
open MoonShot.Index
open MoonShot.Query
open MoonShot.Context
open MoonShot.Context.IndexContext (readerDocumentIdValue)

/-! ## Results -/

/-- Results of visits, each visit at most once: the best ones, as many as the limit allows. The
score of a result is the sum of what `GetScore` gave at the visit, the score of the record and
the feature of its vector. -/
structure Returns {S : Type} [LinearOrder S] (scoring : Scoring S)
    (vectorQuery : Option (List F32)) (topK : Int32) (visits : List (Visit S))
    (results : List (SearchResult S)) : Prop where
  documents : (results.map fun result => readerDocumentIdValue result.docId).Subperm
    (visits.map Visit.docId)
  found : results.Subperm (visits.map (Visit.result scoring vectorQuery))
  best : ∃ ordered, ordered.Perm
      (visits.map fun visit => (visit.result scoring vectorQuery).score) ∧
    ordered.Pairwise (fun first second => second ≤ first) ∧
    results.map SearchResult.score =
      match topKLimit topK with
      | none => ordered
      | some limit => ordered.take limit

section Results

variable {S : Type} [LinearOrder S] (heap : ResultHeap S) (scoring : Scoring S)
  (vectorQuery : Option (List F32))

/-- The results of visits to documents whose records carry their id. -/
theorem ranked_returns (topK : Int32) {visits : List (Visit S)}
    (small : ∀ visit ∈ visits, visit.docId.toNat < 2 ^ 59) :
    ∃ results, ranked heap scoring vectorQuery topK visits = some results ∧
      Returns scoring vectorQuery topK visits results := by
  let all := visits.map (Visit.result scoring vectorQuery)
  have back : all.map (fun result => readerDocumentIdValue result.docId) =
      visits.map Visit.docId := by
    show List.map _ (List.map _ _) = _
    rw [List.map_map]
    apply List.map_congr_left
    intro visit member
    exact readerDocumentIdValue_make (small visit member) visit.sourceMask
  have values : all.map SearchResult.score =
      visits.map fun visit => (visit.result scoring vectorQuery).score := by
    show List.map _ (List.map _ _) = _
    rw [List.map_map]
    rfl
  -- The scores of all results in order, of which a limited search keeps the first ones.
  have sorted : (sortDescending SearchResult.score all).Perm all := sortDescending_perm all
  have ordered : ((sortDescending SearchResult.score all).map SearchResult.score).Pairwise
      fun first second => second ≤ first :=
    List.pairwise_map.mpr (sortDescending_ordered all)
  have arranged : ((sortDescending SearchResult.score all).map SearchResult.score).Perm
      (visits.map fun visit => (visit.result scoring vectorQuery).score) := by
    rw [← values]
    exact sorted.map SearchResult.score
  have documents : ∀ {results : List (SearchResult S)}, results.Subperm all →
      (results.map fun result => readerDocumentIdValue result.docId).Subperm
        (visits.map Visit.docId) := by
    intro results part
    obtain ⟨front, rearranged, sublist⟩ := part
    rw [← back]
    exact ⟨_, rearranged.map _, sublist.map _⟩
  by_cases positive : 0 < topK.toInt
  · obtain ⟨kept, selects, rankedEq⟩ := ranked_limited heap scoring vectorQuery positive visits
    have part : (sortDescending SearchResult.score kept).Subperm all := by
      obtain ⟨dropped, split, _, _⟩ := selects
      have same : (sortDescending SearchResult.score kept).Perm kept := sortDescending_perm kept
      exact same.subperm.trans
        ((List.sublist_append_left kept dropped).subperm.trans split.subperm)
    refine ⟨_, rankedEq, documents part, part, _, arranged, ordered, ?_⟩
    rw [topKLimit_pos positive]
    exact selects.map_key_sortDescending
  · have nonpositive : topK.toInt ≤ 0 := by omega
    refine ⟨_, ranked_unlimited nonpositive visits, documents sorted.subperm, sorted.subperm, _,
      arranged, ordered, ?_⟩
    rw [topKLimit_nonpos nonpositive]

end Results

/-- The visits of a reader that stands before the documents of a query are visits of exactly these
documents, in ascending order. -/
theorem map_docId_visits {S : Type} {visits : List (Visit S)} {documents : Finset UInt64}
    (ascending : AscendingBy Visit.docId visits) (keys : keySet Visit.docId visits = documents) :
    visits.map Visit.docId = documents.sort (· ≤ ·) := by
  have strict : (visits.map Visit.docId).Pairwise (· < ·) := List.pairwise_map.mpr ascending
  rw [← keys]
  exact ((List.toFinset_sort (· ≤ ·) (strict.imp ne_of_lt)).mpr (strict.imp le_of_lt)).symm

/-- Both documents of the small index and its delta have the word `a` in the body. -/
theorem word_documents {context : IndexContext}
    (serves : context.Serves default (wordStore 0) (some (wordStore 1))) (wordSpan : UInt32) :
    (context.matching default (wordStore 0) (some (wordStore 1))
      (.term bodyTerm wordSpan)).sort (· ≤ ·) = [0, 1] := by
  have related := serves.deltaBuilt
  have base : builtLists default (wordStore 0) bodyTerm = {0} := by decide +kernel
  have delta : builtLists default (wordStore 1) bodyTerm = {1} := by decide +kernel
  have listed : ({0} ∪ {1} : Finset UInt64) = [0, 1].toFinset := by decide
  unfold IndexContext.matching LocalIndex.matching
  cases attachedEq : context.delta with
  | none =>
      rw [attachedEq] at related
      cases related
  | some attached =>
      dsimp only
      rw [Meaning.docsOf, Meaning.docsOf]
      unfold QueryContext.meaning
      dsimp only
      rw [base, delta, listed]
      exact (List.toFinset_sort (· ≤ ·) (by decide)).mpr (by decide)

/-- A leaf scores with its frequency. -/
def frequencyScoring : IndexReader.Scoring DocDataEntry Nat :=
  ⟨fun _ _ frequency _ => frequency.toNat, fun _ => 0⟩

end MoonShot.Search
