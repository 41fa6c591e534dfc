import MoonShot.Context.DocPaths
import MoonShot.Context.Saved
import MoonShot.Postings.Statistics

/-!
A saved index and a published delta, read back.

Owns what an index answers about the store it was built from: the number of documents and
their average length, the posting list and the frequency of every key, the record and the path
of every document. `Build`, a load of the saved file and a load of its bytes answer alike.
Documents that are added to a loaded index without an id are numbered behind all records, and
after a save at the delta path a fresh context finds them beside those of the base.

Does not own merges.
-/

namespace MoonShot.Context

open MoonShot.Lib
open MoonShot.Postings
open MoonShot.Format
open MoonShot.Table
open MoonShot.Serializer
open MoonShot.Reader
open MoonShot.Index

/-! ## Answers of an index -/

/-- The index answers for the documents and the lists of the store. A document without a record
between the first and the last one is counted. -/
structure LocalIndex.Answers (float : FloatOps) (store : PostingStore) (index : LocalIndex) :
    Prop where
  documents : ∃ first ∈ store.docStats.keys, ∃ last ∈ store.docStats.keys,
    index.documentCount.toNat = last.toNat - first.toNat + 1 ∧
      ∀ docId ∈ store.docStats.keys, first.toNat ≤ docId.toNat ∧ docId.toNat ≤ last.toNat
  average : index.avgDocLen = float.averageLength store.totalTerms index.documentCount
  lists : ∀ key, ContinuationsFit float store key.beforeNul →
    ∃ reader,
      AdvancedIndexReader.openReader index.table key index.header.numDocuments true = some reader ∧
      AdvancedIndexReader.Yields index.table.indexBlocks reader
        (keptPostings float store key.beforeNul)
  frequencies : ∀ key, ContinuationsFit float store key.beforeNul →
    IndexContext.localDocFreq index key = (keptPostings float store key.beforeNul).length
  records : ∀ docId,
    match index.findRecord docId with
    | none => docId ∉ store.docStats.keys
    | some entry => ∃ stats, store.docStats.get? docId = some stats ∧
        RecordOf float docId stats (store.docVectors.get? docId) entry
  paths : ∀ docId stats, store.docStats.get? docId = some stats →
    index.findPath docId =
      if stats.path = Str.empty then none
      else some (recordedPath (directoryId (writerBefore float store docId).table stats.path)
        stats.path)

section Answers

variable {float : FloatOps} {store : PostingStore} {index : LocalIndex}

theorem LocalIndex.BuiltFrom.recordsOf (built : index.BuiltFrom float store)
    (fit : DocIdsFit store) : index.RecordsOf float store where
  count := by rw [built.header]; rfl
  docData := built.docData
  fit := fit

/-- The frequency of a key is the length of its list. -/
theorem localDocFreq_built (addressable : Addressable float store)
    (table : index.table = (buildBlocks float store).table) {key : Str}
    (fits : ContinuationsFit float store key.beforeNul) :
    IndexContext.localDocFreq index key = (keptPostings float store key.beforeNul).length := by
  have search := findTermDataHeadLeaf_built addressable key.beforeNul fits
  unfold IndexContext.localDocFreq
  rw [table, findTermData_built]
  cases found : (buildBlocks float store).table.findTermDataHeadLeaf key.beforeNul with
  | none =>
      rw [found] at search
      rw [search]
      rfl
  | some location =>
      rw [found] at search
      obtain ⟨list, _, _, listFound, short, _, docFreq, _⟩ := search
      unfold keptPostings
      rw [if_pos short, listFound]
      exact docFreq.trans (list.postings_length float).symm

/-- An index with the runtime fields of a store answers for it. -/
theorem LocalIndex.BuiltFrom.answers (built : index.BuiltFrom float store)
    (storable : Storable float store) : index.Answers float store := by
  have recordsOf := built.recordsOf storable.fit
  have count := recordCount_pos storable.nonempty storable.fit
  have documents : index.header.numDocuments ≠ 0 := by
    rw [recordsOf.count]
    intro zero
    rw [zero] at count
    exact absurd count (by decide)
  constructor
  · obtain ⟨last, lastMember, firstMember, slots, range⟩ :=
      storeRange storable.nonempty storable.fit
    refine ⟨_, firstMember, last, lastMember, ?_, range⟩
    rw [LocalIndex.documentCount, recordsOf.count]
    exact slots
  · unfold LocalIndex.avgDocLen LocalIndex.documentCount
    rw [recordsOf.count, built.header]
    rw [recordsOf.count] at documents
    exact if_neg documents
  · intro key fits
    rw [built.table]
    obtain ⟨reader, opened, stands⟩ :=
      openReader_built storable.addressable key fits documents
    exact ⟨reader, opened, stands.yields⟩
  · intro key fits
    exact localDocFreq_built storable.addressable built.table fits
  · intro docId
    rw [recordsOf.findRecord storable.nonempty]
    exact findDocRecord_encoded float storable.nonempty storable.fit docId
  · intro docId stats stored
    have member := (store.docStats.mem_keys_iff docId).mpr ⟨stats, stored⟩
    obtain ⟨entry, slot, path⟩ := recordPath_of_document float storable.fit stored
    rw [LocalIndex.findPath_eq, recordsOf.findRecord storable.nonempty, built.prefixes,
      findDocRecord_member float storable.nonempty storable.fit member slot, Option.bind_some]
    exact path

end Answers

/-! ## Save, then load -/

section Saved

variable {float : FloatOps} {store : PostingStore} {files : FileSystem} {path : Str}

/-- `Build` of an index that was neither built nor loaded. -/
theorem IndexContext.build_builtFrom {context : IndexContext}
    (unbuilt : context.base.built = false)
    (nonempty : context.base.store.docStats.keys ≠ []) :
    (context.build float).base.BuiltFrom float context.base.store := by
  unfold IndexContext.build
  rw [if_neg (by rw [unbuilt]; decide), if_neg nonempty]
  exact ⟨rfl, rfl, rfl, rfl⟩

/-- `LoadFromBytes` of the file of a storable store installs its index. -/
theorem IndexContext.loadFromBytes_saved (storable : Storable float store)
    (context : IndexContext) :
    ∃ loaded, context.loadFromBytes (builtParts float store).bytes = (loaded, .ok ()) ∧
      loaded.base.BuiltFrom float store ∧ loaded.delta = none := by
  unfold IndexContext.loadFromBytes
  rw [(builtParts_agrees storable).loadBytes_bytes]
  exact ⟨_, rfl, ⟨rfl, rfl, rfl, rfl⟩, rfl⟩

/-- A save of documents that are not written yet writes the file of the store. -/
theorem IndexContext.saveIndex_file {context : IndexContext}
    (storable : Storable float context.base.store) (dirty : context.base.writeBuilt = false) :
    (saveIndex float files context path).1 =
        Function.update files path (some (builtParts float context.base.store).bytes) ∧
      (saveIndex float files context path).2.2 = .ok () := by
  have prepared : (context.prepareSave float path).write = .ofStore float context.base.store := by
    rw [← snapshot_dirty storable.nonempty dirty]
    unfold prepareSave snapshot overwritten
    dsimp only
    split <;> split <;> rfl
  have saved : saveSnapshot (context.prepareSave float path).write =
      .ok (builtParts float context.base.store).bytes := by
    rw [prepared]
    exact saveSnapshot_ofStore storable
  rw [saveIndex_of_saved saved]
  exact ⟨rfl, rfl⟩

end Saved

theorem IndexContext.addDocument_store (float : FloatOps) (text : TextOps)
    (context : IndexContext) (document : Document) (buildVector : Bool) :
    (context.addDocument float text document buildVector).base.store =
      writeDocument float text context.base.store (context.documentIdFor document) document
        buildVector := rfl

/-- A context with the document 0. -/
def wordContext : IndexContext := IndexContext.new.addDocument default wordText (wordDocument 0) true

theorem wordContext_store : wordContext.base.store = wordStore 0 := by
  have assigned : IndexContext.new.documentIdFor (wordDocument 0) = 0 := if_neg (by decide)
  unfold wordContext wordStore
  rw [IndexContext.addDocument_store, assigned]
  rfl

namespace IndexContext

variable {float : FloatOps} {text : TextOps}

/-- `AddDocument` for one document after the other. -/
def addDocuments (float : FloatOps) (text : TextOps) (context : IndexContext)
    (documents : List (Document × Bool)) : IndexContext :=
  documents.foldl (fun context document => context.addDocument float text document.1 document.2)
    context

/-- The documents leave their ids to `AllocateDocumentID`. -/
def Unassigned (documents : List (Document × Bool)) : Prop :=
  ∀ document ∈ documents, document.1.docId = 0xFFFFFFFFFFFFFFFF

instance (documents : List (Document × Bool)) : Decidable (Unassigned documents) :=
  inferInstanceAs (Decidable (∀ document ∈ documents, _))

/-- The stores have the same documents, up to one. -/
structure SameButFor (docId : UInt64) (before after : PostingStore) : Prop where
  kept : ∀ other ∈ before.docStats.keys, other ∈ after.docStats.keys
  only : ∀ other ∈ after.docStats.keys, other = docId ∨ other ∈ before.docStats.keys

namespace SameButFor

variable {docId : UInt64} {first second third : PostingStore}

theorem refl (store : PostingStore) : SameButFor docId store store :=
  ⟨fun _ => id, fun _ => Or.inr⟩

theorem trans (front : SameButFor docId first second) (back : SameButFor docId second third) :
    SameButFor docId first third := by
  constructor
  · intro other member
    exact back.kept other (front.kept other member)
  · intro other member
    cases back.only other member with
    | inl same => exact Or.inl same
    | inr earlier => exact front.only other earlier

theorem upsert {change : DocStats → DocStats}
    (records : second.docStats = first.docStats.upsert docId {} change) :
    SameButFor docId first second := by
  constructor
  · intro other member
    rw [records, AssocMap.mem_keys_upsert]
    exact Or.inr member
  · intro other member
    rw [records, AssocMap.mem_keys_upsert] at member
    exact member

theorem write (store : PostingStore) (words : List Str) (docId : UInt64) (postingType : Str) :
    SameButFor docId store (store.write words docId postingType) := by
  by_cases empty : words = []
  · unfold PostingStore.write
    rw [if_pos empty]
    exact refl store
  · exact upsert (PostingStore.write_records store empty docId postingType).1

theorem setDocVector (float : FloatOps) (store : PostingStore) (docId : UInt64)
    (vector : List F32) : SameButFor docId store (store.setDocVector float docId vector) := by
  unfold PostingStore.setDocVector
  split
  · exact @upsert docId store _ id rfl
  · exact refl store

end SameButFor

/-- The writes of a document make its record, and no other. -/
theorem mem_keys_writeDocument (store : PostingStore) (docId : UInt64) (document : Document)
    (buildVector : Bool) (other : UInt64) :
    other ∈ (writeDocument float text store docId document buildVector).docStats.keys ↔
      other = docId ∨ other ∈ store.docStats.keys := by
  unfold writeDocument
  dsimp only
  generalize text.tokenize document.title = title
  generalize text.tokenize (if document.url = Str.empty then document.path else document.url) = url
  generalize text.tokenize document.anchor = anchor
  generalize text.tokenize document.body = body
  generalize text.tokenize document.metadata = metadata
  have written : SameButFor docId store
      (((((store.write title docId titleName).write url docId urlName).write anchor docId
        anchorName).write body docId bodyName).write metadata docId metaName) :=
    ((((SameButFor.write _ _ _ _).trans (SameButFor.write _ _ _ _)).trans
      (SameButFor.write _ _ _ _)).trans (SameButFor.write _ _ _ _)).trans
        (SameButFor.write _ _ _ _)
  generalize ((((store.write title docId titleName).write url docId urlName).write anchor docId
    anchorName).write body docId bodyName).write metadata docId metaName = posted at written ⊢
  -- The importance is set for every document.
  have present : docId ∈ (posted.setDocImportance docId document.importance).docStats.keys :=
    (AssocMap.mem_keys_upsert _ _ _ _ _).mpr (Or.inl rfl)
  have ranked : SameButFor docId posted (posted.setDocImportance docId document.importance) :=
    .upsert rfl
  have later : SameButFor docId (posted.setDocImportance docId document.importance)
      (if document.path = Str.empty then
        if buildVector then
          (posted.setDocImportance docId document.importance).setDocVector float docId
            (text.embed (title ++ url ++ anchor ++ body ++ metadata))
        else posted.setDocImportance docId document.importance
      else PostingStore.setDocPath
        (if buildVector then
          (posted.setDocImportance docId document.importance).setDocVector float docId
            (text.embed (title ++ url ++ anchor ++ body ++ metadata))
        else posted.setDocImportance docId document.importance) docId document.path) := by
    have vector : SameButFor docId (posted.setDocImportance docId document.importance)
        (if buildVector then
          (posted.setDocImportance docId document.importance).setDocVector float docId
            (text.embed (title ++ url ++ anchor ++ body ++ metadata))
        else posted.setDocImportance docId document.importance) := by
      split
      · exact .setDocVector _ _ _ _
      · exact .refl _
    split
    · exact vector
    · exact vector.trans (.upsert rfl)
  have whole := (written.trans ranked).trans later
  constructor
  · exact whole.only other
  · intro known
    cases known with
    | inl same =>
        rw [same]
        exact later.kept docId present
    | inr earlier => exact whole.kept other earlier

/-- Where the records of a context end. -/
def recordsEnd (context : IndexContext) : UInt64 :=
  match context.delta with
  | some delta => max (endDocId context.base) (endDocId delta.index)
  | none => endDocId context.base

/-- `AllocateDocumentID` gives the least id behind the records and the documents of the store. -/
theorem allocateDocumentId_le (context : IndexContext) (bound : UInt64) :
    context.allocateDocumentId ≤ bound ↔
      context.recordsEnd ≤ bound ∧ ∀ docId ∈ context.base.store.docStats.keys, docId + 1 ≤ bound := by
  have start : context.allocateDocumentId = context.base.store.docStats.keys.foldl
      (fun nextId docId => max nextId (docId + 1)) context.recordsEnd := by
    unfold allocateDocumentId recordsEnd
    cases context.delta <;> rfl
  rw [start]
  generalize context.recordsEnd = nextId
  generalize context.base.store.docStats.keys = docIds
  induction docIds generalizing nextId with
  | nil => simp
  | cons docId rest inductionHypothesis =>
      have later := inductionHypothesis (max nextId (docId + 1))
      rw [List.foldl_cons, List.forall_mem_cons, ← and_assoc, ← max_le_iff]
      exact later

/-- A document without an id gets the next one. -/
theorem addDocument_unassigned {context : IndexContext} {document : Document}
    (unassigned : document.docId = 0xFFFFFFFFFFFFFFFF) (buildVector : Bool)
    (fits : context.allocateDocumentId.toNat ≤ 0xFFFFFFFF) :
    (∀ other, other ∈ (context.addDocument float text document buildVector).base.store.docStats.keys ↔
        other = context.allocateDocumentId ∨ other ∈ context.base.store.docStats.keys) ∧
      (context.addDocument float text document buildVector).allocateDocumentId =
        context.allocateDocumentId + 1 := by
  have assigned : context.documentIdFor document = context.allocateDocumentId :=
    if_pos unassigned
  have keys : ∀ other,
      other ∈ (context.addDocument float text document buildVector).base.store.docStats.keys ↔
        other = context.allocateDocumentId ∨ other ∈ context.base.store.docStats.keys := by
    intro other
    rw [← assigned]
    exact mem_keys_writeDocument _ _ _ _ _
  refine ⟨keys, ?_⟩
  have next : (context.allocateDocumentId + 1).toNat = context.allocateDocumentId.toNat + 1 := by
    rw [UInt64.toNat_add, UInt64.toNat_one, Nat.mod_eq_of_lt (by omega)]
  have below : context.allocateDocumentId ≤ context.allocateDocumentId + 1 := by
    rw [UInt64.le_iff_toNat_le]
    omega
  have old := (allocateDocumentId_le context _).mp (le_refl context.allocateDocumentId)
  have new := (allocateDocumentId_le (context.addDocument float text document buildVector) _).mp
    (le_refl (context.addDocument float text document buildVector).allocateDocumentId)
  apply le_antisymm
  · apply (allocateDocumentId_le _ _).mpr
    refine ⟨le_trans old.1 below, ?_⟩
    intro docId member
    cases (keys docId).mp member with
    | inl same => rw [same]
    | inr earlier => exact le_trans (old.2 docId earlier) below
  · exact new.2 _ ((keys _).mpr (Or.inl rfl))

/-- Documents without ids are numbered behind the records, one after the other. -/
theorem addDocuments_numbered {context : IndexContext} {documents : List (Document × Bool)}
    (unassigned : Unassigned documents)
    (fit : DocIdsFit (context.addDocuments float text documents).base.store) :
    (∀ docId ∈ (context.addDocuments float text documents).base.store.docStats.keys,
        docId ∈ context.base.store.docStats.keys ∨
          context.allocateDocumentId.toNat ≤ docId.toNat ∧
            docId.toNat < context.allocateDocumentId.toNat + documents.length) ∧
      (∀ docId ∈ context.base.store.docStats.keys,
        docId ∈ (context.addDocuments float text documents).base.store.docStats.keys) ∧
      ∀ place < documents.length,
        context.allocateDocumentId + UInt64.ofNat place ∈
          (context.addDocuments float text documents).base.store.docStats.keys ∧
        (context.allocateDocumentId + UInt64.ofNat place).toNat =
          context.allocateDocumentId.toNat + place := by
  induction documents generalizing context with
  | nil => exact ⟨fun docId member => Or.inl member, fun docId member => member, by simp⟩
  | cons document rest inductionHypothesis =>
      let added := context.addDocument float text document.1 document.2
      change DocIdsFit (added.addDocuments float text rest).base.store at fit
      have head := unassigned document List.mem_cons_self
      obtain ⟨known, kept, numbered⟩ := inductionHypothesis
        (fun other member => unassigned other (List.mem_cons_of_mem _ member)) fit
      -- The id of the first document is kept to the end, so it fits.
      have first : context.allocateDocumentId ∈ added.base.store.docStats.keys := by
        have assigned : context.documentIdFor document.1 = context.allocateDocumentId :=
          if_pos head
        rw [← assigned]
        exact (mem_keys_writeDocument _ _ _ _ _).mpr (Or.inl rfl)
      have fits := fit _ (kept _ first)
      obtain ⟨keys, next⟩ :=
        @addDocument_unassigned float text _ _ head document.2 fits
      have nextNat : (context.allocateDocumentId + 1).toNat =
          context.allocateDocumentId.toNat + 1 := by
        rw [UInt64.toNat_add, UInt64.toNat_one, Nat.mod_eq_of_lt (by omega)]
      rw [show added.allocateDocumentId = _ from next] at known numbered
      rw [nextNat] at known
      refine ⟨?_, ?_, ?_⟩
      · intro docId member
        rw [List.length_cons]
        cases known docId member with
        | inl inAdded =>
            cases (keys docId).mp inAdded with
            | inl same =>
                rw [same]
                exact Or.inr ⟨le_refl _, by omega⟩
            | inr earlier => exact Or.inl earlier
        | inr later => exact Or.inr ⟨by omega, by omega⟩
      · intro docId member
        exact kept docId ((keys docId).mpr (Or.inr member))
      · intro place inside
        cases place with
        | zero =>
            have zero : context.allocateDocumentId + UInt64.ofNat 0 =
                context.allocateDocumentId := UInt64.add_zero _
            rw [zero]
            exact ⟨kept _ first, rfl⟩
        | succ place =>
            have step : context.allocateDocumentId + UInt64.ofNat (place + 1) =
                context.allocateDocumentId + 1 + UInt64.ofNat place := by
              rw [UInt64.ofNat_add, UInt64.add_assoc, UInt64.add_comm (UInt64.ofNat place)]
              rfl
            have later := numbered place (by rw [List.length_cons] at inside; omega)
            rw [step]
            exact ⟨later.1, by omega⟩

/-! ## Publishing a delta -/

/-- The delta path is longer than the path of its index. -/
theorem deltaIndexPath_ne (path : Str) : deltaIndexPath path ≠ path := by
  intro same
  have lengths := congrArg (fun text : Str => text.bytes.length) same
  have mark : deltaMark.bytes.length = 6 := rfl
  have dot : dotText.bytes.length = 1 := rfl
  unfold deltaIndexPath at lengths
  cases found : rfind isDot path.bytes with
  | none =>
      rw [Str.cutLast_eq_none _ found] at lengths
      simp only [Str.append, List.length_append, mark] at lengths
      omega
  | some index =>
      obtain ⟨⟨stem, extension⟩, cut, stemBytes, extensionBytes⟩ := Str.cutLast_eq_some isDot_ascii found
      rw [cut] at lengths
      dsimp only at lengths stemBytes extensionBytes
      split at lengths
      · simp only [Str.append, List.length_append, mark] at lengths
        omega
      · simp only [Str.append, List.length_append, mark, dot, stemBytes, extensionBytes,
          List.length_take, List.length_drop] at lengths
        omega

/-- The file of a storable store starts like an index. -/
theorem isValidIndex_saved {store : PostingStore} (storable : Storable float store)
    {files : FileSystem} {path : Str} (present : files path = some (builtParts float store).bytes) :
    isValidIndex files path = true := by
  have agrees := builtParts_agrees storable
  have stored := agrees.stored.1
  have size : indexFileHeaderSize = 136 := rfl
  have whole : (builtParts float store).header.toBytes.length = indexFileHeaderSize :=
    (builtParts float store).header.toBytes_length
  have inside := FileParts.Agrees.inside_of_slice (by decide) stored whole
  unfold isValidIndex
  rw [present]
  have front : slice (builtParts float store).bytes 0 8 = indexFileMagic := by
    have inHeader := slice_field (rfl : (builtParts float store).header.fields[0]? = some _) rfl
      (builtParts float store).header.magicSize
    rw [← agrees.current.magic, ← inHeader]
    show _ = slice (builtParts float store).header.toBytes 0 8
    rw [← stored, slice_slice (by omega)]
  dsimp only
  rw [front, decide_eq_true (by omega)]
  decide

/-- Adding documents touches the store only. -/
theorem addDocuments_frame (context : IndexContext) (documents : List (Document × Bool)) :
    let added := context.addDocuments float text documents
    added.delta = context.delta ∧ added.base.indexPath = context.base.indexPath ∧
      (documents ≠ [] → added.base.writeBuilt = false) := by
  induction documents generalizing context with
  | nil => exact ⟨rfl, rfl, fun some_ => absurd rfl some_⟩
  | cons document rest inductionHypothesis =>
      obtain ⟨delta, indexPath, dirty⟩ :=
        inductionHypothesis (context.addDocument float text document.1 document.2)
      refine ⟨delta, indexPath, ?_⟩
      intro _
      by_cases last : rest = []
      · rw [last]
        rfl
      · exact dirty last

/-- A context that opens an index whose delta file was saved attaches the delta. -/
theorem loadIndex_withDelta {baseStore deltaStore : PostingStore}
    (baseStorable : Storable float baseStore) (deltaStorable : Storable float deltaStore)
    {files : FileSystem} {path : Str}
    (base : files path = some (builtParts float baseStore).bytes)
    (delta : files (deltaIndexPath path) = some (builtParts float deltaStore).bytes) :
    ∃ opened, new.loadIndex files path = (opened, .ok ()) ∧
      opened.base.BuiltFrom float baseStore ∧
      ∃ attached, opened.delta = some attached ∧ attached.index.BuiltFrom float deltaStore := by
  have cache : pageSize ≤ new.base.leafTermCacheBytes := by decide
  obtain ⟨loaded, read, built, _, indexPath, _⟩ :=
    LocalIndex.loadIndex_saved baseStorable base cache
  have loadDelta : loaded.loadDelta = true := by
    unfold LocalIndex.loadIndex at read
    dsimp only at read
    split at read
    · cases read
    · cases read
      rfl
  have deltaCache : pageSize ≤ ({ LocalIndex.new false with
      indexPath := some (deltaIndexPath path) } : LocalIndex).leafTermCacheBytes := cache
  obtain ⟨deltaLoaded, deltaRead, deltaBuilt, _, _, fromDisk⟩ :=
    @LocalIndex.loadIndex_saved float deltaStore files _ deltaStorable delta
      { LocalIndex.new false with indexPath := some (deltaIndexPath path) } deltaCache
  have opened : LocalIndex.withPath files (deltaIndexPath path) = deltaLoaded := by
    unfold LocalIndex.withPath
    rw [deltaRead]
  have counted : deltaLoaded.documentCount > 0 := by
    have recordsOf := deltaBuilt.recordsOf deltaStorable.fit
    show deltaLoaded.header.numDocuments > 0
    rw [recordsOf.count]
    exact UInt64.lt_iff_toNat_lt.mpr (recordCount_pos deltaStorable.nonempty deltaStorable.fit)
  have ready : (LocalIndex.withPath files (deltaIndexPath path)).loadedFromDisk = true ∧
      (LocalIndex.withPath files (deltaIndexPath path)).documentCount > 0 := by
    rw [opened]
    exact ⟨fromDisk, counted⟩
  refine ⟨⟨loaded, loadDeltaIndex files loaded⟩, loadIndex_of_loaded read, built, ?_⟩
  unfold loadDeltaIndex
  rw [if_neg (by rw [loadDelta]; decide), indexPath]
  dsimp only
  have valid := isValidIndex_saved deltaStorable delta
  rw [if_neg (by
    intro refused
    cases refused with
    | inl same => exact deltaIndexPath_ne path same
    | inr invalid =>
        rw [valid] at invalid
        cases invalid), dif_pos ready]
  refine ⟨_, rfl, ?_⟩
  show LocalIndex.BuiltFrom float deltaStore (LocalIndex.withPath files (deltaIndexPath path))
  rw [opened]
  exact deltaBuilt

/-- The records of an index end behind its last document. -/
theorem endDocId_built {store : PostingStore} (storable : Storable float store)
    {index : LocalIndex} (built : index.BuiltFrom float store) :
    ∃ last ∈ store.docStats.keys, (endDocId index).toNat = last.toNat + 1 ∧
      ∀ docId ∈ store.docStats.keys, docId.toNat ≤ last.toNat := by
  have recordsOf := built.recordsOf storable.fit
  obtain ⟨last, lastMember, firstMember, count, range⟩ := storeRange storable.nonempty storable.fit
  have lastFits := storable.fit last lastMember
  have bounds := range _ firstMember
  refine ⟨last, lastMember, ?_, fun docId member => (range docId member).2⟩
  unfold endDocId
  rw [recordsOf.firstDocId storable.nonempty, recordsOf.count, UInt64.toNat_add, count,
    Nat.mod_eq_of_lt (by omega)]
  omega

/-- The documents of a base end where the ids of new documents begin. -/
theorem key_lt_recordsEnd {store : PostingStore} (storable : Storable float store)
    {context : IndexContext} (built : context.base.BuiltFrom float store) {docId : UInt64}
    (member : docId ∈ store.docStats.keys) : docId.toNat < context.recordsEnd.toNat := by
  obtain ⟨last, _, stop, greatest⟩ := endDocId_built storable built
  have below := greatest docId member
  have least : endDocId context.base ≤ context.recordsEnd := by
    unfold recordsEnd
    split
    · exact le_max_left _ _
    · exact le_refl _
  rw [UInt64.le_iff_toNat_le] at least
  omega

/-- Without documents in the store the next id is the one behind the records. -/
theorem allocateDocumentId_of_empty {context : IndexContext} (empty : context.base.store = .new) :
    context.allocateDocumentId = context.recordsEnd := by
  apply le_antisymm
  · apply (allocateDocumentId_le context _).mpr
    refine ⟨le_refl _, fun docId member => ?_⟩
    rw [empty] at member
    cases member
  · exact ((allocateDocumentId_le context _).mp (le_refl _)).1

/-- The record of a document, when the base and the delta answer for two stores without a
document in common. -/
theorem getDocDataEntry_answers {baseStore deltaStore : PostingStore} {context : IndexContext}
    {attached : AttachedDelta} (base : context.base.Answers float baseStore)
    (delta : attached.index.Answers float deltaStore) (attachedEq : context.delta = some attached)
    (baseFit : DocIdsFit baseStore) (deltaFit : DocIdsFit deltaStore) {docId : UInt64}
    (member : docId ∈ baseStore.docStats.keys ∨ docId ∈ deltaStore.docStats.keys) :
    ∃ entry, context.getDocDataEntry docId = some entry ∧ entry.docId.toUInt64 = docId := by
  have fits : docId.toNat ≤ 0xFFFFFFFF := by
    cases member with
    | inl inBase => exact baseFit docId inBase
    | inr inDelta => exact deltaFit docId inDelta
  have plain : readerDocumentIdValue docId = docId := readerDocumentIdValue_small (by omega)
  have inBase := base.records docId
  have inDelta := delta.records docId
  unfold getDocDataEntry
  dsimp only
  rw [plain, attachedEq]
  cases found : context.base.findRecord docId with
  | some entry =>
      rw [found] at inBase
      obtain ⟨stats, _, record⟩ := inBase
      refine ⟨entry, rfl, ?_⟩
      rw [record.docId]
      exact toUInt64_docId fits
  | none =>
      rw [found] at inBase
      dsimp only
      rw [plain]
      cases foundDelta : attached.index.findRecord docId with
      | none =>
          rw [foundDelta] at inDelta
          exact absurd member (not_or.mpr ⟨inBase, inDelta⟩)
      | some entry =>
          rw [foundDelta] at inDelta
          obtain ⟨stats, _, record⟩ := inDelta
          refine ⟨entry, rfl, ?_⟩
          rw [record.docId]
          exact toUInt64_docId fits

/-- The frequency of a term is what it has in the base and in the delta together. -/
theorem getStreamDocFreq_answers {context : IndexContext} {attached : AttachedDelta}
    {baseStore deltaStore : PostingStore} (base : context.base.Answers float baseStore)
    (delta : attached.index.Answers float deltaStore)
    (attachedEq : context.delta = some attached) {key : Str}
    (baseFit : ContinuationsFit float baseStore key.beforeNul)
    (deltaFit : ContinuationsFit float deltaStore key.beforeNul) :
    context.getStreamDocFreq key =
      min ((keptPostings float baseStore key.beforeNul).length +
        min (keptPostings float deltaStore key.beforeNul).length 0xFFFFFFFF) 0xFFFFFFFF := by
  unfold getStreamDocFreq
  rw [attachedEq, base.frequencies key baseFit]
  dsimp only
  rw [delta.frequencies key deltaFit]

/-- The document `a` without an id. -/
def unassignedWord : Document := wordDocument 0xFFFFFFFFFFFFFFFF

/-- `AddDocument` writes a document under the id it was given. -/
theorem writeDocument_docId (store : PostingStore) (docId other : UInt64) (document : Document)
    (buildVector : Bool) :
    writeDocument float text store docId { document with docId := other } buildVector =
      writeDocument float text store docId document buildVector := rfl

/-- It gets the id 1 behind the record of the small index. -/
theorem unassignedWord_store :
    ((new.loadIndex wordFiles wordPath).1.addDocuments default wordText
      [(unassignedWord, true)]).base.store = wordStore 1 := by
  obtain ⟨base, read, built, empty, _⟩ := wordFiles_opened
  rw [read]
  have next : (⟨base, none⟩ : IndexContext).allocateDocumentId = 1 := by
    have stop : endDocId base = 1 := by
      unfold endDocId LocalIndex.firstDocId
      rw [built.header, built.docData]
      decide +kernel
    show base.store.docStats.keys.foldl _ (endDocId base) = 1
    rw [empty, stop]
    rfl
  have assigned : (⟨base, none⟩ : IndexContext).documentIdFor unassignedWord = 1 :=
    (if_pos rfl).trans next
  unfold addDocuments
  rw [List.foldl_cons, List.foldl_nil, addDocument_store, assigned]
  unfold wordStore
  rw [empty]
  exact writeDocument_docId .new 1 0xFFFFFFFFFFFFFFFF (wordDocument 1) true

end IndexContext

end MoonShot.Context
