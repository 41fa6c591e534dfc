import MoonShot.Context.State

/-!
Saving the index of a store and loading it back.

Owns what `SaveIndex` and `LoadIndex` do when the store can be written: the save
succeeds, a save at the delta path attaches the snapshot it wrote, and a load of
the file installs the parts that `BuildIndexData` made. After each of these, and
after `Build`, the runtime fields are those of the store (`BuiltFrom`).

Does not own saves of other snapshots, which the layout checks may refuse.
-/

namespace MoonShot.Context

open MoonShot.Lib
open MoonShot.Postings
open MoonShot.Format
open MoonShot.Serializer

variable {float : FloatOps} {store : PostingStore} {files : FileSystem} {path : Str}

/-- The runtime fields are those `BuildIndexData` makes of the store. -/
structure LocalIndex.BuiltFrom (float : FloatOps) (store : PostingStore) (index : LocalIndex) :
    Prop where
  table : index.table = (buildBlocks float store).table
  header : index.header = builtHeader float store
  docData : index.docData = (encodeDocData float store).1
  prefixes : index.prefixes = (encodeDocData float store).2.2

namespace IndexContext

/-- The snapshot of a storable store is saved as the file of its parts. -/
theorem saveSnapshot_ofStore (storable : Storable float store) :
    saveSnapshot (.ofStore float store) = .ok (builtParts float store).bytes :=
  (builtParts_agrees storable).save_parts

/-- `SaveIndex` when the snapshot is saved. -/
theorem saveIndex_of_saved {context : IndexContext} {bytes : Bytes}
    (saved : saveSnapshot (context.prepareSave float path).write = .ok bytes) :
    saveIndex float files context path =
      (Function.update files path (some bytes),
        if context.savesDelta path then
          { base := { context.prepareSave float path with write := .zeroed, writeBuilt := false }
            delta := some (publishedDelta path (context.prepareSave float path).write saved) }
        else { context with base := context.prepareSave float path }, .ok ()) := by
  unfold saveIndex
  dsimp only
  split
  · rename_i failure refused
    rw [saved] at refused
    cases refused
  · rename_i others again
    obtain rfl := Except.ok.inj (again.symm.trans saved)
    split <;> rfl

/-- A dirty store is what a save writes. -/
theorem snapshot_dirty {base : LocalIndex} (nonempty : base.store.docStats.keys ≠ [])
    (dirty : base.writeBuilt = false) : snapshot float base = .ofStore float base.store := by
  rw [snapshot, dirty, if_neg]
  rintro (written | empty)
  · cases written
  · exact nonempty empty

theorem prepareSave_delta (float : FloatOps) {context : IndexContext}
    (saving : context.savesDelta path = true) :
    context.prepareSave float path =
      { context.base with write := snapshot float context.base, writeBuilt := true } := by
  unfold prepareSave
  rw [saving]
  rfl

/-- A save at the delta path attaches the index of the store, which has not put its
vectors into its vector index. -/
theorem saveIndex_delta (files : FileSystem) {context : IndexContext}
    (storable : Storable float context.base.store)
    (saving : context.savesDelta path = true) (dirty : context.base.writeBuilt = false) :
    (saveIndex float files context path).2.1.base =
        { context.base with write := .zeroed, writeBuilt := false } ∧
      ∃ delta, (saveIndex float files context path).2.1.delta = some delta ∧
        delta.index.BuiltFrom float context.base.store ∧ delta.index.vectorBuilt = false := by
  have prepared := prepareSave_delta float saving
  rw [snapshot_dirty storable.nonempty dirty] at prepared
  have saved : saveSnapshot (context.prepareSave float path).write =
      .ok (builtParts float context.base.store).bytes := by
    rw [prepared]
    exact saveSnapshot_ofStore storable
  rw [saveIndex_of_saved saved, saving, if_pos rfl]
  constructor
  · show { context.prepareSave float path with write := .zeroed, writeBuilt := false } = _
    rw [prepared]
  · refine ⟨_, rfl, ?_, rfl⟩
    constructor
    · show (context.prepareSave float path).write.data.memory.table = _
      rw [prepared]
      rfl
    · show (context.prepareSave float path).write.data.header = _
      rw [prepared]
      rfl
    · show (context.prepareSave float path).write.data.docData = _
      rw [prepared]
      rfl
    · show (context.prepareSave float path).write.data.prefixes = _
      rw [prepared]
      rfl

/-- A document that is added to an index and saved at the delta path is in the
attached delta. -/
theorem saveIndex_added (files : FileSystem) (context : IndexContext) {text : TextOps} {document : Document}
    {buildVector : Bool}
    (written : writeDocument float text context.base.store (context.documentIdFor document)
      document buildVector = store)
    (storable : Storable float store) (indexPath : context.base.indexPath = some path) :
    let saved := (saveIndex float files (context.addDocument float text document buildVector)
      (deltaIndexPath path)).2.1
    saved.base.loadedFromDisk = context.base.loadedFromDisk ∧
      ∃ delta, saved.delta = some delta ∧ delta.index.BuiltFrom float store ∧
        delta.index.vectorBuilt = false := by
  subst written
  have saving : (context.addDocument float text document buildVector).savesDelta
      (deltaIndexPath path) = true := by
    have samePath : (context.addDocument float text document buildVector).base.indexPath =
        some path := indexPath
    unfold savesDelta
    rw [samePath]
    exact decide_eq_true rfl
  have stored : Storable float (context.addDocument float text document buildVector).base.store :=
    storable
  intro saved
  have published := saveIndex_delta files stored saving rfl
  refine ⟨?_, published.2⟩
  show (saveIndex float files (context.addDocument float text document buildVector)
    (deltaIndexPath path)).2.1.base.loadedFromDisk = _
  rw [published.1]
  rfl

/-- A load that succeeds looks for the delta of what it has loaded. -/
theorem loadIndex_of_loaded {context : IndexContext} {base : LocalIndex}
    (loaded : context.base.loadIndex files path = (base, .ok ())) :
    context.loadIndex files path = (⟨base, loadDeltaIndex files base⟩, .ok ()) := by
  unfold loadIndex
  rw [loaded]

end IndexContext

namespace LocalIndex

/-- `LoadIndex` of the file of a storable store installs its index. -/
theorem loadIndex_saved (storable : Storable float store)
    (present : files path = some (builtParts float store).bytes) {index : LocalIndex}
    (cache : pageSize ≤ index.leafTermCacheBytes) :
    ∃ loaded, index.loadIndex files path = (loaded, .ok ()) ∧ loaded.BuiltFrom float store ∧
      loaded.store = .new ∧ loaded.indexPath = some path ∧ loaded.loadedFromDisk = true := by
  unfold loadIndex
  dsimp only
  rw [(builtParts_agrees storable).loadFile_bytes present cache]
  exact ⟨_, rfl, ⟨rfl, rfl, rfl, rfl⟩, rfl, rfl, rfl⟩

end LocalIndex

/-- A run that loads an index, adds a document and saves it as the delta. -/
def IndexContext.loadAddSave (float : FloatOps) (text : TextOps) (files : FileSystem)
    (context : IndexContext) (path : Str) (document : Document) (buildVector : Bool) :
    IndexContext :=
  let loaded := (context.loadIndex files path).1
  (saveIndex float files (loaded.addDocument float text document buildVector)
    (deltaIndexPath path)).2.1

/-- After the run the index is loaded, and the delta holds the document. -/
theorem IndexContext.loadAddSave_delta {written : PostingStore} {context : IndexContext}
    {text : TextOps} {document : Document} {buildVector : Bool} (storable : Storable float store)
    (present : files path = some (builtParts float store).bytes)
    (cache : pageSize ≤ context.base.leafTermCacheBytes)
    (assigned : document.docId ≠ 0xFFFFFFFFFFFFFFFF)
    (writes : writeDocument float text .new document.docId document buildVector = written)
    (deltaStorable : Storable float written) :
    (loadAddSave float text files context path document buildVector).base.loadedFromDisk = true ∧
      ∃ delta, (loadAddSave float text files context path document buildVector).delta = some delta ∧
        delta.index.BuiltFrom float written ∧ delta.index.vectorBuilt = false := by
  obtain ⟨base, read, _, empty, indexPath, fromDisk⟩ :=
    LocalIndex.loadIndex_saved storable present cache
  unfold loadAddSave
  rw [loadIndex_of_loaded read]
  dsimp only
  let loaded : IndexContext := ⟨base, loadDeltaIndex files base⟩
  have inStore : writeDocument float text loaded.base.store (loaded.documentIdFor document)
      document buildVector = written := by
    rw [documentIdFor, if_neg assigned, ← writes]
    exact congrArg (writeDocument float text · document.docId document buildVector) empty
  have added := saveIndex_added files loaded inStore deltaStorable indexPath
  exact ⟨added.1.trans fromDisk, added.2⟩

/-! ## A small index -/

/-- A tokenizer for single words, and an embedding with equal components. -/
def wordText : TextOps where
  tokenize word := if word = Str.empty then [] else [word]
  embed _ := List.replicate docVectorDim 0x3DB504F3

/-- A document with the body `a`. -/
def wordDocument (docId : UInt64) : Document := { docId := docId, body := ⟨[0x61], validUtf8_a⟩ }

def wordStore (docId : UInt64) : PostingStore :=
  writeDocument default wordText .new docId (wordDocument docId) true

/-- The path `i.idx` -/
def wordPath : Str := ⟨[0x69, 0x2E, 0x69, 0x64, 0x78], rfl⟩

/-- The file of the document 0. -/
def wordFiles : FileSystem :=
  Function.update (fun _ => none) wordPath (some (builtParts default (wordStore 0)).bytes)

theorem wordStore_storable {docId : UInt64} (small : docId = 0 ∨ docId = 1) :
    Storable default (wordStore docId) := by
  have keys : (wordStore docId).docStats.keys = [docId] := by
    rcases small with rfl | rfl <;> decide +kernel
  constructor
  · rcases small with rfl | rfl
    · exact ⟨by decide +kernel, by decide +kernel⟩
    · exact ⟨by decide +kernel, by decide +kernel⟩
  · rw [keys]
    exact List.cons_ne_nil _ _
  · intro other member
    rw [keys, List.mem_singleton] at member
    subst member
    rcases small with rfl | rfl <;> decide
  · rcases small with rfl | rfl <;> decide +kernel

/-- A new context opens the small index, which has no delta. -/
theorem IndexContext.wordFiles_opened :
    ∃ base, new.loadIndex wordFiles wordPath = (⟨base, none⟩, .ok ()) ∧
      base.BuiltFrom default (wordStore 0) ∧ base.store = .new ∧
      base.indexPath = some wordPath := by
  have cache : pageSize ≤ new.base.leafTermCacheBytes := by decide
  have present : wordFiles wordPath = some (builtParts default (wordStore 0)).bytes :=
    Function.update_self ..
  obtain ⟨base, read, built, empty, indexPath, _⟩ :=
    LocalIndex.loadIndex_saved (wordStore_storable (Or.inl rfl)) present cache
  have absent : isValidIndex wordFiles (deltaIndexPath wordPath) = false := by
    have missing : wordFiles (deltaIndexPath wordPath) = none :=
      Function.update_of_ne (by decide) ..
    unfold isValidIndex
    rw [missing]
  have noDelta : loadDeltaIndex wordFiles base = none := by
    unfold loadDeltaIndex
    rw [indexPath]
    split
    · rfl
    · exact if_pos (Or.inr absent)
  refine ⟨base, ?_, built, empty, indexPath⟩
  rw [loadIndex_of_loaded read, noDelta]

end MoonShot.Context
