import MoonShot.Context.IndexData
import MoonShot.Query.Compiler

/-!
The index context (`IndexContext.rs`): its state and the operations that change it.

Owns one index with its runtime fields, its store and its write snapshot
(`LocalIndex`), the context that may have a delta index attached, and `AddDocument`,
`Build`, `SaveIndex` and the four loaders. A delta context never has a delta of its
own. It is attached by `SaveIndex` or by a load, and what both make sure of is kept
with it (`AttachedDelta`).

Does not own readers and the search workers. The tokenizer and the embedding model
are parameters. The average stream lengths are computed from the records when they
are asked for, and the query parameters, which only weigh scores, are left out.
-/

namespace MoonShot.Context

open MoonShot.Lib
open MoonShot.Postings
open MoonShot.Format
open MoonShot.Table
open MoonShot.Serializer
open MoonShot.Index

/-! ## Paths -/

/-- A dot. -/
def isDot (byte : UInt8) : Bool := byte == 0x2E

theorem isDot_ascii (byte : UInt8) (dot : isDot byte = true) : byte.toNat < 0x80 := by
  rw [isDot, beq_iff_eq] at dot
  subst dot
  decide

/-- The text `.delta` -/
def deltaMark : Str := ⟨[0x2E, 0x64, 0x65, 0x6C, 0x74, 0x61], rfl⟩

def dotText : Str := ⟨[0x2E], rfl⟩

/-- The text `.idx` -/
def idxText : Str := ⟨[0x2E, 0x69, 0x64, 0x78], rfl⟩

/-- `DeltaIndexPath`. The last dot stands behind the last separator when none
follows it. -/
def deltaIndexPath (path : Str) : Str :=
  match path.cutLast isDot isDot_ascii with
  | some (stem, extension) =>
      if extension.bytes.any isPathSeparator then (path.append deltaMark).append idxText
      else ((stem.append deltaMark).append dotText).append extension
  | none => (path.append deltaMark).append idxText

/-! ## One index -/

/-- The fields `m_Write…`: what `SaveIndex` writes. Its vector index is never
given a node. -/
structure WriteSnapshot where
  data : BuiltIndexData
  noNodes : data.vectorIndex.docIds = []

namespace WriteSnapshot

/-- The fields as a context starts with them. -/
def zeroed : WriteSnapshot :=
  ⟨⟨.zeroed, .new, .new, [], List.replicate pathPrefixSidecarBytes 0, []⟩, rfl⟩

/-- The snapshot of a store. -/
def ofStore (float : FloatOps) (store : PostingStore) : WriteSnapshot :=
  ⟨buildIndexData float store false, rfl⟩

end WriteSnapshot

/-- `IndexContext` without its delta. -/
structure LocalIndex where
  store : PostingStore
  table : IndexBlockTable
  leafTermBlockCount : Nat
  vectorIndex : VectorIndex
  vectorBuilt : Bool
  indexPath : Option Str
  built : Bool
  loadedFromDisk : Bool
  loadDelta : Bool
  leafTermCacheBytes : Nat
  weakAndBuildMode : WeakAndBuildMode
  header : IndexFileHeader
  docData : Bytes
  sidecar : Bytes
  prefixes : List Str
  write : WriteSnapshot
  writeBuilt : Bool

namespace LocalIndex

/-- `with_path_and_load_delta(None, load_delta)` -/
def new (loadDelta : Bool) : LocalIndex where
  store := .new
  table := MemoryTable.new.table
  leafTermBlockCount := 0
  vectorIndex := .new
  vectorBuilt := false
  indexPath := none
  built := false
  loadedFromDisk := false
  loadDelta := loadDelta
  leafTermCacheBytes := blockCacheBytes
  weakAndBuildMode := .flatPruned
  header := .zeroed
  docData := []
  sidecar := List.replicate pathPrefixSidecarBytes 0
  prefixes := []
  write := .zeroed
  writeBuilt := false

/-- `DocDataFirstDocId` of the index. -/
def firstDocId (index : LocalIndex) : UInt64 := docDataFirstDocId index.docData index.header

/-- `DocumentCount` -/
def documentCount (index : LocalIndex) : UInt64 := index.header.numDocuments

/-- `AvgDocLen` -/
def avgDocLen (index : LocalIndex) : F32 := index.header.avgDocLength

/-- The fields a load replaces, with the first id its vector index is given. -/
def install (index : LocalIndex) (loaded : LoadedIndex) (firstDocId : UInt64) : LocalIndex :=
  { index with
    store := .new
    table := loaded.table
    leafTermBlockCount := loaded.leafTermBlockCount
    vectorIndex := VectorIndex.new.setDocData loaded.docData firstDocId
    vectorBuilt := false
    header := loaded.header
    docData := loaded.docData
    sidecar := loaded.sidecar
    prefixes := loaded.prefixes
    built := true
    loadedFromDisk := true }

/-- `LoadIndex` without the delta. -/
def loadIndex (files : FileSystem) (index : LocalIndex) (path : Str) :
    LocalIndex × Except RustBladeError Unit :=
  let index := { index with indexPath := some path }
  match loadFile files path index.leafTermCacheBytes with
  | .error failure => (index, .error failure)
  | .ok loaded =>
      (index.install loaded (docDataFirstDocId loaded.docData loaded.header), .ok ())

/-- `with_path_and_load_delta(Some(path), false)`; a failed load is ignored. -/
def withPath (files : FileSystem) (path : Str) : LocalIndex :=
  (({ new false with indexPath := some path }).loadIndex files path).1

/-- The documents of the records that hold a vector, as `BuildVectorRuntime`
adds them. -/
def vectorDocuments (index : LocalIndex) : List UInt64 :=
  (List.range index.header.numDocuments.toNat).filterMap fun slot =>
    let offset := slot * docRecSize
    let docId := index.firstDocId + UInt64.ofNat slot
    if offset + docRecSize ≤ index.docData.length ∧
        (u32At index.docData offset).toUInt64 = docId ∧
        (u16At index.docData (offset + 54)).toNat = docVectorDim ∧
        u16At index.docData (offset + 56) ≠ 0 then some docId
    else none

/-- `BuildVectorRuntime` -/
def buildVectorRuntime (index : LocalIndex) : LocalIndex :=
  if index.vectorBuilt then index
  else
    { index with
      vectorIndex := index.vectorDocuments.foldl VectorIndex.add
        (index.vectorIndex.clear.setDocData index.docData index.firstDocId)
      vectorBuilt := true }

/-- The runtime fields after `ResetLoadedRuntimeState`. -/
def resetRuntime (index : LocalIndex) : LocalIndex :=
  { index with
    table := { MemoryTable.new.table with headTermEntries := index.table.headTermEntries }
    leafTermBlockCount := 0
    vectorIndex := index.vectorIndex.clear
    vectorBuilt := false
    header := .zeroed
    docData := []
    sidecar := List.replicate pathPrefixSidecarBytes 0
    prefixes := []
    built := false
    loadedFromDisk := false }

/-- The record of a document. -/
def findRecord (index : LocalIndex) (docId : UInt64) : Option DocDataEntry :=
  findDocRecord index.docData index.firstDocId docId

/-- The path in the record of a document. -/
def findPath (index : LocalIndex) (docId : UInt64) : Option Str :=
  match index.findRecord docId with
  | none => none
  | some entry =>
      let length := (u16At entry docPathLengthOffset).toNat
      if 0 < length ∧ length ≤ docPathMax then
        some (decodeDocPath (slice entry docPathOffset length) index.prefixes)
      else none

end LocalIndex

/-! ### What a load establishes -/

/-- A file that loads has one record for each document it counts. -/
theorem loadFile_records {files : FileSystem} {path : Str} {cache : Nat} {loaded : LoadedIndex}
    (ok : loadFile files path cache = .ok loaded) :
    loaded.docData.length = loaded.header.numDocuments.toNat * docRecSize := by
  obtain ⟨⟨header, head, docData⟩, tables, rest⟩ := bind_ok.mp ok
  obtain ⟨⟨sidecar, prefixes⟩, _, rest⟩ := bind_ok.mp rest
  obtain ⟨⟨mphfHeader, displacements, entryPages⟩, _, rest⟩ := bind_ok.mp rest
  obtain ⟨file, _, rest⟩ := bind_ok.mp rest
  obtain ⟨indexBlocks, _, rest⟩ := bind_ok.mp rest
  obtain ⟨leafBlocks, _, rest⟩ := bind_ok.mp rest
  obtain rfl := Except.ok.inj rest
  obtain ⟨file, _, tables⟩ := bind_ok.mp tables
  obtain ⟨bytes, _, tables⟩ := bind_ok.mp tables
  obtain ⟨parsed, _, tables⟩ := bind_ok.mp tables
  obtain ⟨last, _, tables⟩ := bind_ok.mp tables
  obtain ⟨heads, _, tables⟩ := bind_ok.mp tables
  obtain ⟨records, read, tables⟩ := bind_ok.mp tables
  obtain ⟨rfl, -, rfl⟩ := Prod.mk.inj (Except.ok.inj tables) |>.imp_right Prod.mk.inj
  obtain ⟨_, inside, read⟩ := bind_ok.mp read
  rw [← Except.ok.inj read]
  exact slice_length_of_le (require_eq_ok.mp inside)

/-- A context that was opened on a path is either loaded or unchanged. -/
theorem LocalIndex.withPath_loaded {files : FileSystem} {path : Str}
    (loaded : (withPath files path).loadedFromDisk = true) :
    (withPath files path).docData.length =
        (withPath files path).header.numDocuments.toNat * docRecSize ∧
      (withPath files path).built = true ∧
      (withPath files path).vectorIndex.docIds = [] := by
  unfold withPath loadIndex at loaded ⊢
  dsimp only at loaded ⊢
  cases read : loadFile files path ({ new false with indexPath := some path }).leafTermCacheBytes with
  | error failure =>
      rw [read] at loaded
      change false = true at loaded
      cases loaded
  | ok data => exact ⟨loadFile_records read, rfl, rfl⟩

/-! ## The context -/

/-- A delta context: loaded, with one record for each document it counts, and with
nodes in its vector index only when that was built. -/
structure AttachedDelta where
  index : LocalIndex
  built : index.built = true
  loaded : index.loadedFromDisk = true
  records : index.docData.length = index.header.numDocuments.toNat * docRecSize
  unbuilt : index.vectorBuilt = false → index.vectorIndex.docIds = []

/-- `IndexContext` -/
structure IndexContext where
  base : LocalIndex
  delta : Option AttachedDelta

/-- What `AddDocument` takes from the tokenizer and the embedding model. -/
structure TextOps where
  tokenize : Str → List Str
  embed : List Str → List F32

/-- `Document` -/
structure Document where
  docId : UInt64 := 0xFFFFFFFFFFFFFFFF
  path : Str := Str.empty
  url : Str := Str.empty
  title : Str := Str.empty
  body : Str := Str.empty
  anchor : Str := Str.empty
  metadata : Str := Str.empty
  importance : F32 := 0

/-- The stream names `AddDocument` writes under. -/
def titleName : Str := ⟨[0x54, 0x69, 0x74, 0x6C, 0x65], rfl⟩

def urlName : Str := ⟨[0x55, 0x52, 0x4C], rfl⟩

def anchorName : Str := ⟨[0x41, 0x6E, 0x63, 0x68, 0x6F, 0x72], rfl⟩

def bodyName : Str := ⟨[0x42, 0x6F, 0x64, 0x79], rfl⟩

def metaName : Str := ⟨[0x4D, 0x65, 0x74, 0x61], rfl⟩

/-- The store after the writes of `AddDocument`. -/
def writeDocument (float : FloatOps) (text : TextOps) (store : PostingStore) (docId : UInt64)
    (document : Document) (buildVector : Bool) : PostingStore :=
  let titleTokens := text.tokenize document.title
  let urlTokens :=
    text.tokenize (if document.url = Str.empty then document.path else document.url)
  let anchorTokens := text.tokenize document.anchor
  let bodyTokens := text.tokenize document.body
  let metaTokens := text.tokenize document.metadata
  let store := store.write titleTokens docId titleName
  let store := store.write urlTokens docId urlName
  let store := store.write anchorTokens docId anchorName
  let store := store.write bodyTokens docId bodyName
  let store := store.write metaTokens docId metaName
  let store := store.setDocImportance docId document.importance
  let store :=
    if buildVector then
      store.setDocVector float docId
        (text.embed (titleTokens ++ urlTokens ++ anchorTokens ++ bodyTokens ++ metaTokens))
    else store
  if document.path = Str.empty then store else store.setDocPath docId document.path

namespace IndexContext

/-- `IndexContext::new` -/
def new : IndexContext := ⟨.new true, none⟩

/-! ### What callers observe -/

/-- `ReaderDocumentIDValue` -/
def readerDocumentIdValue (docId : UInt64) : UInt64 := docId &&& 0x07FFFFFFFFFFFFFF

/-- `GetDocDataEntry` -/
def getDocDataEntry (context : IndexContext) (docId : UInt64) : Option DocDataEntry :=
  let docId := readerDocumentIdValue docId
  match context.base.findRecord docId with
  | some entry => some entry
  | none =>
      match context.delta with
      | some delta => delta.index.findRecord (readerDocumentIdValue docId)
      | none => none

/-- `GetDocPath` -/
def getDocPath (context : IndexContext) (docId : UInt64) : Str :=
  let docId := readerDocumentIdValue docId
  match context.base.findPath docId with
  | some path => path
  | none =>
      match context.delta with
      | some delta => (delta.index.findPath (readerDocumentIdValue docId)).getD Str.empty
      | none => Str.empty

/-- `HasDelta` -/
def hasDelta (context : IndexContext) : Bool :=
  match context.delta with
  | some delta => delta.index.documentCount > 0
  | none => false

/-- The document frequency of a key in one index. -/
def localDocFreq (index : LocalIndex) (key : Str) : Nat :=
  match index.table.findTermData key with
  | some location => location.docFreq.toNat
  | none => 0

/-- `GetStreamDocFreq` -/
def getStreamDocFreq (context : IndexContext) (key : Str) : Nat :=
  min (localDocFreq context.base key +
    match context.delta with
    | some delta => min (localDocFreq delta.index key) 0xFFFFFFFF
    | none => 0) 0xFFFFFFFF

/-- The first id behind the records of an index. -/
def endDocId (index : LocalIndex) : UInt64 := index.firstDocId + index.header.numDocuments

/-- `AllocateDocumentID` -/
def allocateDocumentId (context : IndexContext) : UInt64 :=
  let nextId := endDocId context.base
  let nextId :=
    match context.delta with
    | some delta => max nextId (endDocId delta.index)
    | none => nextId
  context.base.store.docStats.keys.foldl (fun nextId docId => max nextId (docId + 1)) nextId

/-! ### Documents and builds -/

/-- The id `AddDocument` gives a document. -/
def documentIdFor (context : IndexContext) (document : Document) : UInt64 :=
  if document.docId = 0xFFFFFFFFFFFFFFFF then context.allocateDocumentId else document.docId

/-- `AddDocument` -/
def addDocument (float : FloatOps) (text : TextOps) (context : IndexContext) (document : Document)
    (buildVector : Bool) : IndexContext :=
  let docId := context.documentIdFor document
  let base := context.base
  { context with
    base :=
      { base with
        store := writeDocument float text base.store docId document buildVector
        writeBuilt := false
        built := base.built && base.loadedFromDisk
        vectorBuilt := base.vectorBuilt && base.loadedFromDisk } }

/-- `Build` -/
def build (float : FloatOps) (context : IndexContext) : IndexContext :=
  let base := context.base
  if base.built then { context with base := base.buildVectorRuntime }
  else if base.store.docStats.keys = [] then
    { context with
      base := { base with loadedFromDisk := false, vectorBuilt := true, built := true } }
  else
    let data := buildIndexData float base.store true
    { context with
      base :=
        { base with
          table := data.memory.table
          leafTermBlockCount := data.memory.leafTermBlocks.length % 2 ^ 32
          vectorIndex := data.vectorIndex
          vectorBuilt := true
          header := data.header
          docData := data.docData
          sidecar := data.sidecar
          prefixes := data.prefixes
          built := true } }

/-! ### Saving -/

/-- The path is where the delta of the current index belongs. -/
def savesDelta (context : IndexContext) (path : Str) : Bool :=
  match context.base.indexPath with
  | some indexPath => path = deltaIndexPath indexPath
  | none => false

/-- The snapshot `SaveIndex` writes: the cached one, or a new one when there is
something in the store. -/
def snapshot (float : FloatOps) (base : LocalIndex) : WriteSnapshot :=
  if base.writeBuilt ∨ base.store.docStats.keys = [] then base.write
  else .ofStore float base.store

/-- The runtime of an index that is overwritten by its own save. -/
def overwritten (base : LocalIndex) : LocalIndex :=
  { base with
    table := MemoryTable.new.table
    leafTermBlockCount := 0
    vectorIndex := base.vectorIndex.clear
    header := .zeroed
    docData := []
    sidecar := List.replicate base.sidecar.length 0
    prefixes := []
    built := false
    loadedFromDisk := false
    vectorBuilt := false }

/-- `Save` of a snapshot. -/
def saveSnapshot (snapshot : WriteSnapshot) : Except RustBladeError Bytes :=
  save snapshot.data.header snapshot.data.memory snapshot.data.docData snapshot.data.sidecar

/-- A snapshot that was saved has one record for each document it counts. -/
theorem saveSnapshot_records {snapshot : WriteSnapshot} {bytes : Bytes}
    (saved : saveSnapshot snapshot = .ok bytes) :
    snapshot.data.docData.length = snapshot.data.header.numDocuments.toNat * docRecSize := by
  unfold saveSnapshot at saved
  obtain ⟨_, _, rest⟩ := bind_ok.mp saved
  obtain ⟨_, _, rest⟩ := bind_ok.mp rest
  obtain ⟨_, sizes, _⟩ := bind_ok.mp rest
  exact (require_eq_ok.mp sizes).1

/-- The delta context `SaveIndex` makes of the snapshot it saved. -/
def publishedDelta (path : Str) (snapshot : WriteSnapshot) {bytes : Bytes}
    (saved : saveSnapshot snapshot = .ok bytes) : AttachedDelta where
  index :=
    { LocalIndex.new false with
      indexPath := some path
      table := snapshot.data.memory.table
      leafTermBlockCount := snapshot.data.memory.leafTermBlocks.length % 2 ^ 32
      vectorIndex := snapshot.data.vectorIndex
      header := snapshot.data.header
      docData := snapshot.data.docData
      sidecar := snapshot.data.sidecar
      prefixes := snapshot.data.prefixes
      built := true
      loadedFromDisk := true }
  built := rfl
  loaded := rfl
  records := saveSnapshot_records saved
  unbuilt := fun _ => snapshot.noNodes

/-- The base of `SaveIndex` when it writes the file: the snapshot is there, and an
index that overwrites its own file has let go of it. -/
def prepareSave (float : FloatOps) (context : IndexContext) (path : Str) : LocalIndex :=
  let savingDelta := context.savesDelta path
  let base := context.base
  let overwriting := !savingDelta && base.loadedFromDisk && base.indexPath = some path
  let base := if savingDelta then base else { base with indexPath := some path }
  let base := { base with write := snapshot float base, writeBuilt := true }
  if overwriting then overwritten base else base

/-- `SaveIndex`: the files, the context and the result. -/
def saveIndex (float : FloatOps) (files : FileSystem) (context : IndexContext) (path : Str) :
    FileSystem × IndexContext × Except RustBladeError Unit :=
  let base := context.prepareSave float path
  match saved : saveSnapshot base.write with
  | .error failure => (files, { context with base := base }, .error failure)
  | .ok bytes =>
      let files := Function.update files path (some bytes)
      if context.savesDelta path then
        (files,
          { base := { base with write := .zeroed, writeBuilt := false }
            delta := some (publishedDelta path base.write saved) }, .ok ())
      else (files, { context with base := base }, .ok ())

/-! ### Loading -/

/-- `LoadDeltaIndex`: the delta it attaches. -/
def loadDeltaIndex (files : FileSystem) (base : LocalIndex) : Option AttachedDelta :=
  if base.loadDelta = false then none
  else
    match base.indexPath with
    | none => none
    | some indexPath =>
        let deltaPath := deltaIndexPath indexPath
        if deltaPath = indexPath ∨ isValidIndex files deltaPath = false then none
        else
          let delta := LocalIndex.withPath files deltaPath
          if ready : delta.loadedFromDisk = true ∧ delta.documentCount > 0 then
            have established := LocalIndex.withPath_loaded ready.1
            some
              { index := delta
                built := established.2.1
                loaded := ready.1
                records := established.1
                unbuilt := fun _ => established.2.2 }
          else none

/-- `LoadIndex` -/
def loadIndex (files : FileSystem) (context : IndexContext) (path : Str) :
    IndexContext × Except RustBladeError Unit :=
  match context.base.loadIndex files path with
  | (base, .error failure) => (⟨base, none⟩, .error failure)
  | (base, .ok ()) => (⟨base, loadDeltaIndex files base⟩, .ok ())

/-- `LoadFromBytes` -/
def loadFromBytes (context : IndexContext) (data : Bytes) :
    IndexContext × Except RustBladeError Unit :=
  match loadBytes data with
  | .error failure => ({ context with delta := none }, .error failure)
  | .ok loaded =>
      let firstDocId :=
        docDataFirstDocId loaded.docData
          { IndexFileHeader.zeroed with
            numDocuments := UInt64.ofNat (loaded.docData.length / docRecSize) }
      (⟨context.base.install loaded firstDocId, none⟩, .ok ())

/-- What `LoadVectorFromBytes` reads, up to its assignments. -/
def vectorBytes (data : Bytes) : Except RustBladeError LoadedIndex := do
  let header ← IndexFileHeader.parse data
  require .invalidFormat (indexFileHeaderSize + pathPrefixSidecarBytes ≤ data.length)
  let sidecar := slice data indexFileHeaderSize pathPrefixSidecarBytes
  let prefixes ← decodePathPrefixSidecar sidecar
  let docDataBytes := header.numDocuments.toNat * docRecSize
  require .invalidFormat (docDataBytes < 2 ^ 64)
  require .invalidFormat (header.docDataOffset.toNat + docDataBytes < 2 ^ 64)
  require .invalidFormat (header.docDataOffset.toNat + docDataBytes ≤ data.length)
  return ⟨header, MemoryTable.new.table, 0, slice data header.docDataOffset.toNat docDataBytes,
    sidecar, prefixes⟩

/-- `LoadVectorFromBytes` -/
def loadVectorFromBytes (context : IndexContext) (data : Bytes) :
    IndexContext × Except RustBladeError Unit :=
  match vectorBytes data with
  | .error failure => ({ context with delta := none }, .error failure)
  | .ok loaded =>
      (⟨context.base.install loaded (docDataFirstDocId loaded.docData loaded.header), none⟩, .ok ())

/-- What `LoadVectorTables` reads, up to its assignments. -/
def vectorTables (docData sidecar : Bytes) : Except RustBladeError LoadedIndex := do
  require .invalidFormat (docData.length % docRecSize = 0 ∧
    sidecar.length = pathPrefixSidecarBytes)
  let prefixes ← decodePathPrefixSidecar sidecar
  let header : IndexFileHeader :=
    { IndexFileHeader.zeroed with
      magic := indexFileMagic
      magicSize := indexFileMagic_length
      version := indexFormatVersion
      numDocuments := UInt64.ofNat (docData.length / docRecSize) }
  return ⟨header, MemoryTable.new.table, 0, docData, sidecar, prefixes⟩

/-- `LoadVectorTables` -/
def loadVectorTables (context : IndexContext) (docData sidecar : Bytes) :
    IndexContext × Except RustBladeError Unit :=
  match vectorTables docData sidecar with
  | .error failure => ({ context with delta := none }, .error failure)
  | .ok loaded =>
      (⟨context.base.install loaded (docDataFirstDocId loaded.docData loaded.header), none⟩, .ok ())

end IndexContext

end MoonShot.Context
