import MoonShot.Context.State

/-!
Merging an index with its delta (`IndexContext::Merge`, `LeafTermBlockView`).

Owns the cursors over the terms of both indexes, the batch of pages that collects
merged terms, the dump of a full batch, the merged records, and the file that
`Merge` writes, with its header. The header counts what was dumped, so it
describes the file.

The temporary files are the sequences of what was written to them. Moving the
result to its path and removing the temporary files are left out. A run that
panics or needs more turns has no outcome.
-/

namespace MoonShot.Context

open MoonShot.Lib
open MoonShot.Postings
open MoonShot.Format
open MoonShot.Table
open MoonShot.Serializer

/-! ## Encoded postings -/

/-- `readOne` of `ReadVbPairEnd`: where the number at an offset ends. -/
def readVbEnd (data : Bytes) (offset : Nat) : Option Nat :=
  ((data.drop offset).findIdx? fun byte => byte &&& 0x80 == 0).map (offset + · + 1)

/-- `ReadVbPairEnd` -/
def readVbPairEnd (data : Bytes) (offset : Nat) : Option Nat :=
  (readVbEnd data offset).bind (readVbEnd data)

/-- The loop of `PostingSplitLength`. -/
def splitLoop (data : Bytes) (limit : Nat) : (turns cursor lastPairEnd : Nat) → Nat
  | 0, _, lastPairEnd => lastPairEnd
  | turns + 1, cursor, lastPairEnd =>
      if cursor < limit then
        match readVbPairEnd data cursor with
        | none => lastPairEnd
        | some pairEnd =>
            if pairEnd > limit then lastPairEnd else splitLoop data limit turns pairEnd pairEnd
      else lastPairEnd

/-- `PostingSplitLength`; every turn passes a byte. -/
def postingSplitLength (data : Bytes) (capacity : Nat) : Nat :=
  if data.length ≤ capacity then data.length
  else splitLoop data (min data.length capacity) data.length 0 0

/-- The loop of `VbReadLocal`: the number and its bytes. -/
def vbReadLoop : Bytes → (shift : UInt8) → (value : UInt64) → UInt64 × Nat
  | [], _, value => (value, 0)
  | byte :: rest, shift, value =>
      let value := value ||| ((byte &&& 0x7F).toUInt64 <<< shift.toUInt64)
      if byte &&& 0x80 = 0 then (value, 1)
      else
        let (value, bytes) := vbReadLoop rest (shift + 7) value
        (value, bytes + 1)

/-- `VbReadLocal` -/
def vbReadLocal (data : Bytes) (start : Nat) : UInt64 × Nat := vbReadLoop (data.drop start) 0 0

/-- The loop of `MaxDocIDInPairs`. -/
def maxDocIdLoop (data : Bytes) : (turns cursor : Nat) → (maxDocId : UInt64) → UInt64
  | 0, _, maxDocId => maxDocId
  | turns + 1, cursor, maxDocId =>
      if cursor < data.length then
        let (docId, docBytes) := vbReadLocal data cursor
        let cursor := cursor + docBytes
        if cursor ≥ data.length then maxDocId
        else
          let (_, tfBytes) := vbReadLocal data cursor
          maxDocIdLoop data turns (cursor + tfBytes) docId
      else maxDocId

/-- `MaxDocIDInPairs` -/
def maxDocIdInPairs (data : Bytes) : UInt64 := maxDocIdLoop data data.length 0 0

/-! ## Reading an index term by term -/

/-- A `LeafTermBlockView` that reads; the page it keeps is the one it stands on. -/
structure LeafCursor where
  leafBlockId : Nat
  entryIndex : Nat
  current : Option LeafTermEntry

namespace LeafCursor

/-- `GoCurrent`, from a position. -/
def goCurrent (index : LocalIndex) : (turns leafBlockId entryIndex : Nat) → LeafCursor
  | 0, leafBlockId, entryIndex => ⟨leafBlockId, entryIndex, none⟩
  | turns + 1, leafBlockId, entryIndex =>
      if leafBlockId < index.leafTermBlockCount then
        match index.table.leafBlocks leafBlockId with
        | none => ⟨leafBlockId, entryIndex, none⟩
        | some page =>
            if entryIndex < entryCount page then
              ⟨leafBlockId, entryIndex, leafEntry page entryIndex⟩
            else goCurrent index turns (leafBlockId + 1) 0
      else ⟨leafBlockId, entryIndex, none⟩

/-- `LeafTermBlockView::new` -/
def new (index : LocalIndex) : LeafCursor := goCurrent index (index.leafTermBlockCount + 1) 0 0

/-- `Advance` -/
def advance (index : LocalIndex) (cursor : LeafCursor) : LeafCursor :=
  match cursor.current with
  | none => cursor
  | some _ =>
      goCurrent index (index.leafTermBlockCount + 1) cursor.leafBlockId (cursor.entryIndex + 1)

/-- `LessThan` -/
def lessThan (cursor other : LeafCursor) : Bool :=
  decide ((cursor.current.elim Str.empty LeafTermEntry.term) <
    other.current.elim Str.empty LeafTermEntry.term)

end LeafCursor

/-- `PostingBytes` of the entry a cursor stands on. -/
def postingBytes (blocks : BlockSource) (entry : LeafTermEntry) : Option Bytes := do
  let first ← blocks entry.indexBlockId.toNat
  let start := entry.indexOffset.toNat
  let length := entry.indexLength.toNat
  if start + length > pageSize then none
  else
    let rest ← (List.range entry.continuationBlockCount.toNat).mapM fun offset => do
      let page ← blocks (entry.indexBlockId + 1 + UInt32.ofNat offset).toNat
      let header ← ContinuationHeader.fromBytes page.data
      if continuationHeaderSize + header.dataLength.toNat > pageSize then none
      else some (slice page.data continuationHeaderSize header.dataLength.toNat)
    some (slice first.data start length ++ rest.flatten)

/-! ## The batch -/

/-- `MERGED_LEAF_BLOCK_LIMIT` and `MERGED_INDEX_BLOCK_LIMIT` -/
def mergedBlockLimit : Nat := 32 * 1024

/-- `POSTING_SCRATCH_BYTES` -/
def postingScratchBytes : Nat := 2000 * pageSize

/-- A `LeafTermBlockView` that writes. Both page vectors have `mergedBlockLimit`
pages from the start, and only pages inside them are used. -/
structure MergeBatch where
  leafBlocks : Nat → Page
  indexBlocks : Nat → Page
  postingIndexBlockId : Nat
  postingIndexOffset : Nat
  postingIndexLength : Nat
  postingContinuationBlockCount : Nat
  docFreq : UInt32
  leafBlockId : Nat
  leafWriteOffset : Nat
  leafEntryCount : Nat
  indexBlockId : Nat
  indexOffsetInBlock : Nat
  indexBlockBase : UInt32
  hasIndexWrite : Bool
  leafInside : leafBlockId ≤ mergedBlockLimit ∧
    (0 < leafEntryCount → leafBlockId < mergedBlockLimit)
  indexInside : indexBlockId < mergedBlockLimit

namespace MergeBatch

/-- `new_write`, and `ResetWrite` with the next block id. -/
def reset (indexBlockBase : UInt32) : MergeBatch where
  leafBlocks := fun _ => Page.zero
  indexBlocks := fun _ => Page.zero
  postingIndexBlockId := 0
  postingIndexOffset := 0
  postingIndexLength := 0
  postingContinuationBlockCount := 0
  docFreq := 0
  leafBlockId := 0
  leafWriteOffset := 0
  leafEntryCount := 0
  indexBlockId := 0
  indexOffsetInBlock := 0
  indexBlockBase := indexBlockBase
  hasIndexWrite := false
  leafInside := ⟨Nat.zero_le _, by decide⟩
  indexInside := by decide

/-- The entry does not fit the current leaf page. -/
def leafFull (batch : MergeBatch) (entry : LeafTermEntry) : Prop :=
  0 < batch.leafEntryCount ∧ (batch.leafEntryCount ≥ leafTermDirectoryCount - 1 ∨
    batch.leafWriteOffset + entry.byteLen > leafDataSize)

instance (batch : MergeBatch) (entry : LeafTermEntry) : Decidable (batch.leafFull entry) :=
  inferInstanceAs (Decidable (_ ∧ _))

/-- `CanAddLeafTermEntry` -/
def canAddLeafTermEntry (batch : MergeBatch) (source : LeafTermEntry) : Bool :=
  if source.term.len > headTermKeyMax then true
  else if source.byteLen > leafDataSize then false
  else
    let leafBlockId := if batch.leafFull source then batch.leafBlockId + 1 else batch.leafBlockId
    decide (leafBlockId < mergedBlockLimit)

/-- The page change in `AddLeafTermEntry`. -/
def nextLeaf (batch : MergeBatch) (source : LeafTermEntry) : MergeBatch :=
  if full : batch.leafFull source then
    { batch with
      leafBlocks := Function.update batch.leafBlocks batch.leafBlockId
        (writeEntryCount (batch.leafBlocks batch.leafBlockId) batch.leafEntryCount)
      leafBlockId := batch.leafBlockId + 1
      leafWriteOffset := 0
      leafEntryCount := 0
      leafInside := ⟨batch.leafInside.2 full.1, fun positive => absurd positive (Nat.lt_irrefl 0)⟩ }
  else batch

/-- `AddLeafTermEntry`: the batch, and whether the entry is in it. -/
def addLeafTermEntry (batch : MergeBatch) (source : LeafTermEntry) : MergeBatch × Bool :=
  if source.term.len > headTermKeyMax then (batch, true)
  else
    let batch := batch.nextLeaf source
    if refused : batch.leafBlockId ≥ mergedBlockLimit ∨ source.byteLen > leafDataSize then
      (batch, false)
    else
      let entry : LeafTermEntry :=
        { term := source.term
          docFreq := batch.docFreq
          indexBlockId := batch.indexBlockBase + UInt32.ofNat batch.postingIndexBlockId
          indexOffset := UInt16.ofNat batch.postingIndexOffset
          indexLength := UInt16.ofNat batch.postingIndexLength
          continuationBlockCount := UInt16.ofNat batch.postingContinuationBlockCount
          flags := source.flags
          termLength := source.termLength }
      let page := writeLeafEntry (batch.leafBlocks batch.leafBlockId) batch.leafEntryCount
        batch.leafWriteOffset entry
      ({ batch with
        leafBlocks := Function.update batch.leafBlocks batch.leafBlockId
          (writeEntryCount page (batch.leafEntryCount + 1))
        leafWriteOffset := batch.leafWriteOffset + source.byteLen
        leafEntryCount := batch.leafEntryCount + 1
        postingIndexLength := 0
        postingContinuationBlockCount := 0
        leafInside := ⟨batch.leafInside.1, fun _ => by omega⟩ }, true)

/-- `continuations`: the parts behind the first one, when each can be split off. -/
def continuationParts : (turns : Nat) → (rest : Bytes) → Option (List Bytes)
  | 0, _ => none
  | turns + 1, rest =>
      if rest = [] then some []
      else
        let length := postingSplitLength rest (pageSize - continuationHeaderSize)
        if length = 0 then none
        else (continuationParts turns (rest.drop length)).map (rest.take length :: ·)

/-- A continuation block with its header. -/
def continuationPage (page : Page) (part : Bytes) : Page :=
  (page.write 0 (ContinuationHeader.mk (maxDocIdInPairs part)
    (UInt32.ofNat part.length)).toBytes).write continuationHeaderSize part

/-- The blocks from `blockId` on with the continuations written to them. -/
def writeContinuations (blocks : Nat → Page) (blockId : Nat) (parts : List Bytes) : Nat → Page :=
  fun id =>
    match if blockId ≤ id then parts[id - blockId]? else none with
    | some part => continuationPage (blocks id) part
    | none => blocks id

/-- `AddIndexBytes` -/
def addIndexBytes (batch : MergeBatch) (source : Bytes) : MergeBatch × Bool :=
  let here := postingSplitLength source (pageSize - batch.indexOffsetInBlock)
  let (targetBlockId, targetOffset, splitLength) :=
    if here = 0 then (batch.indexBlockId + 1, 0, postingSplitLength source pageSize)
    else (batch.indexBlockId, batch.indexOffsetInBlock, here)
  if splitLength = 0 ∨ targetBlockId ≥ mergedBlockLimit then (batch, false)
  else
    match continuationParts (source.length + 1) (source.drop splitLength) with
    | none => (batch, false)
    | some parts =>
        if room : 1 + parts.length > mergedBlockLimit - targetBlockId then (batch, false)
        else
          let first := (batch.indexBlocks targetBlockId).write targetOffset
            (source.take splitLength)
          ({ batch with
            indexBlocks := writeContinuations
              (Function.update batch.indexBlocks targetBlockId first) (targetBlockId + 1) parts
            indexBlockId := targetBlockId + parts.length
            indexOffsetInBlock := if parts = [] then targetOffset + splitLength else pageSize
            postingIndexBlockId := targetBlockId
            postingIndexOffset := targetOffset
            postingIndexLength := splitLength
            postingContinuationBlockCount := parts.length
            hasIndexWrite := true
            indexInside := by omega }, true)

/-- `AddIndex` -/
def addIndex (index : LocalIndex) (source : LeafTermEntry) (batch : MergeBatch) :
    MergeBatch × Bool :=
  match postingBytes index.table.indexBlocks source with
  | none => (batch, false)
  | some bytes =>
      if bytes.length > postingScratchBytes then (batch, false)
      else
        match batch.addIndexBytes bytes with
        | (batch, true) => ({ batch with docFreq := source.docFreq }, true)
        | (batch, false) => (batch, false)

/-- `AddIndexPair` -/
def addIndexPair (smallIndex bigIndex : LocalIndex) (small big : LeafTermEntry)
    (batch : MergeBatch) : MergeBatch × Bool :=
  match postingBytes smallIndex.table.indexBlocks small,
      postingBytes bigIndex.table.indexBlocks big with
  | some bytes, some bigBytes =>
      if bytes.length > postingScratchBytes ∨
          bigBytes.length > postingScratchBytes - bytes.length then (batch, false)
      else
        match batch.addIndexBytes (bytes ++ bigBytes) with
        | (batch, true) => ({ batch with docFreq := small.docFreq + big.docFreq }, true)
        | (batch, false) => (batch, false)
  | _, _ => (batch, false)

/-- The three calls of a turn of `Merge`, of which each needs the one before. -/
def addTerm (batch : MergeBatch) (source : LeafTermEntry)
    (addPostings : MergeBatch → MergeBatch × Bool) : MergeBatch × Bool :=
  if batch.canAddLeafTermEntry source then
    match addPostings batch with
    | (batch, true) => batch.addLeafTermEntry source
    | (batch, false) => (batch, false)
  else (batch, false)

/-- `UsedLeafBlockCount` -/
def usedLeafBlockCount (batch : MergeBatch) : Nat :=
  if 0 < batch.leafEntryCount then batch.leafBlockId + 1 else batch.leafBlockId

/-- `UsedIndexBlockCount` -/
def usedIndexBlockCount (batch : MergeBatch) : Nat :=
  if batch.hasIndexWrite then batch.indexBlockId + 1 else 0

end MergeBatch

/-! ## Dumps -/

/-- What was written to the temporary files, and the counters. -/
structure MergeFiles where
  heads : List HeadTermEntry
  leafs : List Page
  blocks : List Page
  headEntryCount : UInt64
  totalTerms : UInt64
  indexBlockCount : UInt32

namespace MergeFiles

def new : MergeFiles := ⟨[], [], [], 0, 0, 0⟩

/-- One turn over the leaf pages of `DumpBatch`: the head entry and the number of
entries of a page. -/
def dumpLeaf (files : MergeFiles) (batch : MergeBatch) (leafBlockId : Nat) :
    Except RustBladeError (HeadTermEntry × Nat) :=
  let leaf := batch.leafBlocks leafBlockId
  match leafEntry leaf 0 with
  | none => .error .invalidFormat
  | some first =>
      .ok (HeadTermEntry.new first.term (files.headEntryCount.toUInt32 + UInt32.ofNat leafBlockId),
        min (entryCount leaf) (leafTermDirectoryCount - 1))

/-- `DumpBatch` -/
def dumpBatch (batch : MergeBatch) (files : MergeFiles) :
    Except RustBladeError (MergeBatch × MergeFiles) := do
  let usedLeafBlocks := batch.usedLeafBlockCount
  let usedIndexBlocks := batch.usedIndexBlockCount
  if usedLeafBlocks = 0 ∧ usedIndexBlocks = 0 then return (batch, files)
  let dumped ← (List.range usedLeafBlocks).mapM (files.dumpLeaf batch)
  let files : MergeFiles :=
    { heads := files.heads ++ dumped.map Prod.fst
      leafs := files.leafs ++ (List.range usedLeafBlocks).map batch.leafBlocks
      blocks := files.blocks ++ (List.range usedIndexBlocks).map batch.indexBlocks
      headEntryCount := files.headEntryCount + UInt64.ofNat usedLeafBlocks
      totalTerms := files.totalTerms + UInt64.ofNat (dumped.map Prod.snd).sum
      indexBlockCount := files.indexBlockCount + UInt32.ofNat usedIndexBlocks }
  return (MergeBatch.reset files.indexBlockCount, files)

/-- The dump of a batch that takes no more terms, which must write something. -/
def dumpFull (batch : MergeBatch) (files : MergeFiles) :
    Except RustBladeError (MergeBatch × MergeFiles) := do
  let (batch, dumped) ← dumpBatch batch files
  require .invalidFormat (¬ (dumped.headEntryCount = files.headEntryCount ∧
    dumped.indexBlockCount = files.indexBlockCount))
  return (batch, dumped)

end MergeFiles

/-! ## The loop of `Merge` -/

/-- The variables of the loop. -/
structure MergeState where
  baseCursor : LeafCursor
  deltaCursor : LeafCursor
  batch : MergeBatch
  files : MergeFiles

namespace MergeState

def new (base delta : LocalIndex) : MergeState := ⟨.new base, .new delta, .reset 0, .new⟩

/-- The result of offering the smaller current term, or both when they are equal:
the batch, whether it took them, and which cursors are taken from. -/
def offer (base delta : LocalIndex) (state : MergeState) :
    Option ((MergeBatch × Bool) × Bool × Bool) :=
  let baseCursor := state.baseCursor
  let deltaCursor := state.deltaCursor
  let takeBase := baseCursor.current.isSome &&
    (deltaCursor.current.isNone || !deltaCursor.lessThan baseCursor)
  let takeDelta := deltaCursor.current.isSome &&
    (baseCursor.current.isNone || !baseCursor.lessThan deltaCursor)
  match takeBase, takeDelta, baseCursor.current, deltaCursor.current with
  | true, true, some baseEntry, some deltaEntry =>
      some (state.batch.addTerm baseEntry (MergeBatch.addIndexPair base delta baseEntry deltaEntry),
        true, true)
  | true, false, some baseEntry, _ =>
      some (state.batch.addTerm baseEntry (MergeBatch.addIndex base baseEntry), true, false)
  | false, true, _, some deltaEntry =>
      some (state.batch.addTerm deltaEntry (MergeBatch.addIndex delta deltaEntry), false, true)
  | _, _, _, _ => none

/-- One turn of the loop. -/
def turn (base delta : LocalIndex) (state : MergeState) : Except RustBladeError MergeState :=
  match state.offer base delta with
  | none => .error .invalidFormat
  | some ((batch, true), takeBase, takeDelta) =>
      .ok
        { baseCursor := if takeBase then state.baseCursor.advance base else state.baseCursor
          deltaCursor := if takeDelta then state.deltaCursor.advance delta else state.deltaCursor
          batch := batch
          files := state.files }
  | some ((batch, false), _, _) => do
      let (batch, files) ← MergeFiles.dumpFull batch state.files
      return { state with batch := batch, files := files }

/-- The loop. -/
def loop (base delta : LocalIndex) :
    (turns : Nat) → MergeState → Option (Except RustBladeError MergeState)
  | 0, _ => none
  | turns + 1, state =>
      if state.baseCursor.current.isSome || state.deltaCursor.current.isSome then
        match state.turn base delta with
        | .error failure => some (.error failure)
        | .ok state => loop base delta turns state
      else some (.ok state)

end MergeState

/-- The terms of both indexes in the temporary files. -/
def mergeTerms (base delta : LocalIndex) (turns : Nat) : Option (Except RustBladeError MergeFiles) :=
  (MergeState.loop base delta turns (.new base delta)).map fun outcome => do
    let state ← outcome
    let (_, files) ← MergeFiles.dumpBatch state.batch state.files
    return files

/-! ## The records -/

/-- One turn of `AppendMergedDocData`: a record of a document gets its path again,
under the merged prefixes. -/
def mergedRecord (source : LocalIndex) (table : PrefixTable) (slot : Nat) :
    Except RustBladeError (PrefixTable × Bytes) :=
  let record := slice source.docData (slot * docRecSize) docRecSize
  if (u32At record 0).toUInt64 = source.firstDocId + UInt64.ofNat slot then do
    let pathLength := (u16At record docPathLengthOffset).toNat
    require .invalidFormat (pathLength ≤ docPathMax)
    let fullPath := decodeDocPath (slice record docPathOffset pathLength) source.prefixes
    return encodeDocPath table record fullPath
  else return (table, record)

/-- The loop of `AppendMergedDocData`. -/
def mergedRecords (source : LocalIndex) :
    List Nat → PrefixTable × Bytes → Except RustBladeError (PrefixTable × Bytes)
  | [], merged => .ok merged
  | slot :: rest, (table, output) => do
      let (table, record) ← mergedRecord source table slot
      mergedRecords source rest (table, output ++ record)

/-- `AppendMergedDocData` -/
def appendMergedDocData (source : LocalIndex) (merged : PrefixTable × Bytes) :
    Except RustBladeError (PrefixTable × Bytes) := do
  let recordCount := source.header.numDocuments.toNat
  require .invalidFormat (recordCount * docRecSize < 2 ^ 64)
  require .invalidFormat (recordCount * docRecSize ≤ source.docData.length)
  mergedRecords source (List.range recordCount) merged

/-! ## `Merge` -/

/-- The records of both indexes and the prefixes they are written with. -/
def mergeDocData (base delta : LocalIndex) : Except RustBladeError (PrefixTable × Bytes) := do
  let merged ← appendMergedDocData base (.empty, [])
  if delta.header.numDocuments > 0 then appendMergedDocData delta merged else return merged

/-- The header of `Merge`, which makes no hash tables. -/
def mergedHeader (float : FloatOps) (base delta : LocalIndex) (files : MergeFiles)
    (docData : Bytes) : IndexFileHeader :=
  let baseDocCount := base.header.numDocuments
  let deltaDocCount := delta.header.numDocuments
  let mergedDocs := baseDocCount + deltaDocCount
  let mphfDisplacements : List Int := []
  let mphfEntryPages : List Page := []
  let headOffset := indexFileHeaderSize + pathPrefixSidecarBytes
  let leafOffset := headOffset + files.headEntryCount.toNat * 32
  let docDataOffset := leafOffset + files.headEntryCount.toNat * pageSize
  let indexOffset := docDataOffset + docData.length
  let mphfHeaderCount :=
    if mphfDisplacements ≠ [] ∧ ¬ mphfEntryPages.isEmpty then 1 else 0
  let mphfHeaderOffset := indexOffset + files.indexBlockCount.toNat * pageSize
  let mphfDisplacementOffset := mphfHeaderOffset + mphfHeaderCount * termMphfHeaderSize
  let mphfEntryOffset := mphfDisplacementOffset + mphfDisplacements.length * 4
  { magic := indexFileMagic
    magicSize := indexFileMagic_length
    version := indexFormatVersion
    avgDocLength :=
      if mergedDocs = 0 then float.one
      else
        float.mergedAverage base.header.avgDocLength baseDocCount delta.header.avgDocLength
          deltaDocCount
    numDocuments := mergedDocs
    numTerms := files.totalTerms
    headTermEntryOffset := UInt64.ofNat headOffset
    headTermEntryCount := files.headEntryCount
    leafTermBlockOffset := UInt64.ofNat leafOffset
    leafTermBlockCount := files.headEntryCount
    docDataOffset := UInt64.ofNat docDataOffset
    indexBlockOffset := UInt64.ofNat indexOffset
    indexBlockCount := UInt64.ofNat files.indexBlockCount.toNat
    termMphfHeaderOffset := UInt64.ofNat mphfHeaderOffset
    termMphfHeaderCount := UInt64.ofNat mphfHeaderCount
    termMphfDisplacementOffset := UInt64.ofNat mphfDisplacementOffset
    termMphfDisplacementCount := UInt64.ofNat mphfDisplacements.length
    termMphfEntryOffset := UInt64.ofNat mphfEntryOffset
    termMphfEntryPageCount := UInt64.ofNat mphfEntryPages.length }

/-- `Merge` of a base and a delta: the parts of the file at the output path. It
panics when the records do not fit a `Vec`. -/
def mergeIndexes (float : FloatOps) (base delta : LocalIndex) (turns : Nat) :
    Option (Except RustBladeError FileParts) :=
  let deltaDocCount := delta.header.numDocuments
  let mergedDocs := base.header.numDocuments.toNat + deltaDocCount.toNat
  if deltaDocCount > 0 ∧ delta.firstDocId ≠ base.header.numDocuments then
    some (.error .invalidFormat)
  else if mergedDocs * docRecSize ≥ 2 ^ 63 then none
  else
    match mergeDocData base delta with
    | .error failure => some (.error failure)
    | .ok (table, docData) =>
        (mergeTerms base delta turns).map fun outcome => do
          let files ← outcome
          require .invalidFormat (files.headEntryCount > 0 →
            files.leafs.length * pageSize = files.headEntryCount.toNat * pageSize ∧
            ∀ page ∈ files.leafs, leafBlockValid page = true)
          pure
            { header := mergedHeader float base delta files docData
              sidecar := encodePathPrefixSidecar table.prefixes
              heads := files.heads
              leafBlocks := files.leafs
              docData := docData
              indexBlocks := files.blocks }

/-! ## The header describes the file -/

/-- The counters are the lengths of what was written, in their widths. -/
structure MergeFiles.Counted (files : MergeFiles) : Prop where
  leafs : files.leafs.length = files.heads.length
  heads : files.headEntryCount = UInt64.ofNat files.heads.length
  blocks : files.indexBlockCount = UInt32.ofNat files.blocks.length

namespace MergeFiles

theorem counted_new : MergeFiles.new.Counted := ⟨rfl, rfl, rfl⟩

theorem Counted.dumpBatch {batch next : MergeBatch} {files dumped : MergeFiles}
    (counted : files.Counted) (ok : dumpBatch batch files = .ok (next, dumped)) :
    dumped.Counted := by
  unfold MergeFiles.dumpBatch at ok
  dsimp only at ok
  split at ok
  · obtain ⟨rfl, rfl⟩ := Prod.mk.inj (Except.ok.inj ok)
    exact counted
  · obtain ⟨written, ran, rest⟩ := bind_ok.mp ok
    obtain ⟨rfl, rfl⟩ := Prod.mk.inj (Except.ok.inj rest)
    have length : written.length = batch.usedLeafBlockCount := by
      rw [mapM_ok_length ran, List.length_range]
    refine ⟨?_, ?_, ?_⟩
    · simp only [List.length_append, List.length_map, List.length_range, counted.leafs, length]
    · dsimp only
      rw [counted.heads, List.length_append, List.length_map, length, UInt64.ofNat_add]
    · dsimp only
      rw [counted.blocks, List.length_append, List.length_map, List.length_range, UInt32.ofNat_add]

theorem Counted.dumpFull {batch next : MergeBatch} {files dumped : MergeFiles}
    (counted : files.Counted) (ok : dumpFull batch files = .ok (next, dumped)) :
    dumped.Counted := by
  obtain ⟨⟨written, after⟩, ran, rest⟩ := bind_ok.mp ok
  obtain ⟨_, _, rest⟩ := bind_ok.mp rest
  obtain ⟨rfl, rfl⟩ := Prod.mk.inj (Except.ok.inj rest)
  exact counted.dumpBatch ran

end MergeFiles

/-- What one turn keeps of the counters. -/
theorem MergeState.turn_counted {base delta : LocalIndex} {state next : MergeState}
    (counted : state.files.Counted) (ok : state.turn base delta = .ok next) :
    next.files.Counted := by
  unfold MergeState.turn at ok
  split at ok
  · cases ok
  · obtain rfl := Except.ok.inj ok
    exact counted
  · obtain ⟨⟨batch, files⟩, dumped, rest⟩ := bind_ok.mp ok
    obtain rfl := Except.ok.inj rest
    exact counted.dumpFull dumped

theorem MergeState.loop_counted {base delta : LocalIndex} {turns : Nat} {state final : MergeState}
    (counted : state.files.Counted) (ok : loop base delta turns state = some (.ok final)) :
    final.files.Counted := by
  induction turns generalizing state with
  | zero => cases ok
  | succ turns inductionHypothesis =>
      rw [loop] at ok
      split at ok
      · split at ok
        · cases ok
        · rename_i next ran
          exact inductionHypothesis (turn_counted counted ran) ok
      · obtain rfl := Except.ok.inj (Option.some.inj ok)
        exact counted

theorem mergeTerms_counted {base delta : LocalIndex} {turns : Nat} {files : MergeFiles}
    (ok : mergeTerms base delta turns = some (.ok files)) : files.Counted := by
  obtain ⟨outcome, ran, rest⟩ := Option.map_eq_some_iff.mp ok
  obtain ⟨state, finished, last⟩ := bind_ok.mp rest
  obtain ⟨⟨batch, after⟩, dumped, same⟩ := bind_ok.mp last
  obtain rfl := Except.ok.inj same
  rw [finished] at ran
  exact (MergeState.loop_counted MergeFiles.counted_new ran).dumpBatch dumped

/-- A merged record keeps its size, and the table keeps fitting the sidecar. -/
theorem mergedRecord_ok {source : LocalIndex} {table after : PrefixTable} {slot : Nat}
    {record : Bytes} (held : table.Held)
    (inside : slot * docRecSize + docRecSize ≤ source.docData.length)
    (ok : mergedRecord source table slot = .ok (after, record)) :
    after.Held ∧ record.length = docRecSize := by
  have size := slice_length_of_le inside
  unfold mergedRecord at ok
  dsimp only at ok
  split at ok
  · obtain ⟨_, _, rest⟩ := bind_ok.mp ok
    obtain ⟨tableEq, recordEq⟩ := Prod.ext_iff.mp (Except.ok.inj rest)
    dsimp only at tableEq recordEq
    rw [← tableEq, ← recordEq, encodeDocPath_length]
    exact ⟨held.encodeDocPath _ _, size⟩
  · obtain ⟨rfl, rfl⟩ := Prod.mk.inj (Except.ok.inj ok)
    exact ⟨held, size⟩

theorem mergedRecords_ok {source : LocalIndex} {slots : List Nat} {table after : PrefixTable}
    {output docData : Bytes} (held : table.Held)
    (inside : ∀ slot ∈ slots, slot * docRecSize + docRecSize ≤ source.docData.length)
    (ok : mergedRecords source slots (table, output) = .ok (after, docData)) :
    after.Held ∧ docData.length = output.length + slots.length * docRecSize := by
  induction slots generalizing table output with
  | nil =>
      obtain ⟨rfl, rfl⟩ := Prod.mk.inj (Except.ok.inj ok)
      exact ⟨held, by simp⟩
  | cons slot rest inductionHypothesis =>
      rw [mergedRecords] at ok
      obtain ⟨⟨between, record⟩, turn, ok⟩ := bind_ok.mp ok
      obtain ⟨heldBetween, size⟩ := mergedRecord_ok held (inside slot List.mem_cons_self) turn
      have insideRest : ∀ slot ∈ rest, slot * docRecSize + docRecSize ≤ source.docData.length :=
        fun other member => inside other (List.mem_cons_of_mem _ member)
      obtain ⟨heldAfter, length⟩ := inductionHypothesis heldBetween insideRest ok
      refine ⟨heldAfter, ?_⟩
      rw [length, List.length_append, size, List.length_cons, Nat.succ_mul]
      omega

theorem appendMergedDocData_ok {source : LocalIndex} {table after : PrefixTable}
    {output docData : Bytes} (held : table.Held)
    (ok : appendMergedDocData source (table, output) = .ok (after, docData)) :
    after.Held ∧
      docData.length = output.length + source.header.numDocuments.toNat * docRecSize := by
  obtain ⟨_, _, ok⟩ := bind_ok.mp ok
  obtain ⟨_, long, ok⟩ := bind_ok.mp ok
  have enough := require_eq_ok.mp long
  have inside : ∀ slot ∈ List.range source.header.numDocuments.toNat,
      slot * docRecSize + docRecSize ≤ source.docData.length := by
    intro slot member
    have fits := Nat.mul_le_mul_right docRecSize (List.mem_range.mp member)
    rw [Nat.succ_mul] at fits
    omega
  have result := mergedRecords_ok held inside ok
  rw [List.length_range] at result
  exact result

theorem mergeDocData_ok {base delta : LocalIndex} {table : PrefixTable} {docData : Bytes}
    (ok : mergeDocData base delta = .ok (table, docData)) :
    table.Held ∧ docData.length =
      (base.header.numDocuments.toNat + delta.header.numDocuments.toNat) * docRecSize := by
  obtain ⟨⟨between, records⟩, first, ok⟩ := bind_ok.mp ok
  obtain ⟨held, length⟩ := appendMergedDocData_ok PrefixTable.held_empty first
  rw [List.length_nil, Nat.zero_add] at length
  split at ok
  · obtain ⟨heldAfter, lengthAfter⟩ := appendMergedDocData_ok held ok
    refine ⟨heldAfter, ?_⟩
    rw [lengthAfter, length, Nat.add_mul]
  · rename_i none_
    obtain ⟨rfl, rfl⟩ := Prod.mk.inj (Except.ok.inj ok)
    have zero : delta.header.numDocuments = 0 := UInt64.le_zero_iff.mp (not_lt.mp none_)
    rw [zero, length]
    exact ⟨held, rfl⟩

/-- `Merge` makes no hash tables. -/
theorem mergedHeader_eq (float : FloatOps) (base delta : LocalIndex) (files : MergeFiles)
    (docData : Bytes) :
    mergedHeader float base delta files docData =
      plainHeader (mergedHeader float base delta files docData).avgDocLength
        (base.header.numDocuments + delta.header.numDocuments) files.totalTerms
        files.headEntryCount.toNat files.headEntryCount.toNat docData.length
        files.indexBlockCount.toNat := by
  have same : UInt64.ofNat files.headEntryCount.toNat = files.headEntryCount :=
    UInt64.ofNat_toNat
  simp only [mergedHeader, plainHeader, ne_eq, not_true_eq_false, false_and, if_false,
    List.length_nil, Nat.zero_mul, Nat.add_zero, same]
  rfl

/-- What a successful merge is made of. -/
theorem mergeIndexes_eq_ok {float : FloatOps} {base delta : LocalIndex} {turns : Nat}
    {parts : FileParts} (ok : mergeIndexes float base delta turns = some (.ok parts)) :
    ∃ table docData files, mergeDocData base delta = .ok (table, docData) ∧
      mergeTerms base delta turns = some (.ok files) ∧
      (base.header.numDocuments.toNat + delta.header.numDocuments.toNat) * docRecSize < 2 ^ 63 ∧
      parts =
        { header := mergedHeader float base delta files docData
          sidecar := encodePathPrefixSidecar table.prefixes
          heads := files.heads
          leafBlocks := files.leafs
          docData := docData
          indexBlocks := files.blocks } := by
  unfold mergeIndexes at ok
  dsimp only at ok
  split at ok
  · cases ok
  · split at ok
    · cases ok
    · rename_i fits
      split at ok
      · cases ok
      · rename_i table docData records
        obtain ⟨outcome, terms, ok⟩ := Option.map_eq_some_iff.mp ok
        obtain ⟨files, finished, checked⟩ := bind_ok.mp ok
        obtain ⟨_, _, made⟩ := bind_ok.mp checked
        rw [finished] at terms
        exact ⟨table, docData, files, records, terms, not_le.mp fits, (Except.ok.inj made).symm⟩

/-- The header of a merged index describes the parts of its file. -/
theorem mergeIndexes_described {float : FloatOps} {base delta : LocalIndex} {turns : Nat}
    {parts : FileParts} (ok : mergeIndexes float base delta turns = some (.ok parts))
    (leafBound : parts.leafBlocks.length < 2 ^ 32)
    (blockBound : parts.indexBlocks.length < 2 ^ 32) : parts.Described := by
  obtain ⟨table, docData, files, records, terms, fits, rfl⟩ := mergeIndexes_eq_ok ok
  obtain ⟨held, length⟩ := mergeDocData_ok records
  have counted := mergeTerms_counted terms
  have headBound : files.heads.length < 2 ^ 32 := by
    rw [← counted.leafs]
    exact leafBound
  have heads : files.headEntryCount.toNat = files.heads.length := by
    rw [counted.heads]
    exact toNat_ofNat_of_lt _ (by omega)
  have blocks : files.indexBlockCount.toNat = files.blocks.length := by
    rw [counted.blocks, UInt32.toNat_ofNat']
    exact Nat.mod_eq_of_lt blockBound
  have size : docRecSize = 256 := rfl
  have documents : (base.header.numDocuments + delta.header.numDocuments).toNat =
      base.header.numDocuments.toNat + delta.header.numDocuments.toNat := by
    rw [UInt64.toNat_add]
    exact Nat.mod_eq_of_lt (by rw [size] at fits; omega)
  have layout : (mergedHeader float base delta files docData).Layout := by
    rw [mergedHeader_eq, heads, blocks]
    refine plainHeader_layout _ _ _ headBound headBound ?_ ?_ blockBound
    · rw [documents]
      exact length
    · rw [length]
      exact fits
  exact
    { current := ⟨rfl, rfl⟩
      layout := layout
      headCount := heads
      leafCount := by
        show files.headEntryCount.toNat = files.leafs.length
        rw [heads, counted.leafs]
      docCount := by
        show docData.length =
          (base.header.numDocuments + delta.header.numDocuments).toNat * docRecSize
        rw [documents]
        exact length
      indexCount := by
        show (UInt64.ofNat files.indexBlockCount.toNat).toNat = files.blocks.length
        rw [blocks]
        exact toNat_ofNat_of_lt _ (by dsimp only at blockBound; omega)
      noMphf := rfl
      sidecarSize := encodePathPrefixSidecar_length held.total }

/-! ## The whole call -/

/-- `Merge`: the context, which is empty after it succeeded, and the parts of the
file it wrote. -/
def IndexContext.merge (float : FloatOps) (context : IndexContext) (turns : Nat) :
    Option (IndexContext × Except RustBladeError FileParts) :=
  if context.base.built = false ∨ context.base.docData = [] then
    some (context, .error .indexNotBuilt)
  else
    match context.delta with
    | none => some (context, .error .indexNotBuilt)
    | some delta =>
        if delta.index.built = false ∨ delta.index.docData = [] then
          some (context, .error .indexNotBuilt)
        else
          (mergeIndexes float context.base delta.index turns).map fun outcome =>
            match outcome with
            | .error failure => (context, .error failure)
            | .ok parts => (⟨context.base.resetRuntime, none⟩, .ok parts)

end MoonShot.Context
