import MoonShot.Format.DocData
import MoonShot.Serializer.BuildBlocks

/-!
Index files (`IndexSerializer.rs`): what `Save` writes, and what `decode` and the
file loaders read back.

Owns the checks of all three, in the order the source makes them, the block
sources of a table that is backed by a file, and the round trip: a file made of
parts that agree with their header is accepted by both readers, and each gets
the parts back.

A file system is a map from paths to contents. Opening a file that is not there
and reading past the end are the errors of the operating system; every other
read and write succeeds. The scratch store that the loaders fill and drop is
left out.
-/

namespace MoonShot.Serializer

open MoonShot.Lib
open MoonShot.Postings
open MoonShot.Format
open MoonShot.Table

/-! ## Tables in memory -/

/-- An `IndexBlockTable` filled by `SetBlockMemory`, with its blocks in order. -/
structure MemoryTable where
  headTermEntries : List HeadTermEntry
  leafTermBlocks : List Page
  indexBlocks : List Page
  mphf : TermMphf

namespace MemoryTable

/-- `IndexBlockTable::new` -/
def new : MemoryTable := ⟨[], [], [], .cleared⟩

def table (memory : MemoryTable) : IndexBlockTable where
  headTermEntries := memory.headTermEntries
  leafBlocks := memoryBlocks memory.leafTermBlocks
  indexBlocks := memoryBlocks memory.indexBlocks
  mphf := memory.mphf

end MemoryTable

/-- `CopyPoolBlocks`: the pool counts its blocks in 32 bits. -/
def copyPoolBlocks (blocks : List Page) : List Page := blocks.take (blocks.length % 2 ^ 32)

/-! ## The hash tables in a file -/

/-- `i32::to_le_bytes` -/
def i32Bytes (value : Int) : Bytes := leBytes 4 (value % 2 ^ 32).toNat

/-- `i32::from_le_bytes` -/
def i32At (data : Bytes) (offset : Nat) : Int :=
  let word : Int := (u32At data offset).toNat
  if word < 2 ^ 31 then word else word - 2 ^ 32

/-- `TermMphfHeader::to_bytes` -/
def termMphfHeaderBytes (header : TermMphfHeader) : Bytes :=
  [u64Bytes header.magic, u64Bytes header.termCount, u32Bytes header.bucketCount,
    u32Bytes header.slotCount, u64Bytes header.bucketSeed, u64Bytes header.slotSeed,
    u64Bytes header.fingerprintSeed].flatten

/-- `TermMphfHeader::from_bytes` of the bytes at an offset. -/
def termMphfHeaderAt (data : Bytes) (offset : Nat) : TermMphfHeader where
  magic := u64At data offset
  termCount := u64At data (offset + 8)
  bucketCount := u32At data (offset + 16)
  slotCount := u32At data (offset + 20)
  bucketSeed := u64At data (offset + 24)
  slotSeed := u64At data (offset + 32)
  fingerprintSeed := u64At data (offset + 40)

/-- `SetTermMphf` on a table with cleared hash tables. -/
def setTermMphf (header : TermMphfHeader) (displacements : List Int) (entryPages : List Page) :
    TermMphf :=
  if header.termCount = 0 ∨ header.bucketCount = 0 ∨ header.slotCount = 0 ∨ displacements = [] ∨
      entryPages.isEmpty then .cleared
  else if header.magic ≠ termMphfMagic ∨ header.slotCount.toUInt64 ≠ header.termCount ∨
      displacements.length ≠ header.bucketCount.toNat ∨
      header.slotCount.toNat * termMphfEntrySize > entryPages.length * pageSize then .cleared
  else ⟨header, displacements, entryPages, true⟩

/-! ## `Save` -/

/-- The bytes of a section, which is only written when its count is positive. -/
def sectionBytes (count : UInt64) (items : List Bytes) : Bytes :=
  if count > 0 then items.flatten else []

/-- The layout is checked unless the index is the empty one that was never built. -/
def checkedLayout (header : IndexFileHeader) : Except RustBladeError UInt64 :=
  if header.isZeroed then .ok 0 else header.validateLayout none

/-- `Save`: the bytes it writes. Every check stands in front of `File::create`. -/
def save (header : IndexFileHeader) (memory : MemoryTable) (docData sidecar : Bytes) :
    Except RustBladeError Bytes := do
  let _ ← checkedLayout header
  require .invalidFormat (header.numDocuments.toNat * docRecSize < 2 ^ 64)
  require .invalidFormat (docData.length = header.numDocuments.toNat * docRecSize ∧
    sidecar.length = pathPrefixSidecarBytes ∧
    ¬ (header.isZeroed ∧ ∃ byte ∈ sidecar, byte ≠ 0))
  let indexBlocks := copyPoolBlocks memory.indexBlocks
  let leafBlocks := copyPoolBlocks memory.leafTermBlocks
  require .invalidFormat (memory.headTermEntries.length = header.headTermEntryCount.toNat ∧
    leafBlocks.length = header.leafTermBlockCount.toNat ∧
    indexBlocks.length = header.indexBlockCount.toNat ∧
    memory.mphf.displacements.length = header.termMphfDisplacementCount.toNat ∧
    memory.mphf.entryPages.length = header.termMphfEntryPageCount.toNat)
  return header.toBytes ++ sidecar ++
    sectionBytes header.headTermEntryCount (memory.headTermEntries.map HeadTermEntry.toBytes) ++
    sectionBytes header.leafTermBlockCount (leafBlocks.map Page.data) ++
    sectionBytes header.numDocuments [docData] ++
    sectionBytes header.indexBlockCount (indexBlocks.map Page.data) ++
    sectionBytes header.termMphfHeaderCount [termMphfHeaderBytes memory.mphf.header] ++
    sectionBytes header.termMphfDisplacementCount (memory.mphf.displacements.map i32Bytes) ++
    sectionBytes header.termMphfEntryPageCount (memory.mphf.entryPages.map Page.data)

/-! ## `decode` -/

/-- The page at an offset of a buffer that is long enough. -/
def pageAt (data : Bytes) (offset : Nat) : Except RustBladeError Page :=
  if inside : offset + pageSize ≤ data.length then
    .ok ⟨slice data offset pageSize, slice_length_of_le inside⟩
  else .error .invalidFormat

def headAt (data : Bytes) (offset : Nat) : Except RustBladeError HeadTermEntry :=
  if offset + HeadTermEntry.headTermEntrySize > data.length then .error .invalidFormat
  else
    match HeadTermEntry.fromBytes (slice data offset HeadTermEntry.headTermEntrySize) with
    | some entry => .ok entry
    | none => .error .invalidFormat

def leafAt (data : Bytes) (offset : Nat) : Except RustBladeError Page := do
  let page ← pageAt data offset
  require .invalidFormat (leafBlockValid page = true)
  return page

/-- `DecodedIndexData` -/
structure DecodedIndexData where
  head : List HeadTermEntry
  leafBlocks : List Page
  indexBlocks : List Page
  docData : Bytes
  sidecar : Bytes
  prefixes : List Str
  mphfHeader : TermMphfHeader
  mphfDisplacements : List Int
  mphfEntryPages : List Page

/-- The hash tables of `decode`. -/
def decodeTermMphf (data : Bytes) (header : IndexFileHeader) :
    Except RustBladeError (TermMphfHeader × List Int × List Page) :=
  if header.termMphfHeaderCount = 0 then .ok (.default, [], [])
  else do
    require .invalidFormat (header.termMphfHeaderCount = 1)
    require .invalidFormat
      (header.termMphfHeaderOffset.toNat + termMphfHeaderSize ≤ data.length)
    let mphfHeader := termMphfHeaderAt data header.termMphfHeaderOffset.toNat
    require .invalidFormat (mphfHeader.magic = termMphfMagic)
    let displacementOffset := header.termMphfDisplacementOffset.toNat
    let displacementCount := header.termMphfDisplacementCount.toNat
    require .invalidFormat (displacementOffset + displacementCount * 4 ≤ data.length)
    let displacements := (List.range displacementCount).map fun index =>
      i32At data (displacementOffset + index * 4)
    let entryOffset := header.termMphfEntryOffset.toNat
    let entryPageCount := header.termMphfEntryPageCount.toNat
    require .invalidFormat (entryOffset + entryPageCount * pageSize ≤ data.length)
    let entryPages ← (List.range entryPageCount).mapM fun index =>
      pageAt data (entryOffset + index * pageSize)
    return (mphfHeader, displacements, entryPages)

/-- `decode` -/
def decode (data : Bytes) : Except RustBladeError DecodedIndexData := do
  let header ← IndexFileHeader.parse data
  let _ ← header.validateLayout (some data.length)
  require .invalidFormat (indexFileHeaderSize + pathPrefixSidecarBytes ≤ data.length)
  let sidecar := slice data indexFileHeaderSize pathPrefixSidecarBytes
  let prefixes ← decodePathPrefixSidecar sidecar
  let head ← (List.range header.headTermEntryCount.toNat).mapM fun index =>
    headAt data (header.headTermEntryOffset.toNat + index * HeadTermEntry.headTermEntrySize)
  let leafBlocks ← (List.range header.leafTermBlockCount.toNat).mapM fun index =>
    leafAt data (header.leafTermBlockOffset.toNat + index * pageSize)
  let docDataSize := header.numDocuments.toNat * docRecSize
  require .invalidFormat (header.docDataOffset.toNat + docDataSize ≤ data.length)
  let docData := slice data header.docDataOffset.toNat docDataSize
  let indexBlocks ← (List.range header.indexBlockCount.toNat).mapM fun index =>
    pageAt data (header.indexBlockOffset.toNat + index * pageSize)
  let (mphfHeader, mphfDisplacements, mphfEntryPages) ← decodeTermMphf data header
  return ⟨head, leafBlocks, indexBlocks, docData, sidecar, prefixes, mphfHeader,
    mphfDisplacements, mphfEntryPages⟩

/-! ## Files -/

/-- Paths and the contents of the files there. -/
abbrev FileSystem := Str → Option Bytes

/-- `File::open` -/
def openFile (files : FileSystem) (path : Str) : Except RustBladeError Bytes :=
  match files path with
  | some file => .ok file
  | none => .error .io

/-- `seek` and `read_exact` -/
def readExact (file : Bytes) (offset length : Nat) : Except RustBladeError Bytes := do
  require .io (offset + length ≤ file.length)
  return slice file offset length

/-- `read_exact` into a page. -/
def readPage (file : Bytes) (offset : Nat) : Except RustBladeError Page :=
  if inside : offset + pageSize ≤ file.length then
    .ok ⟨slice file offset pageSize, slice_length_of_le inside⟩
  else .error .io

/-- One turn of the loop over the head entries of `LoadFileTables`. -/
def readHead (file : Bytes) (offset : Nat) : Except RustBladeError HeadTermEntry := do
  let bytes ← readExact file offset HeadTermEntry.headTermEntrySize
  match HeadTermEntry.fromBytes bytes with
  | some entry => .ok entry
  | none => .error .invalidFormat

/-- `LoadFileTables` -/
def loadFileTables (files : FileSystem) (path : Str) :
    Except RustBladeError (IndexFileHeader × List HeadTermEntry × Bytes) := do
  let file ← openFile files path
  let header ← IndexFileHeader.parse (← readExact file 0 indexFileHeaderSize)
  let _ ← header.validateLayout (some file.length)
  let head ← (List.range header.headTermEntryCount.toNat).mapM fun index =>
    readHead file (header.headTermEntryOffset.toNat + index * HeadTermEntry.headTermEntrySize)
  let docData ← readExact file header.docDataOffset.toNat (header.numDocuments.toNat * docRecSize)
  return (header, head, docData)

/-- `LoadPathPrefixSidecar` -/
def loadPathPrefixSidecar (files : FileSystem) (path : Str) :
    Except RustBladeError (Bytes × List Str) := do
  let file ← openFile files path
  let sidecar ← readExact file indexFileHeaderSize pathPrefixSidecarBytes
  let prefixes ← decodePathPrefixSidecar sidecar
  return (sidecar, prefixes)

/-- `LoadTermMphf` -/
def loadTermMphf (files : FileSystem) (path : Str) (header : IndexFileHeader) :
    Except RustBladeError (TermMphfHeader × List Int × List Page) :=
  if header.termMphfHeaderCount = 0 then .ok (.default, [], [])
  else do
    require .invalidFormat (header.termMphfHeaderCount = 1 ∧
      header.termMphfDisplacementCount ≠ 0 ∧ header.termMphfEntryPageCount ≠ 0)
    let file ← openFile files path
    let headerBytes ← readExact file header.termMphfHeaderOffset.toNat termMphfHeaderSize
    let mphfHeader := termMphfHeaderAt headerBytes 0
    require .invalidFormat (mphfHeader.magic = termMphfMagic)
    let displacements ← (List.range header.termMphfDisplacementCount.toNat).mapM fun index => do
      let bytes ← readExact file (header.termMphfDisplacementOffset.toNat + index * 4) 4
      return i32At bytes 0
    let entryPages ← (List.range header.termMphfEntryPageCount.toNat).mapM fun index =>
      readPage file (header.termMphfEntryOffset.toNat + index * pageSize)
    return (mphfHeader, displacements, entryPages)

/-- The blocks of a pool backed by a file. A pool without slots has no block. -/
def fileBlocks (file : Bytes) (baseOffset blockCount slotCount : Nat) : BlockSource := fun blockId =>
  if blockId < blockCount ∧ 0 < slotCount then
    (readPage file (baseOffset + blockId * pageSize)).toOption
  else none

/-- `Init` of a pool: the first slots are filled at once. -/
def initPool (file : Bytes) (baseOffset blockCount slotCount : Nat) :
    Except RustBladeError BlockSource := do
  let slots := min slotCount blockCount
  require .io (0 < slots → baseOffset + slots * pageSize ≤ file.length)
  return fileBlocks file baseOffset blockCount slots

/-- `IsValidIndex` -/
def isValidIndex (files : FileSystem) (path : Str) : Bool :=
  match files path with
  | some file => 8 ≤ file.length && slice file 0 8 == indexFileMagic
  | none => false

/-! ## What a loader gets -/

/-- What a load puts in place of the runtime fields of a context. -/
structure LoadedIndex where
  header : IndexFileHeader
  table : IndexBlockTable
  leafTermBlockCount : Nat
  docData : Bytes
  sidecar : Bytes
  prefixes : List Str

/-- `INDEX_BLOCK_CACHE_BYTES` and `LEAF_TERM_CACHE_BYTES` -/
def blockCacheBytes : Nat := 100 * 1024 * 1024

/-- `LoadIndex` up to its assignments. -/
def loadFile (files : FileSystem) (path : Str) (leafTermCacheBytes : Nat) :
    Except RustBladeError LoadedIndex := do
  let (header, head, docData) ← loadFileTables files path
  let (sidecar, prefixes) ← loadPathPrefixSidecar files path
  let (mphfHeader, displacements, entryPages) ← loadTermMphf files path header
  let file ← openFile files path
  let indexBlocks ← initPool file header.indexBlockOffset.toNat header.indexBlockCount.toNat
    (min header.indexBlockCount.toNat (blockCacheBytes / pageSize))
  let leafBlocks ← initPool file header.leafTermBlockOffset.toNat header.leafTermBlockCount.toNat
    (min header.leafTermBlockCount.toNat (leafTermCacheBytes / pageSize))
  let mphf :=
    if header.termMphfHeaderCount > 0 then setTermMphf mphfHeader displacements entryPages
    else .cleared
  return ⟨header, ⟨head, leafBlocks, indexBlocks, mphf⟩, header.leafTermBlockCount.toNat, docData,
    sidecar, prefixes⟩

/-- `LoadFromBytes` up to its assignments. -/
def loadBytes (data : Bytes) : Except RustBladeError LoadedIndex := do
  let header ← IndexFileHeader.parse data
  let decoded ← decode data
  let mphf :=
    if decoded.mphfDisplacements ≠ [] ∧ ¬ decoded.mphfEntryPages.isEmpty then
      setTermMphf decoded.mphfHeader decoded.mphfDisplacements decoded.mphfEntryPages
    else .cleared
  return ⟨header, (MemoryTable.mk decoded.head decoded.leafBlocks decoded.indexBlocks mphf).table,
    decoded.leafBlocks.length % 2 ^ 32, decoded.docData, decoded.sidecar, decoded.prefixes⟩

/-! ## Files made of agreeing parts -/

/-- The parts of an index file without hash tables. -/
structure FileParts where
  header : IndexFileHeader
  sidecar : Bytes
  heads : List HeadTermEntry
  leafBlocks : List Page
  docData : Bytes
  indexBlocks : List Page

namespace FileParts

def sections (parts : FileParts) : List Bytes :=
  [parts.header.toBytes, parts.sidecar, (parts.heads.map HeadTermEntry.toBytes).flatten,
    (parts.leafBlocks.map Page.data).flatten, parts.docData,
    (parts.indexBlocks.map Page.data).flatten]

def bytes (parts : FileParts) : Bytes := parts.sections.flatten

/-- The header describes the parts. -/
structure Described (parts : FileParts) : Prop where
  current : parts.header.Current
  layout : parts.header.Layout
  headCount : parts.header.headTermEntryCount.toNat = parts.heads.length
  leafCount : parts.header.leafTermBlockCount.toNat = parts.leafBlocks.length
  docCount : parts.docData.length = parts.header.numDocuments.toNat * docRecSize
  indexCount : parts.header.indexBlockCount.toNat = parts.indexBlocks.length
  noMphf : parts.header.termMphfHeaderCount = 0
  sidecarSize : parts.sidecar.length = pathPrefixSidecarBytes

/-- The header describes the parts, and each part is well formed. -/
structure Agrees (parts : FileParts) (prefixes : List Str) : Prop extends Described parts where
  decodes : decodePathPrefixSidecar parts.sidecar = .ok prefixes
  headsFit : ∀ head ∈ parts.heads, head.firstTermLength.toNat ≤ headTermKeyMax
  leafValid : ∀ page ∈ parts.leafBlocks, leafBlockValid page = true

/-- What a load of the parts gives. -/
def loaded (parts : FileParts) (prefixes : List Str) : LoadedIndex where
  header := parts.header
  table := (MemoryTable.mk parts.heads parts.leafBlocks parts.indexBlocks .cleared).table
  leafTermBlockCount := parts.leafBlocks.length
  docData := parts.docData
  sidecar := parts.sidecar
  prefixes := prefixes

section Parts

variable {parts : FileParts} {prefixes : List Str}

theorem heads_length (heads : List HeadTermEntry) :
    (heads.map HeadTermEntry.toBytes).flatten.length =
      heads.length * HeadTermEntry.headTermEntrySize := by
  rw [flatten_length_uniform, List.length_map]
  intro item member
  obtain ⟨head, _, rfl⟩ := List.mem_map.mp member
  exact head.toBytes_length

theorem pages_length (pages : List Page) :
    (pages.map Page.data).flatten.length = pages.length * pageSize := by
  rw [flatten_length_uniform, List.length_map]
  intro item member
  obtain ⟨page, _, rfl⟩ := List.mem_map.mp member
  exact page.size

/-- An item of a stored section. -/
theorem slice_item {data : Bytes} {items : List Bytes} {offset width index : Nat} {item : Bytes}
    (stored : slice data offset items.flatten.length = items.flatten)
    (sizes : ∀ item ∈ items, item.length = width) (found : items[index]? = some item) :
    slice data (offset + index * width) width = item := by
  have below := (List.getElem?_eq_some_iff.mp found).1
  have inside : index * width + width ≤ items.flatten.length := by
    rw [flatten_length_uniform sizes, ← Nat.succ_mul]
    exact Nat.mul_le_mul_right _ below
  rw [← slice_slice inside, stored]
  exact slice_flatten_uniform sizes found

namespace Described

variable (described : Described parts)

include described

/-- No hash tables: their sections are empty. -/
theorem noTables : parts.header.termMphfDisplacementCount = 0 ∧
    parts.header.termMphfEntryPageCount = 0 := by
  have counts := described.layout.counts
  by_contra some
  apply counts
  have split : parts.header.termMphfDisplacementCount ≠ 0 ∨
      parts.header.termMphfEntryPageCount ≠ 0 := by
    by_contra neither
    push Not at neither
    exact some neither
  exact .inr (.inr (.inr (.inr (.inr (.inr (.inl ⟨described.noMphf, split⟩))))))

/-- The file ends where the layout says. -/
theorem length_bytes : parts.bytes.length = parts.header.stop := by
  have layout := described.layout
  have tables := described.noTables
  have head := layout.head
  have leaf := layout.leaf
  have docData := layout.docData
  have index := layout.index
  have mphf := layout.mphfHeader
  have displacement := layout.displacement
  have entries := layout.entries
  have size : HeadTermEntry.headTermEntrySize = 32 := rfl
  rw [described.noMphf] at displacement
  rw [tables.1] at entries
  have total : parts.bytes.length = indexFileHeaderSize + pathPrefixSidecarBytes +
      parts.heads.length * HeadTermEntry.headTermEntrySize + parts.leafBlocks.length * pageSize +
      parts.header.numDocuments.toNat * docRecSize + parts.indexBlocks.length * pageSize := by
    simp only [bytes, sections, List.flatten_cons, List.flatten_nil, List.length_append,
      List.length_nil, IndexFileHeader.toBytes_length, described.sidecarSize, heads_length,
      pages_length, described.docCount]
    omega
  have zero : (0 : UInt64).toNat = 0 := rfl
  rw [total, IndexFileHeader.stop, tables.2, zero, Nat.zero_mul, Nat.add_zero, entries, zero,
    Nat.zero_mul, Nat.add_zero, displacement, zero, Nat.zero_mul, Nat.add_zero, mphf,
    described.indexCount, index, docData, described.leafCount, leaf, described.headCount, head, size]

/-- The block sections lie inside the file. -/
theorem sections_inside :
    parts.header.leafTermBlockOffset.toNat + parts.header.leafTermBlockCount.toNat * pageSize ≤
        parts.bytes.length ∧
      parts.header.indexBlockOffset.toNat + parts.header.indexBlockCount.toNat * pageSize ≤
        parts.bytes.length := by
  have layout := described.layout
  have docData := layout.docData
  have index := layout.index
  have mphf := layout.mphfHeader
  have displacement := layout.displacement
  have entries := layout.entries
  rw [described.length_bytes, IndexFileHeader.stop]
  omega

theorem records_inside :
    parts.header.docDataOffset.toNat + parts.header.numDocuments.toNat * docRecSize ≤
      parts.bytes.length := by
  have inside := described.sections_inside.2
  have index := described.layout.index
  omega

/-- Where each section stands. -/
theorem stored :
    slice parts.bytes 0 indexFileHeaderSize = parts.header.toBytes ∧
    slice parts.bytes indexFileHeaderSize pathPrefixSidecarBytes = parts.sidecar ∧
    slice parts.bytes parts.header.headTermEntryOffset.toNat
      (parts.heads.map HeadTermEntry.toBytes).flatten.length =
        (parts.heads.map HeadTermEntry.toBytes).flatten ∧
    slice parts.bytes parts.header.leafTermBlockOffset.toNat
      (parts.leafBlocks.map Page.data).flatten.length =
        (parts.leafBlocks.map Page.data).flatten ∧
    slice parts.bytes parts.header.docDataOffset.toNat
      (parts.header.numDocuments.toNat * docRecSize) = parts.docData ∧
    slice parts.bytes parts.header.indexBlockOffset.toNat
      (parts.indexBlocks.map Page.data).flatten.length =
        (parts.indexBlocks.map Page.data).flatten := by
  have layout := described.layout
  have size : HeadTermEntry.headTermEntrySize = 32 := rfl
  have headOffset : parts.header.headTermEntryOffset.toNat =
      (parts.sections.take 2).flatten.length := by
    simp [sections, layout.head, described.sidecarSize]
  have leafOffset : parts.header.leafTermBlockOffset.toNat =
      (parts.sections.take 3).flatten.length := by
    rw [layout.leaf, headOffset, described.headCount]
    simp [sections, heads_length, described.sidecarSize, size, Nat.add_assoc, -List.length_flatten]
  have docDataOffset : parts.header.docDataOffset.toNat =
      (parts.sections.take 4).flatten.length := by
    rw [layout.docData, leafOffset, described.leafCount]
    simp [sections, pages_length, Nat.add_assoc, -List.length_flatten]
  have indexOffset : parts.header.indexBlockOffset.toNat =
      (parts.sections.take 5).flatten.length := by
    rw [layout.index, docDataOffset]
    simp [sections, described.docCount, Nat.add_assoc, -List.length_flatten]
  exact ⟨slice_field (rfl : parts.sections[0]? = some _) rfl (by simp),
    slice_field (rfl : parts.sections[1]? = some _) (by simp [sections]) described.sidecarSize,
    slice_field (rfl : parts.sections[2]? = some _) headOffset.symm rfl,
    slice_field (rfl : parts.sections[3]? = some _) leafOffset.symm rfl,
    slice_field (rfl : parts.sections[4]? = some _) docDataOffset.symm described.docCount,
    slice_field (rfl : parts.sections[5]? = some _) indexOffset.symm rfl⟩

theorem parse_bytes : IndexFileHeader.parse parts.bytes = .ok parts.header :=
  IndexFileHeader.parse_of_stored described.current described.stored.1

/-- The header alone, as the file loaders read it. -/
theorem parse_front : IndexFileHeader.parse parts.header.toBytes = .ok parts.header :=
  IndexFileHeader.parse_of_stored described.current (slice_all parts.header.toBytes_length)

theorem validates : ∃ last,
    parts.header.validateLayout (some parts.bytes.length) = .ok last := by
  refine ⟨UInt64.ofNat parts.header.stop,
    IndexFileHeader.validateLayout_eq_ok.mpr ⟨described.layout, ?_, ?_⟩⟩
  · rw [UInt64.toNat_ofNat', Nat.mod_eq_of_lt described.layout.bounded]
  · intro length same
    rw [← Option.some.inj same, described.length_bytes]

/-- The blocks of a layout have 32-bit numbers. -/
theorem block_bounds :
    parts.indexBlocks.length < 2 ^ 32 ∧ parts.leafBlocks.length < 2 ^ 32 := by
  have counts := described.layout.counts
  push Not at counts
  have leaf := UInt64.le_iff_toNat_le.mp counts.2.2.1
  have index := UInt64.le_iff_toNat_le.mp counts.2.2.2.1
  have max : IndexFileHeader.u32Max.toNat = 2 ^ 32 - 1 := by decide
  rw [← described.indexCount, ← described.leafCount]
  omega

/-! ### Saving -/

omit described in
/-- A section is its items when it has as many as its count says. -/
theorem sectionBytes_eq {count : UInt64} {items : List Bytes}
    (counted : count = 0 → items.flatten = []) :
    sectionBytes count items = items.flatten := by
  unfold sectionBytes
  by_cases positive : count > 0
  · rw [if_pos positive]
  · rw [if_neg positive, counted (UInt64.le_zero_iff.mp (not_lt.mp positive))]

theorem notZeroed : parts.header.isZeroed = false := by
  have magic := described.current.magic
  rw [IndexFileHeader.isZeroed, List.all_eq_false]
  refine ⟨0x4D, ?_, by decide⟩
  rw [IndexFileHeader.toBytes, IndexFileHeader.fields, List.flatten_cons, magic]
  exact List.mem_append_left _ (by decide)

/-- `Save` of the parts writes their file. -/
theorem save_parts :
    save parts.header ⟨parts.heads, parts.leafBlocks, parts.indexBlocks, .cleared⟩ parts.docData
      parts.sidecar = .ok parts.bytes := by
  obtain ⟨last, validated⟩ : ∃ last, parts.header.validateLayout none = .ok last := by
    refine ⟨UInt64.ofNat parts.header.stop,
      IndexFileHeader.validateLayout_eq_ok.mpr ⟨described.layout, ?_, by simp⟩⟩
    rw [UInt64.toNat_ofNat', Nat.mod_eq_of_lt described.layout.bounded]
  have notZeroed := described.notZeroed
  have bounds := described.block_bounds
  have tables := described.noTables
  have copied : ∀ pages : List Page, pages.length < 2 ^ 32 → copyPoolBlocks pages = pages := by
    intro pages bound
    rw [copyPoolBlocks, Nat.mod_eq_of_lt bound, List.take_length]
  have small : parts.header.numDocuments.toNat * docRecSize < 2 ^ 64 := by
    have inside := described.records_inside
    have bounded := described.layout.bounded
    rw [described.length_bytes] at inside
    omega
  have zero : (0 : UInt64).toNat = 0 := rfl
  have empty : ∀ (count : UInt64) (items : Nat), count.toNat = items → count = 0 → items = 0 := by
    rintro count items same rfl
    exact same.symm
  have heads : sectionBytes parts.header.headTermEntryCount
      (parts.heads.map HeadTermEntry.toBytes) =
        (parts.heads.map HeadTermEntry.toBytes).flatten := by
    apply sectionBytes_eq
    intro none_
    rw [List.length_eq_zero_iff.mp (empty _ _ described.headCount none_)]
    rfl
  have leafs : sectionBytes parts.header.leafTermBlockCount (parts.leafBlocks.map Page.data) =
      (parts.leafBlocks.map Page.data).flatten := by
    apply sectionBytes_eq
    intro none_
    rw [List.length_eq_zero_iff.mp (empty _ _ described.leafCount none_)]
    rfl
  have records : sectionBytes parts.header.numDocuments [parts.docData] = parts.docData := by
    rw [sectionBytes_eq, List.flatten_singleton]
    intro none_
    have length := described.docCount
    rw [none_, zero, Nat.zero_mul] at length
    rw [List.length_eq_zero_iff.mp length]
    rfl
  have blocks : sectionBytes parts.header.indexBlockCount (parts.indexBlocks.map Page.data) =
      (parts.indexBlocks.map Page.data).flatten := by
    apply sectionBytes_eq
    intro none_
    rw [List.length_eq_zero_iff.mp (empty _ _ described.indexCount none_)]
    rfl
  have checked : checkedLayout parts.header = .ok last := by
    rw [checkedLayout, notZeroed]
    exact validated
  refine bind_ok.mpr ⟨last, checked, ?_⟩
  dsimp only
  rw [notZeroed, require_bind small, require_bind ⟨described.docCount, described.sidecarSize, by simp⟩,
    copied _ bounds.1, copied _ bounds.2,
    require_bind ⟨described.headCount.symm, described.leafCount.symm, described.indexCount.symm, by
      rw [tables.1]; rfl, by rw [tables.2]; rfl⟩,
    heads, leafs, records, blocks, described.noMphf, tables.1, tables.2]
  have nothing : ∀ items, sectionBytes 0 items = [] := fun items => if_neg (lt_irrefl _)
  simp only [nothing, List.append_nil, bytes, sections, List.flatten_cons, List.flatten_nil,
    List.append_assoc]
  rfl

end Described

namespace Agrees

variable (agrees : Agrees parts prefixes)

include agrees

theorem slice_head {index : Nat} {head : HeadTermEntry} (found : parts.heads[index]? = some head) :
    slice parts.bytes
      (parts.header.headTermEntryOffset.toNat + index * HeadTermEntry.headTermEntrySize)
      HeadTermEntry.headTermEntrySize = head.toBytes := by
  apply slice_item agrees.stored.2.2.1
  · intro item member
    obtain ⟨other, _, rfl⟩ := List.mem_map.mp member
    exact other.toBytes_length
  · rw [List.getElem?_map, found]
    rfl

theorem slice_leaf {index : Nat} {page : Page} (found : parts.leafBlocks[index]? = some page) :
    slice parts.bytes (parts.header.leafTermBlockOffset.toNat + index * pageSize) pageSize =
      page.data := by
  apply slice_item agrees.stored.2.2.2.1
  · intro item member
    obtain ⟨other, _, rfl⟩ := List.mem_map.mp member
    exact other.size
  · rw [List.getElem?_map, found]
    rfl

theorem slice_index {index : Nat} {page : Page} (found : parts.indexBlocks[index]? = some page) :
    slice parts.bytes (parts.header.indexBlockOffset.toNat + index * pageSize) pageSize =
      page.data := by
  apply slice_item agrees.stored.2.2.2.2.2
  · intro item member
    obtain ⟨other, _, rfl⟩ := List.mem_map.mp member
    exact other.size
  · rw [List.getElem?_map, found]
    rfl

omit agrees in
/-- A slice of full length lies inside the data. -/
theorem inside_of_slice {data piece : Bytes} {offset width : Nat} (positive : 0 < width)
    (stored : slice data offset width = piece) (size : piece.length = width) :
    offset + width ≤ data.length := by
  have length := congrArg List.length stored
  rw [slice_length, size] at length
  omega

omit agrees in
theorem pageAt_of_slice {data : Bytes} {offset : Nat} {page : Page}
    (stored : slice data offset pageSize = page.data) : pageAt data offset = .ok page := by
  have inside := inside_of_slice (by decide) stored page.size
  rw [pageAt, dif_pos inside]
  exact congrArg _ (Page.ext_data stored)

omit agrees in
theorem readPage_of_slice {data : Bytes} {offset : Nat} {page : Page}
    (stored : slice data offset pageSize = page.data) : readPage data offset = .ok page := by
  have inside := inside_of_slice (by decide) stored page.size
  rw [readPage, dif_pos inside]
  exact congrArg _ (Page.ext_data stored)

theorem headAt_bytes {index : Nat} {head : HeadTermEntry}
    (found : parts.heads[index]? = some head) :
    headAt parts.bytes
      (parts.header.headTermEntryOffset.toNat + index * HeadTermEntry.headTermEntrySize) =
        .ok head := by
  have stored := agrees.slice_head found
  have inside := inside_of_slice (by decide) stored head.toBytes_length
  rw [headAt, if_neg (not_lt.mpr inside), stored,
    HeadTermEntry.fromBytes_toBytes (agrees.headsFit head (List.mem_of_getElem? found))]

theorem readHead_bytes {index : Nat} {head : HeadTermEntry}
    (found : parts.heads[index]? = some head) :
    readHead parts.bytes
      (parts.header.headTermEntryOffset.toNat + index * HeadTermEntry.headTermEntrySize) =
        .ok head := by
  have stored := agrees.slice_head found
  have inside := inside_of_slice (by decide) stored head.toBytes_length
  have read : readExact parts.bytes
      (parts.header.headTermEntryOffset.toNat + index * HeadTermEntry.headTermEntrySize)
      HeadTermEntry.headTermEntrySize = .ok head.toBytes := by
    rw [readExact, require_bind inside, stored]
    rfl
  refine bind_ok.mpr ⟨_, read, ?_⟩
  rw [HeadTermEntry.fromBytes_toBytes (agrees.headsFit head (List.mem_of_getElem? found))]

theorem leafAt_bytes {index : Nat} {page : Page} (found : parts.leafBlocks[index]? = some page) :
    leafAt parts.bytes (parts.header.leafTermBlockOffset.toNat + index * pageSize) = .ok page := by
  refine bind_ok.mpr ⟨page, pageAt_of_slice (agrees.slice_leaf found), ?_⟩
  rw [require_bind (agrees.leafValid page (List.mem_of_getElem? found))]
  rfl

/-! ### Both readers -/

/-- `decode` gets the parts back. -/
theorem decode_bytes :
    decode parts.bytes = .ok ⟨parts.heads, parts.leafBlocks, parts.indexBlocks, parts.docData,
      parts.sidecar, prefixes, .default, [], []⟩ := by
  obtain ⟨last, validated⟩ := agrees.validates
  have stored := agrees.stored
  have front : indexFileHeaderSize + pathPrefixSidecarBytes ≤ parts.bytes.length :=
    inside_of_slice (by decide) stored.2.1 agrees.sidecarSize
  have heads : (List.range parts.heads.length).mapM (fun index => headAt parts.bytes
      (parts.header.headTermEntryOffset.toNat + index * HeadTermEntry.headTermEntrySize)) =
        .ok parts.heads := mapM_range_ok fun _ _ found => agrees.headAt_bytes found
  have leafs : (List.range parts.leafBlocks.length).mapM (fun index => leafAt parts.bytes
      (parts.header.leafTermBlockOffset.toNat + index * pageSize)) = .ok parts.leafBlocks :=
    mapM_range_ok fun _ _ found => agrees.leafAt_bytes found
  have blocks : (List.range parts.indexBlocks.length).mapM (fun index => pageAt parts.bytes
      (parts.header.indexBlockOffset.toNat + index * pageSize)) = .ok parts.indexBlocks :=
    mapM_range_ok fun _ _ found => pageAt_of_slice (agrees.slice_index found)
  rw [← agrees.headCount] at heads
  rw [← agrees.leafCount] at leafs
  rw [← agrees.indexCount] at blocks
  refine bind_ok.mpr ⟨_, agrees.parse_bytes, bind_ok.mpr ⟨last, validated, ?_⟩⟩
  rw [require_bind front, stored.2.1]
  refine bind_ok.mpr ⟨_, agrees.decodes, bind_ok.mpr ⟨_, heads, bind_ok.mpr ⟨_, leafs, ?_⟩⟩⟩
  rw [require_bind agrees.records_inside, stored.2.2.2.2.1]
  refine bind_ok.mpr ⟨_, blocks, ?_⟩
  rw [decodeTermMphf, if_pos agrees.noMphf]
  rfl

omit agrees in
/-- The blocks of a section of the file, seen through a pool with a slot. -/
theorem fileBlocks_eq {offset slotCount : Nat} {pages : List Page}
    (bound : pages.length < 2 ^ 32) (slots : 0 < pages.length → 0 < slotCount)
    (stored : ∀ index page, pages[index]? = some page →
      slice parts.bytes (offset + index * pageSize) pageSize = page.data) :
    fileBlocks parts.bytes offset pages.length slotCount = memoryBlocks pages := by
  funext blockId
  unfold fileBlocks memoryBlocks
  rw [Nat.mod_eq_of_lt bound]
  by_cases inside : blockId < pages.length
  · have found : pages[blockId]? = some pages[blockId] := List.getElem?_eq_getElem inside
    rw [if_pos ⟨inside, slots (by omega)⟩, if_pos inside,
      readPage_of_slice (stored blockId _ found), found]
    rfl
  · rw [if_neg fun both => inside both.1, if_neg inside]

theorem loadBytes_bytes : loadBytes parts.bytes = .ok (loaded parts prefixes) := by
  refine bind_ok.mpr ⟨_, agrees.parse_bytes, bind_ok.mpr ⟨_, agrees.decode_bytes, ?_⟩⟩
  dsimp only
  rw [if_neg (by simp), Nat.mod_eq_of_lt agrees.block_bounds.2]
  rfl

variable {files : FileSystem} {path : Str}

theorem loadFileTables_bytes (present : files path = some parts.bytes) :
    loadFileTables files path = .ok (parts.header, parts.heads, parts.docData) := by
  obtain ⟨last, validated⟩ := agrees.validates
  have stored := agrees.stored
  have opened : openFile files path = .ok parts.bytes := by rw [openFile, present]
  have front : readExact parts.bytes 0 indexFileHeaderSize = .ok parts.header.toBytes := by
    rw [readExact, require_bind (inside_of_slice (by decide) stored.1 parts.header.toBytes_length),
      stored.1]
    rfl
  have heads : (List.range parts.heads.length).mapM (fun index => readHead parts.bytes
      (parts.header.headTermEntryOffset.toNat + index * HeadTermEntry.headTermEntrySize)) =
        .ok parts.heads := mapM_range_ok fun _ _ found => agrees.readHead_bytes found
  rw [← agrees.headCount] at heads
  have records : readExact parts.bytes parts.header.docDataOffset.toNat
      (parts.header.numDocuments.toNat * docRecSize) = .ok parts.docData := by
    rw [readExact, require_bind agrees.records_inside, stored.2.2.2.2.1]
    rfl
  exact bind_ok.mpr ⟨_, opened, bind_ok.mpr ⟨_, front, bind_ok.mpr ⟨_, agrees.parse_front,
    bind_ok.mpr ⟨_, validated, bind_ok.mpr ⟨_, heads, bind_ok.mpr ⟨_, records, rfl⟩⟩⟩⟩⟩⟩

theorem loadPathPrefixSidecar_bytes (present : files path = some parts.bytes) :
    loadPathPrefixSidecar files path = .ok (parts.sidecar, prefixes) := by
  have stored := agrees.stored.2.1
  have opened : openFile files path = .ok parts.bytes := by rw [openFile, present]
  have read : readExact parts.bytes indexFileHeaderSize pathPrefixSidecarBytes =
      .ok parts.sidecar := by
    rw [readExact, require_bind (inside_of_slice (by decide) stored agrees.sidecarSize), stored]
    rfl
  exact bind_ok.mpr ⟨_, opened, bind_ok.mpr ⟨_, read, bind_ok.mpr ⟨_, agrees.decodes, rfl⟩⟩⟩

omit agrees in
/-- Filling the first slots of a pool from a section of the file. -/
theorem initPool_ok {file : Bytes} {offset blockCount slotCount : Nat}
    (inside : offset + blockCount * pageSize ≤ file.length) :
    initPool file offset blockCount slotCount =
      .ok (fileBlocks file offset blockCount (min slotCount blockCount)) := by
  have fewer : min slotCount blockCount * pageSize ≤ blockCount * pageSize :=
    Nat.mul_le_mul_right _ (Nat.min_le_right _ _)
  rw [initPool, require_bind (by intro _; omega)]
  rfl

/-- `LoadIndex` gets the parts back, when the leaf cache has a page. -/
theorem loadFile_bytes (present : files path = some parts.bytes) {leafTermCacheBytes : Nat}
    (cache : pageSize ≤ leafTermCacheBytes) :
    loadFile files path leafTermCacheBytes = .ok (loaded parts prefixes) := by
  have opened : openFile files path = .ok parts.bytes := by rw [openFile, present]
  have bounds := agrees.block_bounds
  have sections := agrees.sections_inside
  have leafSlots : 0 < leafTermCacheBytes / pageSize := Nat.div_pos cache (by decide)
  have indexSlots : 0 < blockCacheBytes / pageSize := by decide
  have noMphf : loadTermMphf files path parts.header = .ok (.default, [], []) := by
    rw [loadTermMphf, if_pos agrees.noMphf]
  refine bind_ok.mpr ⟨_, agrees.loadFileTables_bytes present,
    bind_ok.mpr ⟨_, agrees.loadPathPrefixSidecar_bytes present, bind_ok.mpr ⟨_, noMphf,
      bind_ok.mpr ⟨_, opened, bind_ok.mpr ⟨_, initPool_ok sections.2, bind_ok.mpr ⟨_,
        initPool_ok sections.1, ?_⟩⟩⟩⟩⟩⟩
  rw [agrees.noMphf, if_neg (lt_irrefl _), agrees.indexCount, agrees.leafCount,
    fileBlocks_eq bounds.1 (by omega) fun _ _ found => agrees.slice_index found,
    fileBlocks_eq bounds.2 (by omega) fun _ _ found => agrees.slice_leaf found]
  rfl

end Agrees

end Parts

end FileParts

end MoonShot.Serializer
