import MoonShot.Index.BuildThenRead
import MoonShot.Serializer.IndexFile

/-!
What an index is built into (`IndexContext::BuildIndexData`).

Owns the vector index as the context fills it, the header with its offsets, and
the result of `BuildIndexData`. For a store whose ids fit 32 bits and whose pages
can be numbered, the parts agree with the header, so the file that `Save` writes
is accepted and gives back the same parts.

The search in the vector graph compares floating-point scores. It is a value of
`GraphSearch`: any function that answers from the nodes of the graph, and that
answers at all when there is one.
-/

namespace MoonShot.Context

open MoonShot.Lib
open MoonShot.Postings
open MoonShot.Format
open MoonShot.Table
open MoonShot.Serializer
open MoonShot.Index

/-! ## The vector index -/

/-- `FreshDiskAnnVectorIndex`: the documents of its nodes in the order they were
added, the link slots taken, and the records that hold the vectors. The links
themselves follow from these. -/
structure VectorIndex where
  docIds : List UInt32
  linkSlots : Nat
  docData : Bytes
  firstDocId : UInt64

namespace VectorIndex

def new : VectorIndex := ⟨[], 0, [], 0⟩

/-- `Clear`; the first document id stays. -/
def clear (index : VectorIndex) : VectorIndex :=
  { index with docIds := [], linkSlots := 0, docData := [] }

def setDocData (index : VectorIndex) (docData : Bytes) (firstDocId : UInt64) : VectorIndex :=
  { index with docData := docData, firstDocId := firstDocId }

/-- The loop of `RandomLevel`, which stops at level 16. -/
def randomLevelLoop : (turns : Nat) → (hash : UInt64) → Nat
  | 0, _ => 0
  | turns + 1, hash => if hash &&& 3 = 0 then randomLevelLoop turns (hash >>> 2) + 1 else 0

/-- `RandomLevel` -/
def randomLevel (docId : UInt64) : Nat :=
  randomLevelLoop 16 (docId * 11400714819323198485 + 0x9e3779b97f4a7c15)

/-- `m_MaxNeighbors` of the indexes a context makes. -/
def maxNeighbors : Nat := 32

/-- `Add`: `AddNode` with `AllocateLinks`. -/
def add (index : VectorIndex) (docId : UInt64) : VectorIndex :=
  let slotCount := (randomLevel docId + 1) * maxNeighbors
  if docId.toNat > 0xFFFFFFFF ∨ index.docIds.length ≥ 0xFFFFFFFF then index
  else if slotCount > 0xFFFFFFFF ∨ index.linkSlots > 0xFFFFFFFF - slotCount then index
  else
    { index with
      docIds := index.docIds ++ [docId.toUInt32]
      linkSlots := index.linkSlots + slotCount }

theorem randomLevelLoop_le (turns : Nat) (hash : UInt64) : randomLevelLoop turns hash ≤ turns := by
  induction turns generalizing hash with
  | zero => exact Nat.le_refl 0
  | succ turns inductionHypothesis =>
      rw [randomLevelLoop]
      split
      · exact Nat.succ_le_succ (inductionHypothesis _)
      · exact Nat.zero_le _

/-- The first document that fits becomes a node. -/
theorem add_ne_nil (index : VectorIndex) {docId : UInt64} (fits : docId.toNat ≤ 0xFFFFFFFF)
    (fresh : index.docIds = [] → index.linkSlots = 0) : (index.add docId).docIds ≠ [] := by
  have level := randomLevelLoop_le 16 (docId * 11400714819323198485 + 0x9e3779b97f4a7c15)
  change randomLevel docId ≤ 16 at level
  have neighbors : maxNeighbors = 32 := rfl
  unfold add
  dsimp only
  rw [neighbors]
  by_cases empty : index.docIds = []
  · have slots := fresh empty
    rw [if_neg (by rw [empty, List.length_nil]; omega), if_neg (by omega)]
    simp
  · split
    · exact empty
    · split
      · exact empty
      · simp

end VectorIndex

/-- `VectorSearchResult` -/
structure VectorSearchResult where
  docId : UInt64
  score : F32
deriving DecidableEq

/-- The search in a graph with at least one node, for a query of the dimension
of the index. -/
structure GraphSearch where
  search : VectorIndex → (query : List F32) → (topK efSearch : Nat) → List VectorSearchResult
  answersNodes : ∀ index query topK efSearch, ∀ result ∈ search index query topK efSearch,
    ∃ node ∈ index.docIds, result.docId = node.toUInt64
  answers : ∀ index query topK efSearch, index.docIds ≠ [] → 0 < topK →
    search index query topK efSearch ≠ []

/-- `Search` -/
def VectorIndex.search (index : VectorIndex) (graph : GraphSearch) (query : List F32)
    (topK efSearch : Nat) : List VectorSearchResult :=
  if query.length ≠ docVectorDim ∨ index.docIds = [] then []
  else graph.search index query topK efSearch

/-! ## `BuildIndexData` -/

/-- `BuiltIndexData` -/
structure BuiltIndexData where
  header : IndexFileHeader
  memory : MemoryTable
  vectorIndex : VectorIndex
  docData : Bytes
  sidecar : Bytes
  prefixes : List Str

/-- The header of `BuildIndexData`; the hash tables of `BuildBlocks` are empty. -/
def builtHeader (float : FloatOps) (store : PostingStore) : IndexFileHeader :=
  let blocks := buildBlocks float store
  let documentCount := storeDocDataRecordCount store
  let headOffset := indexFileHeaderSize + pathPrefixSidecarBytes
  let leafOffset := headOffset + blocks.headTermEntries.length * 32
  let docDataOffset := leafOffset + blocks.leafTermBlocks.length * pageSize
  let indexOffset := docDataOffset + (encodeDocData float store).1.length
  let mphfHeaderCount :=
    if blocks.termMphfDisplacements ≠ [] ∧ ¬ blocks.termMphfEntryPages.isEmpty then 1 else 0
  let mphfHeaderOffset := indexOffset + blocks.indexBlocks.length * pageSize
  let mphfDisplacementOffset := mphfHeaderOffset + mphfHeaderCount * termMphfHeaderSize
  let mphfEntryOffset := mphfDisplacementOffset + blocks.termMphfDisplacements.length * 4
  { magic := indexFileMagic
    magicSize := indexFileMagic_length
    version := indexFormatVersion
    avgDocLength :=
      if documentCount = 0 then float.one else float.averageLength store.totalTerms documentCount
    numDocuments := documentCount
    numTerms := blocks.totalTerms
    headTermEntryOffset := UInt64.ofNat headOffset
    headTermEntryCount := UInt64.ofNat blocks.headTermEntries.length
    leafTermBlockOffset := UInt64.ofNat leafOffset
    leafTermBlockCount := UInt64.ofNat blocks.leafTermBlocks.length
    docDataOffset := UInt64.ofNat docDataOffset
    indexBlockOffset := UInt64.ofNat indexOffset
    indexBlockCount := UInt64.ofNat blocks.indexBlocks.length
    termMphfHeaderOffset := UInt64.ofNat mphfHeaderOffset
    termMphfHeaderCount := UInt64.ofNat mphfHeaderCount
    termMphfDisplacementOffset := UInt64.ofNat mphfDisplacementOffset
    termMphfDisplacementCount := UInt64.ofNat blocks.termMphfDisplacements.length
    termMphfEntryOffset := UInt64.ofNat mphfEntryOffset
    termMphfEntryPageCount := UInt64.ofNat blocks.termMphfEntryPages.length }

/-- `BuildIndexData` -/
def buildIndexData (float : FloatOps) (store : PostingStore) (buildVectorIndex : Bool) :
    BuiltIndexData :=
  let blocks := buildBlocks float store
  let (docData, sidecar, prefixes) := encodeDocData float store
  let header := builtHeader float store
  let mphf :=
    if header.termMphfHeaderCount > 0 then
      setTermMphf blocks.termMphfHeader blocks.termMphfDisplacements blocks.termMphfEntryPages
    else .cleared
  let vectorIndex := VectorIndex.new.setDocData docData (storeFirstDocId store)
  { header := header
    memory := ⟨blocks.headTermEntries, blocks.leafTermBlocks, blocks.indexBlocks, mphf⟩
    vectorIndex :=
      if buildVectorIndex then
        (store.docStats.keys.filter fun docId => (store.docVectors.get? docId).isSome).foldl
          VectorIndex.add vectorIndex
      else vectorIndex
    docData := docData
    sidecar := sidecar
    prefixes := prefixes }

/-- The parts of the file of a store. -/
def builtParts (float : FloatOps) (store : PostingStore) : FileParts :=
  let data := buildIndexData float store false
  ⟨data.header, data.sidecar, data.memory.headTermEntries, data.memory.leafTermBlocks, data.docData,
    data.memory.indexBlocks⟩

/-- A store whose index can be written to a file and read back. -/
structure Storable (float : FloatOps) (store : PostingStore) : Prop where
  addressable : Addressable float store
  nonempty : store.docStats.keys ≠ []
  fit : DocIdsFit store
  directories : ∀ document ∈ store.docStats.entries,
    (splitPathForSidecar document.2.path).1.len ≤ 65535

/-- At most `2 ^ 32` records. -/
theorem recordCount_le {store : PostingStore} (fit : DocIdsFit store) :
    (storeDocDataRecordCount store).toNat ≤ 2 ^ 32 := by
  by_cases nonempty : store.docStats.keys = []
  · have empty : storeDocDataRecordCount store = 0 := by
      rw [storeDocDataRecordCount, nonempty]
      rfl
    rw [empty]
    decide
  · obtain ⟨last, member, _, count, _⟩ := storeRange nonempty fit
    have bound := fit last member
    omega

theorem recordCount_pos {store : PostingStore} (nonempty : store.docStats.keys ≠ [])
    (fit : DocIdsFit store) : 0 < (storeDocDataRecordCount store).toNat := by
  obtain ⟨last, _, _, count, _⟩ := storeRange nonempty fit
  omega

/-- The records fit a `Vec`, which has at most `isize::MAX` bytes. -/
def RecordsAllocate (store : PostingStore) : Prop :=
  (storeDocDataRecordCount store).toNat * docRecSize < 2 ^ 63

instance (store : PostingStore) : Decidable (RecordsAllocate store) :=
  inferInstanceAs (Decidable (_ < _))

theorem toNat_ofNat_of_lt (value : Nat) (bound : value < 2 ^ 64) :
    (UInt64.ofNat value).toNat = value := by
  rw [UInt64.toNat_ofNat', Nat.mod_eq_of_lt bound]

/-- A count of 32 bits passes the check. -/
theorem ofNat_le_u32Max {count : Nat} (bound : count < 2 ^ 32) :
    ¬ UInt64.ofNat count > IndexFileHeader.u32Max := by
  have most : IndexFileHeader.u32Max.toNat = 2 ^ 32 - 1 := by decide
  intro exceeds
  have := UInt64.lt_iff_toNat_lt.mp exceeds
  rw [toNat_ofNat_of_lt count (by omega), most] at this
  omega

/-- The header of a file without hash tables, by the sizes of its sections. -/
def plainHeader (avgDocLength : F32) (numDocuments numTerms : UInt64)
    (heads leafs recordBytes blocks : Nat) : IndexFileHeader where
  magic := indexFileMagic
  magicSize := indexFileMagic_length
  version := indexFormatVersion
  avgDocLength := avgDocLength
  numDocuments := numDocuments
  numTerms := numTerms
  headTermEntryOffset := UInt64.ofNat (indexFileHeaderSize + pathPrefixSidecarBytes)
  headTermEntryCount := UInt64.ofNat heads
  leafTermBlockOffset := UInt64.ofNat (indexFileHeaderSize + pathPrefixSidecarBytes + heads * 32)
  leafTermBlockCount := UInt64.ofNat leafs
  docDataOffset := UInt64.ofNat
    (indexFileHeaderSize + pathPrefixSidecarBytes + heads * 32 + leafs * pageSize)
  indexBlockOffset := UInt64.ofNat
    (indexFileHeaderSize + pathPrefixSidecarBytes + heads * 32 + leafs * pageSize + recordBytes)
  indexBlockCount := UInt64.ofNat blocks
  termMphfHeaderOffset := UInt64.ofNat (indexFileHeaderSize + pathPrefixSidecarBytes +
    heads * 32 + leafs * pageSize + recordBytes + blocks * pageSize)
  termMphfHeaderCount := 0
  termMphfDisplacementOffset := UInt64.ofNat (indexFileHeaderSize + pathPrefixSidecarBytes +
    heads * 32 + leafs * pageSize + recordBytes + blocks * pageSize)
  termMphfDisplacementCount := 0
  termMphfEntryOffset := UInt64.ofNat (indexFileHeaderSize + pathPrefixSidecarBytes +
    heads * 32 + leafs * pageSize + recordBytes + blocks * pageSize)
  termMphfEntryPageCount := 0

/-- The unchecked sums of the writers stay in range, and are the layout. -/
theorem plainHeader_layout (avgDocLength : F32) (numDocuments numTerms : UInt64)
    {heads leafs recordBytes blocks : Nat} (headBound : heads < 2 ^ 32) (leafBound : leafs < 2 ^ 32)
    (records : recordBytes = numDocuments.toNat * docRecSize) (recordBound : recordBytes < 2 ^ 63)
    (blockBound : blocks < 2 ^ 32) :
    (plainHeader avgDocLength numDocuments numTerms heads leafs recordBytes blocks).Layout := by
  have sizes : indexFileHeaderSize = 136 ∧ pathPrefixSidecarBytes = 81920 ∧ pageSize = 4096 := by
    decide
  have leafBytes : leafs * pageSize < 2 ^ 44 := by
    rw [sizes.2.2]
    omega
  have blockBytes : blocks * pageSize < 2 ^ 44 := by
    rw [sizes.2.2]
    omega
  have head := toNat_ofNat_of_lt (indexFileHeaderSize + pathPrefixSidecarBytes) (by omega)
  have leaf := toNat_ofNat_of_lt (indexFileHeaderSize + pathPrefixSidecarBytes + heads * 32)
    (by omega)
  have docData := toNat_ofNat_of_lt
    (indexFileHeaderSize + pathPrefixSidecarBytes + heads * 32 + leafs * pageSize) (by omega)
  have index := toNat_ofNat_of_lt
    (indexFileHeaderSize + pathPrefixSidecarBytes + heads * 32 + leafs * pageSize + recordBytes)
    (by omega)
  have last := toNat_ofNat_of_lt (indexFileHeaderSize + pathPrefixSidecarBytes + heads * 32 +
    leafs * pageSize + recordBytes + blocks * pageSize) (by omega)
  constructor
  · have nothing : ∀ most : UInt64, ¬ 0 > most := fun most => not_lt.mpr (Nat.zero_le _)
    rintro (many | many | many | many | many | many | none_ | one)
    · exact nothing _ many
    · exact ofNat_le_u32Max headBound many
    · exact ofNat_le_u32Max leafBound many
    · exact ofNat_le_u32Max blockBound many
    · exact nothing _ many
    · exact nothing _ many
    · rcases none_.2 with some | some
      · exact some rfl
      · exact some rfl
    · exact absurd (congrArg UInt64.toNat one.1) (by change ¬ 0 = 1; decide)
  · exact head
  · show (UInt64.ofNat _).toNat = (UInt64.ofNat _).toNat + (UInt64.ofNat _).toNat * 32
    rw [leaf, head, toNat_ofNat_of_lt heads (by omega)]
  · show (UInt64.ofNat _).toNat = (UInt64.ofNat _).toNat + (UInt64.ofNat _).toNat * pageSize
    rw [docData, leaf, toNat_ofNat_of_lt leafs (by omega)]
  · show (UInt64.ofNat _).toNat = (UInt64.ofNat _).toNat + numDocuments.toNat * docRecSize
    rw [index, docData, records]
  · show (UInt64.ofNat _).toNat = (UInt64.ofNat _).toNat + (UInt64.ofNat _).toNat * pageSize
    rw [last, index, toNat_ofNat_of_lt blocks (by omega)]
  · rfl
  · rfl
  · show (UInt64.ofNat _).toNat + (0 : UInt64).toNat * pageSize < 2 ^ 64
    rw [UInt64.toNat_zero, Nat.zero_mul, Nat.add_zero]
    exact UInt64.toNat_lt _

/-- `BuildBlocks` makes no hash tables. -/
theorem builtHeader_eq (float : FloatOps) (store : PostingStore) :
    builtHeader float store =
      plainHeader (builtHeader float store).avgDocLength (storeDocDataRecordCount store)
        (buildBlocks float store).totalTerms (buildBlocks float store).headTermEntries.length
        (buildBlocks float store).leafTermBlocks.length (encodeDocData float store).1.length
        (buildBlocks float store).indexBlocks.length := by
  have noDisplacements : (buildBlocks float store).termMphfDisplacements = [] := rfl
  have noPages : (buildBlocks float store).termMphfEntryPages = [] := rfl
  simp only [builtHeader, plainHeader, noDisplacements, noPages, ne_eq, not_true_eq_false,
    false_and, if_false, List.length_nil, Nat.zero_mul, Nat.add_zero]
  rfl

/-- The header of a store describes the parts of its file. -/
theorem builtParts_described {float : FloatOps} {store : PostingStore}
    (addressable : Addressable float store) (allocate : RecordsAllocate store) :
    (builtParts float store).Described := by
  have indexBound := addressable.indexBlocks
  have leafBound := addressable.leafBlocks
  have headBound := (buildBlocks_wellFormed float store).1
  have docBytes := encodeDocData_length float store
  have layout : (builtHeader float store).Layout := by
    rw [builtHeader_eq]
    refine plainHeader_layout _ _ _ (by omega) leafBound docBytes ?_ indexBound
    rw [docBytes]
    exact allocate
  exact
    { current := ⟨rfl, rfl⟩
      layout := layout
      headCount := toNat_ofNat_of_lt (buildBlocks float store).headTermEntries.length (by omega)
      leafCount := toNat_ofNat_of_lt (buildBlocks float store).leafTermBlocks.length (by omega)
      docCount := docBytes
      indexCount := toNat_ofNat_of_lt (buildBlocks float store).indexBlocks.length (by omega)
      noMphf := rfl
      sidecarSize := encodePathPrefixSidecar_length (encodeRecords_held float store).total }

theorem recordsAllocate_of_fit {store : PostingStore} (fit : DocIdsFit store) :
    RecordsAllocate store := by
  have records := recordCount_le fit
  have size : docRecSize = 256 := rfl
  rw [RecordsAllocate, size]
  omega

/-- The parts of a store agree with their header. -/
theorem builtParts_agrees {float : FloatOps} {store : PostingStore}
    (storable : Storable float store) :
    (builtParts float store).Agrees (encodeDocData float store).2.2 :=
  have wellFormed := buildBlocks_wellFormed float store
  { builtParts_described storable.addressable (recordsAllocate_of_fit storable.fit) with
    decodes := decode_encodePathPrefixSidecar (encodeRecords_fits float storable.directories).sidecar
    headsFit := wellFormed.2.1
    leafValid := wellFormed.2.2 }

end MoonShot.Context
