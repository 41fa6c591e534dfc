import MoonShot.Context.Saved
import MoonShot.Reader.Cached

/-!
The size of the leaf cache (`SetLeafTermCacheBytes`), and what a loaded index answers.

Owns the table of `LoadIndex` with its two pools, for any file and any size: its load fails
where the load of a table without pools fails, and when the leaf pool has a slot one caller gets
the answers of that table. The size decides only whether the leaf pool has a slot. Without a slot
no key is found.

Does not own the pools themselves: see `MoonShot.Cache.Alone`.
-/

namespace MoonShot.Context

open MoonShot.Lib
open MoonShot.Postings
open MoonShot.Format
open MoonShot.Table
open MoonShot.Cache
open MoonShot.Reader
open MoonShot.Serializer
open MoonShot.Index

/-! ## Loading with pools -/

/-- The blocks of a section of a file. -/
def sectionPages (file : Bytes) (baseOffset block : Nat) : Page :=
  (readPage file (baseOffset + block * pageSize)).toOption.getD Page.zero

/-- `Init` of a pool: the first slots are filled at once. -/
def initFilePool (file : Bytes) (baseOffset blockCount slotCount : Nat) :
    Except RustBladeError FilePool := do
  let slots := min slotCount blockCount
  require .io (0 < slots → baseOffset + slots * pageSize ≤ file.length)
  return .init (sectionPages file baseOffset) blockCount slotCount

/-- The table of `LoadIndex`. -/
def loadCachedTable (files : FileSystem) (path : Str) (leafTermCacheBytes : Nat) :
    Except RustBladeError CachedTable := do
  let (header, head, _) ← loadFileTables files path
  let _ ← loadPathPrefixSidecar files path
  let (mphfHeader, displacements, entryPages) ← loadTermMphf files path header
  let file ← openFile files path
  let indexPool ← initFilePool file header.indexBlockOffset.toNat header.indexBlockCount.toNat
    (min header.indexBlockCount.toNat (blockCacheBytes / pageSize))
  let leafPool ← initFilePool file header.leafTermBlockOffset.toNat
    header.leafTermBlockCount.toNat
    (min header.leafTermBlockCount.toNat (leafTermCacheBytes / pageSize))
  let mphf :=
    if header.termMphfHeaderCount > 0 then setTermMphf mphfHeader displacements entryPages
    else .cleared
  return ⟨head, leafPool, indexPool, mphf⟩

/-- The blocks of a section, each read from the file whenever it is asked for. -/
def sectionBlocks (file : Bytes) (baseOffset blockCount : Nat) : BlockSource := fun block =>
  if block < blockCount then (readPage file (baseOffset + block * pageSize)).toOption else none

/-- What `LoadIndex` is without its pools: the table reads its blocks from the file. -/
def loadUncached (files : FileSystem) (path : Str) : Except RustBladeError LoadedIndex := do
  let (header, head, docData) ← loadFileTables files path
  let (sidecar, prefixes) ← loadPathPrefixSidecar files path
  let (mphfHeader, displacements, entryPages) ← loadTermMphf files path header
  let file ← openFile files path
  let indexBlocks := sectionBlocks file header.indexBlockOffset.toNat header.indexBlockCount.toNat
  let leafBlocks := sectionBlocks file header.leafTermBlockOffset.toNat
    header.leafTermBlockCount.toNat
  let mphf :=
    if header.termMphfHeaderCount > 0 then setTermMphf mphfHeader displacements entryPages
    else .cleared
  return ⟨header, ⟨head, leafBlocks, indexBlocks, mphf⟩, header.leafTermBlockCount.toNat, docData,
    sidecar, prefixes⟩

/-- `SetLeafTermCacheBytes` of one index: zero stands for the default. -/
def LocalIndex.setLeafTermCacheBytes (index : LocalIndex) (bytes : UInt64) : LocalIndex :=
  { index with leafTermCacheBytes := if bytes > 0 then bytes.toNat else blockCacheBytes }

/-- `SetLeafTermCacheBytes` -/
def IndexContext.setLeafTermCacheBytes (context : IndexContext) (bytes : UInt64) : IndexContext where
  base := context.base.setLeafTermCacheBytes bytes
  delta := context.delta.map fun delta =>
    { index := delta.index.setLeafTermCacheBytes bytes
      built := delta.built
      loaded := delta.loaded
      records := delta.records
      unbuilt := delta.unbuilt }

/-- The table `LoadIndex` gives the context. -/
def IndexContext.loadTable (files : FileSystem) (context : IndexContext) (path : Str) :
    Except RustBladeError CachedTable :=
  loadCachedTable files path context.base.leafTermCacheBytes

section Files

variable {files : FileSystem} {path : Str} {cacheBytes : Nat}

/-- A header that was loaded lies over sections inside its file. -/
theorem loadFileTables_layout {header : IndexFileHeader} {head : List HeadTermEntry}
    {docData : Bytes} (read : loadFileTables files path = .ok (header, head, docData)) :
    ∃ file, openFile files path = .ok file ∧ header.Layout ∧ header.stop ≤ file.length := by
  unfold loadFileTables at read
  obtain ⟨file, opened, rest⟩ := bind_ok.mp read
  obtain ⟨_, _, rest⟩ := bind_ok.mp rest
  obtain ⟨parsed, _, rest⟩ := bind_ok.mp rest
  obtain ⟨_, validated, rest⟩ := bind_ok.mp rest
  obtain ⟨_, _, rest⟩ := bind_ok.mp rest
  obtain ⟨_, _, rest⟩ := bind_ok.mp rest
  cases rest
  have layout := IndexFileHeader.validateLayout_eq_ok.mp validated
  exact ⟨file, opened, layout.1, layout.2.2 _ rfl⟩

/-- Both block sections of a layout end before it does. -/
theorem layout_blocks {header : IndexFileHeader} (layout : header.Layout) :
    header.leafTermBlockOffset.toNat + header.leafTermBlockCount.toNat * pageSize ≤ header.stop ∧
      header.indexBlockOffset.toNat + header.indexBlockCount.toNat * pageSize ≤ header.stop := by
  have docData := layout.docData
  have index := layout.index
  have mphfHeader := layout.mphfHeader
  have displacement := layout.displacement
  have entries := layout.entries
  unfold IndexFileHeader.stop
  omega

/-- A pool over a section inside its file gives what the plain blocks give. -/
theorem init_blocks {file : Bytes} {baseOffset blockCount : Nat}
    (inside : baseOffset + blockCount * pageSize ≤ file.length) (slotCount : Nat) :
    (FilePool.init (sectionPages file baseOffset) blockCount slotCount).blocks =
      fileBlocks file baseOffset blockCount (min slotCount blockCount) := by
  funext block
  show (if block < blockCount ∧ 0 < min slotCount blockCount then
    some (sectionPages file baseOffset block) else none) = _
  unfold fileBlocks
  by_cases present : block < blockCount ∧ 0 < min slotCount blockCount
  · have fits : baseOffset + block * pageSize + pageSize ≤ file.length := by
      have below := Nat.mul_le_mul_right pageSize (Nat.succ_le_of_lt present.1)
      rw [Nat.succ_mul] at below
      omega
    rw [if_pos present, if_pos present]
    unfold sectionPages readPage
    rw [dif_pos fits]
    rfl
  · rw [if_neg present, if_neg present]

theorem initFilePool_eq {file : Bytes} {baseOffset blockCount : Nat}
    (inside : baseOffset + blockCount * pageSize ≤ file.length) (slotCount : Nat) :
    initFilePool file baseOffset blockCount slotCount =
        .ok (.init (sectionPages file baseOffset) blockCount slotCount) ∧
      initPool file baseOffset blockCount slotCount =
        .ok (FilePool.init (sectionPages file baseOffset) blockCount slotCount).blocks := by
  rw [init_blocks inside]
  have fewer : min slotCount blockCount * pageSize ≤ blockCount * pageSize :=
    Nat.mul_le_mul_right _ (Nat.min_le_right _ _)
  refine ⟨?_, FileParts.Agrees.initPool_ok inside⟩
  unfold initFilePool
  dsimp only
  rw [require_bind (by intro _; omega)]
  rfl

/-- The table with pools stands for the table without them: both loads give the same table,
or fail in the same way. -/
theorem loadCachedTable_plain (files : FileSystem) (path : Str) (cacheBytes : Nat) :
    (loadCachedTable files path cacheBytes).map CachedTable.plain =
      (loadFile files path cacheBytes).map LoadedIndex.table := by
  unfold loadCachedTable loadFile
  cases tables : loadFileTables files path with
  | error failure => rfl
  | ok front =>
      obtain ⟨header, head, docData⟩ := front
      obtain ⟨file, opened, layout, stop⟩ := loadFileTables_layout tables
      have blocks := layout_blocks layout
      have index := initFilePool_eq (blocks.2.trans stop)
        (min header.indexBlockCount.toNat (blockCacheBytes / pageSize))
      have leaf := initFilePool_eq (blocks.1.trans stop)
        (min header.leafTermBlockCount.toNat (cacheBytes / pageSize))
      cases loadPathPrefixSidecar files path with
      | error failure => rfl
      | ok paths =>
          cases mphf : loadTermMphf files path header with
          | error failure =>
              show Except.map _ (loadTermMphf files path header >>= _) =
                Except.map _ (loadTermMphf files path header >>= _)
              rw [mphf]
              rfl
          | ok mphf =>
              simp only [Except.bind, bind, mphf, opened, index.1, index.2, leaf.1, leaf.2]
              rfl

/-- No handle is alive behind a load. -/
theorem loadCachedTable_idle {table : CachedTable}
    (read : loadCachedTable files path cacheBytes = .ok table) : table.Idle := by
  have pools : ∀ {file : Bytes} {baseOffset blockCount slotCount : Nat} {pool : FilePool},
      initFilePool file baseOffset blockCount slotCount = .ok pool → pool.Idle := by
    intro file baseOffset blockCount slotCount pool made
    unfold initFilePool at made
    obtain ⟨_, _, rest⟩ := bind_ok.mp made
    cases rest
    exact FilePool.idle_init _ _ _
  unfold loadCachedTable at read
  obtain ⟨_, _, rest⟩ := bind_ok.mp read
  obtain ⟨_, _, rest⟩ := bind_ok.mp rest
  obtain ⟨_, _, rest⟩ := bind_ok.mp rest
  obtain ⟨_, _, rest⟩ := bind_ok.mp rest
  obtain ⟨_, index, rest⟩ := bind_ok.mp rest
  obtain ⟨_, leaf, rest⟩ := bind_ok.mp rest
  cases rest
  exact ⟨pools leaf, pools index⟩

/-- One caller gets the answers of the plain table from the pools, whatever their size. -/
theorem loadCachedTable_plainAnswers {table : CachedTable}
    (read : loadCachedTable files path cacheBytes = .ok table) :
    ∃ loaded, loadFile files path cacheBytes = .ok loaded ∧ loaded.table = table.plain ∧
      ∀ numDocuments averagePositive accesses,
        cachedAnswers numDocuments averagePositive table accesses =
          plainAnswers numDocuments averagePositive loaded.table accesses := by
  have same := loadCachedTable_plain files path cacheBytes
  rw [read] at same
  cases plain : loadFile files path cacheBytes with
  | error failure =>
      rw [plain] at same
      cases same
  | ok loaded =>
      rw [plain] at same
      have tables : loaded.table = table.plain := (Except.ok.inj same).symm
      refine ⟨loaded, rfl, tables, ?_⟩
      intro numDocuments averagePositive accesses
      rw [tables]
      exact (loadCachedTable_idle read).answers accesses

/-- The loaded index, when the leaf pool has this many slots. -/
def LoadedIndex.withLeafSlots (slots : Nat) (loaded : LoadedIndex) : LoadedIndex :=
  { loaded with
    table := ⟨loaded.table.headTermEntries,
      if 0 < slots then loaded.table.leafBlocks else fun _ => none, loaded.table.indexBlocks,
      loaded.table.mphf⟩ }

/-- A pool without a slot has no block, and every other one has the blocks of its section. -/
theorem fileBlocks_section (file : Bytes) (baseOffset blockCount slots : Nat) :
    fileBlocks file baseOffset blockCount (min (min blockCount slots) blockCount) =
      if 0 < slots then sectionBlocks file baseOffset blockCount else fun _ => none := by
  funext block
  unfold fileBlocks sectionBlocks
  by_cases slot : 0 < slots
  · rw [if_pos slot]
    by_cases inside : block < blockCount
    · rw [if_pos ⟨inside, by omega⟩, if_pos inside]
    · rw [if_neg fun both => inside both.1, if_neg inside]
  · rw [if_neg slot, if_neg]
    intro both
    omega

/-- The pools of a load hide the leaf blocks when they have no slot for them, and nothing else. -/
theorem loadFile_uncached (files : FileSystem) (path : Str) (cacheBytes : Nat) :
    loadFile files path cacheBytes =
      (loadUncached files path).map (LoadedIndex.withLeafSlots (cacheBytes / pageSize)) := by
  have cached : 0 < blockCacheBytes / pageSize := by decide
  unfold loadFile loadUncached
  cases tables : loadFileTables files path with
  | error failure => rfl
  | ok front =>
      obtain ⟨header, head, docData⟩ := front
      obtain ⟨file, opened, layout, stop⟩ := loadFileTables_layout tables
      have blocks := layout_blocks layout
      have index := (initFilePool_eq (blocks.2.trans stop)
        (min header.indexBlockCount.toNat (blockCacheBytes / pageSize))).2
      have leaf := (initFilePool_eq (blocks.1.trans stop)
        (min header.leafTermBlockCount.toNat (cacheBytes / pageSize))).2
      rw [init_blocks (blocks.2.trans stop), fileBlocks_section, if_pos cached] at index
      rw [init_blocks (blocks.1.trans stop), fileBlocks_section] at leaf
      cases loadPathPrefixSidecar files path with
      | error failure => rfl
      | ok paths =>
          cases mphf : loadTermMphf files path header with
          | error failure =>
              show (loadTermMphf files path header >>= _) =
                Except.map _ (loadTermMphf files path header >>= _)
              rw [mphf]
              rfl
          | ok mphf =>
              simp only [Except.bind, bind, mphf, opened, index, leaf]
              rfl

/-- A pool that fills no slot is only without its blocks. -/
theorem loadFile_leafBlocks {loaded : LoadedIndex}
    (read : loadFile files path cacheBytes = .ok loaded) :
    loaded.table.leafBlocks =
      if 0 < cacheBytes / pageSize then
        (fun block => (openFile files path).toOption.bind fun file =>
          fileBlocks file loaded.header.leafTermBlockOffset.toNat
            loaded.header.leafTermBlockCount.toNat 1 block)
      else fun _ => none := by
  unfold loadFile at read
  obtain ⟨⟨header, head, docData⟩, tables, rest⟩ := bind_ok.mp read
  obtain ⟨_, _, rest⟩ := bind_ok.mp rest
  obtain ⟨_, _, rest⟩ := bind_ok.mp rest
  obtain ⟨file, opened, rest⟩ := bind_ok.mp rest
  obtain ⟨_, _, rest⟩ := bind_ok.mp rest
  obtain ⟨_, leaf, rest⟩ := bind_ok.mp rest
  cases rest
  unfold initPool at leaf
  obtain ⟨_, _, made⟩ := bind_ok.mp leaf
  cases made
  funext block
  rw [opened]
  unfold fileBlocks
  dsimp only [Except.toOption, Option.bind_some]
  generalize header.leafTermBlockCount.toNat = count
  generalize cacheBytes / pageSize = slots
  by_cases slot : 0 < slots
  · rw [if_pos slot]
    by_cases inside : block < count
    · rw [if_pos ⟨inside, by omega⟩, if_pos ⟨inside, Nat.one_pos⟩]
    · rw [if_neg fun both => inside both.1, if_neg fun both => inside both.1]
  · rw [if_neg slot, if_neg]
    intro both
    omega

/-- Two loads of one file differ in their leaf pools only. -/
theorem loadFile_sizes {first second : Nat} {left right : LoadedIndex}
    (leftRead : loadFile files path first = .ok left)
    (rightRead : loadFile files path second = .ok right) :
    right = { left with table := { left.table with leafBlocks := right.table.leafBlocks } } := by
  unfold loadFile at leftRead rightRead
  obtain ⟨_, tables, leftRead⟩ := bind_ok.mp leftRead
  obtain ⟨_, paths, leftRead⟩ := bind_ok.mp leftRead
  obtain ⟨_, mphf, leftRead⟩ := bind_ok.mp leftRead
  obtain ⟨_, opened, leftRead⟩ := bind_ok.mp leftRead
  obtain ⟨_, index, leftRead⟩ := bind_ok.mp leftRead
  obtain ⟨_, _, leftRead⟩ := bind_ok.mp leftRead
  cases leftRead
  obtain ⟨_, again, rightRead⟩ := bind_ok.mp rightRead
  cases tables.symm.trans again
  obtain ⟨_, again, rightRead⟩ := bind_ok.mp rightRead
  cases paths.symm.trans again
  obtain ⟨_, again, rightRead⟩ := bind_ok.mp rightRead
  cases mphf.symm.trans again
  obtain ⟨_, again, rightRead⟩ := bind_ok.mp rightRead
  cases opened.symm.trans again
  obtain ⟨_, again, rightRead⟩ := bind_ok.mp rightRead
  cases index.symm.trans again
  obtain ⟨_, _, rightRead⟩ := bind_ok.mp rightRead
  cases rightRead
  rfl

/-- A file that is loaded with one size is loaded with every other. -/
theorem loadFile_anySize {first : Nat} {left : LoadedIndex}
    (read : loadFile files path first = .ok left) (second : Nat) :
    ∃ right, loadFile files path second = .ok right := by
  unfold loadFile at read
  obtain ⟨⟨header, head, docData⟩, tables, rest⟩ := bind_ok.mp read
  obtain ⟨_, paths, rest⟩ := bind_ok.mp rest
  obtain ⟨_, mphf, rest⟩ := bind_ok.mp rest
  obtain ⟨file, opened, rest⟩ := bind_ok.mp rest
  obtain ⟨_, index, _⟩ := bind_ok.mp rest
  obtain ⟨_, again, layout, stop⟩ := loadFileTables_layout tables
  cases opened.symm.trans again
  have leaf := (initFilePool_eq ((layout_blocks layout).1.trans stop)
    (min header.leafTermBlockCount.toNat (second / pageSize))).2
  exact ⟨_, bind_ok.mpr ⟨_, tables, bind_ok.mpr ⟨_, paths, bind_ok.mpr ⟨_, mphf,
    bind_ok.mpr ⟨_, opened, bind_ok.mpr ⟨_, index, bind_ok.mpr ⟨_, leaf, rfl⟩⟩⟩⟩⟩⟩⟩

/-- Sizes that both have a slot, or both have none, give the same table. -/
theorem loadFile_sameTable {first second : Nat} {left right : LoadedIndex}
    (leftRead : loadFile files path first = .ok left)
    (rightRead : loadFile files path second = .ok right)
    (slots : 0 < first / pageSize ↔ 0 < second / pageSize) : left.table = right.table := by
  have sizes := loadFile_sizes leftRead rightRead
  have headers : right.header = left.header := by rw [sizes]
  have same : right.table.leafBlocks = left.table.leafBlocks := by
    rw [loadFile_leafBlocks leftRead, loadFile_leafBlocks rightRead, headers]
    simp only [slots]
  rw [sizes, same]

end Files

/-- Tables that find the same in the same blocks give the same answers. -/
theorem plainAnswers_congr {left right : IndexBlockTable}
    (lookup : ∀ key, left.findTermData key = right.findTermData key)
    (blocks : left.indexBlocks = right.indexBlocks) (numDocuments : UInt64)
    (averagePositive : Bool) (accesses : List Access) :
    plainAnswers numDocuments averagePositive left accesses =
      plainAnswers numDocuments averagePositive right accesses := by
  have one : ∀ access, plainAccess numDocuments averagePositive left access =
      plainAccess numDocuments averagePositive right access := by
    intro access
    cases access with
    | findTermData key =>
        unfold plainAccess
        dsimp only
        rw [lookup]
    | walk key calls =>
        unfold plainAccess AdvancedIndexReader.openReader
        dsimp only
        rw [lookup, blocks]
  induction accesses with
  | nil => rfl
  | cons access rest inductionHypothesis =>
      unfold plainAnswers
      rw [one, inductionHypothesis]

/-! ## Saved indexes -/

section Saved

variable {float : FloatOps} {store : PostingStore}

/-- Some key has postings in the index of the store. -/
def Searchable (float : FloatOps) (store : PostingStore) : Prop :=
  ∃ key : Str, keptPostings float store key.beforeNul ≠ []

/-- A built index finds the keys that have postings in it. -/
theorem findTermData_isSome
    (leafBound : (buildBlocks float store).leafTermBlocks.length < 2 ^ 32) (key : Str) :
    ((buildBlocks float store).table.findTermData key).isSome ↔
      keptPostings float store key.beforeNul ≠ [] := by
  rw [findTermData_built]
  generalize key.beforeNul = term
  obtain ⟨groups, emitted, built, entries, holds⟩ := buildBlocks_holds float store leafBound
  constructor
  · intro found
    rw [holds.findTermDataHeadLeaf_eq, entries, Option.isSome_map] at found
    obtain ⟨entry, search⟩ := Option.isSome_iff_exists.mp found
    obtain ⟨item, member, rfl⟩ := List.mem_map.mp (List.mem_of_find?_eq_some search)
    have tested := List.find?_some search
    have same : item.term = term := of_decide_eq_true tested
    obtain ⟨stored, kept⟩ := (emitted_kept built item.term item.list).mp
      (List.mem_map_of_mem member)
    rw [← same]
    unfold keptPostings
    rw [if_pos kept.1, stored]
    intro empty
    apply kept.2
    rw [PostingList.getBytes, encodePostings_eq_nil_iff]
    exact empty
  · intro kept
    have search := findTermDataHeadLeaf_emitted leafBound term
    cases found : (buildBlocks float store).table.findTermDataHeadLeaf term with
    | none =>
        rw [found] at search
        exact absurd search kept
    | some location => rfl

/-- The bytes are zero, which stands for the default, or fill a page. -/
def FillsSlot (bytes : UInt64) : Prop := bytes = 0 ∨ pageSize ≤ bytes.toNat

instance (bytes : UInt64) : Decidable (FillsSlot bytes) :=
  inferInstanceAs (Decidable (_ ∨ _))

theorem fillsSlot_iff (context : IndexContext) (bytes : UInt64) :
    0 < (context.setLeafTermCacheBytes bytes).base.leafTermCacheBytes / pageSize ↔
      FillsSlot bytes := by
  have page : 0 < pageSize := by decide
  show 0 < (if bytes > 0 then bytes.toNat else blockCacheBytes) / pageSize ↔ _
  unfold FillsSlot
  by_cases zero : bytes = 0
  · rw [if_neg (by rw [zero]; decide)]
    exact iff_of_true (by decide) (Or.inl zero)
  · have positive : bytes > 0 := UInt64.pos_iff_ne_zero.mpr zero
    rw [if_pos positive, Nat.div_pos_iff]
    constructor
    · intro fits
      exact Or.inr fits.2
    · intro fits
      exact ⟨page, fits.resolve_left zero⟩

/-- The saved index of a store, behind a load with a slot, is the built one. -/
theorem loadFile_built (addressable : Addressable float store) (allocate : RecordsAllocate store)
    {bytes : Bytes} (saved : IndexContext.saveSnapshot (.ofStore float store) = .ok bytes)
    {files : FileSystem} {path : Str} (present : files path = some bytes) {cacheBytes : Nat}
    (slot : 0 < cacheBytes / pageSize) {loaded : LoadedIndex}
    (read : loadFile files path cacheBytes = .ok loaded) :
    loaded.table = (buildBlocks float store).table := by
  have described := builtParts_described addressable allocate
  have same : IndexContext.saveSnapshot (.ofStore float store) = .ok (builtParts float store).bytes :=
    described.save_parts
  cases saved.symm.trans same
  have wellFormed := buildBlocks_wellFormed float store
  have decodes : ∃ directories,
      decodePathPrefixSidecar (builtParts float store).sidecar = .ok directories := by
    unfold loadFile at read
    obtain ⟨_, _, rest⟩ := bind_ok.mp read
    obtain ⟨_, paths, _⟩ := bind_ok.mp rest
    unfold loadPathPrefixSidecar at paths
    obtain ⟨file, opened, rest⟩ := bind_ok.mp paths
    obtain ⟨sidecar, read, rest⟩ := bind_ok.mp rest
    obtain ⟨directories, decoded, _⟩ := bind_ok.mp rest
    unfold openFile at opened
    rw [present] at opened
    cases opened
    unfold readExact at read
    obtain ⟨_, _, read⟩ := bind_ok.mp read
    cases read
    rw [described.stored.2.1] at decoded
    exact ⟨directories, decoded⟩
  obtain ⟨directories, decodes⟩ := decodes
  have agrees : (builtParts float store).Agrees directories :=
    { described with
      decodes := decodes
      headsFit := wellFormed.2.1
      leafValid := wellFormed.2.2 }
  have built := agrees.loadFile_bytes present (Nat.div_pos_iff.mp slot).2
  cases read.symm.trans built
  rfl

/-- A pool without a slot finds nothing: the head entries lead to no block. -/
theorem findTermData_noSlot {table : IndexBlockTable} (mphf : table.hasTermMphf = false)
    (blocks : table.leafBlocks = fun _ => none) (key : Str) : table.findTermData key = none := by
  unfold IndexBlockTable.findTermData IndexBlockTable.findTermDataHeadLeaf
  rw [mphf, blocks]
  dsimp only
  rw [if_neg Bool.false_ne_true]
  split
  · rfl
  · split
    · rfl
    · split <;> rfl

/-- A loaded index finds the keys that have postings in it, when its leaf pool has a slot. -/
theorem findTermData_loaded (addressable : Addressable float store)
    (allocate : RecordsAllocate store) {bytes : Bytes}
    (saved : IndexContext.saveSnapshot (.ofStore float store) = .ok bytes)
    {files : FileSystem} {path : Str} (present : files path = some bytes) {cacheBytes : Nat}
    {loaded : LoadedIndex} (read : loadFile files path cacheBytes = .ok loaded) (key : Str) :
    (loaded.table.findTermData key).isSome ↔
      0 < cacheBytes / pageSize ∧ keptPostings float store key.beforeNul ≠ [] := by
  by_cases slot : 0 < cacheBytes / pageSize
  · rw [loadFile_built addressable allocate saved present slot read,
      findTermData_isSome addressable.leafBlocks]
    exact (and_iff_right slot).symm
  · obtain ⟨other, otherRead⟩ := loadFile_anySize read pageSize
    have built := loadFile_built addressable allocate saved present (by decide) otherRead
    have noMphf : loaded.table.hasTermMphf = false := by
      have sizes := loadFile_sizes otherRead read
      rw [sizes, built]
      rfl
    have blocks := loadFile_leafBlocks read
    rw [if_neg slot] at blocks
    rw [findTermData_noSlot noMphf blocks]
    exact iff_of_false Bool.false_ne_true fun both => slot both.1

/-- Two sizes of the leaf cache give one caller the same answers exactly when both give it a
slot or neither does, or when the index holds nothing to find. -/
theorem IndexContext.leafTermCacheBytes_answers (addressable : Addressable float store)
    (allocate : RecordsAllocate store) {bytes : Bytes}
    (saved : saveSnapshot (.ofStore float store) = .ok bytes) {files : FileSystem} {path : Str}
    (present : files path = some bytes) (context : IndexContext) (first second : UInt64)
    {firstTable : CachedTable}
    (read : (context.setLeafTermCacheBytes first).loadTable files path = .ok firstTable)
    (numDocuments : UInt64) (averagePositive : Bool) :
    ∃ secondTable,
      (context.setLeafTermCacheBytes second).loadTable files path = .ok secondTable ∧
      ((∀ accesses, cachedAnswers numDocuments averagePositive firstTable accesses =
          cachedAnswers numDocuments averagePositive secondTable accesses) ↔
        (FillsSlot first ↔ FillsSlot second) ∨ ¬ Searchable float store) := by
  have firstSlot := fillsSlot_iff context first
  have secondSlot := fillsSlot_iff context second
  unfold loadTable at read ⊢
  generalize (context.setLeafTermCacheBytes first).base.leafTermCacheBytes = firstBytes
    at read firstSlot
  generalize (context.setLeafTermCacheBytes second).base.leafTermCacheBytes = secondBytes
    at secondSlot ⊢
  obtain ⟨left, leftRead, leftTable, leftAnswers⟩ := loadCachedTable_plainAnswers read
  obtain ⟨right, rightRead⟩ := loadFile_anySize leftRead secondBytes
  have loads := loadCachedTable_plain files path secondBytes
  rw [rightRead] at loads
  cases secondRead : loadCachedTable files path secondBytes with
  | error failure =>
      rw [secondRead] at loads
      cases loads
  | ok secondTable =>
      obtain ⟨again, againRead, rightTable, rightAnswers⟩ := loadCachedTable_plainAnswers secondRead
      cases rightRead.symm.trans againRead
      refine ⟨secondTable, rfl, ?_⟩
      have leftFinds := findTermData_loaded addressable allocate saved present leftRead
      have rightFinds := findTermData_loaded addressable allocate saved present rightRead
      simp only [firstSlot] at leftFinds
      simp only [secondSlot] at rightFinds
      simp only [leftAnswers, rightAnswers]
      constructor
      · intro same
        by_cases searchable : Searchable float store
        case neg => exact Or.inr searchable
        obtain ⟨key, kept⟩ := searchable
        apply Or.inl
        have answer := List.head_eq_of_cons_eq (same [.findTermData key])
        have found : left.table.findTermData key = right.table.findTermData key :=
          Answer.location.inj answer
        constructor
        · intro fills
          have finds := (leftFinds key).mpr ⟨fills, kept⟩
          rw [found] at finds
          exact ((rightFinds key).mp finds).1
        · intro fills
          have finds := (rightFinds key).mpr ⟨fills, kept⟩
          rw [← found] at finds
          exact ((leftFinds key).mp finds).1
      · intro condition accesses
        cases condition with
        | inl slots =>
            rw [loadFile_sameTable leftRead rightRead (by rw [firstSlot, secondSlot]; exact slots)]
        | inr nothing =>
            apply plainAnswers_congr
            · intro key
              have empty : keptPostings float store key.beforeNul = [] := by
                by_contra kept
                exact nothing ⟨key, kept⟩
              have leftNone : left.table.findTermData key = none := by
                apply Option.not_isSome_iff_eq_none.mp
                intro finds
                exact ((leftFinds key).mp finds).2 empty
              have rightNone : right.table.findTermData key = none := by
                apply Option.not_isSome_iff_eq_none.mp
                intro finds
                exact ((rightFinds key).mp finds).2 empty
              rw [leftNone, rightNone]
            · rw [loadFile_sizes leftRead rightRead]

end Saved

/-- The term `aB` of the small index, whose body has the word `a`. -/
def bodyTerm : Str := (⟨[0x61], validUtf8_a⟩ : Str).append ⟨[0x42], validUtf8_B⟩

theorem bodyTerm_kept : keptPostings default (wordStore 0) bodyTerm.beforeNul ≠ [] := by
  decide +kernel

/-- The small index, loaded with any size. -/
theorem wordFiles_loads (bytes : UInt64) : ∃ table,
    (IndexContext.new.setLeafTermCacheBytes bytes).loadTable wordFiles wordPath = .ok table := by
  have storable : Storable default (wordStore 0) := wordStore_storable (Or.inl rfl)
  have present : wordFiles wordPath = some (builtParts default (wordStore 0)).bytes :=
    Function.update_self ..
  have built := (builtParts_agrees storable).loadFile_bytes present (le_refl pageSize)
  unfold IndexContext.loadTable
  generalize (IndexContext.new.setLeafTermCacheBytes bytes).base.leafTermCacheBytes = cacheBytes
  obtain ⟨loaded, read⟩ := loadFile_anySize built cacheBytes
  have loads := loadCachedTable_plain wordFiles wordPath cacheBytes
  rw [read] at loads
  cases made : loadCachedTable wordFiles wordPath cacheBytes with
  | error failure =>
      rw [made] at loads
      cases loads
  | ok table => exact ⟨table, rfl⟩

theorem IndexContext.leafTermCacheBytes_answers_word : ∃ firstTable secondTable,
    (IndexContext.new.setLeafTermCacheBytes 0).loadTable wordFiles wordPath = .ok firstTable ∧
      (IndexContext.new.setLeafTermCacheBytes 4096).loadTable wordFiles wordPath =
        .ok secondTable ∧
      ∀ accesses, cachedAnswers 1 true firstTable accesses =
        cachedAnswers 1 true secondTable accesses := by
  have storable : Storable default (wordStore 0) := wordStore_storable (Or.inl rfl)
  obtain ⟨firstTable, read⟩ := wordFiles_loads 0
  obtain ⟨secondTable, secondRead, answers⟩ :=
    IndexContext.leafTermCacheBytes_answers storable.addressable
      (recordsAllocate_of_fit storable.fit) (IndexContext.saveSnapshot_ofStore storable)
      (Function.update_self ..) IndexContext.new 0 4096 read 1 true
  exact ⟨firstTable, secondTable, read, secondRead, answers.mpr (Or.inl (by decide))⟩

/-- With the default size the term is found, and with one byte it is not. -/
theorem one_byte_finds_nothing : ∃ firstTable secondTable,
    (IndexContext.new.setLeafTermCacheBytes 0).loadTable wordFiles wordPath = .ok firstTable ∧
      (IndexContext.new.setLeafTermCacheBytes 1).loadTable wordFiles wordPath =
        .ok secondTable ∧
      (firstTable.findTermData bodyTerm).2.isSome = true ∧
      (secondTable.findTermData bodyTerm).2 = none := by
  have storable : Storable default (wordStore 0) := wordStore_storable (Or.inl rfl)
  have allocate := recordsAllocate_of_fit storable.fit
  have saved := IndexContext.saveSnapshot_ofStore storable
  have present : wordFiles wordPath = some (builtParts default (wordStore 0)).bytes :=
    Function.update_self ..
  obtain ⟨firstTable, firstRead⟩ := wordFiles_loads 0
  obtain ⟨secondTable, secondRead⟩ := wordFiles_loads 1
  obtain ⟨left, leftRead, leftTable, _⟩ := loadCachedTable_plainAnswers firstRead
  obtain ⟨right, rightRead, rightTable, _⟩ := loadCachedTable_plainAnswers secondRead
  refine ⟨firstTable, secondTable, firstRead, secondRead, ?_, ?_⟩
  · rw [((loadCachedTable_idle firstRead).findTermData bodyTerm).1, ← leftTable,
      findTermData_loaded storable.addressable allocate saved present leftRead]
    exact ⟨(fillsSlot_iff IndexContext.new 0).mpr (by decide), bodyTerm_kept⟩
  · rw [((loadCachedTable_idle secondRead).findTermData bodyTerm).1, ← rightTable]
    apply Option.not_isSome_iff_eq_none.mp
    rw [findTermData_loaded storable.addressable allocate saved present rightRead]
    intro both
    exact absurd ((fillsSlot_iff IndexContext.new 1).mp both.1) (by decide)

end MoonShot.Context
