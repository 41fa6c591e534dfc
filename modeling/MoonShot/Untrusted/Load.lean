import MoonShot.Context.IndexData
import MoonShot.Untrusted.Decode

/-!
Loads of untrusted bytes.

Owns `LoadFromBytes` and `LoadVectorFromBytes` with every check, and the exact
condition under which decoding returns: the records that `decode` reaches have
stream lengths with a 32-bit sum. The load for vector search reads no lengths, so
it always returns.

Does not own exhausted memory.
-/

namespace MoonShot.Untrusted

open MoonShot.Lib
open MoonShot.Postings
open MoonShot.Format
open MoonShot.Table
open MoonShot.Serializer
open MoonShot.Context

/-! ## When `decode` returns -/

/-- The records that `decode` reaches fit: those of their own document have stream
lengths with a 32-bit sum. -/
def LengthsFit (data : Bytes) : Prop :=
  ∀ front, frontOf data = .ok front → ∀ slot, slot < front.header.numDocuments.toNat →
    RecordFits (Format.docDataFirstDocId front.docData front.header) slot
      (recordAt data front.header.docDataOffset.toNat slot)

section Decode

variable {decodeScore : UInt16 → F32} {data : Bytes}

theorem docDataFirstDocId_lt (docData : Bytes) (header : IndexFileHeader) :
    (Format.docDataFirstDocId docData header).toNat < 2 ^ 32 := by
  unfold Format.docDataFirstDocId
  split
  · rw [UInt32.toNat_toUInt64]
    exact UInt32.toNat_lt _
  · decide

/-- The records of a front are inside the file, and the file has a 64-bit size there. -/
theorem frontOf_records {front : DecodedFront} (ok : frontOf data = .ok front) :
    front.header.docDataOffset.toNat +
        (0 + front.header.numDocuments.toNat) * docRecSize ≤ data.length ∧
      front.header.docDataOffset.toNat +
        (0 + front.header.numDocuments.toNat) * docRecSize < 2 ^ 64 := by
  obtain ⟨layout, inFile, _⟩ := frontOf_layout ok
  have stop : front.header.stop = front.header.termMphfEntryOffset.toNat +
    front.header.termMphfEntryPageCount.toNat * pageSize := rfl
  have index := layout.index
  have mphfHeader := layout.mphfHeader
  have displacement := layout.displacement
  have entries := layout.entries
  have bounded := front.header.indexBlockOffset.toNat_lt
  rw [Nat.zero_add]
  exact ⟨by omega, by omega⟩

theorem new_totalTerms (firstDocId : Nat) :
    (PostingStore.new).totalTerms.toNat ≤ totalBound (firstDocId + 0) := Nat.zero_le _

/-- Records that fit are read to the end. -/
theorem decode_returns (fits : LengthsFit data) :
    Returns (decode decodeScore data) (Serializer.decode data) := by
  rw [decode_eq_front_back]
  refine (decodeFront_returns data).bind fun front ok => ?_
  obtain ⟨inside, range⟩ := frontOf_records ok
  refine Returns.step (docDataFirstDocId_eq _ _) ?_
  obtain ⟨after, ran⟩ := decodeRecords_fits decodeScore inside range
    (docDataFirstDocId_lt front.docData front.header)
    (fun slot _ below => fits front ok slot (by omega)) (new_totalTerms _)
  exact Returns.step ran (decodeBack_returns (frontOf_layout ok).1)

/-- One record that does not fit overflows. -/
theorem decode_faults (large : ¬ LengthsFit data) :
    Faults (decode decodeScore data) .overflow := by
  unfold LengthsFit at large
  push Not at large
  obtain ⟨front, ok, slot, below, tooLong⟩ := large
  obtain ⟨inside, range⟩ := frontOf_records ok
  refine Faults.value (ok ▸ decodeFront_returns data) ?_
  refine Faults.step (docDataFirstDocId_eq _ _) (Faults.here ?_)
  exact decodeRecords_overflow inside range (docDataFirstDocId_lt front.docData front.header)
    (Nat.zero_le slot) (by omega) tooLong (new_totalTerms _)

theorem decode_returns_iff :
    (∃ outcome, Returns (decode decodeScore data) outcome) ↔ LengthsFit data := by
  constructor
  · intro returns
    by_contra large
    exact (decode_faults large).not_returns returns
  · exact fun fits => ⟨_, decode_returns fits⟩

end Decode

/-! ## Counts of decoded pages -/

section Counts

variable {data : Bytes} {decoded : DecodedIndexData}

theorem decodeTermMphf_pages {header : IndexFileHeader} {tables : TermMphfHeader × List Int × List Page}
    (ok : Serializer.decodeTermMphf data header = .ok tables) :
    tables.2.2.length ≤ header.termMphfEntryPageCount.toNat := by
  unfold Serializer.decodeTermMphf at ok
  split at ok
  · obtain rfl := Except.ok.inj ok
    exact Nat.zero_le _
  · obtain ⟨_, _, ok⟩ := bind_ok.mp ok
    obtain ⟨_, _, ok⟩ := bind_ok.mp ok
    obtain ⟨_, _, ok⟩ := bind_ok.mp ok
    obtain ⟨_, _, ok⟩ := bind_ok.mp ok
    obtain ⟨_, _, ok⟩ := bind_ok.mp ok
    obtain ⟨pages, read, ok⟩ := bind_ok.mp ok
    obtain rfl := Except.ok.inj ok
    have length := mapM_ok_length read
    rw [List.length_range] at length
    exact length.le

/-- The decoded pages were in the file. -/
theorem decode_pages (ok : Serializer.decode data = .ok decoded) :
    decoded.leafBlocks.length * pageSize < 2 ^ 64 ∧
      decoded.indexBlocks.length * pageSize < 2 ^ 64 ∧
      decoded.mphfEntryPages.length * pageSize < 2 ^ 64 := by
  obtain ⟨header, _, ok⟩ := bind_ok.mp ok
  obtain ⟨last, valid, ok⟩ := bind_ok.mp ok
  obtain ⟨_, _, ok⟩ := bind_ok.mp ok
  obtain ⟨prefixes, _, ok⟩ := bind_ok.mp ok
  obtain ⟨head, _, ok⟩ := bind_ok.mp ok
  obtain ⟨leafBlocks, leafs, ok⟩ := bind_ok.mp ok
  obtain ⟨_, _, ok⟩ := bind_ok.mp ok
  obtain ⟨indexBlocks, blocks, ok⟩ := bind_ok.mp ok
  obtain ⟨tables, read, ok⟩ := bind_ok.mp ok
  obtain rfl := Except.ok.inj ok
  obtain ⟨layout, _, _⟩ := IndexFileHeader.validateLayout_eq_ok.mp valid
  have docData := layout.docData ▸ header.docDataOffset.toNat_lt
  have mphfHeader := layout.mphfHeader ▸ header.termMphfHeaderOffset.toNat_lt
  have bounded : header.termMphfEntryOffset.toNat +
    header.termMphfEntryPageCount.toNat * pageSize < 2 ^ 64 := layout.bounded
  have leafCount := mapM_ok_length leafs
  have blockCount := mapM_ok_length blocks
  have pageCount := Nat.mul_le_mul_right pageSize (decodeTermMphf_pages read)
  rw [List.length_range] at leafCount blockCount
  refine ⟨?_, ?_, ?_⟩
  · show leafBlocks.length * pageSize < _
    rw [leafCount]
    omega
  · show indexBlocks.length * pageSize < _
    rw [blockCount]
    omega
  · show tables.2.2.length * pageSize < _
    omega

end Counts

/-! ## `LoadFromBytes` -/

/-- `PinnedMemory::new_zeroed` -/
def newZeroed (count size : Nat) : Checked Unit := assert (count * size < 2 ^ 64)

/-- The size of a slot of a block pool. -/
def indexSlotEntrySize : Nat := 12

/-- `SetPoolMemory`: the sizes of the pages and the tables of a pool. -/
def setPoolMemory (blocks : List Page) : Checked Unit := do
  let bytes ← mulUsize blocks.length pageSize
  newZeroed bytes 1
  newZeroed (blocks.length % 2 ^ 32) 4
  newZeroed (blocks.length % 2 ^ 32) indexSlotEntrySize

/-- `SetTermMphf` on a table with cleared hash tables. -/
def setTermMphf (header : TermMphfHeader) (displacements : List Int) (entryPages : List Page) :
    Checked TermMphf :=
  if header.termCount = 0 ∨ header.bucketCount = 0 ∨ header.slotCount = 0 ∨ displacements = [] ∨
      entryPages.isEmpty then .ok .cleared
  else do
    let requiredBytes ← mulUsize header.slotCount.toNat termMphfEntrySize
    let availableBytes ← mulUsize entryPages.length pageSize
    if header.magic ≠ termMphfMagic ∨ header.slotCount.toUInt64 ≠ header.termCount ∨
        displacements.length ≠ header.bucketCount.toNat ∨ requiredBytes > availableBytes then
      return .cleared
    else return ⟨header, displacements, entryPages, true⟩

/-- `LoadFromBytes` up to its assignments. -/
def loadBytes (decodeScore : UInt16 → F32) (data : Bytes) :
    CheckedResult RustBladeError LoadedIndex := do
  let header ← parse data
  let decoded ← decode decodeScore data
  let _capacity ← addUsize (max decoded.indexBlocks.length 512) 64
  setPoolMemory decoded.indexBlocks
  setPoolMemory decoded.leafBlocks
  let mphf ←
    if decoded.mphfDisplacements ≠ [] ∧ ¬ decoded.mphfEntryPages.isEmpty then
      setTermMphf decoded.mphfHeader decoded.mphfDisplacements decoded.mphfEntryPages
    else (Except.ok .cleared : Checked TermMphf)
  return ⟨header, (MemoryTable.mk decoded.head decoded.leafBlocks decoded.indexBlocks mphf).table,
    decoded.leafBlocks.length % 2 ^ 32, decoded.docData, decoded.sidecar, decoded.prefixes⟩

/-- `LoadFromBytes` -/
def loadFromBytes (decodeScore : UInt16 → F32) (context : IndexContext) (data : Bytes) :
    Checked (IndexContext × Except RustBladeError Unit) := do
  match ← (loadBytes decodeScore data).run with
  | .error failure => return ({ context with delta := none }, .error failure)
  | .ok loaded =>
      let firstDocId ← docDataFirstDocId loaded.docData
        { IndexFileHeader.zeroed with
          numDocuments := UInt64.ofNat (loaded.docData.length / docRecSize) }
      return (⟨context.base.install loaded firstDocId, none⟩, .ok ())

theorem setPoolMemory_eq {blocks : List Page} (pages : blocks.length * pageSize < 2 ^ 64) :
    setPoolMemory blocks = .ok () := by
  have count : blocks.length % 2 ^ 32 < 2 ^ 32 := Nat.mod_lt _ (by decide)
  have slots : blocks.length % 2 ^ 32 * indexSlotEntrySize < 2 ^ 64 := by
    unfold indexSlotEntrySize
    omega
  unfold setPoolMemory newZeroed
  rw [mulUsize_eq pages]
  show (assert (blocks.length * pageSize * 1 < 2 ^ 64) >>= _) = _
  rw [assert_eq (by omega), assert_eq (by omega), assert_eq slots]
  rfl

theorem setTermMphf_eq {header : TermMphfHeader} {displacements : List Int} {entryPages : List Page}
    (pages : entryPages.length * pageSize < 2 ^ 64) :
    setTermMphf header displacements entryPages =
      .ok (Serializer.setTermMphf header displacements entryPages) := by
  have size : termMphfEntrySize = 32 := rfl
  have slots := header.slotCount.toNat_lt
  unfold setTermMphf Serializer.setTermMphf
  split
  · rfl
  · rw [mulUsize_eq (by rw [size]; omega), mulUsize_eq pages]
    show (if _ then _ else _) = _
    split
    · rfl
    · rfl

section LoadFromBytes

variable {decodeScore : UInt16 → F32} {data : Bytes}

theorem loadBytes_returns (fits : LengthsFit data) :
    Returns (loadBytes decodeScore data) (Serializer.loadBytes data) := by
  unfold loadBytes Serializer.loadBytes
  refine (parse_returns data).bind fun header _ => ?_
  refine (decode_returns fits).bind fun decoded ok => ?_
  obtain ⟨leafPages, indexPages, entryPages⟩ := decode_pages ok
  have few : decoded.indexBlocks.length < 2 ^ 52 := by
    have size : pageSize = 4096 := rfl
    rw [size] at indexPages
    omega
  refine Returns.step (addUsize_eq (by omega)) ?_
  refine Returns.step (setPoolMemory_eq indexPages) ?_
  refine Returns.step (setPoolMemory_eq leafPages) ?_
  dsimp only
  split
  · exact Returns.step (setTermMphf_eq entryPages) (Returns.pure _)
  · exact Returns.pure _

/-- A load overflows where `decode` does, and else is the load without checks. -/
theorem loadFromBytes_eq (context : IndexContext) (fits : LengthsFit data) :
    loadFromBytes decodeScore context data = .ok (context.loadFromBytes data) := by
  have returned : (loadBytes decodeScore data).run = .ok (Serializer.loadBytes data) :=
    loadBytes_returns fits
  unfold loadFromBytes IndexContext.loadFromBytes
  rw [returned]
  cases Serializer.loadBytes data with
  | error failure => rfl
  | ok loaded =>
      show (docDataFirstDocId loaded.docData _ >>= _) = _
      rw [docDataFirstDocId_eq]
      rfl

theorem loadFromBytes_overflow (context : IndexContext) (large : ¬ LengthsFit data) :
    loadFromBytes decodeScore context data = .error .overflow := by
  have parsed := parse_returns data
  have faults : Faults (loadBytes decodeScore data) .overflow := by
    unfold loadBytes
    cases header : IndexFileHeader.parse data with
    | error failure =>
        refine absurd (fun front ok => ?_) large
        rw [frontOf, header] at ok
        cases ok
    | ok header' =>
        exact Faults.value (header ▸ parsed) (Faults.first (decode_faults large) _)
  unfold loadFromBytes
  rw [faults]
  rfl

theorem loadFromBytes_returns_iff (context : IndexContext) :
    (∃ outcome, loadFromBytes decodeScore context data = .ok outcome) ↔ LengthsFit data := by
  constructor
  · rintro ⟨outcome, returned⟩
    by_contra large
    rw [loadFromBytes_overflow context large] at returned
    cases returned
  · exact fun fits => ⟨_, loadFromBytes_eq context fits⟩

end LoadFromBytes

/-! ## `LoadVectorFromBytes` -/

/-- What `LoadVectorFromBytes` reads, up to its assignments. -/
def vectorBytes (data : Bytes) : CheckedResult RustBladeError LoadedIndex := do
  let header ← parse data
  let sidecarEnd ← addUsize indexFileHeaderSize pathPrefixSidecarBytes
  ofResult (require .invalidFormat (sidecarEnd ≤ data.length))
  let sidecar ← readSlice data indexFileHeaderSize sidecarEnd
  let prefixes ← decodePathPrefixSidecar sidecar
  let docDataBytes := header.numDocuments.toNat * docRecSize
  ofResult (require .invalidFormat (docDataBytes < 2 ^ 64))
  let docDataEnd := header.docDataOffset.toNat + docDataBytes
  ofResult (require .invalidFormat (docDataEnd < 2 ^ 64))
  ofResult (require .invalidFormat (docDataEnd ≤ data.length))
  let docData ← readSlice data header.docDataOffset.toNat docDataEnd
  return ⟨header, MemoryTable.new.table, 0, docData, sidecar, prefixes⟩

/-- `LoadVectorFromBytes` -/
def loadVectorFromBytes (context : IndexContext) (data : Bytes) :
    Checked (IndexContext × Except RustBladeError Unit) := do
  match ← (vectorBytes data).run with
  | .error failure => return ({ context with delta := none }, .error failure)
  | .ok loaded =>
      let firstDocId ← docDataFirstDocId loaded.docData loaded.header
      return (⟨context.base.install loaded firstDocId, none⟩, .ok ())

theorem vectorBytes_returns (data : Bytes) :
    Returns (vectorBytes data) (IndexContext.vectorBytes data) := by
  have sidecarEnd : addUsize indexFileHeaderSize pathPrefixSidecarBytes =
      .ok (indexFileHeaderSize + pathPrefixSidecarBytes) := addUsize_eq (by decide)
  unfold vectorBytes IndexContext.vectorBytes
  refine (parse_returns data).bind fun header _ => ?_
  refine Returns.step sidecarEnd ((Returns.ofResult _).bind fun _ long => ?_)
  refine Returns.step (readSlice_add (require_eq_ok.mp long)) ?_
  refine (decodePathPrefixSidecar_returns _).bind fun prefixes _ => ?_
  refine (Returns.ofResult _).bind fun _ _ => ?_
  refine (Returns.ofResult _).bind fun _ _ => ?_
  refine (Returns.ofResult _).bind fun _ records => ?_
  refine Returns.step (readSlice_add (require_eq_ok.mp records)) ?_
  exact Returns.pure _

theorem loadVectorFromBytes_eq (context : IndexContext) (data : Bytes) :
    loadVectorFromBytes context data = .ok (context.loadVectorFromBytes data) := by
  have returned : (vectorBytes data).run = .ok (IndexContext.vectorBytes data) :=
    vectorBytes_returns data
  unfold loadVectorFromBytes IndexContext.loadVectorFromBytes
  rw [returned]
  cases IndexContext.vectorBytes data with
  | error failure => rfl
  | ok loaded =>
      show (docDataFirstDocId loaded.docData loaded.header >>= _) = _
      rw [docDataFirstDocId_eq]
      rfl

/-! ## Untrusted bytes -/

/-- Every decoder returns, exactly where the lengths of the records fit. -/
theorem decoding_returns_iff_lengthsFit (decodeScore : UInt16 → F32) (context : IndexContext)
    (data : Bytes) :
    ((∃ outcome, Returns (decode decodeScore data) outcome) ∧
      (∃ outcome, loadFromBytes decodeScore context data = .ok outcome) ∧
      (∃ outcome, loadVectorFromBytes context data = .ok outcome) ∧
      (∃ outcome, Returns (decodePathPrefixSidecar data) outcome)) ↔ LengthsFit data := by
  constructor
  · intro returned
    exact decode_returns_iff.mp returned.1
  · intro fits
    exact ⟨decode_returns_iff.mpr fits, (loadFromBytes_returns_iff context).mpr fits,
      ⟨_, loadVectorFromBytes_eq context data⟩, ⟨_, decodePathPrefixSidecar_returns data⟩⟩

/-- A record of the document 0 with a title of 2 ^ 32 - 1 terms and a body of one. -/
def longRecord : Bytes :=
  List.replicate 26 0 ++ u32Bytes 0xFFFFFFFF ++ u32Bytes 1 ++ List.replicate 222 0

/-- A file with one long record, and nothing else. -/
def longFile : FileParts where
  header := plainHeader 0 1 0 0 0 docRecSize 0
  sidecar := encodePathPrefixSidecar []
  heads := []
  leafBlocks := []
  docData := longRecord
  indexBlocks := []

theorem longFile_agrees : longFile.Agrees [] where
  current := ⟨rfl, rfl⟩
  layout := plainHeader_layout 0 1 0 (by decide) (by decide) (by decide) (by decide) (by decide)
  headCount := rfl
  leafCount := rfl
  docCount := by decide +kernel
  indexCount := rfl
  noMphf := rfl
  sidecarSize := encodePathPrefixSidecar_length (by decide)
  decodes := decode_encodePathPrefixSidecar ⟨by decide, fun _ member => absurd member List.not_mem_nil⟩
  headsFit := fun _ member => absurd member List.not_mem_nil
  leafValid := fun _ member => absurd member List.not_mem_nil

/-- The checks in front of the records accept the file, and its record does not fit. -/
theorem longFile_not_lengthsFit : ¬ LengthsFit longFile.bytes := by
  have decoded := longFile_agrees.decode_bytes
  rw [decode_eq_front_back] at decoded
  obtain ⟨front, ok, _⟩ := bind_ok.mp decoded
  have header : front.header = longFile.header :=
    Except.ok.inj ((frontOf_parse ok).symm.trans longFile_agrees.parse_bytes)
  have records : slice longFile.bytes longFile.header.docDataOffset.toNat docRecSize = longRecord :=
    longFile_agrees.stored.2.2.2.2.1
  have docData : front.docData = longRecord := by
    rw [(frontOf_layout ok).2.2, header]
    exact records
  have record : recordAt longFile.bytes longFile.header.docDataOffset.toNat 0 = longRecord := by
    rw [recordAt, Nat.zero_mul, Nat.add_zero, records]
  intro fits
  have short := fits front ok 0 (by rw [header]; decide)
  rw [docData, header, record] at short
  exact absurd (short (by decide +kernel)) (by decide +kernel)

/-- The lengths of the record overflow. -/
theorem decode_longFile :
    ¬ ∃ outcome, Returns (decode (fun _ => 0) longFile.bytes) outcome := fun returned =>
  longFile_not_lengthsFit (decode_returns_iff.mp returned)

end MoonShot.Untrusted
