import MoonShot.Context.State
import MoonShot.Postings.Statistics
import MoonShot.Untrusted.Pages

/-!
Index bytes decoded with every check (`IndexSerializer::decode`, `LoadFromBytes`,
`LoadVectorFromBytes`).

Owns these functions with the slices and the arithmetic of the source, down to the
scratch store that takes the statistics of the records. They return what the
functions of the same names return, except that a record whose stream lengths have
a sum of more than 32 bits overflows.

An addition behind `||` is made whenever its function is reached, so a fault is
never missed. The decoded score of a record is a parameter.
-/

namespace MoonShot.Untrusted

open MoonShot.Lib
open MoonShot.Postings
open MoonShot.Format
open MoonShot.Table
open MoonShot.Serializer
open MoonShot.Context

/-! ## Header and sidecar -/

/-- `IndexFileHeader::parse` -/
def parse (data : Bytes) : CheckedResult RustBladeError IndexFileHeader :=
  if data.length < indexFileHeaderSize then throw .invalidFormat
  else do
    let magic ← readSlice data 0 8
    if magicSize : magic = indexFileMagic then do
      let version ← readU32 data 8
      if version ≠ indexFormatVersion then throw .invalidFormat
      else
        let avgDocLength ← readU32 data 12
        let numDocuments ← readU64 data 16
        let numTerms ← readU64 data 24
        let headTermEntryOffset ← readU64 data 32
        let headTermEntryCount ← readU64 data 40
        let leafTermBlockOffset ← readU64 data 48
        let leafTermBlockCount ← readU64 data 56
        let docDataOffset ← readU64 data 64
        let indexBlockOffset ← readU64 data 72
        let indexBlockCount ← readU64 data 80
        let termMphfHeaderOffset ← readU64 data 88
        let termMphfHeaderCount ← readU64 data 96
        let termMphfDisplacementOffset ← readU64 data 104
        let termMphfDisplacementCount ← readU64 data 112
        let termMphfEntryOffset ← readU64 data 120
        let termMphfEntryPageCount ← readU64 data 128
        return ⟨magic, congrArg List.length magicSize, version, avgDocLength, numDocuments, numTerms,
          headTermEntryOffset, headTermEntryCount, leafTermBlockOffset, leafTermBlockCount,
          docDataOffset, indexBlockOffset, indexBlockCount, termMphfHeaderOffset,
          termMphfHeaderCount, termMphfDisplacementOffset, termMphfDisplacementCount,
          termMphfEntryOffset, termMphfEntryPageCount⟩
    else throw .invalidFormat

theorem parse_returns (data : Bytes) : Returns (parse data) (IndexFileHeader.parse data) := by
  have size : indexFileHeaderSize = 136 := rfl
  unfold parse IndexFileHeader.parse
  by_cases short : data.length < indexFileHeaderSize
  · rw [if_pos short, dif_pos (Or.inl short)]
    exact Returns.throw _
  · have word : ∀ offset, offset + 8 ≤ 136 → readU64 data offset = .ok (u64At data offset) :=
      fun offset inside => readU64_eq (by omega) (by omega)
    rw [if_neg short]
    refine Returns.step (readSlice_eq (by decide) (by omega)) ?_
    by_cases magic : slice data 0 8 = indexFileMagic
    · have accepted : ¬ (data.length < indexFileHeaderSize ∨ slice data 0 8 ≠ indexFileMagic) :=
        not_or.mpr ⟨short, not_not.mpr magic⟩
      rw [dif_pos magic, dif_neg accepted]
      refine Returns.step (readU32_eq (by omega) (by decide)) ?_
      by_cases version : u32At data 8 ≠ indexFormatVersion
      · rw [if_pos version, if_pos version]
        exact Returns.throw _
      · rw [if_neg version, if_neg version]
        refine Returns.step (readU32_eq (by omega) (by decide)) ?_
        refine Returns.step (word 16 (by decide)) (Returns.step (word 24 (by decide)) ?_)
        refine Returns.step (word 32 (by decide)) (Returns.step (word 40 (by decide)) ?_)
        refine Returns.step (word 48 (by decide)) (Returns.step (word 56 (by decide)) ?_)
        refine Returns.step (word 64 (by decide)) (Returns.step (word 72 (by decide)) ?_)
        refine Returns.step (word 80 (by decide)) (Returns.step (word 88 (by decide)) ?_)
        refine Returns.step (word 96 (by decide)) (Returns.step (word 104 (by decide)) ?_)
        refine Returns.step (word 112 (by decide)) (Returns.step (word 120 (by decide)) ?_)
        exact Returns.step (word 128 (by decide)) (Returns.pure _)
    · rw [dif_neg magic, dif_pos (Or.inr magic)]
      exact Returns.throw _

/-- One turn of the loop of `DecodePathPrefixSidecar`. -/
def decodeSidecarEntry (sidecar : Bytes) (entryOffset stringOffset stringBytes index : Nat) :
    CheckedResult RustBladeError Str := do
  let before ← mulUsize index 8
  let offset ← addUsize entryOffset before
  let entryString ← readU32 sidecar offset
  let lengthOffset ← addUsize offset 4
  let length ← readU16 sidecar lengthOffset
  let flagsOffset ← addUsize offset 6
  let _flags ← readU16 sidecar flagsOffset
  let start ← addUsize stringOffset entryString.toNat
  let stop ← addUsize start length.toNat
  let most ← addUsize stringOffset stringBytes
  if stop > most then throw .invalidFormat
  else
    let bytes ← readSlice sidecar start stop
    match Str.fromUtf8 bytes with
    | none => throw .invalidFormat
    | some pathPrefix => return pathPrefix

/-- `DecodePathPrefixSidecar` -/
def decodePathPrefixSidecar (sidecar : Bytes) : CheckedResult RustBladeError (List Str) := do
  ofResult (require .invalidFormat (sidecar.length = pathPrefixSidecarBytes))
  let magic ← readSlice sidecar 0 8
  let version ← readU16 sidecar 8
  let prefixCount ← readU16 sidecar 10
  let entryOffset ← readU32 sidecar 12
  let stringOffset ← readU32 sidecar 16
  let stringBytes ← readU32 sidecar 20
  let _reserved ← readSlice sidecar 24 32
  let stringEnd ← addUsize stringOffset.toNat stringBytes.toNat
  let entryBytes ← mulUsize prefixCount.toNat 8
  let entryEnd ← addUsize entryOffset.toNat entryBytes
  ofResult (require .invalidFormat (magic = pathPrefixSidecarMagic ∧
    version = pathPrefixSidecarVersion ∧ sidecarHeaderSize ≤ entryOffset.toNat ∧
    stringOffset.toNat ≤ pathPrefixSidecarBytes ∧ stringEnd ≤ pathPrefixSidecarBytes ∧
    entryEnd ≤ pathPrefixSidecarBytes))
  (List.range prefixCount.toNat).mapM
    (decodeSidecarEntry sidecar entryOffset.toNat stringOffset.toNat stringBytes.toNat)

theorem decodeSidecarEntry_returns {sidecar : Bytes} {entryOffset stringOffset stringBytes index : Nat}
    (size : sidecar.length = pathPrefixSidecarBytes)
    (entry : entryOffset + index * 8 + 8 ≤ pathPrefixSidecarBytes)
    (strings : stringOffset + stringBytes ≤ pathPrefixSidecarBytes) :
    Returns (decodeSidecarEntry sidecar entryOffset stringOffset stringBytes index)
      (Format.decodeSidecarEntry sidecar entryOffset stringOffset stringBytes index) := by
  have bytes : pathPrefixSidecarBytes = 81920 := by decide
  have offsetLt := UInt32.toNat_lt (u32At sidecar (entryOffset + index * 8))
  have lengthLt := UInt16.toNat_lt (u16At sidecar (entryOffset + index * 8 + 4))
  unfold decodeSidecarEntry Format.decodeSidecarEntry
  refine Returns.step (mulUsize_eq (by omega)) (Returns.step (addUsize_eq (by omega)) ?_)
  refine Returns.step (readU32_eq (by omega) (by omega)) ?_
  refine Returns.step (addUsize_eq (by omega)) ?_
  refine Returns.step (readU16_eq (by omega) (by omega)) ?_
  refine Returns.step (addUsize_eq (by omega)) ?_
  refine Returns.step (readU16_eq (by omega) (by omega)) ?_
  refine Returns.step (addUsize_eq (by omega)) (Returns.step (addUsize_eq (by omega)) ?_)
  refine Returns.step (addUsize_eq (by omega)) ?_
  dsimp only
  split
  · exact Returns.throw _
  · refine Returns.step (readSlice_add (by omega)) ?_
    cases Str.fromUtf8 (slice sidecar (stringOffset + (u32At sidecar (entryOffset + index * 8)).toNat)
        (u16At sidecar (entryOffset + index * 8 + 4)).toNat) with
    | none => exact Returns.throw _
    | some pathPrefix => exact Returns.pure _

theorem decodePathPrefixSidecar_returns (sidecar : Bytes) :
    Returns (decodePathPrefixSidecar sidecar) (Format.decodePathPrefixSidecar sidecar) := by
  have bytes : pathPrefixSidecarBytes = 81920 := by decide
  have stringOffset := UInt32.toNat_lt (u32At sidecar 16)
  have stringBytes := UInt32.toNat_lt (u32At sidecar 20)
  have entryOffset := UInt32.toNat_lt (u32At sidecar 12)
  have prefixCount := UInt16.toNat_lt (u16At sidecar 10)
  unfold decodePathPrefixSidecar Format.decodePathPrefixSidecar
  refine (Returns.ofResult _).bind fun _ sized => ?_
  have size := require_eq_ok.mp sized
  refine Returns.step (readSlice_eq (by decide) (by omega)) ?_
  refine Returns.step (readU16_eq (by omega) (by decide)) ?_
  refine Returns.step (readU16_eq (by omega) (by decide)) ?_
  refine Returns.step (readU32_eq (by omega) (by decide)) ?_
  refine Returns.step (readU32_eq (by omega) (by decide)) ?_
  refine Returns.step (readU32_eq (by omega) (by decide)) ?_
  refine Returns.step (readSlice_eq (by decide) (by omega)) ?_
  refine Returns.step (addUsize_eq (by omega)) (Returns.step (mulUsize_eq (by omega)) ?_)
  refine Returns.step (addUsize_eq (by omega)) ?_
  refine (Returns.ofResult _).bind fun _ checked => ?_
  obtain ⟨_, _, _, _, strings, entries⟩ := require_eq_ok.mp checked
  apply Returns.mapM
  intro index member
  have below := List.mem_range.mp member
  exact decodeSidecarEntry_returns size (by omega) strings

/-! ## Sections -/

/-- One turn over the head entries of `decode`. -/
def headAt (data : Bytes) (base index : Nat) : CheckedResult RustBladeError HeadTermEntry := do
  let before ← mulUsize index HeadTermEntry.headTermEntrySize
  let offset ← addUsize base before
  let stop ← addUsize offset HeadTermEntry.headTermEntrySize
  if stop > data.length then throw .invalidFormat
  else
    let bytes ← readSlice data offset stop
    match ← headFromBytes bytes with
    | some entry => return entry
    | none => throw .invalidFormat

/-- The page at a turn over a section of pages. -/
def pageBytes (data : Bytes) (base index : Nat) : CheckedResult RustBladeError Bytes := do
  let before ← mulUsize index pageSize
  let offset ← addUsize base before
  let stop ← addUsize offset pageSize
  if stop > data.length then throw .invalidFormat else readSlice data offset stop

/-- One turn over the leaf blocks of `decode`. -/
def leafAt (data : Bytes) (base index : Nat) : CheckedResult RustBladeError Page := do
  let bytes ← pageBytes data base index
  match ← leafFromBytes bytes with
  | some page => return page
  | none => throw .invalidFormat

/-- One turn over the index blocks and the entry pages of `decode`;
`copy_from_slice` panics on another length. -/
def blockAt (data : Bytes) (base index : Nat) : CheckedResult RustBladeError Page := do
  let bytes ← pageBytes data base index
  if size : bytes.length = pageSize then return ⟨bytes, size⟩
  else (Except.error Fault.outOfBounds : Checked Page)

/-- One turn over the displacements of `decode`. -/
def displacementAt (data : Bytes) (base index : Nat) : CheckedResult RustBladeError Int := do
  let before ← mulUsize index 4
  let offset ← addUsize base before
  let word ← readU32 data offset
  let value : Int := word.toNat
  return if value < 2 ^ 31 then value else value - 2 ^ 32

/-- An item of a section ends inside it. -/
theorem turn_bound {count index : Nat} (width : Nat) (below : index < count) :
    index * width + width ≤ count * width := by
  have fits := Nat.mul_le_mul_right width below
  rw [Nat.succ_mul] at fits
  exact fits

section Sections

variable {data : Bytes} {base count index : Nat}

theorem headAt_returns (section_ : base + count * HeadTermEntry.headTermEntrySize < 2 ^ 64)
    (below : index < count) : Returns (headAt data base index)
      (Serializer.headAt data (base + index * HeadTermEntry.headTermEntrySize)) := by
  have inside := turn_bound HeadTermEntry.headTermEntrySize below
  unfold headAt Serializer.headAt
  refine Returns.step (mulUsize_eq (by omega)) (Returns.step (addUsize_eq (by omega)) ?_)
  refine Returns.step (addUsize_eq (by omega)) ?_
  split
  · exact Returns.throw _
  · refine Returns.step (readSlice_add (by omega)) ?_
    refine Returns.step (headFromBytes_eq _) ?_
    cases HeadTermEntry.fromBytes (slice data (base + index * HeadTermEntry.headTermEntrySize)
        HeadTermEntry.headTermEntrySize) with
    | none => exact Returns.throw _
    | some entry => exact Returns.pure _

/-- The bytes of a page of a section. -/
theorem pageBytes_returns (section_ : base + count * pageSize < 2 ^ 64) (below : index < count) :
    Returns (pageBytes data base index)
      ((pageAt data (base + index * pageSize)).map Page.data) := by
  have inside := turn_bound pageSize below
  unfold pageBytes pageAt
  refine Returns.step (mulUsize_eq (by omega)) (Returns.step (addUsize_eq (by omega)) ?_)
  refine Returns.step (addUsize_eq (by omega)) ?_
  by_cases long : base + index * pageSize + pageSize > data.length
  · rw [if_pos long, dif_neg (by omega)]
    exact Returns.throw _
  · rw [if_neg long, dif_pos (by omega)]
    rw [readSlice_add (by omega)]
    exact Returns.pure _

theorem leafAt_returns (section_ : base + count * pageSize < 2 ^ 64) (below : index < count) :
    Returns (leafAt data base index) (Serializer.leafAt data (base + index * pageSize)) := by
  have bytes : Returns (pageBytes data base index) _ := pageBytes_returns section_ below
  unfold leafAt Serializer.leafAt
  cases found : pageAt data (base + index * pageSize) with
  | error failure =>
      rw [found] at bytes
      exact bytes.failure _
  | ok page =>
      rw [found] at bytes
      refine Returns.value bytes (Returns.step (leafFromBytes_eq page) ?_)
      show Returns _ (require RustBladeError.invalidFormat (leafBlockValid page = true) >>= _)
      by_cases valid : leafBlockValid page = true
      · rw [if_pos valid, require_bind valid]
        exact Returns.pure _
      · rw [if_neg valid, require, if_neg valid]
        exact Returns.throw _

theorem blockAt_returns (section_ : base + count * pageSize < 2 ^ 64) (below : index < count) :
    Returns (blockAt data base index) (pageAt data (base + index * pageSize)) := by
  have bytes : Returns (pageBytes data base index) _ := pageBytes_returns section_ below
  unfold blockAt
  cases found : pageAt data (base + index * pageSize) with
  | error failure =>
      rw [found] at bytes
      exact bytes.failure _
  | ok page =>
      rw [found] at bytes
      refine Returns.value bytes ?_
      rw [dif_pos page.size]
      exact Returns.pure _

theorem displacementAt_returns (section_ : base + count * 4 ≤ data.length)
    (fits : base + count * 4 < 2 ^ 64) (below : index < count) :
    Returns (displacementAt data base index) (.ok (i32At data (base + index * 4))) := by
  have inside := turn_bound 4 below
  unfold displacementAt
  refine Returns.step (mulUsize_eq (by omega)) (Returns.step (addUsize_eq (by omega)) ?_)
  exact Returns.step (readU32_eq (by omega) (by omega)) (Returns.pure _)

end Sections

/-! ## Records -/

/-- `SetDocLengths` -/
def setDocLengths (store : PostingStore) (docId : UInt64)
    (titleLen bodyLen urlLen anchorLen metaLen : UInt32) : Checked PostingStore := do
  let total := PostingStore.saturatingSub store.totalTerms (store.statsOf docId).docLen.toUInt64
  let docLen ← sumU32 titleLen [bodyLen, urlLen, anchorLen, metaLen]
  let _total ← addU64 total docLen.toUInt64
  return store.setDocLengths docId titleLen bodyLen urlLen anchorLen metaLen

/-- `DecodeDocDataRecord` -/
def decodeDocDataRecord (decodeScore : UInt16 → F32) (store : PostingStore) (index : UInt64)
    (record : Bytes) : Checked PostingStore := do
  let docId ← readU32 record 0
  if docId.toUInt64 ≠ index then return store
  else
    let importance ← readU16 record 4
    let titleLen ← readU32 record 26
    let bodyLen ← readU32 record 30
    let urlLen ← readU32 record 34
    let anchorLen ← readU32 record 38
    let metaLen ← readU32 record 42
    let vectorDim ← readU16 record 54
    let vectorFormat ← readU16 record 56
    let store ← setDocLengths store docId.toUInt64 titleLen bodyLen urlLen anchorLen metaLen
    let store := store.setDocImportance docId.toUInt64 (decodeScore importance)
    if vectorDim.toNat = docVectorDim ∧ vectorFormat ≠ 0 then
      let vector ← readSlice record docVectorOffset (docVectorOffset + docVectorDim)
      return store.setDocVectorBytes docId.toUInt64 vector
    else return store

/-- The loop of `decode` over the records, from a slot on. -/
def decodeRecords (decodeScore : UInt16 → F32) (data : Bytes) (docDataOffset : Nat)
    (firstDocId : UInt64) : (slots slot : Nat) → PostingStore → Checked PostingStore
  | 0, _, store => .ok store
  | slots + 1, slot, store => do
      let before ← mulUsize slot docRecSize
      let offset ← addUsize docDataOffset before
      let index ← addU64 firstDocId (UInt64.ofNat slot)
      let stop ← addUsize offset docRecSize
      let record ← readSlice data offset stop
      let store ← decodeDocDataRecord decodeScore store index record
      decodeRecords decodeScore data docDataOffset firstDocId slots (slot + 1) store

/-- The record in a slot holds the document of the slot. -/
def OwnRecord (firstDocId : UInt64) (slot : Nat) (record : Bytes) : Prop :=
  (DocDataEntry.docId record).toUInt64 = firstDocId + UInt64.ofNat slot

/-- The sum of the stream lengths of a record. -/
def recordLengths (record : Bytes) : Nat :=
  (u32At record 26).toNat + (u32At record 30).toNat + (u32At record 34).toNat +
    (u32At record 38).toNat + (u32At record 42).toNat

/-- The lengths of the record in a slot have a 32-bit sum, where they are read. -/
def RecordFits (firstDocId : UInt64) (slot : Nat) (record : Bytes) : Prop :=
  OwnRecord firstDocId slot record → recordLengths record < 2 ^ 32

instance (firstDocId : UInt64) (slot : Nat) (record : Bytes) :
    Decidable (OwnRecord firstDocId slot record) :=
  inferInstanceAs (Decidable (_ = _))

instance (firstDocId : UInt64) (slot : Nat) (record : Bytes) :
    Decidable (RecordFits firstDocId slot record) :=
  inferInstanceAs (Decidable (OwnRecord firstDocId slot record → _))

section Lengths

variable {store : PostingStore} {docId : UInt64} {titleLen bodyLen urlLen anchorLen metaLen : UInt32}

theorem lengths_sum (titleLen bodyLen urlLen anchorLen metaLen : UInt32) :
    titleLen.toNat + ([bodyLen, urlLen, anchorLen, metaLen].map UInt32.toNat).sum =
      titleLen.toNat + bodyLen.toNat + urlLen.toNat + anchorLen.toNat + metaLen.toNat := by
  simp only [List.map_cons, List.map_nil, List.sum_cons, List.sum_nil]
  omega

/-- The lengths fit, and so does the total: the store takes them. -/
theorem setDocLengths_eq
    (fits : titleLen.toNat + bodyLen.toNat + urlLen.toNat + anchorLen.toNat + metaLen.toNat < 2 ^ 32)
    (total : store.totalTerms.toNat + 2 ^ 32 ≤ 2 ^ 64) :
    setDocLengths store docId titleLen bodyLen urlLen anchorLen metaLen =
      .ok (store.setDocLengths docId titleLen bodyLen urlLen anchorLen metaLen) := by
  have left := PostingStore.saturatingSub_toNat store.totalTerms
    (store.statsOf docId).docLen.toUInt64
  have docLen := UInt32.toNat_lt ([bodyLen, urlLen, anchorLen, metaLen].foldl (· + ·) titleLen)
  unfold setDocLengths
  rw [sumU32_eq (by rw [lengths_sum]; exact fits)]
  show (addU64 _ ([bodyLen, urlLen, anchorLen, metaLen].foldl (· + ·) titleLen).toUInt64 >>= _) = _
  rw [addU64_eq (by rw [UInt32.toNat_toUInt64]; omega)]
  rfl

/-- Lengths with a larger sum overflow. -/
theorem setDocLengths_overflow
    (large : 2 ^ 32 ≤
      titleLen.toNat + bodyLen.toNat + urlLen.toNat + anchorLen.toNat + metaLen.toNat) :
    setDocLengths store docId titleLen bodyLen urlLen anchorLen metaLen = .error .overflow := by
  unfold setDocLengths
  rw [sumU32_overflow (by rw [lengths_sum]; exact large)]
  rfl

/-- The total grows by the lengths at most. -/
theorem totalTerms_setDocLengths (store : PostingStore) (docId : UInt64)
    (titleLen bodyLen urlLen anchorLen metaLen : UInt32)
    (total : store.totalTerms.toNat + 2 ^ 32 ≤ 2 ^ 64) :
    (store.setDocLengths docId titleLen bodyLen urlLen anchorLen metaLen).totalTerms.toNat ≤
      store.totalTerms.toNat + (2 ^ 32 - 1) := by
  have left := PostingStore.saturatingSub_toNat store.totalTerms
    (store.statsOf docId).docLen.toUInt64
  have docLen := UInt32.toNat_lt (titleLen + bodyLen + urlLen + anchorLen + metaLen)
  show (PostingStore.saturatingSub store.totalTerms _ +
    (titleLen + bodyLen + urlLen + anchorLen + metaLen).toUInt64).toNat ≤ _
  rw [UInt64.toNat_add, UInt32.toNat_toUInt64, Nat.mod_eq_of_lt (by omega)]
  omega

end Lengths

section Records

variable {decodeScore : UInt16 → F32} {store : PostingStore} {index : UInt64} {record : Bytes}

/-- The largest total after the records below a document. -/
def totalBound (docId : Nat) : Nat := min docId (2 ^ 32) * (2 ^ 32 - 1)

/-- A record of its own document is read up to its lengths. -/
theorem decodeDocDataRecord_own (size : record.length = docRecSize)
    (own : (DocDataEntry.docId record).toUInt64 = index) :
    decodeDocDataRecord decodeScore store index record = (do
      let store ← setDocLengths store index (u32At record 26) (u32At record 30) (u32At record 34)
        (u32At record 38) (u32At record 42)
      let store := store.setDocImportance index (decodeScore (u16At record 4))
      if (u16At record 54).toNat = docVectorDim ∧ u16At record 56 ≠ 0 then
        let vector ← readSlice record docVectorOffset (docVectorOffset + docVectorDim)
        return store.setDocVectorBytes index vector
      else return store) := by
  have bytes : docRecSize = 256 := rfl
  have word : ∀ offset, offset + 4 ≤ 256 → readU32 record offset = .ok (u32At record offset) :=
    fun offset inside => readU32_eq (by omega) (by omega)
  have half : ∀ offset, offset + 2 ≤ 256 → readU16 record offset = .ok (u16At record offset) :=
    fun offset inside => readU16_eq (by omega) (by omega)
  have same : (u32At record 0).toUInt64 = index := own
  unfold decodeDocDataRecord
  rw [word 0 (by decide), half 4 (by decide), word 26 (by decide), word 30 (by decide),
    word 34 (by decide), word 38 (by decide), word 42 (by decide), half 54 (by decide),
    half 56 (by decide)]
  show (if (u32At record 0).toUInt64 ≠ index then _ else _) = _
  rw [if_neg (not_not.mpr same), same]
  rfl

/-- A record of another document is passed over. -/
theorem decodeDocDataRecord_other (size : record.length = docRecSize)
    (other : (DocDataEntry.docId record).toUInt64 ≠ index) :
    decodeDocDataRecord decodeScore store index record = .ok store := by
  have bytes : docRecSize = 256 := rfl
  unfold decodeDocDataRecord
  rw [readU32_eq (by omega) (by decide)]
  exact if_pos other

/-- A record that fits is taken, and the total stays in range. -/
theorem decodeDocDataRecord_fits (decodeScore : UInt16 → F32) (store : PostingStore) (size : record.length = docRecSize)
    (fits : (DocDataEntry.docId record).toUInt64 = index → recordLengths record < 2 ^ 32)
    (total : store.totalTerms.toNat ≤ totalBound index.toNat) :
    ∃ after, decodeDocDataRecord decodeScore store index record = .ok after ∧
      after.totalTerms.toNat ≤ totalBound (index.toNat + 1) := by
  by_cases own : (DocDataEntry.docId record).toUInt64 = index
  · have small : index.toNat < 2 ^ 32 := by
      rw [← own, UInt32.toNat_toUInt64]
      exact UInt32.toNat_lt _
    have most : totalBound index.toNat ≤ (2 ^ 32 - 1) * (2 ^ 32 - 1) :=
      Nat.mul_le_mul_right _ (by omega)
    have step : totalBound (index.toNat + 1) = totalBound index.toNat + (2 ^ 32 - 1) := by
      rw [totalBound, totalBound, Nat.min_eq_left (by omega), Nat.min_eq_left (by omega),
        Nat.succ_mul]
    have room : store.totalTerms.toNat + 2 ^ 32 ≤ 2 ^ 64 := by omega
    have bound := totalTerms_setDocLengths store index (u32At record 26) (u32At record 30)
      (u32At record 34) (u32At record 38) (u32At record 42) room
    rw [decodeDocDataRecord_own size own, setDocLengths_eq (fits own) room]
    dsimp only [bind, Except.bind]
    split
    · rw [readSlice_eq (by decide) (by rw [size]; decide)]
      refine ⟨_, rfl, ?_⟩
      unfold PostingStore.setDocVectorBytes
      split
      · exact le_trans bound (by omega)
      · exact le_trans bound (by omega)
    · exact ⟨_, rfl, le_trans bound (by omega)⟩
  · rw [decodeDocDataRecord_other size own]
    exact ⟨store, rfl, le_trans total (Nat.mul_le_mul_right _ (by omega))⟩

/-- A record of its own document that does not fit overflows. -/
theorem decodeDocDataRecord_overflow (size : record.length = docRecSize)
    (own : (DocDataEntry.docId record).toUInt64 = index)
    (large : 2 ^ 32 ≤ recordLengths record) :
    decodeDocDataRecord decodeScore store index record = .error .overflow := by
  rw [decodeDocDataRecord_own size own, setDocLengths_overflow large]
  rfl

end Records

/-- The record in a slot of the section of a file. -/
def recordAt (data : Bytes) (docDataOffset slot : Nat) : Bytes :=
  slice data (docDataOffset + slot * docRecSize) docRecSize

section RecordLoop

variable {decodeScore : UInt16 → F32} {data : Bytes} {docDataOffset : Nat} {firstDocId : UInt64}

/-- One turn of the loop reads the record of its slot. -/
theorem decodeRecords_succ (decodeScore : UInt16 → F32) {slots slot : Nat} (store : PostingStore)
    (inside : docDataOffset + (slot + (slots + 1)) * docRecSize ≤ data.length)
    (fits : docDataOffset + (slot + (slots + 1)) * docRecSize < 2 ^ 64)
    (small : firstDocId.toNat < 2 ^ 32) :
    (firstDocId + UInt64.ofNat slot).toNat = firstDocId.toNat + slot ∧
      (recordAt data docDataOffset slot).length = docRecSize ∧
      decodeRecords decodeScore data docDataOffset firstDocId (slots + 1) slot store =
        (decodeDocDataRecord decodeScore store (firstDocId + UInt64.ofNat slot)
          (recordAt data docDataOffset slot) >>=
            decodeRecords decodeScore data docDataOffset firstDocId slots (slot + 1)) := by
  have ends : docDataOffset + slot * docRecSize + docRecSize ≤
      docDataOffset + (slot + (slots + 1)) * docRecSize := by
    have below := turn_bound docRecSize
      (Nat.lt_add_of_pos_right (Nat.succ_pos slots) : slot < slot + (slots + 1))
    omega
  have few : slot < 2 ^ 56 := by
    have size : docRecSize = 256 := rfl
    have before : slot * 256 < 2 ^ 64 := by
      rw [← size]
      omega
    omega
  have slotNat : (UInt64.ofNat slot).toNat = slot := toNat_ofNat_of_lt slot (by omega)
  have index : addU64 firstDocId (UInt64.ofNat slot) = .ok (firstDocId + UInt64.ofNat slot) :=
    addU64_eq (by rw [slotNat]; omega)
  refine ⟨?_, slice_length_of_le (le_trans ends inside), ?_⟩
  · rw [UInt64.toNat_add, slotNat, Nat.mod_eq_of_lt (by omega)]
  · rw [decodeRecords, mulUsize_eq (by omega)]
    show (addUsize docDataOffset (slot * docRecSize) >>= _) = _
    rw [addUsize_eq (by omega), index]
    show (addUsize (docDataOffset + slot * docRecSize) docRecSize >>= _) = _
    rw [addUsize_eq (by omega)]
    show (readSlice data _ _ >>= _) = _
    rw [readSlice_add (le_trans ends inside), recordAt]
    rfl

theorem decodeRecords_fits (decodeScore : UInt16 → F32) {slots slot : Nat} {store : PostingStore}
    (inside : docDataOffset + (slot + slots) * docRecSize ≤ data.length)
    (range : docDataOffset + (slot + slots) * docRecSize < 2 ^ 64)
    (small : firstDocId.toNat < 2 ^ 32)
    (fits : ∀ other, slot ≤ other → other < slot + slots →
      RecordFits firstDocId other (recordAt data docDataOffset other))
    (total : store.totalTerms.toNat ≤ totalBound (firstDocId.toNat + slot)) :
    ∃ after, decodeRecords decodeScore data docDataOffset firstDocId slots slot store =
      .ok after := by
  induction slots generalizing slot store with
  | zero => exact ⟨store, rfl⟩
  | succ slots inductionHypothesis =>
      obtain ⟨index, size, turn⟩ := decodeRecords_succ decodeScore store inside range small
      obtain ⟨after, ran, bound⟩ := decodeDocDataRecord_fits decodeScore store size (fits slot le_rfl (by omega)) (by rw [index]; exact total)
      rw [turn, ran]
      refine inductionHypothesis ?_ ?_ ?_ ?_
      · rw [Nat.add_assoc, Nat.add_comm 1]
        exact inside
      · rw [Nat.add_assoc, Nat.add_comm 1]
        exact range
      · intro other from_ below
        exact fits other (by omega) (by omega)
      · rw [index] at bound
        exact bound

/-- The first record that does not fit overflows. -/
theorem decodeRecords_overflow {slots slot : Nat} {store : PostingStore}
    (inside : docDataOffset + (slot + slots) * docRecSize ≤ data.length)
    (range : docDataOffset + (slot + slots) * docRecSize < 2 ^ 64)
    (small : firstDocId.toNat < 2 ^ 32) {other : Nat} (from_ : slot ≤ other)
    (below : other < slot + slots)
    (large : ¬ RecordFits firstDocId other (recordAt data docDataOffset other))
    (total : store.totalTerms.toNat ≤ totalBound (firstDocId.toNat + slot)) :
    decodeRecords decodeScore data docDataOffset firstDocId slots slot store =
      .error .overflow := by
  induction slots generalizing slot store with
  | zero => omega
  | succ slots inductionHypothesis =>
      obtain ⟨index, size, turn⟩ := decodeRecords_succ decodeScore store inside range small
      rw [turn]
      by_cases fits : RecordFits firstDocId slot (recordAt data docDataOffset slot)
      · obtain ⟨after, ran, bound⟩ := decodeDocDataRecord_fits decodeScore store size fits (by rw [index]; exact total)
        have later : slot ≠ other := by
          rintro rfl
          exact large fits
        rw [ran]
        refine inductionHypothesis ?_ ?_ (by omega) (by omega) ?_
        · rw [Nat.add_assoc, Nat.add_comm 1]
          exact inside
        · rw [Nat.add_assoc, Nat.add_comm 1]
          exact range
        · rw [index] at bound
          exact bound
      · obtain ⟨own, sum⟩ := Classical.not_imp.mp fits
        rw [decodeDocDataRecord_overflow size own (not_lt.mp sum)]
        rfl

end RecordLoop

/-! ## `decode` -/

/-- What `decode` has read before the records. -/
structure DecodedFront where
  header : IndexFileHeader
  head : List HeadTermEntry
  leafBlocks : List Page
  docData : Bytes
  sidecar : Bytes
  prefixes : List Str

/-- `decode` up to the records, without the checks. -/
def frontOf (data : Bytes) : Except RustBladeError DecodedFront := do
  let header ← IndexFileHeader.parse data
  let _ ← header.validateLayout (some data.length)
  require .invalidFormat (indexFileHeaderSize + pathPrefixSidecarBytes ≤ data.length)
  let sidecar := slice data indexFileHeaderSize pathPrefixSidecarBytes
  let prefixes ← Format.decodePathPrefixSidecar sidecar
  let head ← (List.range header.headTermEntryCount.toNat).mapM fun index =>
    Serializer.headAt data
      (header.headTermEntryOffset.toNat + index * HeadTermEntry.headTermEntrySize)
  let leafBlocks ← (List.range header.leafTermBlockCount.toNat).mapM fun index =>
    Serializer.leafAt data (header.leafTermBlockOffset.toNat + index * pageSize)
  let docDataSize := header.numDocuments.toNat * docRecSize
  require .invalidFormat (header.docDataOffset.toNat + docDataSize ≤ data.length)
  return ⟨header, head, leafBlocks, slice data header.docDataOffset.toNat docDataSize, sidecar,
    prefixes⟩

/-- `decode` behind the records, without the checks. -/
def backOf (data : Bytes) (front : DecodedFront) : Except RustBladeError DecodedIndexData := do
  let indexBlocks ← (List.range front.header.indexBlockCount.toNat).mapM fun index =>
    pageAt data (front.header.indexBlockOffset.toNat + index * pageSize)
  let (mphfHeader, mphfDisplacements, mphfEntryPages) ←
    Serializer.decodeTermMphf data front.header
  return ⟨front.head, front.leafBlocks, indexBlocks, front.docData, front.sidecar, front.prefixes,
    mphfHeader, mphfDisplacements, mphfEntryPages⟩

theorem decode_eq_front_back (data : Bytes) :
    Serializer.decode data = frontOf data >>= backOf data := by
  simp only [Serializer.decode, frontOf, backOf, bind_assoc, pure_bind]

/-- The header a front comes from has a layout inside the file. -/
theorem frontOf_layout {data : Bytes} {front : DecodedFront} (ok : frontOf data = .ok front) :
    front.header.Layout ∧ front.header.stop ≤ data.length ∧
      front.docData = slice data front.header.docDataOffset.toNat
        (front.header.numDocuments.toNat * docRecSize) := by
  obtain ⟨header, _, ok⟩ := bind_ok.mp ok
  obtain ⟨last, valid, ok⟩ := bind_ok.mp ok
  obtain ⟨_, _, ok⟩ := bind_ok.mp ok
  obtain ⟨prefixes, _, ok⟩ := bind_ok.mp ok
  obtain ⟨head, _, ok⟩ := bind_ok.mp ok
  obtain ⟨leafBlocks, _, ok⟩ := bind_ok.mp ok
  obtain ⟨_, _, ok⟩ := bind_ok.mp ok
  obtain rfl := Except.ok.inj ok
  obtain ⟨layout, _, inFile⟩ := IndexFileHeader.validateLayout_eq_ok.mp valid
  exact ⟨layout, inFile _ rfl, rfl⟩

theorem frontOf_parse {data : Bytes} {front : DecodedFront} (ok : frontOf data = .ok front) :
    IndexFileHeader.parse data = .ok front.header := by
  obtain ⟨header, parsed, ok⟩ := bind_ok.mp ok
  obtain ⟨_, _, ok⟩ := bind_ok.mp ok
  obtain ⟨_, _, ok⟩ := bind_ok.mp ok
  obtain ⟨_, _, ok⟩ := bind_ok.mp ok
  obtain ⟨_, _, ok⟩ := bind_ok.mp ok
  obtain ⟨_, _, ok⟩ := bind_ok.mp ok
  obtain ⟨_, _, ok⟩ := bind_ok.mp ok
  obtain rfl := Except.ok.inj ok
  exact parsed

/-- `DocDataFirstDocId` -/
def docDataFirstDocId (docData : Bytes) (header : IndexFileHeader) : Checked UInt64 :=
  if header.numDocuments > 0 ∧ docData.length ≥ docRecSize then
    (readU32 docData 0).map UInt32.toUInt64
  else .ok 0

theorem docDataFirstDocId_eq (docData : Bytes) (header : IndexFileHeader) :
    docDataFirstDocId docData header = .ok (Format.docDataFirstDocId docData header) := by
  have size : docRecSize = 256 := rfl
  unfold docDataFirstDocId Format.docDataFirstDocId
  split
  · rw [readU32_eq (by omega) (by decide)]
    rfl
  · rfl

/-- `decode` up to the records. -/
def decodeFront (data : Bytes) : CheckedResult RustBladeError DecodedFront := do
  let header ← parse data
  let _ ← ofResult (header.validateLayout (some data.length))
  let sidecarEnd ← addUsize indexFileHeaderSize pathPrefixSidecarBytes
  ofResult (require .invalidFormat (sidecarEnd ≤ data.length))
  let sidecar ← readSlice data indexFileHeaderSize sidecarEnd
  let prefixes ← decodePathPrefixSidecar sidecar
  let head ← (List.range header.headTermEntryCount.toNat).mapM
    (headAt data header.headTermEntryOffset.toNat)
  let leafBlocks ← (List.range header.leafTermBlockCount.toNat).mapM
    (leafAt data header.leafTermBlockOffset.toNat)
  let docDataSize ← mulUsize header.numDocuments.toNat docRecSize
  let docDataEnd ← addUsize header.docDataOffset.toNat docDataSize
  ofResult (require .invalidFormat (docDataEnd ≤ data.length))
  let docData ← readSlice data header.docDataOffset.toNat docDataEnd
  return ⟨header, head, leafBlocks, docData, sidecar, prefixes⟩

theorem decodeFront_returns (data : Bytes) : Returns (decodeFront data) (frontOf data) := by
  have sidecarEnd : addUsize indexFileHeaderSize pathPrefixSidecarBytes =
      .ok (indexFileHeaderSize + pathPrefixSidecarBytes) := addUsize_eq (by decide)
  unfold decodeFront frontOf
  refine (parse_returns data).bind fun header _ => ?_
  refine (Returns.ofResult _).bind fun last valid => ?_
  obtain ⟨layout, _, _⟩ := IndexFileHeader.validateLayout_eq_ok.mp valid
  have leafEnd : header.headTermEntryOffset.toNat +
      header.headTermEntryCount.toNat * HeadTermEntry.headTermEntrySize < 2 ^ 64 :=
    layout.leaf ▸ header.leafTermBlockOffset.toNat_lt
  have docDataStart : header.leafTermBlockOffset.toNat +
      header.leafTermBlockCount.toNat * pageSize < 2 ^ 64 :=
    layout.docData ▸ header.docDataOffset.toNat_lt
  have docDataEnd : header.docDataOffset.toNat + header.numDocuments.toNat * docRecSize < 2 ^ 64 :=
    layout.index ▸ header.indexBlockOffset.toNat_lt
  refine Returns.step sidecarEnd ((Returns.ofResult _).bind fun _ long => ?_)
  have inside := require_eq_ok.mp long
  refine Returns.step (readSlice_add inside) ?_
  refine (decodePathPrefixSidecar_returns _).bind fun prefixes _ => ?_
  refine (Returns.mapM fun index member => headAt_returns leafEnd (List.mem_range.mp member)).bind
    fun head _ => ?_
  refine (Returns.mapM fun index member =>
    leafAt_returns docDataStart (List.mem_range.mp member)).bind fun leafBlocks _ => ?_
  refine Returns.step (mulUsize_eq (by omega)) (Returns.step (addUsize_eq docDataEnd) ?_)
  refine (Returns.ofResult _).bind fun _ records => ?_
  refine Returns.step (readSlice_add (require_eq_ok.mp records)) ?_
  exact Returns.pure _

/-- The hash tables of `decode`. -/
def decodeTermMphf (data : Bytes) (header : IndexFileHeader) :
    CheckedResult RustBladeError (TermMphfHeader × List Int × List Page) :=
  if header.termMphfHeaderCount = 0 then return (.default, [], [])
  else do
    ofResult (require .invalidFormat (header.termMphfHeaderCount = 1))
    let headerEnd ← addUsize header.termMphfHeaderOffset.toNat termMphfHeaderSize
    ofResult (require .invalidFormat (headerEnd ≤ data.length))
    let bytes ← readSlice data header.termMphfHeaderOffset.toNat headerEnd
    match ← termMphfHeaderFromBytes bytes with
    | none => throw .invalidFormat
    | some mphfHeader =>
        ofResult (require .invalidFormat (mphfHeader.magic = termMphfMagic))
        let displacementBytes ← mulUsize header.termMphfDisplacementCount.toNat 4
        let displacementEnd ← addUsize header.termMphfDisplacementOffset.toNat displacementBytes
        ofResult (require .invalidFormat (displacementEnd ≤ data.length))
        let displacements ← (List.range header.termMphfDisplacementCount.toNat).mapM
          (displacementAt data header.termMphfDisplacementOffset.toNat)
        let entryBytes ← mulUsize header.termMphfEntryPageCount.toNat pageSize
        let entryEnd ← addUsize header.termMphfEntryOffset.toNat entryBytes
        ofResult (require .invalidFormat (entryEnd ≤ data.length))
        let entryPages ← (List.range header.termMphfEntryPageCount.toNat).mapM
          (blockAt data header.termMphfEntryOffset.toNat)
        return (mphfHeader, displacements, entryPages)

theorem decodeTermMphf_returns {data : Bytes} {header : IndexFileHeader} (layout : header.Layout) :
    Returns (decodeTermMphf data header) (Serializer.decodeTermMphf data header) := by
  have displacementStart : header.termMphfHeaderOffset.toNat +
      header.termMphfHeaderCount.toNat * termMphfHeaderSize < 2 ^ 64 :=
    layout.displacement ▸ header.termMphfDisplacementOffset.toNat_lt
  have entryStart : header.termMphfDisplacementOffset.toNat +
      header.termMphfDisplacementCount.toNat * 4 < 2 ^ 64 :=
    layout.entries ▸ header.termMphfEntryOffset.toNat_lt
  have entryEnd : header.termMphfEntryOffset.toNat +
      header.termMphfEntryPageCount.toNat * pageSize < 2 ^ 64 := layout.bounded
  unfold decodeTermMphf Serializer.decodeTermMphf
  split
  · exact Returns.pure _
  · refine (Returns.ofResult _).bind fun _ single => ?_
    have one : header.termMphfHeaderCount.toNat = 1 :=
      congrArg UInt64.toNat (require_eq_ok.mp single)
    rw [one, Nat.one_mul] at displacementStart
    refine Returns.step (addUsize_eq displacementStart) ?_
    refine (Returns.ofResult _).bind fun _ long => ?_
    have inside := require_eq_ok.mp long
    refine Returns.step (readSlice_add inside) ?_
    refine Returns.step (termMphfHeaderFromBytes_eq (slice_length_of_le inside)) ?_
    rw [termMphfHeaderAt_slice]
    refine (Returns.ofResult _).bind fun _ magic => ?_
    refine Returns.step (mulUsize_eq (by omega)) (Returns.step (addUsize_eq entryStart) ?_)
    refine (Returns.ofResult _).bind fun _ displacements => ?_
    refine Returns.value (Returns.mapM_ok fun index member =>
      displacementAt_returns (require_eq_ok.mp displacements) entryStart
        (List.mem_range.mp member)) ?_
    refine Returns.step (mulUsize_eq (by omega)) (Returns.step (addUsize_eq entryEnd) ?_)
    refine (Returns.ofResult _).bind fun _ _ => ?_
    refine (Returns.mapM fun index member =>
      blockAt_returns entryEnd (List.mem_range.mp member)).bind fun entryPages _ => ?_
    exact Returns.pure _

/-- `decode` behind the records. -/
def decodeBack (data : Bytes) (front : DecodedFront) :
    CheckedResult RustBladeError DecodedIndexData := do
  let indexBlocks ← (List.range front.header.indexBlockCount.toNat).mapM
    (blockAt data front.header.indexBlockOffset.toNat)
  let (mphfHeader, mphfDisplacements, mphfEntryPages) ← decodeTermMphf data front.header
  return ⟨front.head, front.leafBlocks, indexBlocks, front.docData, front.sidecar, front.prefixes,
    mphfHeader, mphfDisplacements, mphfEntryPages⟩

theorem decodeBack_returns {data : Bytes} {front : DecodedFront} (layout : front.header.Layout) :
    Returns (decodeBack data front) (backOf data front) := by
  have blocksEnd : front.header.indexBlockOffset.toNat +
      front.header.indexBlockCount.toNat * pageSize < 2 ^ 64 :=
    layout.mphfHeader ▸ front.header.termMphfHeaderOffset.toNat_lt
  unfold decodeBack backOf
  refine (Returns.mapM fun index member =>
    blockAt_returns blocksEnd (List.mem_range.mp member)).bind fun indexBlocks _ => ?_
  exact (decodeTermMphf_returns layout).bind fun tables _ => Returns.pure _

/-- `decode` into the new store its caller passes and then drops. -/
def decode (decodeScore : UInt16 → F32) (data : Bytes) :
    CheckedResult RustBladeError DecodedIndexData := do
  let front ← decodeFront data
  let firstDocId ← docDataFirstDocId front.docData front.header
  let _store ← decodeRecords decodeScore data front.header.docDataOffset.toNat firstDocId
    front.header.numDocuments.toNat 0 .new
  decodeBack data front

end MoonShot.Untrusted
