import MoonShot.Format.Pages
import MoonShot.Lib.Outcome

/-!
The file header (`IndexFileHeader`) and the layout it promises.

Owns the 136 bytes of the header with their parser, the errors of the format,
and `validate_layout`: the sections of an index file follow each other without
gaps and every offset is computed without overflow. `Layout` is that property
in natural numbers, and the check accepts exactly the headers that have it.

Does not own what is in the sections.
-/

namespace MoonShot.Format

open MoonShot.Lib
open MoonShot.Postings

/-! ## Errors -/

/-- The values of `RustBladeError` that index files can raise; the operating
system's own error is not told apart. -/
inductive RustBladeError where
  | io
  | invalidFormat
  | indexNotBuilt
deriving DecidableEq, Repr

/-! ## Constants -/

/-- `INDEX_FILE_MAGIC`, the bytes of `MOONSHOT`. -/
def indexFileMagic : Bytes := [0x4D, 0x4F, 0x4F, 0x4E, 0x53, 0x48, 0x4F, 0x54]

theorem indexFileMagic_length : indexFileMagic.length = 8 := rfl

/-- `INDEX_FILE_HEADER_SIZE` -/
def indexFileHeaderSize : Nat := 136

/-- `INDEX_FORMAT_VERSION` -/
def indexFormatVersion : UInt32 := 20

/-- `PATH_PREFIX_SIDECAR_BYTES` -/
def pathPrefixSidecarBytes : Nat := 20 * pageSize

/-- `DOC_REC_SIZE` -/
def docRecSize : Nat := 256

/-- `TERM_MPHF_HEADER_SIZE` -/
def termMphfHeaderSize : Nat := 48

/-! ## The header -/

/-- `IndexFileHeader` -/
structure IndexFileHeader where
  magic : Bytes
  magicSize : magic.length = 8
  version : UInt32
  avgDocLength : F32
  numDocuments : UInt64
  numTerms : UInt64
  headTermEntryOffset : UInt64
  headTermEntryCount : UInt64
  leafTermBlockOffset : UInt64
  leafTermBlockCount : UInt64
  docDataOffset : UInt64
  indexBlockOffset : UInt64
  indexBlockCount : UInt64
  termMphfHeaderOffset : UInt64
  termMphfHeaderCount : UInt64
  termMphfDisplacementOffset : UInt64
  termMphfDisplacementCount : UInt64
  termMphfEntryOffset : UInt64
  termMphfEntryPageCount : UInt64
deriving DecidableEq

namespace IndexFileHeader

/-- `IndexFileHeader::zeroed` -/
def zeroed : IndexFileHeader :=
  ⟨List.replicate 8 0, rfl, 0, 0, 0, 0, 0, 0, 0, 0, 0, 0, 0, 0, 0, 0, 0, 0, 0⟩

/-- The sections' numbers, in the order `to_bytes` writes them. -/
def words (header : IndexFileHeader) : List UInt64 :=
  [header.numDocuments, header.numTerms, header.headTermEntryOffset, header.headTermEntryCount,
    header.leafTermBlockOffset, header.leafTermBlockCount, header.docDataOffset,
    header.indexBlockOffset, header.indexBlockCount, header.termMphfHeaderOffset,
    header.termMphfHeaderCount, header.termMphfDisplacementOffset,
    header.termMphfDisplacementCount, header.termMphfEntryOffset, header.termMphfEntryPageCount]

def fields (header : IndexFileHeader) : List Bytes :=
  header.magic :: u32Bytes header.version :: u32Bytes header.avgDocLength ::
    header.words.map u64Bytes

/-- `to_bytes` -/
def toBytes (header : IndexFileHeader) : Bytes := header.fields.flatten

@[simp] theorem toBytes_length (header : IndexFileHeader) :
    header.toBytes.length = indexFileHeaderSize := by
  simp [toBytes, fields, words, header.magicSize, indexFileHeaderSize]

/-- `is_zeroed` -/
def isZeroed (header : IndexFileHeader) : Bool := header.toBytes.all (· == 0)

/-- `parse` -/
def parse (data : Bytes) : Except RustBladeError IndexFileHeader :=
  if long : data.length < indexFileHeaderSize ∨ slice data 0 8 ≠ indexFileMagic then
    .error .invalidFormat
  else if u32At data 8 ≠ indexFormatVersion then .error .invalidFormat
  else
    .ok
      { magic := slice data 0 8
        magicSize := by
          have bound : indexFileHeaderSize = 136 := rfl
          rw [slice_length]
          omega
        version := u32At data 8
        avgDocLength := u32At data 12
        numDocuments := u64At data 16
        numTerms := u64At data 24
        headTermEntryOffset := u64At data 32
        headTermEntryCount := u64At data 40
        leafTermBlockOffset := u64At data 48
        leafTermBlockCount := u64At data 56
        docDataOffset := u64At data 64
        indexBlockOffset := u64At data 72
        indexBlockCount := u64At data 80
        termMphfHeaderOffset := u64At data 88
        termMphfHeaderCount := u64At data 96
        termMphfDisplacementOffset := u64At data 104
        termMphfDisplacementCount := u64At data 112
        termMphfEntryOffset := u64At data 120
        termMphfEntryPageCount := u64At data 128 }

/-- A header of this format version. -/
structure Current (header : IndexFileHeader) : Prop where
  magic : header.magic = indexFileMagic
  version : header.version = indexFormatVersion

/-- Word `index` of the header in a buffer that starts with it. -/
theorem word_of_stored {data : Bytes} {header : IndexFileHeader}
    (stored : slice data 0 indexFileHeaderSize = header.toBytes) {index : Nat} {word : UInt64}
    (found : header.words[index]? = some word) : u64At data (16 + 8 * index) = word := by
  have below : index < 15 := (List.getElem?_eq_some_iff.mp found).1
  have size : indexFileHeaderSize = 136 := rfl
  have before : (header.fields.take (index + 3)).flatten.length = 16 + 8 * index := by
    have lengths : ∀ count, ((header.words.take count).map u64Bytes).flatten.length =
        8 * min count 15 := by
      intro count
      rw [List.length_flatten, List.map_map]
      have constant : (List.length ∘ u64Bytes) = fun _ => 8 := by
        funext value
        exact u64Bytes_length value
      rw [constant, List.map_const', List.sum_replicate, List.length_take]
      show min count 15 * 8 = 8 * min count 15
      omega
    rw [fields, List.take_succ_cons, List.take_succ_cons, List.take_succ_cons, ← List.map_take]
    simp only [List.flatten_cons, List.length_append, header.magicSize, u32Bytes_length,
      lengths index]
    omega
  have field : header.fields[index + 3]? = some (u64Bytes word) := by
    rw [fields]
    simp only [List.getElem?_cons_succ, List.getElem?_map, found, Option.map_some]
  have inHeader := slice_field field before (u64Bytes_length word)
  apply u64At_eq
  rw [← inHeader]
  show _ = slice header.toBytes _ _
  rw [← stored, slice_slice (by omega), Nat.zero_add]

/-- Parsing what `to_bytes` wrote, whatever follows it. -/
theorem parse_of_stored {data : Bytes} {header : IndexFileHeader} (current : header.Current)
    (stored : slice data 0 indexFileHeaderSize = header.toBytes) : parse data = .ok header := by
  have size : indexFileHeaderSize = 136 := rfl
  have long : ¬ data.length < indexFileHeaderSize := by
    have := congrArg List.length stored
    rw [slice_length, toBytes_length] at this
    omega
  have part : ∀ start width, start + width ≤ 136 →
      slice data start width = slice header.toBytes start width := by
    intro start width inside
    rw [← stored, slice_slice (by omega), Nat.zero_add]
  have magicField : slice data 0 8 = header.magic := by
    rw [part 0 8 (by omega)]
    exact slice_field (rfl : header.fields[0]? = some _) rfl header.magicSize
  have versionField : u32At data 8 = header.version := by
    apply u32At_eq
    rw [part 8 4 (by omega)]
    exact slice_field (rfl : header.fields[1]? = some _)
      (by simp [fields, header.magicSize]) (u32Bytes_length _)
  have averageField : u32At data 12 = header.avgDocLength := by
    apply u32At_eq
    rw [part 12 4 (by omega)]
    exact slice_field (rfl : header.fields[2]? = some _)
      (by simp [fields, header.magicSize]) (u32Bytes_length _)
  have word := fun index (value : UInt64) (found : header.words[index]? = some value) =>
    word_of_stored stored found
  have allWords :
      u64At data 16 = _ ∧ u64At data 24 = _ ∧ u64At data 32 = _ ∧ u64At data 40 = _ ∧
      u64At data 48 = _ ∧ u64At data 56 = _ ∧ u64At data 64 = _ ∧ u64At data 72 = _ ∧
      u64At data 80 = _ ∧ u64At data 88 = _ ∧ u64At data 96 = _ ∧ u64At data 104 = _ ∧
      u64At data 112 = _ ∧ u64At data 120 = _ ∧ u64At data 128 = _ :=
    ⟨word 0 _ rfl, word 1 _ rfl, word 2 _ rfl, word 3 _ rfl, word 4 _ rfl, word 5 _ rfl,
      word 6 _ rfl, word 7 _ rfl, word 8 _ rfl, word 9 _ rfl, word 10 _ rfl, word 11 _ rfl,
      word 12 _ rfl, word 13 _ rfl, word 14 _ rfl⟩
  obtain ⟨w0, w1, w2, w3, w4, w5, w6, w7, w8, w9, w10, w11, w12, w13, w14⟩ := allWords
  have accepted : ¬ (data.length < indexFileHeaderSize ∨ slice data 0 8 ≠ indexFileMagic) := by
    rw [magicField, current.magic]
    simpa using long
  rw [parse, dif_neg accepted, if_neg (by rw [versionField, current.version]; simp)]
  cases header
  simp only [magicField, versionField, averageField, w0, w1, w2, w3, w4, w5, w6, w7, w8, w9, w10,
    w11, w12, w13, w14]

/-! ## Layout -/

/-- The closure `checked_end`: the end of `count` items of `width` bytes. -/
def checkedEnd (offset count : UInt64) (width : Nat) : Except RustBladeError UInt64 :=
  if offset.toNat + count.toNat * width < 2 ^ 64 then
    .ok (UInt64.ofNat (offset.toNat + count.toNat * width))
  else .error .invalidFormat

/-- The largest 32-bit value, as the counts are compared with it. -/
def u32Max : UInt64 := 0xFFFFFFFF

/-- `validate_layout` -/
def validateLayout (header : IndexFileHeader) (fileBytes : Option Nat) :
    Except RustBladeError UInt64 := do
  require .invalidFormat (¬ (header.termMphfHeaderCount > 1 ∨ header.headTermEntryCount > u32Max ∨
    header.leafTermBlockCount > u32Max ∨ header.indexBlockCount > u32Max ∨
    header.termMphfDisplacementCount > u32Max ∨ header.termMphfEntryPageCount > u32Max ∨
    (header.termMphfHeaderCount = 0 ∧
      (header.termMphfDisplacementCount ≠ 0 ∨ header.termMphfEntryPageCount ≠ 0)) ∨
    (header.termMphfHeaderCount = 1 ∧
      (header.termMphfDisplacementCount = 0 ∨ header.termMphfEntryPageCount = 0))))
  let head := UInt64.ofNat (indexFileHeaderSize + pathPrefixSidecarBytes)
  require .invalidFormat (header.headTermEntryOffset = head)
  let leaf ← checkedEnd head header.headTermEntryCount 32
  require .invalidFormat (header.leafTermBlockOffset = leaf)
  let docdata ← checkedEnd leaf header.leafTermBlockCount pageSize
  require .invalidFormat (header.docDataOffset = docdata)
  let index ← checkedEnd docdata header.numDocuments docRecSize
  require .invalidFormat (header.indexBlockOffset = index)
  let mphfHeader ← checkedEnd index header.indexBlockCount pageSize
  require .invalidFormat (header.termMphfHeaderOffset = mphfHeader)
  let displacement ← checkedEnd mphfHeader header.termMphfHeaderCount termMphfHeaderSize
  require .invalidFormat (header.termMphfDisplacementOffset = displacement)
  let entries ← checkedEnd displacement header.termMphfDisplacementCount 4
  require .invalidFormat (header.termMphfEntryOffset = entries)
  let stop ← checkedEnd entries header.termMphfEntryPageCount pageSize
  require .invalidFormat (∀ bytes, fileBytes = some bytes → stop.toNat ≤ bytes)
  return stop

/-- Where the last section ends. -/
def stop (header : IndexFileHeader) : Nat :=
  header.termMphfEntryOffset.toNat + header.termMphfEntryPageCount.toNat * pageSize

/-- The sections follow each other without gaps, and their numbers fit. -/
structure Layout (header : IndexFileHeader) : Prop where
  counts : ¬ (header.termMphfHeaderCount > 1 ∨ header.headTermEntryCount > u32Max ∨
    header.leafTermBlockCount > u32Max ∨ header.indexBlockCount > u32Max ∨
    header.termMphfDisplacementCount > u32Max ∨ header.termMphfEntryPageCount > u32Max ∨
    (header.termMphfHeaderCount = 0 ∧
      (header.termMphfDisplacementCount ≠ 0 ∨ header.termMphfEntryPageCount ≠ 0)) ∨
    (header.termMphfHeaderCount = 1 ∧
      (header.termMphfDisplacementCount = 0 ∨ header.termMphfEntryPageCount = 0)))
  head : header.headTermEntryOffset.toNat = indexFileHeaderSize + pathPrefixSidecarBytes
  leaf : header.leafTermBlockOffset.toNat =
    header.headTermEntryOffset.toNat + header.headTermEntryCount.toNat * 32
  docData : header.docDataOffset.toNat =
    header.leafTermBlockOffset.toNat + header.leafTermBlockCount.toNat * pageSize
  index : header.indexBlockOffset.toNat =
    header.docDataOffset.toNat + header.numDocuments.toNat * docRecSize
  mphfHeader : header.termMphfHeaderOffset.toNat =
    header.indexBlockOffset.toNat + header.indexBlockCount.toNat * pageSize
  displacement : header.termMphfDisplacementOffset.toNat =
    header.termMphfHeaderOffset.toNat + header.termMphfHeaderCount.toNat * termMphfHeaderSize
  entries : header.termMphfEntryOffset.toNat =
    header.termMphfDisplacementOffset.toNat + header.termMphfDisplacementCount.toNat * 4
  bounded : header.stop < 2 ^ 64

theorem checkedEnd_eq_ok {offset count result : UInt64} {width : Nat} :
    checkedEnd offset count width = .ok result ↔
      result.toNat = offset.toNat + count.toNat * width := by
  have resultLt := result.toNat_lt
  unfold checkedEnd
  by_cases fits : offset.toNat + count.toNat * width < 2 ^ 64
  · rw [if_pos fits, Except.ok.injEq, ← UInt64.toNat_inj, UInt64.toNat_ofNat',
      Nat.mod_eq_of_lt fits]
    exact eq_comm
  · rw [if_neg fits]
    constructor
    · intro failed
      cases failed
    · intro equal
      omega

/-- The check accepts exactly the headers with the layout, in files long enough. -/
theorem validateLayout_eq_ok {header : IndexFileHeader} {fileBytes : Option Nat} {last : UInt64} :
    header.validateLayout fileBytes = .ok last ↔
      header.Layout ∧ last.toNat = header.stop ∧
        ∀ bytes, fileBytes = some bytes → header.stop ≤ bytes := by
  have headNat : (UInt64.ofNat (indexFileHeaderSize + pathPrefixSidecarBytes)).toNat =
      indexFileHeaderSize + pathPrefixSidecarBytes := by
    decide
  have lastLt := last.toNat_lt
  simp only [validateLayout, bind_ok, require_eq_ok, exists_const, checkedEnd_eq_ok, pure,
    Except.pure, Except.ok.injEq]
  constructor
  · rintro ⟨counts, head, leaf, leafEq, rfl, docData, docDataEq, rfl, index, indexEq, rfl,
      mphfHeader, mphfHeaderEq, rfl, displacement, displacementEq, rfl, entries, entriesEq, rfl,
      stop, stopEq, inFile, rfl⟩
    have total : stop.toNat = header.stop := stopEq
    rw [← head] at leafEq headNat
    rw [total] at inFile
    exact ⟨⟨counts, headNat, leafEq, docDataEq, indexEq, mphfHeaderEq, displacementEq, entriesEq,
      by omega⟩, total, inFile⟩
  · rintro ⟨layout, total, inFile⟩
    have head : header.headTermEntryOffset =
        UInt64.ofNat (indexFileHeaderSize + pathPrefixSidecarBytes) := by
      apply UInt64.toNat_inj.mp
      rw [headNat]
      exact layout.head
    refine ⟨layout.counts, head, _, ?_, rfl, _, layout.docData, rfl, _, layout.index, rfl, _,
      layout.mphfHeader, rfl, _, layout.displacement, rfl, _, layout.entries, rfl, _, total, ?_,
      rfl⟩
    · rw [← head]
      exact layout.leaf
    · rw [total]
      exact inFile

end IndexFileHeader

end MoonShot.Format
