import MoonShot.Lib.Checked
import MoonShot.Serializer.IndexFile

/-!
Pages and entries read with every check (`BlockTable.rs`).

Owns head entries, leaf pages with their entries, hash table headers and
continuation headers, read with the slices and the arithmetic of the source. None
of them faults, and each reads what the unchecked function of the same name reads.

The two parts of a leaf page (`LTB_Directory`, `LTB_Data`) are the front and the
rest of its bytes.
-/

namespace MoonShot.Untrusted

open MoonShot.Lib
open MoonShot.Format
open MoonShot.Table
open MoonShot.Serializer

/-! ## Head entries -/

/-- `HeadTermEntry::from_bytes` -/
def headFromBytes (data : Bytes) : Checked (Option HeadTermEntry) :=
  if data.length < HeadTermEntry.headTermEntrySize then .ok none
  else do
    let termLength ← readU16 data 4
    if headTermKeyMax < termLength.toNat then return none
    else
      let first ← readSlice data 6 HeadTermEntry.headTermEntrySize
      let leafTermBlockId ← readU32 data 0
      if size : first.length = headTermKeyMax then return some ⟨leafTermBlockId, termLength, first, size⟩
      else .error .outOfBounds

theorem headFromBytes_eq (data : Bytes) : headFromBytes data = .ok (HeadTermEntry.fromBytes data) := by
  have sizes : HeadTermEntry.headTermEntrySize = 32 ∧ headTermKeyMax = 26 := ⟨rfl, rfl⟩
  unfold headFromBytes HeadTermEntry.fromBytes
  by_cases short : data.length < HeadTermEntry.headTermEntrySize
  · rw [if_pos short, dif_pos short]
  · have first : readSlice data 6 HeadTermEntry.headTermEntrySize =
        .ok (slice data 6 headTermKeyMax) := readSlice_eq (by decide) (not_lt.mp short)
    have size : (slice data 6 headTermKeyMax).length = headTermKeyMax :=
      slice_length_of_le (by omega)
    rw [if_neg short, dif_neg short, readU16_eq (by omega) (by decide)]
    show (if headTermKeyMax < (u16At data 4).toNat then _ else _) = _
    by_cases long : headTermKeyMax < (u16At data 4).toNat
    · rw [if_pos long, if_pos long]
      rfl
    · rw [if_neg long, if_neg long, first, readU32_eq (by omega) (by decide)]
      exact dif_pos size

/-- A head entry that was read has a length inside its field. -/
theorem fromBytes_fits {data : Bytes} {entry : HeadTermEntry}
    (read : HeadTermEntry.fromBytes data = some entry) :
    entry.firstTermLength.toNat ≤ headTermKeyMax := by
  unfold HeadTermEntry.fromBytes at read
  by_cases short : data.length < HeadTermEntry.headTermEntrySize
  · rw [dif_pos short] at read
    cases read
  · rw [dif_neg short] at read
    by_cases long : headTermKeyMax < (u16At data 4).toNat
    · rw [if_pos long] at read
      cases read
    · rw [if_neg long] at read
      obtain rfl := Option.some.inj read
      exact not_lt.mp long

/-! ## Leaf pages -/

/-- `LTB_Directory[slot]` -/
def directorySlot (page : Page) (slot : Nat) : Checked Nat :=
  if slot < leafTermDirectoryCount then .ok (directoryAt page slot) else .error .outOfBounds

/-- `LTB_Data` -/
def leafData (page : Page) : Bytes := slice page.data leafTermDataOffset leafDataSize

theorem leafData_length (page : Page) : (leafData page).length = leafDataSize :=
  slice_length_of_le (by rw [page.size]; decide)

/-- `entry_count` -/
def entryCount (page : Page) : Checked Nat := do
  let count ← directorySlot page (leafTermDirectoryCount - 1)
  return min count (leafTermDirectoryCount - 1)

@[simp] theorem entryCount_eq (page : Page) : entryCount page = .ok (Format.entryCount page) := rfl

/-- `LeafTermBlock::entry` -/
def leafEntry (page : Page) (index : Nat) : Checked (Option LeafTermEntry) := do
  let count ← entryCount page
  if index ≥ count then return none
  else
    let blockOffset ← directorySlot page index
    if blockOffset < leafTermDataOffset then return none
    else
      let offset ← subUsize blockOffset leafTermDataOffset
      let fixedEnd ← addUsize offset leafTermEntrySize
      if fixedEnd > leafDataSize then return none
      else
        let data ← readSlice (leafData page) offset leafDataSize
        let termLength ← readByte data 15
        let termEnd ← addUsize fixedEnd termLength.toNat
        if termEnd > leafDataSize then return none
        else
          let docFreq ← readU32 data 0
          let indexBlockId ← readU32 data 4
          let indexOffset ← readU16 data 8
          let indexLength ← readU16 data 10
          let continuationBlockCount ← readU16 data 12
          let flags ← readByte data 14
          let bytes ← readWidth data 16 termLength.toNat
          match Str.fromUtf8 bytes with
          | none => return none
          | some term =>
              return some
                { term := term
                  docFreq := docFreq
                  indexBlockId := indexBlockId
                  indexOffset := indexOffset
                  indexLength := indexLength
                  continuationBlockCount := continuationBlockCount
                  flags := flags
                  termLength := termLength }

/-- The bytes of an entry, as a part of its page. -/
theorem slice_entryData {page : Page} {offset start count : Nat}
    (inside : offset + start + count ≤ leafDataSize) :
    slice (slice (leafData page) offset (leafDataSize - offset)) start count =
      slice page.data (leafTermDataOffset + offset + start) count := by
  rw [slice_slice (by omega), leafData, slice_slice (by omega), Nat.add_assoc]

theorem getD_of_slice_one {left right : Bytes} {first second : Nat}
    (same : slice left first 1 = slice right second 1) : left.getD first 0 = right.getD second 0 := by
  have byte := congrArg (·[0]?) same
  rw [slice_getElem?, slice_getElem?, if_pos Nat.zero_lt_one, if_pos Nat.zero_lt_one] at byte
  rw [List.getD_eq_getElem?_getD, List.getD_eq_getElem?_getD]
  exact congrArg (Option.getD · 0) byte

theorem leafEntry_eq (page : Page) (index : Nat) :
    leafEntry page index = .ok (Format.leafEntry page index) := by
  have sizes : leafTermDirectoryCount = 161 ∧ leafTermDataOffset = 322 ∧ leafTermEntrySize = 16 ∧
      leafDataSize = 3774 := by decide
  have counted : Format.entryCount page ≤ leafTermDirectoryCount - 1 := Nat.min_le_right _ _
  unfold leafEntry Format.leafEntry
  rw [entryCount_eq]
  show (if index ≥ Format.entryCount page then _ else _) = _
  by_cases beyond : index ≥ Format.entryCount page
  · rw [if_pos beyond, if_pos beyond]
    rfl
  · have slot : directorySlot page index = .ok (directoryAt page index) := if_pos (by omega)
    have directory : directoryAt page index < 2 ^ 16 := UInt16.toNat_lt _
    rw [if_neg beyond, if_neg beyond, slot]
    dsimp only
    show (if directoryAt page index < leafTermDataOffset then _ else _) = _
    by_cases front : directoryAt page index < leafTermDataOffset
    · rw [if_pos front, if_pos front]
      rfl
    · rw [if_neg front, if_neg front, subUsize_eq (not_lt.mp front)]
      obtain ⟨offset, blockOffset⟩ : ∃ offset,
          directoryAt page index = leafTermDataOffset + offset :=
        ⟨directoryAt page index - leafTermDataOffset, by omega⟩
      rw [blockOffset, Nat.add_sub_cancel_left]
      show (addUsize offset leafTermEntrySize >>= _) = _
      rw [addUsize_eq (by omega)]
      show (if offset + leafTermEntrySize > leafDataSize then _ else _) = _
      by_cases cut : offset + leafTermEntrySize > leafDataSize
      · rw [if_pos cut, if_pos cut]
        rfl
      · have data : readSlice (leafData page) offset leafDataSize =
            .ok (slice (leafData page) offset (leafDataSize - offset)) :=
          readSlice_eq (by omega) (leafData_length page).ge
        have length : (slice (leafData page) offset (leafDataSize - offset)).length =
            leafDataSize - offset := slice_length_of_le (by rw [leafData_length]; omega)
        have termLength : (slice (leafData page) offset (leafDataSize - offset)).getD 15 0 =
            page.data.getD (leafTermDataOffset + offset + 15) 0 :=
          getD_of_slice_one (slice_entryData (by omega))
        have flags : (slice (leafData page) offset (leafDataSize - offset)).getD 14 0 =
            page.data.getD (leafTermDataOffset + offset + 14) 0 :=
          getD_of_slice_one (slice_entryData (by omega))
        have small := UInt8.toNat_lt (page.data.getD (leafTermDataOffset + offset + 15) 0)
        rw [if_neg cut, if_neg cut, data]
        show (readByte _ 15 >>= _) = _
        rw [readByte_eq (by omega), termLength]
        show (addUsize (offset + leafTermEntrySize) _ >>= _) = _
        rw [addUsize_eq (by omega)]
        show (if _ > leafDataSize then _ else _) = _
        by_cases long : offset + leafTermEntrySize +
            (page.data.getD (leafTermDataOffset + offset + 15) 0).toNat > leafDataSize
        · rw [if_pos long, if_pos long]
          rfl
        · have word32 : ∀ start, start + 4 ≤ 16 →
              readU32 (slice (leafData page) offset (leafDataSize - offset)) start =
                .ok (u32At page.data (leafTermDataOffset + offset + start)) := by
            intro start inside
            rw [readU32_eq (by omega) (by omega), u32At, slice_entryData (by omega)]
            rfl
          have word16 : ∀ start, start + 2 ≤ 16 →
              readU16 (slice (leafData page) offset (leafDataSize - offset)) start =
                .ok (u16At page.data (leafTermDataOffset + offset + start)) := by
            intro start inside
            rw [readU16_eq (by omega) (by omega), u16At, slice_entryData (by omega)]
            rfl
          rw [if_neg long, if_neg long, word32 0 (by decide), word32 4 (by decide),
            word16 8 (by decide), word16 10 (by decide), word16 12 (by decide),
            readByte_eq (by omega), flags, readWidth_eq (by omega) (by omega),
            slice_entryData (by omega)]
          show (match Str.fromUtf8 (slice page.data (leafTermDataOffset + offset + 16) _) with
            | none => _
            | some term => _) = _
          cases Str.fromUtf8 (slice page.data (leafTermDataOffset + offset + 16)
              (page.data.getD (leafTermDataOffset + offset + 15) 0).toNat) with
          | none => rfl
          | some term => rfl

/-- `LeafTermBlock::from_bytes` -/
def leafFromBytes (data : Bytes) : Checked (Option Page) :=
  if short : data.length < pageSize then .ok none
  else do
    let _directory ← (List.range leafTermDirectoryCount).mapM fun slot => do
      let start ← mulUsize slot 2
      readU16 data start
    let page : Page := ⟨slice data 0 pageSize, slice_length_of_le (by omega)⟩
    let stored ← directorySlot page (leafTermDirectoryCount - 1)
    if stored > leafTermDirectoryCount - 1 then return none
    else
      let _data ← readSlice data leafTermDataOffset pageSize
      let count ← entryCount page
      let entries ← (List.range count).mapM (leafEntry page)
      if entries.all Option.isSome then return some page else return none

theorem leafFromBytes_eq (page : Page) :
    leafFromBytes page.data = .ok (if leafBlockValid page = true then some page else none) := by
  have sizes : leafTermDirectoryCount = 161 ∧ leafTermDataOffset = 322 ∧ pageSize = 4096 := by
    decide
  have size := page.size
  have whole : (⟨slice page.data 0 pageSize, slice_length_of_le (by omega)⟩ : Page) = page :=
    Page.ext_data (slice_all size)
  have directory : (List.range leafTermDirectoryCount).mapM (fun slot => do
      let start ← mulUsize slot 2
      readU16 page.data start) =
        .ok ((List.range leafTermDirectoryCount).map fun slot => u16At page.data (slot * 2)) := by
    apply mapM_checked
    intro slot member
    have below := List.mem_range.mp member
    rw [mulUsize_eq (by omega)]
    exact readU16_eq (by omega) (by omega)
  have entries : (List.range (Format.entryCount page)).mapM (leafEntry page) =
      .ok ((List.range (Format.entryCount page)).map (Format.leafEntry page)) :=
    mapM_checked fun index _ => leafEntry_eq page index
  unfold leafFromBytes
  rw [dif_neg (by omega), directory, whole]
  show (if directoryAt page (leafTermDirectoryCount - 1) > leafTermDirectoryCount - 1 then _
    else _) = _
  by_cases many : directoryAt page (leafTermDirectoryCount - 1) > leafTermDirectoryCount - 1
  · have invalid : leafBlockValid page = false := by
      rw [leafBlockValid, Bool.and_eq_false_iff]
      exact .inl (decide_eq_false (not_le.mpr many))
    rw [if_pos many, invalid]
    rfl
  · have valid : leafBlockValid page =
        ((List.range (Format.entryCount page)).map (Format.leafEntry page)).all Option.isSome := by
      rw [leafBlockValid, decide_eq_true (not_lt.mp many), Bool.true_and, List.all_map]
      rfl
    rw [if_neg many, readSlice_eq (by omega) (by omega)]
    show (List.mapM (leafEntry page) (List.range (Format.entryCount page)) >>= _) = _
    rw [entries, valid]
    show (if _ then _ else _) = _
    split <;> rfl

/-! ## Hash table headers -/

/-- `TermMphfHeader::from_bytes` -/
def termMphfHeaderFromBytes (data : Bytes) : Checked (Option TermMphfHeader) :=
  if data.length < termMphfHeaderSize then .ok none
  else do
    let magic ← readU64 data 0
    let termCount ← readU64 data 8
    let bucketCount ← readU32 data 16
    let slotCount ← readU32 data 20
    let bucketSeed ← readU64 data 24
    let slotSeed ← readU64 data 32
    let fingerprintSeed ← readU64 data 40
    return some ⟨magic, termCount, bucketCount, slotCount, bucketSeed, slotSeed, fingerprintSeed⟩

theorem termMphfHeaderFromBytes_eq {data : Bytes} (long : data.length = termMphfHeaderSize) :
    termMphfHeaderFromBytes data = .ok (some (termMphfHeaderAt data 0)) := by
  have size : termMphfHeaderSize = 48 := rfl
  unfold termMphfHeaderFromBytes
  rw [if_neg (by omega), readU64_eq (by omega) (by decide), readU64_eq (by omega) (by decide),
    readU32_eq (by omega) (by decide), readU32_eq (by omega) (by decide),
    readU64_eq (by omega) (by decide), readU64_eq (by omega) (by decide),
    readU64_eq (by omega) (by decide)]
  rfl

/-- The header of hash tables, as a part of the file. -/
theorem termMphfHeaderAt_slice {data : Bytes} (offset : Nat) :
    termMphfHeaderAt (slice data offset termMphfHeaderSize) 0 = termMphfHeaderAt data offset := by
  have word64 : ∀ start, start + 8 ≤ termMphfHeaderSize →
      u64At (slice data offset termMphfHeaderSize) start = u64At data (offset + start) := by
    intro start inside
    rw [u64At, slice_slice inside, u64At]
  have word32 : ∀ start, start + 4 ≤ termMphfHeaderSize →
      u32At (slice data offset termMphfHeaderSize) start = u32At data (offset + start) := by
    intro start inside
    rw [u32At, slice_slice inside, u32At]
  simp only [termMphfHeaderAt, Nat.zero_add]
  rw [word64 0 (by decide), word64 8 (by decide), word32 16 (by decide), word32 20 (by decide),
    word64 24 (by decide), word64 32 (by decide), word64 40 (by decide), Nat.add_zero]

end MoonShot.Untrusted
