import MoonShot.Postings.Store

/-!
Pages of the index file: posting pages, leaf term pages and head entries
(`BlockTable.rs`).

Owns the page type, which carries its size, the continuation header of a
posting page, the leaf term entry codec with the directory in front of it, the
head entry, and what it means that a posting list is stored at a location.
Both page kinds of the source are views of the same 4096 bytes,
so a leaf page is a page: slot `i` of `LTB_Directory` is the 16-bit value at
byte `2 * i` and `LTB_Data` starts at `LEAF_TERM_DATA_OFFSET`.

Does not own how pages are filled or found.
-/

namespace MoonShot.Format

open MoonShot.Lib
open MoonShot.Postings

/-! ## Constants -/

/-- `PAGE_SIZE` -/
def pageSize : Nat := 4096

/-- `HEAD_TERM_KEY_MAX` -/
def headTermKeyMax : Nat := 26

/-- `LEAF_TERM_DIRECTORY_COUNT` -/
def leafTermDirectoryCount : Nat := 161

/-- `LEAF_TERM_DATA_OFFSET` -/
def leafTermDataOffset : Nat := leafTermDirectoryCount * 2

/-- `LEAF_TERM_ENTRY_SIZE` -/
def leafTermEntrySize : Nat := 16

/-- `INDEX_BLOCK_CONTINUATION_HEADER_SIZE` -/
def continuationHeaderSize : Nat := 12

/-- Size of `LTB_Data`. -/
def leafDataSize : Nat := pageSize - leafTermDataOffset

/-! ## Pages -/

/-- One page: exactly `PAGE_SIZE` bytes. -/
structure Page where
  data : Bytes
  size : data.length = pageSize

namespace Page

/-- The zeroed page (`IndexBlock::default`, `LeafTermBlock::default`). -/
def zero : Page := ⟨List.replicate pageSize 0, List.length_replicate⟩

/-- Copy bytes into the page. -/
def write (page : Page) (offset : Nat) (source : Bytes) : Page :=
  ⟨patch page.data offset source, by rw [patch_length, page.size]⟩

theorem ext_data {left right : Page} (same : left.data = right.data) : left = right := by
  cases left
  cases right
  simpa using same

theorem slice_write_same {page : Page} {offset : Nat} {source : Bytes}
    (inside : offset + source.length ≤ pageSize) :
    slice (page.write offset source).data offset source.length = source :=
  slice_patch_same (by rw [page.size]; exact inside)

theorem slice_write_of_disjoint {page : Page} {offset : Nat} {source : Bytes} {start length : Nat}
    (disjoint : start + length ≤ offset ∨ offset + source.length ≤ start) :
    slice (page.write offset source).data start length = slice page.data start length :=
  slice_patch_of_disjoint disjoint

end Page

/-! ## Continuation header -/

/-- `IndexBlockContinuationHeader` -/
structure ContinuationHeader where
  maxDocId : UInt64
  dataLength : UInt32
deriving DecidableEq

namespace ContinuationHeader

/-- `write_to`: the twelve bytes of the header. -/
def toBytes (header : ContinuationHeader) : Bytes :=
  [u64Bytes header.maxDocId, u32Bytes header.dataLength].flatten

@[simp] theorem toBytes_length (header : ContinuationHeader) :
    header.toBytes.length = continuationHeaderSize := by
  simp [toBytes, continuationHeaderSize]

/-- `from_bytes` -/
def fromBytes (data : Bytes) : Option ContinuationHeader :=
  if data.length < continuationHeaderSize then none
  else some ⟨u64At data 0, u32At data 8⟩

theorem fromBytes_of_slice {data : Bytes} {header : ContinuationHeader}
    (stored : slice data 0 continuationHeaderSize = header.toBytes) :
    fromBytes data = some header := by
  have long : ¬ data.length < continuationHeaderSize := by
    have := congrArg List.length stored
    rw [slice_length, header.toBytes_length] at this
    omega
  have maxField : slice header.toBytes 0 8 = u64Bytes header.maxDocId :=
    slice_field (rfl : _[0]? = _) rfl (u64Bytes_length _)
  have lengthField : slice header.toBytes 8 4 = u32Bytes header.dataLength :=
    slice_field (rfl : _[1]? = _) (by simp) (u32Bytes_length _)
  rw [← stored, slice_slice (by decide)] at maxField lengthField
  rw [fromBytes, if_neg long, u64At_eq maxField, u32At_eq lengthField]

end ContinuationHeader

/-! ## Leaf term entries -/

/-- `LeafTermEntry` -/
structure LeafTermEntry where
  term : Str
  docFreq : UInt32
  indexBlockId : UInt32
  indexOffset : UInt16
  indexLength : UInt16
  continuationBlockCount : UInt16
  flags : UInt8
  termLength : UInt8
deriving DecidableEq

namespace LeafTermEntry

/-- `byte_len` -/
def byteLen (entry : LeafTermEntry) : Nat := leafTermEntrySize + entry.term.len

/-- The fields in the order `WriteLeafEntry` stores them. -/
def fields (entry : LeafTermEntry) : List Bytes :=
  [u32Bytes entry.docFreq, u32Bytes entry.indexBlockId, u16Bytes entry.indexOffset,
    u16Bytes entry.indexLength, u16Bytes entry.continuationBlockCount, [entry.flags],
    [entry.termLength], entry.term.bytes]

def toBytes (entry : LeafTermEntry) : Bytes := entry.fields.flatten

@[simp] theorem toBytes_length (entry : LeafTermEntry) : entry.toBytes.length = entry.byteLen := by
  simp only [toBytes, fields, byteLen, leafTermEntrySize, Str.len, List.length_flatten,
    List.map_cons, List.map_nil, u32Bytes_length, u16Bytes_length, List.length_singleton,
    List.sum_cons, List.sum_nil]
  omega

/-- The stored length byte is the length of the term. -/
def LengthStored (entry : LeafTermEntry) : Prop := entry.termLength.toNat = entry.term.len

end LeafTermEntry

/-! ## Leaf pages -/

/-- `LTB_Directory[slot]` -/
def directoryAt (page : Page) (slot : Nat) : Nat := (u16At page.data (2 * slot)).toNat

/-- `entry_count` -/
def entryCount (page : Page) : Nat :=
  min (directoryAt page (leafTermDirectoryCount - 1)) (leafTermDirectoryCount - 1)

/-- `LeafTermBlock::entry` -/
def leafEntry (page : Page) (index : Nat) : Option LeafTermEntry :=
  if index ≥ entryCount page then none
  else
    let blockOffset := directoryAt page index
    if blockOffset < leafTermDataOffset then none
    else
      let offset := blockOffset - leafTermDataOffset
      if offset + leafTermEntrySize > leafDataSize then none
      else
        let termLength := page.data.getD (blockOffset + 15) 0
        if offset + leafTermEntrySize + termLength.toNat > leafDataSize then none
        else
          match Str.fromUtf8 (slice page.data (blockOffset + 16) termLength.toNat) with
          | none => none
          | some term =>
              some
                { term := term
                  docFreq := u32At page.data blockOffset
                  indexBlockId := u32At page.data (blockOffset + 4)
                  indexOffset := u16At page.data (blockOffset + 8)
                  indexLength := u16At page.data (blockOffset + 10)
                  continuationBlockCount := u16At page.data (blockOffset + 12)
                  flags := page.data.getD (blockOffset + 14) 0
                  termLength := termLength }

/-- `LeafTermBlock::entries` -/
def leafEntries (page : Page) : List LeafTermEntry :=
  (List.range (entryCount page)).filterMap (leafEntry page)

/-- `WriteLeafEntry`: the directory slot, then the fields one after the other. -/
def writeLeafEntry (page : Page) (index offset : Nat) (entry : LeafTermEntry) : Page :=
  (page.write (2 * index) (u16Bytes (UInt16.ofNat (leafTermDataOffset + offset)))).write
    (leafTermDataOffset + offset) entry.toBytes

/-- Store the entry count in the last directory slot. -/
def writeEntryCount (page : Page) (count : Nat) : Page :=
  page.write (2 * (leafTermDirectoryCount - 1)) (u16Bytes (UInt16.ofNat count))

/-- `LeafTermBlock::from_bytes` on a page: the count and every entry must decode. -/
def leafBlockValid (page : Page) : Bool :=
  directoryAt page (leafTermDirectoryCount - 1) ≤ leafTermDirectoryCount - 1 &&
    (List.range (entryCount page)).all fun index => (leafEntry page index).isSome

private theorem getD_of_slice {data : Bytes} {offset : Nat} {byte : UInt8}
    (stored : slice data offset 1 = [byte]) : data.getD offset 0 = byte := by
  have := congrArg (·[0]?) stored
  rw [slice_getElem?] at this
  simp only [Nat.zero_lt_one, if_true, Nat.add_zero, List.getElem?_cons_zero] at this
  rw [List.getD_eq_getElem?_getD, this]
  rfl

/-- A stored entry is what `LeafTermBlock::entry` returns. -/
theorem leafEntry_of_stored {page : Page} {index offset : Nat} {entry : LeafTermEntry}
    (counted : index < entryCount page)
    (directory : directoryAt page index = leafTermDataOffset + offset)
    (inside : offset + entry.byteLen ≤ leafDataSize)
    (lengthStored : entry.LengthStored)
    (stored : slice page.data (leafTermDataOffset + offset) entry.byteLen = entry.toBytes) :
    leafEntry page index = some entry := by
  have sizeEq : entry.byteLen = 16 + entry.term.len := rfl
  have termLen : entry.term.len = entry.term.bytes.length := rfl
  -- Every field is a slice of the stored bytes, hence of the page.
  have field : ∀ slot start width bytes, entry.fields[slot]? = some bytes →
      (entry.fields.take slot).flatten.length = start → bytes.length = width →
      start + width ≤ entry.byteLen →
      slice page.data (leafTermDataOffset + offset + start) width = bytes := by
    intro slot start width bytes found startEq widthEq within
    rw [← slice_slice within, stored]
    exact slice_field found startEq widthEq
  have docFreq := field 0 0 4 _ rfl rfl (u32Bytes_length _) (by omega)
  have blockId := field 1 4 4 _ rfl (by simp [LeafTermEntry.fields]) (u32Bytes_length _) (by omega)
  have indexOffset := field 2 8 2 _ rfl (by simp [LeafTermEntry.fields]) (u16Bytes_length _)
    (by omega)
  have indexLength := field 3 10 2 _ rfl (by simp [LeafTermEntry.fields]) (u16Bytes_length _)
    (by omega)
  have count := field 4 12 2 _ rfl (by simp [LeafTermEntry.fields]) (u16Bytes_length _) (by omega)
  have flags := field 5 14 1 _ rfl (by simp [LeafTermEntry.fields]) rfl (by omega)
  have termLength := field 6 15 1 _ rfl (by simp [LeafTermEntry.fields]) rfl (by omega)
  have term := field 7 16 entry.term.len _ rfl (by simp [LeafTermEntry.fields]) rfl (by omega)
  have termLengthByte := getD_of_slice termLength
  have lengthEq : entry.termLength.toNat = entry.term.len := lengthStored
  rw [leafEntry, if_neg (by omega)]
  dsimp only
  rw [directory, if_neg (by omega), Nat.add_sub_cancel_left,
    if_neg (by rw [leafTermEntrySize]; omega), termLengthByte, lengthEq,
    if_neg (by rw [leafTermEntrySize]; omega), term, Str.fromUtf8_bytes]
  dsimp only
  rw [Nat.add_zero] at docFreq
  rw [u32At_eq docFreq, u32At_eq blockId, u16At_eq indexOffset, u16At_eq indexLength,
    u16At_eq count, getD_of_slice flags]

/-! ## Head entries -/

/-- `HeadTermEntry` -/
structure HeadTermEntry where
  leafTermBlockId : UInt32
  firstTermLength : UInt16
  firstTerm : Bytes
  size : firstTerm.length = headTermKeyMax

namespace HeadTermEntry

/-- `HeadTermEntry::new` -/
def new (term : Str) (blockId : UInt32) : HeadTermEntry where
  leafTermBlockId := blockId
  firstTermLength := UInt16.ofNat term.len
  firstTerm := patch (List.replicate headTermKeyMax 0) 0 term.bytes
  size := by rw [patch_length, List.length_replicate]

/-- `first_term`: the empty string when the bytes are not UTF-8. -/
def firstTermStr (entry : HeadTermEntry) : Str :=
  (Str.fromUtf8 (slice entry.firstTerm 0 entry.firstTermLength.toNat)).getD Str.empty

theorem firstTermStr_new {term : Str} {blockId : UInt32} (fits : term.len ≤ headTermKeyMax) :
    (new term blockId).firstTermStr = term := by
  have bound : headTermKeyMax = 26 := rfl
  have length : (UInt16.ofNat term.len).toNat = term.bytes.length := by
    rw [UInt16.toNat_ofNat']
    exact Nat.mod_eq_of_lt (lt_of_le_of_lt fits (by decide))
  simp only [new, firstTermStr, length]
  rw [slice_patch_same (by rw [List.length_replicate, Nat.zero_add]; exact fits),
    Str.fromUtf8_bytes]
  rfl

/-- Bytes of one head entry in a file. -/
def headTermEntrySize : Nat := 32

/-- `to_bytes` -/
def toBytes (entry : HeadTermEntry) : Bytes :=
  [u32Bytes entry.leafTermBlockId, u16Bytes entry.firstTermLength, entry.firstTerm].flatten

@[simp] theorem toBytes_length (entry : HeadTermEntry) :
    entry.toBytes.length = headTermEntrySize := by
  simp [toBytes, entry.size, headTermKeyMax, headTermEntrySize]

/-- `from_bytes` -/
def fromBytes (data : Bytes) : Option HeadTermEntry :=
  if short : data.length < headTermEntrySize then none
  else if headTermKeyMax < (u16At data 4).toNat then none
  else
    some
      { leafTermBlockId := u32At data 0
        firstTermLength := u16At data 4
        firstTerm := slice data 6 headTermKeyMax
        size := by
          have sizes : headTermEntrySize = 32 ∧ headTermKeyMax = 26 := ⟨rfl, rfl⟩
          rw [slice_length]
          omega }

theorem fromBytes_toBytes {entry : HeadTermEntry}
    (fits : entry.firstTermLength.toNat ≤ headTermKeyMax) :
    fromBytes entry.toBytes = some entry := by
  have blockId : slice entry.toBytes 0 4 = u32Bytes entry.leafTermBlockId :=
    slice_field (rfl : _[0]? = _) rfl (u32Bytes_length _)
  have length : slice entry.toBytes 4 2 = u16Bytes entry.firstTermLength :=
    slice_field (rfl : _[1]? = _) (by simp) (u16Bytes_length _)
  have term : slice entry.toBytes 6 headTermKeyMax = entry.firstTerm :=
    slice_field (rfl : _[2]? = _) (by simp) entry.size
  rw [fromBytes, dif_neg (by rw [toBytes_length]; exact lt_irrefl _), u16At_eq length,
    if_neg (not_lt.mpr fits)]
  simp only [u32At_eq blockId, term]

/-- The length `new` stores fits the field for it. -/
theorem new_firstTermLength {term : Str} {blockId : UInt32} (fits : term.len ≤ headTermKeyMax) :
    (new term blockId).firstTermLength.toNat ≤ headTermKeyMax := by
  have bound : headTermKeyMax = 26 := rfl
  show (UInt16.ofNat term.len).toNat ≤ headTermKeyMax
  rw [UInt16.toNat_ofNat']
  omega

end HeadTermEntry

/-! ## Stored posting lists -/

/-- `IndexLocation` -/
structure IndexLocation where
  docFreq : UInt32
  indexBlockId : UInt32
  indexOffset : Nat
  indexLength : Nat
  continuationBlockCount : UInt32
deriving DecidableEq

/-- The location a leaf entry gives. -/
def LeafTermEntry.location (entry : LeafTermEntry) : IndexLocation where
  docFreq := entry.docFreq
  indexBlockId := entry.indexBlockId
  indexOffset := entry.indexOffset.toNat
  indexLength := entry.indexLength.toNat
  continuationBlockCount := entry.continuationBlockCount.toUInt32

/-- What `GetBlock` answers for each block id during one operation; `none` when
the block cannot be had. -/
abbrev BlockSource := Nat → Option Page

/-- The header `BuildBlocks` and the merge put in front of a chunk. -/
def chunkHeader (chunk : List Posting) : ContinuationHeader where
  maxDocId := (chunk.getLast?.map Posting.docId).getD 0
  dataLength := UInt32.ofNat (encodePostings chunk).length

/-- The page holds this chunk of a list behind a continuation header. -/
structure HoldsContinuation (page : Page) (chunk : List Posting) : Prop where
  nonempty : chunk ≠ []
  inside : continuationHeaderSize + (encodePostings chunk).length ≤ pageSize
  header : slice page.data 0 continuationHeaderSize = (chunkHeader chunk).toBytes
  body : slice page.data continuationHeaderSize (encodePostings chunk).length =
    encodePostings chunk

/-- Consecutive blocks from `blockId` on hold the chunks. -/
def ChainStored (blocks : BlockSource) : (blockId : Nat) → List (List Posting) → Prop
  | _, [] => True
  | blockId, chunk :: rest =>
      (∃ page, blocks blockId = some page ∧ HoldsContinuation page chunk) ∧
        ChainStored blocks (blockId + 1) rest

/-- A list stored at a location: a first part inside a shared page, the other
chunks in the continuation blocks right behind it. -/
structure ListStored (blocks : BlockSource) (location : IndexLocation)
    (first : List Posting) (chunks : List (List Posting)) : Prop where
  page : ∃ page, blocks location.indexBlockId.toNat = some page ∧
    slice page.data location.indexOffset location.indexLength = encodePostings first
  inside : location.indexOffset + location.indexLength ≤ pageSize
  length : location.indexLength = (encodePostings first).length
  chain : ChainStored blocks (location.indexBlockId.toNat + 1) chunks
  count : location.continuationBlockCount.toNat = chunks.length
  idBound : location.indexBlockId.toNat + chunks.length < 2 ^ 32

/-- A chain of chunks takes at most a page for each. -/
theorem ChainStored.length_le {blocks : BlockSource} {blockId : Nat}
    {chunks : List (List Posting)} (stored : ChainStored blocks blockId chunks) :
    (encodePostings chunks.flatten).length ≤ chunks.length * pageSize := by
  induction chunks generalizing blockId with
  | nil => simp
  | cons chunk rest inductionHypothesis =>
      obtain ⟨⟨page, _, holds⟩, tail⟩ := stored
      have head := holds.inside
      have rest := inductionHypothesis tail
      simp only [List.flatten_cons, encodePostings_append, List.length_append, List.length_cons,
        Nat.succ_mul]
      omega

end MoonShot.Format
