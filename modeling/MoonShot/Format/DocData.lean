import MoonShot.Format.PathPrefixes
import MoonShot.Postings.Store

/-!
Document records (`DocDataEntry`, `EncodeDocData`).

Owns the 256 bytes of a record, the section of records of a store, where record
`i` belongs to document `first + i` and a document that is missing leaves a
record with the id `u32::MAX`, and the lookup of a document in such a section.
The lookup finds exactly the documents of the store.

Does not own the delta context that is asked when a section has no record.
-/

namespace MoonShot.Format

open MoonShot.Lib
open MoonShot.Postings

/-! ## Records -/

/-- `DOC_VECTOR_OFFSET` -/
def docVectorOffset : Nat := 64

/-- The bytes of one record, read through `DocDataEntry`. -/
abbrev DocDataEntry := Bytes

namespace DocDataEntry

def docId (entry : DocDataEntry) : UInt32 := u32At entry 0

def staticRank (entry : DocDataEntry) : UInt16 := u16At entry 4

/-- `DDE_TitleLength` to `DDE_MetaLength`. -/
def streamLength (entry : DocDataEntry) : PostingStore.Stream → UInt32
  | .title => u32At entry 26
  | .body => u32At entry 30
  | .url => u32At entry 34
  | .anchor => u32At entry 38
  | .metadata => u32At entry 42

def vectorDim (entry : DocDataEntry) : UInt16 := u16At entry 54

def vectorFormat (entry : DocDataEntry) : UInt16 := u16At entry 56

def vectorData (entry : DocDataEntry) : Bytes := slice entry docVectorOffset docVectorDim

end DocDataEntry

/-- The fields of a record in order, without a path. Bytes that `EncodeDocData`
leaves alone are zero. -/
def docRecordFields (float : FloatOps) (docId : UInt64) (stats : DocStats)
    (vector : Option DocVector) : List Bytes :=
  let docLength := max stats.docLen 1
  [u32Bytes docId.toUInt32,
    u16Bytes (float.encodeScore stats.importance),
    u16Bytes (float.encodeScore (float.qualityScore docLength stats.uniqueTerms)),
    List.replicate 6 0,
    u16Bytes (float.encodeScore (float.authorityScore stats.titleLen)),
    u16Bytes (float.encodeScore (float.spamScore docLength stats.uniqueTerms)),
    List.replicate 8 0,
    u32Bytes stats.titleLen, u32Bytes stats.bodyLen, u32Bytes stats.urlLen,
    u32Bytes stats.anchorLen, u32Bytes stats.metaLen,
    u32Bytes (float.diversity docLength stats.uniqueTerms),
    u32Bytes (float.lengthQuality docLength),
    u16Bytes (if vector.isSome then UInt16.ofNat docVectorDim else 0),
    u16Bytes (if vector.isSome then 1 else 0),
    List.replicate 6 0,
    (vector.map DocVector.bytes).getD (List.replicate docVectorDim 0),
    List.replicate docPathMax 0]

def docRecord (float : FloatOps) (docId : UInt64) (stats : DocStats)
    (vector : Option DocVector) : Bytes :=
  (docRecordFields float docId stats vector).flatten

/-- The record of a missing document. -/
def gapRecord : Bytes := u32Bytes 0xFFFFFFFF ++ List.replicate 252 0

@[simp] theorem gapRecord_length : gapRecord.length = docRecSize := by
  rw [gapRecord, List.length_append, u32Bytes_length, List.length_replicate]
  rfl

theorem docVectorBytes_length (vector : Option DocVector) :
    ((vector.map DocVector.bytes).getD (List.replicate docVectorDim 0)).length =
      docVectorDim := by
  cases vector with
  | none => simp
  | some vector => exact vector.size

@[simp] theorem docRecord_length (float : FloatOps) (docId : UInt64) (stats : DocStats)
    (vector : Option DocVector) : (docRecord float docId stats vector).length = docRecSize := by
  have vectorLength := docVectorBytes_length vector
  unfold docRecord docRecordFields
  simp only [List.flatten_cons, List.flatten_nil, List.length_append, u32Bytes_length,
    u16Bytes_length, List.length_replicate, vectorLength, List.length_nil]
  rfl

/-- The length of one stream in the statistics of a document. -/
def statsStreamLength (stats : DocStats) : PostingStore.Stream → UInt32
  | .title => stats.titleLen
  | .body => stats.bodyLen
  | .url => stats.urlLen
  | .anchor => stats.anchorLen
  | .metadata => stats.metaLen

/-- What a reader of the record sees of the document. -/
structure RecordOf (float : FloatOps) (docId : UInt64) (stats : DocStats)
    (vector : Option DocVector) (entry : DocDataEntry) : Prop where
  size : entry.length = docRecSize
  docId : entry.docId = docId.toUInt32
  staticRank : entry.staticRank = float.encodeScore stats.importance
  streams : ∀ stream, entry.streamLength stream = statsStreamLength stats stream
  vectorDim : entry.vectorDim = if vector.isSome then UInt16.ofNat docVectorDim else 0
  vectorFormat : entry.vectorFormat = if vector.isSome then 1 else 0
  vectorData : entry.vectorData =
    (vector.map DocVector.bytes).getD (List.replicate docVectorDim 0)

/-- The path leaves every other field of the record as it was written. -/
theorem recordOf_encodeDocPath (float : FloatOps) (docId : UInt64) (stats : DocStats)
    (vector : Option DocVector) (table : PrefixTable) (fullPath : Str) :
    RecordOf float docId stats vector
      (encodeDocPath table (docRecord float docId stats vector) fullPath).2 := by
  have offsets : docPathLengthOffset = 18 ∧ docPathOffset = 192 ∧ docVectorDim = 128 := by decide
  have field : ∀ slot start width bytes,
      (docRecordFields float docId stats vector)[slot]? = some bytes →
      ((docRecordFields float docId stats vector).take slot).flatten.length = start →
      bytes.length = width → start + width ≤ 18 ∨ 20 ≤ start ∧ start + width ≤ 192 →
      slice (encodeDocPath table (docRecord float docId stats vector) fullPath).2 start width =
        bytes := by
    intro slot start width bytes found startEq widthEq beside
    rw [encodeDocPath_slice (by omega)]
    exact slice_field found startEq widthEq
  constructor
  · rw [encodeDocPath_length, docRecord_length]
  · exact u32At_eq (field 0 0 4 _ rfl rfl rfl (by omega))
  · exact u16At_eq (field 1 4 2 _ rfl rfl rfl (by omega))
  · intro stream
    cases stream with
    | title => exact u32At_eq (field 7 26 4 _ rfl rfl rfl (by omega))
    | body => exact u32At_eq (field 8 30 4 _ rfl rfl rfl (by omega))
    | url => exact u32At_eq (field 9 34 4 _ rfl rfl rfl (by omega))
    | anchor => exact u32At_eq (field 10 38 4 _ rfl rfl rfl (by omega))
    | metadata => exact u32At_eq (field 11 42 4 _ rfl rfl rfl (by omega))
  · exact u16At_eq (field 14 54 2 _ rfl rfl rfl (by omega))
  · exact u16At_eq (field 15 56 2 _ rfl rfl rfl (by omega))
  · exact field 17 64 docVectorDim _ rfl rfl (docVectorBytes_length vector) (by omega)

theorem gapRecord_docId : DocDataEntry.docId gapRecord = 0xFFFFFFFF := by
  apply u32At_eq
  rw [gapRecord, slice_append_left (by rw [u32Bytes_length]), slice_all (u32Bytes_length _)]

/-! ## The records of a store -/

/-- `StoreFirstDocId` -/
def storeFirstDocId (store : PostingStore) : UInt64 := store.docStats.keys.min?.getD 0

/-- `StoreDocDataRecordCount` -/
def storeDocDataRecordCount (store : PostingStore) : UInt64 :=
  match store.docStats.keys.min? with
  | none => 0
  | some minDocId => store.docStats.keys.max?.getD minDocId - minDocId + 1

/-- The records written so far and the prefixes interned for them. -/
structure DocDataWriter where
  records : List Bytes
  table : PrefixTable

/-- One turn of the loop of `EncodeDocData`. -/
def DocDataWriter.add (float : FloatOps) (store : PostingStore) (firstDocId : UInt64)
    (writer : DocDataWriter) (document : UInt64 × DocStats) : DocDataWriter :=
  let record := docRecord float document.1 document.2 (store.docVectors.get? document.1)
  let encoded := encodeDocPath writer.table record document.2.path
  { records := writer.records.set (document.1 - firstDocId).toNat encoded.2
    table := encoded.1 }

/-- The loop of `EncodeDocData`. -/
def encodeRecords (float : FloatOps) (store : PostingStore) : DocDataWriter :=
  store.docStats.entries.foldl (DocDataWriter.add float store (storeFirstDocId store))
    ⟨List.replicate (storeDocDataRecordCount store).toNat gapRecord, .empty⟩

/-- `EncodeDocData`: the section, the sidecar and the prefixes. -/
def encodeDocData (float : FloatOps) (store : PostingStore) : Bytes × Bytes × List Str :=
  let writer := encodeRecords float store
  (writer.records.flatten, encodePathPrefixSidecar writer.table.prefixes, writer.table.prefixes)

/-! ## Lookup -/

/-- `DocDataFirstDocId` -/
def docDataFirstDocId (docData : Bytes) (header : IndexFileHeader) : UInt64 :=
  if header.numDocuments > 0 ∧ docData.length ≥ docRecSize then (u32At docData 0).toUInt64 else 0

/-- The record of a document in a section that starts at `firstDocId`. -/
def findDocRecord (docData : Bytes) (firstDocId docId : UInt64) : Option DocDataEntry :=
  if docId ≥ firstDocId then
    let offset := (docId - firstDocId).toNat * docRecSize
    if offset + docRecSize ≤ docData.length ∧ (u32At docData offset).toUInt64 = docId then
      some (slice docData offset docRecSize)
    else none
  else none

/-- The lookup in a section that is made of records. -/
theorem findDocRecord_flatten {records : List Bytes}
    (sizes : ∀ record ∈ records, record.length = docRecSize) (firstDocId docId : UInt64) :
    findDocRecord records.flatten firstDocId docId =
      if docId ≥ firstDocId then
        records[(docId - firstDocId).toNat]?.filter fun record =>
          (u32At record 0).toUInt64 = docId
      else none := by
  unfold findDocRecord
  by_cases inFront : docId ≥ firstDocId
  · rw [if_pos inFront, if_pos inFront]
    dsimp only
    generalize (docId - firstDocId).toNat = place
    rw [flatten_length_uniform sizes, ← Nat.succ_mul]
    cases found : records[place]? with
    | none =>
        have behind := List.getElem?_eq_none_iff.mp found
        rw [if_neg]
        · rfl
        · intro here
          have inside := Nat.le_of_mul_le_mul_right here.1 (by decide)
          omega
    | some record =>
        have below := (List.getElem?_eq_some_iff.mp found).1
        have stored := slice_flatten_uniform sizes found
        have id : u32At records.flatten (place * docRecSize) = u32At record 0 := by
          rw [← stored]
          unfold u32At
          rw [slice_slice (by decide), Nat.add_zero]
        rw [id, stored, Option.filter_some]
        have room : place.succ * docRecSize ≤ records.length * docRecSize :=
          Nat.mul_le_mul_right _ below
        by_cases same : (u32At record 0).toUInt64 = docId
        · rw [if_pos ⟨room, same⟩, if_pos (decide_eq_true same)]
        · rw [if_neg fun here => same here.2, if_neg (by simpa using same)]
  · rw [if_neg inFront, if_neg inFront]

/-! ## The documents of a store are found -/

/-- Every document id fits the record's 32-bit field. -/
def DocIdsFit (store : PostingStore) : Prop :=
  ∀ docId ∈ store.docStats.keys, docId.toNat ≤ 0xFFFFFFFF

/-- The records run from the smallest to the largest id. -/
theorem storeRange {store : PostingStore} (nonempty : store.docStats.keys ≠ [])
    (fit : DocIdsFit store) :
    ∃ last ∈ store.docStats.keys, storeFirstDocId store ∈ store.docStats.keys ∧
      (storeDocDataRecordCount store).toNat =
        last.toNat - (storeFirstDocId store).toNat + 1 ∧
      ∀ docId ∈ store.docStats.keys,
        (storeFirstDocId store).toNat ≤ docId.toNat ∧ docId.toNat ≤ last.toNat := by
  obtain ⟨first, firstEq⟩ : ∃ first, store.docStats.keys.min? = some first := by
    cases found : store.docStats.keys.min? with
    | none => exact absurd (List.min?_eq_none_iff.mp found) nonempty
    | some first => exact ⟨first, rfl⟩
  obtain ⟨last, lastEq⟩ : ∃ last, store.docStats.keys.max? = some last := by
    cases found : store.docStats.keys.max? with
    | none => exact absurd (List.max?_eq_none_iff.mp found) nonempty
    | some last => exact ⟨last, rfl⟩
  have firstLeast := List.min?_eq_some_iff.mp firstEq
  have lastGreatest := List.max?_eq_some_iff.mp lastEq
  have firstIs : storeFirstDocId store = first := by
    rw [storeFirstDocId, firstEq]
    rfl
  have order := firstLeast.2 last lastGreatest.1
  have lastFits := fit last lastGreatest.1
  have orderNat := UInt64.le_iff_toNat_le.mp order
  refine ⟨last, lastGreatest.1, ?_, ?_, ?_⟩
  · rw [firstIs]
    exact firstLeast.1
  · rw [storeDocDataRecordCount, firstEq, firstIs]
    dsimp only
    rw [lastEq, Option.getD_some, UInt64.toNat_add, UInt64.toNat_sub_of_le last first order]
    have one : (1 : UInt64).toNat = 1 := rfl
    omega
  · intro docId member
    rw [firstIs]
    exact ⟨UInt64.le_iff_toNat_le.mp (firstLeast.2 docId member),
      UInt64.le_iff_toNat_le.mp (lastGreatest.2 docId member)⟩

/-- The slot of a document's record. -/
def slotOf (store : PostingStore) (docId : UInt64) : Nat := (docId - storeFirstDocId store).toNat

theorem slotOf_eq {store : PostingStore} (nonempty : store.docStats.keys ≠ [])
    (fit : DocIdsFit store) {docId : UInt64} (member : docId ∈ store.docStats.keys) :
    (storeFirstDocId store).toNat + slotOf store docId = docId.toNat ∧
      slotOf store docId < (storeDocDataRecordCount store).toNat := by
  obtain ⟨last, _, _, count, range⟩ := storeRange nonempty fit
  have bounds := range docId member
  have slot : slotOf store docId = docId.toNat - (storeFirstDocId store).toNat :=
    UInt64.toNat_sub_of_le docId _ (UInt64.le_iff_toNat_le.mpr bounds.1)
  omega

/-- The writer has put the records of the documents into their slots. -/
structure Encodes (float : FloatOps) (store : PostingStore) (done : List (UInt64 × DocStats))
    (writer : DocDataWriter) : Prop where
  length : writer.records.length = (storeDocDataRecordCount store).toNat
  sizes : ∀ record ∈ writer.records, record.length = docRecSize
  present : ∀ document ∈ done, ∃ entry, writer.records[slotOf store document.1]? = some entry ∧
    RecordOf float document.1 document.2 (store.docVectors.get? document.1) entry
  absent : ∀ slot, slot < writer.records.length →
    (∀ document ∈ done, slotOf store document.1 ≠ slot) → writer.records[slot]? = some gapRecord

theorem encodes_nil (float : FloatOps) (store : PostingStore) :
    Encodes float store []
      ⟨List.replicate (storeDocDataRecordCount store).toNat gapRecord, .empty⟩ where
  length := List.length_replicate
  sizes := by
    intro record member
    rw [List.eq_of_mem_replicate member, gapRecord_length]
  present := by simp
  absent := by
    intro slot below _
    rw [List.length_replicate] at below
    exact List.getElem?_replicate_of_lt below

theorem Encodes.add {float : FloatOps} {store : PostingStore} {done : List (UInt64 × DocStats)}
    {writer : DocDataWriter} (encodes : Encodes float store done writer)
    {document : UInt64 × DocStats}
    (inside : slotOf store document.1 < (storeDocDataRecordCount store).toNat)
    (fresh : ∀ other ∈ done, slotOf store other.1 ≠ slotOf store document.1) :
    Encodes float store (done ++ [document])
      (writer.add float store (storeFirstDocId store) document) := by
  have record := recordOf_encodeDocPath float document.1 document.2
    (store.docVectors.get? document.1) writer.table document.2.path
  have below : slotOf store document.1 < writer.records.length := by
    rw [encodes.length]
    exact inside
  constructor
  · show (writer.records.set _ _).length = _
    rw [List.length_set]
    exact encodes.length
  · intro other member
    rcases List.mem_or_eq_of_mem_set member with old | new
    · exact encodes.sizes other old
    · rw [new]
      exact record.size
  · intro other member
    rcases List.mem_append.mp member with old | new
    · obtain ⟨entry, found, of⟩ := encodes.present other old
      refine ⟨entry, ?_, of⟩
      rw [← found]
      exact List.getElem?_set_ne (fresh other old).symm
    · rw [List.mem_singleton.mp new]
      exact ⟨_, List.getElem?_set_self below, record⟩
  · intro slot slotBelow others
    change slot < (writer.records.set _ _).length at slotBelow
    rw [List.length_set] at slotBelow
    have notThis := others document (List.mem_append_right _ (List.mem_singleton_self _))
    rw [← encodes.absent slot slotBelow fun other member =>
      others other (List.mem_append_left _ member)]
    exact List.getElem?_set_ne notThis

theorem Encodes.foldl {float : FloatOps} {store : PostingStore}
    {todo done : List (UInt64 × DocStats)} {writer : DocDataWriter}
    (encodes : Encodes float store done writer)
    (inside : ∀ document ∈ todo,
      slotOf store document.1 < (storeDocDataRecordCount store).toNat)
    (distinct : (done ++ todo).Pairwise fun left right =>
      slotOf store left.1 ≠ slotOf store right.1) :
    Encodes float store (done ++ todo)
      (todo.foldl (DocDataWriter.add float store (storeFirstDocId store)) writer) := by
  induction todo generalizing done writer with
  | nil =>
      rw [List.append_nil]
      exact encodes
  | cons document rest inductionHypothesis =>
      rw [List.append_cons]
      apply inductionHypothesis
      · apply encodes.add (inside document List.mem_cons_self)
        intro other member
        exact (List.pairwise_append.mp distinct).2.2 other member document List.mem_cons_self
      · intro other member
        exact inside other (List.mem_cons_of_mem _ member)
      · rw [← List.append_cons]
        exact distinct

theorem encodes_all {float : FloatOps} {store : PostingStore}
    (nonempty : store.docStats.keys ≠ []) (fit : DocIdsFit store) :
    Encodes float store store.docStats.entries (encodeRecords float store) := by
  have isKey : ∀ document ∈ store.docStats.entries, document.1 ∈ store.docStats.keys := by
    intro document member
    exact List.mem_map_of_mem member
  have slots : ∀ document ∈ store.docStats.entries,
      slotOf store document.1 < (storeDocDataRecordCount store).toNat := by
    intro document member
    exact (slotOf_eq nonempty fit (isKey document member)).2
  have keysDistinct : store.docStats.entries.Pairwise fun left right => left.1 ≠ right.1 := by
    have nodup := store.docStats.nodup
    rw [List.nodup_iff_pairwise_ne, List.pairwise_map] at nodup
    exact nodup
  apply (encodes_nil float store).foldl slots
  rw [List.nil_append]
  refine keysDistinct.imp_of_mem ?_
  intro left right leftMember rightMember different same
  apply different
  have leftSlot := (slotOf_eq nonempty fit (isKey left leftMember)).1
  have rightSlot := (slotOf_eq nonempty fit (isKey right rightMember)).1
  apply UInt64.toNat_inj.mp
  omega

/-! ## The encoded section -/

section Encoded

variable {float : FloatOps} {store : PostingStore}

/-- The loop keeps the number of records and their size, whatever the store. -/
theorem foldl_add_sizes (float : FloatOps) (store : PostingStore)
    (todo : List (UInt64 × DocStats)) (writer : DocDataWriter)
    (sizes : ∀ record ∈ writer.records, record.length = docRecSize) :
    let final := todo.foldl (DocDataWriter.add float store (storeFirstDocId store)) writer
    final.records.length = writer.records.length ∧
      ∀ record ∈ final.records, record.length = docRecSize := by
  induction todo generalizing writer with
  | nil => exact ⟨rfl, sizes⟩
  | cons document rest inductionHypothesis =>
      have kept := inductionHypothesis (writer.add float store (storeFirstDocId store) document) (by
        intro record member
        rcases List.mem_or_eq_of_mem_set member with old | new
        · exact sizes record old
        · rw [new, encodeDocPath_length, docRecord_length])
      refine ⟨kept.1.trans ?_, kept.2⟩
      exact List.length_set

theorem encodeRecords_sizes (float : FloatOps) (store : PostingStore) :
    (encodeRecords float store).records.length = (storeDocDataRecordCount store).toNat ∧
      ∀ record ∈ (encodeRecords float store).records, record.length = docRecSize := by
  have kept := foldl_add_sizes float store store.docStats.entries
    ⟨List.replicate (storeDocDataRecordCount store).toNat gapRecord, .empty⟩ (by
      intro record member
      rw [List.eq_of_mem_replicate member, gapRecord_length])
  exact ⟨kept.1.trans List.length_replicate, kept.2⟩

theorem encodeDocData_length (float : FloatOps) (store : PostingStore) :
    (encodeDocData float store).1.length =
      (storeDocDataRecordCount store).toNat * docRecSize := by
  have sizes := encodeRecords_sizes float store
  show (encodeRecords float store).records.flatten.length = _
  rw [flatten_length_uniform sizes.2, sizes.1]

/-- What every turn of the loop keeps of the prefix table. -/
theorem encodeRecords_table (float : FloatOps) {kept : PrefixTable → Prop} (empty : kept .empty)
    (step : ∀ document ∈ store.docStats.entries, ∀ table record, kept table →
      kept (encodeDocPath table record document.2.path).1) :
    kept (encodeRecords float store).table := by
  have loop : ∀ (todo : List (UInt64 × DocStats)) (writer : DocDataWriter), kept writer.table →
      (∀ document ∈ todo, document ∈ store.docStats.entries) →
      kept (todo.foldl (DocDataWriter.add float store (storeFirstDocId store)) writer).table := by
    intro todo
    induction todo with
    | nil => exact fun writer before _ => before
    | cons document rest inductionHypothesis =>
        intro writer before stored
        apply inductionHypothesis
        · exact step document (stored document List.mem_cons_self) _ _ before
        · intro other member
          exact stored other (List.mem_cons_of_mem _ member)
  exact loop _ _ empty fun _ member => member

/-- The sidecar of the section can hold its prefixes. -/
theorem encodeRecords_held (float : FloatOps) (store : PostingStore) :
    (encodeRecords float store).table.Held :=
  encodeRecords_table float PrefixTable.held_empty
    fun document _ _ record held => held.encodeDocPath record document.2.path

/-- The prefixes of the section fit its sidecar. -/
theorem encodeRecords_fits (float : FloatOps)
    (short : ∀ document ∈ store.docStats.entries,
      (splitPathForSidecar document.2.path).1.len ≤ 65535) :
    (encodeRecords float store).table.Fits :=
  encodeRecords_table float PrefixTable.fits_empty
    fun document member _ _ fits => fits.encodeDocPath (short document member)

/-- The record in a slot, with the id that stands in front of it. -/
theorem slot_encodeDocData {slot : Nat} {record : Bytes}
    (found : (encodeRecords float store).records[slot]? = some record) :
    slice (encodeDocData float store).1 (slot * docRecSize) docRecSize = record ∧
      u32At (encodeDocData float store).1 (slot * docRecSize) = DocDataEntry.docId record := by
  have stored : slice (encodeDocData float store).1 (slot * docRecSize) docRecSize = record :=
    slice_flatten_uniform (encodeRecords_sizes float store).2 found
  refine ⟨stored, ?_⟩
  have sizes : docRecSize = 256 := rfl
  rw [DocDataEntry.docId, ← stored]
  unfold u32At
  rw [slice_slice (by omega), Nat.add_zero]

/-- An id that fits its field is read back. -/
theorem toUInt64_docId {docId : UInt64} (fits : docId.toNat ≤ 0xFFFFFFFF) :
    docId.toUInt32.toUInt64 = docId := by
  apply UInt64.toNat_inj.mp
  rw [UInt32.toNat_toUInt64, UInt64.toNat_toUInt32]
  omega

section Range

variable (float) (nonempty : store.docStats.keys ≠ []) (fit : DocIdsFit store)

include nonempty fit

/-- The record of a document of the store. -/
theorem record_of_document {docId : UInt64} (member : docId ∈ store.docStats.keys) :
    ∃ stats entry, store.docStats.get? docId = some stats ∧
      (encodeRecords float store).records[slotOf store docId]? = some entry ∧
      RecordOf float docId stats (store.docVectors.get? docId) entry := by
  obtain ⟨stats, found⟩ := (store.docStats.mem_keys_iff _).mp member
  have listed := (store.docStats.mem_entries_iff _ stats).mpr found
  obtain ⟨entry, stored, record⟩ := (encodes_all nonempty fit).present _ listed
  exact ⟨stats, entry, found, stored, record⟩

/-- The id of the first record is the smallest id. -/
theorem firstRecord_encodeDocData :
    (u32At (encodeDocData float store).1 0).toUInt64 = storeFirstDocId store := by
  obtain ⟨last, _, firstMember, _, _⟩ := storeRange nonempty fit
  obtain ⟨stats, entry, _, stored, record⟩ := record_of_document float nonempty fit firstMember
  have slotZero : slotOf store (storeFirstDocId store) = 0 := by
    have := (slotOf_eq nonempty fit firstMember).1
    omega
  rw [slotZero] at stored
  have id := (slot_encodeDocData stored).2
  rw [Nat.zero_mul] at id
  rw [id, record.docId, toUInt64_docId (fit _ firstMember)]

/-- The lookup of a document of the store reads its slot. -/
theorem findDocRecord_member {docId : UInt64} (member : docId ∈ store.docStats.keys)
    {record : Bytes}
    (found : (encodeRecords float store).records[slotOf store docId]? = some record) :
    findDocRecord (encodeDocData float store).1 (storeFirstDocId store) docId = some record := by
  have place := slotOf_eq nonempty fit member
  have stored := slot_encodeDocData found
  obtain ⟨stats, entry, _, entryFound, of⟩ := record_of_document float nonempty fit member
  rw [found, Option.some.injEq] at entryFound
  have room : slotOf store docId * docRecSize + docRecSize ≤
      (encodeDocData float store).1.length := by
    rw [encodeDocData_length, ← Nat.succ_mul]
    exact Nat.mul_le_mul_right _ place.2
  have inFront : docId ≥ storeFirstDocId store := by
    apply UInt64.le_iff_toNat_le.mpr
    omega
  unfold findDocRecord
  rw [if_pos inFront]
  dsimp only
  rw [show (docId - storeFirstDocId store).toNat = slotOf store docId from rfl,
    if_pos ⟨room, by rw [stored.2, entryFound, of.docId, toUInt64_docId (fit _ member)]⟩, stored.1]

/-- The section of a store finds exactly the documents of the store. -/
theorem findDocRecord_encoded (docId : UInt64) :
    match findDocRecord (encodeDocData float store).1 (storeFirstDocId store) docId with
    | none => docId ∉ store.docStats.keys
    | some entry => ∃ stats, store.docStats.get? docId = some stats ∧
        RecordOf float docId stats (store.docVectors.get? docId) entry := by
  by_cases member : docId ∈ store.docStats.keys
  · obtain ⟨stats, entry, statsFound, entryFound, of⟩ :=
      record_of_document float nonempty fit member
    rw [findDocRecord_member float nonempty fit member entryFound]
    exact ⟨stats, statsFound, of⟩
  · cases found : findDocRecord (encodeDocData float store).1 (storeFirstDocId store) docId with
    | none => exact member
    | some entry =>
        -- The slot is free, so its record has the id `u32::MAX`, which only the
        -- largest id could be.
        exfalso
        obtain ⟨last, lastMember, _, count, range⟩ := storeRange nonempty fit
        have records := encodeRecords_sizes float store
        have lastFits := fit last lastMember
        have firstBelow := (range last lastMember).1
        unfold findDocRecord at found
        split at found
        · rename_i inFront
          dsimp only at found
          have slotNat : slotOf store docId = docId.toNat - (storeFirstDocId store).toNat :=
            UInt64.toNat_sub_of_le docId _ inFront
          have order := UInt64.le_iff_toNat_le.mp inFront
          split at found
          · rename_i here
            obtain ⟨room, same⟩ := here
            change slotOf store docId * docRecSize + docRecSize ≤ _ at room
            change (u32At _ (slotOf store docId * docRecSize)).toUInt64 = docId at same
            rw [encodeDocData_length, ← Nat.succ_mul] at room
            have inside := Nat.le_of_mul_le_mul_right room (by decide)
            have free := (@encodes_all float store nonempty fit).absent (slotOf store docId)
              (by rw [records.1]; exact inside) (by
                intro document listed equal
                have key : document.1 ∈ store.docStats.keys := List.mem_map_of_mem listed
                have slot := (slotOf_eq nonempty fit key).1
                have this : document.1 = docId := by
                  apply UInt64.toNat_inj.mp
                  omega
                rw [this] at key
                exact member key)
            rw [(slot_encodeDocData free).2, gapRecord_docId] at same
            have value := congrArg UInt64.toNat same
            change 0xFFFFFFFF = docId.toNat at value
            apply member
            have this : docId = last := by
              apply UInt64.toNat_inj.mp
              omega
            rw [this]
            exact lastMember
          · cases found
        · cases found

end Range

end Encoded

end MoonShot.Format
