import MoonShot.Context.Merge
import MoonShot.Context.DocPaths

/-!
Document paths through a merge (`AppendMergedDocData`, `GetDocPath`).

Owns the texts a merge decodes and encodes again under one table of prefixes, the
records it writes, and the exact kind of documents that keep their paths in the
merged index.

Does not own the terms of a merge.
-/

namespace MoonShot.Context

open MoonShot.Lib
open MoonShot.Postings
open MoonShot.Format
open MoonShot.Table
open MoonShot.Serializer

/-! ## The texts a merge encodes again -/

/-- The record in a slot. -/
def slotRecord (source : LocalIndex) (slot : Nat) : Bytes :=
  slice source.docData (slot * docRecSize) docRecSize

/-- The record in a slot belongs to the document of the slot. -/
def SlotTaken (source : LocalIndex) (slot : Nat) : Prop :=
  (u32At (slotRecord source slot) 0).toUInt64 = source.firstDocId + UInt64.ofNat slot

instance (source : LocalIndex) (slot : Nat) : Decidable (SlotTaken source slot) :=
  inferInstanceAs (Decidable (_ = _))

/-- The path text of a slot; a slot without a document has none. -/
def slotText (source : LocalIndex) (slot : Nat) : Str :=
  if SlotTaken source slot then
    decodeDocPath (slice (slotRecord source slot) docPathOffset
      (u16At (slotRecord source slot) docPathLengthOffset).toNat) source.prefixes
  else Str.empty

/-- The table after one more path. -/
def addPath (table : PrefixTable) (fullPath : Str) : PrefixTable :=
  if fullPath = Str.empty then table
  else (internPathPrefix table (splitPathForSidecar fullPath).1).1

theorem encodeDocPath_table (table : PrefixTable) (record : Bytes) (fullPath : Str) :
    (encodeDocPath table record fullPath).1 = addPath table fullPath := by
  unfold encodeDocPath addPath
  split <;> rfl

/-- The texts of an index in the order of its slots. -/
def recordTexts (source : LocalIndex) : List Str :=
  (List.range source.header.numDocuments.toNat).map (slotText source)

/-- The merged table before the record of a place is written: the directories of
the texts in front of it, those of the base first. -/
def mergedTable (base delta : LocalIndex) (place : Nat) : PrefixTable :=
  ((recordTexts base ++ recordTexts delta).take place).foldl addPath .empty

/-- The record a merge writes for a slot. -/
def writtenRecord (source : LocalIndex) (table : PrefixTable) (slot : Nat) : Bytes :=
  if SlotTaken source slot then
    (encodeDocPath table (slotRecord source slot) (slotText source slot)).2
  else slotRecord source slot

/-- The records a merge writes for consecutive slots. -/
def writtenRecords (source : LocalIndex) : List Nat → PrefixTable → List Bytes
  | [], _ => []
  | slot :: rest, table =>
      writtenRecord source table slot ::
        writtenRecords source rest (addPath table (slotText source slot))

theorem writtenRecord_length {source : LocalIndex} {table : PrefixTable} {slot : Nat}
    (inside : slot * docRecSize + docRecSize ≤ source.docData.length) :
    (writtenRecord source table slot).length = docRecSize := by
  have size : (slotRecord source slot).length = docRecSize := slice_length_of_le inside
  unfold writtenRecord
  split
  · rw [encodeDocPath_length, size]
  · exact size

/-- A record keeps its document. -/
theorem writtenRecord_docId (source : LocalIndex) (table : PrefixTable) (slot : Nat) :
    u32At (writtenRecord source table slot) 0 = u32At (slotRecord source slot) 0 := by
  unfold writtenRecord
  split
  · unfold u32At
    rw [encodeDocPath_slice (Or.inl (by decide))]
  · rfl

theorem writtenRecords_getElem? (source : LocalIndex) (slots : List Nat) (table : PrefixTable)
    (index : Nat) :
    (writtenRecords source slots table)[index]? =
      slots[index]?.map fun slot => writtenRecord source
        (((slots.take index).map (slotText source)).foldl addPath table) slot := by
  induction slots generalizing table index with
  | nil => rfl
  | cons slot rest inductionHypothesis =>
      cases index with
      | zero => rfl
      | succ index =>
          rw [writtenRecords, List.getElem?_cons_succ, inductionHypothesis,
            List.getElem?_cons_succ, List.take_succ_cons, List.map_cons, List.foldl_cons]

theorem writtenRecords_length (source : LocalIndex) (slots : List Nat) (table : PrefixTable) :
    (writtenRecords source slots table).length = slots.length := by
  induction slots generalizing table with
  | nil => rfl
  | cons slot rest inductionHypothesis =>
      rw [writtenRecords, List.length_cons, List.length_cons, inductionHypothesis]

theorem writtenRecords_sizes {source : LocalIndex} {slots : List Nat} (table : PrefixTable)
    (inside : ∀ slot ∈ slots, slot * docRecSize + docRecSize ≤ source.docData.length) :
    ∀ record ∈ writtenRecords source slots table, record.length = docRecSize := by
  intro record member
  obtain ⟨index, found⟩ := List.mem_iff_getElem?.mp member
  rw [writtenRecords_getElem?, Option.map_eq_some_iff] at found
  obtain ⟨slot, here, rfl⟩ := found
  exact writtenRecord_length (inside slot (List.mem_of_getElem? here))

/-! ## What a successful merge wrote -/

/-- A turn that succeeds. -/
theorem mergedRecord_eq_ok {source : LocalIndex} {table after : PrefixTable} {slot : Nat}
    {record : Bytes} (ok : mergedRecord source table slot = .ok (after, record)) :
    after = addPath table (slotText source slot) ∧ record = writtenRecord source table slot ∧
      (SlotTaken source slot →
        (u16At (slotRecord source slot) docPathLengthOffset).toNat ≤ docPathMax) := by
  unfold mergedRecord at ok
  dsimp only at ok
  unfold writtenRecord
  by_cases taken : SlotTaken source slot
  · have text : slotText source slot =
        decodeDocPath (slice (slotRecord source slot) docPathOffset
          (u16At (slotRecord source slot) docPathLengthOffset).toNat) source.prefixes := by
      rw [slotText, if_pos taken]
    rw [if_pos taken]
    change (if SlotTaken source slot then _ else _) = _ at ok
    rw [if_pos taken] at ok
    obtain ⟨_, within, rest⟩ := bind_ok.mp ok
    have encoded : encodeDocPath table (slotRecord source slot) (slotText source slot) =
        (after, record) := by
      rw [text]
      exact Except.ok.inj rest
    rw [← encodeDocPath_table table (slotRecord source slot), encoded]
    exact ⟨rfl, rfl, fun _ => require_eq_ok.mp within⟩
  · have text : slotText source slot = Str.empty := by rw [slotText, if_neg taken]
    rw [if_neg taken, text, addPath, if_pos rfl]
    change (if SlotTaken source slot then _ else _) = _ at ok
    rw [if_neg taken] at ok
    obtain ⟨rfl, rfl⟩ := Prod.mk.inj (Except.ok.inj ok)
    exact ⟨rfl, rfl, fun absurdity => absurd absurdity taken⟩

theorem mergedRecords_eq_ok {source : LocalIndex} {slots : List Nat} {table after : PrefixTable}
    {output docData : Bytes}
    (ok : mergedRecords source slots (table, output) = .ok (after, docData)) :
    after = (slots.map (slotText source)).foldl addPath table ∧
      docData = output ++ (writtenRecords source slots table).flatten ∧
      ∀ slot ∈ slots, SlotTaken source slot →
        (u16At (slotRecord source slot) docPathLengthOffset).toNat ≤ docPathMax := by
  induction slots generalizing table output with
  | nil =>
      obtain ⟨rfl, rfl⟩ := Prod.mk.inj (Except.ok.inj ok)
      exact ⟨rfl, (List.append_nil _).symm, by simp⟩
  | cons slot rest inductionHypothesis =>
      rw [mergedRecords] at ok
      obtain ⟨⟨between, record⟩, turn, ok⟩ := bind_ok.mp ok
      obtain ⟨rfl, rfl, within⟩ := mergedRecord_eq_ok turn
      obtain ⟨tableEq, dataEq, later⟩ := inductionHypothesis ok
      refine ⟨tableEq, ?_, ?_⟩
      · rw [dataEq, writtenRecords, List.flatten_cons, List.append_assoc]
      · intro other member
        rcases List.mem_cons.mp member with rfl | behind
        · exact within
        · exact later other behind

theorem appendMergedDocData_eq_ok {source : LocalIndex} {table after : PrefixTable}
    {output docData : Bytes}
    (ok : appendMergedDocData source (table, output) = .ok (after, docData)) :
    after = (recordTexts source).foldl addPath table ∧
      docData = output ++
        (writtenRecords source (List.range source.header.numDocuments.toNat) table).flatten ∧
      ∀ slot < source.header.numDocuments.toNat, SlotTaken source slot →
        (u16At (slotRecord source slot) docPathLengthOffset).toNat ≤ docPathMax := by
  obtain ⟨_, _, ok⟩ := bind_ok.mp ok
  obtain ⟨_, _, ok⟩ := bind_ok.mp ok
  obtain ⟨tableEq, dataEq, within⟩ := mergedRecords_eq_ok ok
  exact ⟨tableEq, dataEq, fun slot below => within slot (List.mem_range.mpr below)⟩

theorem recordTexts_length (source : LocalIndex) :
    (recordTexts source).length = source.header.numDocuments.toNat := by
  rw [recordTexts, List.length_map, List.length_range]

/-- The table while the records of the delta are written. -/
theorem mergedTable_behind (base delta : LocalIndex) (slot : Nat) :
    mergedTable base delta (base.header.numDocuments.toNat + slot) =
      ((recordTexts delta).take slot).foldl addPath
        ((recordTexts base).foldl addPath .empty) := by
  rw [mergedTable, ← recordTexts_length base, List.take_length_add_append, List.foldl_append]

/-- The records of a merged index in the order of their places. -/
def mergedRecordList (base delta : LocalIndex) : List Bytes :=
  writtenRecords base (List.range base.header.numDocuments.toNat) .empty ++
    writtenRecords delta (List.range delta.header.numDocuments.toNat)
      (mergedTable base delta base.header.numDocuments.toNat)

theorem mergeDocData_eq_ok {base delta : LocalIndex} {table : PrefixTable} {docData : Bytes}
    (ok : mergeDocData base delta = .ok (table, docData)) :
    table = mergedTable base delta
        (base.header.numDocuments.toNat + delta.header.numDocuments.toNat) ∧
      docData = (mergedRecordList base delta).flatten ∧
      ∀ source ∈ [base, delta], ∀ slot < source.header.numDocuments.toNat, SlotTaken source slot →
        (u16At (slotRecord source slot) docPathLengthOffset).toNat ≤ docPathMax := by
  obtain ⟨⟨between, records⟩, first, ok⟩ := bind_ok.mp ok
  obtain ⟨betweenEq, recordsEq, baseWithin⟩ := appendMergedDocData_eq_ok first
  have middle : between = mergedTable base delta base.header.numDocuments.toNat := by
    rw [betweenEq]
    exact (mergedTable_behind base delta 0).symm
  have whole : mergedTable base delta
      (base.header.numDocuments.toNat + delta.header.numDocuments.toNat) =
        (recordTexts delta).foldl addPath between := by
    rw [betweenEq, mergedTable_behind, List.take_of_length_le (by rw [recordTexts_length])]
  rw [whole, mergedRecordList, List.flatten_append]
  split at ok
  · obtain ⟨tableEq, dataEq, deltaWithin⟩ := appendMergedDocData_eq_ok ok
    refine ⟨tableEq, ?_, ?_⟩
    · rw [dataEq, recordsEq, List.nil_append, middle]
    · intro source member
      rcases List.mem_cons.mp member with rfl | second
      · exact baseWithin
      · rw [List.mem_singleton.mp second]
        exact deltaWithin
  · rename_i absent
    obtain ⟨rfl, rfl⟩ := Prod.mk.inj (Except.ok.inj ok)
    have zero : delta.header.numDocuments.toNat = 0 := by
      rw [UInt64.le_zero_iff.mp (not_lt.mp absent)]
      rfl
    have noTexts : recordTexts delta = [] :=
      List.eq_nil_of_length_eq_zero (by rw [recordTexts_length, zero])
    rw [noTexts, recordsEq, zero]
    refine ⟨rfl, by simp [writtenRecords], ?_⟩
    intro source member
    rcases List.mem_cons.mp member with rfl | second
    · exact baseWithin
    · rw [List.mem_singleton.mp second, zero]
      exact fun slot below => absurd below (Nat.not_lt_zero _)

/-! ## Places in the merged index -/

section Places

variable {base delta : LocalIndex}
  (baseLength : base.docData.length = base.header.numDocuments.toNat * docRecSize)
  (deltaLength : delta.docData.length = delta.header.numDocuments.toNat * docRecSize)

private theorem slot_inside {source : LocalIndex}
    (length : source.docData.length = source.header.numDocuments.toNat * docRecSize) {slot : Nat}
    (below : slot < source.header.numDocuments.toNat) :
    slot * docRecSize + docRecSize ≤ source.docData.length := by
  rw [length, ← Nat.succ_mul]
  exact Nat.mul_le_mul_right _ below

include baseLength deltaLength in
theorem mergedRecordList_sizes :
    ∀ record ∈ mergedRecordList base delta, record.length = docRecSize := by
  intro record member
  rcases List.mem_append.mp member with first | second
  · exact writtenRecords_sizes _ (fun slot inRange =>
      slot_inside baseLength (List.mem_range.mp inRange)) record first
  · exact writtenRecords_sizes _ (fun slot inRange =>
      slot_inside deltaLength (List.mem_range.mp inRange)) record second

theorem mergedRecordList_base {slot : Nat} (below : slot < base.header.numDocuments.toNat) :
    (mergedRecordList base delta)[slot]? =
      some (writtenRecord base (mergedTable base delta slot) slot) := by
  rw [mergedRecordList, List.getElem?_append_left (by
      rw [writtenRecords_length, List.length_range]; exact below),
    writtenRecords_getElem?, List.getElem?_range below, Option.map_some, mergedTable,
    List.take_append_of_le_length (by rw [recordTexts_length]; omega), recordTexts, List.map_take]

theorem mergedRecordList_delta {slot : Nat} (below : slot < delta.header.numDocuments.toNat) :
    (mergedRecordList base delta)[base.header.numDocuments.toNat + slot]? =
      some (writtenRecord delta
        (mergedTable base delta (base.header.numDocuments.toNat + slot)) slot) := by
  rw [mergedRecordList, List.getElem?_append_right (by
      rw [writtenRecords_length, List.length_range]; omega),
    writtenRecords_length, List.length_range, Nat.add_sub_cancel_left,
    writtenRecords_getElem?, List.getElem?_range below, Option.map_some]
  have start : mergedTable base delta base.header.numDocuments.toNat =
      (recordTexts base).foldl addPath .empty := mergedTable_behind base delta 0
  rw [mergedTable_behind, start, recordTexts, recordTexts, List.map_take]

theorem mergedRecordList_length :
    (mergedRecordList base delta).length =
      base.header.numDocuments.toNat + delta.header.numDocuments.toNat := by
  rw [mergedRecordList, List.length_append, writtenRecords_length, writtenRecords_length,
    List.length_range, List.length_range]

end Places

/-! ## The merged index -/

/-- The index that a load makes of the parts of a file. -/
def openParts (parts : FileParts) : Except RustBladeError LocalIndex := do
  let prefixes ← decodePathPrefixSidecar parts.sidecar
  let loaded := parts.loaded prefixes
  return (LocalIndex.new false).install loaded (docDataFirstDocId loaded.docData loaded.header)

/-- A load of a file with these parts reports the paths of the opened index. -/
theorem loadIndex_openParts {parts : FileParts} {prefixes : List Str} {files : FileSystem}
    {path : Str} (agrees : parts.Agrees prefixes) (present : files path = some parts.bytes)
    {index : LocalIndex} (cache : pageSize ≤ index.leafTermCacheBytes) :
    ∃ opened, openParts parts = .ok opened ∧ ∃ loaded,
      index.loadIndex files path = (loaded, .ok ()) ∧
        ∀ docId, loaded.findPath docId = opened.findPath docId := by
  have decoded : openParts parts = .ok ((LocalIndex.new false).install (parts.loaded prefixes)
      (docDataFirstDocId parts.docData parts.header)) := by
    unfold openParts
    rw [agrees.decodes]
    rfl
  have read : index.loadIndex files path =
      (({ index with indexPath := some path }).install (parts.loaded prefixes)
        (docDataFirstDocId parts.docData parts.header), .ok ()) := by
    unfold LocalIndex.loadIndex
    dsimp only
    rw [agrees.loadFile_bytes present cache]
    rfl
  exact ⟨_, decoded, _, read, fun _ => rfl⟩

/-- What the merged index is made of. -/
structure MergedIndex (base delta merged : LocalIndex) : Prop where
  docData : merged.docData = (mergedRecordList base delta).flatten
  count : merged.header.numDocuments = base.header.numDocuments + delta.header.numDocuments
  prefixes : ∀ (place : Nat) (directory : Str),
    (mergedTable base delta
      (base.header.numDocuments.toNat + delta.header.numDocuments.toNat)).prefixes[place]? =
        some directory →
    ∃ cut, merged.prefixes[place]? = some cut ∧ sidecarPrefix directory = .ok cut

/-- The sidecar of the merged prefixes can be read: the cut of a prefix that is too
long for its entry is a string. -/
def SidecarReads (prefixes : List Str) : Prop :=
  ∀ directory ∈ prefixes, validUtf8 (directory.bytes.take (directory.len % 65536)) = true

instance (prefixes : List Str) : Decidable (SidecarReads prefixes) :=
  inferInstanceAs (Decidable (∀ directory ∈ prefixes, _))

theorem sidecarPrefix_ok_iff (directory : Str) :
    (∃ cut, sidecarPrefix directory = .ok cut) ↔
      validUtf8 (directory.bytes.take (directory.len % 65536)) = true := by
  unfold sidecarPrefix Str.fromUtf8
  by_cases valid : validUtf8 (directory.bytes.take (directory.len % 65536)) = true
  · rw [dif_pos valid]
    exact ⟨fun _ => valid, fun _ => ⟨_, rfl⟩⟩
  · rw [dif_neg valid]
    constructor
    · rintro ⟨cut, ok⟩
      cases ok
    · exact fun absurdity => absurd absurdity valid

/-- The prefixes of a sidecar that was read. -/
theorem mapM_sidecarPrefix (prefixes : List Str) :
    SidecarReads prefixes ↔ ∃ cuts, prefixes.mapM sidecarPrefix = .ok cuts := by
  induction prefixes with
  | nil => exact ⟨fun _ => ⟨[], rfl⟩, fun _ => by simp [SidecarReads]⟩
  | cons first rest inductionHypothesis =>
      have split : SidecarReads (first :: rest) ↔
          (∃ cut, sidecarPrefix first = .ok cut) ∧ SidecarReads rest := by
        rw [sidecarPrefix_ok_iff]
        exact List.forall_mem_cons
      rw [split, inductionHypothesis, List.mapM_cons]
      constructor
      · rintro ⟨⟨cut, here⟩, cuts, later⟩
        rw [here, later]
        exact ⟨cut :: cuts, rfl⟩
      · rintro ⟨cuts, ok⟩
        obtain ⟨cut, here, ok⟩ := bind_ok.mp ok
        obtain ⟨others, later, _⟩ := bind_ok.mp ok
        exact ⟨⟨cut, here⟩, others, later⟩

theorem mapM_sidecarPrefix_getElem? {prefixes cuts : List Str}
    (ok : prefixes.mapM sidecarPrefix = .ok cuts) {place : Nat} {directory : Str}
    (found : prefixes[place]? = some directory) :
    ∃ cut, cuts[place]? = some cut ∧ sidecarPrefix directory = .ok cut := by
  induction prefixes generalizing cuts place with
  | nil => cases found
  | cons first rest inductionHypothesis =>
      rw [List.mapM_cons] at ok
      obtain ⟨cut, here, ok⟩ := bind_ok.mp ok
      obtain ⟨others, later, ok⟩ := bind_ok.mp ok
      obtain rfl := Except.ok.inj ok
      cases place with
      | zero =>
          obtain rfl := Option.some.inj found
          exact ⟨cut, rfl, here⟩
      | succ place => exact inductionHypothesis later found

/-- A merge makes an index that opens when its sidecar can be read. -/
theorem openParts_merged {float : FloatOps} {base delta : LocalIndex} {turns : Nat}
    {parts : FileParts} (ok : mergeIndexes float base delta turns = some (.ok parts)) :
    (SidecarReads (mergedTable base delta
        (base.header.numDocuments.toNat + delta.header.numDocuments.toNat)).prefixes ↔
      ∃ merged, openParts parts = .ok merged) ∧
    ∀ merged, openParts parts = .ok merged → MergedIndex base delta merged := by
  obtain ⟨table, docData, files, records, _, _, rfl⟩ := mergeIndexes_eq_ok ok
  obtain ⟨rfl, dataEq, _⟩ := mergeDocData_eq_ok records
  have held := (mergeDocData_ok records).1
  have decoded := decode_encodePathPrefixSidecar_eq held.total
  unfold openParts
  dsimp only
  rw [decoded, mapM_sidecarPrefix]
  constructor
  · constructor
    · rintro ⟨cuts, read⟩
      rw [read]
      exact ⟨_, rfl⟩
    · rintro ⟨merged, opened⟩
      obtain ⟨cuts, read, _⟩ := bind_ok.mp opened
      exact ⟨cuts, read⟩
  · intro merged opened
    obtain ⟨cuts, read, opened⟩ := bind_ok.mp opened
    obtain rfl := Except.ok.inj opened
    exact ⟨dataEq, rfl, fun _ _ found => mapM_sidecarPrefix_getElem? read found⟩

/-! ## Paths of documents -/

theorem recordPath_gap (prefixes : List Str) : recordPath prefixes gapRecord = none := by
  have field : u16At gapRecord docPathLengthOffset = 0 := by decide +kernel
  unfold recordPath
  rw [field]
  rfl

/-- The text of a slot is the path its document has before the merge. -/
theorem slotText_eq {source : LocalIndex} {slot : Nat} (taken : SlotTaken source slot)
    (within : (u16At (slotRecord source slot) docPathLengthOffset).toNat ≤ docPathMax) :
    slotText source slot =
      (recordPath source.prefixes (slotRecord source slot)).getD Str.empty := by
  unfold slotText recordPath
  rw [if_pos taken]
  dsimp only
  by_cases stored : 0 < (u16At (slotRecord source slot) docPathLengthOffset).toNat
  · rw [if_pos ⟨stored, within⟩]
    rfl
  · have zero : (u16At (slotRecord source slot) docPathLengthOffset).toNat = 0 := by omega
    rw [if_neg fun both => stored both.1, zero, slice_zero_length]
    rfl

theorem slotText_short {source : LocalIndex} {slot : Nat}
    (within : SlotTaken source slot →
      (u16At (slotRecord source slot) docPathLengthOffset).toNat ≤ docPathMax) :
    (splitPathForSidecar (slotText source slot)).2.len ≤ docPathFilenameMax := by
  unfold slotText
  split
  · rename_i taken
    apply decodeDocPath_name_short
    have bound := within taken
    rw [slice_length]
    omega
  · decide

theorem foldl_addPath_indexed (texts : List Str) {table : PrefixTable} (indexed : table.Indexed) :
    (texts.foldl addPath table).Indexed ∧
      table.prefixes <+: (texts.foldl addPath table).prefixes := by
  induction texts generalizing table with
  | nil => exact ⟨indexed, List.prefix_rfl⟩
  | cons text rest inductionHypothesis =>
      rw [List.foldl_cons, ← encodeDocPath_table table [] text]
      have later := inductionHypothesis (indexed.encodeDocPath [] text)
      exact ⟨later.1, (encodeDocPath_grows table [] text).trans later.2⟩

theorem mergedTable_indexed (base delta : LocalIndex) (place : Nat) :
    (mergedTable base delta place).Indexed :=
  (foldl_addPath_indexed _ PrefixTable.indexed_empty).1

/-- The table only grows, and it grows by the text of the place. -/
theorem mergedTable_grows (base delta : LocalIndex) {place : Nat} {text : Str}
    (here : (recordTexts base ++ recordTexts delta)[place]? = some text) :
    (addPath (mergedTable base delta place) text).prefixes <+:
      (mergedTable base delta
        (base.header.numDocuments.toNat + delta.header.numDocuments.toNat)).prefixes := by
  have below := (List.getElem?_eq_some_iff.mp here).1
  have value := (List.getElem?_eq_some_iff.mp here).2
  have next : addPath (mergedTable base delta place) text =
      mergedTable base delta (place + 1) := by
    unfold mergedTable
    rw [List.take_succ_eq_append_getElem below, List.foldl_append, value]
    rfl
  have whole : mergedTable base delta
      (base.header.numDocuments.toNat + delta.header.numDocuments.toNat) =
        ((recordTexts base ++ recordTexts delta).drop (place + 1)).foldl addPath
          (mergedTable base delta (place + 1)) := by
    unfold mergedTable
    rw [← List.foldl_append, List.take_append_drop, List.take_of_length_le (by
      rw [List.length_append, recordTexts_length, recordTexts_length])]
  rw [next, whole]
  exact (foldl_addPath_indexed _ (mergedTable_indexed base delta (place + 1))).2

/-- The directory of a path is interned by the merge when it comes to the place, and
is no longer than its entry can say. -/
def DirectoryMerged (base delta : LocalIndex) (place : Nat) (fullPath : Str) : Prop :=
  directoryId (mergedTable base delta place) fullPath ≠ docPathPrefixInvalid ∧
    (splitPathForSidecar fullPath).1.len ≤ 65535

section Documents

variable {base delta merged : LocalIndex}
  (baseLength : base.docData.length = base.header.numDocuments.toNat * docRecSize)
  (deltaLength : delta.docData.length = delta.header.numDocuments.toNat * docRecSize)
  (of : MergedIndex base delta merged)

include baseLength deltaLength of in
/-- The record of a document in the merged index is the one at its place. -/
theorem merged_findRecord (sameFirst : merged.firstDocId = base.firstDocId) (docId : UInt64) :
    merged.findRecord docId =
      if docId ≥ base.firstDocId then
        (mergedRecordList base delta)[(docId - base.firstDocId).toNat]?.filter fun record =>
          (u32At record 0).toUInt64 = docId
      else none := by
  rw [LocalIndex.findRecord, of.docData, sameFirst,
    findDocRecord_flatten (mergedRecordList_sizes baseLength deltaLength)]

include of in
/-- The path of a record that was written again, under the merged prefixes. -/
theorem recordPath_written {source : LocalIndex} {place slot : Nat}
    (size : (slotRecord source slot).length = docRecSize)
    (here : (recordTexts base ++ recordTexts delta)[place]? = some (slotText source slot))
    (taken : SlotTaken source slot)
    (within : (u16At (slotRecord source slot) docPathLengthOffset).toNat ≤ docPathMax) :
    let text := slotText source slot
    let path := (recordPath merged.prefixes
      (writtenRecord source (mergedTable base delta place) slot)).getD Str.empty
    path = text ↔ text = Str.empty ∨
      Rejoins text ∧ (lastSeparator text ≠ none → DirectoryMerged base delta place text) := by
  intro text path
  have written : path = (recordPath merged.prefixes
      (encodeDocPath (mergedTable base delta place) (slotRecord source slot) text).2).getD
        Str.empty := by
    show (recordPath _ (writtenRecord _ _ _)).getD _ = _
    rw [writtenRecord, if_pos taken]
  by_cases empty : text = Str.empty
  · rw [written, empty, recordPath_empty size]
    simp
  · rw [written, recordPath_encode_under _ size empty, Option.getD_some,
      pathUnder_eq_iff (slotText_short fun _ => within)]
    · exact (or_iff_right empty).symm
    · intro interned
      apply of.prefixes
      apply (mergedTable_indexed base delta place).directory (slotRecord source slot) empty interned
      rw [encodeDocPath_table]
      exact mergedTable_grows base delta here

end Documents

/-- An empty record has no path after it was written again either. -/
theorem recordPath_written_gap {source : LocalIndex} {slot : Nat}
    (gap : slotRecord source slot = gapRecord) (table : PrefixTable) (prefixes : List Str) :
    recordPath prefixes (writtenRecord source table slot) = none := by
  have field : (u16At gapRecord docPathLengthOffset).toNat = 0 := by decide +kernel
  unfold writtenRecord slotText
  split
  · rw [gap, field, slice_zero_length]
    exact recordPath_empty gapRecord_length prefixes
  · rw [gap]
    exact recordPath_gap prefixes

section Stores

variable {float : FloatOps} {baseStore deltaStore : PostingStore} {base delta merged : LocalIndex}
  (baseOf : base.RecordsOf float baseStore) (deltaOf : delta.RecordsOf float deltaStore)
  (baseRecords : base.docData ≠ []) (deltaRecords : delta.docData ≠ [])
  (of : MergedIndex base delta merged)

include baseOf deltaOf baseRecords of in
theorem merged_firstDocId : merged.firstDocId = base.firstDocId := by
  have nonempty := baseOf.nonempty baseRecords
  have baseCount := recordCount_pos nonempty baseOf.fit
  have baseMost := recordCount_le baseOf.fit
  have deltaMost := recordCount_le deltaOf.fit
  rw [← baseOf.count] at baseCount baseMost
  rw [← deltaOf.count] at deltaMost
  have sizes := mergedRecordList_sizes baseOf.length deltaOf.length
  have total : merged.docData.length =
      (base.header.numDocuments.toNat + delta.header.numDocuments.toNat) * docRecSize := by
    rw [of.docData, flatten_length_uniform sizes, mergedRecordList_length]
  have positive : merged.header.numDocuments > 0 := by
    rw [of.count]
    apply UInt64.lt_iff_toNat_lt.mpr
    rw [UInt64.toNat_add, Nat.mod_eq_of_lt (by omega)]
    exact Nat.add_pos_left baseCount _
  have front : u32At merged.docData 0 = u32At base.docData 0 := by
    have stored := slice_flatten_uniform sizes (@mergedRecordList_base base delta 0 baseCount)
    rw [Nat.zero_mul, ← of.docData] at stored
    have id := writtenRecord_docId base (mergedTable base delta 0) 0
    rw [← stored] at id
    unfold slotRecord u32At at id
    rw [slice_slice (by decide), Nat.zero_mul, slice_slice (by decide)] at id
    exact id
  unfold LocalIndex.firstDocId docDataFirstDocId
  rw [if_pos ⟨positive, by rw [total]; exact Nat.le_mul_of_pos_left _ (by omega)⟩,
    if_pos ⟨UInt64.lt_iff_toNat_lt.mpr baseCount, by
      rw [baseOf.length]; exact Nat.le_mul_of_pos_left _ baseCount⟩, front]

/-- The slot of a document is taken by it. -/
theorem document_slot {source : LocalIndex} {store : PostingStore}
    (sourceOf : source.RecordsOf float store) (records : source.docData ≠ []) {docId : UInt64}
    (member : docId ∈ store.docStats.keys) :
    source.firstDocId.toNat + slotOf store docId = docId.toNat ∧
      slotOf store docId < source.header.numDocuments.toNat ∧
      SlotTaken source (slotOf store docId) ∧
      source.findRecord docId = some (slotRecord source (slotOf store docId)) ∧
      (u32At (slotRecord source (slotOf store docId)) 0).toUInt64 = docId := by
  have nonempty := sourceOf.nonempty records
  obtain ⟨below, record, stored, found, id⟩ := sourceOf.document nonempty member
  have place := slotOf_eq nonempty sourceOf.fit member
  rw [← sourceOf.firstDocId nonempty] at place
  change slotRecord source (slotOf store docId) = record at stored
  rw [← stored] at found id
  refine ⟨place.1, below, ?_, found, id⟩
  rw [SlotTaken, id]
  apply UInt64.toNat_inj.mp
  have most := docId.toNat_lt
  rw [UInt64.toNat_add, UInt64.toNat_ofNat',
    Nat.mod_eq_of_lt (by omega : slotOf store docId < 2 ^ 64), place.1, Nat.mod_eq_of_lt most]

include baseOf deltaOf baseRecords of in
/-- The path at a document's place in the merged index. -/
theorem merged_findPath {docId : UInt64} {record : Bytes} (inFront : docId ≥ base.firstDocId)
    (here : (mergedRecordList base delta)[(docId - base.firstDocId).toNat]? = some record) :
    merged.findPath docId =
      if (u32At record 0).toUInt64 = docId then recordPath merged.prefixes record else none := by
  rw [LocalIndex.findPath_eq, merged_findRecord baseOf.length deltaOf.length of
    (merged_firstDocId baseOf deltaOf baseRecords of), if_pos inFront, here, Option.filter_some]
  by_cases same : (u32At record 0).toUInt64 = docId
  · rw [if_pos same, if_pos (decide_eq_true same), Option.bind_some]
  · rw [if_neg same, if_neg (by simpa using same), Option.bind_none]

/-- The text of a document's slot is the path it had. -/
theorem slotText_document {source : LocalIndex} {store : PostingStore}
    (sourceOf : source.RecordsOf float store) (records : source.docData ≠ []) {docId : UInt64}
    (member : docId ∈ store.docStats.keys)
    (within : ∀ slot < source.header.numDocuments.toNat, SlotTaken source slot →
      (u16At (slotRecord source slot) docPathLengthOffset).toNat ≤ docPathMax) :
    slotText source (slotOf store docId) = (source.findPath docId).getD Str.empty := by
  obtain ⟨_, below, taken, found, _⟩ := document_slot sourceOf records member
  rw [LocalIndex.findPath_eq, found, Option.bind_some]
  exact slotText_eq taken (within _ below taken)

section Kept

variable (within : ∀ source ∈ [base, delta], ∀ slot < source.header.numDocuments.toNat,
  SlotTaken source slot →
    (u16At (slotRecord source slot) docPathLengthOffset).toNat ≤ docPathMax)

include baseOf deltaOf baseRecords of within in
/-- A document of the base keeps its path exactly when the path is empty or comes
back from the merged table. -/
theorem merged_base_kept {docId : UInt64} (member : docId ∈ baseStore.docStats.keys) :
    let text := (base.findPath docId).getD Str.empty
    (merged.findPath docId).getD Str.empty = text ↔ text = Str.empty ∨ Rejoins text ∧
      (lastSeparator text ≠ none →
        DirectoryMerged base delta (docId - base.firstDocId).toNat text) := by
  obtain ⟨place, below, taken, _, id⟩ := document_slot baseOf baseRecords member
  have inFront : docId ≥ base.firstDocId := UInt64.le_iff_toNat_le.mpr (by omega)
  have slot : (docId - base.firstDocId).toNat = slotOf baseStore docId := by
    rw [UInt64.toNat_sub_of_le _ _ inFront]
    omega
  have inBase := within base List.mem_cons_self
  have text := slotText_document baseOf baseRecords member inBase
  have here := merged_findPath baseOf deltaOf baseRecords of inFront (by
    rw [slot]
    exact mergedRecordList_base below)
  rw [writtenRecord_docId, if_pos id] at here
  have inTexts : (recordTexts base ++ recordTexts delta)[slotOf baseStore docId]? =
      some (slotText base (slotOf baseStore docId)) := by
    rw [List.getElem?_append_left (by rw [recordTexts_length]; exact below), recordTexts,
      List.getElem?_map, List.getElem?_range below]
    rfl
  have kept := recordPath_written of (slice_length_of_le (slot_inside baseOf.length below)) inTexts
    taken (inBase _ below taken)
  dsimp only at kept ⊢
  rw [text] at kept
  rw [here, slot]
  exact kept

include baseOf deltaOf baseRecords deltaRecords of within in
/-- The same for a document of the delta that follows the documents of the base. -/
theorem merged_delta_kept (start : base.firstDocId = 0)
    (follows : delta.firstDocId = base.header.numDocuments) {docId : UInt64}
    (member : docId ∈ deltaStore.docStats.keys) :
    let text := (delta.findPath docId).getD Str.empty
    (merged.findPath docId).getD Str.empty = text ↔ text = Str.empty ∨ Rejoins text ∧
      (lastSeparator text ≠ none →
        DirectoryMerged base delta (docId - base.firstDocId).toNat text) := by
  obtain ⟨place, below, taken, _, id⟩ := document_slot deltaOf deltaRecords member
  rw [follows] at place
  have inFront : docId ≥ base.firstDocId := by
    rw [start]
    exact UInt64.zero_le
  have slot : (docId - base.firstDocId).toNat =
      base.header.numDocuments.toNat + slotOf deltaStore docId := by
    rw [start, UInt64.sub_zero, place]
  have inDelta := within delta (List.mem_cons_of_mem _ List.mem_cons_self)
  have text := slotText_document deltaOf deltaRecords member inDelta
  have here := merged_findPath baseOf deltaOf baseRecords of inFront (by
    rw [slot]
    exact mergedRecordList_delta below)
  rw [writtenRecord_docId, if_pos id] at here
  have inTexts : (recordTexts base ++
      recordTexts delta)[base.header.numDocuments.toNat + slotOf deltaStore docId]? =
        some (slotText delta (slotOf deltaStore docId)) := by
    rw [List.getElem?_append_right (by rw [recordTexts_length]; omega), recordTexts_length,
      Nat.add_sub_cancel_left, recordTexts, List.getElem?_map, List.getElem?_range below]
    rfl
  have kept := recordPath_written of (slice_length_of_le (slot_inside deltaOf.length below)) inTexts
    taken (inDelta _ below taken)
  dsimp only at kept ⊢
  rw [text] at kept
  rw [here, slot]
  exact kept

end Kept

/-- A slot holds the record of a document of the store or the empty record. -/
theorem slot_cases {source : LocalIndex} {store : PostingStore}
    (sourceOf : source.RecordsOf float store) (records : source.docData ≠ []) {slot : Nat}
    (below : slot < source.header.numDocuments.toNat) :
    (∃ docId ∈ store.docStats.keys, source.firstDocId.toNat + slot = docId.toNat ∧
      (u32At (slotRecord source slot) 0).toUInt64 = docId) ∨
        slotRecord source slot = gapRecord := by
  by_cases taken : ∃ docId ∈ store.docStats.keys, slotOf store docId = slot
  · obtain ⟨docId, member, rfl⟩ := taken
    obtain ⟨place, _, _, _, id⟩ := document_slot sourceOf records member
    exact .inl ⟨docId, member, place, id⟩
  · exact .inr (sourceOf.gap (sourceOf.nonempty records) below fun docId member same =>
      taken ⟨docId, member, same⟩)

include baseOf deltaOf baseRecords deltaRecords of in
/-- A merge puts the records of the delta behind those of the base, so a base that does
not start with document 0 leaves them at places where no lookup expects them. -/
theorem merged_delta_lost (start : base.firstDocId ≠ 0)
    (follows : delta.firstDocId = base.header.numDocuments) {docId : UInt64}
    (absent : docId ∉ baseStore.docStats.keys) : merged.findPath docId = none := by
  have findRecord := merged_findRecord baseOf.length deltaOf.length of
    (merged_firstDocId baseOf deltaOf baseRecords of) docId
  by_cases inFront : docId ≥ base.firstDocId
  · cases here : (mergedRecordList base delta)[(docId - base.firstDocId).toNat]? with
    | none =>
        rw [if_pos inFront, here] at findRecord
        rw [LocalIndex.findPath_eq, findRecord]
        rfl
    | some record =>
        have path := merged_findPath baseOf deltaOf baseRecords of inFront here
        have place : (docId - base.firstDocId).toNat = docId.toNat - base.firstDocId.toNat :=
          UInt64.toNat_sub_of_le _ _ inFront
        have order := UInt64.le_iff_toNat_le.mp inFront
        have positive : base.firstDocId.toNat ≠ 0 := fun zero =>
          start (UInt64.toNat_inj.mp zero)
        have within := (List.getElem?_eq_some_iff.mp here).1
        rw [mergedRecordList_length] at within
        by_cases inBase : (docId - base.firstDocId).toNat < base.header.numDocuments.toNat
        · rw [mergedRecordList_base inBase, Option.some.injEq] at here
          rw [← here, writtenRecord_docId] at path
          rcases slot_cases baseOf baseRecords inBase with ⟨other, member, own, id⟩ | gap
          · have same : other = docId := by
              apply UInt64.toNat_inj.mp
              omega
            exact absurd (same ▸ member) absent
          · rw [path, recordPath_written_gap gap, ite_self]
        · obtain ⟨slot, behind⟩ := Nat.exists_eq_add_of_le (Nat.le_of_not_lt inBase)
          have below : slot < delta.header.numDocuments.toNat := by omega
          rw [behind, mergedRecordList_delta below, Option.some.injEq] at here
          rw [← here, writtenRecord_docId] at path
          rcases slot_cases deltaOf deltaRecords below with ⟨other, member, own, id⟩ | gap
          · rw [path, if_neg]
            rw [id]
            intro same
            rw [same, follows] at own
            omega
          · rw [path, recordPath_written_gap gap, ite_self]
  · rw [if_neg inFront] at findRecord
    rw [LocalIndex.findPath_eq, findRecord]
    rfl

end Stores

/-! ## Paths before and after a merge -/

/-- What keeps the path of a document: the merged index looks for its record where
the merge put it, the path rejoins, and its directory is interned by the merge. -/
structure MergeKeeps (base delta : LocalIndex) (docId : UInt64) (fullPath : Str) : Prop where
  found : base.findPath docId ≠ none ∨ base.findRecord docId = none ∧ base.firstDocId = 0
  rejoins : Rejoins fullPath
  interned : lastSeparator fullPath ≠ none →
    DirectoryMerged base delta (docId - base.firstDocId).toNat fullPath

theorem getDocPath_small {context : IndexContext} {docId : UInt64} (small : docId.toNat < 2 ^ 59) :
    context.getDocPath docId =
      (context.base.findPath docId).getD (context.deltaPath docId) := by
  have plain := readerDocumentIdValue_small small
  unfold IndexContext.getDocPath IndexContext.deltaPath
  dsimp only
  rw [plain]
  cases context.base.findPath docId with
  | some path => rfl
  | none =>
      cases context.delta with
      | none => rfl
      | some delta =>
          dsimp only
          rw [plain]
          rfl

/-- A delta that is merged starts behind the records of the base. -/
theorem mergeIndexes_follows {float : FloatOps} {base delta : LocalIndex} {turns : Nat}
    {parts : FileParts} (ok : mergeIndexes float base delta turns = some (.ok parts))
    (positive : delta.header.numDocuments > 0) :
    delta.firstDocId = base.header.numDocuments := by
  by_contra apart
  unfold mergeIndexes at ok
  dsimp only at ok
  rw [if_pos ⟨positive, apart⟩] at ok
  cases ok

section Merge

variable {float : FloatOps} {context after : IndexContext} {delta : AttachedDelta} {turns : Nat}
  {parts : FileParts} {baseStore deltaStore : PostingStore}

theorem merge_eq_ok (attached : context.delta = some delta)
    (ok : context.merge float turns = some (after, .ok parts)) :
    context.base.docData ≠ [] ∧ delta.index.docData ≠ [] ∧
      mergeIndexes float context.base delta.index turns = some (.ok parts) := by
  unfold IndexContext.merge at ok
  split at ok
  · cases ok
  · rename_i baseReady
    rw [attached] at ok
    dsimp only at ok
    split at ok
    · cases ok
    · rename_i deltaReady
      refine ⟨fun empty => baseReady (.inr empty), fun empty => deltaReady (.inr empty), ?_⟩
      obtain ⟨outcome, ran, same⟩ := Option.map_eq_some_iff.mp ok
      cases outcome with
      | error failure => cases same
      | ok merged =>
          obtain ⟨-, same⟩ := Prod.mk.inj same
          rw [ran, Except.ok.inj same]

/-- What the opened index reports for a document, whichever index it is from. -/
theorem merged_path_iff (attached : context.delta = some delta)
    (ok : context.merge float turns = some (after, .ok parts))
    (baseOf : context.base.RecordsOf float baseStore)
    (deltaOf : delta.index.RecordsOf float deltaStore) {docId : UInt64}
    (document : docId ∈ baseStore.docStats.keys ∨ docId ∈ deltaStore.docStats.keys)
    {merged : LocalIndex} (of : MergedIndex context.base delta.index merged) :
    IndexContext.getDocPath ⟨merged, none⟩ docId = context.getDocPath docId ↔
      context.getDocPath docId = Str.empty ∨
        MergeKeeps context.base delta.index docId (context.getDocPath docId) := by
  obtain ⟨baseRecords, deltaRecords, ran⟩ := merge_eq_ok attached ok
  obtain ⟨table, docData, _, records, _⟩ := mergeIndexes_eq_ok ran
  have within := (mergeDocData_eq_ok records).2.2
  have small : docId.toNat < 2 ^ 59 := by
    rcases document with inBase | inDelta
    · have := baseOf.fit docId inBase
      omega
    · have := deltaOf.fit docId inDelta
      omega
  have before : context.getDocPath docId = (context.base.findPath docId).getD
      ((delta.index.findPath docId).getD Str.empty) := by
    rw [getDocPath_small small, IndexContext.deltaPath, attached]
  have after : IndexContext.getDocPath ⟨merged, none⟩ docId =
      (merged.findPath docId).getD Str.empty := getDocPath_small small
  rw [after]
  by_cases inBase : docId ∈ baseStore.docStats.keys
  · have kept := merged_base_kept baseOf deltaOf baseRecords of within inBase
    cases own : context.base.findPath docId with
    | some path =>
        rw [own, Option.getD_some] at before kept
        rw [before]
        dsimp only at kept
        rw [kept]
        exact or_congr_right ⟨fun holds => ⟨.inl (by rw [own]; exact Option.some_ne_none _),
          holds.1, holds.2⟩, fun keeps => ⟨keeps.rejoins, keeps.interned⟩⟩
    | none =>
        rw [own, Option.getD_none] at before kept
        have lost := kept.mpr (.inl rfl)
        rw [lost]
        constructor
        · exact fun same => .inl same.symm
        · rintro (empty | keeps)
          · exact empty.symm
          · obtain ⟨_, _, _, found, _⟩ := document_slot baseOf baseRecords inBase
            rcases keeps.found with stored | apart
            · exact absurd own stored
            · rw [found] at apart
              cases apart.1
  · have inDelta := document.resolve_left inBase
    have noRecord := baseOf.findRecord_none (baseOf.nonempty baseRecords) inBase
    have noPath : context.base.findPath docId = none := by
      rw [LocalIndex.findPath_eq, noRecord]
      rfl
    rw [noPath, Option.getD_none] at before
    have follows := mergeIndexes_follows ran (by
      have positive := recordCount_pos (deltaOf.nonempty deltaRecords) deltaOf.fit
      rw [deltaOf.count]
      exact UInt64.lt_iff_toNat_lt.mpr positive)
    rw [before]
    by_cases start : context.base.firstDocId = 0
    · have kept := merged_delta_kept baseOf deltaOf baseRecords deltaRecords of within start
        follows inDelta
      dsimp only at kept
      rw [kept]
      exact or_congr_right ⟨fun holds => ⟨.inr ⟨noRecord, start⟩, holds.1, holds.2⟩,
        fun keeps => ⟨keeps.rejoins, keeps.interned⟩⟩
    · rw [merged_delta_lost baseOf deltaOf baseRecords deltaRecords of start follows inBase]
      constructor
      · exact fun same => .inl same.symm
      · rintro (empty | keeps)
        · exact empty.symm
        · rcases keeps.found with stored | apart
          · exact absurd noPath stored
          · exact absurd apart.2 start

/-- A document of either index has the same path in the merged index exactly when the
merged index opens, and the path is empty or is kept by the merge. -/
theorem merge_keeps_path_iff (attached : context.delta = some delta)
    (ok : context.merge float turns = some (after, .ok parts))
    (baseOf : context.base.RecordsOf float baseStore)
    (deltaOf : delta.index.RecordsOf float deltaStore) {docId : UInt64}
    (document : docId ∈ baseStore.docStats.keys ∨ docId ∈ deltaStore.docStats.keys) :
    (∃ merged, openParts parts = .ok merged ∧
        IndexContext.getDocPath ⟨merged, none⟩ docId = context.getDocPath docId) ↔
      SidecarReads (mergedTable context.base delta.index
          (context.base.header.numDocuments.toNat +
            delta.index.header.numDocuments.toNat)).prefixes ∧
        (context.getDocPath docId = Str.empty ∨
          MergeKeeps context.base delta.index docId (context.getDocPath docId)) := by
  obtain ⟨_, _, ran⟩ := merge_eq_ok attached ok
  have opened := openParts_merged ran
  constructor
  · rintro ⟨merged, opens, same⟩
    have of := opened.2 merged opens
    exact ⟨opened.1.mpr ⟨merged, opens⟩,
      (merged_path_iff attached ok baseOf deltaOf document of).mp same⟩
  · rintro ⟨reads, keeps⟩
    obtain ⟨merged, opens⟩ := opened.1.mp reads
    have of := opened.2 merged opens
    exact ⟨merged, opens, (merged_path_iff attached ok baseOf deltaOf document of).mpr keeps⟩

end Merge

/-- The index of a store with one document, which has a path and nothing else. -/
def pathIndex (docId : UInt64) (path : Str) : LocalIndex :=
  let data := buildIndexData default (PostingStore.new.setDocPath docId path) false
  { LocalIndex.new false with
    table := data.memory.table
    leafTermBlockCount := data.memory.leafTermBlocks.length % 2 ^ 32
    header := data.header
    docData := data.docData
    sidecar := data.sidecar
    prefixes := data.prefixes
    built := true
    loadedFromDisk := true }

theorem pathIndex_recordsOf {docId : UInt64} (path : Str) (fits : docId.toNat ≤ 0xFFFFFFFF) :
    (pathIndex docId path).RecordsOf default (PostingStore.new.setDocPath docId path) where
  count := rfl
  docData := rfl
  fit := by
    intro other member
    obtain rfl := List.mem_singleton.mp (show other ∈ [docId] from member)
    exact fits

/-- A base with document 0 and a delta with document 1. -/
def contextOfPaths (basePath deltaPath : Str) : IndexContext where
  base := pathIndex 0 basePath
  delta := some
    { index := pathIndex 1 deltaPath
      built := rfl
      loaded := rfl
      records := (pathIndex_recordsOf deltaPath (by decide)).length
      unbuilt := fun _ => rfl }

/-- Such a merge succeeds when its records can be merged. -/
theorem contextOfPaths_merges {basePath deltaPath : Str}
    (records : (mergeDocData (pathIndex 0 basePath) (pathIndex 1 deltaPath)).toBool = true)
    (follows : (pathIndex 1 deltaPath).firstDocId = 1) :
    ∃ after parts,
      (contextOfPaths basePath deltaPath).merge default 1 = some (after, .ok parts) := by
  have terms : mergeTerms (pathIndex 0 basePath) (pathIndex 1 deltaPath) 1 =
      some (.ok MergeFiles.new) := rfl
  have one : (pathIndex 0 basePath).header.numDocuments = 1 ∧
      (pathIndex 1 deltaPath).header.numDocuments = 1 :=
    ⟨show (0 : UInt64) - 0 + 1 = 1 by decide, show (1 : UInt64) - 1 + 1 = 1 by decide⟩
  have baseLength := (@pathIndex_recordsOf 0 basePath (by decide)).length
  have deltaLength := (@pathIndex_recordsOf 1 deltaPath (by decide)).length
  rw [one.1] at baseLength
  rw [one.2] at deltaLength
  have baseFilled : (pathIndex 0 basePath).docData ≠ [] := by
    intro empty
    rw [empty] at baseLength
    cases baseLength
  have deltaFilled : (pathIndex 1 deltaPath).docData ≠ [] := by
    intro empty
    rw [empty] at deltaLength
    cases deltaLength
  cases made : mergeDocData (pathIndex 0 basePath) (pathIndex 1 deltaPath) with
  | error failure =>
      rw [made] at records
      cases records
  | ok merged =>
      have ran : ∃ parts, mergeIndexes default (pathIndex 0 basePath) (pathIndex 1 deltaPath) 1 =
          some (.ok parts) := by
        rw [mergeIndexes, if_neg (by rw [follows, one.1]; simp), if_neg (by
          rw [one.1, one.2]; decide), made]
        dsimp only
        rw [terms]
        exact ⟨_, rfl⟩
      obtain ⟨parts, ran⟩ := ran
      refine ⟨⟨(pathIndex 0 basePath).resetRuntime, none⟩, parts, ?_⟩
      unfold IndexContext.merge contextOfPaths
      dsimp only
      rw [if_neg (by rintro (unbuilt | empty); exact nomatch unbuilt; exact baseFilled empty),
        if_neg (by rintro (unbuilt | empty); exact nomatch unbuilt; exact deltaFilled empty), ran]
      rfl

/-- Such a merge writes no terms, so the file it writes can be loaded when it opens. -/
theorem contextOfPaths_agrees {basePath deltaPath : Str} {after : IndexContext}
    {parts : FileParts} {merged : LocalIndex}
    (ok : (contextOfPaths basePath deltaPath).merge default 1 = some (after, .ok parts))
    (opens : openParts parts = .ok merged) : ∃ prefixes, parts.Agrees prefixes := by
  have ran := (merge_eq_ok rfl ok).2.2
  have noTerms : mergeTerms (pathIndex 0 basePath) (pathIndex 1 deltaPath) 1 =
      some (.ok MergeFiles.new) := rfl
  obtain ⟨_, _, written, _, terms, _, isMerged⟩ := mergeIndexes_eq_ok ran
  have isNew : written = MergeFiles.new :=
    Except.ok.inj (Option.some.inj (terms.symm.trans noTerms))
  have heads : parts.heads = [] := by rw [isMerged, isNew]; rfl
  have leafs : parts.leafBlocks = [] := by rw [isMerged, isNew]; rfl
  have blocks : parts.indexBlocks = [] := by rw [isMerged, isNew]; rfl
  cases decoded : decodePathPrefixSidecar parts.sidecar with
  | error failure =>
      unfold openParts at opens
      rw [decoded] at opens
      cases opens
  | ok prefixes =>
      refine ⟨prefixes, mergeIndexes_described ran ?_ ?_, decoded, ?_, ?_⟩
      · rw [leafs]
        decide
      · rw [blocks]
        decide
      · rw [heads]
        exact List.forall_mem_nil _
      · rw [leafs]
        exact List.forall_mem_nil _

/-- The path `//a`. -/
def doubledPath : Str := ⟨[0x2F, 0x2F, 0x61], rfl⟩

/-- Two documents with the path `a/b`: the merged index opens with the path of the first, and so
does a load of its file. -/
theorem merge_keeps_path_relative : ∃ after parts merged,
    (contextOfPaths relativePath relativePath).merge default 1 = some (after, .ok parts) ∧
      openParts parts = .ok merged ∧
      IndexContext.getDocPath ⟨merged, none⟩ 0 = relativePath ∧
      ∀ files : FileSystem, files relativePath = some parts.bytes →
        ∃ loaded, (LocalIndex.new false).loadIndex files relativePath = (loaded, .ok ()) ∧
          IndexContext.getDocPath ⟨loaded, none⟩ 0 = relativePath := by
  obtain ⟨after, parts, ok⟩ := @contextOfPaths_merges relativePath relativePath
    (by decide +kernel) (by decide +kernel)
  have path : (contextOfPaths relativePath relativePath).getDocPath 0 = relativePath := by
    decide +kernel
  have reads : SidecarReads (mergedTable (pathIndex 0 relativePath) (pathIndex 1 relativePath)
      ((pathIndex 0 relativePath).header.numDocuments.toNat +
        (pathIndex 1 relativePath).header.numDocuments.toNat)).prefixes := by
    decide +kernel
  have keeps : MergeKeeps (pathIndex 0 relativePath) (pathIndex 1 relativePath) 0
      relativePath := by
    refine ⟨.inl ?_, by decide +kernel, fun _ => ?_⟩
    · decide +kernel
    · unfold DirectoryMerged
      decide +kernel
  have kept := merge_keeps_path_iff rfl ok
    (pathIndex_recordsOf relativePath (by decide)) (pathIndex_recordsOf relativePath (by decide))
    (.inl List.mem_cons_self)
  rw [path] at kept
  obtain ⟨merged, opens, same⟩ := kept.mpr ⟨reads, .inr keeps⟩
  refine ⟨after, parts, merged, ok, opens, same, ?_⟩
  intro files present
  obtain ⟨prefixes, agrees⟩ := contextOfPaths_agrees ok opens
  obtain ⟨opened, openedEq, loaded, loadedEq, paths⟩ :=
    loadIndex_openParts agrees present (show pageSize ≤ (LocalIndex.new false).leafTermCacheBytes
      by decide)
  obtain rfl : merged = opened := Except.ok.inj (opens.symm.trans openedEq)
  refine ⟨loaded, loadedEq, ?_⟩
  rw [getDocPath_small (by decide)] at same ⊢
  rw [show (IndexContext.mk loaded none).base.findPath 0 = merged.findPath 0 from paths 0]
  exact same

/-- The base reports `/a` for `//a`, and the merged index, which opens, reports
something else: the merge took `/a` apart again and lost its root. -/
theorem merge_loses_root_path : ∃ after parts merged,
    (contextOfPaths doubledPath relativePath).merge default 1 = some (after, .ok parts) ∧
      openParts parts = .ok merged ∧
      (contextOfPaths doubledPath relativePath).getDocPath 0 = rootPath ∧
      IndexContext.getDocPath ⟨merged, none⟩ 0 ≠ rootPath := by
  obtain ⟨after, parts, ok⟩ := @contextOfPaths_merges doubledPath relativePath
    (by decide +kernel) (by decide +kernel)
  have opened := openParts_merged (merge_eq_ok rfl ok).2.2
  have reads : SidecarReads (mergedTable (pathIndex 0 doubledPath) (pathIndex 1 relativePath)
      ((pathIndex 0 doubledPath).header.numDocuments.toNat +
        (pathIndex 1 relativePath).header.numDocuments.toNat)).prefixes := by
    decide +kernel
  have path : (contextOfPaths doubledPath relativePath).getDocPath 0 = rootPath := by
    decide +kernel
  obtain ⟨merged, opens⟩ := opened.1.mp reads
  refine ⟨after, parts, merged, ok, opens, path, ?_⟩
  intro same
  have kept := (merged_path_iff rfl ok (pathIndex_recordsOf doubledPath (by decide))
    (pathIndex_recordsOf relativePath (by decide)) (.inl List.mem_cons_self)
    (opened.2 merged opens)).mp (same.trans path.symm)
  rw [path] at kept
  rcases kept with empty | keeps
  · exact absurd empty (by decide)
  · exact absurd keeps.rejoins (by decide)

end MoonShot.Context
