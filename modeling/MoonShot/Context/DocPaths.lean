import MoonShot.Context.State
import MoonShot.Format.Paths

/-!
Document paths through a context (`GetDocPath`).

Owns the path a context reports for a document of its store after `Build`, and the
exact kind of paths that come back.

Does not own paths after a merge.
-/

namespace MoonShot.Context

open MoonShot.Lib
open MoonShot.Postings
open MoonShot.Format

/-- The path of a document is the path in its record. -/
theorem LocalIndex.findPath_eq (index : LocalIndex) (docId : UInt64) :
    index.findPath docId = (index.findRecord docId).bind (recordPath index.prefixes) := by
  unfold findPath
  cases index.findRecord docId <;> rfl

/-- An id without source bits is what `ReaderDocumentIDValue` leaves of it. -/
theorem readerDocumentIdValue_small {docId : UInt64} (small : docId.toNat < 2 ^ 59) :
    IndexContext.readerDocumentIdValue docId = docId := by
  have mask : (0x07FFFFFFFFFFFFFF : UInt64).toNat = 2 ^ 59 - 1 := by decide
  apply UInt64.toNat_inj.mp
  rw [IndexContext.readerDocumentIdValue, UInt64.toNat_and, mask, Nat.and_two_pow_sub_one_eq_mod,
    Nat.mod_eq_of_lt small]

/-- The delta context's path of a document; a context without a delta has none. -/
def IndexContext.deltaPath (context : IndexContext) (docId : UInt64) : Str :=
  match context.delta with
  | some delta => (delta.index.findPath docId).getD Str.empty
  | none => Str.empty

/-! ## Records of a store -/

/-- The index holds the records `BuildIndexData` makes of the store. -/
structure LocalIndex.RecordsOf (float : FloatOps) (store : PostingStore) (index : LocalIndex) :
    Prop where
  count : index.header.numDocuments = storeDocDataRecordCount store
  docData : index.docData = (encodeDocData float store).1
  fit : DocIdsFit store

namespace LocalIndex.RecordsOf

variable {float : FloatOps} {store : PostingStore} {index : LocalIndex}
  (recordsOf : index.RecordsOf float store)

include recordsOf

theorem length : index.docData.length = index.header.numDocuments.toNat * docRecSize := by
  rw [recordsOf.docData, recordsOf.count, encodeDocData_length]

theorem nonempty (records : index.docData ≠ []) : store.docStats.keys ≠ [] := by
  intro empty
  apply records
  apply List.eq_nil_of_length_eq_zero
  rw [recordsOf.docData, encodeDocData_length, storeDocDataRecordCount, empty]
  rfl

theorem firstDocId (nonempty : store.docStats.keys ≠ []) :
    index.firstDocId = storeFirstDocId store := by
  have count := recordCount_pos nonempty recordsOf.fit
  have length := recordsOf.length
  rw [recordsOf.count] at length
  unfold LocalIndex.firstDocId docDataFirstDocId
  rw [if_pos, recordsOf.docData, firstRecord_encodeDocData float nonempty recordsOf.fit]
  rw [recordsOf.count, length]
  exact ⟨UInt64.lt_iff_toNat_lt.mpr count, Nat.le_mul_of_pos_left _ count⟩

theorem findRecord (nonempty : store.docStats.keys ≠ []) (docId : UInt64) :
    index.findRecord docId =
      findDocRecord (encodeDocData float store).1 (storeFirstDocId store) docId := by
  rw [LocalIndex.findRecord, recordsOf.firstDocId nonempty, recordsOf.docData]

/-- The record of a document of the store is in the slot of the document. -/
theorem document (nonempty : store.docStats.keys ≠ []) {docId : UInt64}
    (member : docId ∈ store.docStats.keys) :
    slotOf store docId < index.header.numDocuments.toNat ∧
      ∃ record, slice index.docData (slotOf store docId * docRecSize) docRecSize = record ∧
        index.findRecord docId = some record ∧ (u32At record 0).toUInt64 = docId := by
  obtain ⟨stats, entry, _, stored, of⟩ := record_of_document float nonempty recordsOf.fit member
  rw [recordsOf.count, recordsOf.docData, recordsOf.findRecord nonempty]
  refine ⟨(slotOf_eq nonempty recordsOf.fit member).2, entry, (slot_encodeDocData stored).1,
    findDocRecord_member float nonempty recordsOf.fit member stored, ?_⟩
  exact (congrArg UInt32.toUInt64 of.docId).trans (toUInt64_docId (recordsOf.fit _ member))

/-- A slot that belongs to no document of the store holds the empty record. -/
theorem gap (nonempty : store.docStats.keys ≠ []) {slot : Nat}
    (below : slot < index.header.numDocuments.toNat)
    (free : ∀ docId ∈ store.docStats.keys, slotOf store docId ≠ slot) :
    slice index.docData (slot * docRecSize) docRecSize = gapRecord := by
  rw [recordsOf.count, ← (encodeRecords_sizes float store).1] at below
  rw [recordsOf.docData]
  refine (slot_encodeDocData ((encodes_all nonempty recordsOf.fit).absent slot below ?_)).1
  intro document listed
  exact free document.1 (List.mem_map_of_mem listed)

/-- A document that is not in the store has no record. -/
theorem findRecord_none (nonempty : store.docStats.keys ≠ []) {docId : UInt64}
    (absent : docId ∉ store.docStats.keys) : index.findRecord docId = none := by
  have found := findDocRecord_encoded float nonempty recordsOf.fit docId
  rw [recordsOf.findRecord nonempty]
  cases present : findDocRecord (encodeDocData float store).1 (storeFirstDocId store) docId with
  | none => rfl
  | some entry =>
      rw [present] at found
      obtain ⟨stats, stored, _⟩ := found
      exact absurd ((store.docStats.mem_keys_iff docId).mpr ⟨stats, stored⟩) absent

end LocalIndex.RecordsOf

section Build

variable (float : FloatOps) {context : IndexContext} {docId : UInt64} {stats : DocStats}

/-- An index that was built holds the records of its store and their prefixes. -/
theorem build_recordsOf (unbuilt : context.base.built = false)
    (nonempty : context.base.store.docStats.keys ≠ []) (fit : DocIdsFit context.base.store) :
    (context.build float).base.RecordsOf float context.base.store ∧
      (context.build float).base.prefixes =
        (encodeRecords float context.base.store).table.prefixes := by
  unfold IndexContext.build
  rw [if_neg (by rw [unbuilt]; decide), if_neg nonempty]
  exact ⟨⟨rfl, rfl, fit⟩, rfl⟩

/-- What `GetDocPath` returns for a document of the store after `Build`. -/
theorem getDocPath_build (unbuilt : context.base.built = false)
    (fit : DocIdsFit context.base.store)
    (stored : context.base.store.docStats.get? docId = some stats) :
    (context.build float).getDocPath docId =
      if stats.path = Str.empty then context.deltaPath docId
      else recordedPath
        (directoryId (writerBefore float context.base.store docId).table stats.path)
          stats.path := by
  have member : docId ∈ context.base.store.docStats.keys :=
    (context.base.store.docStats.mem_keys_iff _).mpr ⟨stats, stored⟩
  have nonempty : context.base.store.docStats.keys ≠ [] := List.ne_nil_of_mem member
  have bound := fit docId member
  have built := build_recordsOf float unbuilt nonempty fit
  obtain ⟨entry, slot, path⟩ := recordPath_of_document float fit stored
  have plain : IndexContext.readerDocumentIdValue docId = docId :=
    readerDocumentIdValue_small (by omega)
  have found : (context.build float).base.findPath docId =
      if stats.path = Str.empty then none
      else some (recordedPath
        (directoryId (writerBefore float context.base.store docId).table stats.path)
          stats.path) := by
    rw [LocalIndex.findPath_eq, built.2, built.1.findRecord nonempty,
      findDocRecord_member float nonempty fit member slot, Option.bind_some, path]
  have delta : (context.build float).delta = context.delta := by
    unfold IndexContext.build
    rw [if_neg (by rw [unbuilt]; decide), if_neg nonempty]
  unfold IndexContext.getDocPath
  dsimp only
  rw [plain, found, delta]
  by_cases empty : stats.path = Str.empty
  · rw [if_pos empty, if_pos empty]
    unfold IndexContext.deltaPath
    cases context.delta with
    | none => rfl
    | some attached => rw [plain]
  · rw [if_neg empty, if_neg empty]

/-- A path that is empty is kept by a record. -/
private theorem pathKept_empty : PathKept True Str.empty := by
  refine ⟨fun _ _ => ?_, fun long => ?_⟩
  · intro separator last
    cases last
  · exact absurd long (by decide)

/-- After `Build` a document's path comes back exactly when it is kept by its
record, and for a document without a path when the delta has none for it either. -/
theorem build_returns_path_iff (unbuilt : context.base.built = false)
    (fit : DocIdsFit context.base.store)
    (stored : context.base.store.docStats.get? docId = some stats) :
    PathReturned (DirectoryInterned float context.base.store docId stats.path) stats.path
        ((context.build float).getDocPath docId) ↔
      PathKept (DirectoryInterned float context.base.store docId stats.path) stats.path ∧
        (stats.path = Str.empty → context.deltaPath docId = Str.empty) := by
  rw [getDocPath_build float unbuilt fit stored]
  by_cases empty : stats.path = Str.empty
  · have interned : DirectoryInterned float context.base.store docId stats.path = True :=
      eq_true fun nonempty => absurd empty nonempty
    rw [if_pos empty, interned, empty]
    constructor
    · intro returned
      exact ⟨pathKept_empty, fun _ => returned.whole (by decide) trivial⟩
    · intro kept
      rw [kept.2 rfl]
      exact ⟨fun _ _ => rfl, fun long => absurd long (by decide)⟩
  · have interned : DirectoryInterned float context.base.store docId stats.path =
        (directoryId (writerBefore float context.base.store docId).table stats.path ≠
          docPathPrefixInvalid) :=
      propext ⟨fun given => given empty, fun given _ => given⟩
    rw [if_neg empty, interned, recordedPath_returned_iff]
    exact ⟨fun kept => ⟨kept, fun absent => absurd absent empty⟩, And.left⟩

end Build

/-- A context with one document, which has a path and nothing else. -/
def contextWithPath (path : Str) : IndexContext :=
  ⟨{ LocalIndex.new true with store := PostingStore.new.setDocPath 0 path }, none⟩

theorem contextWithPath_fit (path : Str) : DocIdsFit (contextWithPath path).base.store := by
  intro docId member
  obtain rfl := List.mem_singleton.mp (show docId ∈ [0] from member)
  decide

theorem contextWithPath_stored (path : Str) :
    (contextWithPath path).base.store.docStats.get? 0 = some { path := path } := rfl

/-- The path `a/b`. -/
def relativePath : Str := ⟨[0x61, 0x2F, 0x62], rfl⟩

/-- The path `/a`. -/
def rootPath : Str := ⟨[0x2F, 0x61], rfl⟩

theorem build_returns_path_relative :
    PathKept (DirectoryInterned default (contextWithPath relativePath).base.store 0 relativePath)
        relativePath ∧
      PathReturned
        (DirectoryInterned default (contextWithPath relativePath).base.store 0 relativePath)
        relativePath (((contextWithPath relativePath).build default).getDocPath 0) := by
  have kept : PathKept
      (DirectoryInterned default (contextWithPath relativePath).base.store 0 relativePath)
      relativePath := by
    refine ⟨fun _ _ => ?_, fun long => ?_⟩
    · decide +kernel
    · exact absurd long (by decide)
  refine ⟨kept, ?_⟩
  exact (build_returns_path_iff default rfl (contextWithPath_fit relativePath)
    (contextWithPath_stored relativePath)).mpr ⟨kept, fun empty => absurd empty (by decide)⟩

/-- The directory of `/a` is the empty text, which the join takes for no directory:
the document is reported as `a`. -/
theorem root_path_not_returned :
    ¬ PathReturned
      (DirectoryInterned default (contextWithPath rootPath).base.store 0 rootPath) rootPath
      (((contextWithPath rootPath).build default).getDocPath 0) := by
  have interned : directoryId (writerBefore default (contextWithPath rootPath).base.store 0).table
      rootPath ≠ docPathPrefixInvalid := by decide
  have reported := getDocPath_build default (show (contextWithPath rootPath).base.built = false from
    rfl) (contextWithPath_fit rootPath) (contextWithPath_stored rootPath)
  intro returned
  have whole := returned.whole (by decide) fun _ => interned
  rw [reported, if_neg (by decide), recordedPath, if_neg interned] at whole
  revert whole
  decide

end MoonShot.Context
