import MoonShot.Lib.Machine
import MoonShot.Postings.Runs

/-!
The statistics a posting store keeps beside its lists.

Owns the calls that load a record (`SetDocLengths`, `SetDocVectorBytes`), the
calls of a writer as one type, and the invariant that ties posting lists,
vectors, document records and the term total together in every store that a
run of these calls reaches.
-/

namespace MoonShot.Postings

open MoonShot.Lib

/-- The recorded length of one stream. -/
def DocStats.streamLen (stats : DocStats) : PostingStore.Stream → UInt32
  | .title => stats.titleLen
  | .body => stats.bodyLen
  | .url => stats.urlLen
  | .anchor => stats.anchorLen
  | .metadata => stats.metaLen

/-- The five stream lengths together. -/
def DocStats.streamTotal (stats : DocStats) : Nat :=
  stats.titleLen.toNat + stats.bodyLen.toNat + stats.urlLen.toNat + stats.anchorLen.toNat +
    stats.metaLen.toNat

namespace PostingStore

/-- `saturating_sub` -/
def saturatingSub (left right : UInt64) : UInt64 := if right ≤ left then left - right else 0

theorem saturatingSub_toNat (left right : UInt64) :
    (saturatingSub left right).toNat = left.toNat - right.toNat := by
  unfold saturatingSub
  split
  · rename_i below
    exact UInt64.toNat_sub_of_le _ _ below
  · rename_i above
    rw [UInt64.le_iff_toNat_le] at above
    rw [Nat.sub_eq_zero_of_le (by omega)]
    rfl

/-- The record of a document, or the record `or_default` makes. -/
def statsOf (store : PostingStore) (docId : UInt64) : DocStats :=
  (store.docStats.get? docId).getD {}

/-- `SetDocLengths` -/
def setDocLengths (store : PostingStore) (docId : UInt64)
    (titleLen bodyLen urlLen anchorLen metaLen : UInt32) : PostingStore :=
  let docLen := titleLen + bodyLen + urlLen + anchorLen + metaLen
  { store with
    docStats := store.docStats.upsert docId {} fun stats =>
      { stats with
        titleLen := titleLen
        bodyLen := bodyLen
        urlLen := urlLen
        anchorLen := anchorLen
        metaLen := metaLen
        docLen := docLen
        uniqueTerms := docLen }
    totalTerms :=
      saturatingSub store.totalTerms (store.statsOf docId).docLen.toUInt64 + docLen.toUInt64 }

/-- `SetDocVectorBytes`: bytes behind the fixed dimension are ignored. -/
def setDocVectorBytes (store : PostingStore) (docId : UInt64) (vector : Bytes) : PostingStore :=
  if size : vector.length < docVectorDim then store
  else
    { store with
      docStats := store.docStats.upsert docId {} id
      docVectors := store.docVectors.insert docId
        ⟨vector.take docVectorDim, by rw [List.length_take]; omega⟩ }

/-! ## Calls -/

/-- The calls of a writer. -/
inductive StoreCall where
  | write (words : List Str) (docId : UInt64) (postingType : Str)
  | setDocImportance (docId : UInt64) (score : F32)
  | setDocVector (docId : UInt64) (vector : List F32)
  | setDocPath (docId : UInt64) (path : Str)
  | setDocLengths (docId : UInt64) (titleLen bodyLen urlLen anchorLen metaLen : UInt32)

/-- The store after a call. -/
def StoreCall.apply (float : FloatOps) (store : PostingStore) : StoreCall → PostingStore
  | .write words docId postingType => store.write words docId postingType
  | .setDocImportance docId score => store.setDocImportance docId score
  | .setDocVector docId vector => store.setDocVector float docId vector
  | .setDocPath docId path => store.setDocPath docId path
  | .setDocLengths docId titleLen bodyLen urlLen anchorLen metaLen =>
      store.setDocLengths docId titleLen bodyLen urlLen anchorLen metaLen

/-- No `u32` counter leaves its range in the call. -/
def CountersFit (store : PostingStore) : StoreCall → Prop
  | .write words docId postingType =>
      (store.statsOf docId).docLen.toNat + words.length < 2 ^ 32 ∧
      (store.statsOf docId).uniqueTerms.toNat + (unigramCounts words).entries.length < 2 ^ 32 ∧
      ((store.statsOf docId).streamLen (streamAbbrev postingType)).toNat + words.length < 2 ^ 32
  | .setDocLengths _ titleLen bodyLen urlLen anchorLen metaLen =>
      titleLen.toNat + bodyLen.toNat + urlLen.toNat + anchorLen.toNat + metaLen.toNat < 2 ^ 32
  | .setDocImportance .. | .setDocVector .. | .setDocPath .. => True

/-- The `u64` term total stays in its range. -/
def TotalFits (store : PostingStore) : StoreCall → Prop
  | .write words _ _ => store.totalTerms.toNat + words.length < 2 ^ 64
  | .setDocLengths docId titleLen bodyLen urlLen anchorLen metaLen =>
      store.totalTerms.toNat - (store.statsOf docId).docLen.toNat +
        (titleLen.toNat + bodyLen.toNat + urlLen.toNat + anchorLen.toNat + metaLen.toNat) < 2 ^ 64
  | .setDocImportance .. | .setDocVector .. | .setDocPath .. => True

instance (store : PostingStore) : (call : StoreCall) → Decidable (CountersFit store call)
  | .write .. => inferInstanceAs (Decidable (_ ∧ _ ∧ _))
  | .setDocLengths .. => inferInstanceAs (Decidable (_ < _))
  | .setDocImportance .. | .setDocVector .. | .setDocPath .. => inferInstanceAs (Decidable True)

instance (store : PostingStore) : (call : StoreCall) → Decidable (TotalFits store call)
  | .write .. => inferInstanceAs (Decidable (_ < _))
  | .setDocLengths .. => inferInstanceAs (Decidable (_ < _))
  | .setDocImportance .. | .setDocVector .. | .setDocPath .. => inferInstanceAs (Decidable True)

/-- The documents of lists and vectors have records, and the records add up. -/
structure Consistent (store : PostingStore) : Prop where
  posted : ∀ key list, store.getPostingList key = some list →
    ∀ entry ∈ list.entries, store.HasDoc entry.docId
  vectors : ∀ docId ∈ store.docVectors.keys, store.HasDoc docId
  lengths : ∀ docId stats, store.docStats.get? docId = some stats →
    stats.docLen.toNat = stats.streamTotal
  unique : ∀ docId stats, store.docStats.get? docId = some stats →
    stats.uniqueTerms ≤ stats.docLen
  total : store.totalTerms.toNat = store.docStats.total fun stats => stats.docLen.toNat

theorem consistent_new : Consistent new :=
  ⟨by simp [getPostingList, new], by simp [new], by simp [new], by simp [new], rfl⟩

theorem Consistent.statsOf_lengths {store : PostingStore} (consistent : Consistent store)
    (docId : UInt64) : (store.statsOf docId).docLen.toNat = (store.statsOf docId).streamTotal := by
  unfold statsOf
  cases found : store.docStats.get? docId with
  | none => rfl
  | some stats => exact consistent.lengths docId stats found

theorem Consistent.statsOf_unique {store : PostingStore} (consistent : Consistent store)
    (docId : UInt64) : (store.statsOf docId).uniqueTerms ≤ (store.statsOf docId).docLen := by
  unfold statsOf
  cases found : store.docStats.get? docId with
  | none => exact UInt32.le_refl 0
  | some stats => exact consistent.unique docId stats found

/-- A call that changes the record of one document, and posts for no other. -/
theorem Consistent.change {store after : PostingStore} (consistent : Consistent store)
    {docId : UInt64} {change : DocStats → DocStats}
    (records : after.docStats = store.docStats.upsert docId {} change)
    (posted : ∀ key other tf, after.tf? key other = some tf →
      other = docId ∨ store.tf? key other = some tf)
    (vectors : ∀ other ∈ after.docVectors.keys, other = docId ∨ other ∈ store.docVectors.keys)
    (lengths : (change (store.statsOf docId)).docLen.toNat =
      (change (store.statsOf docId)).streamTotal)
    (unique : (change (store.statsOf docId)).uniqueTerms ≤ (change (store.statsOf docId)).docLen)
    (total : after.totalTerms.toNat + (store.statsOf docId).docLen.toNat =
      store.totalTerms.toNat + (change (store.statsOf docId)).docLen.toNat) :
    Consistent after := by
  have hasDoc : ∀ other, other = docId ∨ store.HasDoc other → after.HasDoc other := by
    intro other known
    unfold HasDoc
    rw [records]
    exact (AssocMap.mem_keys_upsert _ _ _ _ _).mpr known
  have record : ∀ {other stats}, after.docStats.get? other = some stats →
      (other = docId ∧ stats = change (store.statsOf docId)) ∨
        store.docStats.get? other = some stats := by
    intro other stats found
    rw [records, AssocMap.get?_upsert] at found
    split at found
    · rename_i same
      exact Or.inl ⟨same, (Option.some.inj found).symm⟩
    · exact Or.inr found
  refine ⟨?_, ?_, ?_, ?_, ?_⟩
  · intro key list found entry member
    apply hasDoc
    rcases posted key entry.docId entry.termFrequency (tf?_eq_some.mpr ⟨list, found, member⟩)
      with same | earlier
    · exact Or.inl same
    · obtain ⟨old, oldFound, oldMember⟩ := tf?_eq_some.mp earlier
      exact Or.inr (consistent.posted key old oldFound _ oldMember)
  · intro other member
    exact hasDoc other ((vectors other member).imp_right (consistent.vectors other))
  · intro other stats found
    rcases record found with ⟨_, rfl⟩ | earlier
    · exact lengths
    · exact consistent.lengths other stats earlier
  · intro other stats found
    rcases record found with ⟨_, rfl⟩ | earlier
    · exact unique
    · exact consistent.unique other stats earlier
  · have moved := AssocMap.total_upsert (fun stats : DocStats => stats.docLen.toNat)
      store.docStats docId {} rfl change
    rw [← records] at moved
    change _ + (store.statsOf docId).docLen.toNat =
      _ + (change (store.statsOf docId)).docLen.toNat at moved
    have before := consistent.total
    omega

/-! ## One call -/

/-- The record of a document after one more token list. -/
def DocStats.extended (stats : DocStats) (stream : Stream) (count unique : UInt32) : DocStats :=
  let stats := { stats with docLen := stats.docLen + count }
  let stats := { stats with uniqueTerms := stats.uniqueTerms + unique }
  match stream with
  | .title => { stats with titleLen := stats.titleLen + count }
  | .body => { stats with bodyLen := stats.bodyLen + count }
  | .url => { stats with urlLen := stats.urlLen + count }
  | .anchor => { stats with anchorLen := stats.anchorLen + count }
  | .metadata => { stats with metaLen := stats.metaLen + count }

/-- What `Write` does beside posting the terms. -/
theorem write_records (store : PostingStore) {words : List Str} (nonempty : words ≠ [])
    (docId : UInt64) (postingType : Str) :
    (store.write words docId postingType).docStats =
        store.docStats.upsert docId {} (fun stats =>
          DocStats.extended stats (streamAbbrev postingType) (UInt32.ofNat words.length)
            (UInt32.ofNat (unigramCounts words).entries.length)) ∧
      (store.write words docId postingType).docVectors = store.docVectors ∧
      (store.write words docId postingType).totalTerms =
        store.totalTerms + (UInt32.ofNat words.length).toUInt64 := by
  have frame := foldl_addPosting_frame (bigramCounts (unigramCounts words) words).entries store
    (streamAbbrev postingType) docId
  unfold write
  rw [if_neg nonempty]
  refine ⟨?_, frame.2.1, congrArg (· + _) frame.2.2⟩
  show (AssocMap.upsert _ _ _ _).upsert _ _ _ = _
  rw [AssocMap.upsert_upsert, frame.1]
  rfl

theorem DocStats.extended_consistent {stats : DocStats} {stream : Stream} {count unique : Nat}
    (lengths : stats.docLen.toNat = stats.streamTotal) (below : stats.uniqueTerms ≤ stats.docLen)
    (fewer : unique ≤ count) (docFits : stats.docLen.toNat + count < 2 ^ 32)
    (uniqueFits : stats.uniqueTerms.toNat + unique < 2 ^ 32)
    (streamFits : (stats.streamLen stream).toNat + count < 2 ^ 32) :
    let after := DocStats.extended stats stream (UInt32.ofNat count) (UInt32.ofNat unique)
    after.docLen.toNat = stats.docLen.toNat + count ∧
      after.docLen.toNat = after.streamTotal ∧ after.uniqueTerms ≤ after.docLen := by
  have add : ∀ {value : UInt32} {more : Nat}, value.toNat + more < 2 ^ 32 →
      (value + UInt32.ofNat more).toNat = value.toNat + more := by
    intro value more fits
    rw [UInt32.toNat_add, UInt32.toNat_ofNat', Nat.mod_eq_of_lt (a := more) (by omega),
      Nat.mod_eq_of_lt fits]
  have docLen : ∀ stream, (DocStats.extended stats stream (UInt32.ofNat count)
      (UInt32.ofNat unique)).docLen = stats.docLen + UInt32.ofNat count := by
    intro stream
    cases stream <;> rfl
  have uniqueTerms : ∀ stream, (DocStats.extended stats stream (UInt32.ofNat count)
      (UInt32.ofNat unique)).uniqueTerms = stats.uniqueTerms + UInt32.ofNat unique := by
    intro stream
    cases stream <;> rfl
  dsimp only
  rw [docLen, uniqueTerms, add docFits, UInt32.le_iff_toNat_le, add uniqueFits, add docFits]
  rw [UInt32.le_iff_toNat_le] at below
  refine ⟨rfl, ?_, by omega⟩
  unfold DocStats.streamTotal at lengths
  cases stream <;>
    simp only [DocStats.extended, DocStats.streamTotal, DocStats.streamLen] at streamFits ⊢ <;>
    rw [add streamFits] <;> omega

theorem Consistent.write {store : PostingStore} (consistent : Consistent store) {words : List Str}
    {docId : UInt64} {postingType : Str}
    (counters : CountersFit store (.write words docId postingType))
    (total : TotalFits store (.write words docId postingType)) :
    Consistent (store.write words docId postingType) := by
  by_cases empty : words = []
  · unfold PostingStore.write
    rw [if_pos empty]
    exact consistent
  · obtain ⟨docFits, uniqueFits, streamFits⟩ := counters
    obtain ⟨records, vectors, terms⟩ := write_records store empty docId postingType
    obtain ⟨grown, lengths, unique⟩ := DocStats.extended_consistent
      (consistent.statsOf_lengths docId) (consistent.statsOf_unique docId)
      (unigramCounts_length_le words) docFits uniqueFits streamFits
    refine consistent.change records ?_ ?_ lengths unique ?_
    · intro key other tf found
      unfold PostingStore.write at found
      rw [if_neg empty] at found
      exact foldl_addPosting_tf? found
    · intro other member
      rw [vectors] at member
      exact Or.inr member
    · have narrow : (UInt32.ofNat words.length).toUInt64.toNat = words.length := by
        rw [UInt32.toNat_toUInt64, UInt32.toNat_ofNat', Nat.mod_eq_of_lt (by omega)]
      have totalFits : store.totalTerms.toNat + words.length < 2 ^ 64 := total
      rw [terms, UInt64.toNat_add, narrow, Nat.mod_eq_of_lt totalFits, grown]
      omega

/-- A call that sets neither a length nor a count. -/
theorem Consistent.touch {store after : PostingStore} (consistent : Consistent store)
    {docId : UInt64} {change : DocStats → DocStats}
    (records : after.docStats = store.docStats.upsert docId {} change)
    (kept : ∀ stats, (change stats).docLen = stats.docLen ∧
      (change stats).uniqueTerms = stats.uniqueTerms ∧
      (change stats).streamTotal = stats.streamTotal)
    (postings : after.postings = store.postings)
    (vectors : ∀ other ∈ after.docVectors.keys, other = docId ∨ other ∈ store.docVectors.keys)
    (terms : after.totalTerms = store.totalTerms) : Consistent after := by
  obtain ⟨docLen, uniqueTerms, streamTotal⟩ := kept (store.statsOf docId)
  refine consistent.change records ?_ vectors ?_ ?_ ?_
  · intro key other tf found
    unfold PostingStore.tf? getPostingList at found ⊢
    rw [postings] at found
    exact Or.inr found
  · rw [docLen, streamTotal]
    exact consistent.statsOf_lengths docId
  · rw [docLen, uniqueTerms]
    exact consistent.statsOf_unique docId
  · rw [docLen, terms]

theorem Consistent.setDocVector {store : PostingStore} (consistent : Consistent store)
    (float : FloatOps) (docId : UInt64) (vector : List F32) :
    Consistent (store.setDocVector float docId vector) := by
  unfold PostingStore.setDocVector
  split
  · have records : _ = store.docStats.upsert docId {} id := rfl
    refine consistent.touch records (fun _ => ⟨rfl, rfl, rfl⟩) rfl ?_ rfl
    intro other member
    exact (AssocMap.mem_keys_upsert _ _ _ _ _).mp member
  · exact consistent

/-- The old total of the document leaves the sum before the new one enters. -/
theorem Consistent.setDocLengths {store : PostingStore} (consistent : Consistent store)
    {docId : UInt64} {titleLen bodyLen urlLen anchorLen metaLen : UInt32}
    (counters : CountersFit store (.setDocLengths docId titleLen bodyLen urlLen anchorLen metaLen))
    (total : TotalFits store (.setDocLengths docId titleLen bodyLen urlLen anchorLen metaLen)) :
    Consistent (store.setDocLengths docId titleLen bodyLen urlLen anchorLen metaLen) := by
  change _ + _ + _ + _ + _ < _ at counters
  change _ - _ + (_ + _ + _ + _ + _) < _ at total
  have docLen : (titleLen + bodyLen + urlLen + anchorLen + metaLen).toNat =
      titleLen.toNat + bodyLen.toNat + urlLen.toNat + anchorLen.toNat + metaLen.toNat := by
    simp only [UInt32.toNat_add]
    omega
  refine consistent.change (show _ = store.docStats.upsert docId {} _ from rfl)
    (fun _ _ _ found => Or.inr found)
    (fun _ member => Or.inr member) docLen (UInt32.le_refl _) ?_
  have inside : (store.statsOf docId).docLen.toNat ≤ store.totalTerms.toNat := by
    rw [consistent.total]
    unfold statsOf
    cases found : store.docStats.get? docId with
    | none => exact Nat.zero_le _
    | some stats =>
        exact store.docStats.weight_le_total (fun stats => stats.docLen.toNat) found
  show (saturatingSub _ _ + _).toNat + _ = _ + (titleLen + bodyLen + urlLen + anchorLen +
    metaLen).toNat
  rw [UInt64.toNat_add, saturatingSub_toNat, UInt32.toNat_toUInt64, UInt32.toNat_toUInt64, docLen,
    Nat.mod_eq_of_lt total]
  omega

theorem Consistent.apply (float : FloatOps) {store : PostingStore} (consistent : Consistent store)
    {call : StoreCall} (counters : CountersFit store call) (total : TotalFits store call) :
    Consistent (call.apply float store) := by
  cases call with
  | write words docId postingType => exact consistent.write counters total
  | setDocImportance docId score =>
      exact consistent.touch rfl (fun _ => ⟨rfl, rfl, rfl⟩) rfl (fun _ member => Or.inr member) rfl
  | setDocVector docId vector => exact consistent.setDocVector float docId vector
  | setDocPath docId path =>
      exact consistent.touch rfl (fun _ => ⟨rfl, rfl, rfl⟩) rfl (fun _ member => Or.inr member) rfl
  | setDocLengths docId titleLen bodyLen urlLen anchorLen metaLen =>
      exact consistent.setDocLengths counters total

/-! ## Runs -/

/-- Runs of calls on a fresh store, each admitted by the guard. -/
abbrev StoreRun (float : FloatOps) (guard : PostingStore → StoreCall → Prop)
    (calls : List StoreCall) (store : PostingStore) : Prop :=
  GuardedRun (fun store call => some (StoreCall.apply float store call)) guard new calls store

/-- Every store that a run reaches without leaving the range of a counter is
consistent. -/
theorem storeRun_consistent (float : FloatOps) {calls : List StoreCall} {store : PostingStore}
    (run : StoreRun float (fun store call => CountersFit store call ∧ TotalFits store call)
      calls store) : Consistent store := by
  refine run.invariant ?_ consistent_new
  rintro before call after consistent ⟨counters, total⟩ taken
  rw [← Option.some.inj taken]
  exact consistent.apply float counters total

/-- One record for each of the first documents, each with a full title. -/
def fullTitles (count : Nat) : List StoreCall :=
  (List.range count).map fun docId => .setDocLengths (UInt64.ofNat docId) 0xFFFFFFFF 0 0 0 0

/-- The total is kept modulo `2^64`, the records in full. -/
theorem fullTitles_run (float : FloatOps) (count : Nat) (fits : count < 2 ^ 64) :
    ∃ store, StoreRun float CountersFit (fullTitles count) store ∧
      (∀ docId ∈ store.docStats.keys, docId.toNat < count) ∧
      (store.docStats.total fun stats => stats.docLen.toNat) = count * (2 ^ 32 - 1) ∧
      store.totalTerms = UInt64.ofNat (count * (2 ^ 32 - 1)) := by
  induction count with
  | zero => exact ⟨new, .nil _, by simp [new], by simp [new], rfl⟩
  | succ count inductionHypothesis =>
      obtain ⟨store, run, keys, records, total⟩ := inductionHypothesis (by omega)
      have full : (0xFFFFFFFF : UInt32).toNat = 2 ^ 32 - 1 := by decide
      have docIdValue : (UInt64.ofNat count).toNat = count := by
        rw [UInt64.toNat_ofNat', Nat.mod_eq_of_lt (by omega)]
      have fresh : store.docStats.get? (UInt64.ofNat count) = none := by
        rw [AssocMap.get?_eq_none_iff]
        intro member
        have below := keys _ member
        omega
      have stats : store.statsOf (UInt64.ofNat count) = {} := by
        unfold statsOf
        rw [fresh]
        rfl
      refine ⟨store.setDocLengths (UInt64.ofNat count) 0xFFFFFFFF 0 0 0 0, ?_, ?_, ?_, ?_⟩
      · unfold fullTitles
        rw [List.range_succ, List.map_append]
        exact run.append (.cons (by decide : (_ : Nat) < _) rfl (.nil _))
      · intro docId member
        rcases (AssocMap.mem_keys_upsert _ _ _ _ _).mp member with rfl | old
        · omega
        · have below := keys docId old
          omega
      · have moved := AssocMap.total_upsert (fun stats : DocStats => stats.docLen.toNat)
          store.docStats (UInt64.ofNat count) {} rfl fun stats =>
            { stats with
              titleLen := 0xFFFFFFFF
              bodyLen := 0
              urlLen := 0
              anchorLen := 0
              metaLen := 0
              docLen := 0xFFFFFFFF
              uniqueTerms := 0xFFFFFFFF }
        rw [fresh, records, Option.getD_none] at moved
        dsimp only at moved
        rw [UInt32.toNat_zero, Nat.add_zero, full] at moved
        rw [Nat.succ_mul]
        exact moved
      · show saturatingSub store.totalTerms (store.statsOf (UInt64.ofNat count)).docLen.toUInt64 +
          (0xFFFFFFFF : UInt32).toUInt64 = _
        have unchanged : saturatingSub store.totalTerms (UInt32.toUInt64 0) = store.totalTerms :=
          UInt64.toNat_inj.mp (saturatingSub_toNat _ _)
        rw [stats, Nat.succ_mul, UInt64.ofNat_add, ← total, unchanged]
        rfl

/-- `2^32 + 2` full records overflow the term total, but no `u32` counter. -/
theorem storeRun_total_overflow :
    ∃ store, StoreRun default CountersFit (fullTitles (2 ^ 32 + 2)) store ∧
      store.totalTerms.toNat ≠ store.docStats.total fun stats => stats.docLen.toNat := by
  obtain ⟨store, run, _, records, total⟩ :=
    fullTitles_run default (2 ^ 32 + 2) (by norm_num)
  refine ⟨store, run, ?_⟩
  rw [records]
  have below := store.totalTerms.toNat_lt
  omega

/-- A write and the lengths that replace its record keep the store consistent. -/
theorem storeRun_consistent_replaced :
    Consistent (((new.write [bigramSep, bigramSep] 1 Str.empty).setDocLengths 1 3 0 0 0 0)) :=
  @storeRun_consistent default
    [.write [bigramSep, bigramSep] 1 Str.empty, .setDocLengths 1 3 0 0 0 0] _
    (.cons (by decide) rfl (.cons (by decide) rfl (.nil _)))

end PostingStore

end MoonShot.Postings
