import MoonShot.Untrusted.Load

/-!
The average length of a stream (`GetAverageStreamLength`), with every check.

Owns the pass over the records and the averages it leaves. They are positive
whatever the records hold, which is what `Open` asserts on. Floating point is a
parameter with the two properties of it that count.

The cache in front of the pass only holds what a pass has left, and is left out.
-/

namespace MoonShot.Untrusted

open MoonShot.Lib
open MoonShot.Postings
open MoonShot.Format

/-- The floating point operations of the averages. -/
structure LengthFloats where
  /-- `f64` -/
  Wide : Type
  zero : Wide
  /-- `total + length as f64` -/
  add : Wide → UInt32 → Wide
  /-- `(total / count as f64) as f32` -/
  mean : Wide → UInt64 → F32
  one : F32
  /-- `max(1.0)` -/
  maxOne : F32 → F32
  /-- `> 0.0` -/
  positive : F32 → Bool
  one_positive : positive one = true
  maxOne_positive : ∀ value, positive (maxOne value) = true
  /-- The mean of lengths that are at least one. -/
  mean_positive : ∀ lengths : List UInt32, lengths ≠ [] → lengths.length < 2 ^ 64 →
    (∀ length ∈ lengths, 0 < length) →
      positive (mean (lengths.foldl add zero) (UInt64.ofNat lengths.length)) = true

section Averages

variable (floats : LengthFloats)

/-- `totals[index]` and `counts[index]` of a stream. -/
structure StreamTotal where
  total : floats.Wide
  count : UInt64

/-- The turn over the lengths of a record. -/
def addLength (stream : StreamTotal floats) (length : UInt32) : Checked (StreamTotal floats) :=
  if length > 0 then do
    let count ← addU64 stream.count 1
    return ⟨floats.add stream.total length, count⟩
  else .ok stream

/-- `totals` and `counts`, by the streams `T`, `B`, `U`, `A` and `M`. -/
structure StreamTotals where
  title : StreamTotal floats
  body : StreamTotal floats
  url : StreamTotal floats
  anchor : StreamTotal floats
  meta_ : StreamTotal floats

def StreamTotals.zero : StreamTotals floats :=
  ⟨⟨floats.zero, 0⟩, ⟨floats.zero, 0⟩, ⟨floats.zero, 0⟩, ⟨floats.zero, 0⟩, ⟨floats.zero, 0⟩⟩

/-- The lengths of one record. -/
def addRecord (totals : StreamTotals floats) (record : Bytes) : Checked (StreamTotals floats) := do
  let title ← addLength floats totals.title (← readU32 record 26)
  let body ← addLength floats totals.body (← readU32 record 30)
  let url ← addLength floats totals.url (← readU32 record 34)
  let anchor ← addLength floats totals.anchor (← readU32 record 38)
  let meta_ ← addLength floats totals.meta_ (← readU32 record 42)
  return ⟨title, body, url, anchor, meta_⟩

/-- The loop over the records, from a slot on. -/
def addRecords (docData : Bytes) (firstDocId : UInt64) :
    (slots slot : Nat) → StreamTotals floats → Checked (StreamTotals floats)
  | 0, _, totals => .ok totals
  | slots + 1, slot, totals => do
      let offset ← mulUsize slot docRecSize
      let stop ← addUsize offset docRecSize
      if stop > docData.length then return totals
      else
        let record ← readSlice docData offset stop
        let docId ← readU32 record 0
        let index ← addU64 firstDocId (UInt64.ofNat slot)
        if docId.toUInt64 ≠ index then addRecords docData firstDocId slots (slot + 1) totals
        else
          let totals ← addRecord floats totals record
          addRecords docData firstDocId slots (slot + 1) totals

/-- The average of a stream, or the value it starts with. -/
def averageOf (stream : StreamTotal floats) (initial : F32) : F32 :=
  if stream.count > 0 then floats.mean stream.total stream.count else initial

/-- `GetAverageStreamLength` -/
def getAverageStreamLength (docData : Bytes) (header : IndexFileHeader) (stream : UInt8) :
    Checked F32 := do
  let fallback := floats.maxOne header.avgDocLength
  let firstDocId ← docDataFirstDocId docData header
  let totals ← addRecords floats docData firstDocId header.numDocuments.toNat 0 (.zero floats)
  return match stream with
    | 0x54 => averageOf floats totals.title floats.one
    | 0x42 => averageOf floats totals.body fallback
    | 0x55 => averageOf floats totals.url fallback
    | 0x41 => averageOf floats totals.anchor fallback
    | 0x4D => averageOf floats totals.meta_ fallback
    | _ => fallback

end Averages

section Positive

variable {floats : LengthFloats}

/-- The total of a stream is one of positive lengths, at most one for each record. -/
def StreamTotal.Sums (stream : StreamTotal floats) (records : Nat) : Prop :=
  ∃ lengths : List UInt32, (∀ length ∈ lengths, 0 < length) ∧ lengths.length ≤ records ∧
    stream.count = UInt64.ofNat lengths.length ∧ stream.total = lengths.foldl floats.add floats.zero

/-- All streams are totals of positive lengths. -/
structure StreamTotals.Sums (totals : StreamTotals floats) (records : Nat) : Prop where
  title : totals.title.Sums records
  body : totals.body.Sums records
  url : totals.url.Sums records
  anchor : totals.anchor.Sums records
  meta_ : totals.meta_.Sums records

theorem StreamTotal.sums_zero (records : Nat) :
    StreamTotal.Sums (⟨floats.zero, 0⟩ : StreamTotal floats) records :=
  ⟨[], fun _ member => absurd member List.not_mem_nil, Nat.zero_le _, rfl, rfl⟩

theorem StreamTotals.sums_zero (records : Nat) : (StreamTotals.zero floats).Sums records :=
  ⟨StreamTotal.sums_zero _, StreamTotal.sums_zero _, StreamTotal.sums_zero _,
    StreamTotal.sums_zero _, StreamTotal.sums_zero _⟩

theorem StreamTotal.Sums.mono {stream : StreamTotal floats} {records : Nat}
    (sums : stream.Sums records) : stream.Sums (records + 1) := by
  obtain ⟨lengths, positive, few, rest⟩ := sums
  exact ⟨lengths, positive, by omega, rest⟩

theorem StreamTotals.Sums.mono {totals : StreamTotals floats} {records : Nat}
    (sums : totals.Sums records) : totals.Sums (records + 1) :=
  ⟨sums.title.mono, sums.body.mono, sums.url.mono, sums.anchor.mono, sums.meta_.mono⟩

theorem addLength_sums {stream : StreamTotal floats} {records : Nat} (sums : stream.Sums records)
    (range : records + 1 < 2 ^ 64) (length : UInt32) :
    ∃ after, addLength floats stream length = .ok after ∧ after.Sums (records + 1) := by
  unfold addLength
  by_cases some_ : length > 0
  · obtain ⟨lengths, positive, few, count, total⟩ := sums
    have one : (1 : UInt64).toNat = 1 := rfl
    have counted : stream.count.toNat = lengths.length := by
      rw [count, UInt64.toNat_ofNat', Nat.mod_eq_of_lt (by omega)]
    rw [if_pos some_, addU64_eq (by rw [counted, one]; omega), ok_bind]
    refine ⟨_, rfl, lengths ++ [length], ?_, ?_, ?_, ?_⟩
    · intro other member
      rcases List.mem_append.mp member with old | new
      · exact positive other old
      · rw [List.mem_singleton.mp new]
        exact some_
    · rw [List.length_append, List.length_singleton]
      omega
    · show stream.count + 1 = _
      rw [count, List.length_append, List.length_singleton, UInt64.ofNat_add]
      rfl
    · show floats.add stream.total length = _
      rw [total, List.foldl_append]
      rfl
  · rw [if_neg some_]
    exact ⟨stream, rfl, sums.mono⟩

theorem addRecord_sums {totals : StreamTotals floats} {records : Nat} (sums : totals.Sums records)
    (range : records + 1 < 2 ^ 64) {record : Bytes} (size : record.length = docRecSize) :
    ∃ after, addRecord floats totals record = .ok after ∧ after.Sums (records + 1) := by
  have bytes : docRecSize = 256 := rfl
  have word : ∀ offset, offset + 4 ≤ 256 → readU32 record offset = .ok (u32At record offset) :=
    fun offset inside => readU32_eq (by omega) (by omega)
  obtain ⟨title, titleRan, titleSums⟩ := addLength_sums sums.title range (u32At record 26)
  obtain ⟨body, bodyRan, bodySums⟩ := addLength_sums sums.body range (u32At record 30)
  obtain ⟨url, urlRan, urlSums⟩ := addLength_sums sums.url range (u32At record 34)
  obtain ⟨anchor, anchorRan, anchorSums⟩ := addLength_sums sums.anchor range (u32At record 38)
  obtain ⟨meta_, metaRan, metaSums⟩ := addLength_sums sums.meta_ range (u32At record 42)
  refine ⟨⟨title, body, url, anchor, meta_⟩, ?_,
    ⟨titleSums, bodySums, urlSums, anchorSums, metaSums⟩⟩
  unfold addRecord
  rw [word 26 (by decide), ok_bind, titleRan, ok_bind, word 30 (by decide), ok_bind, bodyRan,
    ok_bind, word 34 (by decide), ok_bind, urlRan, ok_bind, word 38 (by decide), ok_bind,
    anchorRan, ok_bind, word 42 (by decide), ok_bind, metaRan]
  rfl

theorem addRecords_sums (docData : Bytes) {firstDocId : UInt64} (small : firstDocId.toNat < 2 ^ 32)
    {slots slot : Nat} (range : (slot + slots) * docRecSize < 2 ^ 64)
    {totals : StreamTotals floats} (sums : totals.Sums slot) :
    ∃ after, addRecords floats docData firstDocId slots slot totals = .ok after ∧
      after.Sums (slot + slots) := by
  have bytes : docRecSize = 256 := rfl
  induction slots generalizing slot totals with
  | zero => exact ⟨totals, rfl, sums⟩
  | succ slots inductionHypothesis =>
      have next : slot + (slots + 1) = slot + 1 + slots := by omega
      have ends : slot * docRecSize + docRecSize ≤ (slot + (slots + 1)) * docRecSize :=
        turn_bound docRecSize (by omega)
      have few : slot < 2 ^ 56 := by
        rw [bytes] at ends range
        omega
      rw [next] at range ends ⊢
      rw [addRecords, mulUsize_eq (by omega), ok_bind, addUsize_eq (by omega), ok_bind]
      by_cases cut : slot * docRecSize + docRecSize > docData.length
      · rw [if_pos cut]
        have all : ∀ extra, totals.Sums (slot + extra) := by
          intro extra
          induction extra with
          | zero => exact sums
          | succ extra more => exact more.mono
        refine ⟨totals, rfl, ?_⟩
        rw [← next]
        exact all _
      · have slotNat : (UInt64.ofNat slot).toNat = slot := Context.toNat_ofNat_of_lt slot (by omega)
        have size : (slice docData (slot * docRecSize) docRecSize).length = docRecSize :=
          slice_length_of_le (by omega)
        rw [if_neg cut, readSlice_add (by omega), ok_bind, readU32_eq (by omega) (by decide),
          ok_bind, addU64_eq (by rw [slotNat]; omega), ok_bind]
        split
        · exact inductionHypothesis range sums.mono
        · obtain ⟨after, ran, added⟩ := addRecord_sums sums (by omega) size
          rw [ran, ok_bind]
          exact inductionHypothesis range added

theorem averageOf_positive {stream : StreamTotal floats} {records : Nat} (sums : stream.Sums records)
    (range : records < 2 ^ 64) {initial : F32} (positive : floats.positive initial = true) :
    floats.positive (averageOf floats stream initial) = true := by
  obtain ⟨lengths, all, few, count, total⟩ := sums
  unfold averageOf
  split
  · rename_i some_
    rw [count, total]
    refine floats.mean_positive lengths ?_ (by omega) all
    rintro rfl
    rw [count] at some_
    exact absurd some_ (by decide)
  · exact positive

/-- Every stream has a positive average. -/
theorem getAverageStreamLength_positive (docData : Bytes) {header : IndexFileHeader}
    (range : header.numDocuments.toNat * docRecSize < 2 ^ 64) (stream : UInt8) :
    ∃ average, getAverageStreamLength floats docData header stream = .ok average ∧
      floats.positive average = true := by
  have bytes : docRecSize = 256 := rfl
  have fallback := floats.maxOne_positive header.avgDocLength
  have small : (Format.docDataFirstDocId docData header).toNat < 2 ^ 32 := docDataFirstDocId_lt _ _
  have zero : (StreamTotals.zero floats).Sums 0 := StreamTotals.sums_zero 0
  rw [← Nat.zero_add header.numDocuments.toNat] at range
  obtain ⟨totals, ran, sums⟩ := addRecords_sums docData small range zero
  have few : 0 + header.numDocuments.toNat < 2 ^ 64 := by
    rw [Nat.zero_add]
    exact header.numDocuments.toNat_lt
  unfold getAverageStreamLength
  dsimp only
  rw [docDataFirstDocId_eq, ok_bind, ran, ok_bind]
  refine ⟨_, rfl, ?_⟩
  split
  · exact averageOf_positive sums.title few floats.one_positive
  · exact averageOf_positive sums.body few fallback
  · exact averageOf_positive sums.url few fallback
  · exact averageOf_positive sums.anchor few fallback
  · exact averageOf_positive sums.meta_ few fallback
  · exact fallback

end Positive

end MoonShot.Untrusted
