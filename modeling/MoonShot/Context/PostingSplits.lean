import Mathlib.Algebra.Group.Even
import Mathlib.Order.Bounds.Basic
import MoonShot.Context.Merge
import MoonShot.Postings.Store

/-!
The two splitters of encoded postings: the serializer's `PostingPrefixBytes` and
`MaxDocIDInPairs` against the merge's `PostingSplitLength` and `MaxDocIDInPairs`.

Owns the boundaries between postings, the positions where the merge sees a pair end,
and the exact lists and capacities on which the two cut at one position. The merge
reads the frequency byte as a number, so a frequency of 128 or more takes the next
document id with it.

Does not own either splitter.
-/

namespace MoonShot.Context

open MoonShot.Lib
open MoonShot.Postings

/-! ## What the splitters are to return -/

/-- A position between two postings of an encoded list. -/
def PairBoundary (postings : List Posting) (position : Nat) : Prop :=
  ∃ front, front <+: postings ∧ position = (encodePostings front).length

/-- Both splitters return the largest boundary within the capacity. -/
structure SplitsAgree (postings : List Posting) (capacity : Nat) : Prop where
  prefixBytes : IsGreatest {position | PairBoundary postings position ∧ position ≤ capacity}
    (postingPrefixBytes (encodePostings postings) capacity)
  splitLength : postingSplitLength (encodePostings postings) capacity =
    postingPrefixBytes (encodePostings postings) capacity

/-- Both `MaxDocIDInPairs` return the last document id of every run of the list. -/
def MaximaAgree (postings : List Posting) : Prop :=
  ∀ run, run <:+: postings →
    (maxDocIdInPairs (encodePostings run)).toNat =
        Postings.maxDocIdInPairs (encodePostings run) ∧
      Postings.maxDocIdInPairs (encodePostings run) =
        (run.getLast?.map fun posting => posting.docId.toNat).getD 0

/-- The postings that fit a capacity together. -/
def fitting : List Posting → (capacity : Nat) → List Posting
  | [], _ => []
  | posting :: rest, capacity =>
      if (encodePosting posting).length ≤ capacity then
        posting :: fitting rest (capacity - (encodePosting posting).length)
      else []

/-- A frequency byte that the merge reads on from. -/
def highFrequency (posting : Posting) : Bool := decide (128 ≤ posting.tf8.toNat)

/-- An even number of frequency bytes have the high bit, and the last has not. -/
def WholeNumberPairs (postings : List Posting) : Prop :=
  Even (postings.countP highFrequency) ∧
    ∀ last ∈ postings.getLast?, highFrequency last = false

instance (postings : List Posting) : Decidable (WholeNumberPairs postings) :=
  inferInstanceAs (Decidable (_ ∧ _))

/-! ## Number ends -/

/-- A byte that ends a number. -/
def endsNumber (byte : UInt8) : Bool := byte &&& 0x80 == 0

/-- The numbers that end before a position. -/
def numberEnds (data : Bytes) (position : Nat) : Nat := (data.take position).countP endsNumber

theorem endsNumber_iff (byte : UInt8) : endsNumber byte = true ↔ byte.toNat < 128 := by
  rw [← highBit_clear_iff]
  exact beq_iff_eq

theorem numberEnds_split {data : Bytes} {start stop : Nat} (ordered : start ≤ stop) :
    numberEnds data stop =
      numberEnds data start + ((data.drop start).take (stop - start)).countP endsNumber := by
  have parts : data.take stop = data.take start ++ (data.drop start).take (stop - start) := by
    rw [← List.take_add, Nat.add_sub_cancel' ordered]
  rw [numberEnds, numberEnds, parts, List.countP_append]

theorem numberEnds_mono {data : Bytes} {start stop : Nat} (ordered : start ≤ stop) :
    numberEnds data start ≤ numberEnds data stop := by
  rw [numberEnds_split ordered]
  exact Nat.le_add_right _ _

theorem numberEnds_succ {data : Bytes} {position : Nat} (inside : position < data.length) :
    numberEnds data (position + 1) =
      numberEnds data position + if endsNumber data[position] then 1 else 0 := by
  rw [numberEnds, numberEnds, List.take_add_one, List.getElem?_eq_getElem inside,
    List.countP_append]
  simp [List.countP_cons]

/-- No number ends in a stretch without an end byte. -/
theorem numberEnds_eq {data : Bytes} {start stop : Nat} (ordered : start ≤ stop)
    (stopInside : stop ≤ data.length)
    (continued : ∀ position (inside : position < data.length), start ≤ position →
      position < stop → endsNumber data[position] = false) :
    numberEnds data stop = numberEnds data start := by
  induction stop, ordered using Nat.le_induction with
  | base => rfl
  | succ stop ordered inductionHypothesis =>
      rw [numberEnds_succ (by omega), continued stop (by omega) ordered (by omega)]
      exact inductionHypothesis (by omega) fun position inside after before =>
        continued position inside after (by omega)

/-- The merge can stand here: an even number of numbers have ended, the last one at
this position. -/
structure PairEnd (data : Bytes) (position : Nat) : Prop where
  inside : position ≤ data.length
  even : Even (numberEnds data position)
  atEnd : position = 0 ∨ ∃ before : position - 1 < data.length,
    endsNumber data[position - 1] = true

theorem PairEnd.start (data : Bytes) : PairEnd data 0 :=
  ⟨Nat.zero_le _, by simp [numberEnds], Or.inl rfl⟩

/-- Two numbers lie between two pair ends. -/
theorem PairEnd.two_more {data : Bytes} {first second : Nat} (firstEnd : PairEnd data first)
    (secondEnd : PairEnd data second) (before : first < second) :
    numberEnds data first + 2 ≤ numberEnds data second := by
  obtain zero | ⟨inside, ends⟩ := secondEnd.atEnd
  · omega
  · have step : numberEnds data (second - 1 + 1) = numberEnds data (second - 1) + 1 := by
      rw [numberEnds_succ inside, if_pos ends]
    have up := @numberEnds_mono data first (second - 1) (by omega)
    rw [Nat.sub_add_cancel (by omega)] at step
    obtain ⟨firstHalf, firstEven⟩ := firstEnd.even
    obtain ⟨secondHalf, secondEven⟩ := secondEnd.even
    omega

/-! ## The merge's scan -/

theorem readVbEnd_some {data : Bytes} {offset stop : Nat}
    (read : readVbEnd data offset = some stop) :
    offset < stop ∧ (∃ inside : stop - 1 < data.length, endsNumber data[stop - 1] = true) ∧
      numberEnds data (stop - 1) = numberEnds data offset ∧
      numberEnds data stop = numberEnds data offset + 1 := by
  obtain ⟨index, found, rfl⟩ := Option.map_eq_some_iff.mp read
  obtain ⟨inside, ends, continued⟩ := List.findIdx?_eq_some_iff_getElem.mp found
  rw [List.length_drop] at inside
  rw [List.getElem_drop] at ends
  change endsNumber data[offset + index] = true at ends
  have last : offset + index + 1 - 1 = offset + index := by omega
  have same : numberEnds data (offset + index) = numberEnds data offset := by
    refine numberEnds_eq (by omega) (by omega) ?_
    intro position positionInside after before
    have high := continued (position - offset) (by omega)
    rw [List.getElem_drop] at high
    have place : offset + (position - offset) = position := by omega
    simp only [place] at high
    exact Bool.not_eq_true _ ▸ high
  have step := @numberEnds_succ data (offset + index) (by omega)
  rw [if_pos ends, same] at step
  simp only [last]
  exact ⟨by omega, ⟨by omega, ends⟩, same, step⟩

theorem readVbEnd_none {data : Bytes} {offset stop : Nat} (read : readVbEnd data offset = none)
    (ordered : offset ≤ stop) (inside : stop ≤ data.length) :
    numberEnds data stop = numberEnds data offset := by
  have continued := List.findIdx?_eq_none_iff.mp (Option.map_eq_none_iff.mp read)
  refine numberEnds_eq ordered inside ?_
  intro position positionInside after before
  have place : position - offset < (data.drop offset).length := by
    rw [List.length_drop]
    omega
  have member := List.getElem_mem place
  rw [List.getElem_drop] at member
  have shifted : offset + (position - offset) = position := by omega
  simp only [shifted] at member
  exact continued _ member

/-- A pair read from a pair end leads to the next one. -/
theorem readVbPairEnd_some {data : Bytes} {cursor pairEnd : Nat} (stands : PairEnd data cursor)
    (read : readVbPairEnd data cursor = some pairEnd) :
    cursor < pairEnd ∧ PairEnd data pairEnd ∧
      ∀ position, PairEnd data position → cursor < position → pairEnd ≤ position := by
  obtain ⟨middle, first, second⟩ := Option.bind_eq_some_iff.mp read
  obtain ⟨firstAfter, -, -, firstCount⟩ := readVbEnd_some first
  obtain ⟨secondAfter, ⟨inside, ends⟩, before, secondCount⟩ := readVbEnd_some second
  have even : Even (numberEnds data pairEnd) := by
    rw [secondCount, firstCount, Nat.add_assoc]
    exact stands.even.add even_two
  refine ⟨by omega, ⟨by omega, even, Or.inr ⟨inside, ends⟩⟩, ?_⟩
  intro position standsThere after
  by_contra early
  have enough := stands.two_more standsThere after
  have few := @numberEnds_mono data position (pairEnd - 1) (by omega)
  omega

/-- When no pair can be read there is no pair end left. -/
theorem readVbPairEnd_none {data : Bytes} {cursor position : Nat} (stands : PairEnd data cursor)
    (read : readVbPairEnd data cursor = none) (standsThere : PairEnd data position) :
    position ≤ cursor := by
  by_contra after
  have enough := stands.two_more standsThere (by omega)
  cases first : readVbEnd data cursor with
  | none =>
      have same := readVbEnd_none first (by omega) standsThere.inside
      omega
  | some middle =>
      rw [readVbPairEnd, first, Option.bind_some] at read
      obtain ⟨-, -, -, firstCount⟩ := readVbEnd_some first
      by_cases passed : middle ≤ position
      · have same := readVbEnd_none read passed standsThere.inside
        omega
      · have few := @numberEnds_mono data position middle (by omega)
        omega

/-- The loop returns the last pair end within its limit. -/
theorem splitLoop_spec {data : Bytes} {limit turns cursor : Nat} (stands : PairEnd data cursor)
    (within : cursor ≤ limit) (enough : limit ≤ cursor + turns) :
    IsGreatest {position | PairEnd data position ∧ position ≤ limit}
      (splitLoop data limit turns cursor cursor) := by
  induction turns generalizing cursor with
  | zero => exact ⟨⟨stands, within⟩, fun position inside => Nat.le_trans inside.2 enough⟩
  | succ turns inductionHypothesis =>
      rw [splitLoop]
      split
      · cases read : readVbPairEnd data cursor with
        | none =>
            exact ⟨⟨stands, within⟩, fun position inside => readVbPairEnd_none stands read inside.1⟩
        | some pairEnd =>
            obtain ⟨after, standsNext, next⟩ := readVbPairEnd_some stands read
            dsimp only
            split
            · refine ⟨⟨stands, within⟩, ?_⟩
              intro position inside
              by_contra beyond
              have late := next position inside.1 (by omega)
              have bound := inside.2
              omega
            · exact inductionHypothesis standsNext (by omega) (by omega)
      · exact ⟨⟨stands, within⟩, fun position inside => Nat.le_trans inside.2 (by omega)⟩

/-! ## Encoded lists -/

/-- One number ends in a written document id, at its last byte. -/
theorem vbWriteLoop_ends {turns value : Nat} (fits : value < 128 ^ turns) (positive : 0 < turns) :
    ∃ front last, vbWriteLoop turns value = front ++ [last] ∧ endsNumber last = true ∧
      front.countP endsNumber = 0 := by
  induction turns generalizing value with
  | zero => omega
  | succ turns inductionHypothesis =>
      cases shape : vbWriteLoop (turns + 1) value with
      | nil =>
          have written := @vbWriteLoop_length_pos turns value
          rw [shape] at written
          exact absurd written (Nat.lt_irrefl 0)
      | cons byte rest =>
          obtain ⟨-, ⟨small, low, rfl⟩ | ⟨large, high, restFits, rfl⟩⟩ :=
            vbWriteLoop_head fits shape
          · exact ⟨[], byte, rfl, by simpa [endsNumber] using low, rfl⟩
          · have more : 0 < turns := by
              by_contra none
              rw [Nat.eq_zero_of_not_pos none] at restFits
              omega
            obtain ⟨front, last, tail, low, continued⟩ := inductionHypothesis restFits more
            refine ⟨byte :: front, last, by rw [tail, List.cons_append], low, ?_⟩
            rw [List.countP_cons, continued, if_neg (by simpa [endsNumber] using high)]

theorem countP_vbWrite (docId : UInt64) : (vbWrite docId).countP endsNumber = 1 := by
  have fits : docId.toNat < 128 ^ 10 := docId_lt ⟨docId, 0⟩
  obtain ⟨front, last, shape, low, continued⟩ := vbWriteLoop_ends fits (by decide)
  rw [vbWrite, shape, List.countP_append, continued, List.countP_singleton, if_pos low]

theorem endsNumber_tf8 (posting : Posting) :
    endsNumber posting.tf8 = !highFrequency posting := by
  rw [Bool.eq_iff_iff, endsNumber_iff]
  simp [highFrequency]

/-- Every posting ends two numbers, but for the frequency bytes with the high bit. -/
theorem countP_encodePostings (postings : List Posting) :
    (encodePostings postings).countP endsNumber + postings.countP highFrequency =
      2 * postings.length := by
  induction postings with
  | nil => rfl
  | cons posting rest inductionHypothesis =>
      rw [encodePostings_cons, encodePosting, List.countP_append, List.countP_append,
        countP_vbWrite, List.countP_singleton, endsNumber_tf8, List.countP_cons, List.length_cons]
      cases highFrequency posting <;> simp <;> omega

theorem numberEnds_front {front rest : List Posting} :
    numberEnds (encodePostings (front ++ rest)) (encodePostings front).length =
      (encodePostings front).countP endsNumber := by
  rw [numberEnds, encodePostings_append, List.take_left]

/-- The merge can stand behind a run of postings when the run is whole number pairs. -/
theorem pairEnd_front_iff (front rest : List Posting) :
    PairEnd (encodePostings (front ++ rest)) (encodePostings front).length ↔
      WholeNumberPairs front := by
  have count := countP_encodePostings front
  have even : Even (numberEnds (encodePostings (front ++ rest)) (encodePostings front).length) ↔
      Even (front.countP highFrequency) := by
    have total : Even ((encodePostings front).countP endsNumber + front.countP highFrequency) := by
      rw [count]
      exact ⟨front.length, Nat.two_mul _⟩
    rw [numberEnds_front]
    exact Nat.even_add.mp total
  have inside : (encodePostings front).length ≤ (encodePostings (front ++ rest)).length := by
    rw [encodePostings_append, List.length_append]
    exact Nat.le_add_right _ _
  rcases List.eq_nil_or_concat front with rfl | ⟨init, last, rfl⟩
  · exact iff_of_true (PairEnd.start _) ⟨⟨0, rfl⟩, by simp⟩
  · rw [List.concat_eq_append] at even inside ⊢
    have place : (encodePostings (init ++ [last])).length - 1 =
        (encodePostings init ++ vbWrite last.docId).length := by
      simp [encodePosting]
    have shape : encodePostings (init ++ [last] ++ rest) =
        (encodePostings init ++ vbWrite last.docId) ++ last.tf8 :: encodePostings rest := by
      simp [encodePosting]
    have byte := List.getElem_of_append shape place.symm
    have before : (encodePostings (init ++ [last])).length - 1 <
        (encodePostings (init ++ [last] ++ rest)).length := by
      rw [place, shape]
      simp
    have positive : (encodePostings (init ++ [last])).length ≠ 0 := by
      have long := encodePosting_length_pos last
      simp only [encodePostings_append, encodePostings_cons, List.length_append]
      omega
    have low : endsNumber last.tf8 = true ↔
        ∀ final ∈ (init ++ [last]).getLast?, highFrequency final = false := by
      rw [endsNumber_tf8]
      simp
    constructor
    · intro stands
      obtain zero | ⟨_, ends⟩ := stands.atEnd
      · exact absurd zero positive
      · rw [byte] at ends
        exact ⟨even.mp stands.even, low.mp ends⟩
    · intro whole
      refine ⟨inside, even.mpr whole.1, Or.inr ⟨before, ?_⟩⟩
      rw [byte]
      exact low.mpr whole.2

/-! ## The two cuts -/

/-- What fits is a front of the list, and the posting after it does not fit. -/
theorem fitting_eq_take {postings : List Posting} {capacity taken : Nat}
    (fits : (encodePostings (postings.take taken)).length ≤ capacity)
    (full : taken < postings.length →
      capacity < (encodePostings (postings.take (taken + 1))).length) :
    fitting postings capacity = postings.take taken := by
  induction postings generalizing capacity taken with
  | nil => simp [fitting]
  | cons posting rest inductionHypothesis =>
      cases taken with
      | zero =>
          have large := full (Nat.succ_pos _)
          simp only [Nat.zero_add, List.take_succ_cons, List.take_zero, encodePostings_cons,
            encodePostings_nil, List.append_nil] at large
          rw [fitting, if_neg (by omega), List.take_zero]
      | succ taken =>
          simp only [List.take_succ_cons, encodePostings_cons, List.length_append] at fits full
          have tailFull : taken < rest.length → capacity - (encodePosting posting).length <
              (encodePostings (rest.take (taken + 1))).length := by
            intro more
            have large := full (Nat.succ_lt_succ more)
            omega
          rw [fitting, if_pos (by omega), inductionHypothesis (by omega) tailFull,
            List.take_succ_cons]

theorem encodePostings_mono {front postings : List Posting} (isFront : front <+: postings) :
    (encodePostings front).length ≤ (encodePostings postings).length := by
  obtain ⟨rest, rfl⟩ := isFront
  rw [encodePostings_append, List.length_append]
  exact Nat.le_add_right _ _

/-- The serializer cuts at the largest boundary within the capacity. -/
theorem postingPrefixBytes_isGreatest (postings : List Posting) (capacity : Nat) :
    IsGreatest {position | PairBoundary postings position ∧ position ≤ capacity}
      (postingPrefixBytes (encodePostings postings) capacity) := by
  obtain ⟨taken, bound, value, fits, full⟩ := postingPrefixBytes_encode postings capacity
  rw [value]
  refine ⟨⟨⟨_, List.take_prefix taken postings, rfl⟩, fits⟩, ?_⟩
  rintro position ⟨⟨front, isFront, rfl⟩, within⟩
  have shape := List.prefix_iff_eq_take.mp isFront
  by_cases shorter : front.length ≤ taken
  · rw [shape]
    exact encodePostings_mono (List.take_prefix_take_left shorter)
  · have frontLe := isFront.length_le
    have longer := encodePostings_mono (@List.take_prefix_take_left _ postings (taken + 1)
      front.length (by omega))
    rw [← shape] at longer
    have large := full (by omega)
    omega

/-- Between the end of a run and the end of the next document id one number ends. -/
theorem numberEnds_next {front rest : List Posting} {posting : Posting} {position : Nat}
    (within : position < (encodePostings (front ++ [posting])).length) :
    numberEnds (encodePostings (front ++ posting :: rest)) position ≤
      (encodePostings front).countP endsNumber + 1 := by
  have shape : encodePostings (front ++ posting :: rest) =
      (encodePostings front ++ vbWrite posting.docId) ++ posting.tf8 :: encodePostings rest := by
    simp [encodePosting]
  have docEnd : position ≤ (encodePostings front ++ vbWrite posting.docId).length := by
    simp only [encodePostings_append, encodePostings_cons, encodePosting, encodePostings_nil,
      List.append_nil, List.length_append, List.length_singleton] at within ⊢
    omega
  refine (numberEnds_mono docEnd).trans ?_
  rw [numberEnds, shape, List.take_left, List.countP_append, countP_vbWrite]

/-- The merge cuts a list that does not fit where the serializer does when what fits is
whole number pairs, and only then. -/
theorem postingSplitLength_eq_iff {front rest : List Posting} {posting : Posting} {capacity : Nat}
    (fits : (encodePostings front).length ≤ capacity)
    (full : capacity < (encodePostings (front ++ [posting])).length) :
    postingSplitLength (encodePostings (front ++ posting :: rest)) capacity =
        (encodePostings front).length ↔ WholeNumberPairs front := by
  have longer : (encodePostings (front ++ [posting])).length ≤
      (encodePostings (front ++ posting :: rest)).length :=
    encodePostings_mono ⟨rest, by simp⟩
  have limit : min (encodePostings (front ++ posting :: rest)).length capacity = capacity := by
    omega
  have greatest := @splitLoop_spec (encodePostings (front ++ posting :: rest)) capacity
    (encodePostings (front ++ posting :: rest)).length 0 (PairEnd.start _) (by omega) (by omega)
  rw [postingSplitLength, if_neg (by omega), limit, ← pairEnd_front_iff front (posting :: rest)]
  constructor
  · intro same
    rw [← same]
    exact greatest.1.1
  · intro stands
    have after := greatest.2 ⟨stands, fits⟩
    by_contra differs
    have more := stands.two_more greatest.1.1 (by omega)
    have within := greatest.1.2
    have few := @numberEnds_next front rest posting _ (Nat.lt_of_le_of_lt within full)
    rw [numberEnds_front] at more
    omega

/-- The capacities at which the two splitters agree on a list. -/
theorem splitsAgree_iff (postings : List Posting) (capacity : Nat) :
    SplitsAgree postings capacity ↔
      (encodePostings postings).length ≤ capacity ∨
        WholeNumberPairs (fitting postings capacity) := by
  have greatest := postingPrefixBytes_isGreatest postings capacity
  obtain ⟨taken, bound, value, fits, full⟩ := postingPrefixBytes_encode postings capacity
  have agree : SplitsAgree postings capacity ↔
      postingSplitLength (encodePostings postings) capacity =
        (encodePostings (postings.take taken)).length :=
    ⟨fun both => both.splitLength.trans value, fun same => ⟨greatest, same.trans value.symm⟩⟩
  rw [agree, fitting_eq_take fits full]
  by_cases all : (encodePostings postings).length ≤ capacity
  · refine iff_of_true ?_ (Or.inl all)
    have last : taken = postings.length := by
      by_contra early
      have large := full (by omega)
      have small := encodePostings_mono (List.take_prefix (taken + 1) postings)
      omega
    rw [postingSplitLength, if_pos all, last, List.take_length]
  · have more : taken < postings.length := by
      by_contra none
      rw [List.take_of_length_le (by omega)] at fits
      exact all fits
    have split : postings =
        postings.take taken ++ postings[taken] :: postings.drop (taken + 1) := by
      rw [← List.drop_eq_getElem_cons more, List.take_append_drop]
    have next : postings.take (taken + 1) = postings.take taken ++ [postings[taken]] := by
      rw [List.take_add_one, List.getElem?_eq_getElem more]
      rfl
    have largeNext := full more
    rw [next] at largeNext
    have cut := @postingSplitLength_eq_iff _ (postings.drop (taken + 1)) _ capacity fits largeNext
    rw [← split] at cut
    rw [cut]
    exact (or_iff_right all).symm

/-! ## Last document ids -/

/-- The two readers of numbers agree; shifts count modulo the word size. -/
theorem vbReadLoop_eq (data : Bytes) {natShift : Nat} {shift : UInt8} (value : UInt64)
    (same : natShift % 64 = shift.toNat % 64) :
    Postings.vbReadLoop data natShift value.toNat =
      ((vbReadLoop data shift value).1.toNat, (vbReadLoop data shift value).2) := by
  induction data generalizing natShift shift value with
  | nil => rfl
  | cons byte rest inductionHypothesis =>
      have digit : value.toNat ||| (((byte &&& 0x7f).toNat <<< (natShift % 64)) % 2 ^ 64) =
          (value ||| ((byte &&& 0x7F).toUInt64 <<< shift.toUInt64)).toNat := by
        rw [UInt64.toNat_or, UInt64.toNat_shiftLeft, same]
        rfl
      have next : (natShift + 7) % 64 = (shift + 7).toNat % 64 := by
        rw [UInt8.toNat_add]
        show (natShift + 7) % 64 = (shift.toNat + 7) % 256 % 64
        omega
      rw [Postings.vbReadLoop, vbReadLoop]
      dsimp only
      rw [digit]
      split
      · rfl
      · rw [inductionHypothesis _ next]

theorem vbReadLocal_encode {data : Bytes} {cursor : Nat} {posting : Posting} {rest : Bytes}
    (stands : data.drop cursor = encodePosting posting ++ rest) :
    vbReadLocal data cursor = (posting.docId, (vbWrite posting.docId).length) := by
  have read := vbRead_encodePosting posting rest
  have same := @vbReadLoop_eq (encodePosting posting ++ rest) 0 0 0 rfl
  rw [vbRead] at read
  obtain ⟨value, bytes⟩ := Prod.mk.inj (read.symm.trans same)
  rw [vbReadLocal, stands]
  exact Prod.ext (UInt64.toNat_inj.mp value.symm) bytes.symm

/-- A frequency byte is one byte to the merge when it is low or the last byte there is. -/
theorem vbReadLocal_tf8 {data : Bytes} {cursor : Nat} {posting : Posting} {rest : List Posting}
    (stands : data.drop cursor = posting.tf8 :: encodePostings rest)
    (low : rest ≠ [] → highFrequency posting = false) : (vbReadLocal data cursor).2 = 1 := by
  rw [vbReadLocal, stands, vbReadLoop]
  dsimp only
  split
  · rfl
  · rename_i high
    cases rest with
    | nil => rfl
    | cons next rest =>
        have ends : endsNumber posting.tf8 = true := by
          rw [endsNumber_tf8, low (by simp)]
          rfl
        exact absurd (beq_iff_eq.mp ends) high

theorem maxDocIdLoop_last {data : Bytes} {turns cursor : Nat} {maxDocId : UInt64}
    {postings : List Posting} (stands : data.drop cursor = encodePostings postings)
    (enough : postings.length ≤ turns)
    (low : ∀ posting ∈ postings.dropLast, highFrequency posting = false) :
    maxDocIdLoop data turns cursor maxDocId =
      (postings.getLast?.map Posting.docId).getD maxDocId := by
  induction turns generalizing cursor maxDocId postings with
  | zero =>
      obtain rfl := List.length_eq_zero_iff.mp (Nat.le_zero.mp enough)
      rfl
  | succ turns inductionHypothesis =>
      have lengths := congrArg List.length stands
      rw [List.length_drop] at lengths
      cases postings with
      | nil =>
          rw [encodePostings_nil, List.length_nil] at lengths
          rw [maxDocIdLoop, if_neg (by omega)]
          rfl
      | cons posting rest =>
          have docLength : (encodePosting posting).length =
              (vbWrite posting.docId).length + 1 := by
            simp [encodePosting]
          have tail : data.drop (cursor + (vbWrite posting.docId).length) =
              posting.tf8 :: encodePostings rest := by
            rw [← List.drop_drop, stands]
            simp [encodePosting]
          have next : data.drop (cursor + (vbWrite posting.docId).length + 1) =
              encodePostings rest := by
            rw [← List.drop_drop, tail]
            rfl
          rw [encodePostings_cons, List.length_append] at lengths
          have ownLow : rest ≠ [] → highFrequency posting = false := by
            intro more
            refine low posting ?_
            rw [List.dropLast_cons_of_ne_nil more]
            exact List.mem_cons_self
          have restLow : ∀ other ∈ rest.dropLast, highFrequency other = false := by
            intro other member
            refine low other ?_
            rw [List.dropLast_cons_of_ne_nil (by rintro rfl; simp at member)]
            exact List.mem_cons_of_mem _ member
          rw [maxDocIdLoop, if_pos (by omega), vbReadLocal_encode stands]
          dsimp only
          rw [if_neg (by omega), vbReadLocal_tf8 tail ownLow,
            inductionHypothesis next (Nat.le_of_succ_le_succ enough) restLow]
          cases rest with
          | nil => rfl
          | cons other rest => simp [List.getLast?_cons]

theorem maxDocIdInPairs_last {postings : List Posting}
    (low : ∀ posting ∈ postings.dropLast, highFrequency posting = false) :
    maxDocIdInPairs (encodePostings postings) =
      (postings.getLast?.map Posting.docId).getD 0 := by
  have long := encodePostings_length_ge postings
  exact maxDocIdLoop_last rfl (by omega) low

/-- The serializer's `MaxDocIDInPairs` returns the last document id of every run. -/
theorem serializer_maxDocIdInPairs (postings : List Posting) :
    Postings.maxDocIdInPairs (encodePostings postings) =
      (postings.getLast?.map fun posting => posting.docId.toNat).getD 0 := by
  have long := encodePostings_length_ge postings
  exact Postings.maxDocIdLoop_encode (by omega)

theorem maximaAgree_of_low {postings : List Posting}
    (low : ∀ posting ∈ postings.dropLast, highFrequency posting = false) :
    MaximaAgree postings := by
  rintro run ⟨front, back, shape⟩
  have runLow : ∀ posting ∈ run.dropLast, highFrequency posting = false := by
    intro posting member
    refine low posting ?_
    have nonempty : run ≠ [] := by
      rintro rfl
      simp at member
    rw [← shape, List.append_assoc, List.dropLast_append_of_ne_nil (by simp [nonempty])]
    refine List.mem_append_right _ ?_
    cases back with
    | nil => rwa [List.append_nil]
    | cons other back =>
        rw [List.dropLast_append_of_ne_nil (by simp)]
        exact List.mem_append_left _ (List.dropLast_subset _ member)
  rw [serializer_maxDocIdInPairs, maxDocIdInPairs_last runLow]
  refine ⟨?_, rfl⟩
  cases run.getLast? <;> rfl

/-! ## The exact lists -/

theorem wholeNumberPairs_of_low {postings : List Posting}
    (low : ∀ posting ∈ postings, highFrequency posting = false) : WholeNumberPairs postings := by
  refine ⟨?_, fun last member => low last (List.mem_of_mem_getLast? member)⟩
  rw [List.countP_eq_zero.mpr fun posting member => by rw [low posting member]; decide]
  exact ⟨0, rfl⟩

/-- The splitters agree at every capacity when only the last frequency byte may have the
high bit. -/
theorem splitsAgree_all_iff (postings : List Posting) :
    (∀ capacity, SplitsAgree postings capacity) ↔
      ∀ posting ∈ postings.dropLast, highFrequency posting = false := by
  constructor
  · intro agree posting member
    obtain ⟨front, back, shape⟩ := List.append_of_mem member
    have nonempty : postings ≠ [] := by
      rintro rfl
      cases member
    have whole : postings = front ++ [posting] ++ (back ++ [postings.getLast nonempty]) := by
      rw [← List.append_assoc, List.append_assoc front, List.singleton_append, ← shape,
        List.dropLast_append_getLast]
    -- The capacity that ends behind this posting.
    have cut := (splitsAgree_iff _ _).mp (agree (encodePostings (front ++ [posting])).length)
    have taken : postings.take (front ++ [posting]).length = front ++ [posting] := by
      rw [whole, List.take_left]
    have full : (front ++ [posting]).length < postings.length →
        (encodePostings (front ++ [posting])).length <
          (encodePostings (postings.take ((front ++ [posting]).length + 1))).length := by
      intro more
      rw [List.take_add_one, taken, List.getElem?_eq_getElem more,
        encodePostings_append (front ++ [posting]), List.length_append]
      have positive := encodePosting_length_pos postings[(front ++ [posting]).length]
      simp only [Option.toList_some, encodePostings_cons, encodePostings_nil, List.append_nil]
      omega
    have fits := fitting_eq_take (by rw [taken]) full
    obtain all | pairs := cut
    · rw [whole, encodePostings_append _ (back ++ _), List.length_append] at all
      have positive := encodePostings_length_ge (back ++ [postings.getLast nonempty])
      rw [List.length_append, List.length_singleton] at positive
      omega
    · rw [fits, taken] at pairs
      exact pairs.2 posting (by simp)
  · intro low capacity
    obtain ⟨taken, bound, value, fits, full⟩ := postingPrefixBytes_encode postings capacity
    rw [splitsAgree_iff, fitting_eq_take fits full]
    by_cases all : taken = postings.length
    · rw [all, List.take_length] at fits
      exact Or.inl fits
    · refine Or.inr (wholeNumberPairs_of_low fun posting member => low posting ?_)
      rw [List.dropLast_eq_take]
      exact (List.take_prefix_take_left (by omega)).subset member

/-- On a posting list as encoded, the two splitters agree at a capacity when the list
fits or what fits is whole number pairs; they agree at every capacity and on the maxima
of every run when only the last frequency byte may have the high bit. -/
theorem posting_splitters_agree_iff (float : FloatOps) (list : PostingList) :
    (∀ capacity, SplitsAgree (list.postings float) capacity ↔
      (list.getBytes float).length ≤ capacity ∨
        WholeNumberPairs (fitting (list.postings float) capacity)) ∧
    ((∀ capacity, SplitsAgree (list.postings float) capacity) ∧
        MaximaAgree (list.postings float) ↔
      ∀ entry ∈ list.entries.dropLast, (float.tf8Encode entry.termFrequency).toNat < 128) := by
  have low : (∀ entry ∈ list.entries.dropLast,
      (float.tf8Encode entry.termFrequency).toNat < 128) ↔
      ∀ posting ∈ (list.postings float).dropLast, highFrequency posting = false := by
    rw [PostingList.postings, ← List.map_dropLast, List.forall_mem_map]
    simp [highFrequency]
  refine ⟨splitsAgree_iff (list.postings float), ?_⟩
  rw [low, splitsAgree_all_iff]
  exact and_iff_left_of_imp maximaAgree_of_low

/-- Two documents with the frequency 65535 each. -/
def twoFrequent : PostingList := ⟨[⟨0, 65535⟩, ⟨1, 65535⟩], by simp [Ascending]⟩

/-- At two bytes the serializer cuts behind the first posting, the merge in front of it. -/
theorem twoFrequent_splits_differ : ¬ SplitsAgree (twoFrequent.postings default) 2 := by
  intro agree
  have same := agree.splitLength
  revert same
  decide +kernel

end MoonShot.Context
