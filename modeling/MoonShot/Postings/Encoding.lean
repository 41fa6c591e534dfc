import MoonShot.Lib.Utf8

/-!
The posting byte format and the scanners over it.

A posting is a variable-byte document id followed by one raw byte of quantised
term frequency. Owns the writer (`vb_write`, `PostingList::encode`), the
serializer's pair scanner (`ReadVbcPairEnd`, `PostingPrefixBytes`), its
`MaxDocIDInPairs`, and their exact effect on encoded lists.

Does not own `tf8_encode`: the quantisation is a parameter of every statement.
-/

namespace MoonShot.Postings

open MoonShot.Lib

/-! ## Bit tests on one byte -/

theorem highBit_clear_iff (byte : UInt8) : byte &&& 0x80 = 0 ↔ byte.toNat < 128 := by
  have table : ∀ value : Fin 256, UInt8.ofNat value &&& 0x80 = 0 ↔ value.val < 128 := by
    decide +kernel
  have := table ⟨byte.toNat, byte.toNat_lt⟩
  simpa using this

theorem lowBits_toNat (byte : UInt8) : (byte &&& 0x7f).toNat = byte.toNat % 128 := by
  rw [UInt8.toNat_and]
  exact Nat.and_two_pow_sub_one_eq_mod byte.toNat 7

/-! ## Writing -/

/-- The loop of `vb_write`: seven bits a byte, lowest first, the high bit set
on every byte but the last. -/
def vbWriteLoop : (turns value : Nat) → Bytes
  | 0, _ => []
  | turns + 1, value =>
      if value < 0x80 then [UInt8.ofNat value]
      else UInt8.ofNat ((value &&& 0x7F) ||| 0x80) :: vbWriteLoop turns (value >>> 7)

/-- `vb_write`. Ten turns of seven bits exhaust a 64-bit value. -/
def vbWrite (value : UInt64) : Bytes := vbWriteLoop 10 value.toNat

/-- One document of a posting list as it is stored: its id and its quantised
term frequency. -/
structure Posting where
  docId : UInt64
  tf8 : UInt8
deriving DecidableEq, Repr

/-- The bytes of one posting. -/
def encodePosting (posting : Posting) : Bytes := vbWrite posting.docId ++ [posting.tf8]

/-- The bytes of a posting list. -/
def encodePostings (postings : List Posting) : Bytes := postings.flatMap encodePosting

/-- Document ids ascend strictly. -/
def AscendingIds (postings : List Posting) : Prop :=
  postings.Pairwise fun left right => left.docId < right.docId

@[simp] theorem encodePostings_nil : encodePostings [] = [] := rfl

@[simp] theorem encodePostings_cons (posting : Posting) (rest : List Posting) :
    encodePostings (posting :: rest) = encodePosting posting ++ encodePostings rest := rfl

@[simp] theorem encodePostings_append (left right : List Posting) :
    encodePostings (left ++ right) = encodePostings left ++ encodePostings right := by
  simp [encodePostings]

/-! ### Shape of a written value -/

private theorem continued_byte (value : Nat) :
    (UInt8.ofNat ((value &&& 0x7F) ||| 0x80)).toNat = value % 128 + 128 := by
  have mask : value &&& 0x7F = value % 128 := Nat.and_two_pow_sub_one_eq_mod value 7
  have small : value % 128 < 2 ^ 7 := Nat.mod_lt _ (by decide)
  have join : 128 + value % 128 = 128 ||| value % 128 := Nat.two_pow_add_eq_or_of_lt small 1
  rw [mask, Nat.or_comm, ← join, UInt8.toNat_ofNat']
  omega

/-- The low bits of a continued byte are the low digit of the value. -/
private theorem continued_digit (value : Nat) :
    (UInt8.ofNat ((value &&& 0x7F) ||| 0x80) &&& 0x7F).toNat = value % 128 := by
  rw [lowBits_toNat, continued_byte]
  omega

private theorem continued_high (value : Nat) :
    ¬ UInt8.ofNat ((value &&& 0x7F) ||| 0x80) &&& 0x80 = 0 := by
  rw [highBit_clear_iff, continued_byte]
  omega

private theorem final_low {value : Nat} (small : value < 128) :
    UInt8.ofNat value &&& 0x80 = 0 := by
  rw [highBit_clear_iff, UInt8.toNat_ofNat']
  omega

private theorem final_digit {value : Nat} (small : value < 128) :
    (UInt8.ofNat value &&& 0x7F).toNat = value := by
  rw [lowBits_toNat, UInt8.toNat_ofNat']
  omega

/-- What the loop emits when the value fits its turns: bytes with the high bit
set, then one without it. -/
theorem vbWriteLoop_cases {turns value : Nat} (fits : value < 128 ^ (turns + 1)) :
    (value < 128 ∧ vbWriteLoop (turns + 1) value = [UInt8.ofNat value]) ∨
      (128 ≤ value ∧ value / 128 < 128 ^ turns ∧
        vbWriteLoop (turns + 1) value =
          UInt8.ofNat ((value &&& 0x7F) ||| 0x80) :: vbWriteLoop turns (value / 128)) := by
  by_cases small : value < 128
  · exact Or.inl ⟨small, by simp [vbWriteLoop, small]⟩
  · refine Or.inr ⟨by omega, ?_, ?_⟩
    · rw [Nat.div_lt_iff_lt_mul (by decide), ← Nat.pow_succ]
      exact fits
    · rw [vbWriteLoop, if_neg (by omega), Nat.shiftRight_eq_div_pow]

/-- The first byte written: its low bits are the lowest digit, its high bit
says whether more follow. -/
theorem vbWriteLoop_head {turns value : Nat} {byte : UInt8} {rest : Bytes}
    (fits : value < 128 ^ (turns + 1)) (shape : vbWriteLoop (turns + 1) value = byte :: rest) :
    (byte &&& 0x7F).toNat = value % 128 ∧
      ((value < 128 ∧ byte &&& 0x80 = 0 ∧ rest = []) ∨
        (128 ≤ value ∧ ¬ byte &&& 0x80 = 0 ∧ value / 128 < 128 ^ turns ∧
          rest = vbWriteLoop turns (value / 128))) := by
  rcases vbWriteLoop_cases fits with ⟨small, written⟩ | ⟨large, restFits, written⟩
  · rw [written] at shape
    obtain ⟨rfl, rfl⟩ := List.cons.inj shape
    refine ⟨?_, Or.inl ⟨small, final_low small, rfl⟩⟩
    rw [final_digit small, Nat.mod_eq_of_lt small]
  · rw [written] at shape
    obtain ⟨rfl, rfl⟩ := List.cons.inj shape
    exact ⟨continued_digit value, Or.inr ⟨large, continued_high value, restFits, rfl⟩⟩

/-- A digit above the digits already collected. -/
theorem or_shiftLeft_eq_add {value digit shift : Nat} (below : value < 2 ^ shift) :
    value ||| (digit <<< shift) = value + digit * 2 ^ shift := by
  rw [Nat.shiftLeft_eq, Nat.or_comm, Nat.mul_comm digit,
    ← Nat.two_pow_add_eq_or_of_lt below, Nat.add_comm]

theorem vbWriteLoop_length_pos {turns value : Nat} :
    0 < (vbWriteLoop (turns + 1) value).length := by
  unfold vbWriteLoop
  split <;> simp

theorem vbWriteLoop_length_le (turns value : Nat) : (vbWriteLoop turns value).length ≤ turns := by
  induction turns generalizing value with
  | zero => simp [vbWriteLoop]
  | succ turns inductionHypothesis =>
      unfold vbWriteLoop
      split
      · simp
      · have := inductionHypothesis (value >>> 7)
        simp only [List.length_cons]
        omega

theorem encodePosting_length_pos (posting : Posting) : 2 ≤ (encodePosting posting).length := by
  have : 0 < (vbWriteLoop 10 posting.docId.toNat).length := vbWriteLoop_length_pos
  simp only [encodePosting, vbWrite, List.length_append, List.length_singleton]
  omega

theorem encodePosting_length_le (posting : Posting) : (encodePosting posting).length ≤ 11 := by
  have := vbWriteLoop_length_le 10 posting.docId.toNat
  simp only [encodePosting, vbWrite, List.length_append, List.length_singleton]
  omega

theorem encodePostings_length_ge (postings : List Posting) :
    2 * postings.length ≤ (encodePostings postings).length := by
  induction postings with
  | nil => simp
  | cons posting rest inductionHypothesis =>
      have := encodePosting_length_pos posting
      simp only [encodePostings_cons, List.length_append, List.length_cons]
      omega

theorem encodePostings_eq_nil_iff (postings : List Posting) :
    encodePostings postings = [] ↔ postings = [] := by
  constructor
  · intro empty
    have := encodePostings_length_ge postings
    rw [empty] at this
    exact List.length_eq_zero_iff.mp (by simpa using this)
  · rintro rfl
    rfl

theorem docId_lt (posting : Posting) : posting.docId.toNat < 128 ^ 10 := by
  have := posting.docId.toNat_lt
  omega

/-! ## The serializer's pair scanner -/

/-- The inner `readOne` of the scanners: bytes up to and including the first
one without the high bit; `none` when the data ends before it. -/
def readOne : Bytes → Option Nat
  | [] => none
  | byte :: rest => if byte &&& 0x80 = 0 then some 1 else (readOne rest).map (· + 1)

/-- `ReadVbcPairEnd` on the data from the cursor on: the length of the first
(docID, tf byte) pair, `none` when the data ends inside it. -/
def readVbcPairEnd (data : Bytes) : Option Nat :=
  match readOne data with
  | none => none
  | some docBytes => if docBytes ≥ data.length then none else some (docBytes + 1)

/-- The loop of `PostingPrefixBytes`. `rest` is the data from the cursor on. -/
def postingPrefixLoop : (turns : Nat) → (rest : Bytes) → (cursor limit lastPairEnd : Nat) → Nat
  | 0, _, _, _, lastPairEnd => lastPairEnd
  | turns + 1, rest, cursor, limit, lastPairEnd =>
      if cursor < limit then
        match readVbcPairEnd rest with
        | none => lastPairEnd
        | some pairBytes =>
            if cursor + pairBytes > limit then lastPairEnd
            else
              postingPrefixLoop turns (rest.drop pairBytes) (cursor + pairBytes) limit
                (cursor + pairBytes)
      else lastPairEnd

/-- `PostingPrefixBytes`: the largest boundary between complete pairs within
`capacity`. The cursor grows at every turn, so `data.length` turns suffice. -/
def postingPrefixBytes (data : Bytes) (capacity : Nat) : Nat :=
  postingPrefixLoop data.length data 0 (min data.length capacity) 0

theorem readOne_vbWriteLoop {turns value : Nat} (fits : value < 128 ^ turns) (tail : Bytes)
    (positive : 0 < turns) :
    readOne (vbWriteLoop turns value ++ tail) = some (vbWriteLoop turns value).length := by
  induction turns generalizing value with
  | zero => omega
  | succ turns inductionHypothesis =>
      rcases vbWriteLoop_cases fits with ⟨small, shape⟩ | ⟨large, restFits, shape⟩
      · simp [shape, readOne, final_low small]
      · have high := continued_high value
        have turnsPositive : 0 < turns := by
          rcases Nat.eq_zero_or_pos turns with zero | positive
          · rw [zero] at restFits
            omega
          · exact positive
        rw [shape, List.cons_append, readOne, if_neg high,
          inductionHypothesis restFits turnsPositive]
        simp

theorem readVbcPairEnd_encodePosting (posting : Posting) (tail : Bytes) :
    readVbcPairEnd (encodePosting posting ++ tail) = some (encodePosting posting).length := by
  have scanned := readOne_vbWriteLoop (docId_lt posting) (posting.tf8 :: tail) (by decide)
  simp only [encodePosting, vbWrite, List.append_assoc, List.singleton_append,
    readVbcPairEnd, scanned, List.length_append, List.length_cons]
  rw [if_neg (by omega)]
  simp

/-- Every boundary the loop can stop at is a boundary between two postings of
the list, and it stops at the last one within the limit. -/
theorem postingPrefixLoop_encode {turns : Nat} {postings : List Posting} {cursor limit : Nat}
    (enough : postings.length ≤ turns)
    (within : cursor ≤ limit) (inside : limit ≤ cursor + (encodePostings postings).length) :
    ∃ taken, taken ≤ postings.length ∧
      postingPrefixLoop turns (encodePostings postings) cursor limit cursor =
        cursor + (encodePostings (postings.take taken)).length ∧
      cursor + (encodePostings (postings.take taken)).length ≤ limit ∧
      (taken < postings.length →
        limit < cursor + (encodePostings (postings.take (taken + 1))).length) := by
  induction turns generalizing postings cursor with
  | zero =>
      have empty : postings = [] := List.length_eq_zero_iff.mp (by omega)
      subst empty
      exact ⟨0, by simp, by simp [postingPrefixLoop], by simpa using within, by simp⟩
  | succ turns inductionHypothesis =>
      cases postings with
      | nil =>
          refine ⟨0, by simp, ?_, by simpa using within, by simp⟩
          have atLimit : ¬ cursor < limit := by
            simp only [encodePostings_nil, List.length_nil] at inside
            omega
          rw [postingPrefixLoop, if_neg atLimit]
          simp
      | cons posting rest =>
          have pairPositive := encodePosting_length_pos posting
          by_cases before : cursor < limit
          · rw [postingPrefixLoop, if_pos before, encodePostings_cons,
              readVbcPairEnd_encodePosting]
            dsimp only
            by_cases past : cursor + (encodePosting posting).length > limit
            · rw [if_pos past]
              exact ⟨0, by simp, by simp, by simpa using within, by simpa using past⟩
            · rw [if_neg past, List.drop_left]
              have insideRest : limit ≤ cursor + (encodePosting posting).length +
                  (encodePostings rest).length := by
                simpa [Nat.add_assoc] using inside
              obtain ⟨taken, bound, value, fits, maximal⟩ :=
                inductionHypothesis (by simpa using enough) (by omega) insideRest
              refine ⟨taken + 1, by simpa using bound, ?_, ?_, ?_⟩
              · rw [value]
                simp [Nat.add_assoc]
              · simpa [Nat.add_assoc] using fits
              · intro more
                have := maximal (by simpa using more)
                simpa [Nat.add_assoc] using this
          · refine ⟨0, by simp, ?_, by simpa using within, ?_⟩
            · rw [postingPrefixLoop, if_neg before]
              simp
            · intro _
              simp only [List.take_succ_cons, encodePostings_cons, List.length_append]
              omega

/-- The split point of an encoded list: the longest run of whole postings that
fits the capacity. -/
theorem postingPrefixBytes_encode (postings : List Posting) (capacity : Nat) :
    ∃ taken, taken ≤ postings.length ∧
      postingPrefixBytes (encodePostings postings) capacity =
        (encodePostings (postings.take taken)).length ∧
      (encodePostings (postings.take taken)).length ≤ capacity ∧
      (taken < postings.length →
        capacity < (encodePostings (postings.take (taken + 1))).length) := by
  have lengthGe := encodePostings_length_ge postings
  have inside : min (encodePostings postings).length capacity ≤
      0 + (encodePostings postings).length := by omega
  have enough : postings.length ≤ (encodePostings postings).length := by omega
  obtain ⟨taken, bound, value, fits, maximal⟩ :=
    postingPrefixLoop_encode enough (Nat.zero_le _) inside
  simp only [Nat.zero_add] at value fits maximal
  refine ⟨taken, bound, value, by omega, ?_⟩
  intro more
  have next := maximal more
  have nextLe : (encodePostings (postings.take (taken + 1))).length ≤
      (encodePostings postings).length := by
    conv_rhs => rw [← List.take_append_drop (taken + 1) postings, encodePostings_append]
    simp
  omega

/-! ## Last document id of a run of pairs -/

/-- The loop of `VbRead` on the data from the start position on: the value and
the number of bytes read. Shifts and values wrap at 64 bits. -/
def vbReadLoop : Bytes → (shift value : Nat) → Nat × Nat
  | [], _, value => (value, 0)
  | byte :: rest, shift, value =>
      let value := value ||| (((byte &&& 0x7F).toNat <<< (shift % 64)) % 2 ^ 64)
      if byte &&& 0x80 = 0 then (value, 1)
      else
        let (final, count) := vbReadLoop rest (shift + 7) value
        (final, count + 1)

/-- `VbRead`. -/
def vbRead (data : Bytes) : Nat × Nat := vbReadLoop data 0 0

/-- The loop of the serializer's `MaxDocIDInPairs`. -/
def maxDocIdLoop : (turns : Nat) → (rest : Bytes) → (maxDocId : Nat) → Nat
  | 0, _, maxDocId => maxDocId
  | turns + 1, rest, maxDocId =>
      if rest = [] then maxDocId
      else
        let (docId, docBytes) := vbRead rest
        if docBytes ≥ rest.length then maxDocId
        else maxDocIdLoop turns (rest.drop (docBytes + 1)) docId

/-- `MaxDocIDInPairs` of the serializer. -/
def maxDocIdInPairs (data : Bytes) : Nat := maxDocIdLoop data.length data 0

/-! ### Arithmetic of one digit -/

private theorem digits_power (shift : Nat) : 2 ^ (shift + 7) = 128 * 2 ^ shift := by
  rw [Nat.pow_add, Nat.mul_comm]

theorem digits_bound {written shift : Nat} (bound : written * 2 ^ shift < 2 ^ 64) :
    written / 128 * 2 ^ (shift + 7) < 2 ^ 64 := by
  rw [digits_power]
  calc written / 128 * (128 * 2 ^ shift) = written / 128 * 128 * 2 ^ shift := by ring
    _ ≤ written * 2 ^ shift := Nat.mul_le_mul_right _ (Nat.div_mul_le_self _ _)
    _ < 2 ^ 64 := bound

/-- A nonzero digit leaves its shift below the word size. -/
theorem digits_room {digits shift : Nat} (positive : 1 ≤ digits)
    (bound : digits * 2 ^ shift < 2 ^ 64) : shift < 64 := by
  by_contra beyond
  have : 2 ^ 64 ≤ 2 ^ shift := Nat.pow_le_pow_right (by decide) (by omega)
  have : 2 ^ shift ≤ digits * 2 ^ shift := Nat.le_mul_of_pos_left _ positive
  omega

theorem digits_below {value shift : Nat} (below : value < 2 ^ shift) (written : Nat) :
    value + written % 128 * 2 ^ shift < 2 ^ (shift + 7) := by
  rw [digits_power]
  have : written % 128 * 2 ^ shift ≤ 127 * 2 ^ shift := Nat.mul_le_mul_right _ (by omega)
  omega

theorem digits_sum (value written shift : Nat) :
    value + written % 128 * 2 ^ shift + written / 128 * 2 ^ (shift + 7) =
      value + written * 2 ^ shift := by
  have split : written = written % 128 + 128 * (written / 128) := by omega
  rw [digits_power, Nat.add_assoc]
  congr 1
  conv_rhs => rw [split, Nat.add_mul]
  ring

/-- Reading back a written value: the digits below `shift` are already in
`value`. -/
theorem vbReadLoop_vbWriteLoop {turns written shift value : Nat}
    (fits : written < 128 ^ turns) (positive : 0 < turns) (room : shift < 64)
    (bound : written * 2 ^ shift < 2 ^ 64) (below : value < 2 ^ shift) (tail : Bytes) :
    vbReadLoop (vbWriteLoop turns written ++ tail) shift value =
      (value + written * 2 ^ shift, (vbWriteLoop turns written).length) := by
  induction turns generalizing written shift value with
  | zero => omega
  | succ turns inductionHypothesis =>
      have shiftMod : shift % 64 = shift := Nat.mod_eq_of_lt room
      have join : ∀ digit, digit * 2 ^ shift < 2 ^ 64 →
          value ||| ((digit <<< shift) % 2 ^ 64) = value + digit * 2 ^ shift := by
        intro digit digitBound
        rw [Nat.mod_eq_of_lt (by rwa [Nat.shiftLeft_eq]), or_shiftLeft_eq_add below]
      rcases vbWriteLoop_cases fits with ⟨small, shape⟩ | ⟨large, restFits, shape⟩
      · rw [shape, List.singleton_append, vbReadLoop, if_pos (final_low small), shiftMod,
          final_digit small, join _ bound]
        rfl
      · have high := continued_high written
        have digit := continued_digit written
        have digitBound : written % 128 * 2 ^ shift < 2 ^ 64 :=
          lt_of_le_of_lt (Nat.mul_le_mul_right _ (Nat.mod_le _ _)) bound
        have turnsPositive : 0 < turns := by
          rcases Nat.eq_zero_or_pos turns with zero | positive
          · rw [zero] at restFits
            omega
          · exact positive
        have nextBound := digits_bound bound
        have nextRoom : shift + 7 < 64 := digits_room (by omega) nextBound
        have nextBelow := digits_below below written
        rw [shape, List.cons_append, vbReadLoop, if_neg high, shiftMod, digit,
          join _ digitBound, inductionHypothesis restFits turnsPositive nextRoom nextBound
            nextBelow]
        refine Prod.ext ?_ ?_
        · exact digits_sum value written shift
        · simp

theorem vbRead_encodePosting (posting : Posting) (tail : Bytes) :
    vbRead (encodePosting posting ++ tail) =
      (posting.docId.toNat, (vbWrite posting.docId).length) := by
  have bound : posting.docId.toNat * 2 ^ 0 < 2 ^ 64 := by simpa using posting.docId.toNat_lt
  have below : 0 < 2 ^ 0 := by decide
  have read := vbReadLoop_vbWriteLoop (docId_lt posting) (by decide) (by decide) bound below
    (posting.tf8 :: tail)
  simp only [encodePosting, vbWrite, List.append_assoc, List.singleton_append, vbRead]
  rw [read]
  simp

theorem maxDocIdLoop_encode {turns : Nat} {postings : List Posting} {maxDocId : Nat}
    (enough : postings.length ≤ turns) :
    maxDocIdLoop turns (encodePostings postings) maxDocId =
      (postings.getLast?.map fun posting => posting.docId.toNat).getD maxDocId := by
  induction turns generalizing postings maxDocId with
  | zero =>
      have empty : postings = [] := List.length_eq_zero_iff.mp (by omega)
      subst empty
      rfl
  | succ turns inductionHypothesis =>
      cases postings with
      | nil => simp [maxDocIdLoop]
      | cons posting rest =>
          have nonempty : encodePosting posting ++ encodePostings rest ≠ [] := by
            have := encodePosting_length_pos posting
            intro empty
            rw [List.append_eq_nil_iff] at empty
            rw [empty.1] at this
            simp at this
          have pairLength : (encodePosting posting).length = (vbWrite posting.docId).length + 1 := by
            simp [encodePosting]
          rw [encodePostings_cons, maxDocIdLoop, if_neg nonempty, vbRead_encodePosting]
          dsimp only
          rw [if_neg (by rw [List.length_append]; omega), ← pairLength, List.drop_left,
            inductionHypothesis (by simpa using enough)]
          cases rest with
          | nil => rfl
          | cons next rest => simp [List.getLast?_cons]

/-- On a nonempty run of whole pairs `MaxDocIDInPairs` is the last document id. -/
theorem maxDocIdInPairs_encode (postings : List Posting) (last : Posting) :
    maxDocIdInPairs (encodePostings (postings ++ [last])) = last.docId.toNat := by
  have lengthGe := encodePostings_length_ge (postings ++ [last])
  rw [maxDocIdInPairs, maxDocIdLoop_encode (by omega)]
  simp

end MoonShot.Postings
