import MoonShot.Lib.AssocMap
import MoonShot.Lib.Text

/-!
The query string of a request to the search service (`url_decode` and `parse_query`
of `shennong.rs`).

Owns both functions with every slice they take, the decoding and the encoding they are
to agree with, and the texts on which they do. A slice of three bytes from a percent
sign can end inside a character, and the integer parser takes a sign for a digit.

Does not own the request around the query.
-/

namespace MoonShot.Programs

open MoonShot.Lib

/-! ## Hexadecimal digits -/

def plus : UInt8 := 0x2B

def percent : UInt8 := 0x25

def space : UInt8 := 0x20

/-- `to_digit(16)` -/
def hexDigit (byte : UInt8) : Option Nat :=
  let code := byte.toNat
  if 0x30 ≤ code ∧ code ≤ 0x39 then some (code - 0x30)
  else if 0x61 ≤ code ∧ code ≤ 0x66 then some (code - 0x61 + 10)
  else if 0x41 ≤ code ∧ code ≤ 0x46 then some (code - 0x41 + 10)
  else none

/-- One more digit, unless the value leaves 8 bits. -/
def pushHexDigit (value : Nat) (byte : UInt8) : Option Nat :=
  (hexDigit byte).bind fun digit =>
    if value * 16 + digit < 256 then some (value * 16 + digit) else none

/-- `u8::from_str_radix(text, 16)`, which allows a plus sign in front of the digits. -/
def fromStrRadix16 (text : Bytes) : Option UInt8 :=
  match text with
  | [] => none
  | first :: rest =>
      if rest = [] ∧ (first = plus ∨ first = 0x2D) then none
      else ((if first = plus then rest else text).foldlM pushHexDigit 0).map UInt8.ofNat

/-! ## Decoding -/

/-- The loop of `url_decode`. -/
def urlDecodeLoop (input : Str) : (turns index : Nat) → (out : Bytes) → Checked Bytes
  | 0, _, _ => .error .unfinished
  | turns + 1, index, out =>
      if index < input.len then do
        let byte ← readByte input.bytes index
        if byte = plus then urlDecodeLoop input turns (index + 1) (out ++ [space])
        else if byte = percent ∧ index + 2 < input.len then do
          let hex ← input.slice (index + 1) (index + 3)
          match fromStrRadix16 hex with
          | some value => urlDecodeLoop input turns (index + 3) (out ++ [value])
          | none => urlDecodeLoop input turns (index + 1) (out ++ [byte])
        else urlDecodeLoop input turns (index + 1) (out ++ [byte])
      else .ok out

/-- `url_decode`. Every turn passes a byte. -/
def urlDecode (input : Str) : Checked Str :=
  (urlDecodeLoop input (input.len + 1) 0 []).map Str.fromUtf8Lossy

/-- A part of a query around its first `=`. -/
def keyAndValue (part : Str) : Str × Str :=
  (part.cutFirst (· == 0x3D) (by simp +contextual)).getD (part, Str.empty)

/-- The parts between the `&`, without the empty ones. -/
def queryParts (query : Str) : List Str := query.splitAt (· == 0x26) (by simp +contextual)

/-- `parse_query` -/
def parseQuery (query : Str) : Checked (AssocMap Str Str) :=
  (queryParts query).foldlM (fun values part => do
    let key ← urlDecode (keyAndValue part).1
    let value ← urlDecode (keyAndValue part).2
    pure (values.insert key value)) AssocMap.empty

/-! ## What decoding is to do -/

/-- The byte of two hexadecimal digits. -/
def hexPair (high low : UInt8) : Option UInt8 := do
  let high ← hexDigit high
  let low ← hexDigit low
  some (UInt8.ofNat (high * 16 + low))

/-- Plus signs become blanks, and a percent sign becomes one byte with the two bytes
behind it that are a pair; everything else is kept. -/
def decodeWith (pair : UInt8 → UInt8 → Option UInt8) : Bytes → Bytes
  | [] => []
  | [byte] => [if byte = plus then space else byte]
  | [byte, next] => (if byte = plus then space else byte) :: decodeWith pair [next]
  | byte :: high :: low :: rest =>
      if byte = plus then space :: decodeWith pair (high :: low :: rest)
      else if byte = percent then
        match pair high low with
        | some value => value :: decodeWith pair rest
        | none => byte :: decodeWith pair (high :: low :: rest)
      else byte :: decodeWith pair (high :: low :: rest)

/-- The decoding in which a percent sign stands for a byte with two digits behind it,
and for itself otherwise. -/
def decodedBytes (data : Bytes) : Bytes := decodeWith hexPair data

/-- Letters, digits and `-._~`. -/
def isUnreserved (byte : UInt8) : Bool :=
  let code := byte.toNat
  decide (0x30 ≤ code ∧ code ≤ 0x39) || decide (0x41 ≤ code ∧ code ≤ 0x5A) ||
    decide (0x61 ≤ code ∧ code ≤ 0x7A) || byte == 0x2D || byte == 0x2E || byte == 0x5F ||
    byte == 0x7E

/-- `percent_encode`: every byte as itself, if unreserved, or as two digits of either case
behind a percent sign. -/
inductive PercentEncoded : Bytes → Bytes → Prop where
  | nil : PercentEncoded [] []
  | unreserved {byte : UInt8} {text encoded : Bytes} (kept : isUnreserved byte = true)
      (rest : PercentEncoded text encoded) : PercentEncoded (byte :: text) (byte :: encoded)
  | escaped {byte high low : UInt8} {text encoded : Bytes} (digits : hexPair high low = some byte)
      (rest : PercentEncoded text encoded) :
      PercentEncoded (byte :: text) (percent :: high :: low :: encoded)

/-- No character goes on past the third byte from a percent sign. -/
def SlicesWhole (data : Bytes) : Prop :=
  ∀ index, data[index]? = some percent →
    ∀ next, data[index + 3]? = some next → utf8Trail next = false

/-- No percent sign has a plus sign and a digit behind it. -/
def Unsigned (data : Bytes) : Prop :=
  ∀ index, data[index]? = some percent → data[index + 1]? = some plus →
    ∀ low, data[index + 2]? = some low → hexDigit low = none

/-! ## Equations of the decoding -/

section Decoding

variable {pair : UInt8 → UInt8 → Option UInt8} {byte high low value : UInt8} {rest : Bytes}

theorem decodeWith_plain (notPercent : byte ≠ percent) :
    decodeWith pair (byte :: rest) =
      (if byte = plus then space else byte) :: decodeWith pair rest := by
  match rest with
  | [] => rfl
  | [next] => rfl
  | high :: low :: rest =>
      rw [decodeWith]
      split
      · rfl
      · rfl

theorem decodeWith_pair (found : pair high low = some value) :
    decodeWith pair (percent :: high :: low :: rest) = value :: decodeWith pair rest := by
  rw [decodeWith, if_neg (by decide), if_pos rfl, found]

/-- A percent sign without a pair is kept. -/
theorem decodeWith_percent (noPair : ∀ high low behind, rest = high :: low :: behind →
    pair high low = none) :
    decodeWith pair (percent :: rest) = percent :: decodeWith pair rest := by
  match rest with
  | [] => rfl
  | [next] => rfl
  | high :: low :: rest =>
      rw [decodeWith, if_neg (by decide), if_pos rfl, noPair high low rest rfl]

end Decoding

theorem slicesWhole_cons (byte : UInt8) (rest : Bytes) :
    SlicesWhole (byte :: rest) ↔
      (byte = percent → ∀ next, rest[2]? = some next → utf8Trail next = false) ∧
        SlicesWhole rest := by
  constructor
  · intro whole
    refine ⟨fun isPercent => whole 0 (congrArg some isPercent), ?_⟩
    intro index here
    exact whole (index + 1) here
  · rintro ⟨atHead, behind⟩ index here
    cases index with
    | zero => exact atHead (Option.some.inj here)
    | succ index => exact behind index here

theorem slicesWhole_plain {byte : UInt8} (notPercent : byte ≠ percent) (rest : Bytes) :
    SlicesWhole (byte :: rest) ↔ SlicesWhole rest := by
  rw [slicesWhole_cons]
  exact and_iff_right fun isPercent => absurd isPercent notPercent

/-! ## The loop -/

/-- What the loop reads of two bytes behind a percent sign. -/
def signedPair (high low : UInt8) : Option UInt8 := fromStrRadix16 [high, low]

theorem hexDigit_plus : hexDigit plus = none := by decide

theorem hexDigit_percent : hexDigit percent = none := by decide

theorem hexDigit_lt {byte : UInt8} {digit : Nat} (found : hexDigit byte = some digit) :
    digit < 16 := by
  unfold hexDigit at found
  dsimp only at found
  split at found
  · cases found
    omega
  · split at found
    · cases found
      omega
    · split at found
      · cases found
        omega
      · cases found

theorem pushHexDigit_first (byte : UInt8) : pushHexDigit 0 byte = hexDigit byte := by
  unfold pushHexDigit
  cases found : hexDigit byte with
  | none => rfl
  | some digit =>
      have bound := hexDigit_lt found
      rw [Option.bind_some, if_pos (by omega)]
      simp

/-- Two bytes are read as a pair of digits, or as a digit behind a plus sign. -/
theorem signedPair_eq (high low : UInt8) :
    signedPair high low =
      if high = plus then (hexDigit low).map UInt8.ofNat else hexPair high low := by
  have two : ¬ ([low] = [] ∧ (high = plus ∨ high = 0x2D)) := by simp
  unfold signedPair fromStrRadix16
  dsimp only
  rw [if_neg two]
  by_cases signed : high = plus
  · rw [if_pos signed, if_pos signed, List.foldlM_cons, pushHexDigit_first]
    cases hexDigit low <;> rfl
  · rw [if_neg signed, if_neg signed, List.foldlM_cons, pushHexDigit_first, hexPair]
    cases highFound : hexDigit high with
    | none => rfl
    | some highDigit =>
        have highBound := hexDigit_lt highFound
        cases lowFound : hexDigit low with
        | none => simp [pushHexDigit, lowFound]
        | some lowDigit =>
            have lowBound := hexDigit_lt lowFound
            have fits : highDigit * 16 + lowDigit < 256 := by omega
            simp [pushHexDigit, lowFound, fits]

/-- The bytes of a pair are no percent signs. -/
theorem signedPair_notPercent {high low value : UInt8} (found : signedPair high low = some value) :
    high ≠ percent ∧ low ≠ percent := by
  rw [signedPair_eq] at found
  constructor
  · rintro rfl
    simp [show percent ≠ plus by decide, hexPair, hexDigit_percent] at found
  · rintro rfl
    split at found
    · simp [hexDigit_percent] at found
    · simp [hexPair, hexDigit_percent] at found

/-- How the loop goes on from a position with this rest of the input. -/
def LoopOutcome (rest out : Bytes) (outcome : Checked Bytes) : Prop :=
  SlicesWhole rest ∧ outcome = .ok (out ++ decodeWith signedPair rest) ∨
    ¬ SlicesWhole rest ∧ outcome = .error .outOfBounds

/-- One byte written, and the rest of the rest. -/
theorem LoopOutcome.step {rest behind out : Bytes} {value : UInt8} {outcome : Checked Bytes}
    (goesOn : LoopOutcome behind (out ++ [value]) outcome)
    (same : SlicesWhole rest ↔ SlicesWhole behind)
    (written : decodeWith signedPair rest = value :: decodeWith signedPair behind) :
    LoopOutcome rest out outcome := by
  obtain ⟨whole, returned⟩ | ⟨cut, faulted⟩ := goesOn
  · refine Or.inl ⟨same.mpr whole, ?_⟩
    rw [returned, written, List.append_assoc, List.singleton_append]
  · exact Or.inr ⟨fun whole => cut (same.mp whole), faulted⟩

theorem isCharBoundary_iff {text : Str} {index : Nat} (positive : 0 < index)
    (inside : index ≤ text.len) :
    text.isCharBoundary index = true ↔
      ∀ next, text.bytes[index]? = some next → utf8Trail next = false := by
  unfold Str.isCharBoundary
  by_cases atEnd : index = text.len
  · have beyond : text.bytes[index]? = none :=
      List.getElem?_eq_none (Nat.le_of_eq atEnd.symm)
    rw [if_pos (Or.inr atEnd), beyond]
    simp
  · have before : index < text.bytes.length := Nat.lt_of_le_of_ne inside atEnd
    rw [if_neg (by omega), List.getElem?_eq_getElem before]
    simp

/-- Three bytes from a percent sign inside the input. -/
theorem slice_percent {input : Str} {index : Nat} {high low : UInt8} {rest : Bytes}
    (here : input.bytes.drop index = percent :: high :: low :: rest) :
    (∀ next, rest[0]? = some next → utf8Trail next = false) ∧
        input.slice (index + 1) (index + 3) = .ok [high, low] ∨
      ¬ (∀ next, rest[0]? = some next → utf8Trail next = false) ∧
        input.slice (index + 1) (index + 3) = .error .outOfBounds := by
  have lengths := congrArg List.length here
  simp only [List.length_drop, List.length_cons] at lengths
  have percentHere : input.bytes[index]? = some percent := by
    rw [← Nat.add_zero index, ← List.getElem?_drop, here]
    rfl
  have startsWhole := Str.isCharBoundary_succ percentHere (by decide)
  have inside : index + 3 ≤ input.len := by
    unfold Str.len
    omega
  have behind : input.bytes[index + 3]? = rest[0]? := by
    rw [← List.getElem?_drop, here]
    rfl
  have stops := @isCharBoundary_iff input (index + 3) (Nat.succ_pos _) inside
  rw [behind] at stops
  have bytes : slice input.bytes (index + 1) (index + 3 - (index + 1)) = [high, low] := by
    have width : index + 3 - (index + 1) = 2 := by omega
    rw [slice, width, ← List.drop_drop, here]
    rfl
  by_cases whole : ∀ next, rest[0]? = some next → utf8Trail next = false
  · refine Or.inl ⟨whole, ?_⟩
    rw [Str.slice, if_pos ⟨by omega, startsWhole, stops.mpr whole⟩, bytes]
  · refine Or.inr ⟨whole, ?_⟩
    rw [Str.slice, if_neg fun fits => whole (stops.mp fits.2.2)]

/-- A percent sign with whole characters up to the third byte behind it. -/
theorem slicesWhole_percent {rest : Bytes}
    (whole : ∀ next, rest[2]? = some next → utf8Trail next = false) :
    SlicesWhole (percent :: rest) ↔ SlicesWhole rest := by
  rw [slicesWhole_cons]
  exact and_iff_right fun _ => whole

theorem urlDecodeLoop_outcome {input : Str} {turns index : Nat} (out : Bytes)
    (enough : input.len < index + turns) (inside : index ≤ input.len) :
    LoopOutcome (input.bytes.drop index) out (urlDecodeLoop input turns index out) := by
  induction turns generalizing index out with
  | zero => omega
  | succ turns inductionHypothesis =>
      rw [urlDecodeLoop]
      by_cases before : index < input.len
      · have inBytes : index < input.bytes.length := before
        have here := List.drop_eq_getElem_cons inBytes
        have read : readByte input.bytes index = .ok input.bytes[index] := by
          rw [readByte, List.getElem?_eq_getElem inBytes]
        have next : ∀ value, LoopOutcome (input.bytes.drop (index + 1)) (out ++ [value])
            (urlDecodeLoop input turns (index + 1) (out ++ [value])) :=
          fun value => inductionHypothesis (out ++ [value]) (by omega) before
        have lengths : (input.bytes.drop (index + 1)).length = input.len - (index + 1) :=
          List.length_drop
        rw [if_pos before, read, ok_bind]
        generalize input.bytes[index] = byte at here ⊢
        by_cases isPlus : byte = plus
        · have notPercent : byte ≠ percent := by
            rw [isPlus]
            decide
          rw [if_pos isPlus, here]
          exact (next space).step (slicesWhole_plain notPercent _)
            (by rw [decodeWith_plain notPercent, if_pos isPlus])
        rw [if_neg isPlus]
        by_cases isPercent : byte = percent
        · subst isPercent
          rcases tail : input.bytes.drop (index + 1) with _ | ⟨high, _ | ⟨low, rest⟩⟩
          · rw [tail, List.length_nil] at lengths
            rw [if_neg (by omega), here]
            exact (next percent).step (slicesWhole_percent (by simp [tail]))
              (decodeWith_percent (by simp [tail]))
          · rw [tail, List.length_singleton] at lengths
            rw [if_neg (by omega), here]
            exact (next percent).step (slicesWhole_percent (by simp [tail]))
              (decodeWith_percent (by simp [tail]))
          · rw [tail, List.length_cons, List.length_cons] at lengths
            have whole := here
            rw [tail] at whole
            rw [if_pos ⟨rfl, by omega⟩]
            obtain ⟨onBoundary, sliced⟩ | ⟨offBoundary, faulted⟩ := slice_percent whole
            · rw [sliced, ok_bind]
              cases found : fromStrRadix16 [high, low] with
              | some value =>
                  have notPercent := signedPair_notPercent found
                  have goesOn := @inductionHypothesis (index + 3) (out ++ [value]) (by omega)
                    (by omega)
                  have behind : input.bytes.drop (index + 3) = rest := by
                    rw [← List.drop_drop, whole]
                    rfl
                  rw [behind] at goesOn
                  rw [whole]
                  refine goesOn.step ?_ (decodeWith_pair found)
                  rw [slicesWhole_percent onBoundary, slicesWhole_plain notPercent.1,
                    slicesWhole_plain notPercent.2]
              | none =>
                  have goesOn := next percent
                  rw [tail] at goesOn
                  rw [whole]
                  refine goesOn.step (slicesWhole_percent onBoundary) (decodeWith_percent ?_)
                  intro other another others same
                  obtain ⟨rfl, rfl, rfl⟩ := by simpa using same
                  exact found
            · rw [faulted, whole]
              refine Or.inr ⟨?_, rfl⟩
              rw [slicesWhole_cons]
              exact fun both => offBoundary (both.1 rfl)
        · rw [if_neg fun both => isPercent both.1, here]
          exact (next byte).step (slicesWhole_plain isPercent _)
            (by rw [decodeWith_plain isPercent, if_neg isPlus])
      · have ended : input.bytes.drop index = [] := List.drop_eq_nil_of_le (by
          unfold Str.len at before
          omega)
        rw [if_neg before, ended]
        exact Or.inl ⟨fun _ none => by simp at none, by simp [decodeWith]⟩

theorem urlDecode_of_whole {input : Str} (whole : SlicesWhole input.bytes) :
    urlDecode input = .ok (Str.fromUtf8Lossy (decodeWith signedPair input.bytes)) := by
  obtain ⟨-, returned⟩ | ⟨cut, -⟩ := @urlDecodeLoop_outcome input (input.len + 1) 0 []
    (by omega) (Nat.zero_le _)
  · rw [urlDecode, returned]
    rfl
  · exact absurd whole cut

/-- `url_decode` returns when no slice ends inside a character, and panics otherwise. -/
theorem urlDecode_returns_iff (input : Str) :
    (∃ text, urlDecode input = .ok text) ↔ SlicesWhole input.bytes := by
  constructor
  · rintro ⟨text, returned⟩
    by_contra cut
    obtain ⟨whole, -⟩ | ⟨-, faulted⟩ := @urlDecodeLoop_outcome input (input.len + 1) 0 []
      (by omega) (Nat.zero_le _)
    · exact cut whole
    · rw [urlDecode, faulted] at returned
      cases returned
  · exact fun whole => ⟨_, urlDecode_of_whole whole⟩

/-! ## Signs taken for digits -/

theorem unsigned_cons (byte : UInt8) (rest : Bytes) :
    Unsigned (byte :: rest) ↔
      (byte = percent → rest[0]? = some plus → ∀ low, rest[1]? = some low → hexDigit low = none) ∧
        Unsigned rest := by
  constructor
  · intro free
    refine ⟨fun isPercent => free 0 (congrArg some isPercent), ?_⟩
    intro index here
    exact free (index + 1) here
  · rintro ⟨atHead, behind⟩ index here
    cases index with
    | zero => exact atHead (Option.some.inj here)
    | succ index => exact behind index here

theorem unsigned_plain {byte : UInt8} (notPercent : byte ≠ percent) (rest : Bytes) :
    Unsigned (byte :: rest) ↔ Unsigned rest := by
  rw [unsigned_cons]
  exact and_iff_right fun isPercent => absurd isPercent notPercent

/-- A percent sign without a signed digit behind it. -/
theorem unsigned_percent {rest : Bytes}
    (free : rest[0]? = some plus → ∀ low, rest[1]? = some low → hexDigit low = none) :
    Unsigned (percent :: rest) ↔ Unsigned rest := by
  rw [unsigned_cons]
  exact and_iff_right fun _ => free

/-- The two decodings are the same, or a sign was taken for a digit and characters are
missing. -/
def DecodingsDiffer (data : Bytes) : Prop :=
  Unsigned data ∧ decodeWith signedPair data = decodedBytes data ∨
    ¬ Unsigned data ∧
      (decodeWith signedPair data).countP isAscii < (decodedBytes data).countP isAscii

theorem DecodingsDiffer.step {data rest : Bytes} {value : UInt8} (behind : DecodingsDiffer rest)
    (same : Unsigned data ↔ Unsigned rest)
    (signed : decodeWith signedPair data = value :: decodeWith signedPair rest)
    (plain : decodedBytes data = value :: decodedBytes rest) : DecodingsDiffer data := by
  obtain ⟨free, equal⟩ | ⟨taken, fewer⟩ := behind
  · refine Or.inl ⟨same.mpr free, ?_⟩
    rw [signed, plain, equal]
  · refine Or.inr ⟨fun free => taken (same.mp free), ?_⟩
    rw [signed, plain, List.countP_cons, List.countP_cons]
    omega

theorem DecodingsDiffer.le {data : Bytes} (differ : DecodingsDiffer data) :
    (decodeWith signedPair data).countP isAscii ≤ (decodedBytes data).countP isAscii := by
  obtain ⟨-, equal⟩ | ⟨-, fewer⟩ := differ
  · rw [equal]
  · exact Nat.le_of_lt fewer

/-- A digit behind a signed percent sign: the plain decoding writes the percent sign and
a blank in front of it. -/
theorem signed_fewer {low : UInt8} {digit : Nat} {rest : Bytes} (found : hexDigit low = some digit)
    (behind : DecodingsDiffer rest) : DecodingsDiffer (percent :: plus :: low :: rest) := by
  have notPercent : low ≠ percent := by
    rintro rfl
    rw [hexDigit_percent] at found
    cases found
  have signed : signedPair plus low = some (UInt8.ofNat digit) := by
    rw [signedPair_eq, if_pos rfl, found]
    rfl
  have noPair : ∀ high other others, plus :: low :: rest = high :: other :: others →
      hexPair high other = none := by
    intro high other others same
    obtain ⟨rfl, -⟩ := List.cons.inj same
    rw [hexPair, hexDigit_plus]
    rfl
  refine Or.inr ⟨?_, ?_⟩
  · rw [unsigned_cons]
    intro free
    have none := free.1 rfl rfl low rfl
    rw [found] at none
    cases none
  · have fewer := behind.le
    have plusPlain : plus ≠ percent := by decide
    rw [decodeWith_pair signed, decodedBytes, decodeWith_percent noPair,
      decodeWith_plain plusPlain, decodeWith_plain notPercent, if_pos rfl]
    rw [decodedBytes] at fewer
    have percentAscii : isAscii percent = true := by decide
    have spaceAscii : isAscii space = true := by decide
    simp only [List.countP_cons, percentAscii, spaceAscii, if_true]
    split <;> omega

theorem decodings_differ (data : Bytes) : DecodingsDiffer data := by
  induction length : data.length using Nat.strong_induction_on generalizing data with
  | _ size inductionHypothesis =>
      subst length
      match data with
      | [] => exact Or.inl ⟨fun _ none => by simp at none, by simp [decodedBytes, decodeWith]⟩
      | byte :: rest =>
          have behind := inductionHypothesis rest.length (Nat.lt_succ_self _) rest rfl
          by_cases isPercent : byte = percent
          · subst isPercent
            match rest with
            | [] => exact behind.step (unsigned_percent (by simp)) rfl rfl
            | [next] => exact behind.step (unsigned_percent (by simp)) rfl rfl
            | high :: low :: rest =>
                have farther := inductionHypothesis rest.length (by
                  simp only [List.length_cons]
                  omega) rest rfl
                have single : ∀ {pair : UInt8 → UInt8 → Option UInt8}, pair high low = none →
                    decodeWith pair (percent :: high :: low :: rest) =
                      percent :: decodeWith pair (high :: low :: rest) := by
                  intro pair none
                  refine decodeWith_percent ?_
                  intro other another others same
                  obtain ⟨rfl, rfl, rfl⟩ := by simpa using same
                  exact none
                by_cases signed : high = plus
                · subst signed
                  cases found : hexDigit low with
                  | some digit => exact signed_fewer found farther
                  | none =>
                      have signedNone : signedPair plus low = none := by
                        rw [signedPair_eq, if_pos rfl, found]
                        rfl
                      have plainNone : hexPair plus low = none := by
                        rw [hexPair, hexDigit_plus]
                        rfl
                      refine behind.step (unsigned_percent ?_) (single signedNone)
                        (single plainNone)
                      intro _ other same
                      obtain rfl := Option.some.inj same
                      exact found
                · have same : signedPair high low = hexPair high low := by
                    rw [signedPair_eq, if_neg signed]
                  have free : (high :: low :: rest)[0]? = some plus →
                      ∀ other, (high :: low :: rest)[1]? = some other →
                        hexDigit other = none :=
                    fun isPlus => absurd (Option.some.inj isPlus) signed
                  cases found : hexPair high low with
                  | none =>
                      exact behind.step (unsigned_percent free) (single (same.trans found))
                        (single found)
                  | some value =>
                      have notPercent := signedPair_notPercent (same.trans found)
                      refine farther.step ?_ (decodeWith_pair (same.trans found))
                        (decodeWith_pair found)
                      rw [unsigned_percent free, unsigned_plain notPercent.1,
                        unsigned_plain notPercent.2]
          · exact behind.step (unsigned_plain isPercent _) (decodeWith_plain isPercent)
              (decodeWith_plain isPercent)

/-- The percent signs are kept as they are to be when no sign is taken for a digit. -/
theorem lossy_decodings_eq_iff (data : Bytes) :
    Str.fromUtf8Lossy (decodeWith signedPair data) = Str.fromUtf8Lossy (decodedBytes data) ↔
      Unsigned data := by
  obtain ⟨free, equal⟩ | ⟨taken, fewer⟩ := decodings_differ data
  · exact iff_of_true (by rw [equal]) free
  · refine iff_of_false ?_ taken
    intro same
    have counts := congrArg (fun text => text.bytes.countP isAscii) same
    simp only [Str.fromUtf8Lossy, lossyBytes_ascii] at counts
    omega

/-- `url_decode` returns the decoded text when no slice ends inside a character and no sign
is taken for a digit, and only then. -/
theorem urlDecode_decodes_iff (input : Str) :
    urlDecode input = .ok (Str.fromUtf8Lossy (decodedBytes input.bytes)) ↔
      SlicesWhole input.bytes ∧ Unsigned input.bytes := by
  constructor
  · intro returned
    have whole := (urlDecode_returns_iff input).mp ⟨_, returned⟩
    rw [urlDecode_of_whole whole] at returned
    exact ⟨whole, (lossy_decodings_eq_iff _).mp (Except.ok.inj returned)⟩
  · rintro ⟨whole, free⟩
    rw [urlDecode_of_whole whole, (lossy_decodings_eq_iff _).mpr free]

/-! ## Encoded texts -/

theorem hexDigit_ascii {byte : UInt8} {digit : Nat} (found : hexDigit byte = some digit) :
    byte.toNat < 0x80 := by
  by_contra large
  have notDigit : hexDigit byte = none := by
    unfold hexDigit
    dsimp only
    rw [if_neg (by omega), if_neg (by omega), if_neg (by omega)]
  rw [notDigit] at found
  cases found

theorem hexPair_digits {high low value : UInt8} (found : hexPair high low = some value) :
    (∃ digit, hexDigit high = some digit) ∧ ∃ digit, hexDigit low = some digit := by
  rw [hexPair] at found
  cases highFound : hexDigit high with
  | none =>
      rw [highFound] at found
      cases found
  | some digit =>
      cases lowFound : hexDigit low with
      | none =>
          rw [highFound, lowFound] at found
          cases found
      | some other => exact ⟨⟨digit, rfl⟩, ⟨other, rfl⟩⟩

theorem isUnreserved_ascii {byte : UInt8} (kept : isUnreserved byte = true) :
    byte.toNat < 0x80 := by
  simp only [isUnreserved, Bool.or_eq_true, decide_eq_true_eq, beq_iff_eq,
    ← UInt8.toNat_inj] at kept
  have codes : (0x2D : UInt8).toNat = 0x2D ∧ (0x2E : UInt8).toNat = 0x2E ∧
      (0x5F : UInt8).toNat = 0x5F ∧ (0x7E : UInt8).toNat = 0x7E := by decide
  omega

namespace PercentEncoded

variable {text encoded : Bytes}

theorem ascii (writes : PercentEncoded text encoded) : ∀ byte ∈ encoded, byte.toNat < 0x80 := by
  induction writes with
  | nil => simp
  | unreserved kept _ inductionHypothesis =>
      intro byte member
      rcases List.mem_cons.mp member with rfl | later
      · exact isUnreserved_ascii kept
      · exact inductionHypothesis byte later
  | escaped digits _ inductionHypothesis =>
      obtain ⟨⟨_, high⟩, ⟨_, low⟩⟩ := hexPair_digits digits
      intro byte member
      simp only [List.mem_cons] at member
      rcases member with rfl | rfl | rfl | later
      · decide
      · exact hexDigit_ascii high
      · exact hexDigit_ascii low
      · exact inductionHypothesis byte later

theorem slicesWhole (writes : PercentEncoded text encoded) : SlicesWhole encoded := by
  intro index _ next here
  have small := writes.ascii next (List.mem_of_getElem? here)
  simp only [utf8Trail, Bool.and_eq_false_iff, decide_eq_false_iff_not]
  omega

theorem decoded (writes : PercentEncoded text encoded) : decodeWith signedPair encoded = text := by
  induction writes with
  | nil => rfl
  | @unreserved byte text encoded kept _ inductionHypothesis =>
      have notPercent : byte ≠ percent := by
        rintro rfl
        exact absurd kept (by decide)
      have notPlus : byte ≠ plus := by
        rintro rfl
        exact absurd kept (by decide)
      rw [decodeWith_plain notPercent, if_neg notPlus, inductionHypothesis]
  | @escaped byte high low text encoded digits _ inductionHypothesis =>
      have notPlus : high ≠ plus := by
        rintro rfl
        obtain ⟨⟨_, found⟩, -⟩ := hexPair_digits digits
        rw [hexDigit_plus] at found
        cases found
      have pair : signedPair high low = some byte := by
        rw [signedPair_eq, if_neg notPlus, digits]
      rw [decodeWith_pair pair, inductionHypothesis]

end PercentEncoded

/-- An encoded text decodes to itself. -/
theorem urlDecode_encoded {text encoded : Str} (writes : PercentEncoded text.bytes encoded.bytes) :
    urlDecode encoded = .ok text := by
  rw [urlDecode_of_whole writes.slicesWhole, writes.decoded, Str.fromUtf8Lossy_bytes]

/-! ## The parts of a query -/

theorem SlicesWhole.ofPart {data part : Bytes} (whole : SlicesWhole data) (isPart : part <:+: data) :
    SlicesWhole part := by
  obtain ⟨front, back, rfl⟩ := isPart
  have moved : ∀ {index : Nat} {byte : UInt8}, part[index]? = some byte →
      (front ++ part ++ back)[front.length + index]? = some byte := by
    intro index byte here
    obtain ⟨inside, -⟩ := List.getElem?_eq_some_iff.mp here
    rw [List.append_assoc, List.getElem?_append_right (Nat.le_add_right _ _),
      Nat.add_sub_cancel_left, List.getElem?_append_left inside]
    exact here
  intro index here next nextHere
  exact whole (front.length + index) (moved here) next (moved nextHere)

theorem pieces_infix {test : UInt8 → Bool} {current data piece : Bytes}
    (member : piece ∈ pieces test current data) : piece <:+: current ++ data := by
  induction data generalizing current with
  | nil =>
      rw [pieces] at member
      split at member
      · cases member
      · rw [List.mem_singleton.mp member, List.append_nil]
  | cons byte rest inductionHypothesis =>
      have later : piece ∈ pieces test [] rest → piece <:+: current ++ byte :: rest := by
        intro behind
        have inside := inductionHypothesis behind
        rw [List.nil_append] at inside
        exact inside.trans (List.IsSuffix.isInfix ⟨current ++ [byte], by simp⟩)
      rw [pieces] at member
      split at member
      · split at member
        · exact later member
        · rcases List.mem_cons.mp member with rfl | behind
          · exact (List.prefix_append _ _).isInfix
          · exact later behind
      · have inside := inductionHypothesis member
        rwa [List.append_assoc, List.singleton_append] at inside

/-- Both sides of a cut are part of the text. -/
theorem cutFirst_infix {text left right : Str} {test : UInt8 → Bool}
    {ascii : ∀ byte, test byte = true → byte.toNat < 0x80}
    (cut : text.cutFirst test ascii = some (left, right)) :
    left.bytes <:+: text.bytes ∧ right.bytes <:+: text.bytes := by
  unfold Str.cutFirst at cut
  split at cut
  · cases cut
  · rename_i byte behind rest
    obtain ⟨rfl, rfl⟩ := Prod.mk.inj (Option.some.inj cut)
    refine ⟨(List.takeWhile_prefix _).isInfix, ?_⟩
    have tail : behind <:+ byte :: behind := List.suffix_cons byte behind
    rw [← rest] at tail
    exact (tail.trans (List.dropWhile_suffix _)).isInfix

theorem keyAndValue_infix (part : Str) :
    (keyAndValue part).1.bytes <:+: part.bytes ∧ (keyAndValue part).2.bytes <:+: part.bytes := by
  unfold keyAndValue
  cases cut : part.cutFirst (· == 0x3D) (by simp +contextual) with
  | none => exact ⟨List.infix_rfl, List.nil_infix⟩
  | some sides => exact cutFirst_infix cut

theorem queryParts_infix {query part : Str} (member : part ∈ queryParts query) :
    part.bytes <:+: query.bytes := by
  have inside := List.mem_map_of_mem (f := Str.bytes) member
  rw [queryParts, Str.splitAt_bytes] at inside
  exact pieces_infix inside

/-- No slice in the key or the value of a part ends inside a character. -/
def PartWhole (part : Str) : Prop :=
  SlicesWhole (keyAndValue part).1.bytes ∧ SlicesWhole (keyAndValue part).2.bytes

theorem parts_whole {query : Str} (whole : SlicesWhole query.bytes) :
    ∀ part ∈ queryParts query, PartWhole part := by
  intro part member
  have inside := queryParts_infix member
  have sides := keyAndValue_infix part
  exact ⟨whole.ofPart (sides.1.trans inside), whole.ofPart (sides.2.trans inside)⟩

/-- A loop returns when all its turns do, if what a turn needs is the same in every state. -/
theorem foldlM_returns_iff {α β : Type} {turn : β → α → Checked β} {Fits : α → Prop}
    (each : ∀ state item, (∃ next, turn state item = .ok next) ↔ Fits item) (items : List α)
    (state : β) : (∃ final, items.foldlM turn state = .ok final) ↔ ∀ item ∈ items, Fits item := by
  induction items generalizing state with
  | nil => exact iff_of_true ⟨state, rfl⟩ (by simp)
  | cons item rest inductionHypothesis =>
      rw [List.foldlM_cons, List.forall_mem_cons]
      constructor
      · rintro ⟨final, returned⟩
        cases first : turn state item with
        | error fault =>
            rw [first] at returned
            cases returned
        | ok next =>
            rw [first, ok_bind] at returned
            exact ⟨(each state item).mp ⟨next, first⟩,
              (inductionHypothesis next).mp ⟨final, returned⟩⟩
      · rintro ⟨here, later⟩
        obtain ⟨next, first⟩ := (each state item).mpr here
        rw [first, ok_bind]
        exact (inductionHypothesis next).mpr later

/-- `parse_query` returns when no slice in a key or a value ends inside a character, and
panics otherwise. -/
theorem parseQuery_returns_iff (query : Str) :
    (∃ values, parseQuery query = .ok values) ↔ ∀ part ∈ queryParts query, PartWhole part := by
  refine foldlM_returns_iff ?_ _ _
  intro values part
  constructor
  · rintro ⟨next, returned⟩
    cases first : urlDecode (keyAndValue part).1 with
    | error fault =>
        rw [first] at returned
        cases returned
    | ok key =>
        cases second : urlDecode (keyAndValue part).2 with
        | error fault =>
            rw [first, ok_bind, second] at returned
            cases returned
        | ok value =>
            exact ⟨(urlDecode_returns_iff _).mp ⟨key, first⟩,
              (urlDecode_returns_iff _).mp ⟨value, second⟩⟩
  · rintro ⟨keyWhole, valueWhole⟩
    rw [urlDecode_of_whole keyWhole, ok_bind, urlDecode_of_whole valueWhole, ok_bind]
    exact ⟨_, rfl⟩

/-- What the service is to do with a query: `url_decode` and `parse_query` return, and a
percent sign without two digits behind it is kept. -/
def DecodesQuery (query : Str) : Prop :=
  (∃ text, urlDecode query = .ok text) ∧ (∃ values, parseQuery query = .ok values) ∧
    urlDecode query = .ok (Str.fromUtf8Lossy (decodedBytes query.bytes))

/-- A query is decoded as it is to be when no slice from a percent sign ends inside a
character and no percent sign has a plus sign and a digit behind it, and only then; each of
the two functions returns on the texts whose slices are whole; and an encoded text decodes
to itself. -/
theorem query_decoding (query : Str) :
    (DecodesQuery query ↔ SlicesWhole query.bytes ∧ Unsigned query.bytes) ∧
      ((∃ text, urlDecode query = .ok text) ↔ SlicesWhole query.bytes) ∧
      ((∃ values, parseQuery query = .ok values) ↔ ∀ part ∈ queryParts query, PartWhole part) ∧
      ∀ encoded : Str, PercentEncoded query.bytes encoded.bytes →
        urlDecode encoded = .ok query := by
  refine ⟨?_, urlDecode_returns_iff query, parseQuery_returns_iff query,
    fun encoded writes => urlDecode_encoded writes⟩
  constructor
  · intro decodes
    exact (urlDecode_decodes_iff query).mp decodes.2.2
  · intro fits
    have decoded := (urlDecode_decodes_iff query).mpr fits
    exact ⟨⟨_, decoded⟩, (parseQuery_returns_iff query).mpr (parts_whole fits.1), decoded⟩

/-- The text `%+f` decodes to one byte. -/
example : urlDecode ⟨[0x25, 0x2B, 0x66], by decide⟩ = .ok ⟨[0x0F], by decide⟩ := by decide

/-- The text `%aé`: the slice behind the percent sign ends inside the last character. -/
def slicedInside : Str := ⟨[0x25, 0x61, 0xC3, 0xA9], by decide⟩

theorem slicedInside_panics : urlDecode slicedInside = .error .outOfBounds ∧
    parseQuery slicedInside = .error .outOfBounds ∧ ¬ DecodesQuery slicedInside := by
  have faults : urlDecode slicedInside = .error .outOfBounds := by decide
  refine ⟨faults, rfl, ?_⟩
  rintro ⟨⟨text, returned⟩, -⟩
  rw [faults] at returned
  cases returned

end MoonShot.Programs
