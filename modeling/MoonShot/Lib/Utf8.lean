import MoonShot.Lib.Bytes

/-!
UTF-8 text as bytes.

Owns well-formedness of a byte string (the table of well-formed byte sequences
of the Unicode standard), the type of well-formed strings, their bytewise
lexicographic order, concatenation, the cut of a string before its first NUL
byte, the cuts around its first and its last byte of an ASCII kind, its pieces
between such bytes and its longest front within a number of bytes.

Does not own scalar values or any case mapping.
-/

namespace MoonShot.Lib

/-! ## Well-formedness -/

/-- A trailing byte of a multi-byte sequence. -/
def utf8Trail (byte : UInt8) : Bool := 0x80 ≤ byte.toNat && byte.toNat ≤ 0xBF

/-- First byte of a two-byte sequence. -/
def utf8Lead2 (first : UInt8) : Bool := 0xC2 ≤ first.toNat && first.toNat ≤ 0xDF

/-- First two bytes of a three-byte sequence: no overlong form, no surrogate. -/
def utf8Lead3 (first second : UInt8) : Bool :=
  (first.toNat == 0xE0 && 0xA0 ≤ second.toNat && second.toNat ≤ 0xBF) ||
  (0xE1 ≤ first.toNat && first.toNat ≤ 0xEC && utf8Trail second) ||
  (first.toNat == 0xED && 0x80 ≤ second.toNat && second.toNat ≤ 0x9F) ||
  (0xEE ≤ first.toNat && first.toNat ≤ 0xEF && utf8Trail second)

/-- First two bytes of a four-byte sequence: no overlong form, nothing past U+10FFFF. -/
def utf8Lead4 (first second : UInt8) : Bool :=
  (first.toNat == 0xF0 && 0x90 ≤ second.toNat && second.toNat ≤ 0xBF) ||
  (0xF1 ≤ first.toNat && first.toNat ≤ 0xF3 && utf8Trail second) ||
  (first.toNat == 0xF4 && 0x80 ≤ second.toNat && second.toNat ≤ 0x8F)

/-- The bytes form a sequence of well-formed scalar encodings. -/
def validUtf8 : Bytes → Bool
  | [] => true
  | first :: rest =>
      if first.toNat < 0x80 then validUtf8 rest
      else match rest with
        | [] => false
        | second :: rest =>
            if utf8Lead2 first && utf8Trail second then validUtf8 rest
            else match rest with
              | [] => false
              | third :: rest =>
                  if utf8Lead3 first second && utf8Trail third then validUtf8 rest
                  else match rest with
                    | [] => false
                    | fourth :: rest =>
                        utf8Lead4 first second && utf8Trail third && utf8Trail fourth &&
                          validUtf8 rest

theorem validUtf8_append {left right : Bytes} (leftValid : validUtf8 left = true)
    (rightValid : validUtf8 right = true) : validUtf8 (left ++ right) = true := by
  fun_induction validUtf8 left with
  | case1 => exact rightValid
  | case2 first rest ascii inductionHypothesis =>
      rw [List.cons_append, validUtf8.eq_def]
      simp only [if_pos ascii]
      exact inductionHypothesis leftValid
  | case3 => cases leftValid
  | case4 first notAscii second rest lead inductionHypothesis =>
      rw [List.cons_append, List.cons_append, validUtf8.eq_def]
      simp only [if_neg notAscii, if_pos lead]
      exact inductionHypothesis leftValid
  | case5 => cases leftValid
  | case6 first notAscii second notLead third rest lead inductionHypothesis =>
      rw [List.cons_append, List.cons_append, List.cons_append, validUtf8.eq_def]
      simp only [if_neg notAscii, if_neg notLead, if_pos lead]
      exact inductionHypothesis leftValid
  | case7 => cases leftValid
  | case8 first notAscii second notLead third notLead3 fourth rest inductionHypothesis =>
      rw [Bool.and_eq_true] at leftValid
      rw [List.cons_append, List.cons_append, List.cons_append, List.cons_append,
        validUtf8.eq_def]
      simp only [if_neg notAscii, if_neg notLead, if_neg notLead3, leftValid.1, Bool.true_and]
      exact inductionHypothesis leftValid.2

/-- An ASCII byte is a scalar encoding of its own, so what stands before it and
what stands behind it are well formed on their own. -/
theorem validUtf8_split_ascii {left right : Bytes} {byte : UInt8} (isAscii : byte.toNat < 0x80)
    (valid : validUtf8 (left ++ byte :: right) = true) :
    validUtf8 left = true ∧ validUtf8 right = true := by
  -- An ASCII byte can only stand where a sequence starts.
  have notTrail : utf8Trail byte = false := by
    simp only [utf8Trail, Bool.and_eq_false_iff, decide_eq_false_iff_not]
    omega
  have notSecond3 : ∀ first, utf8Lead3 first byte = false := by
    intro first
    simp only [utf8Lead3, notTrail, Bool.and_false, Bool.or_false, Bool.or_eq_false_iff,
      Bool.and_eq_false_iff, beq_eq_false_iff_ne, decide_eq_false_iff_not]
    omega
  have notSecond4 : ∀ first, utf8Lead4 first byte = false := by
    intro first
    simp only [utf8Lead4, notTrail, Bool.and_false, Bool.or_false, Bool.or_eq_false_iff,
      Bool.and_eq_false_iff, beq_eq_false_iff_ne, decide_eq_false_iff_not]
    omega
  fun_induction validUtf8 left with
  | case1 =>
      rw [List.nil_append, validUtf8.eq_def] at valid
      simp only [if_pos isAscii] at valid
      exact ⟨rfl, valid⟩
  | case2 first rest ascii inductionHypothesis =>
      rw [List.cons_append, validUtf8.eq_def] at valid
      simp only [if_pos ascii] at valid
      exact inductionHypothesis valid
  | case3 first notAscii =>
      rw [List.cons_append, List.nil_append, validUtf8.eq_def] at valid
      simp only [if_neg notAscii, notTrail, Bool.and_false, notSecond3, notSecond4,
        Bool.false_and] at valid
      cases right with
      | nil => simp at valid
      | cons third rest => cases rest <;> simp at valid
  | case4 first notAscii second rest lead inductionHypothesis =>
      rw [List.cons_append, List.cons_append, validUtf8.eq_def] at valid
      simp only [if_neg notAscii, if_pos lead] at valid
      exact inductionHypothesis valid
  | case5 first notAscii second notLead =>
      rw [List.cons_append, List.cons_append, List.nil_append, validUtf8.eq_def] at valid
      simp only [if_neg notAscii, if_neg notLead, notTrail, Bool.and_false,
        Bool.false_and] at valid
      cases right <;> simp at valid
  | case6 first notAscii second notLead third rest lead inductionHypothesis =>
      rw [List.cons_append, List.cons_append, List.cons_append, validUtf8.eq_def] at valid
      simp only [if_neg notAscii, if_neg notLead, if_pos lead] at valid
      exact inductionHypothesis valid
  | case7 first notAscii second notLead third notLead3 =>
      rw [List.cons_append, List.cons_append, List.cons_append, List.nil_append,
        validUtf8.eq_def] at valid
      simp only [if_neg notAscii, if_neg notLead, if_neg notLead3, notTrail, Bool.and_false,
        Bool.false_and] at valid
      cases valid
  | case8 first notAscii second notLead third notLead3 fourth rest inductionHypothesis =>
      rw [List.cons_append, List.cons_append, List.cons_append, List.cons_append,
        validUtf8.eq_def] at valid
      simp only [if_neg notAscii, if_neg notLead, if_neg notLead3] at valid
      rw [Bool.and_eq_true] at valid ⊢
      have parts := inductionHypothesis valid.2
      exact ⟨⟨valid.1, parts.1⟩, parts.2⟩

/-! ## The last byte of a kind -/

/-- `rfind`: the index of the last byte that passes the test. -/
def rfind (test : UInt8 → Bool) : Bytes → Option Nat
  | [] => none
  | byte :: rest =>
      match rfind test rest with
      | some index => some (index + 1)
      | none => if test byte then some 0 else none

theorem rfind_split {test : UInt8 → Bool} {data : Bytes} {index : Nat}
    (found : rfind test data = some index) :
    ∃ byte, test byte = true ∧ data = data.take index ++ byte :: data.drop (index + 1) := by
  induction data generalizing index with
  | nil => cases found
  | cons byte rest inductionHypothesis =>
      rw [rfind] at found
      cases later : rfind test rest with
      | some position =>
          rw [later] at found
          obtain rfl := Option.some.inj found
          obtain ⟨last, passes, split⟩ := inductionHypothesis later
          refine ⟨last, passes, ?_⟩
          rw [List.take_succ_cons, List.drop_succ_cons, List.cons_append, ← split]
      | none =>
          rw [later] at found
          dsimp only at found
          by_cases passes : test byte = true
          · rw [if_pos passes] at found
            obtain rfl := Option.some.inj found
            exact ⟨byte, passes, rfl⟩
          · rw [if_neg passes] at found
            cases found

theorem rfind_none {test : UInt8 → Bool} {data : Bytes} (found : rfind test data = none) :
    ∀ byte ∈ data, test byte = false := by
  induction data with
  | nil => simp
  | cons first rest inductionHypothesis =>
      rw [rfind] at found
      cases later : rfind test rest with
      | some position =>
          rw [later] at found
          cases found
      | none =>
          rw [later] at found
          intro byte member
          rcases List.mem_cons.mp member with rfl | behind
          · exact Bool.eq_false_iff.mpr fun passes => by simp [passes] at found
          · exact inductionHypothesis later byte behind

/-- No byte behind the last one of the kind is of the kind. -/
theorem rfind_last {test : UInt8 → Bool} {data : Bytes} {index : Nat}
    (found : rfind test data = some index) : ∀ byte ∈ data.drop (index + 1), test byte = false := by
  induction data generalizing index with
  | nil => cases found
  | cons first rest inductionHypothesis =>
      rw [rfind] at found
      cases later : rfind test rest with
      | some position =>
          rw [later] at found
          obtain rfl := Option.some.inj found
          exact inductionHypothesis later
      | none =>
          rw [later] at found
          have all := rfind_none later
          intro byte member
          exact all byte (List.mem_of_mem_drop (List.drop_succ_cons ▸ member))

/-! ## Pieces between bytes of a kind -/

/-- The nonempty pieces between the bytes that pass the test, where `current` is
what has been read of the next one. -/
def pieces (test : UInt8 → Bool) : (current : Bytes) → Bytes → List Bytes
  | current, [] => if current = [] then [] else [current]
  | current, byte :: rest =>
      if test byte then
        if current = [] then pieces test [] rest else current :: pieces test [] rest
      else pieces test (current ++ [byte]) rest

theorem pieces_valid {test : UInt8 → Bool} (ascii : ∀ byte, test byte = true → byte.toNat < 0x80)
    {current data piece : Bytes} (valid : validUtf8 (current ++ data) = true)
    (member : piece ∈ pieces test current data) : validUtf8 piece = true := by
  induction data generalizing current with
  | nil =>
      rw [pieces] at member
      split at member
      · cases member
      · rw [List.mem_singleton.mp member]
        simpa using valid
  | cons byte rest inductionHypothesis =>
      rw [pieces] at member
      by_cases separator : test byte = true
      · have parts := validUtf8_split_ascii (ascii byte separator) valid
        rw [if_pos separator] at member
        split at member
        · exact inductionHypothesis (by simpa using parts.2) member
        · rcases List.mem_cons.mp member with here | later
          · rw [here]
            exact parts.1
          · exact inductionHypothesis (by simpa using parts.2) later
      · rw [if_neg separator] at member
        exact inductionHypothesis (by simpa using valid) member

/-- A separator between two texts separates their pieces. -/
theorem pieces_append_cons {test : UInt8 → Bool} {byte : UInt8} (separates : test byte = true)
    (current left right : Bytes) :
    pieces test current (left ++ byte :: right) = pieces test current left ++ pieces test [] right := by
  induction left generalizing current with
  | nil =>
      by_cases empty : current = []
      · simp [pieces, separates, empty]
      · simp [pieces, separates, empty]
  | cons first rest inductionHypothesis =>
      rw [List.cons_append, pieces, pieces]
      split
      · split
        · exact inductionHypothesis []
        · rw [inductionHypothesis [], List.cons_append]
      · exact inductionHypothesis (current ++ [first])

/-! ## The longest well-formed front -/

/-- The first scalar encoding of a text takes one to four bytes. -/
theorem validUtf8_first {data : Bytes} (valid : validUtf8 data = true) (nonempty : data ≠ []) :
    ∃ width, 0 < width ∧ width ≤ 4 ∧ width ≤ data.length ∧
      validUtf8 (data.take width) = true := by
  fun_cases validUtf8 data with
  | case1 => exact absurd rfl nonempty
  | case2 first rest ascii =>
      exact ⟨1, by omega, by omega, by simp, by simp [validUtf8, ascii]⟩
  | case3 first notAscii => simp [validUtf8, notAscii] at valid
  | case4 first notAscii second rest lead =>
      exact ⟨2, by omega, by omega, by simp, by simp [validUtf8, notAscii, lead]⟩
  | case5 first notAscii second notLead => simp [validUtf8, notAscii, notLead] at valid
  | case6 first notAscii second notLead third rest lead =>
      exact ⟨3, by omega, by omega, by simp, by simp [validUtf8, notAscii, notLead, lead]⟩
  | case7 first notAscii second notLead third notLead3 =>
      simp [validUtf8, notAscii, notLead, notLead3] at valid
  | case8 first notAscii second notLead third notLead3 fourth rest =>
      rw [validUtf8.eq_def] at valid
      simp only [if_neg notAscii, if_neg notLead, if_neg notLead3] at valid
      rw [Bool.and_eq_true] at valid
      refine ⟨4, by omega, by omega, by simp, ?_⟩
      rw [List.take_succ_cons, List.take_succ_cons, List.take_succ_cons, List.take_succ_cons,
        List.take_zero, validUtf8.eq_def]
      simp only [if_neg notAscii, if_neg notLead, if_neg notLead3, valid.1, Bool.true_and]
      rfl

/-- The longest front within the limit that is well formed. -/
def longestFront : (limit : Nat) → Bytes → Bytes
  | 0, _ => []
  | limit + 1, data =>
      if validUtf8 (data.take (limit + 1)) then data.take (limit + 1) else longestFront limit data

theorem longestFront_valid (limit : Nat) (data : Bytes) :
    validUtf8 (longestFront limit data) = true := by
  induction limit with
  | zero => rfl
  | succ limit inductionHypothesis =>
      rw [longestFront]
      split
      · assumption
      · exact inductionHypothesis

/-- It is a front, and no well-formed front within the limit is longer. -/
theorem longestFront_longest (limit : Nat) (data : Bytes) :
    longestFront limit data <+: data ∧ (longestFront limit data).length ≤ limit ∧
      ∀ count, count ≤ limit → validUtf8 (data.take count) = true →
        (data.take count).length ≤ (longestFront limit data).length := by
  induction limit with
  | zero =>
      refine ⟨List.nil_prefix, Nat.le_refl _, ?_⟩
      intro count within _
      rw [Nat.le_zero.mp within]
      exact Nat.le_refl _
  | succ limit inductionHypothesis =>
      rw [longestFront]
      by_cases whole : validUtf8 (data.take (limit + 1)) = true
      · rw [if_pos whole]
        refine ⟨List.take_prefix _ _, by rw [List.length_take]; omega, ?_⟩
        intro count within _
        rw [List.length_take, List.length_take]
        omega
      · rw [if_neg whole]
        refine ⟨inductionHypothesis.1, Nat.le_succ_of_le inductionHypothesis.2.1, ?_⟩
        intro count within valid
        apply inductionHypothesis.2.2 count _ valid
        have notLimit : count ≠ limit + 1 := by
          intro same
          rw [same] at valid
          exact whole valid
        omega

/-- A front of at least four bytes holds the first scalar encoding. -/
theorem longestFront_ne_nil {limit : Nat} {data : Bytes} (valid : validUtf8 data = true)
    (nonempty : data ≠ []) (room : 4 ≤ limit) : longestFront limit data ≠ [] := by
  obtain ⟨width, positive, small, inside, front⟩ := validUtf8_first valid nonempty
  have longest := (longestFront_longest limit data).2.2 width (by omega) front
  rw [List.length_take] at longest
  intro empty
  rw [empty, List.length_nil] at longest
  omega

/-- A front that ends between two scalar encodings is the longest one. -/
theorem longestFront_of_valid {limit : Nat} {data : Bytes}
    (boundary : validUtf8 (data.take limit) = true) : longestFront limit data = data.take limit := by
  cases limit with
  | zero => rw [longestFront, List.take_zero]
  | succ limit => rw [longestFront, if_pos boundary]

/-! ## Strings -/

/-- A string: bytes known to be well-formed UTF-8. -/
structure Str where
  bytes : Bytes
  valid : validUtf8 bytes = true
deriving DecidableEq

theorem validUtf8_a : validUtf8 [0x61] = true := rfl

theorem validUtf8_b : validUtf8 [0x62] = true := rfl

theorem validUtf8_B : validUtf8 [0x42] = true := rfl

theorem validUtf8_T : validUtf8 [0x54] = true := rfl

namespace Str

theorem ext_bytes {left right : Str} (same : left.bytes = right.bytes) : left = right := by
  cases left
  cases right
  simpa using same

/-- Length in bytes. -/
def len (text : Str) : Nat := text.bytes.length

/-- `str::from_utf8`: the string with these bytes, if they are well formed. -/
def fromUtf8 (data : Bytes) : Option Str :=
  if valid : validUtf8 data = true then some ⟨data, valid⟩ else none

@[simp] theorem fromUtf8_bytes (text : Str) : fromUtf8 text.bytes = some text := by
  rw [fromUtf8, dif_pos text.valid]

theorem bytes_of_fromUtf8 {data : Bytes} {text : Str} (found : fromUtf8 data = some text) :
    text.bytes = data := by
  unfold fromUtf8 at found
  split at found
  · obtain rfl := Option.some.inj found
    rfl
  · cases found

def empty : Str := ⟨[], rfl⟩

def append (left right : Str) : Str :=
  ⟨left.bytes ++ right.bytes, validUtf8_append left.valid right.valid⟩

/-- Code units as naturals, the key of the bytewise order. -/
def codes (text : Str) : List Nat := text.bytes.map UInt8.toNat

theorem codes_injective : Function.Injective codes := by
  intro left right same
  apply ext_bytes
  exact List.map_injective_iff.mpr (fun _ _ equal => UInt8.toNat_inj.mp equal) same

/-- Strings compare as their bytes do, lexicographically. -/
instance : LinearOrder Str := LinearOrder.lift' codes codes_injective

/-- The string up to its first NUL byte. -/
def beforeNul (text : Str) : Str where
  bytes := text.bytes.takeWhile (· != 0)
  valid := by
    have split := List.takeWhile_append_dropWhile (p := (· != 0)) (l := text.bytes)
    cases rest : text.bytes.dropWhile (· != 0) with
    | nil =>
        rw [rest, List.append_nil] at split
        rw [split]
        exact text.valid
    | cons byte tail =>
        have isNul : byte = 0 := by
          have stopped := List.head?_dropWhile_not (· != 0) text.bytes
          rw [rest] at stopped
          simpa using stopped
        rw [rest, isNul] at split
        have valid := text.valid
        rw [← split] at valid
        exact (validUtf8_split_ascii (by decide) valid).1

/-- The parts of the string before and behind its last byte that passes an ASCII
test; `none` when no byte does. -/
def cutLast (text : Str) (test : UInt8 → Bool)
    (ascii : ∀ byte, test byte = true → byte.toNat < 0x80) : Option (Str × Str) :=
  match found : rfind test text.bytes with
  | none => none
  | some index =>
      have parts : validUtf8 (text.bytes.take index) = true ∧
          validUtf8 (text.bytes.drop (index + 1)) = true := by
        obtain ⟨byte, passes, split⟩ := rfind_split found
        have valid := text.valid
        rw [split] at valid
        exact validUtf8_split_ascii (ascii byte passes) valid
      some (⟨text.bytes.take index, parts.1⟩, ⟨text.bytes.drop (index + 1), parts.2⟩)

section CutLast

variable {text : Str} {test : UInt8 → Bool} (ascii : ∀ byte, test byte = true → byte.toNat < 0x80)

theorem cutLast_eq_none (found : rfind test text.bytes = none) : text.cutLast test ascii = none := by
  unfold cutLast
  split
  · rfl
  · rename_i index other
    rw [found] at other
    cases other

theorem cutLast_eq_some {index : Nat} (found : rfind test text.bytes = some index) :
    ∃ parts, text.cutLast test ascii = some parts ∧ parts.1.bytes = text.bytes.take index ∧
      parts.2.bytes = text.bytes.drop (index + 1) := by
  unfold cutLast
  split
  · rename_i other
    rw [found] at other
    cases other
  · rename_i position other
    rw [found] at other
    obtain rfl := Option.some.inj other
    exact ⟨_, rfl, rfl, rfl⟩

end CutLast

/-- The parts of the string before and behind its first byte that passes an ASCII
test; `none` when no byte does. -/
def cutFirst (text : Str) (test : UInt8 → Bool)
    (ascii : ∀ byte, test byte = true → byte.toNat < 0x80) : Option (Str × Str) :=
  match rest : text.bytes.dropWhile (fun byte => !test byte) with
  | [] => none
  | byte :: behind =>
      have parts : validUtf8 (text.bytes.takeWhile fun byte => !test byte) = true ∧
          validUtf8 behind = true := by
        have split := List.takeWhile_append_dropWhile (p := fun byte => !test byte)
          (l := text.bytes)
        have stopped := List.head?_dropWhile_not (fun byte => !test byte) text.bytes
        rw [rest] at split stopped
        have passes : test byte = true := by simpa using stopped
        have valid := text.valid
        rw [← split] at valid
        exact validUtf8_split_ascii (ascii byte passes) valid
      some (⟨text.bytes.takeWhile fun byte => !test byte, parts.1⟩, ⟨behind, parts.2⟩)

/-- The string behind its first byte when that is the given ASCII byte. -/
def stripFirst (text : Str) (byte : UInt8) (ascii : byte.toNat < 0x80) : Option Str :=
  match bytes : text.bytes with
  | [] => none
  | first :: rest =>
      if same : first = byte then
        some ⟨rest, by
          have valid := text.valid
          rw [bytes, same] at valid
          exact (validUtf8_split_ascii ascii
            (show validUtf8 ([] ++ byte :: rest) = true from valid)).2⟩
      else none

/-- The longest prefix of the string within the limit that is a string. -/
def longestPrefix (text : Str) (limit : Nat) : Str :=
  ⟨longestFront limit text.bytes, longestFront_valid limit text.bytes⟩

/-- The nonempty pieces between the bytes that pass an ASCII test. -/
def splitAt (text : Str) (test : UInt8 → Bool)
    (ascii : ∀ byte, test byte = true → byte.toNat < 0x80) : List Str :=
  (pieces test [] text.bytes).pmap Str.mk fun _ member =>
    pieces_valid ascii (by exact text.valid) member

theorem splitAt_bytes (text : Str) {test : UInt8 → Bool}
    (ascii : ∀ byte, test byte = true → byte.toNat < 0x80) :
    (text.splitAt test ascii).map Str.bytes = pieces test [] text.bytes := by
  unfold splitAt
  rw [List.map_pmap, List.pmap_eq_map, List.map_id']

/-- The string holds no NUL byte. -/
def NulFree (text : Str) : Prop := ∀ byte ∈ text.bytes, byte ≠ 0

instance (text : Str) : Decidable text.NulFree :=
  inferInstanceAs (Decidable (∀ byte ∈ text.bytes, byte ≠ 0))

theorem beforeNul_of_nulFree {text : Str} (free : text.NulFree) : text.beforeNul = text := by
  apply ext_bytes
  change text.bytes.takeWhile (· != 0) = text.bytes
  rw [List.takeWhile_eq_self_iff]
  intro byte member
  simpa using free byte member

end Str

end MoonShot.Lib
