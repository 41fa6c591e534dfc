import MoonShot.Lib.Checked
import MoonShot.Lib.Utf8

/-!
Reading bytes and text into each other.

Owns character boundaries, slices of a text, which fault off a boundary, and the
lossy conversion of bytes to a text: what it keeps, and that the result is a text.

Does not own scalar values.
-/

namespace MoonShot.Lib

/-! ## Character boundaries -/

/-- A well-formed text does not start with a trailing byte. -/
theorem validUtf8_head {byte : UInt8} {rest : Bytes} (valid : validUtf8 (byte :: rest) = true) :
    utf8Trail byte = false := by
  by_contra trail
  rw [Bool.not_eq_false] at trail
  have bounds : 0x80 ≤ byte.toNat ∧ byte.toNat ≤ 0xBF := by simpa [utf8Trail] using trail
  have notLead2 : utf8Lead2 byte = false := by
    simp only [utf8Lead2, Bool.and_eq_false_iff, decide_eq_false_iff_not]
    omega
  have notLead3 : ∀ second, utf8Lead3 byte second = false := by
    intro second
    simp only [utf8Lead3, Bool.or_eq_false_iff, Bool.and_eq_false_iff, beq_eq_false_iff_ne,
      decide_eq_false_iff_not]
    omega
  have notLead4 : ∀ second, utf8Lead4 byte second = false := by
    intro second
    simp only [utf8Lead4, Bool.or_eq_false_iff, Bool.and_eq_false_iff, beq_eq_false_iff_ne,
      decide_eq_false_iff_not]
    omega
  have notAscii : ¬ byte.toNat < 0x80 := by omega
  rw [validUtf8.eq_def] at valid
  rcases rest with _ | ⟨second, _ | ⟨third, _ | ⟨fourth, rest⟩⟩⟩ <;>
    simp [notAscii, notLead2, notLead3, notLead4] at valid

namespace Str

/-- `is_char_boundary` -/
def isCharBoundary (text : Str) (index : Nat) : Bool :=
  if index = 0 ∨ index = text.len then true
  else text.bytes[index]?.elim false fun byte => !utf8Trail byte

/-- `&text[start..stop]`, which faults out of the text and off a boundary. -/
def slice (text : Str) (start stop : Nat) : Checked Bytes :=
  if start ≤ stop ∧ text.isCharBoundary start ∧ text.isCharBoundary stop then
    .ok (Lib.slice text.bytes start (stop - start))
  else .error .outOfBounds

/-- There is a boundary behind an ASCII byte. -/
theorem isCharBoundary_succ {text : Str} {index : Nat} {byte : UInt8}
    (here : text.bytes[index]? = some byte) (ascii : byte.toNat < 0x80) :
    text.isCharBoundary (index + 1) = true := by
  obtain ⟨inside, same⟩ := List.getElem?_eq_some_iff.mp here
  unfold isCharBoundary
  split
  · rfl
  · rename_i notEnds
    have more : index + 1 < text.bytes.length := by
      have notEnd : index + 1 ≠ text.bytes.length := fun ends => notEnds (Or.inr ends)
      omega
    have split : text.bytes = text.bytes.take index ++ byte :: text.bytes.drop (index + 1) := by
      rw [← same, ← List.drop_eq_getElem_cons, List.take_append_drop]
    have valid := text.valid
    rw [split] at valid
    have behind := (validUtf8_split_ascii ascii valid).2
    rw [List.drop_eq_getElem_cons more] at behind
    rw [List.getElem?_eq_getElem more, Option.elim_some, validUtf8_head behind]
    rfl

end Str

/-! ## Lossy conversion -/

/-- U+FFFD -/
def replacementCharacter : Bytes := [0xEF, 0xBF, 0xBD]

/-- The bytes are one scalar encoding. -/
def isSequence : Bytes → Bool
  | [first] => decide (first.toNat < 0x80)
  | [first, second] => utf8Lead2 first && utf8Trail second
  | [first, second, third] => utf8Lead3 first second && utf8Trail third
  | [first, second, third, fourth] =>
      utf8Lead4 first second && utf8Trail third && utf8Trail fourth
  | _ => false

/-- The bytes are a front of a scalar encoding, but not a whole one. -/
def startsSequence : Bytes → Bool
  | [first] => decide (0xC2 ≤ first.toNat ∧ first.toNat ≤ 0xF4)
  | [first, second] => utf8Lead3 first second || utf8Lead4 first second
  | [first, second, third] => utf8Lead4 first second && utf8Trail third
  | _ => false

/-- A byte where no sequence is pending: what is written, and what is pending then. -/
def lossyFirst (byte : UInt8) : Bytes × Bytes :=
  if isSequence [byte] then ([byte], [])
  else if startsSequence [byte] then ([], [byte])
  else (replacementCharacter, [])

/-- A byte behind a pending front. -/
def lossyNext (pending : Bytes) (byte : UInt8) : Bytes × Bytes :=
  if isSequence (pending ++ [byte]) then (pending ++ [byte], [])
  else if startsSequence (pending ++ [byte]) then ([], pending ++ [byte])
  else (replacementCharacter ++ (lossyFirst byte).1, (lossyFirst byte).2)

def lossyLoop : (pending : Bytes) → Bytes → Bytes
  | pending, [] => if pending = [] then [] else replacementCharacter
  | pending, byte :: rest =>
      let step := if pending = [] then lossyFirst byte else lossyNext pending byte
      step.1 ++ lossyLoop step.2 rest

/-- The bytes of `String::from_utf8_lossy`: every longest front of a sequence that does
not go on becomes one replacement character, and so does every other stray byte. -/
def lossyBytes (data : Bytes) : Bytes := lossyLoop [] data

theorem lossyLoop_nil_cons (byte : UInt8) (rest : Bytes) :
    lossyLoop [] (byte :: rest) = (lossyFirst byte).1 ++ lossyLoop (lossyFirst byte).2 rest := rfl

theorem lossyLoop_cons_cons (first : UInt8) (pending : Bytes) (byte : UInt8) (rest : Bytes) :
    lossyLoop (first :: pending) (byte :: rest) =
      (lossyNext (first :: pending) byte).1 ++
        lossyLoop (lossyNext (first :: pending) byte).2 rest := rfl

theorem lossyFirst_starts {byte : UInt8} (notAscii : ¬ byte.toNat < 0x80)
    (starts : startsSequence [byte] = true) : lossyFirst byte = ([], [byte]) := by
  rw [lossyFirst, if_neg (by simpa [isSequence] using notAscii), if_pos starts]

theorem lossyNext_whole {pending : Bytes} {byte : UInt8}
    (whole : isSequence (pending ++ [byte]) = true) :
    lossyNext pending byte = (pending ++ [byte], []) := if_pos whole

theorem lossyNext_starts {pending : Bytes} {byte : UInt8}
    (notWhole : isSequence (pending ++ [byte]) = false)
    (starts : startsSequence (pending ++ [byte]) = true) :
    lossyNext pending byte = ([], pending ++ [byte]) := by
  rw [lossyNext, if_neg (by rw [notWhole]; decide), if_pos starts]

theorem lead2_starts {first : UInt8} (lead : utf8Lead2 first = true) :
    startsSequence [first] = true := by
  simp only [utf8Lead2, startsSequence, Bool.and_eq_true, decide_eq_true_eq] at lead ⊢
  omega

theorem lead3_starts {first second : UInt8} (lead : utf8Lead3 first second = true) :
    startsSequence [first] = true := by
  simp only [utf8Lead3, startsSequence, Bool.or_eq_true, Bool.and_eq_true, decide_eq_true_eq,
    beq_iff_eq] at lead ⊢
  omega

theorem lead4_starts {first second : UInt8} (lead : utf8Lead4 first second = true) :
    startsSequence [first] = true := by
  simp only [utf8Lead4, startsSequence, Bool.or_eq_true, Bool.and_eq_true, decide_eq_true_eq,
    beq_iff_eq] at lead ⊢
  omega

/-- A text is kept as it is. -/
theorem lossyBytes_of_valid {data : Bytes} (valid : validUtf8 data = true) :
    lossyBytes data = data := by
  unfold lossyBytes
  fun_induction validUtf8 data with
  | case1 => rfl
  | case2 first rest ascii inductionHypothesis =>
      have whole : isSequence [first] = true := decide_eq_true ascii
      rw [lossyLoop_nil_cons, lossyFirst, if_pos whole]
      exact congrArg (first :: ·) (inductionHypothesis valid)
  | case3 => cases valid
  | case4 first notAscii second rest lead inductionHypothesis =>
      have starts := lead2_starts (Bool.and_eq_true_iff.mp lead).1
      rw [lossyLoop_nil_cons, lossyFirst_starts notAscii starts, lossyLoop_cons_cons,
        @lossyNext_whole [first] second lead]
      exact congrArg ([first, second] ++ ·) (inductionHypothesis valid)
  | case5 => cases valid
  | case6 first notAscii second notLead third rest lead inductionHypothesis =>
      have lead3 := (Bool.and_eq_true_iff.mp lead).1
      have starts : startsSequence [first, second] = true := by
        rw [startsSequence, lead3, Bool.true_or]
      rw [lossyLoop_nil_cons, lossyFirst_starts notAscii (lead3_starts lead3),
        lossyLoop_cons_cons,
        @lossyNext_starts [first] second (Bool.eq_false_iff.mpr notLead) starts]
      dsimp only [List.nil_append, List.cons_append]
      rw [lossyLoop_cons_cons, @lossyNext_whole [first, second] third lead]
      exact congrArg ([first, second, third] ++ ·) (inductionHypothesis valid)
  | case7 => cases valid
  | case8 first notAscii second notLead third notLead3 fourth rest inductionHypothesis =>
      have parts := Bool.and_eq_true_iff.mp valid
      have lead := Bool.and_eq_true_iff.mp parts.1
      have lead4 := (Bool.and_eq_true_iff.mp lead.1).1
      have starts : startsSequence [first, second] = true := by
        rw [startsSequence, lead4, Bool.or_true]
      rw [lossyLoop_nil_cons, lossyFirst_starts notAscii (lead4_starts lead4),
        lossyLoop_cons_cons,
        @lossyNext_starts [first] second (Bool.eq_false_iff.mpr notLead) starts]
      dsimp only [List.nil_append, List.cons_append]
      rw [lossyLoop_cons_cons, @lossyNext_starts [first, second] third
        (Bool.eq_false_iff.mpr notLead3) lead.1]
      dsimp only [List.nil_append, List.cons_append]
      rw [lossyLoop_cons_cons, @lossyNext_whole [first, second, third] fourth parts.1]
      exact congrArg ([first, second, third, fourth] ++ ·) (inductionHypothesis parts.2)

/-! ### What is kept -/

/-- A byte that is a character of its own. -/
def isAscii (byte : UInt8) : Bool := decide (byte.toNat < 0x80)

/-- Nothing is pending, or a front of a sequence. -/
def Pending (pending : Bytes) : Prop := pending = [] ∨ startsSequence pending = true

theorem notAscii_of_starts {first : UInt8} (starts : startsSequence [first] = true) :
    ¬ first.toNat < 0x80 := by
  have bounds := of_decide_eq_true starts
  omega

theorem lead3_notLead2 {first second : UInt8} (lead : utf8Lead3 first second = true) :
    utf8Lead2 first = false := by
  simp only [utf8Lead3, utf8Lead2, Bool.or_eq_true, Bool.and_eq_true, decide_eq_true_eq,
    beq_iff_eq, Bool.and_eq_false_iff, decide_eq_false_iff_not] at lead ⊢
  omega

theorem lead4_notLead {first second : UInt8} (lead : utf8Lead4 first second = true) :
    utf8Lead2 first = false ∧ utf8Lead3 first second = false := by
  simp only [utf8Lead4, utf8Lead3, utf8Lead2, Bool.or_eq_true, Bool.and_eq_true,
    decide_eq_true_eq, beq_iff_eq, Bool.and_eq_false_iff, Bool.or_eq_false_iff,
    beq_eq_false_iff_ne, decide_eq_false_iff_not] at lead ⊢
  omega

theorem isSequence_valid : ∀ {data : Bytes}, isSequence data = true → validUtf8 data = true
  | [], whole => by cases whole
  | [first], whole => by simpa [validUtf8, isSequence] using whole
  | [first, second], whole => by
      have lead : (utf8Lead2 first && utf8Trail second) = true := whole
      have notAscii := notAscii_of_starts (lead2_starts (Bool.and_eq_true_iff.mp lead).1)
      rw [validUtf8, if_neg notAscii]
      exact if_pos lead
  | [first, second, third], whole => by
      have lead : (utf8Lead3 first second && utf8Trail third) = true := whole
      have lead3 := (Bool.and_eq_true_iff.mp lead).1
      have notAscii := notAscii_of_starts (lead3_starts lead3)
      simp [validUtf8, notAscii, lead3_notLead2 lead3, lead]
  | [first, second, third, fourth], whole => by
      have lead := Bool.and_eq_true_iff.mp (Bool.and_eq_true_iff.mp whole).1
      have notAscii := notAscii_of_starts (lead4_starts lead.1)
      have others := lead4_notLead lead.1
      simp [validUtf8, notAscii, others.1, others.2, lead.1, lead.2,
        (Bool.and_eq_true_iff.mp whole).2]
  | _ :: _ :: _ :: _ :: _ :: _, whole => by cases whole

theorem notAscii_of_second {first second : UInt8}
    (lead : (utf8Lead3 first second || utf8Lead4 first second) = true) :
    isAscii first = false ∧ isAscii second = false := by
  simp only [utf8Lead3, utf8Lead4, utf8Trail, isAscii, Bool.or_eq_true, Bool.and_eq_true,
    decide_eq_true_eq, beq_iff_eq, decide_eq_false_iff_not] at lead ⊢
  omega

theorem notAscii_of_trail {byte : UInt8} (trail : utf8Trail byte = true) :
    isAscii byte = false := by
  simp only [utf8Trail, isAscii, Bool.and_eq_true, decide_eq_true_eq,
    decide_eq_false_iff_not] at trail ⊢
  omega

/-- No byte of a front of a sequence is ASCII. -/
theorem startsSequence_ascii :
    ∀ {data : Bytes}, startsSequence data = true → data.countP isAscii = 0
  | [], starts => by cases starts
  | [first], starts => by
      have notAscii : isAscii first = false := decide_eq_false (notAscii_of_starts starts)
      simp [notAscii]
  | [first, second], starts => by
      have notAscii := notAscii_of_second starts
      simp [notAscii.1, notAscii.2]
  | [first, second, third], starts => by
      have parts := Bool.and_eq_true_iff.mp starts
      have notAscii := @notAscii_of_second first second (by rw [parts.1, Bool.or_true])
      simp [notAscii.1, notAscii.2, notAscii_of_trail parts.2]
  | _ :: _ :: _ :: _ :: _, starts => by cases starts

theorem lossyFirst_spec (byte : UInt8) :
    validUtf8 (lossyFirst byte).1 = true ∧ Pending (lossyFirst byte).2 ∧
      (lossyFirst byte).1.countP isAscii = [byte].countP isAscii := by
  unfold lossyFirst
  split
  · rename_i whole
    exact ⟨isSequence_valid whole, Or.inl rfl, rfl⟩
  · split
    · rename_i starts
      exact ⟨rfl, Or.inr starts, (startsSequence_ascii starts).symm⟩
    · rename_i notWhole _
      have notAscii : [byte].countP isAscii = 0 := by
        simpa [isSequence, isAscii] using notWhole
      exact ⟨by decide, Or.inl rfl, by rw [notAscii]; decide⟩

theorem lossyNext_spec {pending : Bytes} (starts : startsSequence pending = true) (byte : UInt8) :
    validUtf8 (lossyNext pending byte).1 = true ∧ Pending (lossyNext pending byte).2 ∧
      (lossyNext pending byte).1.countP isAscii = [byte].countP isAscii := by
  have kept := startsSequence_ascii starts
  have both : (pending ++ [byte]).countP isAscii = [byte].countP isAscii := by
    rw [List.countP_append, kept, Nat.zero_add]
  unfold lossyNext
  split
  · rename_i whole
    exact ⟨isSequence_valid whole, Or.inl rfl, both⟩
  · split
    · rename_i longer
      exact ⟨rfl, Or.inr longer, both.symm.trans (startsSequence_ascii longer) |>.symm⟩
    · obtain ⟨valid, next, count⟩ := lossyFirst_spec byte
      refine ⟨validUtf8_append (by decide) valid, next, ?_⟩
      rw [List.countP_append, count]
      exact Nat.zero_add _

theorem lossyLoop_spec {pending : Bytes} (front : Pending pending) (data : Bytes) :
    validUtf8 (lossyLoop pending data) = true ∧
      (lossyLoop pending data).countP isAscii = data.countP isAscii := by
  induction data generalizing pending with
  | nil =>
      rw [lossyLoop]
      split
      · exact ⟨rfl, rfl⟩
      · exact ⟨by decide, by decide⟩
  | cons byte rest inductionHypothesis =>
      have step : validUtf8 (if pending = [] then lossyFirst byte else lossyNext pending byte).1 =
            true ∧
          Pending (if pending = [] then lossyFirst byte else lossyNext pending byte).2 ∧
          (if pending = [] then lossyFirst byte else lossyNext pending byte).1.countP isAscii =
            [byte].countP isAscii := by
        split
        · exact lossyFirst_spec byte
        · rename_i nonempty
          exact lossyNext_spec (front.resolve_left nonempty) byte
      obtain ⟨valid, next, count⟩ := step
      obtain ⟨restValid, restCount⟩ := inductionHypothesis next
      rw [lossyLoop]
      refine ⟨validUtf8_append valid restValid, ?_⟩
      rw [List.countP_append, count, restCount, ← List.countP_append, List.singleton_append]

/-- The lossy conversion keeps the ASCII bytes. -/
theorem lossyBytes_ascii (data : Bytes) :
    (lossyBytes data).countP isAscii = data.countP isAscii :=
  (lossyLoop_spec (Or.inl rfl) data).2

namespace Str

/-- `String::from_utf8_lossy` -/
def fromUtf8Lossy (data : Bytes) : Str :=
  ⟨lossyBytes data, (lossyLoop_spec (Or.inl rfl) data).1⟩

theorem fromUtf8Lossy_bytes (text : Str) : fromUtf8Lossy text.bytes = text :=
  ext_bytes (lossyBytes_of_valid text.valid)

end Str

end MoonShot.Lib
