import MoonShot.Lib.Bytes
import MoonShot.Lib.Outcome

/-!
Computations that may fault.

Owns the faults of machine arithmetic, slices and assertions, the operations that
raise them, and the rules that show that a computation returns, with which result,
or that it stops at a fault. Sizes and offsets are natural numbers below 2 ^ 64.

A fault is not a result: a computation may also return an error of its own.
-/

namespace MoonShot.Lib

/-- What stops a computation without a result. `undeclared` is a read outside the
range that was declared for it, `unfinished` a loop with no turns left. -/
inductive Fault where
  | overflow
  | outOfBounds
  | zeroDivisor
  | assertion
  | undeclared
  | unfinished
deriving DecidableEq, Repr

/-- A value, or a fault. -/
abbrev Checked (α : Type) := Except Fault α

/-- A result with errors of its own, or a fault. -/
abbrev CheckedResult (ε α : Type) := ExceptT ε Checked α

/-! ## Operations -/

def addUsize (left right : Nat) : Checked Nat :=
  if left + right < 2 ^ 64 then .ok (left + right) else .error .overflow

def mulUsize (left right : Nat) : Checked Nat :=
  if left * right < 2 ^ 64 then .ok (left * right) else .error .overflow

def subUsize (left right : Nat) : Checked Nat :=
  if right ≤ left then .ok (left - right) else .error .overflow

def remUsize (left right : Nat) : Checked Nat :=
  if right = 0 then .error .zeroDivisor else .ok (left % right)

/-- A value of 64 bits with a sign. -/
def fitI64 (value : Int) : Checked Int :=
  if -2 ^ 63 ≤ value ∧ value < 2 ^ 63 then .ok value else .error .overflow

/-- `left << bits`, which faults on 64 bits and more. -/
def shlU64 (left : UInt64) (bits : Nat) : Checked UInt64 :=
  if bits < 64 then .ok (left <<< UInt64.ofNat bits) else .error .overflow

def addU32 (left right : UInt32) : Checked UInt32 :=
  if left.toNat + right.toNat < 2 ^ 32 then .ok (left + right) else .error .overflow

def addU64 (left right : UInt64) : Checked UInt64 :=
  if left.toNat + right.toNat < 2 ^ 64 then .ok (left + right) else .error .overflow

/-- `total + first + second + …`, from left to right. -/
def sumU32 : (total : UInt32) → List UInt32 → Checked UInt32
  | total, [] => .ok total
  | total, next :: rest => do
      let total ← addU32 total next
      sumU32 total rest

/-- `data[start..stop]` -/
def readSlice (data : Bytes) (start stop : Nat) : Checked Bytes :=
  if start ≤ stop ∧ stop ≤ data.length then .ok (slice data start (stop - start))
  else .error .outOfBounds

/-- `data[index]` -/
def readByte (data : Bytes) (index : Nat) : Checked UInt8 :=
  match data[index]? with
  | some byte => .ok byte
  | none => .error .outOfBounds

/-- `data[offset..offset + width]` -/
def readWidth (data : Bytes) (offset width : Nat) : Checked Bytes := do
  let stop ← addUsize offset width
  readSlice data offset stop

def readU16 (data : Bytes) (offset : Nat) : Checked UInt16 :=
  (readWidth data offset 2).map fun bytes => UInt16.ofNat (leNat bytes)

def readU32 (data : Bytes) (offset : Nat) : Checked UInt32 :=
  (readWidth data offset 4).map fun bytes => UInt32.ofNat (leNat bytes)

def readU64 (data : Bytes) (offset : Nat) : Checked UInt64 :=
  (readWidth data offset 8).map fun bytes => UInt64.ofNat (leNat bytes)

/-- `data[offset..offset + source.len()].copy_from_slice(source)` -/
def writeSlice (data : Bytes) (offset : Nat) (source : Bytes) : Checked Bytes :=
  if offset + source.length ≤ data.length then .ok (patch data offset source)
  else .error .outOfBounds

/-- `assert!` -/
def assert (condition : Prop) [Decidable condition] : Checked Unit :=
  if condition then .ok () else .error .assertion

theorem ok_bind {α β : Type} (value : α) (next : α → Checked β) :
    ((Except.ok value : Checked α) >>= next) = next value := rfl

/-! ### Operations in range -/

section InRange

variable {data : Bytes} {left right start stop offset width : Nat}

theorem addUsize_eq (fits : left + right < 2 ^ 64) : addUsize left right = .ok (left + right) :=
  if_pos fits

theorem mulUsize_eq (fits : left * right < 2 ^ 64) : mulUsize left right = .ok (left * right) :=
  if_pos fits

theorem subUsize_eq (fits : right ≤ left) : subUsize left right = .ok (left - right) := if_pos fits

theorem remUsize_eq (positive : 0 < right) : remUsize left right = .ok (left % right) :=
  if_neg (by omega)

theorem fitI64_eq {value : Int} (least : -2 ^ 63 ≤ value) (most : value < 2 ^ 63) :
    fitI64 value = .ok value := if_pos ⟨least, most⟩

theorem shlU64_eq {left : UInt64} {bits : Nat} (fits : bits < 64) :
    shlU64 left bits = .ok (left <<< UInt64.ofNat bits) := if_pos fits

theorem addU32_eq {left right : UInt32} (fits : left.toNat + right.toNat < 2 ^ 32) :
    addU32 left right = .ok (left + right) := if_pos fits

theorem addU64_eq {left right : UInt64} (fits : left.toNat + right.toNat < 2 ^ 64) :
    addU64 left right = .ok (left + right) := if_pos fits

theorem sumU32_eq {total : UInt32} {rest : List UInt32}
    (fits : total.toNat + (rest.map UInt32.toNat).sum < 2 ^ 32) :
    sumU32 total rest = .ok (rest.foldl (· + ·) total) := by
  induction rest generalizing total with
  | nil => rfl
  | cons next rest inductionHypothesis =>
      rw [List.map_cons, List.sum_cons] at fits
      have sum : (total + next).toNat = total.toNat + next.toNat := by
        rw [UInt32.toNat_add, Nat.mod_eq_of_lt (by omega)]
      rw [sumU32, addU32_eq (by omega)]
      exact inductionHypothesis (by omega)

/-- A sum beyond 32 bits overflows at one of its additions. -/
theorem sumU32_overflow {total : UInt32} {rest : List UInt32}
    (large : 2 ^ 32 ≤ total.toNat + (rest.map UInt32.toNat).sum) :
    sumU32 total rest = .error .overflow := by
  induction rest generalizing total with
  | nil =>
      have bound := total.toNat_lt
      rw [List.map_nil, List.sum_nil] at large
      omega
  | cons next rest inductionHypothesis =>
      rw [List.map_cons, List.sum_cons] at large
      rw [sumU32]
      by_cases fits : total.toNat + next.toNat < 2 ^ 32
      · have sum : (total + next).toNat = total.toNat + next.toNat := by
          rw [UInt32.toNat_add, Nat.mod_eq_of_lt fits]
        rw [addU32_eq fits]
        exact inductionHypothesis (by omega)
      · rw [addU32, if_neg fits]
        rfl

theorem readSlice_eq (ordered : start ≤ stop) (inside : stop ≤ data.length) :
    readSlice data start stop = .ok (slice data start (stop - start)) := if_pos ⟨ordered, inside⟩

/-- `data[start..start + width]` -/
theorem readSlice_add (inside : start + width ≤ data.length) :
    readSlice data start (start + width) = .ok (slice data start width) := by
  rw [readSlice_eq (Nat.le_add_right _ _) inside, Nat.add_sub_cancel_left]

theorem readByte_eq (inside : start < data.length) : readByte data start = .ok (data.getD start 0) := by
  rw [readByte, List.getElem?_eq_getElem inside, List.getD_eq_getElem _ _ inside]

theorem readWidth_eq (inside : offset + width ≤ data.length) (fits : offset + width < 2 ^ 64) :
    readWidth data offset width = .ok (slice data offset width) := by
  rw [readWidth, addUsize_eq fits]
  exact readSlice_add inside

theorem readU16_eq (inside : offset + 2 ≤ data.length) (fits : offset + 2 < 2 ^ 64) :
    readU16 data offset = .ok (u16At data offset) := by
  rw [readU16, readWidth_eq inside fits]
  rfl

theorem readU32_eq (inside : offset + 4 ≤ data.length) (fits : offset + 4 < 2 ^ 64) :
    readU32 data offset = .ok (u32At data offset) := by
  rw [readU32, readWidth_eq inside fits]
  rfl

theorem readU64_eq (inside : offset + 8 ≤ data.length) (fits : offset + 8 < 2 ^ 64) :
    readU64 data offset = .ok (u64At data offset) := by
  rw [readU64, readWidth_eq inside fits]
  rfl

theorem assert_eq {condition : Prop} [Decidable condition] (holds : condition) :
    assert condition = .ok () := if_pos holds

/-- A loop whose turns are in range. -/
theorem mapM_checked {α β : Type} {items : List α} {turn : α → Checked β} {value : α → β}
    (turns : ∀ item ∈ items, turn item = .ok (value item)) :
    items.mapM turn = .ok (items.map value) := by
  induction items with
  | nil => rfl
  | cons item rest inductionHypothesis =>
      rw [List.mapM_cons, turns item List.mem_cons_self,
        inductionHypothesis fun other member => turns other (List.mem_cons_of_mem _ member)]
      rfl

/-- A write over bytes of its own length. -/
theorem writeSlice_over {before old after source : Bytes}
    (split : data = before ++ (old ++ after)) (starts : before.length = offset)
    (same : old.length = source.length) :
    writeSlice data offset source = .ok (before ++ (source ++ after)) := by
  subst split starts
  unfold writeSlice
  rw [if_pos (by simp only [List.length_append]; omega), patch_over same]

end InRange

/-! ## Returning -/

/-- A result that needs no check. -/
def ofResult {ε α : Type} (result : Except ε α) : CheckedResult ε α := ExceptT.mk (.ok result)

/-- The computation raises no fault and has this result. -/
def Returns {ε α : Type} (computation : CheckedResult ε α) (result : Except ε α) : Prop :=
  computation.run = .ok result

theorem run_bind {ε α β : Type} (first : CheckedResult ε β) (next : β → CheckedResult ε α) :
    (first >>= next).run = first.run >>= fun outcome =>
      match outcome with
      | .ok item => (next item).run
      | .error failure => Pure.pure (.error failure) := rfl

namespace Returns

variable {ε α β : Type}

theorem ofResult (result : Except ε α) : Returns (ofResult result) result := rfl

theorem pure (value : α) : Returns (Pure.pure value : CheckedResult ε α) (.ok value) := rfl

theorem throw (failure : ε) : Returns (MonadExcept.throw failure : CheckedResult ε α)
    (.error failure) := rfl

/-- An operation in range, before the rest. -/
theorem step {operation : Checked β} {value : β} {next : β → CheckedResult ε α}
    {result : Except ε α} (inRange : operation = .ok value) (rest : Returns (next value) result) :
    Returns (liftM operation >>= next) result := by
  subst inRange
  exact rest

theorem bind {first : CheckedResult ε β} {next : β → CheckedResult ε α} {value : Except ε β}
    {result : β → Except ε α} (returns : Returns first value)
    (rest : ∀ item, value = .ok item → Returns (next item) (result item)) :
    Returns (first >>= next) (value >>= result) := by
  unfold Returns at returns ⊢
  rw [run_bind, returns]
  cases value with
  | error failure => rfl
  | ok item => exact rest item rfl

/-- A value, before the rest. -/
theorem value {first : CheckedResult ε β} {item : β} {next : β → CheckedResult ε α}
    {result : Except ε α} (returns : Returns first (.ok item)) (rest : Returns (next item) result) :
    Returns (first >>= next) result := by
  have whole : Returns (first >>= next) (Except.ok item >>= fun _ => result) :=
    returns.bind fun _ same => by
      rw [← Except.ok.inj same]
      exact rest
  exact whole

/-- An error, before the rest. -/
theorem failure {first : CheckedResult ε β} {failure : ε} (returns : Returns first (.error failure))
    (next : β → CheckedResult ε α) : Returns (first >>= next) (.error failure) := by
  have whole : Returns (first >>= next) (Except.error failure >>= fun _ => .error failure) :=
    returns.bind fun _ absurdity => by cases absurdity
  exact whole

theorem mapM {items : List β} {turn : β → CheckedResult ε α} {result : β → Except ε α}
    (turns : ∀ item ∈ items, Returns (turn item) (result item)) :
    Returns (items.mapM turn) (items.mapM result) := by
  induction items with
  | nil => exact Returns.pure []
  | cons item rest inductionHypothesis =>
      rw [List.mapM_cons, List.mapM_cons]
      refine (turns item List.mem_cons_self).bind fun first _ => ?_
      refine Returns.bind (inductionHypothesis fun other member =>
        turns other (List.mem_cons_of_mem _ member)) fun others _ => ?_
      exact Returns.pure (first :: others)

/-- A loop over turns without an error. -/
theorem mapM_ok {items : List β} {turn : β → CheckedResult ε α} {value : β → α}
    (turns : ∀ item ∈ items, Returns (turn item) (.ok (value item))) :
    Returns (items.mapM turn) (.ok (items.map value)) := by
  have whole := Returns.mapM turns
  rw [show (items.mapM fun item => (Except.ok (value item) : Except ε α)) =
    .ok (items.map value) from List.mapM_pure] at whole
  exact whole

end Returns

/-- The computation stops at this fault. -/
def Faults {ε α : Type} (computation : CheckedResult ε α) (fault : Fault) : Prop :=
  computation.run = .error fault

namespace Faults

variable {ε α β : Type} {fault : Fault}

/-- A computation that stops has no result. -/
theorem not_returns {computation : CheckedResult ε α} (faults : Faults computation fault) :
    ¬ ∃ outcome, Returns computation outcome := by
  rintro ⟨outcome, returns⟩
  rw [Faults, returns] at faults
  cases faults

/-- An operation out of range. -/
theorem here {operation : Checked β} {next : β → CheckedResult ε α}
    (outOfRange : operation = .error fault) : Faults (liftM operation >>= next) fault := by
  subst outOfRange
  rfl

/-- An operation in range, before the rest. -/
theorem step {operation : Checked β} {value : β} {next : β → CheckedResult ε α}
    (inRange : operation = .ok value) (rest : Faults (next value) fault) :
    Faults (liftM operation >>= next) fault := by
  subst inRange
  exact rest

theorem first {computation : CheckedResult ε β} (faults : Faults computation fault)
    (next : β → CheckedResult ε α) : Faults (computation >>= next) fault := by
  rw [Faults, run_bind, faults]
  rfl

/-- A value, before the rest. -/
theorem value {computation : CheckedResult ε β} {item : β} {next : β → CheckedResult ε α}
    (returns : Returns computation (.ok item)) (rest : Faults (next item) fault) :
    Faults (computation >>= next) fault := by
  rw [Faults, run_bind, returns]
  exact rest

end Faults

end MoonShot.Lib
