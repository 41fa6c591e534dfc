import Mathlib

/-!
Runs of a machine given by a partial step function.

Owns runs whose every step passes a guard on the state before it, how they are
extended and weakened, and the invariant rule: what holds at the start and is
kept by every guarded step holds in every state a run reaches. Owns also the
two rules for the change of one party in a list of parties: how counts change,
and who is in the list afterwards.
-/

namespace MoonShot.Lib

variable {σ α : Type}

/-- The actions are taken one after the other, each admitted by the guard. -/
inductive GuardedRun (step : σ → α → Option σ) (guard : σ → α → Prop) : σ → List α → σ → Prop
  | nil (state : σ) : GuardedRun step guard state [] state
  | cons {state next final : σ} {action : α} {rest : List α} (admitted : guard state action)
      (taken : step state action = some next) (later : GuardedRun step guard next rest final) :
      GuardedRun step guard state (action :: rest) final

namespace GuardedRun

variable {step : σ → α → Option σ} {guard : σ → α → Prop}

/-- The invariant rule. -/
theorem invariant {inv : σ → Prop}
    (kept : ∀ state action next, inv state → guard state action →
      step state action = some next → inv next)
    {state final : σ} {actions : List α} (run : GuardedRun step guard state actions final)
    (start : inv state) : inv final := by
  induction run with
  | nil => exact start
  | cons admitted taken _ inductionHypothesis =>
      exact inductionHypothesis (kept _ _ _ start admitted taken)

theorem mono {weaker : σ → α → Prop}
    (implied : ∀ state action, guard state action → weaker state action)
    {state final : σ} {actions : List α} (run : GuardedRun step guard state actions final) :
    GuardedRun step weaker state actions final := by
  induction run with
  | nil => exact .nil _
  | cons admitted taken _ inductionHypothesis =>
      exact .cons (implied _ _ admitted) taken inductionHypothesis

theorem append {state middle final : σ} {first second : List α}
    (front : GuardedRun step guard state first middle)
    (back : GuardedRun step guard middle second final) :
    GuardedRun step guard state (first ++ second) final := by
  induction front with
  | nil => exact back
  | cons admitted taken _ inductionHypothesis =>
      exact .cons admitted taken (inductionHypothesis back)

end GuardedRun

/-! ## Changing one party -/

theorem countP_set_add (parties : List α) (test : α → Bool) {index : Nat} {party : α}
    (found : parties[index]? = some party) (changed : α) :
    (parties.set index changed).countP test + (test party).toNat =
      parties.countP test + (test changed).toNat := by
  induction parties generalizing index with
  | nil => cases found
  | cons head rest inductionHypothesis =>
      cases index with
      | zero =>
          obtain rfl : head = party := by simpa using found
          simp only [List.set_cons_zero, List.countP_cons]
          cases test head <;> cases test changed <;> simp
      | succ index =>
          have later := inductionHypothesis (by simpa using found)
          simp only [List.set_cons_succ, List.countP_cons]
          omega

theorem mem_set_self {parties : List α} {index : Nat} {party : α}
    (found : parties[index]? = some party) (changed : α) : changed ∈ parties.set index changed := by
  have below := (List.getElem?_eq_some_iff.mp found).1
  exact List.mem_of_getElem? (List.getElem?_set_self below)

/-- Everybody but the changed party stays. -/
theorem mem_set_of_ne {parties : List α} {index : Nat} {party other : α}
    (found : parties[index]? = some party) (changed : α) (member : other ∈ parties)
    (different : other ≠ party) : other ∈ parties.set index changed := by
  obtain ⟨position, at_⟩ := List.getElem?_of_mem member
  have elsewhere : index ≠ position := by
    rintro rfl
    rw [found] at at_
    exact different (Option.some.inj at_).symm
  apply List.mem_of_getElem? (i := position)
  rw [List.getElem?_set_ne elsewhere, at_]

end MoonShot.Lib
