import Mathlib

/-!
Computations that stop at their first error.

Owns the check that stops a computation, and the rules that take a successful
run apart: into its parts for a sequence of steps, into its turns for a loop.
-/

namespace MoonShot.Lib

variable {ε α β : Type}

/-- Stop with `failure` unless the condition holds. -/
def require (failure : ε) (condition : Prop) [Decidable condition] : Except ε Unit :=
  if condition then .ok () else .error failure

theorem require_eq_ok {failure : ε} {condition : Prop} [Decidable condition] {result : Unit} :
    require failure condition = .ok result ↔ condition := by
  unfold require
  by_cases holds : condition
  · rw [if_pos holds]
    exact ⟨fun _ => holds, fun _ => rfl⟩
  · rw [if_neg holds]
    constructor
    · intro failed
      cases failed
    · intro absurdity
      exact absurd absurdity holds

theorem bind_ok {first : Except ε α} {next : α → Except ε β} {result : β} :
    (first >>= next) = .ok result ↔ ∃ value, first = .ok value ∧ next value = .ok result := by
  cases first with
  | error failure =>
      constructor
      · intro ran
        cases ran
      · rintro ⟨_, ran, _⟩
        cases ran
  | ok value =>
      constructor
      · intro ran
        exact ⟨value, rfl, ran⟩
      · rintro ⟨other, same, ran⟩
        obtain rfl := Except.ok.inj same
        exact ran

theorem require_bind {failure : ε} {condition : Prop} [Decidable condition]
    {next : Unit → Except ε β} (holds : condition) :
    (require failure condition >>= next) = next () := by
  rw [require, if_pos holds]
  rfl

/-- A loop that succeeds has one result for each item. -/
theorem mapM_ok_length {γ : Type} {turn : γ → Except ε α} {items : List γ} {results : List α}
    (ok : items.mapM turn = .ok results) : results.length = items.length := by
  induction items generalizing results with
  | nil =>
      obtain rfl := Except.ok.inj ok
      rfl
  | cons item rest inductionHypothesis =>
      rw [List.mapM_cons] at ok
      obtain ⟨first, _, ok⟩ := bind_ok.mp ok
      obtain ⟨others, ran, ok⟩ := bind_ok.mp ok
      obtain rfl := Except.ok.inj ok
      rw [List.length_cons, List.length_cons, inductionHypothesis ran]

/-- Each result of a loop comes from one of its turns. -/
theorem mapM_ok_mem {γ : Type} {turn : γ → Except ε α} {items : List γ} {results : List α}
    (ok : items.mapM turn = .ok results) {result : α} (member : result ∈ results) :
    ∃ item, turn item = .ok result := by
  induction items generalizing results with
  | nil =>
      obtain rfl := Except.ok.inj ok
      exact absurd member List.not_mem_nil
  | cons item rest inductionHypothesis =>
      rw [List.mapM_cons] at ok
      obtain ⟨first, here, ok⟩ := bind_ok.mp ok
      obtain ⟨others, ran, ok⟩ := bind_ok.mp ok
      obtain rfl := Except.ok.inj ok
      rcases List.mem_cons.mp member with rfl | later
      · exact ⟨item, here⟩
      · exact inductionHypothesis ran later

/-- A loop that collects one result a turn. -/
theorem mapM_range'_ok {turn : Nat → Except ε α} {start : Nat} {results : List α}
    (turns : ∀ index result, results[index]? = some result → turn (start + index) = .ok result) :
    (List.range' start results.length).mapM turn = .ok results := by
  induction results generalizing start with
  | nil => rfl
  | cons result rest inductionHypothesis =>
      have first : turn start = .ok result := turns 0 result rfl
      have later : (List.range' (start + 1) rest.length).mapM turn = .ok rest := by
        apply inductionHypothesis
        intro index found inRest
        rw [Nat.add_right_comm]
        exact turns (index + 1) found inRest
      rw [List.length_cons, List.range'_succ, List.mapM_cons, first]
      show (do
        let others ← (List.range' (start + 1) rest.length).mapM turn
        pure (result :: others)) = Except.ok (result :: rest)
      rw [later]
      rfl

theorem mapM_range_ok {turn : Nat → Except ε α} {results : List α}
    (turns : ∀ index result, results[index]? = some result → turn index = .ok result) :
    (List.range results.length).mapM turn = .ok results := by
  rw [List.range_eq_range']
  apply mapM_range'_ok
  intro index result found
  rw [Nat.zero_add]
  exact turns index result found

/-- A loop over places that does at each place what the item there asks for. -/
theorem mapM_range_items {β : Type} {turn : Nat → Except ε α} {items : List β}
    {ofItem : β → Except ε α}
    (turns : ∀ index item, items[index]? = some item → turn index = ofItem item) :
    (List.range items.length).mapM turn = items.mapM ofItem := by
  induction items generalizing turn with
  | nil => rfl
  | cons first rest inductionHypothesis =>
      have later : (List.range rest.length).mapM (turn ∘ Nat.succ) = rest.mapM ofItem :=
        inductionHypothesis fun index item found => turns (index + 1) item found
      rw [List.length_cons, List.range_succ_eq_map, List.mapM_cons, List.mapM_cons,
        turns 0 first rfl, List.mapM_map, later]

end MoonShot.Lib
