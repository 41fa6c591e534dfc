import Mathlib

/-!
Positive clauses: disjunctions of conjunctions of atoms.

Owns satisfaction of a list of clauses, the clauses of a conjunction and of a
disjunction, and absorption: two lists of clauses are satisfied by the same
valuations exactly when each clause of one contains a clause of the other.
Atoms that no valuation can make true are left aside.
-/

namespace MoonShot.Lib

variable {α : Type}

/-- Some clause has only true atoms. -/
def Satisfies (truth : α → Prop) (clauses : List (List α)) : Prop :=
  ∃ clause ∈ clauses, ∀ atom ∈ clause, truth atom

instance (truth : α → Prop) [DecidablePred truth] (clauses : List (List α)) :
    Decidable (Satisfies truth clauses) :=
  inferInstanceAs (Decidable (∃ clause ∈ clauses, ∀ atom ∈ clause, truth atom))

/-- The clauses of a conjunction: one of each side, joined. -/
def product (left right : List (List α)) : List (List α) :=
  left.flatMap fun first => right.map fun second => first ++ second

section Satisfies

variable {truth : α → Prop}

theorem satisfies_singleton {clause : List α} :
    Satisfies truth [clause] ↔ ∀ atom ∈ clause, truth atom := by
  simp [Satisfies]

theorem satisfies_append {left right : List (List α)} :
    Satisfies truth (left ++ right) ↔ Satisfies truth left ∨ Satisfies truth right := by
  simp [Satisfies, or_and_right, exists_or]

theorem satisfies_product {left right : List (List α)} :
    Satisfies truth (product left right) ↔ Satisfies truth left ∧ Satisfies truth right := by
  unfold Satisfies product
  constructor
  · rintro ⟨clause, member, holds⟩
    obtain ⟨first, firstMember, inner⟩ := List.mem_flatMap.mp member
    obtain ⟨second, secondMember, rfl⟩ := List.mem_map.mp inner
    exact ⟨⟨first, firstMember, fun atom inside => holds atom (List.mem_append_left _ inside)⟩,
      ⟨second, secondMember, fun atom inside => holds atom (List.mem_append_right _ inside)⟩⟩
  · rintro ⟨⟨first, firstMember, firstHolds⟩, second, secondMember, secondHolds⟩
    refine ⟨first ++ second, List.mem_flatMap.mpr ⟨first, firstMember,
      List.mem_map_of_mem secondMember⟩, ?_⟩
    intro atom inside
    rcases List.mem_append.mp inside with inFirst | inSecond
    · exact firstHolds atom inFirst
    · exact secondHolds atom inSecond

theorem satisfies_congr {other : α → Prop} {clauses : List (List α)}
    (same : ∀ clause ∈ clauses, ∀ atom ∈ clause, truth atom ↔ other atom) :
    Satisfies truth clauses ↔ Satisfies other clauses := by
  unfold Satisfies
  apply exists_congr
  intro clause
  apply and_congr_right
  intro member
  exact forall₂_congr (same clause member)

end Satisfies

/-- Every clause of possible atoms on the right contains a clause of the left. -/
def Absorbs (possible : α → Prop) (left right : List (List α)) : Prop :=
  ∀ clause ∈ right, (∀ atom ∈ clause, possible atom) → Satisfies (· ∈ clause) left

instance [DecidableEq α] (possible : α → Prop) [DecidablePred possible]
    (left right : List (List α)) : Decidable (Absorbs possible left right) :=
  inferInstanceAs (Decidable (∀ clause ∈ right, _ → Satisfies (· ∈ clause) left))

/-- What satisfies an absorbed list satisfies the absorbing one. -/
theorem Absorbs.satisfies {possible truth : α → Prop} {left right : List (List α)}
    (absorbs : Absorbs possible left right)
    (onlyPossible : ∀ clause ∈ right, ∀ atom ∈ clause, truth atom → possible atom)
    (satisfied : Satisfies truth right) : Satisfies truth left := by
  obtain ⟨clause, member, holds⟩ := satisfied
  obtain ⟨smaller, smallerMember, inside⟩ :=
    absorbs clause member fun atom atomMember =>
      onlyPossible clause member atom atomMember (holds atom atomMember)
  exact ⟨smaller, smallerMember, fun atom atomMember => holds atom (inside atom atomMember)⟩

theorem satisfies_self {clause : List α} {clauses : List (List α)} (member : clause ∈ clauses) :
    Satisfies (· ∈ clause) clauses :=
  ⟨clause, member, fun _ inside => inside⟩

end MoonShot.Lib
