import Mathlib

/-!
Consecutive extents: pieces of given sizes, laid one after the other.

Owns where each piece starts, and that no two pieces overlap and all end before
the end of the last one.
-/

namespace MoonShot.Lib

/-- Where pieces of the given sizes start, the first one at `start`. -/
def runningSums : (start : Nat) → (sizes : List Nat) → List Nat
  | _, [] => []
  | start, size :: rest => start :: runningSums (start + size) rest

/-- The pieces as starts and sizes. -/
def extents (start : Nat) (sizes : List Nat) : List (Nat × Nat) :=
  (runningSums start sizes).zip sizes

theorem extents_cons (start size : Nat) (rest : List Nat) :
    extents start (size :: rest) = (start, size) :: extents (start + size) rest := rfl

/-- Every piece lies between the start and the end of all. -/
theorem extents_inside {start : Nat} {sizes : List Nat} {piece : Nat × Nat}
    (member : piece ∈ extents start sizes) :
    start ≤ piece.1 ∧ piece.1 + piece.2 ≤ start + sizes.sum := by
  induction sizes generalizing start with
  | nil => cases member
  | cons size rest inductionHypothesis =>
      rw [extents_cons] at member
      rw [List.sum_cons]
      rcases List.mem_cons.mp member with rfl | later
      · exact ⟨le_rfl, by dsimp only; omega⟩
      · have inside := inductionHypothesis later
        omega

/-- A piece ends before every later one starts. -/
theorem extents_disjoint (start : Nat) (sizes : List Nat) :
    (extents start sizes).Pairwise fun first second => first.1 + first.2 ≤ second.1 := by
  induction sizes generalizing start with
  | nil => exact List.Pairwise.nil
  | cons size rest inductionHypothesis =>
      rw [extents_cons]
      refine List.Pairwise.cons ?_ (inductionHypothesis _)
      intro second member
      exact (extents_inside member).1

end MoonShot.Lib
