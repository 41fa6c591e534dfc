import Mathlib

/-!
Items packed in order into bins of one capacity.

An item goes into the open bin when it fits and opens the next bin otherwise; a
new bin starts with a header. Owns how many bins are opened and how full the last
one is, a run that packs as many items at a time as fit, and what the bins can
hold at most.
-/

namespace MoonShot.Lib

variable {capacity header : Nat}

/-- The bins opened behind one that has `used` in it, and the use of the last. -/
def pack (capacity header : Nat) : (used : Nat) → (sizes : List Nat) → Nat × Nat
  | used, [] => (0, used)
  | used, size :: rest =>
      if used + size ≤ capacity then pack capacity header (used + size) rest
      else
        let packed := pack capacity header (header + size) rest
        (packed.1 + 1, packed.2)

theorem pack_fits {used : Nat} {taken : List Nat} (rest : List Nat)
    (fits : used + taken.sum ≤ capacity) :
    pack capacity header used (taken ++ rest) = pack capacity header (used + taken.sum) rest := by
  induction taken generalizing used with
  | nil => rfl
  | cons size taken inductionHypothesis =>
      rw [List.sum_cons] at fits ⊢
      rw [List.cons_append, pack, if_pos (by omega), inductionHypothesis (by omega), Nat.add_assoc]

/-- When the next item does not fit, the rest is packed from a new bin on. -/
theorem pack_next {used size : Nat} {rest : List Nat} (full : capacity < used + size)
    (fits : header + size ≤ capacity) :
    pack capacity header used (size :: rest) =
      ((pack capacity header header (size :: rest)).1 + 1,
        (pack capacity header header (size :: rest)).2) := by
  rw [pack, if_neg (by omega), pack, if_pos fits]

/-- The bins hold all items, and the last one is not over-full. -/
theorem pack_holds {used : Nat} {sizes : List Nat} (room : used ≤ capacity)
    (fits : ∀ size ∈ sizes, header + size ≤ capacity) :
    used + sizes.sum ≤ ((pack capacity header used sizes).1 + 1) * capacity ∧
      (pack capacity header used sizes).2 ≤ capacity := by
  induction sizes generalizing used with
  | nil =>
      rw [List.sum_nil, pack]
      dsimp only
      omega
  | cons size rest inductionHypothesis =>
      have sizeFits := fits size List.mem_cons_self
      have restFits : ∀ size ∈ rest, header + size ≤ capacity :=
        fun size member => fits size (List.mem_cons_of_mem _ member)
      rw [List.sum_cons, pack]
      by_cases here : used + size ≤ capacity
      · have held := inductionHypothesis here restFits
        rw [if_pos here]
        exact ⟨by omega, held.2⟩
      · have held := inductionHypothesis sizeFits restFits
        rw [if_neg here]
        refine ⟨?_, held.2⟩
        dsimp only
        rw [Nat.succ_mul]
        omega

/-- Every new bin is opened by an item. -/
theorem pack_le_length (used : Nat) (sizes : List Nat) :
    (pack capacity header used sizes).1 ≤ sizes.length := by
  induction sizes generalizing used with
  | nil => exact Nat.le_refl 0
  | cons size rest inductionHypothesis =>
      rw [pack, List.length_cons]
      split
      · exact Nat.le_succ_of_le (inductionHypothesis _)
      · exact Nat.succ_le_succ (inductionHypothesis _)

end MoonShot.Lib
