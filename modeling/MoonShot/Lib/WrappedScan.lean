import Mathlib

/-!
A scan of residues by a counter that wraps.

A counter below `bound` is advanced `size` times, and each value is taken modulo
`size`. Owns the exact set of residues the scan comes to: all of them, unless the
counter wraps during the scan and `size` does not divide `bound`.
-/

namespace MoonShot.Lib

/-- The residue the scan looks at in a turn. -/
def scanned (bound size start turn : Nat) : Nat := (start + turn) % bound % size

/-- The residues a scan comes to. The values in front of the wrap are the last
`bound - start` ones; behind it the scan starts over at residue 0. -/
def ScanReaches (bound size start residue : Nat) : Prop :=
  start + size ≤ bound ∨ residue < size - (bound - start) ∨ residue < bound % size ∨
    size + bound % size - (bound - start) ≤ residue

instance (bound size start residue : Nat) : Decidable (ScanReaches bound size start residue) :=
  inferInstanceAs (Decidable (_ ∨ _))

section Scan

variable {bound size start residue : Nat}

/-- A value in front of the wrap, counted from the bound. -/
private theorem before_wrap {distance : Nat} (within : distance ≤ bound)
    (near : distance < size) :
    (bound - distance) % size =
      if distance ≤ bound % size then bound % size - distance
      else size + bound % size - distance := by
  have whole := Nat.div_add_mod bound size
  have remainder := Nat.mod_lt bound (Nat.zero_lt_of_lt near)
  by_cases inLast : distance ≤ bound % size
  · have value : bound - distance = size * (bound / size) + (bound % size - distance) := by omega
    rw [if_pos inLast, value, Nat.mul_add_mod, Nat.mod_eq_of_lt (by omega)]
  · obtain ⟨laps, lapsEq⟩ : ∃ laps, bound / size = laps + 1 := by
      apply Nat.exists_eq_succ_of_ne_zero
      intro none_
      rw [none_, Nat.mul_zero] at whole
      omega
    rw [lapsEq, Nat.mul_succ] at whole
    have value : bound - distance = size * laps + (size + bound % size - distance) := by omega
    rw [if_neg inLast, value, Nat.mul_add_mod, Nat.mod_eq_of_lt (by omega)]

/-- Without a wrap every residue comes up. -/
private theorem straight_scan (straight : start + size ≤ bound) (residueBelow : residue < size) :
    ∃ turn, turn < size ∧ scanned bound size start turn = residue := by
  have positive : 0 < size := Nat.zero_lt_of_lt residueBelow
  have whole := Nat.div_add_mod start size
  have remainder := Nat.mod_lt start positive
  unfold scanned
  by_cases behind : start % size ≤ residue
  · refine ⟨residue - start % size, by omega, ?_⟩
    have value : start + (residue - start % size) = size * (start / size) + residue := by omega
    have below : start + (residue - start % size) < bound := by omega
    rw [Nat.mod_eq_of_lt below, value, Nat.mul_add_mod, Nat.mod_eq_of_lt residueBelow]
  · refine ⟨size + residue - start % size, by omega, ?_⟩
    have value : start + (size + residue - start % size) =
        size * (start / size + 1) + residue := by
      rw [Nat.mul_succ]
      omega
    have below : start + (size + residue - start % size) < bound := by omega
    rw [Nat.mod_eq_of_lt below, value, Nat.mul_add_mod, Nat.mod_eq_of_lt residueBelow]

theorem scan_reaches_iff (startBelow : start < bound) (sizeBelow : size ≤ bound)
    (residueBelow : residue < size) :
    (∃ turn, turn < size ∧ scanned bound size start turn = residue) ↔
      ScanReaches bound size start residue := by
  by_cases straight : start + size ≤ bound
  · exact ⟨fun _ => .inl straight, fun _ => straight_scan straight residueBelow⟩
  · have remainder := Nat.mod_lt bound (Nat.zero_lt_of_lt residueBelow)
    unfold scanned ScanReaches
    constructor
    · rintro ⟨turn, turnBelow, here⟩
      by_cases early : start + turn < bound
      · have value : start + turn = bound - (bound - (start + turn)) := by omega
        rw [Nat.mod_eq_of_lt early, value, before_wrap (Nat.sub_le _ _) (by omega)] at here
        split at here <;> omega
      · have within : start + turn - bound < bound := by omega
        have low : start + turn - bound < size := by omega
        rw [Nat.mod_eq_sub_mod (Nat.le_of_not_lt early), Nat.mod_eq_of_lt within,
          Nat.mod_eq_of_lt low] at here
        omega
    · intro reaches
      by_cases again : residue < size - (bound - start)
      · refine ⟨bound - start + residue, by omega, ?_⟩
        have value : start + (bound - start + residue) = bound + residue := by omega
        rw [value, Nat.add_mod_left, Nat.mod_eq_of_lt (Nat.lt_of_lt_of_le residueBelow sizeBelow),
          Nat.mod_eq_of_lt residueBelow]
      · -- The residue comes up in front of the wrap, at this distance from it.
        obtain ⟨distance, near, distanceEq⟩ : ∃ distance,
            (0 < distance ∧ distance ≤ bound - start) ∧
              (if distance ≤ bound % size then bound % size - distance
                else size + bound % size - distance) = residue := by
          by_cases inLast : residue < bound % size
          · exact ⟨bound % size - residue, by omega, by rw [if_pos (by omega)]; omega⟩
          · exact ⟨size + bound % size - residue, by omega, by rw [if_neg (by omega)]; omega⟩
        refine ⟨bound - start - distance, by omega, ?_⟩
        have value : start + (bound - start - distance) = bound - distance := by omega
        have below : bound - distance < bound := by omega
        rw [value, Nat.mod_eq_of_lt below, before_wrap (by omega) (by omega), distanceEq]

end Scan

end MoonShot.Lib
