import MoonShot.Lib.Cursor

/-!
Walks over ascending lists.

Owns what a walk over items with ascending keys leaves of the set of their keys: behind the
first item the first key is gone, and behind the items below a target the keys below it are.
-/

namespace MoonShot.Lib

variable {α δ : Type} [LinearOrder δ]

/-- The keys of the items, in any order. -/
def keySet (keyOf : α → δ) (items : List α) : Finset δ := (items.map keyOf).toFinset

/-- Every item has a greater key than the items before it. -/
def AscendingBy (keyOf : α → δ) (items : List α) : Prop :=
  items.Pairwise fun first second => keyOf first < keyOf second

section Walks

variable {keyOf : α → δ} {item : α} {items : List α}

theorem mem_keySet {key : δ} : key ∈ keySet keyOf items ↔ ∃ item ∈ items, keyOf item = key := by
  simp [keySet]

theorem keySet_eq_empty_iff : keySet keyOf items = ∅ ↔ items = [] := by
  simp [keySet]

theorem firstOf_keySet_cons (limit : δ) (ascending : AscendingBy keyOf (item :: items)) :
    firstOf limit (keySet keyOf (item :: items)) = keyOf item := by
  apply firstOf_eq_of_isLeast
  constructor
  · exact mem_keySet.mpr ⟨item, List.mem_cons_self, rfl⟩
  · intro key member
    obtain ⟨other, listed, rfl⟩ := mem_keySet.mp member
    cases List.mem_cons.mp listed with
    | inl same => rw [same]
    | inr later => exact ((List.pairwise_cons.mp ascending).1 other later).le

theorem keySet_tail (limit : δ) (ascending : AscendingBy keyOf items) :
    keySet keyOf items.tail = (keySet keyOf items).erase (firstOf limit (keySet keyOf items)) := by
  cases items with
  | nil => rfl
  | cons item rest =>
      have absent : keyOf item ∉ (rest.map keyOf).toFinset := by
        intro member
        obtain ⟨other, listed, same⟩ := mem_keySet.mp member
        exact ((List.pairwise_cons.mp ascending).1 other listed).ne same.symm
      rw [firstOf_keySet_cons limit ascending]
      unfold keySet
      rw [List.tail_cons, List.map_cons, List.toFinset_cons, Finset.erase_insert absent]

theorem keySet_dropWhile (ascending : AscendingBy keyOf items) (target : δ) :
    keySet keyOf (items.dropWhile fun item => keyOf item < target) =
      (keySet keyOf items).filter (target ≤ ·) := by
  induction items with
  | nil => rfl
  | cons item rest inductionHypothesis =>
      by_cases below : keyOf item < target
      · rw [List.dropWhile_cons_of_pos (by simpa using below),
          inductionHypothesis (List.pairwise_cons.mp ascending).2]
        unfold keySet
        rw [List.map_cons, List.toFinset_cons, Finset.filter_insert, if_neg (not_le.mpr below)]
      · rw [List.dropWhile_cons_of_neg (by simpa using below), Finset.filter_true_of_mem]
        intro key member
        have first : firstOf target (keySet keyOf (item :: rest)) ≤ key := firstOf_le member
        rw [firstOf_keySet_cons target ascending] at first
        exact le_trans (not_lt.mp below) first

end Walks

end MoonShot.Lib
