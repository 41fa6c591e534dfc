import MoonShot.Lib.Ascending

/-!
Two ascending lists joined into one.

Owns the walk over both lists that takes the smaller head, or both heads when their keys are
equal, and what it yields of ascending lists: every key of either list once, in order, with
the items of both lists that have it.
-/

namespace MoonShot.Lib

/-- What one turn of the walk takes: the head of one list, or both heads. -/
inductive Joined (α : Type)
  | left (item : α)
  | right (item : α)
  | both (first second : α)

namespace Joined

variable {α : Type}

/-- The item that stands for what was taken. -/
def lead : Joined α → α
  | left item => item
  | right item => item
  | both first _ => first

/-- The items that were taken, of the first and of the second list. -/
def taken : Joined α → Option α × Option α
  | left item => (some item, none)
  | right item => (none, some item)
  | both first second => (some first, some second)

end Joined

section Walk

variable {α δ : Type} [LinearOrder δ]

/-- The walk over both lists. -/
def joined (keyOf : α → δ) : List α → List α → List (Joined α)
  | [], [] => []
  | item :: left, [] => .left item :: joined keyOf left []
  | [], item :: right => .right item :: joined keyOf [] right
  | first :: left, second :: right =>
      if keyOf second < keyOf first then .right second :: joined keyOf (first :: left) right
      else if keyOf first < keyOf second then .left first :: joined keyOf left (second :: right)
      else .both first second :: joined keyOf left right
  termination_by left right => left.length + right.length

/-- The item of the list that has the key. -/
def itemWith (keyOf : α → δ) (items : List α) (key : δ) : Option α :=
  items.find? fun item => keyOf item = key

variable {keyOf : α → δ}

theorem itemWith_cons_self (item : α) (items : List α) :
    itemWith keyOf (item :: items) (keyOf item) = some item := by
  unfold itemWith
  exact List.find?_cons_of_pos (decide_eq_true rfl)

theorem itemWith_cons_of_ne {item : α} {key : δ} (items : List α) (other : keyOf item ≠ key) :
    itemWith keyOf (item :: items) key = itemWith keyOf items key := by
  unfold itemWith
  exact List.find?_cons_of_neg (by simpa using other)

/-- Below every key of the list there is no item. -/
theorem itemWith_of_below {items : List α} {key : δ} (below : ∀ item ∈ items, key < keyOf item) :
    itemWith keyOf items key = none := by
  unfold itemWith
  apply List.find?_eq_none.mpr
  intro item member
  simpa using (below item member).ne'

/-- A head with the key, in front of items above it. -/
theorem itemWith_taken {taken : Option α} {rest : List α} {key : δ}
    (same : ∀ other, taken = some other → keyOf other = key)
    (below : ∀ other ∈ rest, key < keyOf other) :
    itemWith keyOf (taken.toList ++ rest) key = taken := by
  cases taken with
  | none => exact itemWith_of_below below
  | some other =>
      rw [← same other rfl]
      exact itemWith_cons_self other rest

/-- A head below the key is passed. -/
theorem itemWith_behind {taken : Option α} {rest : List α} {first key : δ}
    (same : ∀ other, taken = some other → keyOf other = first) (above : first < key) :
    itemWith keyOf (taken.toList ++ rest) key = itemWith keyOf rest key := by
  cases taken with
  | none => rfl
  | some other =>
      apply itemWith_cons_of_ne
      rw [same other rfl]
      exact above.ne

theorem itemWith_isSome_iff {items : List α} {key : δ} :
    (itemWith keyOf items key).isSome = true ↔ ∃ item ∈ items, keyOf item = key := by
  unfold itemWith
  rw [List.find?_isSome]
  simp only [decide_eq_true_eq]

/-- What the walk over two ascending lists yields: the keys ascend, none is below both heads,
each comes with the items that have it, and every key of either list comes. -/
structure Joins (keyOf : α → δ) (left right : List α) (items : List (Joined α)) : Prop where
  ascending : items.Pairwise fun first second => keyOf first.lead < keyOf second.lead
  taken : ∀ item ∈ items, item.taken =
    (itemWith keyOf left (keyOf item.lead), itemWith keyOf right (keyOf item.lead))
  keys : ∀ key, (∃ item ∈ items, keyOf item.lead = key) ↔
    (∃ item ∈ left, keyOf item = key) ∨ ∃ item ∈ right, keyOf item = key

/-- One turn: the key that is taken is below all keys that are left, and what is left of both
lists is joined behind it. -/
theorem Joins.cons {left right leftRest rightRest : List α} {item : Joined α}
    {items : List (Joined α)} (rest : Joins keyOf leftRest rightRest items)
    (leftBelow : ∀ other ∈ leftRest, keyOf item.lead < keyOf other)
    (rightBelow : ∀ other ∈ rightRest, keyOf item.lead < keyOf other)
    (leftTaken : left = item.taken.1.toList ++ leftRest)
    (rightTaken : right = item.taken.2.toList ++ rightRest)
    (sameKeys : ∀ other, item.taken.1 = some other ∨ item.taken.2 = some other →
      keyOf other = keyOf item.lead)
    (some_ : item.taken.1 = some item.lead ∨ item.taken.2 = some item.lead) :
    Joins keyOf left right (item :: items) := by
  have behind : ∀ other ∈ items, keyOf item.lead < keyOf other.lead := by
    intro other member
    rcases (rest.keys (keyOf other.lead)).mp ⟨other, member, rfl⟩ with
      ⟨found, inside, same⟩ | ⟨found, inside, same⟩
    · rw [← same]
      exact leftBelow found inside
    · rw [← same]
      exact rightBelow found inside
  have leftSame := fun other taken => sameKeys other (Or.inl taken)
  have rightSame := fun other taken => sameKeys other (Or.inr taken)
  refine ⟨List.pairwise_cons.mpr ⟨behind, rest.ascending⟩, ?_, ?_⟩
  · intro other member
    rw [leftTaken, rightTaken]
    cases List.mem_cons.mp member with
    | inl same =>
        rw [same, itemWith_taken leftSame leftBelow, itemWith_taken rightSame rightBelow]
    | inr inside =>
        rw [itemWith_behind leftSame (behind other inside),
          itemWith_behind rightSame (behind other inside)]
        exact rest.taken other inside
  · intro key
    constructor
    · rintro ⟨other, member, rfl⟩
      cases List.mem_cons.mp member with
      | inl same =>
          rw [same, leftTaken, rightTaken]
          cases some_ with
          | inl taken =>
              refine Or.inl ⟨item.lead, ?_, rfl⟩
              rw [taken]
              exact List.mem_cons_self
          | inr taken =>
              refine Or.inr ⟨item.lead, ?_, rfl⟩
              rw [taken]
              exact List.mem_cons_self
      | inr inside =>
          rw [leftTaken, rightTaken]
          cases (rest.keys (keyOf other.lead)).mp ⟨other, inside, rfl⟩ with
          | inl found =>
              obtain ⟨found, listed, same⟩ := found
              exact Or.inl ⟨found, List.mem_append_right _ listed, same⟩
          | inr found =>
              obtain ⟨found, listed, same⟩ := found
              exact Or.inr ⟨found, List.mem_append_right _ listed, same⟩
    · have own : ∀ {taken : Option α} {itemsRest : List α},
          (∀ other, taken = some other → keyOf other = keyOf item.lead) →
          ((∃ other ∈ itemsRest, keyOf other = key) →
            ∃ other ∈ items, keyOf other.lead = key) →
          (∃ other ∈ taken.toList ++ itemsRest, keyOf other = key) →
            ∃ other ∈ item :: items, keyOf other.lead = key := by
        intro taken itemsRest same inRest
        rintro ⟨other, member, rfl⟩
        cases List.mem_append.mp member with
        | inl here =>
            exact ⟨item, List.mem_cons_self, (same other (Option.mem_toList.mp here)).symm⟩
        | inr there =>
            obtain ⟨found, listed, sameKey⟩ := inRest ⟨other, there, rfl⟩
            exact ⟨found, List.mem_cons_of_mem _ listed, sameKey⟩
      rw [leftTaken, rightTaken]
      rintro (inLeft | inRight)
      · exact own leftSame (fun found => (rest.keys key).mpr (Or.inl found)) inLeft
      · exact own rightSame (fun found => (rest.keys key).mpr (Or.inr found)) inRight

theorem joined_eq_nil {left right : List α} (nothing : joined keyOf left right = []) :
    left = [] ∧ right = [] := by
  cases left with
  | nil =>
      cases right with
      | nil => exact ⟨rfl, rfl⟩
      | cons item right =>
          rw [joined] at nothing
          cases nothing
  | cons first left =>
      cases right with
      | nil =>
          rw [joined] at nothing
          cases nothing
      | cons second right =>
          rw [joined] at nothing
          split at nothing
          · cases nothing
          · split at nothing
            · cases nothing
            · cases nothing

/-- The walk over two ascending lists. -/
theorem joined_joins (left right : List α) (leftAscending : AscendingBy keyOf left)
    (rightAscending : AscendingBy keyOf right) :
    Joins keyOf left right (joined keyOf left right) := by
  fun_induction joined keyOf left right with
  | case1 => exact ⟨List.Pairwise.nil, by simp, by simp⟩
  | case2 item left inductionHypothesis =>
      have parts := List.pairwise_cons.mp leftAscending
      exact (inductionHypothesis parts.2 rightAscending).cons parts.1 (by simp) rfl rfl
        (by simp [Joined.taken, Joined.lead]) (Or.inl rfl)
  | case3 item right inductionHypothesis =>
      have parts := List.pairwise_cons.mp rightAscending
      exact (inductionHypothesis leftAscending parts.2).cons (by simp) parts.1 rfl rfl
        (by simp [Joined.taken, Joined.lead]) (Or.inr rfl)
  | case4 first left second right below inductionHypothesis =>
      have leftParts := List.pairwise_cons.mp leftAscending
      have rightParts := List.pairwise_cons.mp rightAscending
      refine (inductionHypothesis leftAscending rightParts.2).cons ?_ rightParts.1 rfl rfl
        (by simp [Joined.taken, Joined.lead]) (Or.inr rfl)
      intro other member
      cases List.mem_cons.mp member with
      | inl same =>
          rw [same]
          exact below
      | inr inside => exact below.trans (leftParts.1 other inside)
  | case5 first left second right notBelow below inductionHypothesis =>
      have leftParts := List.pairwise_cons.mp leftAscending
      have rightParts := List.pairwise_cons.mp rightAscending
      refine (inductionHypothesis leftParts.2 rightAscending).cons leftParts.1 ?_ rfl rfl
        (by simp [Joined.taken, Joined.lead]) (Or.inl rfl)
      intro other member
      cases List.mem_cons.mp member with
      | inl same =>
          rw [same]
          exact below
      | inr inside => exact below.trans (rightParts.1 other inside)
  | case6 first left second right notBelow notAbove inductionHypothesis =>
      have leftParts := List.pairwise_cons.mp leftAscending
      have rightParts := List.pairwise_cons.mp rightAscending
      have same : keyOf second = keyOf first :=
        le_antisymm (not_lt.mp notAbove) (not_lt.mp notBelow)
      refine (inductionHypothesis leftParts.2 rightParts.2).cons leftParts.1 ?_ rfl rfl ?_
        (Or.inl rfl)
      · intro other member
        exact same ▸ rightParts.1 other member
      · intro other taken
        cases taken with
        | inl isFirst => rw [← Option.some.inj isFirst]; rfl
        | inr isSecond =>
            rw [← Option.some.inj isSecond]
            exact same

end Walk

end MoonShot.Lib
