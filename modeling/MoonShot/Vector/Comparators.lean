import MoonShot.Vector.Rewiring

/-!
The comparison by score and then by id.

Owns that the comparison is an order on all scores that the float comparisons order, and the
scores of a linear order as the case in which these are all scores.

Does not own which scores occur.
-/

namespace MoonShot.Vector

open MoonShot.Lib
open FloatCompare

/-- The comparisons of a linear order. -/
instance (priority := low) ofLinearOrder {S : Type} [LinearOrder S] : FloatCompare S where
  less first second := decide (first < second)
  equal first second := decide (first = second)
  less_irrefl score := decide_eq_false (lt_irrefl score)
  less_trans _ _ _ before behind :=
    decide_eq_true (lt_trans (of_decide_eq_true before) (of_decide_eq_true behind))

section LinearOn

variable {S : Type} [FloatCompare S]

/-- Scores on which `<` and `==` are those of a linear order. -/
structure LinearOn (scores : S → Prop) : Prop where
  equal_iff : ∀ first second, scores first → scores second →
    (equal first second = true ↔ first = second)
  total : ∀ first second, scores first → scores second →
    less first second = true ∨ first = second ∨ less second first = true

theorem linearOn_of_linearOrder {S : Type} [LinearOrder S] : LinearOn fun _ : S => True := by
  refine ⟨fun first second _ _ => decide_eq_true_iff, fun first second _ _ => ?_⟩
  rcases lt_trichotomy first second with below | same | above
  · exact Or.inl (decide_eq_true below)
  · exact Or.inr (Or.inl same)
  · exact Or.inr (Or.inr (decide_eq_true above))

namespace LinearOn

variable {scores : S → Prop} {leftScore rightScore : S} {leftId rightId : Nat}

/-- The item does not stand behind: a higher score, or the same score and no higher id. -/
theorem compare_ne_gt (linear : LinearOn scores) (left : scores leftScore)
    (right : scores rightScore) :
    compareScoreThenDocId leftScore leftId rightScore rightId ≠ .gt ↔
      less rightScore leftScore = true ∨ leftScore = rightScore ∧ leftId ≤ rightId := by
  unfold compareScoreThenDocId
  by_cases same : leftScore = rightScore
  · have equals := (linear.equal_iff leftScore rightScore left right).mpr same
    rw [if_neg (by rw [equals]; decide), same, less_irrefl]
    simp only [Bool.false_eq_true, false_or, true_and]
    exact Nat.compare_ne_gt
  · have differs : equal leftScore rightScore = false :=
      Bool.eq_false_iff.mpr fun equals =>
        same ((linear.equal_iff leftScore rightScore left right).mp equals)
    rw [if_pos differs]
    split
    · rename_i higher
      exact iff_of_true (by decide) (Or.inl higher)
    · rename_i notHigher
      refine iff_of_false (fun notGt => notGt rfl) ?_
      rintro (higher | ⟨equals, -⟩)
      · exact notHigher higher
      · exact same equals

theorem compare_swap (linear : LinearOn scores) (left : scores leftScore)
    (right : scores rightScore) :
    compareScoreThenDocId rightScore rightId leftScore leftId =
      (compareScoreThenDocId leftScore leftId rightScore rightId).swap := by
  unfold compareScoreThenDocId
  by_cases same : leftScore = rightScore
  · have equals := (linear.equal_iff leftScore rightScore left right).mpr same
    rw [← same] at equals ⊢
    rw [if_neg (by rw [equals]; decide), if_neg (by rw [equals]; decide)]
    exact (Nat.compare_swap leftId rightId).symm
  · have differs : ∀ {first second : S}, scores first → scores second → first ≠ second →
        equal first second = false := fun firstIn secondIn apart =>
      Bool.eq_false_iff.mpr fun equals =>
        apart ((linear.equal_iff _ _ firstIn secondIn).mp equals)
    rw [if_pos (differs left right same), if_pos (differs right left (Ne.symm same))]
    rcases linear.total leftScore rightScore left right with below | equals | above
    · have notAbove : ¬less rightScore leftScore = true := fun above => by
        have circle := less_trans _ _ _ below above
        rw [less_irrefl] at circle
        cases circle
      rw [if_pos below, if_neg notAbove]
      rfl
    · exact absurd equals same
    · have notBelow : ¬less leftScore rightScore = true := fun below => by
        have circle := less_trans _ _ _ below above
        rw [less_irrefl] at circle
        cases circle
      rw [if_pos above, if_neg notBelow]
      rfl

theorem compare_trans (linear : LinearOn scores) {first second third : S}
    {firstId secondId thirdId : Nat} (firstIn : scores first) (secondIn : scores second)
    (thirdIn : scores third) (before : compareScoreThenDocId first firstId second secondId ≠ .gt)
    (behind : compareScoreThenDocId second secondId third thirdId ≠ .gt) :
    compareScoreThenDocId first firstId third thirdId ≠ .gt := by
  rw [linear.compare_ne_gt firstIn secondIn] at before
  rw [linear.compare_ne_gt secondIn thirdIn] at behind
  rw [linear.compare_ne_gt firstIn thirdIn]
  rcases before with higher | ⟨rfl, noHigher⟩
  · rcases behind with lower | ⟨rfl, -⟩
    · exact Or.inl (less_trans _ _ _ lower higher)
    · exact Or.inl higher
  · rcases behind with lower | ⟨rfl, stillNoHigher⟩
    · exact Or.inl lower
    · exact Or.inr ⟨rfl, Nat.le_trans noHigher stillNoHigher⟩

/-- Items are ordered by their scores and ids. -/
theorem orderOn {α : Type} (linear : LinearOn scores) (scoreOf : α → S) (idOf : α → Nat)
    {items : List α} (ordered : ∀ item ∈ items, scores (scoreOf item)) :
    OrderOn (fun left right =>
      compareScoreThenDocId (scoreOf left) (idOf left) (scoreOf right) (idOf right)) items :=
  orderOn_of_total
    (fun first firstIn second secondIn =>
      linear.compare_swap (ordered first firstIn) (ordered second secondIn))
    fun first firstIn second secondIn third thirdIn =>
      linear.compare_trans (ordered first firstIn) (ordered second secondIn)
        (ordered third thirdIn)

theorem orders (linear : LinearOn scores) {score : Nat → S} {inside : Nat → Prop}
    (ordered : ∀ nodeId, inside nodeId → scores (score nodeId)) :
    FreshDiskAnnVectorIndex.Orders score inside := by
  intro items _ here
  refine linear.orderOn ScoredNode.score ScoredNode.nodeId fun item member => ?_
  obtain ⟨itemInside, shape⟩ := here item member
  rw [shape]
  exact ordered item.nodeId itemInside

end LinearOn

end LinearOn

end MoonShot.Vector
