import Mathlib.Algebra.Order.Ring.Rat
import MoonShot.Vector.Comparators

/-!
The scores of vectors.

Owns the scores as rational numbers with the value that is no number, how they compare, the
scores of `ScoreQueryToDoc` and `ScoreDocToDoc`, and which vectors give no number.

A product of square roots is an arbitrary function of the squared norms, a quotient by zero is
no number, and nothing else is rounded.

Does not own which scores the graph asks for.
-/

namespace MoonShot.Vector

open MoonShot.Lib
open MoonShot.Postings
open FloatCompare

/-! ## Scores -/

/-- `f32`: a number, or NaN. -/
inductive Score where
  | finite (value : ℚ)
  | nan
deriving DecidableEq

namespace Score

instance : FloatCompare Score where
  less
    | .finite left, .finite right => decide (left < right)
    | _, _ => false
  equal
    | .finite left, .finite right => decide (left = right)
    | _, _ => false
  less_irrefl
    | .finite value => decide_eq_false (lt_irrefl value)
    | .nan => rfl
  less_trans
    | .finite _, .finite _, .finite _, before, behind =>
        decide_eq_true (lt_trans (of_decide_eq_true before) (of_decide_eq_true behind))

def IsNumber (score : Score) : Prop := score ≠ .nan

/-- The comparisons order all numbers. -/
theorem linearOn_numbers : LinearOn IsNumber := by
  constructor
  · rintro (left | -) (right | -) leftNumber rightNumber
    · exact decide_eq_true_iff.trans ⟨congrArg finite, finite.inj⟩
    · exact absurd rfl rightNumber
    · exact absurd rfl leftNumber
    · exact absurd rfl leftNumber
  · rintro (left | -) (right | -) leftNumber rightNumber
    · rcases lt_trichotomy left right with below | same | above
      · exact Or.inl (decide_eq_true below)
      · exact Or.inr (Or.inl (congrArg finite same))
      · exact Or.inr (Or.inr (decide_eq_true above))
    · exact absurd rfl rightNumber
    · exact absurd rfl leftNumber
    · exact absurd rfl leftNumber

/-- The one that is no number stands behind, whichever side it is on. -/
theorem compare_nan (leftId rightId : Nat) (other : Score) :
    compareScoreThenDocId .nan leftId other rightId = .gt ∧
      compareScoreThenDocId other leftId .nan rightId = .gt := by
  cases other with
  | finite value => exact ⟨rfl, rfl⟩
  | nan => exact ⟨rfl, rfl⟩

end Score

/-- Two items of which one has no number are given no order. -/
theorem not_orderOn_of_nan {α : Type} {scoreOf : α → Score} {idOf : α → Nat} {items : List α}
    {first second : α} (firstIn : first ∈ items) (secondIn : second ∈ items) (apart : first ≠ second)
    (none : scoreOf first = .nan) :
    ¬OrderOn (fun left right =>
      compareScoreThenDocId (scoreOf left) (idOf left) (scoreOf right) (idOf right)) items := by
  rintro ⟨swapped, -⟩
  have symmetric : Std.Symm fun left right : α =>
      compareScoreThenDocId (scoreOf right) (idOf right) (scoreOf left) (idOf left) =
        (compareScoreThenDocId (scoreOf left) (idOf left) (scoreOf right) (idOf right)).swap :=
    ⟨fun left right same => by rw [same, Ordering.swap_swap]⟩
  have same := swapped.forall firstIn secondIn apart
  dsimp only at same
  rw [none, (Score.compare_nan _ _ _).1, (Score.compare_nan _ _ _).2] at same
  cases same

/-! ## Vectors -/

/-- `VectorMetric` -/
inductive VectorMetric where
  | cosine
  | dotProduct
  | l2
deriving DecidableEq, Repr

/-- A query vector of the dimension of the index. -/
structure QueryVector where
  components : List ℚ
  size : components.length = docVectorDim

/-- `encoded as i8` -/
def component (encoded : UInt8) : ℚ := encoded.toInt8.toInt

/-- The quotient by two square roots, from the dividend and the squares. -/
abbrev RootQuotient := (dot leftSquares rightSquares : ℚ) → ℚ

/-- `dot / (left.sqrt() * right.sqrt())`; with a zero norm it is `0 / 0`. -/
def cosineOf (quotient : RootQuotient) (dot leftSquares rightSquares : ℚ) : Score :=
  if leftSquares = 0 ∨ rightSquares = 0 then .nan
  else .finite (quotient dot leftSquares rightSquares)

/-- The loop of both functions: `dot`, the squares of both vectors and `l2`. -/
def sums (pairs : List (ℚ × ℚ)) : ℚ × ℚ × ℚ × ℚ :=
  ((pairs.map fun pair => pair.1 * pair.2).sum, (pairs.map fun pair => pair.1 * pair.1).sum,
    (pairs.map fun pair => pair.2 * pair.2).sum,
    (pairs.map fun pair => (pair.1 - pair.2) * (pair.1 - pair.2)).sum)

/-- `ScoreQueryToDoc` -/
def scoreQueryToDoc (quotient : RootQuotient) (query : QueryVector) (doc : DocVector)
    (metric : VectorMetric) : Score :=
  let (dot, nq, nd, l2) :=
    sums ((query.components.zip (doc.bytes.map fun encoded => component encoded / 128)).take
      docVectorDim)
  match metric with
  | .dotProduct => .finite dot
  | .l2 => .finite (1 / (1 + l2))
  | .cosine => cosineOf quotient dot nq nd

/-- `ScoreDocToDoc` -/
def scoreDocToDoc (quotient : RootQuotient) (left right : DocVector) (metric : VectorMetric) :
    Score :=
  let (dot, nl, nr, l2) :=
    sums (((left.bytes.map component).zip (right.bytes.map component)).take docVectorDim)
  match metric with
  | .dotProduct => .finite (dot / (128 * 128))
  | .l2 => .finite (1 / (1 + l2 / (128 * 128)))
  | .cosine => cosineOf quotient dot nl nr

/-- All components are zero. -/
def QueryVector.IsZero (query : QueryVector) : Prop := ∀ value ∈ query.components, value = 0

def DocVectorIsZero (doc : DocVector) : Prop := ∀ encoded ∈ doc.bytes, encoded = 0

instance (query : QueryVector) : Decidable query.IsZero :=
  inferInstanceAs (Decidable (∀ value ∈ query.components, value = 0))

instance (doc : DocVector) : Decidable (DocVectorIsZero doc) :=
  inferInstanceAs (Decidable (∀ encoded ∈ doc.bytes, encoded = 0))

/-! ## Norms -/

theorem component_eq_zero (encoded : UInt8) : component encoded = 0 ↔ encoded = 0 := by
  unfold component
  rw [Int.cast_eq_zero]
  revert encoded
  decide +kernel

theorem squares_eq_zero (values : List ℚ) :
    (values.map fun value => value * value).sum = 0 ↔ ∀ value ∈ values, value = 0 := by
  have nonneg : ∀ rest : List ℚ, 0 ≤ (rest.map fun value => value * value).sum := by
    intro rest
    refine List.sum_nonneg fun square member => ?_
    obtain ⟨value, -, rfl⟩ := List.mem_map.mp member
    exact mul_self_nonneg value
  induction values with
  | nil => exact iff_of_true rfl fun _ member => absurd member List.not_mem_nil
  | cons first rest inductionHypothesis =>
      rw [List.map_cons, List.sum_cons, add_eq_zero_iff_of_nonneg (mul_self_nonneg first)
        (nonneg rest), List.forall_mem_cons]
      exact and_congr mul_self_eq_zero inductionHypothesis

/-- The squares of two vectors of full length. -/
theorem sums_squares {left right : List ℚ} (leftSize : left.length = docVectorDim)
    (rightSize : right.length = docVectorDim) :
    ((sums ((left.zip right).take docVectorDim)).2.1 = 0 ↔ ∀ value ∈ left, value = 0) ∧
      ((sums ((left.zip right).take docVectorDim)).2.2.1 = 0 ↔ ∀ value ∈ right, value = 0) := by
  have all : (left.zip right).take docVectorDim = left.zip right := by
    refine List.take_of_length_le ?_
    rw [List.length_zip, leftSize, rightSize, Nat.min_self]
  have firsts : (left.zip right).map Prod.fst = left :=
    List.map_fst_zip (by rw [leftSize, rightSize])
  have seconds : (left.zip right).map Prod.snd = right :=
    List.map_snd_zip (by rw [leftSize, rightSize])
  rw [all, ← squares_eq_zero left, ← squares_eq_zero right]
  constructor
  · conv_rhs => rw [← firsts, List.map_map]
    rfl
  · conv_rhs => rw [← seconds, List.map_map]
    rfl

theorem cosineOf_isNumber (quotient : RootQuotient) (dot leftSquares rightSquares : ℚ) :
    (cosineOf quotient dot leftSquares rightSquares).IsNumber ↔
      leftSquares ≠ 0 ∧ rightSquares ≠ 0 := by
  unfold cosineOf Score.IsNumber
  split
  · rename_i zeroNorm
    exact iff_of_false (fun number => number rfl) fun both =>
      zeroNorm.elim both.1 both.2
  · rename_i norms
    exact iff_of_true Score.noConfusion (not_or.mp norms)

theorem components_eq_zero (doc : DocVector) :
    (∀ value ∈ doc.bytes.map component, value = 0) ↔ DocVectorIsZero doc := by
  rw [List.forall_mem_map]
  exact forall₂_congr fun encoded _ => component_eq_zero encoded

/-- The cosine of two stored vectors is no number exactly when one of them is all zero. -/
theorem scoreDocToDoc_isNumber (quotient : RootQuotient) (left right : DocVector) :
    (scoreDocToDoc quotient left right .cosine).IsNumber ↔
      ¬DocVectorIsZero left ∧ ¬DocVectorIsZero right := by
  obtain ⟨leftSquares, rightSquares⟩ :=
    @sums_squares (left.bytes.map component) (right.bytes.map component)
      (by rw [List.length_map, left.size]) (by rw [List.length_map, right.size])
  rw [components_eq_zero] at leftSquares rightSquares
  exact (cosineOf_isNumber quotient _ _ _).trans
    (and_congr (not_congr leftSquares) (not_congr rightSquares))

theorem scoreQueryToDoc_isNumber (quotient : RootQuotient) (query : QueryVector) (doc : DocVector) :
    (scoreQueryToDoc quotient query doc .cosine).IsNumber ↔
      ¬query.IsZero ∧ ¬DocVectorIsZero doc := by
  obtain ⟨querySquares, docSquares⟩ := @sums_squares query.components
    (doc.bytes.map fun encoded => component encoded / 128) query.size
    (by rw [List.length_map, doc.size])
  have scaled : (∀ value ∈ doc.bytes.map fun encoded => component encoded / 128, value = 0) ↔
      DocVectorIsZero doc := by
    rw [List.forall_mem_map]
    refine forall₂_congr fun encoded _ => ?_
    rw [div_eq_zero_iff, component_eq_zero]
    exact or_iff_left (by norm_num)
  exact (cosineOf_isNumber quotient _ _ _).trans
    (and_congr (not_congr querySquares) (not_congr (docSquares.trans scaled)))

/-- Without zero vectors every score is a number. -/
theorem scoreQueryToDoc_number (quotient : RootQuotient) {query : QueryVector} {doc : DocVector}
    (queryNonzero : ¬query.IsZero) (docNonzero : ¬DocVectorIsZero doc) (metric : VectorMetric) :
    (scoreQueryToDoc quotient query doc metric).IsNumber := by
  cases metric with
  | cosine => exact (scoreQueryToDoc_isNumber quotient query doc).mpr ⟨queryNonzero, docNonzero⟩
  | dotProduct => exact Score.noConfusion
  | l2 => exact Score.noConfusion

end MoonShot.Vector
