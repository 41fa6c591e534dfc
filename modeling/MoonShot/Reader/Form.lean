import MoonShot.Lib.Cursor
import MoonShot.Postings.Store

/-!
What a tree of readers is, apart from where it stands.

Owns the form of a tree, the documents a form denotes and the values it has on a
document. A value is anything that readers add up over a tree: a score or a mask of
sources.
-/

namespace MoonShot.Reader

open MoonShot.Lib
open MoonShot.Postings

/-! ## Values -/

/-- How values of a tree are made: the value of a leaf on a document, and what a boost
of this weight and value adds. -/
structure Valuation (M : Type) where
  zero : M
  add : M → M → M
  leaf : Str → UInt32 → UInt64 → M
  boosted : F32 → M → M
  zero_add : ∀ value, add zero value = value
  add_zero : ∀ value, add value zero = value

namespace Valuation

variable {M : Type} (valuation : Valuation M)

/-- The values added up from left to right. -/
def total (values : List M) : M := values.foldl valuation.add valuation.zero

theorem total_singleton (value : M) : valuation.total [value] = value := valuation.zero_add value

end Valuation

/-! ## Forms -/

/-- The kinds of the readers in a tree, without their positions. -/
inductive ReaderForm where
  | leaf (word : Str) (wordSpan : UInt32)
  | and (children : List ReaderForm)
  | or (children : List ReaderForm)
  | weakAnd (children : List ReaderForm) (minShouldMatch : Nat)
  | boost (base boost : ReaderForm) (boostWeight : F32)
  | not (base exclude : ReaderForm)

namespace ReaderForm

section Docs

variable (lists : Str → Finset UInt64)

mutual

/-- The documents of a form, where a word has these documents. -/
def docs : ReaderForm → Finset UInt64
  | .leaf word _ => lists word
  | .and children => interAll (docsOfAll children)
  | .or children => unionAll (docsOfAll children)
  | .weakAnd children minShouldMatch => atLeast minShouldMatch (docsOfAll children)
  | .boost base _ _ => base.docs
  | .not base exclude => base.docs \ exclude.docs

def docsOfAll : List ReaderForm → List (Finset UInt64)
  | [] => []
  | form :: rest => form.docs :: docsOfAll rest

end

theorem docsOfAll_eq (forms : List ReaderForm) : docsOfAll lists forms = forms.map (docs lists) := by
  induction forms with
  | nil => rfl
  | cons form rest inductionHypothesis => rw [docsOfAll, inductionHypothesis, List.map_cons]

end Docs

section Value

variable {M : Type} (lists : Str → Finset UInt64) (valuation : Valuation M)

mutual

/-- The value of a form on a document. -/
def value : ReaderForm → UInt64 → M
  | .leaf word wordSpan, doc => valuation.leaf word wordSpan doc
  | .and children, doc => valuation.total (values children doc)
  | .or children, doc => valuation.total (matchingValues children doc)
  | .weakAnd children _, doc => valuation.total (matchingValues children doc)
  | .boost base follower boostWeight, doc =>
      if doc ∈ follower.docs lists then
        valuation.add (base.value doc) (valuation.boosted boostWeight (follower.value doc))
      else base.value doc
  | .not base _, doc => base.value doc

def values : List ReaderForm → UInt64 → List M
  | [], _ => []
  | form :: rest, doc => form.value doc :: values rest doc

/-- The values of the forms that have the document. -/
def matchingValues : List ReaderForm → UInt64 → List M
  | [], _ => []
  | form :: rest, doc =>
      if doc ∈ form.docs lists then form.value doc :: matchingValues rest doc
      else matchingValues rest doc

end

theorem values_eq (forms : List ReaderForm) (doc : UInt64) :
    values lists valuation forms doc = forms.map fun form => form.value lists valuation doc := by
  induction forms with
  | nil => rfl
  | cons form rest inductionHypothesis => rw [values, inductionHypothesis, List.map_cons]

theorem matchingValues_eq (forms : List ReaderForm) (doc : UInt64) :
    matchingValues lists valuation forms doc =
      (forms.filter fun form => doc ∈ form.docs lists).map fun form =>
        form.value lists valuation doc := by
  induction forms with
  | nil => rfl
  | cons form rest inductionHypothesis =>
      rw [matchingValues, inductionHypothesis]
      by_cases inside : doc ∈ form.docs lists
      · rw [if_pos inside, List.filter_cons_of_pos (by simpa using inside), List.map_cons]
      · rw [if_neg inside, List.filter_cons_of_neg (by simpa using inside)]

end Value

end ReaderForm

end MoonShot.Reader
