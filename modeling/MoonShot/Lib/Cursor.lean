import Mathlib

/-!
Cursors over finite sets of documents.

Owns the four operations of a cursor that walks a set in ascending order, the
laws that tie a cursor to the set of documents it has not passed yet, the parts of
its state that no move touches, and the set operations that composite cursors
compute: the intersection and the union of a list of sets and the documents that
enough sets of a list have in common.
Moves return an option, since a composite cursor may loop.
-/

namespace MoonShot.Lib

/-- A walk over documents in ascending order. -/
structure Cursor (σ δ : Type) where
  isEnd : σ → Bool
  docId : σ → δ
  goNext : σ → Option σ
  goUntil : σ → δ → Option σ

variable {σ δ : Type} [LinearOrder δ]

/-! ## The first document left -/

/-- The least document, or the limit when there is none. -/
def firstOf (limit : δ) (docs : Finset δ) : δ :=
  if nonempty : docs.Nonempty then docs.min' nonempty else limit

section First

variable {limit : δ} {docs : Finset δ}

@[simp] theorem firstOf_empty (limit : δ) : firstOf limit (∅ : Finset δ) = limit := by
  simp [firstOf]

theorem firstOf_mem (nonempty : docs.Nonempty) : firstOf limit docs ∈ docs := by
  rw [firstOf, dif_pos nonempty]
  exact docs.min'_mem nonempty

theorem firstOf_le {doc : δ} (member : doc ∈ docs) : firstOf limit docs ≤ doc := by
  rw [firstOf, dif_pos ⟨doc, member⟩]
  exact docs.min'_le doc member

theorem isLeast_firstOf (limit : δ) (nonempty : docs.Nonempty) :
    IsLeast (docs : Set δ) (firstOf limit docs) :=
  ⟨firstOf_mem nonempty, fun _ member => firstOf_le member⟩

theorem firstOf_eq_of_isLeast {doc : δ} (least : IsLeast (docs : Set δ) doc) :
    firstOf limit docs = doc :=
  le_antisymm (firstOf_le least.1) (least.2 (firstOf_mem ⟨doc, least.1⟩))

theorem firstOf_eq_limit_iff (bound : ∀ doc ∈ docs, doc < limit) :
    firstOf limit docs = limit ↔ docs = ∅ := by
  constructor
  · intro ended
    by_contra some_
    have member : firstOf limit docs ∈ docs := firstOf_mem (Finset.nonempty_of_ne_empty some_)
    have below := bound _ member
    rw [ended] at below
    exact lt_irrefl _ below
  · rintro rfl
    exact firstOf_empty limit

end First

/-! ## Laws of a cursor -/

/-- The cursor walks the documents that `left` says are left. -/
structure Cursor.Lawful (cursor : Cursor σ δ) (limit : δ) (left : σ → Finset δ → Prop) :
    Prop where
  bound : ∀ {state docs}, left state docs → ∀ doc ∈ docs, doc < limit
  isEnd : ∀ {state docs}, left state docs → (cursor.isEnd state = true ↔ docs = ∅)
  docId : ∀ {state docs}, left state docs → docs.Nonempty →
    cursor.docId state = firstOf limit docs
  goNext : ∀ {state docs}, left state docs →
    ∃ next, cursor.goNext state = some next ∧ left next (docs.erase (firstOf limit docs))
  goUntil : ∀ {state docs} (target : δ), left state docs →
    ∃ next, cursor.goUntil state target = some next ∧ left next (docs.filter (target ≤ ·))

/-- The moves of the cursor leave this part of its state as it is. -/
structure Cursor.Keeps {γ : Type} (cursor : Cursor σ δ) (part : σ → γ) : Prop where
  goNext : ∀ {state next}, cursor.goNext state = some next → part next = part state
  goUntil : ∀ {state next} {target : δ}, cursor.goUntil state target = some next →
    part next = part state

/-! ## Lists of sets -/

/-- The documents of every set; none for an empty list. -/
def interAll : List (Finset δ) → Finset δ
  | [] => ∅
  | first :: rest => first.filter fun doc => ∀ docs ∈ rest, doc ∈ docs

/-- The documents of some set. -/
def unionAll (sets : List (Finset δ)) : Finset δ := sets.foldr (· ∪ ·) ∅

/-- The documents of at least `count` sets of the list. -/
def atLeast (count : Nat) (sets : List (Finset δ)) : Finset δ :=
  (unionAll sets).filter fun doc => count ≤ sets.countP fun docs => doc ∈ docs

/-- The documents of the sets that pass the test. -/
def keepIn (keep : δ → Bool) (sets : List (Finset δ)) : List (Finset δ) :=
  sets.map fun docs => docs.filter fun doc => keep doc = true

/-- How many documents the sets have together. -/
def totalOf (sets : List (Finset δ)) : Nat := (sets.map Finset.card).sum

section Lists

variable {sets : List (Finset δ)} {doc : δ}

theorem mem_interAll : doc ∈ interAll sets ↔ sets ≠ [] ∧ ∀ docs ∈ sets, doc ∈ docs := by
  cases sets with
  | nil => simp [interAll]
  | cons first rest => simp [interAll]

theorem mem_unionAll : doc ∈ unionAll sets ↔ ∃ docs ∈ sets, doc ∈ docs := by
  induction sets with
  | nil => simp [unionAll]
  | cons first rest inductionHypothesis =>
      rw [unionAll, List.foldr_cons, Finset.mem_union, ← unionAll, inductionHypothesis]
      simp

theorem interAll_singleton (docs : Finset δ) : interAll [docs] = docs := by
  simp [interAll]

theorem unionAll_singleton (docs : Finset δ) : unionAll [docs] = docs := by
  simp [unionAll]

theorem mem_atLeast {count : Nat} (positive : 0 < count) :
    doc ∈ atLeast count sets ↔ count ≤ sets.countP fun docs => doc ∈ docs := by
  rw [atLeast, Finset.mem_filter, mem_unionAll, and_iff_right_iff_imp]
  intro enough
  obtain ⟨docs, member, inside⟩ := List.countP_pos_iff.mp (lt_of_lt_of_le positive enough)
  exact ⟨docs, member, by simpa using inside⟩

theorem interAll_map_filter (keep : δ → Prop) [DecidablePred keep] :
    interAll (sets.map (Finset.filter keep)) = (interAll sets).filter keep := by
  ext doc
  rw [Finset.mem_filter, mem_interAll, mem_interAll]
  constructor
  · rintro ⟨nonempty, inside⟩
    have listed : sets ≠ [] := by simpa using nonempty
    obtain ⟨first, member⟩ := List.exists_mem_of_ne_nil sets listed
    have kept := inside _ (List.mem_map_of_mem member)
    refine ⟨⟨listed, ?_⟩, (Finset.mem_filter.mp kept).2⟩
    intro docs member
    exact (Finset.mem_filter.mp (inside _ (List.mem_map_of_mem member))).1
  · rintro ⟨⟨nonempty, inside⟩, kept⟩
    refine ⟨by simpa using nonempty, ?_⟩
    intro docs member
    obtain ⟨old, oldMember, rfl⟩ := List.mem_map.mp member
    exact Finset.mem_filter.mpr ⟨inside old oldMember, kept⟩

theorem unionAll_map_filter (keep : δ → Prop) [DecidablePred keep] :
    unionAll (sets.map (Finset.filter keep)) = (unionAll sets).filter keep := by
  ext doc
  rw [Finset.mem_filter, mem_unionAll, mem_unionAll]
  constructor
  · rintro ⟨docs, member, inside⟩
    obtain ⟨old, oldMember, rfl⟩ := List.mem_map.mp member
    obtain ⟨oldInside, kept⟩ := Finset.mem_filter.mp inside
    exact ⟨⟨old, oldMember, oldInside⟩, kept⟩
  · rintro ⟨⟨docs, member, inside⟩, kept⟩
    exact ⟨_, List.mem_map_of_mem member, Finset.mem_filter.mpr ⟨inside, kept⟩⟩

theorem atLeast_map_filter {count : Nat} (positive : 0 < count) (keep : δ → Prop)
    [DecidablePred keep] :
    atLeast count (sets.map (Finset.filter keep)) = (atLeast count sets).filter keep := by
  ext doc
  rw [Finset.mem_filter, mem_atLeast positive, mem_atLeast positive, List.countP_map]
  by_cases kept : keep doc
  · have same : (fun docs => decide (doc ∈ docs)) ∘ Finset.filter keep =
        fun docs => decide (doc ∈ docs) := by
      funext docs
      simp [kept]
    rw [same]
    simp [kept]
  · have never : sets.countP ((fun docs => decide (doc ∈ docs)) ∘ Finset.filter keep) = 0 := by
      apply List.countP_eq_zero.mpr
      intro docs _
      simp [kept]
    rw [never]
    simp only [kept, and_false, iff_false, not_le]
    exact positive

omit [LinearOrder δ] in
theorem keepIn_all (sets : List (Finset δ)) : keepIn (fun _ => true) sets = sets := by
  simp [keepIn]

omit [LinearOrder δ] in
theorem keepIn_keepIn (first second : δ → Bool) (sets : List (Finset δ)) :
    keepIn second (keepIn first sets) = keepIn (fun doc => first doc && second doc) sets := by
  simp [keepIn, Finset.filter_filter]

omit [LinearOrder δ] in
theorem map_filter_eq_keepIn (keep : δ → Prop) [DecidablePred keep] (sets : List (Finset δ)) :
    sets.map (Finset.filter keep) = keepIn (fun doc => decide (keep doc)) sets := by
  simp [keepIn]

omit [LinearOrder δ] in
theorem totalOf_map_filter_le (sets : List (Finset δ)) (keep : δ → Prop) [DecidablePred keep] :
    totalOf (sets.map (Finset.filter keep)) ≤ totalOf sets := by
  unfold totalOf
  induction sets with
  | nil => simp
  | cons first rest inductionHypothesis =>
      simp only [List.map_cons, List.sum_cons]
      have := Finset.card_filter_le first keep
      omega

omit [LinearOrder δ] in
/-- A document of some set that is not kept makes the total smaller. -/
theorem totalOf_map_filter_lt (keep : δ → Prop) [DecidablePred keep] {docs : Finset δ}
    (member : docs ∈ sets) (inside : doc ∈ docs) (dropped : ¬keep doc) :
    totalOf (sets.map (Finset.filter keep)) < totalOf sets := by
  induction sets with
  | nil => cases member
  | cons first rest inductionHypothesis =>
      have bounded := totalOf_map_filter_le rest keep
      have firstBounded := Finset.card_filter_le first keep
      unfold totalOf at bounded inductionHypothesis ⊢
      simp only [List.map_cons, List.sum_cons]
      cases member with
      | head =>
          have smaller : (docs.filter keep).card < docs.card :=
            Finset.card_lt_card (Finset.filter_ssubset.mpr ⟨doc, inside, dropped⟩)
          omega
      | tail _ member =>
          have := inductionHypothesis member
          omega

end Lists

end MoonShot.Lib
