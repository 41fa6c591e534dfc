import MoonShot.Lib.Cursor
import MoonShot.Postings.Store

/-!
Composite readers that drive one reader from another: `AndIndexReader`,
`NotIndexReader` and `BoostIndexReader`.

Owns their loops over any child reader and, for each, what is left when the
children are lawful cursors: the intersection, the difference and the base.
Loops take a bound on their turns; the number of documents the children have
left is always enough.
-/

namespace MoonShot.Reader

open MoonShot.Lib
open MoonShot.Postings

/-- `NO_MORE_DOCS` -/
def noMoreDocs : UInt64 := 0xFFFFFFFFFFFFFFFF

section Readers

variable {σ : Type} (child : Cursor σ UInt64)

/-! ## `AndIndexReader` -/

/-- How one pass of `AlignToPivot` over the children ends. -/
inductive Alignment where
  | aligned
  | ended
  | overshot
deriving DecidableEq

/-- One pass of `AlignToPivot` over the children. -/
def moveToPivot (pivot : UInt64) : List σ → Option (List σ × Alignment)
  | [] => some ([], .aligned)
  | first :: rest =>
      if child.docId first = pivot then
        (moveToPivot pivot rest).map fun (rest, outcome) => (first :: rest, outcome)
      else
        match child.goUntil first pivot with
        | none => none
        | some first =>
            if child.isEnd first then some (first :: rest, .ended)
            else if child.docId first = pivot then
              (moveToPivot pivot rest).map fun (rest, outcome) => (first :: rest, outcome)
            else some (first :: rest, .overshot)

/-- `AndIndexReader::AlignToPivot` -/
def alignToPivot : (fuel : Nat) → List σ → Option (List σ)
  | 0, _ => none
  | fuel + 1, children =>
      if children.any child.isEnd then some children
      else
        let pivot := (children.map child.docId).max?.getD noMoreDocs
        match moveToPivot child pivot children with
        | none => none
        | some (children, .overshot) => alignToPivot fuel children
        | some (children, _) => some children

def andIsEnd (children : List σ) : Bool := children.isEmpty || children.any child.isEnd

def andDocId (children : List σ) : UInt64 :=
  if andIsEnd child children then noMoreDocs
  else
    match children with
    | [] => noMoreDocs
    | first :: _ => child.docId first

/-- `AndIndexReader::GoNext` -/
def andGoNext (fuel : Nat) (children : List σ) : Option (List σ) :=
  if andIsEnd child children then some children
  else
    let doc := andDocId child children
    let moved := children.mapM fun reader =>
      if child.isEnd reader = false ∧ child.docId reader = doc then child.goNext reader
      else some reader
    moved.bind (alignToPivot child fuel)

/-- `AndIndexReader::GoUntil` -/
def andGoUntil (fuel : Nat) (children : List σ) (target : UInt64) : Option (List σ) :=
  (children.mapM fun reader => child.goUntil reader target).bind (alignToPivot child fuel)

/-! ## `NotIndexReader` -/

/-- `NotIndexReader::SkipExcluded` -/
def skipExcluded : (fuel : Nat) → σ → σ → Option (σ × σ)
  | 0, _, _ => none
  | fuel + 1, base, exclude =>
      if child.isEnd base then some (base, exclude)
      else
        match child.goUntil exclude (child.docId base) with
        | none => none
        | some exclude =>
            if child.isEnd exclude = false ∧ child.docId exclude = child.docId base then
              (child.goNext base).bind fun base => skipExcluded fuel base exclude
            else some (base, exclude)

def notGoNext (fuel : Nat) (base exclude : σ) : Option (σ × σ) :=
  (child.goNext base).bind fun base => skipExcluded child fuel base exclude

def notGoUntil (fuel : Nat) (base exclude : σ) (target : UInt64) : Option (σ × σ) :=
  (child.goUntil base target).bind fun base => skipExcluded child fuel base exclude

/-! ## `BoostIndexReader` -/

/-- The document of a child, or the end mark. -/
def childDoc (reader : σ) : UInt64 :=
  if child.isEnd reader then noMoreDocs else child.docId reader

structure BoostIndexReader (σ : Type) where
  base : σ
  boost : σ
  boostWeight : F32
  currentDoc : UInt64
  boostDoc : UInt64

def newBoost (base boost : σ) (boostWeight : F32) : BoostIndexReader σ :=
  ⟨base, boost, boostWeight, childDoc child base, childDoc child boost⟩

def boostGoNext (reader : BoostIndexReader σ) : Option (BoostIndexReader σ) :=
  if reader.currentDoc = noMoreDocs then some reader
  else
    (child.goNext reader.base).map fun base =>
      { reader with base := base, currentDoc := childDoc child base }

def boostGoUntil (reader : BoostIndexReader σ) (target : UInt64) :
    Option (BoostIndexReader σ) :=
  (child.goUntil reader.base target).map fun base =>
    { reader with base := base, currentDoc := childDoc child base }

end Readers

/-! ## What is left of lawful children -/

section Left

variable {σ : Type} {child : Cursor σ UInt64} {left : σ → Finset UInt64 → Prop}

/-- One move of every child. -/
theorem mapM_moved (move : σ → Option σ) (trim : Finset UInt64 → Finset UInt64)
    {children : List σ} {sets : List (Finset UInt64)} (stands : List.Forall₂ left children sets)
    (moves : ∀ reader docs, docs ∈ sets → left reader docs →
      ∃ next, move reader = some next ∧ left next (trim docs)) :
    ∃ moved, children.mapM move = some moved ∧ List.Forall₂ left moved (sets.map trim) := by
  induction stands with
  | nil => exact ⟨[], rfl, .nil⟩
  | @cons reader docs readers rest first _ inductionHypothesis =>
      obtain ⟨next, moved, stands⟩ := moves reader docs List.mem_cons_self first
      obtain ⟨others, othersMoved, othersStand⟩ := inductionHypothesis
        fun reader docs member => moves reader docs (List.mem_cons_of_mem _ member)
      exact ⟨next :: others, by simp [moved, othersMoved], .cons stands othersStand⟩

/-- The set is the same or has lost documents below the pivot only. -/
def Trimmed (pivot : UInt64) (before after : Finset UInt64) : Prop :=
  after = before ∨ after = before.filter (pivot ≤ ·)

theorem Trimmed.subset {pivot : UInt64} {before after : Finset UInt64}
    (trimmed : Trimmed pivot before after) : after ⊆ before := by
  rcases trimmed with rfl | rfl
  · exact Finset.Subset.refl _
  · exact Finset.filter_subset _ _

theorem Trimmed.keeps {pivot : UInt64} {before after : Finset UInt64}
    (trimmed : Trimmed pivot before after) {doc : UInt64} (inside : doc ∈ before)
    (reached : pivot ≤ doc) : doc ∈ after := by
  rcases trimmed with rfl | rfl
  · exact inside
  · exact Finset.mem_filter.mpr ⟨inside, reached⟩

/-- The children agree on their document, or one of them is at its end. -/
def Aligned (sets : List (Finset UInt64)) : Prop :=
  ∅ ∈ sets ∨ ∃ doc, ∀ docs ∈ sets, IsLeast (docs : Set UInt64) doc

theorem interAll_trimmed {pivot : UInt64} {before after : List (Finset UInt64)}
    (trimmed : List.Forall₂ (Trimmed pivot) before after) {docs : Finset UInt64}
    (member : docs ∈ before) (above : ∀ doc ∈ docs, pivot ≤ doc) :
    interAll after = interAll before := by
  have forward : ∀ doc, (∀ docs ∈ after, doc ∈ docs) → ∀ docs ∈ before, doc ∈ docs := by
    intro doc
    clear member
    induction trimmed with
    | nil => exact fun inside => inside
    | cons first _ inductionHypothesis =>
        intro inside docs member
        rcases List.mem_cons.mp member with rfl | member
        · exact first.subset (inside _ List.mem_cons_self)
        · exact inductionHypothesis (fun docs member => inside docs (List.mem_cons_of_mem _ member))
            docs member
  have backward : ∀ doc, pivot ≤ doc → (∀ docs ∈ before, doc ∈ docs) →
      ∀ docs ∈ after, doc ∈ docs := by
    intro doc reached
    clear member forward
    induction trimmed with
    | nil => exact fun inside => inside
    | cons first _ inductionHypothesis =>
        intro inside docs member
        rcases List.mem_cons.mp member with rfl | member
        · exact first.keeps (inside _ List.mem_cons_self) reached
        · exact inductionHypothesis (fun docs member => inside docs (List.mem_cons_of_mem _ member))
            docs member
  have listed : after ≠ [] ↔ before ≠ [] := by
    rw [← List.length_pos_iff, ← List.length_pos_iff, trimmed.length_eq]
  ext doc
  rw [mem_interAll, mem_interAll, listed]
  constructor
  · rintro ⟨nonempty, inside⟩
    exact ⟨nonempty, forward doc inside⟩
  · rintro ⟨nonempty, inside⟩
    exact ⟨nonempty, backward doc (above doc (inside docs member)) inside⟩

theorem totalOf_trimmed {pivot : UInt64} {before after : List (Finset UInt64)}
    (trimmed : List.Forall₂ (Trimmed pivot) before after) : totalOf after ≤ totalOf before := by
  unfold totalOf
  induction trimmed with
  | nil => exact le_rfl
  | cons first _ inductionHypothesis =>
      simp only [List.map_cons, List.sum_cons]
      have := Finset.card_le_card first.subset
      omega

/-- What a pass over the children says about the sets after it. -/
def Alignment.Holds (pivot : UInt64) (before after : List (Finset UInt64)) : Alignment → Prop
  | .aligned => ∀ docs ∈ after, IsLeast (docs : Set UInt64) pivot
  | .ended => ∅ ∈ after
  | .overshot => totalOf after < totalOf before

theorem Alignment.Holds.cons {pivot : UInt64} {before after : List (Finset UInt64)}
    {outcome : Alignment} (reported : outcome.Holds pivot before after)
    {first trim : Finset UInt64}
    (least : IsLeast (trim : Set UInt64) pivot) (firstTrimmed : Trimmed pivot first trim) :
    outcome.Holds pivot (first :: before) (trim :: after) := by
  cases outcome with
  | aligned =>
      intro docs member
      rcases List.mem_cons.mp member with rfl | member
      · exact least
      · exact reported docs member
  | ended => exact List.mem_cons_of_mem _ reported
  | overshot =>
      have := Finset.card_le_card firstTrimmed.subset
      have smaller : totalOf after < totalOf before := reported
      show totalOf (trim :: after) < totalOf (first :: before)
      unfold totalOf at smaller ⊢
      simp only [List.map_cons, List.sum_cons]
      omega

theorem moveToPivot_spec (lawful : child.Lawful noMoreDocs left) (pivot : UInt64)
    {children : List σ} {sets : List (Finset UInt64)} (stands : List.Forall₂ left children sets)
    (below : ∀ docs ∈ sets, docs.Nonempty ∧ firstOf noMoreDocs docs ≤ pivot) :
    ∃ moved outcome after, moveToPivot child pivot children = some (moved, outcome) ∧
      List.Forall₂ left moved after ∧ List.Forall₂ (Trimmed pivot) sets after ∧
      outcome.Holds pivot sets after := by
  have refl : ∀ sets : List (Finset UInt64), List.Forall₂ (Trimmed pivot) sets sets :=
    fun sets => List.forall₂_same.mpr fun _ _ => Or.inl rfl
  induction stands with
  | nil => exact ⟨[], .aligned, [], rfl, .nil, .nil, by simp [Alignment.Holds]⟩
  | @cons reader docs readers rest first others inductionHypothesis =>
      obtain ⟨nonempty, firstBelow⟩ := below docs List.mem_cons_self
      have here := lawful.docId first nonempty
      obtain ⟨moved, outcome, after, movedEq, movedStands, trimmed, reported⟩ :=
        inductionHypothesis fun docs member => below docs (List.mem_cons_of_mem _ member)
      unfold moveToPivot
      by_cases onPivot : child.docId reader = pivot
      · rw [if_pos onPivot, movedEq]
        have least : IsLeast (docs : Set UInt64) pivot := by
          rw [← onPivot, here]
          exact isLeast_firstOf noMoreDocs nonempty
        exact ⟨reader :: moved, outcome, docs :: after, rfl, .cons first movedStands,
          .cons (Or.inl rfl) trimmed, reported.cons least (Or.inl rfl)⟩
      · rw [if_neg onPivot]
        obtain ⟨next, nextEq, nextStands⟩ := lawful.goUntil pivot first
        rw [nextEq]
        dsimp only
        have cut : Trimmed pivot docs (docs.filter (pivot ≤ ·)) := Or.inr rfl
        by_cases ended : child.isEnd next = true
        · rw [if_pos ended]
          have empty := (lawful.isEnd nextStands).mp ended
          exact ⟨next :: readers, .ended, _ :: rest, rfl, .cons nextStands others,
            .cons cut (refl rest), by rw [empty]; exact List.mem_cons_self⟩
        · rw [if_neg ended]
          have some_ : (docs.filter (pivot ≤ ·)).Nonempty := by
            rw [Finset.nonempty_iff_ne_empty]
            exact fun empty => ended ((lawful.isEnd nextStands).mpr empty)
          have nextDoc := lawful.docId nextStands some_
          by_cases reached : child.docId next = pivot
          · rw [if_pos reached, movedEq]
            have least : IsLeast ((docs.filter (pivot ≤ ·) : Finset UInt64) : Set UInt64) pivot := by
              have atFirst := isLeast_firstOf noMoreDocs some_
              rwa [← nextDoc, reached] at atFirst
            exact ⟨next :: moved, outcome, _ :: after, rfl, .cons nextStands movedStands,
              .cons cut trimmed, reported.cons least cut⟩
          · rw [if_neg reached]
            -- The document the child stood on is below the pivot and is gone.
            have lower : firstOf noMoreDocs docs < pivot :=
              lt_of_le_of_ne firstBelow (by rw [← here]; exact onPivot)
            have smaller : (docs.filter (pivot ≤ ·)).card < docs.card :=
              Finset.card_lt_card (Finset.filter_ssubset.mpr
                ⟨_, firstOf_mem nonempty, not_le.mpr lower⟩)
            refine ⟨next :: readers, .overshot, _ :: rest, rfl, .cons nextStands others,
              .cons cut (refl rest), ?_⟩
            show totalOf (_ :: rest) < totalOf (docs :: rest)
            unfold totalOf
            simp only [List.map_cons, List.sum_cons]
            omega

theorem isEnd_iff_mem (lawful : child.Lawful noMoreDocs left) {children : List σ}
    {sets : List (Finset UInt64)} (stands : List.Forall₂ left children sets) :
    children.any child.isEnd = true ↔ ∅ ∈ sets := by
  induction stands with
  | nil => simp
  | cons first _ inductionHypothesis =>
      rw [List.any_cons, Bool.or_eq_true, inductionHypothesis, lawful.isEnd first, List.mem_cons,
        eq_comm]

theorem docIds_eq (lawful : child.Lawful noMoreDocs left) {children : List σ}
    {sets : List (Finset UInt64)} (stands : List.Forall₂ left children sets)
    (nonempty : ∀ docs ∈ sets, docs.Nonempty) :
    children.map child.docId = sets.map (firstOf noMoreDocs) := by
  induction stands with
  | nil => rfl
  | cons first _ inductionHypothesis =>
      rw [List.map_cons, List.map_cons, lawful.docId first (nonempty _ List.mem_cons_self),
        inductionHypothesis fun docs member => nonempty docs (List.mem_cons_of_mem _ member)]

/-- The loop ends, keeps the intersection and leaves the children aligned: a pass
that overshoots the pivot has taken a document from some child. -/
theorem alignToPivot_spec (lawful : child.Lawful noMoreDocs left) {fuel : Nat} {children : List σ}
    {sets : List (Finset UInt64)} (stands : List.Forall₂ left children sets)
    (enough : totalOf sets < fuel) :
    ∃ aligned after, alignToPivot child fuel children = some aligned ∧
      List.Forall₂ left aligned after ∧ Aligned after ∧ interAll after = interAll sets ∧
      totalOf after ≤ totalOf sets := by
  induction fuel generalizing children sets with
  | zero => omega
  | succ fuel inductionHypothesis =>
      unfold alignToPivot
      by_cases ended : children.any child.isEnd = true
      · rw [if_pos ended]
        exact ⟨children, sets, rfl, stands, Or.inl ((isEnd_iff_mem lawful stands).mp ended), rfl,
          le_rfl⟩
      · rw [if_neg ended]
        have nonempty : ∀ docs ∈ sets, docs.Nonempty := by
          intro docs member
          rw [Finset.nonempty_iff_ne_empty]
          rintro rfl
          exact ended ((isEnd_iff_mem lawful stands).mpr member)
        cases pivotEq : (children.map child.docId).max? with
        | none =>
            -- No children at all.
            have : children = [] := by simpa using pivotEq
            subst this
            cases stands
            exact ⟨[], [], rfl, .nil, Or.inr ⟨noMoreDocs, by simp⟩, rfl, le_rfl⟩
        | some pivot =>
            rw [docIds_eq lawful stands nonempty, List.max?_eq_some_iff] at pivotEq
            obtain ⟨attained, highest⟩ := pivotEq
            obtain ⟨top, topMember, topFirst⟩ := List.mem_map.mp attained
            obtain ⟨moved, outcome, after, movedEq, movedStands, trimmed, reported⟩ :=
              moveToPivot_spec lawful pivot stands fun docs member =>
                ⟨nonempty docs member, highest _ (List.mem_map_of_mem member)⟩
            have above : ∀ doc ∈ top, pivot ≤ doc := by
              intro doc member
              rw [← topFirst]
              exact firstOf_le member
            have same := interAll_trimmed trimmed topMember above
            have smaller := totalOf_trimmed trimmed
            dsimp only
            rw [Option.getD_some, movedEq]
            cases outcome with
            | aligned => exact ⟨moved, after, rfl, movedStands, Or.inr ⟨pivot, reported⟩, same, smaller⟩
            | ended => exact ⟨moved, after, rfl, movedStands, Or.inl reported, same, smaller⟩
            | overshot =>
                have strictly : totalOf after < totalOf sets := reported
                obtain ⟨aligned, final, alignedEq, alignedStands, isAligned, inter, total⟩ :=
                  inductionHypothesis movedStands (by omega)
                exact ⟨aligned, final, alignedEq, alignedStands, isAligned, by rw [inter, same],
                  by omega⟩

/-! ### The intersection -/

/-- Aligned sets all have the first document of their intersection first. -/
theorem Aligned.first {sets : List (Finset UInt64)} (aligned : Aligned sets)
    (nonempty : (interAll sets).Nonempty) :
    ∀ set ∈ sets, IsLeast (set : Set UInt64) (firstOf noMoreDocs (interAll sets)) := by
  obtain ⟨doc, member⟩ := nonempty
  obtain ⟨listed, inside⟩ := mem_interAll.mp member
  rcases aligned with ended | ⟨least, isLeast⟩
  · exact absurd (inside ∅ ended) (Finset.notMem_empty doc)
  · have first : firstOf noMoreDocs (interAll sets) = least := by
      apply firstOf_eq_of_isLeast
      refine ⟨mem_interAll.mpr ⟨listed, fun set member => (isLeast set member).1⟩, ?_⟩
      intro other otherMember
      obtain ⟨set, setMember⟩ := List.exists_mem_of_ne_nil sets listed
      exact (isLeast set setMember).2 ((mem_interAll.mp otherMember).2 set setMember)
    rw [first]
    exact isLeast

/-- What is left of an `AndIndexReader`. -/
def AndAt (left : σ → Finset UInt64 → Prop) (fuel : Nat) (children : List σ)
    (docs : Finset UInt64) : Prop :=
  ∃ sets, List.Forall₂ left children sets ∧ Aligned sets ∧ totalOf sets < fuel ∧
    docs = interAll sets

theorem andAt_new (lawful : child.Lawful noMoreDocs left) {fuel : Nat} {children : List σ}
    {sets : List (Finset UInt64)} (stands : List.Forall₂ left children sets)
    (enough : totalOf sets < fuel) :
    ∃ aligned, alignToPivot child fuel children = some aligned ∧
      AndAt left fuel aligned (interAll sets) := by
  obtain ⟨aligned, after, alignedEq, alignedStands, isAligned, inter, total⟩ :=
    alignToPivot_spec lawful stands enough
  exact ⟨aligned, alignedEq, after, alignedStands, isAligned, by omega, inter.symm⟩

section And

variable (lawful : child.Lawful noMoreDocs left) {fuel : Nat} {children : List σ}
    {docs : Finset UInt64}

include lawful

theorem andAt_isEnd (stands : AndAt left fuel children docs) :
    andIsEnd child children = true ↔ docs = ∅ := by
  obtain ⟨sets, children_, aligned, _, rfl⟩ := stands
  rw [andIsEnd, Bool.or_eq_true, isEnd_iff_mem lawful children_, List.isEmpty_iff]
  constructor
  · rintro (rfl | ended)
    · cases children_
      rfl
    · apply Finset.eq_empty_of_forall_notMem
      intro doc member
      exact Finset.notMem_empty doc ((mem_interAll.mp member).2 ∅ ended)
  · intro nothing
    cases sets with
    | nil =>
        cases children_
        exact Or.inl rfl
    | cons first rest =>
        right
        rcases aligned with ended | ⟨doc, least⟩
        · exact ended
        · have member : doc ∈ interAll (first :: rest) :=
            mem_interAll.mpr ⟨by simp, fun docs member => (least docs member).1⟩
          rw [nothing] at member
          cases member

omit lawful in
/-- The aligned children all stand on the first document left. -/
theorem andAt_first (stands : AndAt left fuel children docs) (nonempty : docs.Nonempty) :
    ∃ sets, List.Forall₂ left children sets ∧ totalOf sets < fuel ∧ docs = interAll sets ∧
      sets ≠ [] ∧ ∀ set ∈ sets, IsLeast (set : Set UInt64) (firstOf noMoreDocs docs) := by
  obtain ⟨sets, children_, aligned, enough, rfl⟩ := stands
  obtain ⟨doc, member⟩ := nonempty
  exact ⟨sets, children_, enough, rfl, (mem_interAll.mp member).1, aligned.first ⟨doc, member⟩⟩

theorem andAt_docId (stands : AndAt left fuel children docs) (nonempty : docs.Nonempty) :
    andDocId child children = firstOf noMoreDocs docs := by
  have notEnd := mt (andAt_isEnd lawful stands).mp nonempty.ne_empty
  obtain ⟨sets, children_, _, _, listed, isLeast⟩ := andAt_first stands nonempty
  unfold andDocId
  rw [if_neg notEnd]
  cases children_ with
  | nil => exact absurd rfl listed
  | @cons reader set _ _ first _ =>
      have least := isLeast set List.mem_cons_self
      show child.docId reader = _
      rw [lawful.docId first ⟨_, least.1⟩]
      exact firstOf_eq_of_isLeast least

theorem andGoNext_spec (stands : AndAt left fuel children docs) :
    ∃ next, andGoNext child fuel children = some next ∧
      AndAt left fuel next (docs.erase (firstOf noMoreDocs docs)) := by
  unfold andGoNext
  by_cases ended : andIsEnd child children = true
  · rw [if_pos ended]
    have empty := (andAt_isEnd lawful stands).mp ended
    refine ⟨children, rfl, ?_⟩
    subst empty
    exact stands
  · rw [if_neg ended]
    have nonempty : docs.Nonempty := by
      rw [Finset.nonempty_iff_ne_empty]
      exact fun empty => ended ((andAt_isEnd lawful stands).mpr empty)
    have here := andAt_docId lawful stands nonempty
    obtain ⟨sets, children_, enough, rfl, listed, isLeast⟩ := andAt_first stands nonempty
    dsimp only
    rw [here]
    have moves : ∀ reader set, set ∈ sets → left reader set → ∃ next,
        (if child.isEnd reader = false ∧ child.docId reader = firstOf noMoreDocs (interAll sets)
          then child.goNext reader else some reader) = some next ∧
        left next (set.filter (· ≠ firstOf noMoreDocs (interAll sets))) := by
      intro reader set member atSet
      have least := isLeast set member
      have first : firstOf noMoreDocs set = firstOf noMoreDocs (interAll sets) :=
        firstOf_eq_of_isLeast least
      have stays : child.isEnd reader = false ∧
          child.docId reader = firstOf noMoreDocs (interAll sets) := by
        refine ⟨?_, by rw [lawful.docId atSet ⟨_, least.1⟩, first]⟩
        rw [Bool.eq_false_iff, Ne, lawful.isEnd atSet]
        exact (Finset.nonempty_of_ne_empty (Finset.ne_empty_of_mem least.1)).ne_empty
      obtain ⟨next, nextEq, nextStands⟩ := lawful.goNext atSet
      rw [if_pos stays, Finset.filter_ne', ← first]
      exact ⟨next, nextEq, nextStands⟩
    obtain ⟨moved, movedEq, movedStands⟩ := mapM_moved _ _ children_ moves
    rw [movedEq, Option.bind_some]
    have fewer := totalOf_map_filter_le sets (· ≠ firstOf noMoreDocs (interAll sets))
    obtain ⟨aligned, alignedEq, alignedStands⟩ :=
      andAt_new lawful movedStands (lt_of_le_of_lt fewer enough)
    refine ⟨aligned, alignedEq, ?_⟩
    rw [interAll_map_filter, Finset.filter_ne'] at alignedStands
    exact alignedStands

theorem andGoUntil_spec (stands : AndAt left fuel children docs) (target : UInt64) :
    ∃ next, andGoUntil child fuel children target = some next ∧
      AndAt left fuel next (docs.filter (target ≤ ·)) := by
  obtain ⟨sets, children_, _, enough, rfl⟩ := stands
  obtain ⟨moved, movedEq, movedStands⟩ := mapM_moved _ (Finset.filter (target ≤ ·)) children_
    fun reader set _ atSet => lawful.goUntil target atSet
  unfold andGoUntil
  rw [movedEq, Option.bind_some]
  have fewer := totalOf_map_filter_le sets (target ≤ ·)
  obtain ⟨aligned, alignedEq, alignedStands⟩ :=
    andAt_new lawful movedStands (lt_of_le_of_lt fewer enough)
  refine ⟨aligned, alignedEq, ?_⟩
  rw [interAll_map_filter] at alignedStands
  exact alignedStands

theorem andAt_bound (stands : AndAt left fuel children docs) : ∀ doc ∈ docs, doc < noMoreDocs := by
  obtain ⟨sets, children_, _, _, rfl⟩ := stands
  intro doc member
  obtain ⟨listed, inside⟩ := mem_interAll.mp member
  cases children_ with
  | nil => exact absurd rfl listed
  | cons first _ => exact lawful.bound first doc (inside _ List.mem_cons_self)

end And

/-! ### The difference -/

/-- What is left of a `NotIndexReader`: the documents the exclusion has passed
are below the base, so they no longer matter. -/
def NotAt (left : σ → Finset UInt64 → Prop) (fuel : Nat) (base exclude : σ)
    (docs : Finset UInt64) : Prop :=
  ∃ baseDocs excludeDocs, left base baseDocs ∧ left exclude excludeDocs ∧ baseDocs.card < fuel ∧
    docs = baseDocs \ excludeDocs ∧
    (baseDocs.Nonempty → firstOf noMoreDocs baseDocs ∉ excludeDocs)

theorem NotAt.mono {fuel more : Nat} {base exclude : σ} {docs : Finset UInt64} (enough : fuel ≤ more)
    (stands : NotAt left fuel base exclude docs) : NotAt left more base exclude docs := by
  obtain ⟨baseDocs, excludeDocs, atBase, atExclude, bounded, same, clear⟩ := stands
  exact ⟨baseDocs, excludeDocs, atBase, atExclude, by omega, same, clear⟩

/-- Excluding later documents keeps the first one. -/
theorem firstOf_sdiff {baseDocs excludeDocs : Finset UInt64} (nonempty : baseDocs.Nonempty)
    (clear : firstOf noMoreDocs baseDocs ∉ excludeDocs) :
    firstOf noMoreDocs (baseDocs \ excludeDocs) = firstOf noMoreDocs baseDocs := by
  apply firstOf_eq_of_isLeast
  exact ⟨Finset.mem_sdiff.mpr ⟨firstOf_mem nonempty, clear⟩,
    fun doc inside => firstOf_le (Finset.mem_sdiff.mp inside).1⟩

section Not

variable (lawful : child.Lawful noMoreDocs left) {fuel : Nat} {base exclude : σ}
    {docs : Finset UInt64}

include lawful

/-- Every turn of the loop takes one document from the base. -/
theorem skipExcluded_spec {baseDocs excludeDocs : Finset UInt64} (atBase : left base baseDocs)
    (atExclude : left exclude excludeDocs) (enough : baseDocs.card < fuel) :
    ∃ next nextExclude, skipExcluded child fuel base exclude = some (next, nextExclude) ∧
      NotAt left fuel next nextExclude (baseDocs \ excludeDocs) := by
  induction fuel generalizing base exclude baseDocs excludeDocs with
  | zero => omega
  | succ fuel inductionHypothesis =>
      unfold skipExcluded
      by_cases ended : child.isEnd base = true
      · rw [if_pos ended]
        have empty := (lawful.isEnd atBase).mp ended
        refine ⟨base, exclude, rfl, baseDocs, excludeDocs, atBase, atExclude, enough, rfl, ?_⟩
        intro nonempty
        exact absurd empty nonempty.ne_empty
      · rw [if_neg ended]
        have nonempty : baseDocs.Nonempty := by
          rw [Finset.nonempty_iff_ne_empty]
          exact fun empty => ended ((lawful.isEnd atBase).mpr empty)
        have here := lawful.docId atBase nonempty
        have least := isLeast_firstOf noMoreDocs nonempty
        rw [here]
        obtain ⟨passed, passedEq, atPassed⟩ :=
          lawful.goUntil (firstOf noMoreDocs baseDocs) atExclude
        rw [passedEq]
        dsimp only
        -- What the exclusion passes here is below every document of the base.
        have sameDifference : baseDocs \ excludeDocs.filter (firstOf noMoreDocs baseDocs ≤ ·) =
            baseDocs \ excludeDocs := by
          ext doc
          simp only [Finset.mem_sdiff, Finset.mem_filter, not_and, and_congr_right_iff]
          intro member
          exact ⟨fun absent inside => absent inside (least.2 member), fun absent inside _ =>
            absent inside⟩
        by_cases excluded : child.isEnd passed = false ∧
            child.docId passed = firstOf noMoreDocs baseDocs
        · rw [if_pos excluded]
          have some_ : (excludeDocs.filter (firstOf noMoreDocs baseDocs ≤ ·)).Nonempty := by
            rw [Finset.nonempty_iff_ne_empty]
            intro empty
            rw [(lawful.isEnd atPassed).mpr empty] at excluded
            exact absurd excluded.1 (by decide)
          have member := (isLeast_firstOf noMoreDocs some_).1
          rw [← lawful.docId atPassed some_, excluded.2] at member
          obtain ⟨next, nextEq, atNext⟩ := lawful.goNext atBase
          have fewer : (baseDocs.erase (firstOf noMoreDocs baseDocs)).card < baseDocs.card :=
            Finset.card_erase_lt_of_mem (firstOf_mem nonempty)
          obtain ⟨final, finalExclude, finalEq, stands⟩ :=
            inductionHypothesis atNext atPassed (by omega)
          rw [nextEq, Option.bind_some]
          refine ⟨final, finalExclude, finalEq, ?_⟩
          rw [Finset.erase_sdiff_comm, sameDifference] at stands
          have absent : firstOf noMoreDocs baseDocs ∉ baseDocs \ excludeDocs := by
            rw [Finset.mem_sdiff, not_and_not_right]
            exact fun _ => (Finset.mem_filter.mp member).1
          rw [Finset.erase_eq_of_notMem absent] at stands
          exact stands.mono (by omega)
        · rw [if_neg excluded]
          refine ⟨base, passed, rfl, baseDocs, _, atBase, atPassed, enough, sameDifference.symm, ?_⟩
          intro _ member
          have some_ : (excludeDocs.filter (firstOf noMoreDocs baseDocs ≤ ·)).Nonempty :=
            ⟨_, member⟩
          apply excluded
          constructor
          · rw [Bool.eq_false_iff, Ne, lawful.isEnd atPassed]
            exact some_.ne_empty
          · rw [lawful.docId atPassed some_]
            apply firstOf_eq_of_isLeast
            exact ⟨member, fun doc inside => (Finset.mem_filter.mp inside).2⟩

omit lawful in
theorem NotAt.first_base (stands : NotAt left fuel base exclude docs) :
    ∃ baseDocs excludeDocs, left base baseDocs ∧ left exclude excludeDocs ∧
      baseDocs.card < fuel ∧ docs = baseDocs \ excludeDocs ∧ (docs = ∅ ↔ baseDocs = ∅) ∧
      firstOf noMoreDocs docs = firstOf noMoreDocs baseDocs := by
  obtain ⟨baseDocs, excludeDocs, atBase, atExclude, enough, rfl, clear⟩ := stands
  refine ⟨baseDocs, excludeDocs, atBase, atExclude, enough, rfl, ?_⟩
  by_cases nonempty : baseDocs.Nonempty
  · have member : firstOf noMoreDocs baseDocs ∈ baseDocs \ excludeDocs :=
      Finset.mem_sdiff.mpr ⟨firstOf_mem nonempty, clear nonempty⟩
    exact ⟨iff_of_false (Finset.ne_empty_of_mem member) nonempty.ne_empty,
      firstOf_sdiff nonempty (clear nonempty)⟩
  · have empty := Finset.not_nonempty_iff_eq_empty.mp nonempty
    subst empty
    rw [Finset.empty_sdiff]
    exact ⟨Iff.rfl, rfl⟩

theorem notGoNext_spec (stands : NotAt left fuel base exclude docs) :
    ∃ next nextExclude, notGoNext child fuel base exclude = some (next, nextExclude) ∧
      NotAt left fuel next nextExclude (docs.erase (firstOf noMoreDocs docs)) := by
  obtain ⟨baseDocs, excludeDocs, atBase, atExclude, enough, rfl, _, first⟩ := stands.first_base
  obtain ⟨moved, movedEq, atMoved⟩ := lawful.goNext atBase
  have fewer : (baseDocs.erase (firstOf noMoreDocs baseDocs)).card ≤ baseDocs.card :=
    Finset.card_erase_le
  obtain ⟨next, nextExclude, nextEq, nextStands⟩ :=
    skipExcluded_spec lawful atMoved atExclude (lt_of_le_of_lt fewer enough)
  unfold notGoNext
  rw [movedEq, Option.bind_some]
  refine ⟨next, nextExclude, nextEq, ?_⟩
  rw [first, ← Finset.erase_sdiff_comm]
  exact nextStands

theorem notGoUntil_spec (stands : NotAt left fuel base exclude docs) (target : UInt64) :
    ∃ next nextExclude, notGoUntil child fuel base exclude target = some (next, nextExclude) ∧
      NotAt left fuel next nextExclude (docs.filter (target ≤ ·)) := by
  obtain ⟨baseDocs, excludeDocs, atBase, atExclude, enough, rfl, _⟩ := stands
  obtain ⟨moved, movedEq, atMoved⟩ := lawful.goUntil target atBase
  have fewer := Finset.card_filter_le baseDocs (target ≤ ·)
  obtain ⟨next, nextExclude, nextEq, nextStands⟩ :=
    skipExcluded_spec lawful atMoved atExclude (lt_of_le_of_lt fewer enough)
  unfold notGoUntil
  rw [movedEq, Option.bind_some]
  refine ⟨next, nextExclude, nextEq, ?_⟩
  have same : (baseDocs \ excludeDocs).filter (target ≤ ·) =
      baseDocs.filter (target ≤ ·) \ excludeDocs := by
    ext doc
    simp only [Finset.mem_filter, Finset.mem_sdiff]
    exact and_right_comm
  rw [same]
  exact nextStands

end Not

/-! ### The base of a boost -/

theorem childDoc_eq (lawful : child.Lawful noMoreDocs left) {reader : σ} {docs : Finset UInt64}
    (stands : left reader docs) : childDoc child reader = firstOf noMoreDocs docs := by
  unfold childDoc
  by_cases ended : child.isEnd reader = true
  · rw [if_pos ended, (lawful.isEnd stands).mp ended, firstOf_empty]
  · rw [if_neg ended]
    apply lawful.docId stands
    rw [Finset.nonempty_iff_ne_empty]
    exact fun empty => ended ((lawful.isEnd stands).mpr empty)

/-- What is left of a `BoostIndexReader`. -/
structure BoostAt (left : σ → Finset UInt64 → Prop) (reader : BoostIndexReader σ)
    (docs : Finset UInt64) : Prop where
  base : left reader.base docs
  current : reader.currentDoc = firstOf noMoreDocs docs

/-- The second reader of a boost has these documents from some floor on, and the floor
is not above any document left of the base. -/
def BoostFollows (left : σ → Finset UInt64 → Prop) (boostDocs : Finset UInt64)
    (reader : BoostIndexReader σ) (docs : Finset UInt64) : Prop :=
  ∃ floor, left reader.boost (boostDocs.filter (floor ≤ ·)) ∧
    reader.boostDoc = firstOf noMoreDocs (boostDocs.filter (floor ≤ ·)) ∧
    ∀ doc ∈ docs, floor ≤ doc

theorem BoostFollows.subset {boostDocs docs fewer : Finset UInt64} {reader : BoostIndexReader σ}
    (follows : BoostFollows left boostDocs reader docs) (subset : fewer ⊆ docs) {base : σ}
    {currentDoc : UInt64} :
    BoostFollows left boostDocs { reader with base := base, currentDoc := currentDoc } fewer := by
  obtain ⟨floor, atBoost, boostDoc, below⟩ := follows
  exact ⟨floor, atBoost, boostDoc, fun doc member => below doc (subset member)⟩

/-- A new second reader has passed nothing. -/
theorem boostFollows_new (lawful : child.Lawful noMoreDocs left) {base boost : σ}
    {boostDocs : Finset UInt64} (atBoost : left boost boostDocs) (boostWeight : F32)
    (docs : Finset UInt64) :
    BoostFollows left boostDocs (newBoost child base boost boostWeight) docs := by
  have all : boostDocs.filter ((0 : UInt64) ≤ ·) = boostDocs :=
    Finset.filter_true_of_mem fun doc _ => UInt64.zero_le
  refine ⟨0, ?_, ?_, fun doc _ => UInt64.zero_le⟩
  · rw [all]
    exact atBoost
  · rw [all]
    exact childDoc_eq lawful atBoost

theorem boostGoNext_spec (lawful : child.Lawful noMoreDocs left) {reader : BoostIndexReader σ}
    {docs : Finset UInt64} (stands : BoostAt left reader docs) :
    ∃ next, boostGoNext child reader = some next ∧
      BoostAt left next (docs.erase (firstOf noMoreDocs docs)) := by
  unfold boostGoNext
  by_cases ended : reader.currentDoc = noMoreDocs
  · rw [if_pos ended]
    have empty : docs = ∅ := by
      rw [← firstOf_eq_limit_iff (lawful.bound stands.base), ← stands.current]
      exact ended
    subst empty
    exact ⟨reader, rfl, stands⟩
  · rw [if_neg ended]
    obtain ⟨base, baseEq, atBase⟩ := lawful.goNext stands.base
    rw [baseEq]
    exact ⟨_, rfl, atBase, childDoc_eq lawful atBase⟩

theorem boostGoUntil_spec (lawful : child.Lawful noMoreDocs left) {reader : BoostIndexReader σ}
    {docs : Finset UInt64} (stands : BoostAt left reader docs) (target : UInt64) :
    ∃ next, boostGoUntil child reader target = some next ∧
      BoostAt left next (docs.filter (target ≤ ·)) := by
  obtain ⟨base, baseEq, atBase⟩ := lawful.goUntil target stands.base
  unfold boostGoUntil
  rw [baseEq]
  exact ⟨_, rfl, atBase, childDoc_eq lawful atBase⟩

end Left

end MoonShot.Reader
