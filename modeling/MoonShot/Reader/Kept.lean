import MoonShot.Reader.Disjunction

/-!
What the moves of composite readers keep.

Owns one fact: a composite reader moves its children and never replaces them. A part
of the children that their own moves keep, is kept by every move of the composite, child
by child.
-/

namespace MoonShot.Reader

open MoonShot.Lib

section Kept

variable {σ γ : Type} {child : Cursor σ UInt64} {part : σ → γ}

theorem mapM_kept {move : σ → Option σ}
    (moves : ∀ {reader next}, move reader = some next → part next = part reader)
    {children moved : List σ} (ran : children.mapM move = some moved) :
    moved.map part = children.map part := by
  induction children generalizing moved with
  | nil =>
      obtain rfl := Option.some.inj ran
      rfl
  | cons reader rest inductionHypothesis =>
      rw [List.mapM_cons] at ran
      obtain ⟨next, nextEq, ran⟩ := Option.bind_eq_some_iff.mp ran
      obtain ⟨others, othersEq, ran⟩ := Option.bind_eq_some_iff.mp ran
      obtain rfl := Option.some.inj ran
      rw [List.map_cons, List.map_cons, moves nextEq, inductionHypothesis othersEq]

section Moves

variable (keeps : child.Keeps part)

include keeps

/-! ## `AndIndexReader` -/

theorem moveToPivot_kept {pivot : UInt64} {children moved : List σ} {outcome : Alignment}
    (ran : moveToPivot child pivot children = some (moved, outcome)) :
    moved.map part = children.map part := by
  induction children generalizing moved outcome with
  | nil =>
      obtain ⟨rfl, _⟩ := Prod.mk.inj (Option.some.inj ran)
      rfl
  | cons first rest inductionHypothesis =>
      rw [moveToPivot] at ran
      split at ran
      · obtain ⟨⟨others, _⟩, othersEq, same⟩ := Option.map_eq_some_iff.mp ran
        obtain ⟨rfl, _⟩ := Prod.mk.inj same
        rw [List.map_cons, List.map_cons, inductionHypothesis othersEq]
      · split at ran
        · cases ran
        · rename_i next nextEq
          have kept := keeps.goUntil nextEq
          split at ran
          · obtain ⟨rfl, _⟩ := Prod.mk.inj (Option.some.inj ran)
            rw [List.map_cons, List.map_cons, kept]
          · split at ran
            · obtain ⟨⟨others, _⟩, othersEq, same⟩ := Option.map_eq_some_iff.mp ran
              obtain ⟨rfl, _⟩ := Prod.mk.inj same
              rw [List.map_cons, List.map_cons, kept, inductionHypothesis othersEq]
            · obtain ⟨rfl, _⟩ := Prod.mk.inj (Option.some.inj ran)
              rw [List.map_cons, List.map_cons, kept]

theorem alignToPivot_kept {fuel : Nat} {children moved : List σ}
    (ran : alignToPivot child fuel children = some moved) :
    moved.map part = children.map part := by
  induction fuel generalizing children with
  | zero => cases ran
  | succ fuel inductionHypothesis =>
      rw [alignToPivot] at ran
      split at ran
      · rw [Option.some.inj ran]
      · dsimp only at ran
        split at ran
        · cases ran
        · rename_i passed overshot
          rw [inductionHypothesis ran, moveToPivot_kept keeps overshot]
        · rename_i passed ended
          rw [← Option.some.inj ran, moveToPivot_kept keeps ended]

theorem andGoNext_kept {fuel : Nat} {children next : List σ}
    (ran : andGoNext child fuel children = some next) : next.map part = children.map part := by
  unfold andGoNext at ran
  split at ran
  · rw [Option.some.inj ran]
  · obtain ⟨moved, movedEq, ran⟩ := Option.bind_eq_some_iff.mp ran
    have kept : moved.map part = children.map part := by
      refine mapM_kept ?_ movedEq
      intro reader next moves
      split at moves
      · exact keeps.goNext moves
      · rw [Option.some.inj moves]
    rw [alignToPivot_kept keeps ran, kept]

theorem andGoUntil_kept {fuel : Nat} {children next : List σ} {target : UInt64}
    (ran : andGoUntil child fuel children target = some next) :
    next.map part = children.map part := by
  obtain ⟨moved, movedEq, ran⟩ := Option.bind_eq_some_iff.mp ran
  rw [alignToPivot_kept keeps ran, mapM_kept keeps.goUntil movedEq]

/-! ## `NotIndexReader` -/

theorem skipExcluded_kept {fuel : Nat} {base exclude next nextExclude : σ}
    (ran : skipExcluded child fuel base exclude = some (next, nextExclude)) :
    part next = part base ∧ part nextExclude = part exclude := by
  induction fuel generalizing base exclude with
  | zero => cases ran
  | succ fuel inductionHypothesis =>
      rw [skipExcluded] at ran
      split at ran
      · obtain ⟨rfl, rfl⟩ := Prod.mk.inj (Option.some.inj ran)
        exact ⟨rfl, rfl⟩
      · split at ran
        · cases ran
        · rename_i passed passedEq
          have kept := keeps.goUntil passedEq
          split at ran
          · obtain ⟨moved, movedEq, ran⟩ := Option.bind_eq_some_iff.mp ran
            obtain ⟨baseKept, excludeKept⟩ := inductionHypothesis ran
            exact ⟨baseKept.trans (keeps.goNext movedEq), excludeKept.trans kept⟩
          · obtain ⟨rfl, rfl⟩ := Prod.mk.inj (Option.some.inj ran)
            exact ⟨rfl, kept⟩

theorem notGoNext_kept {fuel : Nat} {base exclude next nextExclude : σ}
    (ran : notGoNext child fuel base exclude = some (next, nextExclude)) :
    part next = part base ∧ part nextExclude = part exclude := by
  obtain ⟨moved, movedEq, ran⟩ := Option.bind_eq_some_iff.mp ran
  obtain ⟨baseKept, excludeKept⟩ := skipExcluded_kept keeps ran
  exact ⟨baseKept.trans (keeps.goNext movedEq), excludeKept⟩

theorem notGoUntil_kept {fuel : Nat} {base exclude next nextExclude : σ} {target : UInt64}
    (ran : notGoUntil child fuel base exclude target = some (next, nextExclude)) :
    part next = part base ∧ part nextExclude = part exclude := by
  obtain ⟨moved, movedEq, ran⟩ := Option.bind_eq_some_iff.mp ran
  obtain ⟨baseKept, excludeKept⟩ := skipExcluded_kept keeps ran
  exact ⟨baseKept.trans (keeps.goUntil movedEq), excludeKept⟩

/-! ## `BoostIndexReader` -/

/-- Only the base is moved. -/
theorem boostGoNext_kept {reader next : BoostIndexReader σ}
    (ran : boostGoNext child reader = some next) :
    next = { reader with base := next.base, currentDoc := next.currentDoc } ∧
      part next.base = part reader.base := by
  unfold boostGoNext at ran
  split at ran
  · obtain rfl := Option.some.inj ran
    exact ⟨rfl, rfl⟩
  · obtain ⟨base, baseEq, rfl⟩ := Option.map_eq_some_iff.mp ran
    exact ⟨rfl, keeps.goNext baseEq⟩

theorem boostGoUntil_kept {reader next : BoostIndexReader σ} {target : UInt64}
    (ran : boostGoUntil child reader target = some next) :
    next = { reader with base := next.base, currentDoc := next.currentDoc } ∧
      part next.base = part reader.base := by
  obtain ⟨base, baseEq, rfl⟩ := Option.map_eq_some_iff.mp ran
  exact ⟨rfl, keeps.goUntil baseEq⟩

/-! ## `OrIndexReader` and `WeakAndIndexReader` -/

theorem advanceChildren_kept {indices : List Nat} {children moved : List σ}
    {childDocs movedDocs : List UInt64}
    (ran : advanceChildren child indices children childDocs = some (moved, movedDocs)) :
    moved.map part = children.map part := by
  induction indices generalizing children childDocs with
  | nil =>
      obtain ⟨rfl, _⟩ := Prod.mk.inj (Option.some.inj ran)
      rfl
  | cons index rest inductionHypothesis =>
      rw [advanceChildren] at ran
      split at ran
      · cases ran
      · rename_i reader found
        split at ran
        · cases ran
        · rename_i next nextEq
          obtain ⟨inside, here⟩ := List.getElem?_eq_some_iff.mp found
          rw [inductionHypothesis ran, List.map_set, keeps.goNext nextEq, ← here, ← List.map_set,
            List.set_getElem_self]

theorem skipChildren_kept {target : UInt64} {children moved : List σ}
    {childDocs movedDocs : List UInt64}
    (ran : skipChildren child target children childDocs = some (moved, movedDocs)) :
    moved.map part = children.map part := by
  fun_induction skipChildren child target children childDocs generalizing moved movedDocs with
  | case1 reader children doc childDocs below stuck => cases ran
  | case2 reader children doc childDocs below next nextEq inductionHypothesis =>
      obtain ⟨⟨others, _⟩, othersEq, same⟩ := Option.map_eq_some_iff.mp ran
      obtain ⟨rfl, _⟩ := Prod.mk.inj same
      rw [List.map_cons, List.map_cons, keeps.goUntil nextEq, inductionHypothesis othersEq]
  | case3 reader children doc childDocs reached inductionHypothesis =>
      obtain ⟨⟨others, _⟩, othersEq, same⟩ := Option.map_eq_some_iff.mp ran
      obtain ⟨rfl, _⟩ := Prod.mk.inj same
      rw [List.map_cons, List.map_cons, inductionHypothesis othersEq]
  | case4 children childDocs _ =>
      obtain ⟨rfl, _⟩ := Prod.mk.inj (Option.some.inj ran)
      rfl

theorem orGoNext_kept {reader next : OrIndexReader σ} (ran : orGoNext child reader = some next) :
    next.children.map part = reader.children.map part := by
  unfold orGoNext at ran
  split at ran
  · rw [Option.some.inj ran]
  · obtain ⟨⟨moved, docs⟩, movedEq, rfl⟩ := Option.map_eq_some_iff.mp ran
    exact advanceChildren_kept keeps movedEq

theorem orGoUntil_kept {reader next : OrIndexReader σ} {target : UInt64}
    (ran : orGoUntil child reader target = some next) :
    next.children.map part = reader.children.map part := by
  obtain ⟨⟨moved, docs⟩, movedEq, rfl⟩ := Option.map_eq_some_iff.mp ran
  exact skipChildren_kept keeps movedEq

theorem alignToMatch_kept {minShouldMatch fuel : Nat} {children : List σ}
    {childDocs : List UInt64} {next : WeakAndIndexReader σ}
    (ran : alignToMatch child minShouldMatch fuel children childDocs = some next) :
    next.children.map part = children.map part ∧ next.minShouldMatch = minShouldMatch := by
  induction fuel generalizing children childDocs with
  | zero => cases ran
  | succ fuel inductionHypothesis =>
      rw [alignToMatch] at ran
      split at ran
      · obtain rfl := Option.some.inj ran
        exact ⟨rfl, rfl⟩
      · dsimp only at ran
        split at ran
        · obtain rfl := Option.some.inj ran
          exact ⟨rfl, rfl⟩
        · obtain ⟨⟨moved, docs⟩, movedEq, ran⟩ := Option.bind_eq_some_iff.mp ran
          obtain ⟨kept, same⟩ := inductionHypothesis ran
          exact ⟨kept.trans (advanceChildren_kept keeps movedEq), same⟩

theorem weakAndGoNext_kept {fuel : Nat} {reader next : WeakAndIndexReader σ}
    (ran : weakAndGoNext child fuel reader = some next) :
    next.children.map part = reader.children.map part ∧
      next.minShouldMatch = reader.minShouldMatch := by
  unfold weakAndGoNext at ran
  split at ran
  · rw [Option.some.inj ran]
    exact ⟨rfl, rfl⟩
  · obtain ⟨⟨moved, docs⟩, movedEq, ran⟩ := Option.bind_eq_some_iff.mp ran
    obtain ⟨kept, same⟩ := alignToMatch_kept keeps ran
    exact ⟨kept.trans (advanceChildren_kept keeps movedEq), same⟩

theorem weakAndGoUntil_kept {fuel : Nat} {reader next : WeakAndIndexReader σ} {target : UInt64}
    (ran : weakAndGoUntil child fuel reader target = some next) :
    next.children.map part = reader.children.map part ∧
      next.minShouldMatch = reader.minShouldMatch := by
  obtain ⟨⟨moved, docs⟩, movedEq, ran⟩ := Option.bind_eq_some_iff.mp ran
  obtain ⟨kept, same⟩ := alignToMatch_kept keeps ran
  exact ⟨kept.trans (skipChildren_kept keeps movedEq), same⟩

end Moves

end Kept

end MoonShot.Reader
