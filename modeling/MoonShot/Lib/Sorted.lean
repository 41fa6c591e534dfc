import Mathlib

/-!
Searching in ordered sequences.

Owns the fact that a strictly ordered list is determined by its members, the
position at which a downward closed test stops holding along a list, and
bisection over an index range with a probe that may fail. A probe that answers
`true` up to some index and `false` from there on is bisected to exactly that
index.
-/

namespace MoonShot.Lib

/-- A strictly ordered list is determined by its members. -/
theorem eq_of_ordered_of_mem_iff {α : Type} {before : α → α → Prop}
    (asymmetric : ∀ {left right}, before left right → ¬ before right left) {left right : List α}
    (leftOrdered : left.Pairwise before) (rightOrdered : right.Pairwise before)
    (members : ∀ item, item ∈ left ↔ item ∈ right) : left = right := by
  have distinct : ∀ {items : List α}, items.Pairwise before → items.Nodup := by
    intro items ordered
    refine List.nodup_iff_pairwise_ne.mpr (ordered.imp ?_)
    rintro item _ first rfl
    exact asymmetric first first
  have perm := (List.perm_ext_iff_of_nodup (distinct leftOrdered) (distinct rightOrdered)).mpr members
  exact perm.eq_of_pairwise (fun _ _ _ _ first second => absurd second (asymmetric first))
    leftOrdered rightOrdered

section Partition

variable {α : Type} {test : α → Bool} {items : List α}

/-- Along a list whose test only switches from `true` to `false`, an item lies
before the switch exactly when it passes. -/
theorem lt_takeWhile_length_iff
    (closed : items.Pairwise fun earlier later => test later = true → test earlier = true)
    {index : Nat} {item : α} (found : items[index]? = some item) :
    index < (items.takeWhile test).length ↔ test item = true := by
  induction items generalizing index with
  | nil => simp at found
  | cons head rest inductionHypothesis =>
      have parts := List.pairwise_cons.mp closed
      by_cases passes : test head = true
      · rw [List.takeWhile_cons_of_pos passes, List.length_cons]
        cases index with
        | zero =>
            obtain rfl : head = item := by simpa using found
            simp [passes]
        | succ index =>
            rw [Nat.succ_lt_succ_iff]
            exact inductionHypothesis parts.2 (by simpa using found)
      · rw [List.takeWhile_cons_of_neg passes]
        have stopped : test item ≠ true := by
          cases index with
          | zero =>
              obtain rfl : head = item := by simpa using found
              exact passes
          | succ index =>
              have member : item ∈ rest := List.mem_of_getElem? (by simpa using found)
              exact fun itemPasses => passes (parts.1 item member itemPasses)
        simp [stopped]

end Partition

section Keyed

variable {α κ : Type} [LinearOrder κ] (key : α → κ) {items : List α}

/-- Where the keys of an ascending list reach a target. -/
def rank (items : List α) (target : κ) : Nat :=
  (items.takeWhile fun item => key item < target).length

theorem rank_le (items : List α) (target : κ) : rank key items target ≤ items.length :=
  (List.takeWhile_sublist _).length_le

variable {key}

theorem lt_rank_iff (ascending : items.Pairwise fun left right => key left < key right)
    {target : κ} {index : Nat} {item : α} (found : items[index]? = some item) :
    index < rank key items target ↔ key item < target := by
  have closed : items.Pairwise fun earlier later =>
      decide (key later < target) = true → decide (key earlier < target) = true := by
    refine ascending.imp ?_
    intro earlier later before laterBelow
    rw [decide_eq_true_eq] at laterBelow ⊢
    exact lt_trans before laterBelow
  rw [rank, lt_takeWhile_length_iff closed found, decide_eq_true_eq]

/-- In an ascending list an item can only be found at the rank of its key. -/
theorem find?_eq_at_rank [DecidableEq κ]
    (ascending : items.Pairwise fun left right => key left < key right) (target : κ) :
    items.find? (fun item => decide (key item = target)) =
      (items[rank key items target]?).filter fun item => decide (key item = target) := by
  cases at_ : items[rank key items target]? with
  | none =>
      rw [Option.filter_none, List.find?_eq_none]
      intro item member
      obtain ⟨index, found⟩ := List.getElem?_of_mem member
      have inside := (List.getElem?_eq_some_iff.mp found).1
      have past := List.getElem?_eq_none_iff.mp at_
      have early : index < rank key items target := by omega
      have below := (lt_rank_iff ascending found).mp early
      simpa using below.ne
  | some reached =>
      have notBelow : ¬ key reached < target := by
        rw [← lt_rank_iff ascending at_]
        omega
      by_cases same : key reached = target
      · rw [Option.filter_some_pos (by simpa using same)]
        have member := List.mem_of_getElem? at_
        cases found : items.find? fun item => decide (key item = target) with
        | none =>
            have := List.find?_eq_none.mp found reached member
            simp [same] at this
        | some other =>
            have otherSame : key other = target := by
              simpa using List.find?_some found
            have injective : ∀ left ∈ items, ∀ right ∈ items, key left = key right →
                left = right := by
              have distinct : (items.map key).Nodup := by
                rw [List.nodup_iff_pairwise_ne, List.pairwise_map]
                exact ascending.imp fun before => before.ne
              intro left leftMember right rightMember equal
              exact List.inj_on_of_nodup_map distinct leftMember rightMember equal
            rw [injective other (List.mem_of_find?_eq_some found) reached member
              (otherSame.trans same.symm)]
      · rw [Option.filter_some_neg (by simpa using same), List.find?_eq_none]
        intro item member
        obtain ⟨index, found⟩ := List.getElem?_of_mem member
        rw [decide_eq_true_eq]
        intro itemSame
        rcases Nat.lt_trichotomy index (rank key items target) with before | equal | after
        · exact ((lt_rank_iff ascending found).mp before).ne itemSame
        · rw [equal, at_] at found
          exact same (Option.some.inj found ▸ itemSame)
        · obtain ⟨reachedInside, reachedEq⟩ := List.getElem?_eq_some_iff.mp at_
          obtain ⟨inside, itemEq⟩ := List.getElem?_eq_some_iff.mp found
          have above := List.pairwise_iff_getElem.mp ascending _ _ reachedInside inside after
          rw [reachedEq, itemEq, itemSame] at above
          exact notBelow above

end Keyed

/-! ## Bisection -/

/-- `while left < right { mid = left + (right - left) / 2; .. }`: move `left`
past `mid` when the probe says `true`, move `right` to `mid` when it says
`false`, give up when it fails. -/
def lowerBound (probe : Nat → Option Bool) : (turns left right : Nat) → Option Nat
  | 0, left, _ => some left
  | turns + 1, left, right =>
      if left < right then
        let mid := left + (right - left) / 2
        match probe mid with
        | none => none
        | some true => lowerBound probe turns (mid + 1) right
        | some false => lowerBound probe turns left mid
      else some left

theorem lowerBound_eq {probe : Nat → Option Bool} {turns left right bound : Nat}
    (enough : right - left ≤ turns) (first : left ≤ bound) (last : bound ≤ right)
    (below : ∀ index, left ≤ index → index < bound → probe index = some true)
    (above : ∀ index, bound ≤ index → index < right → probe index = some false) :
    lowerBound probe turns left right = some bound := by
  induction turns generalizing left right with
  | zero =>
      have : left = bound := by omega
      rw [lowerBound, this]
  | succ turns inductionHypothesis =>
      rw [lowerBound]
      by_cases more : left < right
      · rw [if_pos more]
        dsimp only
        by_cases before : left + (right - left) / 2 < bound
        · rw [below _ (by omega) before]
          exact inductionHypothesis (by omega) (by omega) last
            (fun index atLeast => below index (by omega)) above
        · rw [above _ (by omega) (by omega)]
          exact inductionHypothesis (by omega) first (by omega) below
            (fun index atLeast beforeMid => above index atLeast (by omega))
      · rw [if_neg more]
        congr 1
        omega

end MoonShot.Lib
