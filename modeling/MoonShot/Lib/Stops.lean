import MoonShot.Lib.Checked

/-!
What a computation leads to: a value with a property, or a fault that is allowed.

Owns the rules for a sequence of steps and for a loop, and the sort by an order that is
checked to be one.

Does not own the faults.
-/

namespace MoonShot.Lib

variable {α β : Type}

/-- A value of the computation has the property, and its fault is allowed. -/
def Leads (allowed : Fault → Prop) (run : Checked α) (holds : α → Prop) : Prop :=
  match run with
  | .ok value => holds value
  | .error fault => allowed fault

namespace Leads

variable {allowed : Fault → Prop} {holds : α → Prop}

theorem pure {value : α} (here : holds value) : Leads allowed (Pure.pure value) holds := here

theorem bind {run : Checked β} {next : β → Checked α} {between : β → Prop}
    (first : Leads allowed run between)
    (second : ∀ value, between value → Leads allowed (next value) holds) :
    Leads allowed (run >>= next) holds := by
  cases run with
  | ok value => exact second value first
  | error fault => exact first

theorem mono {run : Checked α} {weaker : α → Prop} (leads : Leads allowed run holds)
    (weaken : ∀ value, holds value → weaker value) : Leads allowed run weaker := by
  cases run with
  | ok value => exact weaken value leads
  | error fault => exact leads

/-- Without an allowed fault there is a value. -/
theorem exists_ok {run : Checked α} (leads : Leads allowed run holds)
    (none : ∀ fault, ¬allowed fault) : ∃ value, run = .ok value ∧ holds value := by
  cases run with
  | ok value => exact ⟨value, rfl, leads⟩
  | error fault => exact absurd leads (none fault)

/-- A property that every turn of a loop keeps. -/
theorem foldlM {items : List β} {turn : α → β → Checked α} {state : α}
    (start : holds state)
    (turns : ∀ item ∈ items, ∀ before, holds before → Leads allowed (turn before item) holds) :
    Leads allowed (items.foldlM turn state) holds := by
  induction items generalizing state with
  | nil => exact start
  | cons item rest inductionHypothesis =>
      rw [List.foldlM_cons]
      refine (turns item List.mem_cons_self state start).bind fun after kept => ?_
      exact inductionHypothesis kept fun other member =>
        turns other (List.mem_cons_of_mem _ member)

end Leads

/-! ## Sorting -/

/-- The order is one on these items: two of them that change places have the reversed order,
and it is transitive. -/
def OrderOn (order : α → α → Ordering) (items : List α) : Prop :=
  (items.Pairwise fun first second => order second first = (order first second).swap) ∧
    ∀ first ∈ items, ∀ second ∈ items, ∀ third ∈ items,
      order first second ≠ .gt → order second third ≠ .gt → order first third ≠ .gt

instance (order : α → α → Ordering) (items : List α) : Decidable (OrderOn order items) :=
  inferInstanceAs (Decidable (_ ∧ _))

/-- `sort_by`, which may panic when it is not given an order. -/
def sortBy (order : α → α → Ordering) (items : List α) : Checked (List α) :=
  if OrderOn order items then
    .ok (items.mergeSort fun first second => order first second != .gt)
  else .error .assertion

theorem sortBy_pair {order : α → α → Ordering} {first second : α}
    (ordered : OrderOn order [first, second]) :
    sortBy order [first, second] =
      .ok (if order first second = .gt then [second, first] else [first, second]) := by
  have merged : [first, second].mergeSort (fun first second => order first second != .gt) =
      if order first second = .gt then [second, first] else [first, second] := by
    rw [List.mergeSort]
    by_cases greater : order first second = .gt
    · simp [greater]
    · simp [greater]
  rw [sortBy, if_pos ordered, merged]

/-- A total order on all items. -/
theorem orderOn_of_total {order : α → α → Ordering} {items : List α}
    (swapped : ∀ first ∈ items, ∀ second ∈ items, order second first = (order first second).swap)
    (transitive : ∀ first ∈ items, ∀ second ∈ items, ∀ third ∈ items,
      order first second ≠ .gt → order second third ≠ .gt → order first third ≠ .gt) :
    OrderOn order items := by
  refine ⟨List.pairwise_iff_forall_sublist.mpr fun {first second} sub => ?_, transitive⟩
  have members := sub.subset
  exact swapped first (members List.mem_cons_self) second
    (members (List.mem_cons_of_mem _ List.mem_cons_self))

/-- Nothing is compared among fewer than two items. -/
theorem orderOn_of_short {order : α → α → Ordering} {items : List α} (short : items.length ≤ 1) :
    OrderOn order items := by
  match items, short with
  | [], _ => exact ⟨List.Pairwise.nil, fun _ member => absurd member List.not_mem_nil⟩
  | [item], _ =>
      refine ⟨List.pairwise_singleton _ item, fun first firstIn second secondIn third thirdIn => ?_⟩
      rw [List.mem_singleton.mp firstIn, List.mem_singleton.mp secondIn,
        List.mem_singleton.mp thirdIn]
      exact fun notGt _ => notGt

/-- Sorting by an order, under which every item is not behind itself. -/
theorem sortBy_sorted {order : α → α → Ordering} {items sorted : List α}
    (transitive : ∀ first second third, order first second ≠ .gt → order second third ≠ .gt →
      order first third ≠ .gt)
    (total : ∀ first second, order first second ≠ .gt ∨ order second first ≠ .gt)
    (ran : sortBy order items = .ok sorted) :
    sorted.Pairwise fun first second => order first second ≠ .gt := by
  unfold sortBy at ran
  split at ran
  · obtain rfl := Except.ok.inj ran
    have ordered := @List.pairwise_mergeSort α (fun first second => order first second != .gt)
      (fun first second third => by
        simp only [bne_iff_ne]
        exact transitive first second third)
      (fun first second => by
        simp only [Bool.or_eq_true, bne_iff_ne]
        exact total first second) items
    refine ordered.imp fun {first second} notBehind => ?_
    exact bne_iff_ne.mp notBehind
  · cases ran

end MoonShot.Lib
