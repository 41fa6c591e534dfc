import Mathlib

/-!
Keeping the largest items of a sequence in a min-heap.

Owns the contract of a heap whose front has the least key, the selection that a
bounded heap makes of the items offered to it, and the theorem that such a
selection, sorted, has the keys at the front of the sorted sequence. Which item
among equal keys a heap pops is left open.
-/

namespace MoonShot.Lib

section Heap

variable {α S : Type} [LinearOrder S] (key : α → S)

/-- A heap by its contract: `items` in some order, the front has the least key. -/
structure MinHeap where
  Carrier : Type
  empty : Carrier
  items : Carrier → List α
  push : Carrier → α → Carrier
  peek : Carrier → Option α
  pop : Carrier → Carrier
  items_empty : items empty = []
  items_push : ∀ heap item, (items (push heap item)).Perm (item :: items heap)
  peek_eq_none : ∀ heap, peek heap = none ↔ items heap = []
  items_pop : ∀ heap item, peek heap = some item → (item :: items (pop heap)).Perm (items heap)
  peek_le : ∀ heap item, peek heap = some item → ∀ other ∈ items heap, key item ≤ key other

/-- Items kept in ascending order are a heap. -/
def MinHeap.sorted : MinHeap key where
  Carrier := { items : List α // items.Pairwise fun left right => key left ≤ key right }
  empty := ⟨[], List.Pairwise.nil⟩
  items heap := heap.1
  push heap item :=
    ⟨heap.1.orderedInsert (fun left right => key left ≤ key right) item,
      have total : Std.Total fun left right : α => key left ≤ key right :=
        ⟨fun left right => le_total (key left) (key right)⟩
      have transitive : IsTrans α fun left right => key left ≤ key right := ⟨fun _ _ _ => le_trans⟩
      List.Pairwise.orderedInsert item heap.1 heap.2⟩
  peek heap := heap.1.head?
  pop heap := ⟨heap.1.tail, heap.2.tail⟩
  items_empty := rfl
  items_push _ _ := List.perm_orderedInsert _ _ _
  peek_eq_none _ := List.head?_eq_none_iff
  items_pop := by
    rintro ⟨items, _⟩ item front
    cases items with
    | nil => cases front
    | cons first rest =>
        obtain rfl : first = item := by simpa using front
        exact List.Perm.refl _
  peek_le := by
    rintro ⟨items, ordered⟩ item front other member
    cases items with
    | nil => cases front
    | cons first rest =>
        obtain rfl : first = item := by simpa using front
        rcases List.mem_cons.mp member with same | later
        · rw [same]
        · exact (List.pairwise_cons.mp ordered).1 other later

end Heap

/-! ## Selection -/

section Selection

variable {α S : Type} [LinearOrder S] {key : α → S}

/-- The kept items are as many of the items as the limit allows, and no item that
was dropped has a larger key. -/
def Selects (key : α → S) (limit : Nat) (kept items : List α) : Prop :=
  ∃ dropped, (kept ++ dropped).Perm items ∧ kept.length = min limit items.length ∧
    ∀ item ∈ kept, ∀ other ∈ dropped, key other ≤ key item

theorem selects_nil (limit : Nat) : Selects key limit [] [] :=
  ⟨[], List.Perm.refl _, by simp, by simp⟩

theorem Selects.perm {limit : Nat} {kept same items : List α} (selects : Selects key limit kept items)
    (perm : same.Perm kept) : Selects key limit same items := by
  obtain ⟨dropped, split, length, larger⟩ := selects
  exact ⟨dropped, (perm.append_right dropped).trans split, by rw [perm.length_eq, length],
    fun item member => larger item (perm.mem_iff.mp member)⟩

/-- Below the limit nothing has been dropped. -/
theorem Selects.add {limit : Nat} {kept items : List α} (selects : Selects key limit kept items)
    (room : kept.length < limit) (item : α) : Selects key limit (item :: kept) (items ++ [item]) := by
  obtain ⟨dropped, split, length, _⟩ := selects
  have total := split.length_eq
  rw [List.length_append] at total
  have none_ : dropped = [] := List.length_eq_zero_iff.mp (by omega)
  subst none_
  refine ⟨[], ?_, ?_, by simp⟩
  · rw [List.append_nil] at split ⊢
    exact (split.cons item).trans (List.perm_append_singleton item items).symm
  · rw [List.length_cons, List.length_append, List.length_singleton]
    omega

/-- At the limit a larger item takes the place of the least one. -/
theorem Selects.replace {limit : Nat} {kept rest items : List α} {least item : α}
    (selects : Selects key limit kept items) (split : (least :: rest).Perm kept)
    (full : kept.length = limit) (isLeast : ∀ other ∈ kept, key least ≤ key other)
    (larger : key least < key item) : Selects key limit (item :: rest) (items ++ [item]) := by
  obtain ⟨dropped, parts, length, below⟩ := selects
  have same := split.length_eq
  rw [List.length_cons] at same
  refine ⟨least :: dropped, ?_, ?_, ?_⟩
  · have moved : (rest ++ least :: dropped).Perm items :=
      (List.perm_middle.trans (split.append_right dropped)).trans parts
    exact (moved.cons item).trans (List.perm_append_singleton item items).symm
  · rw [List.length_cons, List.length_append, List.length_singleton]
    omega
  · have leastKept : least ∈ kept := split.mem_iff.mp List.mem_cons_self
    intro other otherMember lost lostMember
    have atLeast : key least ≤ key other := by
      rcases List.mem_cons.mp otherMember with rfl | inRest
      · exact larger.le
      · exact isLeast other (split.mem_iff.mp (List.mem_cons_of_mem _ inRest))
    rcases List.mem_cons.mp lostMember with rfl | earlier
    · exact atLeast
    · exact (below least leastKept lost earlier).trans atLeast

/-- At the limit an item that is not larger than the least one is dropped. -/
theorem Selects.drop {limit : Nat} {kept items : List α} {least item : α}
    (selects : Selects key limit kept items) (full : kept.length = limit)
    (isLeast : ∀ other ∈ kept, key least ≤ key other) (notLarger : key item ≤ key least) :
    Selects key limit kept (items ++ [item]) := by
  obtain ⟨dropped, parts, length, below⟩ := selects
  refine ⟨item :: dropped, ?_, ?_, ?_⟩
  · have moved : (kept ++ item :: dropped).Perm (item :: items) :=
      List.perm_middle.trans (parts.cons item)
    exact moved.trans (List.perm_append_singleton item items).symm
  · rw [List.length_append, List.length_singleton]
    omega
  · intro other otherMember lost lostMember
    rcases List.mem_cons.mp lostMember with rfl | earlier
    · exact notLarger.trans (isLeast other otherMember)
    · exact below other otherMember lost earlier

end Selection

/-! ## Sorting by descending keys -/

section Descending

variable {α S : Type} [LinearOrder S] {key : α → S}

/-- A stable sort, the largest key first. -/
def sortDescending (key : α → S) (items : List α) : List α :=
  items.mergeSort fun left right => decide (key right ≤ key left)

theorem sortDescending_perm (items : List α) : (sortDescending key items).Perm items :=
  List.mergeSort_perm _ _

theorem sortDescending_ordered (items : List α) :
    (sortDescending key items).Pairwise fun left right => key right ≤ key left := by
  have transitive : ∀ left middle right : α, decide (key middle ≤ key left) = true →
      decide (key right ≤ key middle) = true → decide (key right ≤ key left) = true :=
    fun _ _ _ first second =>
      decide_eq_true (le_trans (of_decide_eq_true second) (of_decide_eq_true first))
  have total : ∀ left right : α,
      (decide (key right ≤ key left) || decide (key left ≤ key right)) = true := by
    intro left right
    rcases le_total (key right) (key left) with below | above
    · simp [below]
    · simp [above]
  have ordered := List.pairwise_mergeSort transitive total items
  exact ordered.imp of_decide_eq_true

/-- The keys of a descending arrangement only depend on the items. -/
theorem map_key_eq_of_perm {left right : List α} (perm : left.Perm right)
    (leftOrdered : left.Pairwise fun first second => key second ≤ key first)
    (rightOrdered : right.Pairwise fun first second => key second ≤ key first) :
    left.map key = right.map key :=
  (perm.map key).eq_of_pairwise (fun _ _ _ _ below above => le_antisymm above below)
    (List.pairwise_map.mpr leftOrdered) (List.pairwise_map.mpr rightOrdered)

/-- The sorted selection has the first keys of the sorted items. -/
theorem Selects.map_key_sortDescending {limit : Nat} {kept items : List α}
    (selects : Selects key limit kept items) :
    (sortDescending key kept).map key = ((sortDescending key items).map key).take limit := by
  obtain ⟨dropped, split, length, larger⟩ := selects
  have ordered : (sortDescending key kept ++ sortDescending key dropped).Pairwise
      fun first second => key second ≤ key first := by
    refine List.pairwise_append.mpr
      ⟨sortDescending_ordered kept, sortDescending_ordered dropped, ?_⟩
    intro first firstMember second secondMember
    exact larger first ((sortDescending_perm kept).mem_iff.mp firstMember) second
      ((sortDescending_perm dropped).mem_iff.mp secondMember)
  have perm : (sortDescending key kept ++ sortDescending key dropped).Perm
      (sortDescending key items) :=
    (((sortDescending_perm kept).append (sortDescending_perm dropped)).trans split).trans
      (sortDescending_perm items).symm
  have total := split.length_eq
  rw [List.length_append] at total
  rw [← map_key_eq_of_perm perm ordered (sortDescending_ordered items), List.map_append]
  have keptLength : ((sortDescending key kept).map key).length = kept.length := by
    rw [List.length_map, (sortDescending_perm kept).length_eq]
  by_cases fits : limit ≤ items.length
  · rw [List.take_append_of_le_length (by omega), List.take_of_length_le (by omega)]
  · have none_ : dropped = [] := List.length_eq_zero_iff.mp (by omega)
    have nothing : sortDescending key dropped = [] := by
      rw [none_]
      exact List.mergeSort_nil
    rw [nothing, List.map_nil, List.append_nil, List.take_of_length_le (by omega)]

end Descending

end MoonShot.Lib
