import MoonShot.Lib.TopK

/-!
Heaps whose order is a law of its own.

Owns the operations of a heap as changes of the items it holds, and the two laws that say
which item it shows: the greatest one or the least one. Without a law the heap shows any of
its items, as it does when the order of the items is no order.

Does not own how the items are kept.
-/

namespace MoonShot.Lib

/-- A heap by what it holds: `items` in some order. -/
structure Heap (α : Type) where
  Carrier : Type
  empty : Carrier
  items : Carrier → List α
  push : Carrier → α → Carrier
  peek : Carrier → Option α
  pop : Carrier → Carrier
  items_empty : items empty = []
  items_push : ∀ heap item, (items (push heap item)).Perm (item :: items heap)
  peek_eq_none : ∀ heap, peek heap = none ↔ items heap = []
  items_pop : ∀ heap item, peek heap = some item → (item :: items (pop heap)).Perm (items heap)

namespace Heap

variable {α S : Type} [LinearOrder S]

/-- The heap shows an item with the least key. -/
def ShowsLeast (heap : Heap α) (key : α → S) : Prop :=
  ∀ state item, heap.peek state = some item → ∀ other ∈ heap.items state, key item ≤ key other

/-- The heap shows an item with the greatest key. -/
def ShowsGreatest (heap : Heap α) (key : α → S) : Prop :=
  ∀ state item, heap.peek state = some item → ∀ other ∈ heap.items state, key other ≤ key item

/-- A min-heap without its order. -/
def ofMinHeap {key : α → S} (heap : MinHeap key) : Heap α where
  Carrier := heap.Carrier
  empty := heap.empty
  items := heap.items
  push := heap.push
  peek := heap.peek
  pop := heap.pop
  items_empty := heap.items_empty
  items_push := heap.items_push
  peek_eq_none := heap.peek_eq_none
  items_pop := heap.items_pop

theorem ofMinHeap_showsLeast {key : α → S} (heap : MinHeap key) :
    (ofMinHeap heap).ShowsLeast key := heap.peek_le

theorem ofMinHeap_showsGreatest {key : α → S} (heap : MinHeap (OrderDual.toDual ∘ key)) :
    (ofMinHeap heap).ShowsGreatest key := heap.peek_le

theorem length_push (heap : Heap α) (state : heap.Carrier) (item : α) :
    (heap.items (heap.push state item)).length = (heap.items state).length + 1 := by
  rw [(heap.items_push state item).length_eq, List.length_cons]

theorem length_pop {heap : Heap α} {state : heap.Carrier} {item : α}
    (shown : heap.peek state = some item) :
    (heap.items (heap.pop state)).length + 1 = (heap.items state).length := by
  have same := (heap.items_pop state item shown).length_eq
  rwa [List.length_cons] at same

theorem mem_of_peek {heap : Heap α} {state : heap.Carrier} {item : α}
    (shown : heap.peek state = some item) : item ∈ heap.items state :=
  (heap.items_pop state item shown).mem_iff.mp List.mem_cons_self

/-- What is left was there. -/
theorem mem_of_mem_pop {heap : Heap α} {state : heap.Carrier} {item other : α}
    (shown : heap.peek state = some item) (member : other ∈ heap.items (heap.pop state)) :
    other ∈ heap.items state :=
  (heap.items_pop state item shown).mem_iff.mp (List.mem_cons_of_mem _ member)

theorem mem_push {heap : Heap α} {state : heap.Carrier} {item other : α} :
    other ∈ heap.items (heap.push state item) ↔ other = item ∨ other ∈ heap.items state := by
  rw [(heap.items_push state item).mem_iff, List.mem_cons]

theorem exists_peek {heap : Heap α} {state : heap.Carrier} (some : heap.items state ≠ []) :
    ∃ item, heap.peek state = Option.some item := by
  cases shown : heap.peek state with
  | none => exact absurd ((heap.peek_eq_none state).mp shown) some
  | some item => exact ⟨item, rfl⟩

end Heap

end MoonShot.Lib
