import MoonShot.Lib.Checked
import Mathlib.Data.List.Perm.Subperm
import Mathlib.Data.List.Nodup

/-!
Keys that are given slots of their own, one after the other.

Owns the table of slots and of marks on the slots in use, and the rule by which
assigning free slots keeps the slots of the keys apart. When every key has one, the
slots are a permutation. Also owns what pushing items into buckets leaves in each.
-/

namespace MoonShot.Lib

/-- The slot of each key, and for each slot whether it is in use. -/
structure SlotTable where
  slots : List Nat
  used : List Bool

namespace SlotTable

/-- `used[slot] = true; slots[key] = slot` -/
def assign (table : SlotTable) (key slot : Nat) : Checked SlotTable :=
  if slot < table.used.length ∧ key < table.slots.length then
    .ok ⟨table.slots.set key slot, table.used.set slot true⟩
  else .error .outOfBounds

def assignAll : SlotTable → List (Nat × Nat) → Checked SlotTable
  | table, [] => .ok table
  | table, (key, slot) :: rest => do
      let table ← table.assign key slot
      table.assignAll rest

def Free (table : SlotTable) (slot : Nat) : Prop := table.used[slot]? = some false

theorem free_of_getD {table : SlotTable} {slot : Nat} (free : table.used.getD slot true = false) :
    table.Free slot := by
  rw [List.getD_eq_getElem?_getD] at free
  unfold Free
  cases mark : table.used[slot]? with
  | none =>
      rw [mark] at free
      cases free
  | some marked =>
      rw [mark] at free
      exact congrArg some free

/-- The placed keys have slots in use, no two the same. -/
structure Apart (table : SlotTable) (placed : Set Nat) : Prop where
  marked : ∀ key ∈ placed, ∃ slot, table.slots[key]? = some slot ∧ table.used[slot]? = some true
  distinct : ∀ left ∈ placed, ∀ right ∈ placed,
    table.slots[left]? = table.slots[right]? → left = right

/-- The tables have the same sizes. -/
def SameSize (before after : SlotTable) : Prop :=
  after.slots.length = before.slots.length ∧ after.used.length = before.used.length

variable {table after : SlotTable} {key slot : Nat} {placed : Set Nat}

theorem assign_ok (assigned : table.assign key slot = .ok after) :
    slot < table.used.length ∧ key < table.slots.length ∧
      after = ⟨table.slots.set key slot, table.used.set slot true⟩ := by
  unfold assign at assigned
  split at assigned
  · rename_i inside
    exact ⟨inside.1, inside.2, (Except.ok.inj assigned).symm⟩
  · cases assigned

theorem assign_eq (slotInside : slot < table.used.length) (keyInside : key < table.slots.length) :
    table.assign key slot = .ok ⟨table.slots.set key slot, table.used.set slot true⟩ :=
  if_pos ⟨slotInside, keyInside⟩

theorem assign_sameSize (assigned : table.assign key slot = .ok after) : SameSize table after := by
  obtain ⟨_, _, rfl⟩ := assign_ok assigned
  exact ⟨List.length_set, List.length_set⟩

theorem assign_slot (assigned : table.assign key slot = .ok after) :
    after.slots[key]? = some slot := by
  obtain ⟨_, inside, rfl⟩ := assign_ok assigned
  exact List.getElem?_set_self inside

theorem assign_used (assigned : table.assign key slot = .ok after) :
    after.used[slot]? = some true := by
  obtain ⟨inside, _, rfl⟩ := assign_ok assigned
  exact List.getElem?_set_self inside

theorem assign_slot_of_ne (assigned : table.assign key slot = .ok after) {other : Nat}
    (apart : other ≠ key) : after.slots[other]? = table.slots[other]? := by
  obtain ⟨_, _, rfl⟩ := assign_ok assigned
  exact List.getElem?_set_ne (Ne.symm apart)

theorem assign_used_of_ne (assigned : table.assign key slot = .ok after) {other : Nat}
    (apart : other ≠ slot) : after.used[other]? = table.used[other]? := by
  obtain ⟨_, _, rfl⟩ := assign_ok assigned
  exact List.getElem?_set_ne (Ne.symm apart)

/-- A key that gets a free slot is apart from the keys placed before. -/
theorem Apart.assign (apart : table.Apart placed) (fresh : key ∉ placed) (free : table.Free slot)
    (assigned : table.assign key slot = .ok after) : after.Apart (insert key placed) := by
  have keeps : ∀ other ∈ placed, after.slots[other]? = table.slots[other]? := by
    intro other member
    refine assign_slot_of_ne assigned ?_
    rintro rfl
    exact fresh member
  have elsewhere : ∀ other ∈ placed, after.slots[other]? ≠ some slot := by
    intro other member same
    obtain ⟨taken, slotEq, marked⟩ := apart.marked other member
    rw [keeps other member, slotEq] at same
    obtain rfl := Option.some.inj same
    rw [Free, marked] at free
    cases Option.some.inj free
  constructor
  · intro other member
    rcases member with rfl | old
    · exact ⟨slot, assign_slot assigned, assign_used assigned⟩
    · obtain ⟨taken, slotEq, marked⟩ := apart.marked other old
      have differs : taken ≠ slot := by
        rintro rfl
        exact elsewhere other old ((keeps other old).trans slotEq)
      refine ⟨taken, (keeps other old).trans slotEq, ?_⟩
      rw [assign_used_of_ne assigned differs]
      exact marked
  · intro left leftMember right rightMember same
    rcases leftMember with rfl | leftOld <;> rcases rightMember with rfl | rightOld
    · rfl
    · rw [assign_slot assigned] at same
      exact absurd same.symm (elsewhere right rightOld)
    · rw [assign_slot assigned] at same
      exact absurd same (elsewhere left leftOld)
    · rw [keeps left leftOld, keeps right rightOld] at same
      exact apart.distinct left leftOld right rightOld same

theorem Free.assign {other : Nat} (free : table.Free other) (apart : other ≠ slot)
    (assigned : table.assign key slot = .ok after) : after.Free other := by
  rw [Free, assign_used_of_ne assigned apart]
  exact free

/-- Keys that get free slots, no two the same, are apart from the keys placed before. -/
theorem Apart.assignAll {pairs : List (Nat × Nat)} (apart : table.Apart placed)
    (keys : (pairs.map Prod.fst).Nodup) (fresh : ∀ pair ∈ pairs, pair.1 ∉ placed)
    (slots : (pairs.map Prod.snd).Nodup) (free : ∀ pair ∈ pairs, table.Free pair.2)
    (assigned : table.assignAll pairs = .ok after) :
    after.Apart ({key | key ∈ pairs.map Prod.fst} ∪ placed) ∧
      (∀ pair ∈ pairs, after.slots[pair.1]? = some pair.2) ∧
      (∀ other, other ∉ pairs.map Prod.fst → after.slots[other]? = table.slots[other]?) ∧
      SameSize table after := by
  induction pairs generalizing table placed with
  | nil =>
      obtain rfl := Except.ok.inj assigned
      refine ⟨?_, by simp, fun _ _ => rfl, rfl, rfl⟩
      simpa using apart
  | cons pair rest inductionHypothesis =>
      obtain ⟨key, slot⟩ := pair
      rw [List.map_cons, List.nodup_cons] at keys slots
      rw [SlotTable.assignAll] at assigned
      cases ran : table.assign key slot with
      | error fault =>
          rw [ran] at assigned
          cases assigned
      | ok next =>
          rw [ran] at assigned
          have keyFresh := fresh (key, slot) List.mem_cons_self
          have nextApart := apart.assign keyFresh (free (key, slot) List.mem_cons_self) ran
          have restFresh : ∀ pair ∈ rest, pair.1 ∉ insert key placed := by
            intro pair member inside
            rcases inside with same | old
            · apply keys.1
              rw [← same]
              exact List.mem_map.mpr ⟨pair, member, rfl⟩
            · exact fresh pair (List.mem_cons_of_mem _ member) old
          have restFree : ∀ pair ∈ rest, next.Free pair.2 := by
            intro pair member
            refine Free.assign (free pair (List.mem_cons_of_mem _ member)) ?_ ran
            intro same
            apply slots.1
            rw [← same]
            exact List.mem_map.mpr ⟨pair, member, rfl⟩
          obtain ⟨all, here, others, sizes⟩ :=
            inductionHypothesis nextApart keys.2 restFresh slots.2 restFree assigned
          refine ⟨?_, ?_, ?_, sizes.1.trans (assign_sameSize ran).1,
            sizes.2.trans (assign_sameSize ran).2⟩
          · convert all using 1
            ext other
            simp only [List.map_cons, List.mem_cons, Set.mem_union, Set.mem_ofPred_eq,
              Set.mem_insert_iff]
            tauto
          · intro pair member
            rcases List.mem_cons.mp member with rfl | inside
            · rw [others key keys.1]
              exact assign_slot ran
            · exact here pair inside
          · intro other absent
            rw [List.map_cons, List.mem_cons, not_or] at absent
            rw [others other absent.2]
            exact assign_slot_of_ne ran absent.1

/-- Keys and slots of the table can be assigned. -/
theorem assignAll_returns {pairs : List (Nat × Nat)}
    (inside : ∀ pair ∈ pairs, pair.1 < table.slots.length ∧ pair.2 < table.used.length) :
    ∃ after, table.assignAll pairs = .ok after ∧ SameSize table after := by
  induction pairs generalizing table with
  | nil => exact ⟨table, rfl, rfl, rfl⟩
  | cons pair rest inductionHypothesis =>
      obtain ⟨key, slot⟩ := pair
      have first := inside (key, slot) List.mem_cons_self
      have ran := assign_eq first.2 first.1
      have sizes := assign_sameSize ran
      let next : SlotTable := ⟨table.slots.set key slot, table.used.set slot true⟩
      have restInside : ∀ pair ∈ rest, pair.1 < next.slots.length ∧ pair.2 < next.used.length := by
        intro pair member
        rw [sizes.1, sizes.2]
        exact inside pair (List.mem_cons_of_mem _ member)
      obtain ⟨after, assigned, same⟩ := inductionHypothesis restInside
      refine ⟨after, ?_, same.1.trans sizes.1, same.2.trans sizes.2⟩
      rw [SlotTable.assignAll, ran]
      exact assigned

/-- When all keys of a table have a slot, the slots are a permutation. -/
theorem Apart.perm (apart : table.Apart placed) (all : ∀ key < table.slots.length, key ∈ placed)
    (sizes : table.used.length = table.slots.length) :
    table.slots.Perm (List.range table.slots.length) := by
  have nodup : table.slots.Nodup := by
    rw [List.nodup_iff_getElem?_ne_getElem?]
    intro left right below inside same
    have leftInside : left < table.slots.length := by omega
    exact absurd (apart.distinct left (all left leftInside) right (all right inside) same)
      (Nat.ne_of_lt below)
  have members : table.slots ⊆ List.range table.slots.length := by
    intro slot member
    obtain ⟨key, found⟩ := List.mem_iff_getElem?.mp member
    have keyInside := (List.getElem?_eq_some_iff.mp found).1
    obtain ⟨other, slotEq, marked⟩ := apart.marked key (all key keyInside)
    rw [found] at slotEq
    obtain rfl := Option.some.inj slotEq
    rw [List.mem_range, ← sizes]
    exact (List.getElem?_eq_some_iff.mp marked).1
  apply (List.subperm_of_subset nodup members).perm_of_length_le
  rw [List.length_range]

end SlotTable

/-! ## Buckets -/

/-- Pushing items one by one puts each behind the others of its bucket. -/
theorem foldl_modify_getElem? {α : Type} (bucket : α → Nat) (items : List α)
    (buckets : List (List α)) (number : Nat) :
    (items.foldl (fun buckets item => buckets.modify (bucket item) (· ++ [item]))
        buckets)[number]? =
      buckets[number]?.map (· ++ items.filter fun item => bucket item = number) := by
  induction items generalizing buckets with
  | nil => simp
  | cons item rest inductionHypothesis =>
      rw [List.foldl_cons, inductionHypothesis, List.getElem?_modify, List.filter_cons]
      cases buckets[number]? with
      | none => rfl
      | some here =>
          by_cases same : bucket item = number
          · simp [same]
          · simp [same]

end MoonShot.Lib
