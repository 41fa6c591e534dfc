import MoonShot.Format.Pages

/-!
Leaf term pages filled from the front.

Both writers of leaf pages, `BuildBlocks` and the merge, put entry after entry
behind the last one and one directory slot for each. Owns what such a page
holds, how one more entry changes it, and that every lookup by index then
returns the entry that was put there.
-/

namespace MoonShot.Format

open MoonShot.Lib
open MoonShot.Postings

/-- Bytes the entries take in `LTB_Data`. -/
def entriesBytes (entries : List LeafTermEntry) : Nat := (entries.map LeafTermEntry.byteLen).sum

@[simp] theorem entriesBytes_nil : entriesBytes [] = 0 := rfl

@[simp] theorem entriesBytes_append (left right : List LeafTermEntry) :
    entriesBytes (left ++ right) = entriesBytes left + entriesBytes right := by
  simp [entriesBytes]

@[simp] theorem entriesBytes_singleton (entry : LeafTermEntry) :
    entriesBytes [entry] = entry.byteLen := by
  simp [entriesBytes]

theorem entriesBytes_take_le (entries : List LeafTermEntry) (index : Nat) :
    entriesBytes (entries.take index) ≤ entriesBytes entries := by
  conv_rhs => rw [← List.take_append_drop index entries, entriesBytes_append]
  omega

theorem entriesBytes_take_succ {entries : List LeafTermEntry} {index : Nat} {entry : LeafTermEntry}
    (found : entries[index]? = some entry) :
    entriesBytes (entries.take (index + 1)) = entriesBytes (entries.take index) + entry.byteLen := by
  rw [List.take_add_one, found, entriesBytes_append]
  simp

/-- The page holds the entries one after the other, with their directory slots. -/
structure LeafHolds (page : Page) (entries : List LeafTermEntry) : Prop where
  directory : ∀ index entry, entries[index]? = some entry →
    slice page.data (2 * index) 2 =
      u16Bytes (UInt16.ofNat (leafTermDataOffset + entriesBytes (entries.take index)))
  stored : ∀ index entry, entries[index]? = some entry →
    slice page.data (leafTermDataOffset + entriesBytes (entries.take index)) entry.byteLen =
      entry.toBytes
  inside : entriesBytes entries ≤ leafDataSize
  count : entries.length ≤ leafTermDirectoryCount - 1

theorem leafHolds_nil (page : Page) : LeafHolds page [] :=
  ⟨by simp, by simp, Nat.zero_le _, Nat.zero_le _⟩

/-- One more entry behind the last one. -/
theorem LeafHolds.append {page : Page} {entries : List LeafTermEntry} (holds : LeafHolds page entries)
    {entry : LeafTermEntry} (fits : entriesBytes entries + entry.byteLen ≤ leafDataSize)
    (slotFree : entries.length < leafTermDirectoryCount - 1) :
    LeafHolds (writeLeafEntry page entries.length (entriesBytes entries) entry)
      (entries ++ [entry]) := by
  have constants : leafTermDataOffset = 322 ∧ leafTermDirectoryCount = 161 ∧ leafDataSize = 3774 ∧
      pageSize = 4096 := by
    decide
  -- Old bytes are in front of both writes; the new ones are what was written.
  have frame : ∀ start length, start + length ≤ leafTermDataOffset + entriesBytes entries →
      (start + length ≤ 2 * entries.length ∨ 2 * entries.length + 2 ≤ start) →
      slice (writeLeafEntry page entries.length (entriesBytes entries) entry).data start length =
        slice page.data start length := by
    intro start length beforeEntry besideSlot
    unfold writeLeafEntry
    rw [Page.slice_write_of_disjoint (Or.inl beforeEntry), Page.slice_write_of_disjoint]
    rw [u16Bytes_length]
    exact besideSlot
  have old : ∀ index entry, entries[index]? = some entry →
      index < entries.length ∧
        entriesBytes (entries.take index) + entry.byteLen ≤ entriesBytes entries := by
    intro index entry found
    refine ⟨(List.getElem?_eq_some_iff.mp found).1, ?_⟩
    rw [← entriesBytes_take_succ found]
    exact entriesBytes_take_le entries (index + 1)
  have cases_ : ∀ index found, (entries ++ [entry])[index]? = some found →
      (entries[index]? = some found ∧ (entries ++ [entry]).take index = entries.take index) ∨
        (index = entries.length ∧ found = entry ∧ (entries ++ [entry]).take index = entries) := by
    intro index found get
    have below := (List.getElem?_eq_some_iff.mp get).1
    rw [List.length_append, List.length_singleton] at below
    by_cases last : index = entries.length
    · refine Or.inr ⟨last, ?_, ?_⟩
      · rw [last, List.getElem?_concat_length] at get
        exact (Option.some.inj get).symm
      · rw [last, List.take_left]
    · rw [List.getElem?_append_left (by omega)] at get
      exact Or.inl ⟨get, List.take_append_of_le_length (by omega)⟩
  refine ⟨?_, ?_, by simpa using fits, by simp; omega⟩
  · intro index found get
    rcases cases_ index found get with ⟨oldGet, takeEq⟩ | ⟨rfl, rfl, takeEq⟩
    · have bounds := old index found oldGet
      rw [takeEq, frame _ _ (by omega) (by omega)]
      exact holds.directory index found oldGet
    · unfold writeLeafEntry
      rw [takeEq, Page.slice_write_of_disjoint (Or.inl (by omega))]
      exact Page.slice_write_same (by rw [u16Bytes_length]; omega)
  · intro index found get
    rcases cases_ index found get with ⟨oldGet, takeEq⟩ | ⟨rfl, rfl, takeEq⟩
    · have bounds := old index found oldGet
      rw [takeEq, frame _ _ (by omega) (by omega)]
      exact holds.stored index found oldGet
    · unfold writeLeafEntry
      rw [takeEq, ← LeafTermEntry.toBytes_length]
      exact Page.slice_write_same (by rw [LeafTermEntry.toBytes_length]; omega)

/-- The entry count has a slot of its own. -/
theorem LeafHolds.writeEntryCount {page : Page} {entries : List LeafTermEntry}
    (holds : LeafHolds page entries) (count : Nat) :
    LeafHolds (writeEntryCount page count) entries := by
  have constants : leafTermDataOffset = 322 ∧ leafTermDirectoryCount = 161 := by decide
  have bound := holds.count
  refine ⟨?_, ?_, holds.inside, holds.count⟩
  · intro index entry found
    have below := (List.getElem?_eq_some_iff.mp found).1
    unfold Format.writeEntryCount
    rw [Page.slice_write_of_disjoint (Or.inl (by omega))]
    exact holds.directory index entry found
  · intro index entry found
    unfold Format.writeEntryCount
    rw [Page.slice_write_of_disjoint (Or.inr (by rw [u16Bytes_length]; omega))]
    exact holds.stored index entry found

theorem directoryAt_writeEntryCount (page : Page) {count : Nat}
    (bound : count ≤ leafTermDirectoryCount - 1) :
    directoryAt (writeEntryCount page count) (leafTermDirectoryCount - 1) = count := by
  have constants : leafTermDirectoryCount = 161 ∧ pageSize = 4096 := by decide
  have stored : slice (writeEntryCount page count).data (2 * (leafTermDirectoryCount - 1)) 2 =
      u16Bytes (UInt16.ofNat count) :=
    Page.slice_write_same (by rw [u16Bytes_length]; omega)
  have small : count < 2 ^ 16 := by omega
  unfold directoryAt
  rw [u16At_eq stored, UInt16.toNat_ofNat', Nat.mod_eq_of_lt small]

/-- A finished leaf page: its entries, and their number in the last slot. -/
structure LeafPageOf (page : Page) (entries : List LeafTermEntry) : Prop where
  holds : LeafHolds page entries
  lastSlot : directoryAt page (leafTermDirectoryCount - 1) = entries.length
  lengths : ∀ entry ∈ entries, entry.LengthStored

theorem LeafPageOf.counted {page : Page} {entries : List LeafTermEntry}
    (leaf : LeafPageOf page entries) : entryCount page = entries.length := by
  rw [entryCount, leaf.lastSlot]
  exact Nat.min_eq_left leaf.holds.count

/-- Lookup by index in a finished page. -/
theorem LeafPageOf.leafEntry_eq {page : Page} {entries : List LeafTermEntry}
    (leaf : LeafPageOf page entries) (index : Nat) : leafEntry page index = entries[index]? := by
  have constants : leafTermDataOffset = 322 ∧ leafDataSize = 3774 := by decide
  have inside := leaf.holds.inside
  cases found : entries[index]? with
  | none =>
      have past := List.getElem?_eq_none_iff.mp found
      rw [leafEntry, if_pos (by rw [leaf.counted]; exact past)]
  | some entry =>
      have below := (List.getElem?_eq_some_iff.mp found).1
      have last : entriesBytes (entries.take index) + entry.byteLen ≤ leafDataSize := by
        have := entriesBytes_take_le entries (index + 1)
        rw [entriesBytes_take_succ found] at this
        omega
      have slot : directoryAt page index =
          leafTermDataOffset + entriesBytes (entries.take index) := by
        have small : leafTermDataOffset + entriesBytes (entries.take index) < 2 ^ 16 := by omega
        unfold directoryAt
        rw [u16At_eq (leaf.holds.directory index entry found), UInt16.toNat_ofNat',
          Nat.mod_eq_of_lt small]
      exact leafEntry_of_stored (by rw [leaf.counted]; exact below) slot last
        (leaf.lengths entry (List.mem_of_getElem? found)) (leaf.holds.stored index entry found)

/-- A finished page passes the check of `LeafTermBlock::from_bytes`. -/
theorem LeafPageOf.valid {page : Page} {entries : List LeafTermEntry}
    (leaf : LeafPageOf page entries) : leafBlockValid page = true := by
  rw [leafBlockValid, Bool.and_eq_true, List.all_eq_true, leaf.lastSlot, leaf.counted]
  refine ⟨decide_eq_true leaf.holds.count, ?_⟩
  intro index member
  rw [leaf.leafEntry_eq, List.getElem?_eq_getElem (List.mem_range.mp member)]
  rfl

end MoonShot.Format
