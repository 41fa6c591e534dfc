import Mathlib

/-!
Finite maps as association lists with distinct keys.

Owns the map type, lookup, the entry update behind `entry(k).or_default()`, and
the rules that relate lookup, membership, the list of keys and sums over the
values. A value of the type lists its entries in the order in which it is
iterated; no rule below depends on that order.
-/

namespace MoonShot.Lib

/-- A finite map: entries in iteration order, no key twice. -/
structure AssocMap (κ α : Type) where
  entries : List (κ × α)
  nodup : (entries.map Prod.fst).Nodup

namespace AssocMap

variable {κ α : Type}

def empty : AssocMap κ α := ⟨[], List.nodup_nil⟩

def keys (map : AssocMap κ α) : List κ := map.entries.map Prod.fst

@[simp] theorem entries_empty : (empty : AssocMap κ α).entries = [] := rfl

@[simp] theorem keys_empty : (empty : AssocMap κ α).keys = [] := rfl

/-- The weights of all values together. -/
def total (weight : α → Nat) (map : AssocMap κ α) : Nat :=
  (map.entries.map fun entry => weight entry.2).sum

@[simp] theorem total_empty (weight : α → Nat) : (empty : AssocMap κ α).total weight = 0 := rfl

section Lookup

variable [DecidableEq κ]

def get? (map : AssocMap κ α) (key : κ) : Option α :=
  (map.entries.find? fun entry => entry.1 = key).map Prod.snd

@[simp] theorem get?_empty (key : κ) : (empty : AssocMap κ α).get? key = none := rfl

theorem mem_entries_iff (map : AssocMap κ α) (key : κ) (value : α) :
    (key, value) ∈ map.entries ↔ map.get? key = some value := by
  obtain ⟨entries, nodup⟩ := map
  simp only [get?]
  induction entries with
  | nil => simp
  | cons entry rest inductionHypothesis =>
      rw [List.map_cons, List.nodup_cons] at nodup
      have restRule := inductionHypothesis nodup.2
      by_cases same : entry.1 = key
      · have absent : (key, value) ∉ rest := by
          intro member
          exact nodup.1 (same ▸ List.mem_map_of_mem (f := Prod.fst) member)
        rw [List.find?_cons_of_pos (by simpa using same)]
        simp only [List.mem_cons, absent, or_false, Option.map_some, Option.some.injEq]
        constructor
        · intro equal
          rw [← equal]
        · intro equal
          exact Prod.ext same.symm equal.symm
      · rw [List.find?_cons_of_neg (by simpa using same), ← restRule, List.mem_cons]
        constructor
        · rintro (equal | member)
          · exact absurd (congrArg Prod.fst equal.symm) same
          · exact member
        · exact Or.inr

theorem mem_keys_iff (map : AssocMap κ α) (key : κ) :
    key ∈ map.keys ↔ ∃ value, map.get? key = some value := by
  simp only [keys, List.mem_map]
  constructor
  · rintro ⟨⟨_, value⟩, member, rfl⟩
    exact ⟨value, (map.mem_entries_iff _ value).mp member⟩
  · rintro ⟨value, found⟩
    exact ⟨(key, value), (map.mem_entries_iff key value).mpr found, rfl⟩

theorem get?_eq_none_iff (map : AssocMap κ α) (key : κ) :
    map.get? key = none ↔ key ∉ map.keys := by
  rw [mem_keys_iff]
  cases map.get? key <;> simp

/-! ## Entry update -/

private def upsertEntries (key : κ) (initial : α) (change : α → α) :
    List (κ × α) → List (κ × α)
  | [] => [(key, change initial)]
  | entry :: rest =>
      if entry.1 = key then (entry.1, change entry.2) :: rest
      else entry :: upsertEntries key initial change rest

private theorem upsertEntries_keys (key : κ) (initial : α) (change : α → α)
    (entries : List (κ × α)) :
    (upsertEntries key initial change entries).map Prod.fst =
      if key ∈ entries.map Prod.fst then entries.map Prod.fst
      else entries.map Prod.fst ++ [key] := by
  induction entries with
  | nil => simp [upsertEntries]
  | cons entry rest inductionHypothesis =>
      unfold upsertEntries
      by_cases same : entry.1 = key
      · simp [same]
      · rw [if_neg same, List.map_cons, List.map_cons, inductionHypothesis]
        by_cases member : key ∈ rest.map Prod.fst
        · rw [if_pos member, if_pos (List.mem_cons_of_mem _ member)]
        · rw [if_neg member, if_neg (by simpa [Ne.symm same] using member)]
          rfl

private theorem upsertEntries_nodup (key : κ) (initial : α) (change : α → α)
    (entries : List (κ × α)) (nodup : (entries.map Prod.fst).Nodup) :
    ((upsertEntries key initial change entries).map Prod.fst).Nodup := by
  rw [upsertEntries_keys]
  split
  · exact nodup
  · rename_i absent
    exact List.nodup_append.mpr ⟨nodup, by simp, by
      intro left leftMember right rightMember
      rw [List.mem_singleton.mp rightMember]
      intro equal
      exact absent (equal ▸ leftMember)⟩

/-- `*map.entry(key).or_insert(initial)` passed through `change`. -/
def upsert (map : AssocMap κ α) (key : κ) (initial : α) (change : α → α) : AssocMap κ α where
  entries := upsertEntries key initial change map.entries
  nodup := upsertEntries_nodup key initial change map.entries map.nodup

/-- `map.insert(key, value)`. -/
def insert (map : AssocMap κ α) (key : κ) (value : α) : AssocMap κ α :=
  map.upsert key value fun _ => value

theorem get?_upsert (map : AssocMap κ α) (key : κ) (initial : α) (change : α → α) (query : κ) :
    (map.upsert key initial change).get? query =
      if query = key then some (change ((map.get? key).getD initial)) else map.get? query := by
  obtain ⟨entries, nodup⟩ := map
  simp only [get?, upsert]
  induction entries with
  | nil =>
      by_cases same : query = key
      · simp [upsertEntries, same]
      · simp [upsertEntries, same, Ne.symm same]
  | cons entry rest inductionHypothesis =>
      rw [List.map_cons, List.nodup_cons] at nodup
      have restRule := inductionHypothesis nodup.2
      unfold upsertEntries
      by_cases same : entry.1 = key
      · rw [if_pos same]
        by_cases asked : query = key
        · simp [same, asked]
        · have other : ¬ entry.1 = query := fun equal => asked (equal.symm.trans same)
          simp [other, asked]
      · rw [if_neg same]
        by_cases asked : entry.1 = query
        · have queryOther : ¬ query = key := fun equal => same (asked.trans equal)
          simp [asked, queryOther]
        · simp only [asked, decide_false, Bool.false_eq_true, not_false_eq_true,
            List.find?_cons_of_neg, same]
          exact restRule

theorem get?_insert (map : AssocMap κ α) (key : κ) (value : α) (query : κ) :
    (map.insert key value).get? query = if query = key then some value else map.get? query := by
  rw [insert, get?_upsert]

theorem mem_keys_upsert (map : AssocMap κ α) (key : κ) (initial : α) (change : α → α)
    (query : κ) : query ∈ (map.upsert key initial change).keys ↔ query = key ∨ query ∈ map.keys := by
  rw [mem_keys_iff, get?_upsert, mem_keys_iff]
  by_cases same : query = key
  · simp [same]
  · simp [same]

private theorem upsertEntries_upsertEntries (key : κ) (initial : α) (first second : α → α)
    (entries : List (κ × α)) :
    upsertEntries key initial second (upsertEntries key initial first entries) =
      upsertEntries key initial (second ∘ first) entries := by
  induction entries with
  | nil => simp [upsertEntries]
  | cons entry rest inductionHypothesis =>
      by_cases same : entry.1 = key
      · simp [upsertEntries, same]
      · simp [upsertEntries, same, inductionHypothesis]

theorem upsert_upsert (map : AssocMap κ α) (key : κ) (initial : α) (first second : α → α) :
    (map.upsert key initial first).upsert key initial second =
      map.upsert key initial (second ∘ first) := by
  unfold upsert
  congr 1
  exact upsertEntries_upsertEntries key initial first second map.entries

/-! ## Sums over the values -/

private theorem sum_upsertEntries (weight : α → Nat) (key : κ) {initial : α}
    (weightless : weight initial = 0) (change : α → α) (entries : List (κ × α)) :
    ((upsertEntries key initial change entries).map fun entry => weight entry.2).sum +
        weight (((entries.find? fun entry => entry.1 = key).map Prod.snd).getD initial) =
      (entries.map fun entry => weight entry.2).sum +
        weight (change (((entries.find? fun entry => entry.1 = key).map Prod.snd).getD initial)) := by
  induction entries with
  | nil => simp [upsertEntries, weightless]
  | cons entry rest inductionHypothesis =>
      unfold upsertEntries
      by_cases same : entry.1 = key
      · rw [if_pos same, List.find?_cons_of_pos (by simpa using same)]
        simp only [List.map_cons, List.sum_cons, Option.map_some, Option.getD_some]
        omega
      · rw [if_neg same, List.find?_cons_of_neg (by simpa using same)]
        simp only [List.map_cons, List.sum_cons]
        omega

/-- One updated entry moves the total by what it moves its own weight. -/
theorem total_upsert (weight : α → Nat) (map : AssocMap κ α) (key : κ) (initial : α)
    (weightless : weight initial = 0) (change : α → α) :
    (map.upsert key initial change).total weight + weight ((map.get? key).getD initial) =
      map.total weight + weight (change ((map.get? key).getD initial)) :=
  sum_upsertEntries weight key weightless change map.entries

theorem weight_le_total (weight : α → Nat) (map : AssocMap κ α) {key : κ} {value : α}
    (found : map.get? key = some value) : weight value ≤ map.total weight := by
  have member := (map.mem_entries_iff key value).mpr found
  exact List.single_le_sum (fun _ _ => Nat.zero_le _) _
    (List.mem_map_of_mem (f := fun entry : κ × α => weight entry.2) member)

end Lookup

end AssocMap

end MoonShot.Lib
