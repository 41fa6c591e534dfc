import Mathlib

/-!
Byte buffers: slices, in-place overwrites and little-endian integers.

Owns the three operations every fixed binary layout is made of, with the frame
rules that say which slices an overwrite can be seen through, and the round
trips of the little-endian integer codec in both directions.

Does not own any particular layout.
-/

namespace MoonShot.Lib

abbrev Bytes := List UInt8

/-! ## Slices and overwrites -/

/-- `length` bytes of `data` from `offset` on, cut short at the end of the buffer. -/
def slice (data : Bytes) (offset length : Nat) : Bytes :=
  (data.drop offset).take length

/-- Copy `source` over the bytes of `data` at `offset`. The buffer keeps its
length: bytes that would fall past the end are dropped. -/
def patch (data : Bytes) (offset : Nat) (source : Bytes) : Bytes :=
  data.take offset ++ source.take (data.length - offset) ++
    data.drop (offset + source.length)

theorem slice_getElem? (data : Bytes) (offset length index : Nat) :
    (slice data offset length)[index]? =
      if index < length then data[offset + index]? else none := by
  unfold slice
  rw [List.getElem?_take]
  split
  · rw [List.getElem?_drop]
  · rfl

@[simp] theorem patch_length (data : Bytes) (offset : Nat) (source : Bytes) :
    (patch data offset source).length = data.length := by
  simp only [patch, List.length_append, List.length_take, List.length_drop]
  omega

theorem patch_getElem? (data : Bytes) (offset : Nat) (source : Bytes) (index : Nat) :
    (patch data offset source)[index]? =
      if offset ≤ index ∧ index < offset + source.length ∧ index < data.length then
        source[index - offset]?
      else data[index]? := by
  by_cases inside : index < data.length
  · have takeLength : (data.take offset).length = min offset data.length := List.length_take
    have sourceLength : (source.take (data.length - offset)).length =
        min (data.length - offset) source.length := List.length_take
    unfold patch
    rw [List.append_assoc]
    by_cases before : index < offset
    · rw [List.getElem?_append_left (by omega), List.getElem?_take_of_lt before]
      exact (if_neg (by omega)).symm
    · rw [List.getElem?_append_right (by omega), takeLength,
        Nat.min_eq_left (by omega : offset ≤ data.length)]
      by_cases covered : index < offset + source.length
      · rw [List.getElem?_append_left (by omega), List.getElem?_take_of_lt (by omega)]
        exact (if_pos ⟨by omega, covered, inside⟩).symm
      · rw [List.getElem?_append_right (by omega), List.getElem?_drop, sourceLength,
          if_neg (by omega)]
        congr 1
        omega
  · rw [if_neg (by omega), List.getElem?_eq_none (by omega : data.length ≤ index),
      List.getElem?_eq_none (by rw [patch_length]; omega)]

theorem slice_length (data : Bytes) (offset length : Nat) :
    (slice data offset length).length = min length (data.length - offset) := by
  simp [slice]

theorem slice_length_of_le {data : Bytes} {offset length : Nat}
    (inside : offset + length ≤ data.length) :
    (slice data offset length).length = length := by
  rw [slice_length]
  omega

@[simp] theorem slice_zero_length (data : Bytes) (offset : Nat) : slice data offset 0 = [] := by
  simp [slice]

/-- What was just written is what is read back. -/
theorem patch_over {before old after source : Bytes} (same : old.length = source.length) :
    patch (before ++ (old ++ after)) before.length source = before ++ (source ++ after) := by
  have room : (before ++ (old ++ after)).length - before.length = source.length + after.length := by
    simp only [List.length_append]
    omega
  rw [patch, room, List.take_left, List.take_of_length_le (Nat.le_add_right _ _), List.append_assoc,
    ← same, List.drop_length_add_append, List.drop_left]

theorem slice_patch_same {data : Bytes} {offset : Nat} {source : Bytes}
    (inside : offset + source.length ≤ data.length) :
    slice (patch data offset source) offset source.length = source := by
  apply List.ext_getElem?
  intro index
  rw [slice_getElem?, patch_getElem?]
  by_cases below : index < source.length
  · rw [if_pos below, if_pos (by omega)]
    congr 1
    omega
  · rw [if_neg below, List.getElem?_eq_none (by omega)]

/-- A slice that ends before the overwritten range, or starts after it, is unchanged. -/
theorem slice_patch_of_disjoint {data : Bytes} {offset : Nat} {source : Bytes}
    {start length : Nat}
    (disjoint : start + length ≤ offset ∨ offset + source.length ≤ start) :
    slice (patch data offset source) start length = slice data start length := by
  apply List.ext_getElem?
  intro index
  rw [slice_getElem?, slice_getElem?]
  split
  · rw [patch_getElem?, if_neg (by omega)]
  · rfl

/-- Part of what was just written. -/
theorem slice_patch_within {data : Bytes} {offset : Nat} {source : Bytes} {start length : Nat}
    (inside : offset + source.length ≤ data.length)
    (first : offset ≤ start) (last : start + length ≤ offset + source.length) :
    slice (patch data offset source) start length = slice source (start - offset) length := by
  apply List.ext_getElem?
  intro index
  rw [slice_getElem?, slice_getElem?]
  split
  · rw [patch_getElem?, if_pos (by omega)]
    congr 1
    omega
  · rfl

theorem slice_slice {data : Bytes} {offset length start count : Nat}
    (inside : start + count ≤ length) :
    slice (slice data offset length) start count = slice data (offset + start) count := by
  apply List.ext_getElem?
  intro index
  simp only [slice_getElem?]
  split
  · rw [if_pos (by omega), Nat.add_assoc]
  · rfl

/-- Two adjacent slices make one. -/
theorem slice_append (data : Bytes) (offset first second : Nat) :
    slice data offset (first + second) =
      slice data offset first ++ slice data (offset + first) second := by
  unfold slice
  rw [List.take_add, List.drop_drop]

theorem slice_append_left {left right : Bytes} {offset length : Nat}
    (inside : offset + length ≤ left.length) :
    slice (left ++ right) offset length = slice left offset length := by
  unfold slice
  rw [List.drop_append_of_le_length (by omega), List.take_append_of_le_length]
  rw [List.length_drop]
  omega

theorem slice_append_right {left right : Bytes} {offset length : Nat}
    (after : left.length ≤ offset) :
    slice (left ++ right) offset length = slice right (offset - left.length) length := by
  unfold slice
  rw [List.drop_append, List.drop_eq_nil_of_le after, List.nil_append]

@[simp] theorem slice_self (data : Bytes) : slice data 0 data.length = data := by
  simp [slice]

theorem slice_all {data : Bytes} {length : Nat} (exact : data.length = length) :
    slice data 0 length = data := by
  rw [← exact, slice_self]

/-! ## Records of consecutive fields -/

/-- Field `index` of a record that lists its fields one after the other. -/
theorem slice_flatten_at (fields : List Bytes) (index : Nat) (below : index < fields.length) :
    slice fields.flatten (fields.take index).flatten.length fields[index].length =
      fields[index] := by
  have split : fields.flatten =
      (fields.take index).flatten ++ (fields[index] ++ (fields.drop (index + 1)).flatten) := by
    conv_lhs => rw [← List.take_append_drop index fields, List.drop_eq_getElem_cons below]
    rw [List.flatten_append, List.flatten_cons]
  conv_lhs => rw [split]
  rw [slice_append_right (Nat.le_refl _), Nat.sub_self, slice_append_left (by omega), slice_self]

/-- The same with the offset and the width of the field computed. -/
theorem slice_field {fields : List Bytes} {index offset width : Nat} {field : Bytes}
    (found : fields[index]? = some field)
    (offsetEq : (fields.take index).flatten.length = offset) (widthEq : field.length = width) :
    slice fields.flatten offset width = field := by
  obtain ⟨below, value⟩ := List.getElem?_eq_some_iff.mp found
  have := slice_flatten_at fields index below
  rwa [value, offsetEq, widthEq] at this

/-- Items of one width take that width each. -/
theorem flatten_length_uniform {items : List Bytes} {width : Nat}
    (sizes : ∀ item ∈ items, item.length = width) :
    items.flatten.length = items.length * width := by
  induction items with
  | nil => simp
  | cons item rest inductionHypothesis =>
      rw [List.flatten_cons, List.length_append, sizes item List.mem_cons_self,
        inductionHypothesis fun other member => sizes other (List.mem_cons_of_mem _ member),
        List.length_cons, Nat.succ_mul, Nat.add_comm]

/-- Item `index` of items of one width. -/
theorem slice_flatten_uniform {items : List Bytes} {width index : Nat} {item : Bytes}
    (sizes : ∀ item ∈ items, item.length = width) (found : items[index]? = some item) :
    slice items.flatten (index * width) width = item := by
  have below := (List.getElem?_eq_some_iff.mp found).1
  apply slice_field found
  · rw [flatten_length_uniform fun other member => sizes other (List.mem_of_mem_take member),
      List.length_take, Nat.min_eq_left (Nat.le_of_lt below)]
  · exact sizes item (List.mem_of_getElem? found)

/-! ## Little-endian integers -/

/-- The `width` low-order bytes of `value`, lowest first. -/
def leBytes : (width value : Nat) → Bytes
  | 0, _ => []
  | width + 1, value => UInt8.ofNat (value % 256) :: leBytes width (value / 256)

/-- The integer whose bytes, lowest first, are given. -/
def leNat : Bytes → Nat
  | [] => 0
  | byte :: rest => byte.toNat + 256 * leNat rest

@[simp] theorem leBytes_length (width value : Nat) : (leBytes width value).length = width := by
  induction width generalizing value with
  | zero => rfl
  | succ width inductionHypothesis => simp [leBytes, inductionHypothesis]

theorem leNat_leBytes (width value : Nat) :
    leNat (leBytes width value) = value % 256 ^ width := by
  induction width generalizing value with
  | zero => simp [leBytes, leNat, Nat.mod_one]
  | succ width inductionHypothesis =>
      have byte : (UInt8.ofNat (value % 256)).toNat = value % 256 := by simp
      rw [leBytes, leNat, inductionHypothesis, byte, Nat.pow_succ,
        Nat.mul_comm (256 ^ width) 256, Nat.mod_mul]

theorem leNat_leBytes_of_lt {width value : Nat} (fits : value < 256 ^ width) :
    leNat (leBytes width value) = value := by
  rw [leNat_leBytes, Nat.mod_eq_of_lt fits]

/-! ## Fixed-width integers -/

instance uInt64LinearOrder : LinearOrder UInt64 where
  le_refl := UInt64.le_refl
  le_trans := fun _ _ _ => UInt64.le_trans
  lt_iff_le_not_ge := fun left right => by
    rw [UInt64.not_le]
    exact ⟨fun below => ⟨UInt64.le_of_lt below, below⟩, And.right⟩
  le_antisymm := fun _ _ => UInt64.le_antisymm
  le_total := UInt64.le_total
  toDecidableLE := inferInstance
  toDecidableEq := inferInstance
  toDecidableLT := inferInstance

def u16At (data : Bytes) (offset : Nat) : UInt16 := UInt16.ofNat (leNat (slice data offset 2))

def u32At (data : Bytes) (offset : Nat) : UInt32 := UInt32.ofNat (leNat (slice data offset 4))

def u64At (data : Bytes) (offset : Nat) : UInt64 := UInt64.ofNat (leNat (slice data offset 8))

/-- `to_le_bytes` of a 16-bit value. -/
def u16Bytes (value : UInt16) : Bytes := leBytes 2 value.toNat

/-- `to_le_bytes` of a 32-bit value. -/
def u32Bytes (value : UInt32) : Bytes := leBytes 4 value.toNat

/-- `to_le_bytes` of a 64-bit value. -/
def u64Bytes (value : UInt64) : Bytes := leBytes 8 value.toNat

@[simp] theorem u16Bytes_length (value : UInt16) : (u16Bytes value).length = 2 := leBytes_length ..

@[simp] theorem u32Bytes_length (value : UInt32) : (u32Bytes value).length = 4 := leBytes_length ..

@[simp] theorem u64Bytes_length (value : UInt64) : (u64Bytes value).length = 8 := leBytes_length ..

theorem u16At_eq {data : Bytes} {offset : Nat} {value : UInt16}
    (stored : slice data offset 2 = u16Bytes value) : u16At data offset = value := by
  rw [u16At, stored, u16Bytes, leNat_leBytes_of_lt value.toNat_lt, UInt16.ofNat_toNat]

theorem u32At_eq {data : Bytes} {offset : Nat} {value : UInt32}
    (stored : slice data offset 4 = u32Bytes value) : u32At data offset = value := by
  rw [u32At, stored, u32Bytes, leNat_leBytes_of_lt value.toNat_lt, UInt32.ofNat_toNat]

theorem u64At_eq {data : Bytes} {offset : Nat} {value : UInt64}
    (stored : slice data offset 8 = u64Bytes value) : u64At data offset = value := by
  rw [u64At, stored, u64Bytes, leNat_leBytes_of_lt value.toNat_lt, UInt64.ofNat_toNat]

end MoonShot.Lib
