import MoonShot.Format.Header
import MoonShot.Lib.AssocMap

/-!
Document paths: the table of interned directory prefixes, the sidecar section
that stores it, and the 64 path bytes of a document record.

Owns the sidecar codec and its round trip, the interning of prefixes with its
two limits, and the path field of a record in both directions. A table that was
filled by interning always fits the sidecar, so the limits never have to be
checked again.
-/

namespace MoonShot.Format

open MoonShot.Lib
open MoonShot.Postings

/-! ## Sidecar -/

/-- `PATH_PREFIX_SIDECAR_MAGIC`, the bytes of `MSPATHS` and a NUL. -/
def pathPrefixSidecarMagic : Bytes := [0x4D, 0x53, 0x50, 0x41, 0x54, 0x48, 0x53, 0x00]

/-- `PATH_PREFIX_SIDECAR_VERSION` -/
def pathPrefixSidecarVersion : UInt16 := 1

/-- Bytes of `PathPrefixSidecarHeader`. -/
def sidecarHeaderSize : Nat := 32

/-- `PathPrefixSidecarEntry`: offset and length of one prefix, no flags. -/
def sidecarEntry (cursor : Nat) (pathPrefix : Str) : Bytes :=
  u32Bytes (UInt32.ofNat cursor) ++ (u16Bytes (UInt16.ofNat pathPrefix.len) ++ u16Bytes 0)

/-- The entries of consecutive prefixes, the first one at `cursor`. -/
def sidecarEntries : (cursor : Nat) → List Str → List Bytes
  | _, [] => []
  | cursor, pathPrefix :: rest =>
      sidecarEntry cursor pathPrefix :: sidecarEntries (cursor + pathPrefix.len) rest

/-- Bytes of all prefixes. -/
def stringBytesOf (prefixes : List Str) : Nat := (prefixes.map Str.len).sum

/-- The fields of `PathPrefixSidecarHeader`. -/
def sidecarHeader (prefixes : List Str) : List Bytes :=
  [pathPrefixSidecarMagic, u16Bytes pathPrefixSidecarVersion,
    u16Bytes (UInt16.ofNat prefixes.length), u32Bytes (UInt32.ofNat sidecarHeaderSize),
    u32Bytes (UInt32.ofNat (sidecarHeaderSize + prefixes.length * 8)),
    u32Bytes (UInt32.ofNat (stringBytesOf prefixes)), List.replicate 8 0]

/-- `EncodePathPrefixSidecar`: header, entries and strings in a zeroed section. -/
def encodePathPrefixSidecar (prefixes : List Str) : Bytes :=
  let prefixes := prefixes.take 65535
  let content := (sidecarHeader prefixes).flatten ++
    ((sidecarEntries 0 prefixes).flatten ++ (prefixes.map Str.bytes).flatten)
  content ++ List.replicate (pathPrefixSidecarBytes - content.length) 0

/-- One turn of the loop of `DecodePathPrefixSidecar`. -/
def decodeSidecarEntry (sidecar : Bytes) (entryOffset stringOffset stringBytes index : Nat) :
    Except RustBladeError Str :=
  let offset := entryOffset + index * 8
  let start := stringOffset + (u32At sidecar offset).toNat
  let length := (u16At sidecar (offset + 4)).toNat
  if start + length > stringOffset + stringBytes then .error .invalidFormat
  else
    match Str.fromUtf8 (slice sidecar start length) with
    | none => .error .invalidFormat
    | some pathPrefix => .ok pathPrefix

/-- `DecodePathPrefixSidecar` -/
def decodePathPrefixSidecar (sidecar : Bytes) : Except RustBladeError (List Str) := do
  require .invalidFormat (sidecar.length = pathPrefixSidecarBytes)
  let prefixCount := (u16At sidecar 10).toNat
  let entryOffset := (u32At sidecar 12).toNat
  let stringOffset := (u32At sidecar 16).toNat
  let stringBytes := (u32At sidecar 20).toNat
  require .invalidFormat (slice sidecar 0 8 = pathPrefixSidecarMagic ∧
    u16At sidecar 8 = pathPrefixSidecarVersion ∧ sidecarHeaderSize ≤ entryOffset ∧
    stringOffset ≤ pathPrefixSidecarBytes ∧ stringOffset + stringBytes ≤ pathPrefixSidecarBytes ∧
    entryOffset + prefixCount * 8 ≤ pathPrefixSidecarBytes)
  (List.range prefixCount).mapM (decodeSidecarEntry sidecar entryOffset stringOffset stringBytes)

/-- The table has a sidecar of its own size, and every length fits its field. -/
structure FitsSidecar (prefixes : List Str) : Prop where
  total : sidecarHeaderSize + prefixes.length * 8 + stringBytesOf prefixes ≤ pathPrefixSidecarBytes
  lengths : ∀ pathPrefix ∈ prefixes, pathPrefix.len ≤ 65535

@[simp] theorem sidecarEntry_length (cursor : Nat) (pathPrefix : Str) :
    (sidecarEntry cursor pathPrefix).length = 8 := by
  simp [sidecarEntry]

theorem sidecarEntries_getElem? (cursor : Nat) (prefixes : List Str) (index : Nat) :
    (sidecarEntries cursor prefixes)[index]? =
      prefixes[index]?.map (sidecarEntry (cursor + stringBytesOf (prefixes.take index))) := by
  induction prefixes generalizing cursor index with
  | nil => rfl
  | cons pathPrefix rest inductionHypothesis =>
      cases index with
      | zero => rfl
      | succ index =>
          rw [sidecarEntries, List.getElem?_cons_succ, List.getElem?_cons_succ,
            inductionHypothesis, List.take_succ_cons, Nat.add_assoc]
          rfl

theorem sidecarEntries_bytes (cursor : Nat) (prefixes : List Str) :
    (sidecarEntries cursor prefixes).flatten.length = prefixes.length * 8 := by
  induction prefixes generalizing cursor with
  | nil => rfl
  | cons pathPrefix rest inductionHypothesis =>
      rw [sidecarEntries, List.flatten_cons, List.length_append, sidecarEntry_length,
        inductionHypothesis, List.length_cons]
      omega

theorem sidecarEntries_take (cursor : Nat) (prefixes : List Str) (index : Nat) :
    (sidecarEntries cursor prefixes).take index = sidecarEntries cursor (prefixes.take index) := by
  induction prefixes generalizing cursor index with
  | nil => simp [sidecarEntries]
  | cons pathPrefix rest inductionHypothesis =>
      cases index with
      | zero => rfl
      | succ index =>
          rw [sidecarEntries, List.take_succ_cons, List.take_succ_cons, inductionHypothesis]
          rfl

theorem sidecarStrings_length (prefixes : List Str) :
    (prefixes.map Str.bytes).flatten.length = stringBytesOf prefixes := by
  rw [List.length_flatten, List.map_map]
  rfl

theorem sidecarHeader_length (prefixes : List Str) :
    (sidecarHeader prefixes).flatten.length = sidecarHeaderSize := by
  simp [sidecarHeader, sidecarHeaderSize, pathPrefixSidecarMagic]

/-- A prefix and all before it take no more bytes than all prefixes. -/
theorem stringBytesOf_take_add {prefixes : List Str} {index : Nat} {pathPrefix : Str}
    (found : prefixes[index]? = some pathPrefix) :
    stringBytesOf (prefixes.take index) + pathPrefix.len ≤ stringBytesOf prefixes := by
  obtain ⟨below, value⟩ := List.getElem?_eq_some_iff.mp found
  have split : prefixes = prefixes.take index ++ (pathPrefix :: prefixes.drop (index + 1)) := by
    rw [← value, ← List.drop_eq_getElem_cons below, List.take_append_drop]
  have total := congrArg stringBytesOf split
  simp only [stringBytesOf, List.map_append, List.sum_append, List.map_cons, List.sum_cons]
    at total ⊢
  omega

/-- A prefix as its entry describes it: the length field keeps 16 bits. -/
def sidecarPrefix (pathPrefix : Str) : Except RustBladeError Str :=
  match Str.fromUtf8 (pathPrefix.bytes.take (pathPrefix.len % 65536)) with
  | none => .error .invalidFormat
  | some cut => .ok cut

theorem sidecarPrefix_short {pathPrefix : Str} (short : pathPrefix.len ≤ 65535) :
    sidecarPrefix pathPrefix = .ok pathPrefix := by
  rw [sidecarPrefix, Nat.mod_eq_of_lt (by omega), Str.len, List.take_length, Str.fromUtf8_bytes]

section Sidecar

variable {prefixes : List Str}

/-- The sidecar of a table that fits, as the sections it is made of. -/
theorem encodePathPrefixSidecar_eq
    (total : sidecarHeaderSize + prefixes.length * 8 + stringBytesOf prefixes ≤
      pathPrefixSidecarBytes) :
    encodePathPrefixSidecar prefixes =
      (sidecarHeader prefixes).flatten ++ ((sidecarEntries 0 prefixes).flatten ++
        ((prefixes.map Str.bytes).flatten ++
          List.replicate (pathPrefixSidecarBytes -
            (sidecarHeaderSize + prefixes.length * 8 + stringBytesOf prefixes)) 0)) := by
  have sizes : sidecarHeaderSize = 32 ∧ pathPrefixSidecarBytes = 81920 := by decide
  have taken : prefixes.take 65535 = prefixes := List.take_of_length_le (by omega)
  unfold encodePathPrefixSidecar
  dsimp only
  rw [taken, List.append_assoc, List.append_assoc, List.length_append, List.length_append,
    sidecarHeader_length, sidecarEntries_bytes, sidecarStrings_length, Nat.add_assoc]

theorem encodePathPrefixSidecar_length
    (total : sidecarHeaderSize + prefixes.length * 8 + stringBytesOf prefixes ≤
      pathPrefixSidecarBytes) :
    (encodePathPrefixSidecar prefixes).length = pathPrefixSidecarBytes := by
  rw [encodePathPrefixSidecar_eq total, List.length_append, List.length_append, List.length_append,
    sidecarHeader_length, sidecarEntries_bytes, sidecarStrings_length, List.length_replicate]
  omega

private theorem sidecar_header_slice
    (total : sidecarHeaderSize + prefixes.length * 8 + stringBytesOf prefixes ≤
      pathPrefixSidecarBytes)
    {start width : Nat}
    (inside : start + width ≤ sidecarHeaderSize) :
    slice (encodePathPrefixSidecar prefixes) start width =
      slice (sidecarHeader prefixes).flatten start width := by
  rw [encodePathPrefixSidecar_eq total]
  exact slice_append_left (by rw [sidecarHeader_length]; exact inside)

private theorem sidecar_entry_slice
    (total : sidecarHeaderSize + prefixes.length * 8 + stringBytesOf prefixes ≤
      pathPrefixSidecarBytes)
    {index : Nat} {pathPrefix : Str}
    (found : prefixes[index]? = some pathPrefix) :
    slice (encodePathPrefixSidecar prefixes) (sidecarHeaderSize + index * 8) 8 =
      sidecarEntry (stringBytesOf (prefixes.take index)) pathPrefix := by
  have below := (List.getElem?_eq_some_iff.mp found).1
  rw [encodePathPrefixSidecar_eq total,
    slice_append_right (by rw [sidecarHeader_length]; omega), sidecarHeader_length,
    Nat.add_sub_cancel_left, slice_append_left (by rw [sidecarEntries_bytes]; omega)]
  apply slice_field
  · rw [sidecarEntries_getElem?, found, Option.map_some, Nat.zero_add]
  · rw [sidecarEntries_take, sidecarEntries_bytes, List.length_take]
    omega
  · exact sidecarEntry_length _ _

private theorem sidecar_string_slice
    (total : sidecarHeaderSize + prefixes.length * 8 + stringBytesOf prefixes ≤
      pathPrefixSidecarBytes)
    {index : Nat} {pathPrefix : Str}
    (found : prefixes[index]? = some pathPrefix) :
    slice (encodePathPrefixSidecar prefixes)
      (sidecarHeaderSize + prefixes.length * 8 + stringBytesOf (prefixes.take index))
      pathPrefix.len = pathPrefix.bytes := by
  have inside := stringBytesOf_take_add found
  rw [encodePathPrefixSidecar_eq total,
    slice_append_right (by rw [sidecarHeader_length]; omega), sidecarHeader_length,
    slice_append_right (by rw [sidecarEntries_bytes]; omega), sidecarEntries_bytes,
    slice_append_left (by rw [sidecarStrings_length]; omega)]
  have string : (prefixes.map Str.bytes)[index]? = some pathPrefix.bytes := by
    rw [List.getElem?_map, found]
    rfl
  apply slice_field string
  · rw [← List.map_take, sidecarStrings_length]
    omega
  · rfl

private theorem decodeSidecarEntry_eq
    (total : sidecarHeaderSize + prefixes.length * 8 + stringBytesOf prefixes ≤
      pathPrefixSidecarBytes)
    {index : Nat} {pathPrefix : Str} (found : prefixes[index]? = some pathPrefix) :
    decodeSidecarEntry (encodePathPrefixSidecar prefixes) sidecarHeaderSize
      (sidecarHeaderSize + prefixes.length * 8) (stringBytesOf prefixes) index =
        sidecarPrefix pathPrefix := by
  have sizes : sidecarHeaderSize = 32 ∧ pathPrefixSidecarBytes = 81920 := by decide
  have inside := stringBytesOf_take_add found
  have entry := sidecar_entry_slice total found
  have offsetField : u32At (encodePathPrefixSidecar prefixes) (sidecarHeaderSize + index * 8) =
      UInt32.ofNat (stringBytesOf (prefixes.take index)) := by
    apply u32At_eq
    rw [← Nat.add_zero (sidecarHeaderSize + index * 8), ← slice_slice (by decide : 0 + 4 ≤ 8), entry,
      sidecarEntry, slice_append_left (by simp), slice_all (u32Bytes_length _)]
  have lengthField : u16At (encodePathPrefixSidecar prefixes) (sidecarHeaderSize + index * 8 + 4) =
      UInt16.ofNat pathPrefix.len := by
    apply u16At_eq
    rw [← slice_slice (by decide : 4 + 2 ≤ 8), entry, sidecarEntry, slice_append_right (by simp),
      u32Bytes_length, slice_append_left (by simp), slice_all (u16Bytes_length _)]
  have offsetNat : (UInt32.ofNat (stringBytesOf (prefixes.take index))).toNat =
      stringBytesOf (prefixes.take index) := by
    rw [UInt32.toNat_ofNat']
    omega
  have lengthNat : (UInt16.ofNat pathPrefix.len).toNat = pathPrefix.len % 65536 :=
    UInt16.toNat_ofNat'
  have cut := Nat.mod_le pathPrefix.len 65536
  have string : slice (encodePathPrefixSidecar prefixes)
      (sidecarHeaderSize + prefixes.length * 8 + stringBytesOf (prefixes.take index))
      (pathPrefix.len % 65536) = pathPrefix.bytes.take (pathPrefix.len % 65536) := by
    rw [← Nat.add_zero (_ + stringBytesOf _), ← slice_slice (by omega : 0 + _ ≤ pathPrefix.len),
      sidecar_string_slice total found]
    rfl
  unfold decodeSidecarEntry
  dsimp only
  rw [offsetField, lengthField, offsetNat, lengthNat, if_neg (by omega), string]
  rfl

/-- The sidecar of a table gives back what its entries describe. -/
theorem decode_encodePathPrefixSidecar_eq
    (total : sidecarHeaderSize + prefixes.length * 8 + stringBytesOf prefixes ≤
      pathPrefixSidecarBytes) :
    decodePathPrefixSidecar (encodePathPrefixSidecar prefixes) = prefixes.mapM sidecarPrefix := by
  have sizes : sidecarHeaderSize = 32 ∧ pathPrefixSidecarBytes = 81920 := by decide
  have field : ∀ slot start width bytes, (sidecarHeader prefixes)[slot]? = some bytes →
      ((sidecarHeader prefixes).take slot).flatten.length = start → bytes.length = width →
      start + width ≤ sidecarHeaderSize →
      slice (encodePathPrefixSidecar prefixes) start width = bytes := by
    intro slot start width bytes found startEq widthEq inside
    rw [sidecar_header_slice total inside]
    exact slice_field found startEq widthEq
  have magic := field 0 0 8 _ rfl rfl rfl (by omega)
  have version := u16At_eq (field 1 8 2 _ rfl rfl (u16Bytes_length _) (by omega))
  have count := u16At_eq (field 2 10 2 _ rfl (by simp [sidecarHeader, pathPrefixSidecarMagic])
    (u16Bytes_length _) (by omega))
  have entryOffset := u32At_eq (field 3 12 4 _ rfl
    (by simp [sidecarHeader, pathPrefixSidecarMagic]) (u32Bytes_length _) (by omega))
  have stringOffset := u32At_eq (field 4 16 4 _ rfl
    (by simp [sidecarHeader, pathPrefixSidecarMagic]) (u32Bytes_length _) (by omega))
  have stringBytes := u32At_eq (field 5 20 4 _ rfl
    (by simp [sidecarHeader, pathPrefixSidecarMagic]) (u32Bytes_length _) (by omega))
  have countNat : (UInt16.ofNat prefixes.length).toNat = prefixes.length := by
    rw [UInt16.toNat_ofNat']
    omega
  have entryNat : (UInt32.ofNat sidecarHeaderSize).toNat = sidecarHeaderSize := by decide
  have offsetNat : (UInt32.ofNat (sidecarHeaderSize + prefixes.length * 8)).toNat =
      sidecarHeaderSize + prefixes.length * 8 := by
    rw [UInt32.toNat_ofNat']
    omega
  have bytesNat : (UInt32.ofNat (stringBytesOf prefixes)).toNat = stringBytesOf prefixes := by
    rw [UInt32.toNat_ofNat']
    omega
  unfold decodePathPrefixSidecar
  rw [require_bind (encodePathPrefixSidecar_length total)]
  dsimp only
  rw [magic, version, count, entryOffset, stringOffset, stringBytes, countNat, entryNat, offsetNat,
    bytesNat, require_bind ⟨rfl, rfl, Nat.le_refl _, by omega, by omega, by omega⟩]
  exact mapM_range_items fun index pathPrefix found => decodeSidecarEntry_eq total found

/-- The prefixes of a table that fits come back from its sidecar. -/
theorem decode_encodePathPrefixSidecar (fits : FitsSidecar prefixes) :
    decodePathPrefixSidecar (encodePathPrefixSidecar prefixes) = .ok prefixes := by
  rw [decode_encodePathPrefixSidecar_eq fits.total]
  have lengths := fits.lengths
  clear fits
  induction prefixes with
  | nil => rfl
  | cons first rest inductionHypothesis =>
      rw [List.mapM_cons, sidecarPrefix_short (lengths first List.mem_cons_self),
        inductionHypothesis fun other member => lengths other (List.mem_cons_of_mem _ member)]
      rfl

end Sidecar

/-! ## Interning -/

/-- `DOC_PATH_PREFIX_INVALID` -/
def docPathPrefixInvalid : UInt16 := 0xFFFF

/-- `prefix_to_id`, `prefixes` and `string_bytes`. -/
structure PrefixTable where
  prefixToId : AssocMap Str UInt16
  prefixes : List Str
  stringBytes : Nat

def PrefixTable.empty : PrefixTable := ⟨.empty, [], 0⟩

/-- `path_prefix_sidecar_can_hold` -/
def pathPrefixSidecarCanHold (prefixCount stringBytes : Nat) : Bool :=
  sidecarHeaderSize + prefixCount * 8 + stringBytes ≤ pathPrefixSidecarBytes

/-- `intern_path_prefix` -/
def internPathPrefix (table : PrefixTable) (pathPrefix : Str) : PrefixTable × UInt16 :=
  match table.prefixToId.get? pathPrefix with
  | some id => (table, id)
  | none =>
      if table.prefixes.length ≥ docPathPrefixInvalid.toNat then (table, docPathPrefixInvalid)
      else
        let nextStringBytes := table.stringBytes + pathPrefix.len
        if pathPrefixSidecarCanHold (table.prefixes.length + 1) nextStringBytes = false then
          (table, docPathPrefixInvalid)
        else
          let id := UInt16.ofNat table.prefixes.length
          ({ prefixToId := table.prefixToId.insert pathPrefix id
             prefixes := table.prefixes ++ [pathPrefix]
             stringBytes := nextStringBytes }, id)

/-- What interning keeps: the strings are counted, and the sidecar can hold them. -/
structure PrefixTable.Held (table : PrefixTable) : Prop where
  counted : table.stringBytes = stringBytesOf table.prefixes
  total : sidecarHeaderSize + table.prefixes.length * 8 + stringBytesOf table.prefixes ≤
    pathPrefixSidecarBytes

theorem PrefixTable.held_empty : PrefixTable.empty.Held := ⟨rfl, by decide⟩

theorem PrefixTable.Held.intern {table : PrefixTable} (held : table.Held) (pathPrefix : Str) :
    (internPathPrefix table pathPrefix).1.Held := by
  unfold internPathPrefix
  split
  · exact held
  · by_cases full : table.prefixes.length ≥ docPathPrefixInvalid.toNat
    · rw [if_pos full]
      exact held
    · rw [if_neg full]
      dsimp only
      by_cases refused : pathPrefixSidecarCanHold (table.prefixes.length + 1)
          (table.stringBytes + pathPrefix.len) = false
      · rw [if_pos refused]
        exact held
      · rw [if_neg refused]
        have total : sidecarHeaderSize + (table.prefixes.length + 1) * 8 +
            (table.stringBytes + pathPrefix.len) ≤ pathPrefixSidecarBytes := by
          simpa [pathPrefixSidecarCanHold] using refused
        have counted : table.stringBytes + pathPrefix.len =
            stringBytesOf (table.prefixes ++ [pathPrefix]) := by
          rw [held.counted]
          simp [stringBytesOf]
        refine ⟨counted, ?_⟩
        show sidecarHeaderSize + (table.prefixes ++ [pathPrefix]).length * 8 +
          stringBytesOf (table.prefixes ++ [pathPrefix]) ≤ pathPrefixSidecarBytes
        rw [← counted, List.length_append]
        exact total

/-- Interning adds no other prefix than its own. -/
theorem mem_internPathPrefix {table : PrefixTable} {pathPrefix other : Str}
    (member : other ∈ (internPathPrefix table pathPrefix).1.prefixes) :
    other ∈ table.prefixes ∨ other = pathPrefix := by
  unfold internPathPrefix at member
  split at member
  · exact .inl member
  · split at member
    · exact .inl member
    · dsimp only at member
      split at member
      · exact .inl member
      · rcases List.mem_append.mp member with old | new
        · exact .inl old
        · exact .inr (List.mem_singleton.mp new)

/-- The table can be read back from its sidecar: no prefix is cut. -/
structure PrefixTable.Fits (table : PrefixTable) : Prop where
  counted : table.stringBytes = stringBytesOf table.prefixes
  sidecar : FitsSidecar table.prefixes

theorem PrefixTable.fits_empty : PrefixTable.empty.Fits :=
  ⟨rfl, by decide, by simp [PrefixTable.empty]⟩

theorem PrefixTable.Fits.intern {table : PrefixTable} (fits : table.Fits) {pathPrefix : Str}
    (short : pathPrefix.len ≤ 65535) : (internPathPrefix table pathPrefix).1.Fits := by
  have held : table.Held := ⟨fits.counted, fits.sidecar.total⟩
  have after := held.intern pathPrefix
  refine ⟨after.counted, after.total, ?_⟩
  intro other member
  rcases mem_internPathPrefix member with old | rfl
  · exact fits.sidecar.lengths other old
  · exact short

/-! ## Paths of records -/

/-- `DOC_PATH_MAX` -/
def docPathMax : Nat := 64

/-- `DOC_PATH_FILENAME_MAX` -/
def docPathFilenameMax : Nat := 62

/-- `DOC_PATH_OFFSET` -/
def docPathOffset : Nat := 192

/-- Offset of `DDE_PathLength`. -/
def docPathLengthOffset : Nat := 18

/-- A slash or a backslash. -/
def isPathSeparator (byte : UInt8) : Bool := byte == 0x2F || byte == 0x5C

theorem isPathSeparator_ascii (byte : UInt8) (separator : isPathSeparator byte = true) :
    byte.toNat < 0x80 := by
  rw [isPathSeparator, Bool.or_eq_true, beq_iff_eq, beq_iff_eq] at separator
  rcases separator with rfl | rfl <;> decide

/-- `split_path_for_sidecar`: directory and file name. -/
def splitPathForSidecar (fullPath : Str) : Str × Str :=
  match fullPath.cutLast isPathSeparator isPathSeparator_ascii with
  | some parts => parts
  | none => (Str.empty, fullPath)

/-- The 64 path bytes of a record: the prefix id and the front of the file name. -/
def docPathBytes (prefixId : UInt16) (filename : Bytes) : Bytes :=
  u16Bytes prefixId ++ (filename ++ List.replicate (docPathFilenameMax - filename.length) 0)

/-- `encode_doc_path` -/
def encodeDocPath (table : PrefixTable) (record : Bytes) (fullPath : Str) :
    PrefixTable × Bytes :=
  if fullPath = Str.empty then
    (table, patch (patch record docPathLengthOffset (u16Bytes 0)) docPathOffset
      (List.replicate docPathMax 0))
  else
    let parts := splitPathForSidecar fullPath
    let interned := internPathPrefix table parts.1
    let filename := parts.2.bytes.take docPathFilenameMax
    (interned.1,
      patch (patch record docPathLengthOffset (u16Bytes (UInt16.ofNat (2 + filename.length))))
        docPathOffset (docPathBytes interned.2 filename))

/-- Only the path length and the path bytes of the record change. -/
theorem encodeDocPath_slice {table : PrefixTable} {record : Bytes} {fullPath : Str}
    {start length : Nat}
    (beside : start + length ≤ docPathLengthOffset ∨
      docPathLengthOffset + 2 ≤ start ∧ start + length ≤ docPathOffset) :
    slice (encodeDocPath table record fullPath).2 start length = slice record start length := by
  have offsets : docPathLengthOffset = 18 ∧ docPathOffset = 192 := by decide
  unfold encodeDocPath
  split
  · rw [slice_patch_of_disjoint (Or.inl (by omega)), slice_patch_of_disjoint]
    rw [u16Bytes_length]
    omega
  · rw [slice_patch_of_disjoint (Or.inl (by omega)), slice_patch_of_disjoint]
    rw [u16Bytes_length]
    omega

@[simp] theorem encodeDocPath_length (table : PrefixTable) (record : Bytes) (fullPath : Str) :
    (encodeDocPath table record fullPath).2.length = record.length := by
  unfold encodeDocPath
  split <;> simp

theorem PrefixTable.Held.encodeDocPath {table : PrefixTable} (held : table.Held) (record : Bytes)
    (fullPath : Str) : (encodeDocPath table record fullPath).1.Held := by
  unfold Format.encodeDocPath
  split
  · exact held
  · exact held.intern _

theorem PrefixTable.Fits.encodeDocPath {table : PrefixTable} (fits : table.Fits) {record : Bytes}
    {fullPath : Str} (short : (splitPathForSidecar fullPath).1.len ≤ 65535) :
    (encodeDocPath table record fullPath).1.Fits := by
  unfold Format.encodeDocPath
  split
  · exact fits
  · exact fits.intern short

/-- The string with the separator that `DecodeDocPath` puts behind a prefix. -/
def pathSeparatorFor (pathPrefix : Str) : Str :=
  if pathPrefix.bytes.contains 0x5C then ⟨[0x5C], rfl⟩ else ⟨[0x2F], rfl⟩

/-- `DecodeDocPath` -/
def decodeDocPath (payload : Bytes) (prefixes : List Str) : Str :=
  if payload = [] then Str.empty
  else if payload.length < 2 then (Str.fromUtf8 payload).getD Str.empty
  else
    let prefixId := u16At payload 0
    let filename := (Str.fromUtf8 (payload.drop 2)).getD Str.empty
    if prefixId = docPathPrefixInvalid then filename
    else
      match prefixes[prefixId.toNat]? with
      | none => filename
      | some pathPrefix =>
          if pathPrefix = Str.empty then filename
          else if pathPrefix.bytes.getLast?.any isPathSeparator then pathPrefix.append filename
          else (pathPrefix.append (pathSeparatorFor pathPrefix)).append filename

end MoonShot.Format
