import MoonShot.Format.DocData

/-!
What becomes of a document path that is written into a record and read back.

Owns the table of prefixes as a numbering (a prefix keeps its id while the table
grows), the path a record gives back, and the paths for which the join puts the
split together again.

Does not own the records themselves or the context that is asked for a path.
-/

namespace MoonShot.Format

open MoonShot.Lib
open MoonShot.Postings

/-! ## The table of prefixes as a numbering -/

/-- Every id in the map is the place of its prefix. -/
def PrefixTable.Indexed (table : PrefixTable) : Prop :=
  ∀ pathPrefix id, table.prefixToId.get? pathPrefix = some id →
    id ≠ docPathPrefixInvalid ∧ table.prefixes[id.toNat]? = some pathPrefix

theorem PrefixTable.indexed_empty : PrefixTable.empty.Indexed := by
  intro pathPrefix id found
  cases found

/-- What interning can do: nothing, or put the prefix behind the others. -/
theorem internPathPrefix_cases (table : PrefixTable) (pathPrefix : Str) :
    (∃ id, table.prefixToId.get? pathPrefix = some id ∧
      internPathPrefix table pathPrefix = (table, id)) ∨
    internPathPrefix table pathPrefix = (table, docPathPrefixInvalid) ∨
    (table.prefixes.length < docPathPrefixInvalid.toNat ∧
      internPathPrefix table pathPrefix =
        ({ prefixToId :=
             table.prefixToId.insert pathPrefix (UInt16.ofNat table.prefixes.length)
           prefixes := table.prefixes ++ [pathPrefix]
           stringBytes := table.stringBytes + pathPrefix.len },
          UInt16.ofNat table.prefixes.length)) := by
  unfold internPathPrefix
  cases found : table.prefixToId.get? pathPrefix with
  | some id => exact .inl ⟨id, rfl, rfl⟩
  | none =>
      dsimp only
      by_cases full : table.prefixes.length ≥ docPathPrefixInvalid.toNat
      · rw [if_pos full]
        exact .inr (.inl rfl)
      · rw [if_neg full]
        split
        · exact .inr (.inl rfl)
        · exact .inr (.inr ⟨Nat.lt_of_not_le full, rfl⟩)

theorem internPathPrefix_grows (table : PrefixTable) (pathPrefix : Str) :
    table.prefixes <+: (internPathPrefix table pathPrefix).1.prefixes := by
  obtain ⟨id, _, same⟩ | same | ⟨_, added⟩ := internPathPrefix_cases table pathPrefix
  · rw [same]
  · rw [same]
  · rw [added]
    exact List.prefix_append _ _

/-- The id of a new prefix is its place, and not the invalid one. -/
private theorem newPrefixId {table : PrefixTable}
    (room : table.prefixes.length < docPathPrefixInvalid.toNat) :
    (UInt16.ofNat table.prefixes.length).toNat = table.prefixes.length ∧
      UInt16.ofNat table.prefixes.length ≠ docPathPrefixInvalid := by
  have most : docPathPrefixInvalid.toNat = 65535 := by decide
  have place : (UInt16.ofNat table.prefixes.length).toNat = table.prefixes.length := by
    rw [UInt16.toNat_ofNat']
    omega
  refine ⟨place, ?_⟩
  intro same
  rw [same] at place
  omega

/-- An id that was returned is the place of the prefix. -/
theorem PrefixTable.Indexed.interned {table : PrefixTable} (indexed : table.Indexed)
    {pathPrefix : Str} (valid : (internPathPrefix table pathPrefix).2 ≠ docPathPrefixInvalid) :
    (internPathPrefix table pathPrefix).1.prefixes[
      (internPathPrefix table pathPrefix).2.toNat]? = some pathPrefix := by
  obtain ⟨id, found, same⟩ | same | ⟨room, added⟩ := internPathPrefix_cases table pathPrefix
  · rw [same]
    exact (indexed pathPrefix id found).2
  · rw [same] at valid
    exact absurd rfl valid
  · rw [added, (newPrefixId room).1]
    exact List.getElem?_concat_length

theorem PrefixTable.Indexed.intern {table : PrefixTable} (indexed : table.Indexed)
    (pathPrefix : Str) : (internPathPrefix table pathPrefix).1.Indexed := by
  obtain ⟨id, _, same⟩ | same | ⟨room, added⟩ := internPathPrefix_cases table pathPrefix
  · rw [same]
    exact indexed
  · rw [same]
    exact indexed
  · have place := newPrefixId room
    rw [added]
    intro other id found
    change (table.prefixToId.insert pathPrefix _).get? other = some id at found
    rw [AssocMap.get?_insert] at found
    by_cases this : other = pathPrefix
    · rw [if_pos this] at found
      obtain rfl := Option.some.inj found
      refine ⟨place.2, ?_⟩
      rw [place.1, this]
      exact List.getElem?_concat_length
    · rw [if_neg this] at found
      obtain ⟨valid, held⟩ := indexed other id found
      refine ⟨valid, ?_⟩
      exact (List.getElem?_append_left (List.getElem?_eq_some_iff.mp held).1).trans held

theorem PrefixTable.Indexed.encodeDocPath {table : PrefixTable} (indexed : table.Indexed)
    (record : Bytes) (fullPath : Str) : (encodeDocPath table record fullPath).1.Indexed := by
  unfold Format.encodeDocPath
  split
  · exact indexed
  · exact indexed.intern _

theorem encodeDocPath_grows (table : PrefixTable) (record : Bytes) (fullPath : Str) :
    table.prefixes <+: (encodeDocPath table record fullPath).1.prefixes := by
  unfold encodeDocPath
  split
  · exact List.prefix_rfl
  · exact internPathPrefix_grows _ _

/-! ## The path of a record -/

/-- The path in a record, decoded as `GetDocPath` does. -/
def recordPath (prefixes : List Str) (entry : DocDataEntry) : Option Str :=
  let length := (u16At entry docPathLengthOffset).toNat
  if 0 < length ∧ length ≤ docPathMax then
    some (decodeDocPath (slice entry docPathOffset length) prefixes)
  else none

/-- The file name as the record stores it: its front, or nothing when the front
ends inside a scalar encoding. -/
def recordedName (name : Str) : Str :=
  (Str.fromUtf8 (name.bytes.take docPathFilenameMax)).getD Str.empty

/-- The join of `DecodeDocPath`. -/
def joinPath (directory name : Str) : Str :=
  if directory = Str.empty then name
  else if directory.bytes.getLast?.any isPathSeparator then directory.append name
  else (directory.append (pathSeparatorFor directory)).append name

/-- The path a record gives back when its directory was given the id. -/
def recordedPath (id : UInt16) (fullPath : Str) : Str :=
  let parts := splitPathForSidecar fullPath
  if id = docPathPrefixInvalid then recordedName parts.2
  else joinPath parts.1 (recordedName parts.2)

/-- The path a record gives back under a table of prefixes, when its directory was
given the id. -/
def pathUnder (prefixes : List Str) (id : UInt16) (fullPath : Str) : Str :=
  let name := recordedName (splitPathForSidecar fullPath).2
  if id = docPathPrefixInvalid then name
  else
    match prefixes[id.toNat]? with
    | none => name
    | some directory => joinPath directory name

/-- The id a path's directory is given. -/
def directoryId (table : PrefixTable) (fullPath : Str) : UInt16 :=
  (internPathPrefix table (splitPathForSidecar fullPath).1).2

section Record

variable {table : PrefixTable} {record : Bytes} {fullPath : Str}

/-- The path field of a record that was encoded. -/
private theorem encodeDocPath_field (table : PrefixTable) (size : record.length = docRecSize)
    (nonempty : fullPath ≠ Str.empty) :
    let filename := (splitPathForSidecar fullPath).2.bytes.take docPathFilenameMax
    (u16At (encodeDocPath table record fullPath).2 docPathLengthOffset).toNat =
        2 + filename.length ∧
      slice (encodeDocPath table record fullPath).2 docPathOffset (2 + filename.length) =
        u16Bytes (directoryId table fullPath) ++ filename := by
  have sizes : docRecSize = 256 ∧ docPathLengthOffset = 18 ∧ docPathOffset = 192 ∧
      docPathFilenameMax = 62 := by decide
  intro filename
  have short : filename.length ≤ docPathFilenameMax := List.length_take_le _ _
  unfold encodeDocPath
  rw [if_neg nonempty]
  dsimp only
  have room : (docPathBytes (directoryId table fullPath) filename).length = 64 := by
    rw [docPathBytes, List.length_append, List.length_append, u16Bytes_length,
      List.length_replicate]
    omega
  constructor
  · change (u16At (patch (patch record docPathLengthOffset
      (u16Bytes (UInt16.ofNat (2 + filename.length)))) docPathOffset _) _).toNat = _
    have field : slice (patch record docPathLengthOffset
        (u16Bytes (UInt16.ofNat (2 + filename.length)))) docPathLengthOffset 2 =
          u16Bytes (UInt16.ofNat (2 + filename.length)) :=
      slice_patch_same (by rw [u16Bytes_length]; omega)
    rw [u16At_eq ((slice_patch_of_disjoint (Or.inl (by omega))).trans field), UInt16.toNat_ofNat']
    omega
  · change slice (patch _ docPathOffset
      (docPathBytes (directoryId table fullPath) filename)) _ _ = _
    rw [slice_patch_within (by rw [patch_length]; omega) (Nat.le_refl _) (by omega), Nat.sub_self,
      docPathBytes, ← List.append_assoc, slice_append_left (by
        rw [List.length_append, u16Bytes_length]; omega)]
    apply slice_all
    rw [List.length_append, u16Bytes_length]

/-- Decoding what `encode_doc_path` wrote, under any table. -/
private theorem decodeDocPath_written (id : UInt16) (name : Str) (prefixes : List Str) :
    decodeDocPath (u16Bytes id ++ name.bytes.take docPathFilenameMax) prefixes =
      if id = docPathPrefixInvalid then recordedName name
      else
        match prefixes[id.toNat]? with
        | none => recordedName name
        | some directory => joinPath directory (recordedName name) := by
  have width := u16Bytes_length id
  have idField : u16At (u16Bytes id ++ name.bytes.take docPathFilenameMax) 0 = id := by
    apply u16At_eq
    rw [slice_append_left (by omega), slice_all width]
  have nameField : (u16Bytes id ++ name.bytes.take docPathFilenameMax).drop 2 =
      name.bytes.take docPathFilenameMax := by
    rw [← width, List.drop_left]
  have length : 2 ≤ (u16Bytes id ++ name.bytes.take docPathFilenameMax).length := by
    rw [List.length_append]
    omega
  unfold decodeDocPath
  rw [if_neg (by intro empty; rw [empty] at length; simp at length),
    if_neg (Nat.not_lt_of_le length)]
  dsimp only
  rw [idField, nameField]
  rfl

/-- A record without a path gives none back. -/
theorem recordPath_empty (size : record.length = docRecSize) (prefixes : List Str) :
    recordPath prefixes (encodeDocPath table record Str.empty).2 = none := by
  have sizes : docRecSize = 256 ∧ docPathLengthOffset = 18 ∧ docPathOffset = 192 := by decide
  have field : u16At (encodeDocPath table record Str.empty).2 docPathLengthOffset = 0 := by
    unfold encodeDocPath
    rw [if_pos rfl]
    apply u16At_eq
    rw [slice_patch_of_disjoint (Or.inl (by omega))]
    have written : slice (patch record docPathLengthOffset (u16Bytes 0)) docPathLengthOffset 2 =
        u16Bytes 0 := slice_patch_same (by rw [u16Bytes_length]; omega)
    exact written
  unfold recordPath
  rw [field]
  rfl

/-- What a record gives back under any table. -/
theorem recordPath_encode_under (table : PrefixTable) (size : record.length = docRecSize)
    (nonempty : fullPath ≠ Str.empty) (prefixes : List Str) :
    recordPath prefixes (encodeDocPath table record fullPath).2 =
      some (pathUnder prefixes (directoryId table fullPath) fullPath) := by
  obtain ⟨length, bytes⟩ := encodeDocPath_field table size nonempty
  have short : ((splitPathForSidecar fullPath).2.bytes.take docPathFilenameMax).length ≤ 62 :=
    List.length_take_le _ _
  have most : docPathMax = 64 := rfl
  unfold recordPath
  dsimp only
  rw [length, if_pos (by omega), bytes, decodeDocPath_written]
  rfl

/-- The table a path was written with, and the place of its directory in it. -/
theorem PrefixTable.Indexed.directory {table : PrefixTable} (indexed : table.Indexed)
    (record : Bytes) (nonempty : fullPath ≠ Str.empty)
    (interned : directoryId table fullPath ≠ docPathPrefixInvalid) {prefixes : List Str}
    (grown : (Format.encodeDocPath table record fullPath).1.prefixes <+: prefixes) :
    prefixes[(directoryId table fullPath).toNat]? = some (splitPathForSidecar fullPath).1 := by
  have placed := indexed.interned interned
  have after : (Format.encodeDocPath table record fullPath).1 =
      (internPathPrefix table (splitPathForSidecar fullPath).1).1 := by
    unfold Format.encodeDocPath
    rw [if_neg nonempty]
  rw [after] at grown
  have held := (List.prefix_iff_getElem?.mp grown) _ (List.getElem?_eq_some_iff.mp placed).1
  rw [(List.getElem?_eq_some_iff.mp placed).2] at held
  exact held

/-- A record gives its path back under every table that the table it was written
with has grown into. -/
theorem recordPath_encode (indexed : table.Indexed) (size : record.length = docRecSize)
    (nonempty : fullPath ≠ Str.empty) {prefixes : List Str}
    (grown : (encodeDocPath table record fullPath).1.prefixes <+: prefixes) :
    recordPath prefixes (encodeDocPath table record fullPath).2 =
      some (recordedPath (directoryId table fullPath) fullPath) := by
  rw [recordPath_encode_under table size nonempty, pathUnder, recordedPath]
  by_cases invalid : directoryId table fullPath = docPathPrefixInvalid
  · rw [if_pos invalid, if_pos invalid]
  · rw [if_neg invalid, if_neg invalid, indexed.directory record nonempty invalid grown]

end Record

/-! ## Paths that survive the split -/

/-- The separator the split drops. -/
def lastSeparator (fullPath : Str) : Option UInt8 :=
  (rfind isPathSeparator fullPath.bytes).bind fun index => fullPath.bytes[index]?

theorem splitPathForSidecar_none {fullPath : Str} (single : lastSeparator fullPath = none) :
    splitPathForSidecar fullPath = (Str.empty, fullPath) := by
  have absent : rfind isPathSeparator fullPath.bytes = none := by
    cases found : rfind isPathSeparator fullPath.bytes with
    | none => rfl
    | some index =>
        obtain ⟨byte, _, split⟩ := rfind_split found
        rw [lastSeparator, found, Option.bind_some] at single
        rw [List.getElem?_eq_none_iff] at single
        have length := congrArg List.length split
        rw [List.length_append, List.length_take, List.length_cons, List.length_drop] at length
        omega
  rw [splitPathForSidecar, Str.cutLast_eq_none isPathSeparator_ascii absent]

theorem splitPathForSidecar_some {fullPath : Str} {separator : UInt8}
    (last : lastSeparator fullPath = some separator) :
    isPathSeparator separator = true ∧
      fullPath.bytes = (splitPathForSidecar fullPath).1.bytes ++
        separator :: (splitPathForSidecar fullPath).2.bytes := by
  cases found : rfind isPathSeparator fullPath.bytes with
  | none =>
      rw [lastSeparator, found] at last
      cases last
  | some index =>
      obtain ⟨byte, passes, split⟩ := rfind_split found
      obtain ⟨parts, cut, left, right⟩ := Str.cutLast_eq_some isPathSeparator_ascii found
      rw [lastSeparator, found, Option.bind_some] at last
      have inside := (List.getElem?_eq_some_iff.mp last).1
      have here : fullPath.bytes[index]? = some byte := by
        rw [split, List.getElem?_append_right (List.length_take_le _ _), List.length_take,
          Nat.min_eq_left (Nat.le_of_lt inside), Nat.sub_self]
        rfl
      rw [here, Option.some.injEq] at last
      subst last
      refine ⟨passes, ?_⟩
      rw [splitPathForSidecar, cut]
      dsimp only
      rw [left, right]
      exact split

/-- The join of the parts puts back the separator that the split dropped: there is
none, or the directory is not empty, does not end with a separator itself, and is
the kind of path that the separator suggests. -/
def Rejoins (fullPath : Str) : Prop :=
  ∀ separator ∈ lastSeparator fullPath,
    let directory := (splitPathForSidecar fullPath).1
    directory ≠ Str.empty ∧ directory.bytes.getLast?.any isPathSeparator = false ∧
      (pathSeparatorFor directory).bytes = [separator]

instance (fullPath : Str) : Decidable (Rejoins fullPath) :=
  inferInstanceAs (Decidable (∀ separator ∈ lastSeparator fullPath, _))

/-- The directory of a path with the separator behind it. -/
def directoryPart (fullPath : Str) : Bytes :=
  (splitPathForSidecar fullPath).1.bytes ++ (lastSeparator fullPath).toList

/-- The path is its directory part and its file name. -/
theorem bytes_eq_parts (fullPath : Str) :
    fullPath.bytes = directoryPart fullPath ++ (splitPathForSidecar fullPath).2.bytes := by
  unfold directoryPart
  cases last : lastSeparator fullPath with
  | none =>
      rw [splitPathForSidecar_none last]
      rfl
  | some separator =>
      rw [List.append_assoc]
      exact (splitPathForSidecar_some last).2

/-- Joining a name to the directory gives the directory part with the name exactly
when the path rejoins. -/
theorem joinPath_eq_iff (fullPath name : Str) :
    (joinPath (splitPathForSidecar fullPath).1 name).bytes =
      directoryPart fullPath ++ name.bytes ↔ Rejoins fullPath := by
  unfold directoryPart Rejoins
  cases last : lastSeparator fullPath with
  | none =>
      rw [splitPathForSidecar_none last, joinPath, if_pos rfl]
      simp [Str.empty]
  | some separator =>
      generalize (splitPathForSidecar fullPath).1 = directory
      simp only [Option.mem_def, Option.some.injEq, forall_eq', Option.toList_some,
        List.append_assoc, List.singleton_append]
      unfold joinPath
      by_cases root : directory = Str.empty
      · rw [if_pos root, root]
        constructor
        · intro same
          have length := congrArg List.length same
          simp [Str.empty] at length
        · exact fun rejoins => absurd rfl rejoins.1
      · rw [if_neg root]
        by_cases ends : directory.bytes.getLast?.any isPathSeparator = true
        · rw [if_pos ends, ends]
          constructor
          · intro same
            have length := congrArg List.length same
            change (directory.bytes ++ name.bytes).length = _ at length
            rw [List.length_append, List.length_append, List.length_cons] at length
            omega
          · exact fun rejoins => Bool.noConfusion rejoins.2.1
        · rw [if_neg ends]
          change directory.bytes ++ (pathSeparatorFor directory).bytes ++ name.bytes =
            directory.bytes ++ separator :: name.bytes ↔ _
          rw [List.append_assoc, List.append_cancel_left_eq, ← List.singleton_append,
            List.append_cancel_right_eq]
          exact ⟨fun same => ⟨root, Bool.eq_false_iff.mpr ends, same⟩, fun rejoins => rejoins.2.2⟩

/-! ## Paths a record keeps -/

/-- What is promised of the path that comes back: all of it when the name fits and
the directory was interned, and otherwise the longest front of the name that fits,
behind the directory. -/
structure PathReturned (interned : Prop) (fullPath returned : Str) : Prop where
  whole : (splitPathForSidecar fullPath).2.len ≤ docPathFilenameMax → interned →
    returned = fullPath
  shortened : docPathFilenameMax < (splitPathForSidecar fullPath).2.len →
    returned.bytes = directoryPart fullPath ++
      ((splitPathForSidecar fullPath).2.longestPrefix docPathFilenameMax).bytes

/-- The paths for which it holds: the join gives back what the split took away,
and a long name has a scalar boundary where it is cut. -/
structure PathKept (interned : Prop) (fullPath : Str) : Prop where
  whole : (splitPathForSidecar fullPath).2.len ≤ docPathFilenameMax → interned → Rejoins fullPath
  shortened : docPathFilenameMax < (splitPathForSidecar fullPath).2.len →
    validUtf8 ((splitPathForSidecar fullPath).2.bytes.take docPathFilenameMax) = true ∧
      Rejoins fullPath ∧ (lastSeparator fullPath ≠ none → interned)

section Kept

variable {id : UInt16} {fullPath : Str}

theorem recordedName_short {name : Str} (short : name.len ≤ docPathFilenameMax) :
    recordedName name = name := by
  rw [recordedName, List.take_of_length_le short, Str.fromUtf8_bytes, Option.getD_some]

theorem recordedName_boundary {name : Str}
    (boundary : validUtf8 (name.bytes.take docPathFilenameMax) = true) :
    recordedName name = name.longestPrefix docPathFilenameMax := by
  apply Str.ext_bytes
  rw [recordedName, Str.fromUtf8, dif_pos boundary, Option.getD_some]
  exact (longestFront_of_valid boundary).symm

theorem recordedName_inside {name : Str}
    (boundary : validUtf8 (name.bytes.take docPathFilenameMax) ≠ true) :
    recordedName name = Str.empty := by
  rw [recordedName, Str.fromUtf8, dif_neg boundary, Option.getD_none]

/-- A name alone is never the directory part with a name as long. -/
theorem name_ne_joined {name : Str} (separated : lastSeparator fullPath ≠ none) :
    name.bytes ≠ directoryPart fullPath ++ name.bytes := by
  obtain ⟨separator, last⟩ := Option.ne_none_iff_exists'.mp separated
  intro same
  have length := congrArg List.length same
  rw [directoryPart, last, List.length_append, List.length_append, Option.toList_some,
    List.length_singleton] at length
  omega

/-- The join is at most a separator longer than its parts. -/
theorem joinPath_len_le (directory name : Str) :
    (joinPath directory name).len ≤ directory.len + 1 + name.len := by
  have width : (pathSeparatorFor directory).bytes.length = 1 := by
    unfold pathSeparatorFor
    split <;> rfl
  unfold joinPath
  split
  · omega
  · split
    · simp only [Str.append, Str.len, List.length_append]
      omega
    · simp only [Str.append, Str.len, List.length_append, width]
      omega

/-- The join of a directory and no name is never longer than the directory part. -/
theorem joinPath_empty_le (fullPath : Str) :
    (joinPath (splitPathForSidecar fullPath).1 Str.empty).bytes.length ≤
      (directoryPart fullPath).length := by
  unfold directoryPart
  cases last : lastSeparator fullPath with
  | none =>
      rw [splitPathForSidecar_none last]
      exact Nat.le_refl _
  | some separator =>
      rw [List.length_append, Option.toList_some, List.length_singleton]
      exact joinPath_len_le _ Str.empty

/-- A path with a short name. -/
private theorem recordedPath_short (interned : id ≠ docPathPrefixInvalid)
    (short : (splitPathForSidecar fullPath).2.len ≤ docPathFilenameMax) :
    recordedPath id fullPath = fullPath ↔ Rejoins fullPath := by
  rw [recordedPath, if_neg interned, recordedName_short short, ← joinPath_eq_iff, ← bytes_eq_parts]
  exact ⟨congrArg Str.bytes, Str.ext_bytes⟩

/-- A path with a name that is cut between two scalar encodings. -/
private theorem recordedPath_boundary
    (boundary : validUtf8 ((splitPathForSidecar fullPath).2.bytes.take docPathFilenameMax) = true) :
    (recordedPath id fullPath).bytes = directoryPart fullPath ++
        ((splitPathForSidecar fullPath).2.longestPrefix docPathFilenameMax).bytes ↔
      Rejoins fullPath ∧ (lastSeparator fullPath ≠ none → id ≠ docPathPrefixInvalid) := by
  rw [recordedPath]
  rw [recordedName_boundary boundary]
  by_cases invalid : id = docPathPrefixInvalid
  · rw [if_pos invalid]
    constructor
    · intro same
      have single : lastSeparator fullPath = none := by
        by_contra separated
        exact name_ne_joined separated same
      refine ⟨?_, fun separated => absurd single separated⟩
      rw [Rejoins, single]
      simp
    · intro kept
      have single : lastSeparator fullPath = none := by
        by_contra separated
        exact kept.2 separated invalid
      rw [directoryPart, single, splitPathForSidecar_none single]
      rfl
  · rw [if_neg invalid, joinPath_eq_iff]
    exact ⟨fun rejoins => ⟨rejoins, fun _ => invalid⟩, And.left⟩

/-- A path with a name that is cut inside a scalar encoding loses its name. -/
private theorem recordedPath_inside
    (long : docPathFilenameMax < (splitPathForSidecar fullPath).2.len)
    (boundary : validUtf8 ((splitPathForSidecar fullPath).2.bytes.take docPathFilenameMax) ≠ true) :
    (recordedPath id fullPath).bytes ≠ directoryPart fullPath ++
      ((splitPathForSidecar fullPath).2.longestPrefix docPathFilenameMax).bytes := by
  have nonempty : ((splitPathForSidecar fullPath).2.longestPrefix docPathFilenameMax).bytes ≠ [] :=
    longestFront_ne_nil (splitPathForSidecar fullPath).2.valid
      (by intro empty; rw [Str.len, empty] at long; simp at long) (by decide)
  have positive := List.length_pos_iff.mpr nonempty
  have shorter : (recordedPath id fullPath).bytes.length ≤ (directoryPart fullPath).length := by
    rw [recordedPath]
    rw [recordedName_inside boundary]
    split
    · exact Nat.zero_le _
    · exact joinPath_empty_le fullPath
  intro same
  have length := congrArg List.length same
  rw [List.length_append] at length
  omega

/-- A record keeps exactly these paths. -/
theorem recordedPath_returned_iff (id : UInt16) (fullPath : Str) :
    PathReturned (id ≠ docPathPrefixInvalid) fullPath (recordedPath id fullPath) ↔
      PathKept (id ≠ docPathPrefixInvalid) fullPath := by
  constructor
  · intro returned
    refine ⟨?_, ?_⟩
    · intro short interned
      exact (recordedPath_short interned short).mp (returned.whole short interned)
    · intro long
      by_cases boundary :
          validUtf8 ((splitPathForSidecar fullPath).2.bytes.take docPathFilenameMax) = true
      · exact ⟨boundary, (recordedPath_boundary boundary).mp (returned.shortened long)⟩
      · exact absurd (returned.shortened long) (recordedPath_inside long boundary)
  · intro kept
    refine ⟨?_, ?_⟩
    · intro short interned
      exact (recordedPath_short interned short).mpr (kept.whole short interned)
    · intro long
      have holds := kept.shortened long
      exact (recordedPath_boundary holds.1).mpr holds.2

end Kept

/-! ## Paths that are written again -/

section Again

variable {fullPath : Str}

theorem splitPathForSidecar_name_le (fullPath : Str) :
    (splitPathForSidecar fullPath).2.len ≤ fullPath.len := by
  have parts := congrArg List.length (bytes_eq_parts fullPath)
  rw [List.length_append] at parts
  unfold Str.len
  omega

/-- The file name starts behind every separator. -/
theorem splitPathForSidecar_name_behind {before behind : Bytes} {separator : UInt8}
    (separates : isPathSeparator separator = true)
    (split : fullPath.bytes = before ++ separator :: behind) :
    (splitPathForSidecar fullPath).2.len ≤ behind.length := by
  have here : separator ∈ fullPath.bytes := by
    rw [split]
    exact List.mem_append_right _ List.mem_cons_self
  cases found : rfind isPathSeparator fullPath.bytes with
  | none =>
      have absent := rfind_none found separator here
      rw [separates] at absent
      cases absent
  | some index =>
      obtain ⟨parts, cut, _, right⟩ := Str.cutLast_eq_some isPathSeparator_ascii found
      rw [splitPathForSidecar, cut]
      dsimp only
      by_contra longer
      rw [Str.len, right, List.length_drop, split, List.length_append, List.length_cons] at longer
      have member : separator ∈ fullPath.bytes.drop (index + 1) := by
        rw [split, List.drop_append_of_le_length (by omega)]
        exact List.mem_append_right _ List.mem_cons_self
      have absent := rfind_last found separator member
      rw [separates] at absent
      cases absent

/-- The file name of a path that was decoded fits again. -/
theorem decodeDocPath_name_short {payload : Bytes} (small : payload.length ≤ docPathMax)
    (prefixes : List Str) :
    (splitPathForSidecar (decodeDocPath payload prefixes)).2.len ≤ docPathFilenameMax := by
  have sizes : docPathMax = 64 ∧ docPathFilenameMax = 62 := by decide
  have text : ∀ data : Bytes, ((Str.fromUtf8 data).getD Str.empty).len ≤ data.length := by
    intro data
    cases found : Str.fromUtf8 data with
    | none => exact Nat.zero_le _
    | some text =>
        rw [Option.getD_some, Str.len, Str.bytes_of_fromUtf8 found]
  unfold decodeDocPath
  by_cases empty : payload = []
  · rw [if_pos empty]
    decide
  · rw [if_neg empty]
    by_cases tiny : payload.length < 2
    · rw [if_pos tiny]
      have bound := text payload
      have front := splitPathForSidecar_name_le ((Str.fromUtf8 payload).getD Str.empty)
      omega
    · rw [if_neg tiny]
      have bound := text (payload.drop 2)
      rw [List.length_drop] at bound
      have alone := splitPathForSidecar_name_le ((Str.fromUtf8 (payload.drop 2)).getD Str.empty)
      generalize (Str.fromUtf8 (payload.drop 2)).getD Str.empty = name at bound alone
      have joined : ∀ directory, (splitPathForSidecar (joinPath directory name)).2.len ≤ 62 := by
        intro directory
        unfold joinPath
        by_cases root : directory = Str.empty
        · rw [if_pos root]
          omega
        · rw [if_neg root]
          by_cases ends : directory.bytes.getLast?.any isPathSeparator = true
          · rw [if_pos ends]
            obtain ⟨separator, last, separates⟩ := (Option.any_eq_true _ _).mp ends
            obtain ⟨before, whole⟩ := List.getLast?_eq_some_iff.mp last
            have split : (directory.append name).bytes = before ++ separator :: name.bytes := by
              show directory.bytes ++ name.bytes = _
              rw [whole, List.append_assoc, List.singleton_append]
            have behind := splitPathForSidecar_name_behind separates split
            unfold Str.len at bound
            omega
          · rw [if_neg ends]
            obtain ⟨separator, width, separates⟩ : ∃ separator,
                (pathSeparatorFor directory).bytes = [separator] ∧
                  isPathSeparator separator = true := by
              unfold pathSeparatorFor
              split
              · exact ⟨_, rfl, rfl⟩
              · exact ⟨_, rfl, rfl⟩
            have split : ((directory.append (pathSeparatorFor directory)).append name).bytes =
                directory.bytes ++ separator :: name.bytes := by
              show directory.bytes ++ (pathSeparatorFor directory).bytes ++ name.bytes = _
              rw [width, List.append_assoc, List.singleton_append]
            have behind := splitPathForSidecar_name_behind separates split
            unfold Str.len at bound
            omega
      dsimp only
      split
      · omega
      · split
        · omega
        · exact joined _

/-- A prefix as the sidecar gives it back. -/
theorem bytes_of_sidecarPrefix {pathPrefix cut : Str} (ok : sidecarPrefix pathPrefix = .ok cut) :
    cut.bytes = pathPrefix.bytes.take (pathPrefix.len % 65536) := by
  unfold sidecarPrefix at ok
  split at ok
  · cases ok
  · rename_i found
    obtain rfl := Except.ok.inj ok
    exact Str.bytes_of_fromUtf8 found

/-- A path whose name fits comes back from a table that went through its sidecar
exactly when it rejoins and its directory, if it has one, was interned and is no
longer than its length field can say. -/
theorem pathUnder_eq_iff {prefixes : List Str} {id : UInt16}
    (short : (splitPathForSidecar fullPath).2.len ≤ docPathFilenameMax)
    (held : id ≠ docPathPrefixInvalid → ∃ cut, prefixes[id.toNat]? = some cut ∧
      sidecarPrefix (splitPathForSidecar fullPath).1 = .ok cut) :
    pathUnder prefixes id fullPath = fullPath ↔
      Rejoins fullPath ∧ (lastSeparator fullPath ≠ none →
        id ≠ docPathPrefixInvalid ∧ (splitPathForSidecar fullPath).1.len ≤ 65535) := by
  have boundary : validUtf8 ((splitPathForSidecar fullPath).2.bytes.take docPathFilenameMax) =
      true := by
    rw [List.take_of_length_le short]
    exact (splitPathForSidecar fullPath).2.valid
  have recorded : recordedPath id fullPath = fullPath ↔
      Rejoins fullPath ∧ (lastSeparator fullPath ≠ none → id ≠ docPathPrefixInvalid) := by
    rw [← recordedPath_boundary boundary, ← recordedName_boundary boundary,
      recordedName_short short, ← bytes_eq_parts]
    exact ⟨congrArg Str.bytes, Str.ext_bytes⟩
  by_cases invalid : id = docPathPrefixInvalid
  · have same : pathUnder prefixes id fullPath = recordedPath id fullPath := by
      rw [pathUnder, recordedPath]
      rw [if_pos invalid, if_pos invalid]
    rw [same, recorded]
    exact ⟨fun kept => ⟨kept.1, fun separated => absurd invalid (kept.2 separated)⟩,
      fun kept => ⟨kept.1, fun separated => (kept.2 separated).1⟩⟩
  · obtain ⟨cut, place, cutEq⟩ := held invalid
    have under : pathUnder prefixes id fullPath =
        joinPath cut (splitPathForSidecar fullPath).2 := by
      rw [pathUnder]
      rw [if_neg invalid, place, recordedName_short short]
    by_cases fits : (splitPathForSidecar fullPath).1.len ≤ 65535
    · rw [sidecarPrefix_short fits, Except.ok.injEq] at cutEq
      have same : pathUnder prefixes id fullPath = recordedPath id fullPath := by
        rw [under, recordedPath, if_neg invalid, recordedName_short short, cutEq]
      rw [same, recorded]
      exact ⟨fun kept => ⟨kept.1, fun _ => ⟨invalid, fits⟩⟩, fun kept => ⟨kept.1, fun _ => invalid⟩⟩
    · -- The directory comes back cut, so the path is too short.
      have shorter := congrArg List.length (bytes_of_sidecarPrefix cutEq)
      rw [List.length_take] at shorter
      have remainder := Nat.mod_lt (splitPathForSidecar fullPath).1.len (by decide : 0 < 65536)
      have separated : lastSeparator fullPath ≠ none := by
        intro single
        rw [splitPathForSidecar_none single] at fits
        exact fits (Nat.zero_le _)
      obtain ⟨separator, last⟩ := Option.ne_none_iff_exists'.mp separated
      have parts := congrArg List.length (splitPathForSidecar_some last).2
      rw [List.length_append, List.length_cons] at parts
      rw [under]
      constructor
      · intro same
        have length := joinPath_len_le cut (splitPathForSidecar fullPath).2
        rw [same] at length
        unfold Str.len at length fits remainder shorter
        omega
      · exact fun kept => absurd (kept.2 separated).2 fits

end Again

/-! ## The paths of a section -/

section Section

variable {float : FloatOps} {store : PostingStore}

/-- The loop of `EncodeDocData` before its first turn. -/
def emptyWriter (store : PostingStore) : DocDataWriter :=
  ⟨List.replicate (storeDocDataRecordCount store).toNat gapRecord, .empty⟩

/-- The loop of `EncodeDocData` before it comes to a document. -/
def writerBefore (float : FloatOps) (store : PostingStore) (docId : UInt64) : DocDataWriter :=
  (store.docStats.entries.takeWhile fun document => document.1 != docId).foldl
    (DocDataWriter.add float store (storeFirstDocId store)) (emptyWriter store)

/-- `intern_path_prefix` gives the directory of the document an id when the loop
comes to it. A document without a path has no directory to intern. -/
def DirectoryInterned (float : FloatOps) (store : PostingStore) (docId : UInt64)
    (fullPath : Str) : Prop :=
  fullPath ≠ Str.empty →
    directoryId (writerBefore float store docId).table fullPath ≠ docPathPrefixInvalid

/-- What a turn and all later turns keep. -/
private theorem foldl_add_indexed (float : FloatOps) (store : PostingStore)
    (todo : List (UInt64 × DocStats)) (writer : DocDataWriter)
    (indexed : writer.table.Indexed) :
    let final := todo.foldl (DocDataWriter.add float store (storeFirstDocId store)) writer
    final.table.Indexed ∧ writer.table.prefixes <+: final.table.prefixes := by
  induction todo generalizing writer with
  | nil => exact ⟨indexed, List.prefix_rfl⟩
  | cons document rest inductionHypothesis =>
      have later := inductionHypothesis (writer.add float store (storeFirstDocId store) document)
        (indexed.encodeDocPath _ _)
      exact ⟨later.1, (encodeDocPath_grows _ _ _).trans later.2⟩

/-- A record stays while the loop writes to other slots. -/
private theorem foldl_add_other (todo : List (UInt64 × DocStats)) (writer : DocDataWriter)
    {slot : Nat} (others : ∀ document ∈ todo, slotOf store document.1 ≠ slot) :
    (todo.foldl (DocDataWriter.add float store (storeFirstDocId store)) writer).records[slot]? =
      writer.records[slot]? := by
  induction todo generalizing writer with
  | nil => rfl
  | cons document rest inductionHypothesis =>
      rw [List.foldl_cons, inductionHypothesis _ fun other member =>
        others other (List.mem_cons_of_mem _ member)]
      exact List.getElem?_set_ne (others document List.mem_cons_self)

/-- The entries around one of them. -/
private theorem entries_split {document : UInt64 × DocStats}
    (member : document ∈ store.docStats.entries) :
    ∃ later, store.docStats.entries =
        (store.docStats.entries.takeWhile fun other => other.1 != document.1) ++ document :: later ∧
      ∀ other ∈ later, other.1 ≠ document.1 := by
  have nodup := store.docStats.nodup
  generalize store.docStats.entries = entries at member nodup
  induction entries with
  | nil => cases member
  | cons first rest inductionHypothesis =>
      rw [List.map_cons, List.nodup_cons] at nodup
      by_cases same : first.1 = document.1
      · have this : first = document := by
          rcases List.mem_cons.mp member with here | later
          · exact here.symm
          · exact absurd (List.mem_map_of_mem later) (same ▸ nodup.1)
        refine ⟨rest, ?_, ?_⟩
        · rw [List.takeWhile_cons_of_neg (by simpa using same), this]
          rfl
        · intro other later equal
          rw [← same] at equal
          exact nodup.1 (equal ▸ List.mem_map_of_mem later)
      · have later : document ∈ rest := by
          rcases List.mem_cons.mp member with here | later
          · exact absurd (congrArg Prod.fst here).symm same
          · exact later
        obtain ⟨behind, split, others⟩ := inductionHypothesis later nodup.2
        refine ⟨behind, ?_, others⟩
        rw [List.takeWhile_cons_of_pos (by simpa using same), List.cons_append, ← split]

/-- The record of a document gives back what the turn of the document stored. -/
theorem recordPath_of_document (float : FloatOps) (fit : DocIdsFit store) {docId : UInt64}
    {stats : DocStats} (stored : store.docStats.get? docId = some stats) :
    ∃ entry, (encodeRecords float store).records[slotOf store docId]? = some entry ∧
      recordPath (encodeRecords float store).table.prefixes entry =
        if stats.path = Str.empty then none
        else some (recordedPath
          (directoryId (writerBefore float store docId).table stats.path) stats.path) := by
  have listed := (store.docStats.mem_entries_iff docId stats).mpr stored
  have member : docId ∈ store.docStats.keys := List.mem_map_of_mem listed
  have nonempty : store.docStats.keys ≠ [] := List.ne_nil_of_mem member
  have place := slotOf_eq nonempty fit member
  obtain ⟨later, split, others⟩ := entries_split listed
  have before : (writerBefore float store docId).table.Indexed :=
    (foldl_add_indexed float store _ _ PrefixTable.indexed_empty).1
  have length : (writerBefore float store docId).records.length =
      (storeDocDataRecordCount store).toNat := by
    have sizes := foldl_add_sizes float store
      (store.docStats.entries.takeWhile fun document => document.1 != docId) (emptyWriter store) (by
        intro record isGap
        rw [List.eq_of_mem_replicate isGap, gapRecord_length])
    exact sizes.1.trans List.length_replicate
  have final : encodeRecords float store =
      later.foldl (DocDataWriter.add float store (storeFirstDocId store))
        ((writerBefore float store docId).add float store (storeFirstDocId store)
          (docId, stats)) := by
    show store.docStats.entries.foldl _ (emptyWriter store) = _
    rw [split, List.foldl_append, List.foldl_cons]
    rfl
  have slots : ∀ other ∈ later, slotOf store other.1 ≠ slotOf store docId := by
    intro other isLater same
    have otherListed : other ∈ store.docStats.entries := by
      rw [split]
      exact List.mem_append_right _ (List.mem_cons_of_mem _ isLater)
    have otherPlace := slotOf_eq nonempty fit (List.mem_map_of_mem otherListed)
    apply others other isLater
    apply UInt64.toNat_inj.mp
    show other.1.toNat = docId.toNat
    omega
  have grown := (foldl_add_indexed float store later
    ((writerBefore float store docId).add float store (storeFirstDocId store) (docId, stats))
    (before.encodeDocPath _ _)).2
  have record : (encodeRecords float store).records[slotOf store docId]? =
      some (encodeDocPath (writerBefore float store docId).table
        (docRecord float docId stats (store.docVectors.get? docId)) stats.path).2 := by
    rw [final, foldl_add_other later _ slots]
    exact List.getElem?_set_self (by rw [length]; exact place.2)
  refine ⟨_, record, ?_⟩
  by_cases empty : stats.path = Str.empty
  · rw [if_pos empty, empty]
    exact recordPath_empty (docRecord_length ..) _
  · rw [if_neg empty, final]
    exact recordPath_encode before (docRecord_length ..) empty grown

end Section

end MoonShot.Format
