import MoonShot.Format.PathPrefixes
import MoonShot.Lib.Checked

/-!
The writes of `EncodePathPrefixSidecar`.

Owns the writes into the fixed buffer with their bounds, the proof that they make the
section of the codec for every table that interning fills, and the condition under
which the section reads back.
-/

namespace MoonShot.Format

open MoonShot.Lib
open MoonShot.Postings

/-! ## Writes -/

/-- The writes of one turn of the loop: the entry's offset and length, and the string. -/
def writeSidecarEntry (stringOffset index : Nat) (cursor : UInt32) (pathPrefix : Str)
    (sidecar : Bytes) : Checked Bytes := do
  let entryOffset := sidecarHeaderSize + index * 8
  let sidecar ← writeSlice sidecar entryOffset (u32Bytes cursor)
  let sidecar ← writeSlice sidecar (entryOffset + 4) (u16Bytes (UInt16.ofNat pathPrefix.len))
  writeSlice sidecar (stringOffset + cursor.toNat) pathPrefix.bytes

/-- The loop over the prefixes. -/
def writeSidecarEntries (stringOffset : Nat) :
    (index : Nat) → (cursor : UInt32) → List Str → Bytes → Checked (UInt32 × Bytes)
  | _, cursor, [], sidecar => .ok (cursor, sidecar)
  | index, cursor, pathPrefix :: rest, sidecar => do
      let sidecar ← writeSidecarEntry stringOffset index cursor pathPrefix sidecar
      let cursor ← addU32 cursor (UInt32.ofNat pathPrefix.len)
      writeSidecarEntries stringOffset (index + 1) cursor rest sidecar

/-- The fields of the header that are written before the loop. -/
def writeSidecarFields (count stringOffset : Nat) (sidecar : Bytes) : Checked Bytes := do
  let sidecar ← writeSlice sidecar 0 pathPrefixSidecarMagic
  let sidecar ← writeSlice sidecar 8 (u16Bytes pathPrefixSidecarVersion)
  let sidecar ← writeSlice sidecar 10 (u16Bytes (UInt16.ofNat count))
  let sidecar ← writeSlice sidecar 12 (u32Bytes (UInt32.ofNat sidecarHeaderSize))
  writeSlice sidecar 16 (u32Bytes (UInt32.ofNat stringOffset))

/-- `EncodePathPrefixSidecar`, write by write. -/
def writePathPrefixSidecar (prefixes : List Str) : Checked Bytes := do
  let count := min prefixes.length 65535
  let stringOffset := sidecarHeaderSize + count * 8
  let sidecar ← writeSidecarFields count stringOffset (List.replicate pathPrefixSidecarBytes 0)
  let (cursor, sidecar) ← writeSidecarEntries stringOffset 0 0 (prefixes.take count) sidecar
  writeSlice sidecar 20 (u32Bytes cursor)

/-- The section while the loop runs: the entries and strings of the prefixes that are
done, and room for the entries of the others. -/
def sidecarSoFar (header : Bytes) (done : List Str) (ahead room : Nat) : Bytes :=
  header ++ ((sidecarEntries 0 done).flatten ++ (List.replicate (ahead * 8) 0 ++
    ((done.map Str.bytes).flatten ++ List.replicate room 0)))

theorem sidecarEntries_append (cursor : Nat) (done rest : List Str) :
    sidecarEntries cursor (done ++ rest) =
      sidecarEntries cursor done ++ sidecarEntries (cursor + stringBytesOf done) rest := by
  induction done generalizing cursor with
  | nil => rfl
  | cons first others inductionHypothesis =>
      rw [List.cons_append, sidecarEntries, inductionHypothesis, Nat.add_assoc]
      rfl

theorem stringBytesOf_append (done rest : List Str) :
    stringBytesOf (done ++ rest) = stringBytesOf done + stringBytesOf rest := by
  simp [stringBytesOf]

theorem stringBytesOf_cons (first : Str) (rest : List Str) :
    stringBytesOf (first :: rest) = first.len + stringBytesOf rest := by
  simp [stringBytesOf]

/-- One turn of the loop fills the next entry and the front of the room. -/
theorem writeSidecarEntry_eq {header : Bytes} (headerLength : header.length = sidecarHeaderSize)
    {done : List Str} {pathPrefix : Str} {room : Nat} (fits : pathPrefix.len ≤ room)
    (small : stringBytesOf done < 2 ^ 32) (ahead : Nat) :
    writeSidecarEntry (sidecarHeaderSize + (done.length + (ahead + 1)) * 8) done.length
        (UInt32.ofNat (stringBytesOf done)) pathPrefix
        (sidecarSoFar header done (ahead + 1) room) =
      .ok (sidecarSoFar header (done ++ [pathPrefix]) ahead (room - pathPrefix.len)) := by
  have cursorNat : (UInt32.ofNat (stringBytesOf done)).toNat = stringBytesOf done := by
    rw [UInt32.toNat_ofNat']
    omega
  have zeros : List.replicate ((ahead + 1) * 8) (0 : UInt8) =
      List.replicate 4 0 ++ (List.replicate 2 0 ++ (List.replicate 2 0 ++
        List.replicate (ahead * 8) 0)) := by
    simp only [List.replicate_append_replicate]
    congr 1
    omega
  have free : List.replicate room (0 : UInt8) =
      List.replicate pathPrefix.len 0 ++ List.replicate (room - pathPrefix.len) 0 := by
    rw [List.replicate_append_replicate]
    congr 1
    omega
  have before : (header ++ (sidecarEntries 0 done).flatten).length =
      sidecarHeaderSize + done.length * 8 := by
    rw [List.length_append, headerLength, sidecarEntries_bytes]
  have offsetPlace : sidecarSoFar header done (ahead + 1) room =
      (header ++ (sidecarEntries 0 done).flatten) ++ (List.replicate 4 0 ++
        (List.replicate 2 0 ++ (List.replicate 2 0 ++ (List.replicate (ahead * 8) 0 ++
          ((done.map Str.bytes).flatten ++ List.replicate room 0))))) := by
    rw [sidecarSoFar, zeros]
    simp only [List.append_assoc]
  have lengthPlace : (header ++ (sidecarEntries 0 done).flatten ++
      u32Bytes (UInt32.ofNat (stringBytesOf done))).length =
      sidecarHeaderSize + done.length * 8 + 4 := by
    rw [List.length_append, before, u32Bytes_length]
  unfold writeSidecarEntry
  dsimp only
  rw [writeSlice_over offsetPlace before (by simp), ok_bind,
    writeSlice_over (List.append_assoc _ _ _).symm lengthPlace (by simp), ok_bind]
  have stringPlace : (header ++ (sidecarEntries 0 done).flatten ++
        u32Bytes (UInt32.ofNat (stringBytesOf done))) ++
      (u16Bytes (UInt16.ofNat pathPrefix.len) ++ (List.replicate 2 0 ++
        (List.replicate (ahead * 8) 0 ++ ((done.map Str.bytes).flatten ++
          List.replicate room 0)))) =
      (header ++ ((sidecarEntries 0 done).flatten ++
        (sidecarEntry (stringBytesOf done) pathPrefix ++
          (List.replicate (ahead * 8) 0 ++ (done.map Str.bytes).flatten)))) ++
        (List.replicate pathPrefix.len 0 ++ List.replicate (room - pathPrefix.len) 0) := by
    rw [free, sidecarEntry]
    simp only [List.append_assoc]
    rfl
  rw [writeSlice_over stringPlace]
  · rw [sidecarSoFar, sidecarEntries_append, List.flatten_append, Nat.zero_add, List.map_append,
      List.flatten_append]
    simp [sidecarEntries]
  · simp only [List.length_append, headerLength, sidecarEntries_bytes, sidecarEntry_length,
      List.length_replicate, sidecarStrings_length, cursorNat]
    omega
  · exact List.length_replicate

/-- The loop writes the remaining entries and strings. -/
theorem writeSidecarEntries_eq {header : Bytes} (headerLength : header.length = sidecarHeaderSize)
    {done rest : List Str} {room : Nat} (fits : stringBytesOf rest ≤ room)
    (small : stringBytesOf (done ++ rest) < 2 ^ 32) :
    writeSidecarEntries (sidecarHeaderSize + (done.length + rest.length) * 8) done.length
        (UInt32.ofNat (stringBytesOf done)) rest (sidecarSoFar header done rest.length room) =
      .ok (UInt32.ofNat (stringBytesOf (done ++ rest)),
        sidecarSoFar header (done ++ rest) 0 (room - stringBytesOf rest)) := by
  induction rest generalizing done room with
  | nil =>
      rw [writeSidecarEntries, List.append_nil]
      rfl
  | cons pathPrefix rest inductionHypothesis =>
      rw [stringBytesOf_cons] at fits
      rw [stringBytesOf_append, stringBytesOf_cons] at small
      have cursor : addU32 (UInt32.ofNat (stringBytesOf done)) (UInt32.ofNat pathPrefix.len) =
          .ok (UInt32.ofNat (stringBytesOf (done ++ [pathPrefix]))) := by
        rw [addU32_eq]
        · rw [stringBytesOf_append, stringBytesOf_cons, UInt32.ofNat_add]
          rfl
        · rw [UInt32.toNat_ofNat', UInt32.toNat_ofNat']
          omega
      have split : done ++ pathPrefix :: rest = (done ++ [pathPrefix]) ++ rest := by
        rw [List.append_assoc, List.singleton_append]
      have smaller : stringBytesOf ((done ++ [pathPrefix]) ++ rest) < 2 ^ 32 := by
        rw [← split, stringBytesOf_append, stringBytesOf_cons]
        exact small
      have roomLeft : stringBytesOf rest ≤ room - pathPrefix.len := by omega
      have later := inductionHypothesis roomLeft smaller
      have count : (done ++ [pathPrefix]).length + rest.length =
          done.length + (rest.length + 1) := by
        rw [List.length_append, List.length_singleton]
        omega
      rw [count, List.length_append, List.length_singleton] at later
      rw [List.length_cons, writeSidecarEntries,
        writeSidecarEntry_eq headerLength (le_trans (Nat.le_add_right _ _) fits)
          (lt_of_le_of_lt (Nat.le_add_right _ _) small) rest.length,
        ok_bind, cursor, ok_bind, later, split, stringBytesOf_cons, Nat.sub_sub]

/-- A write right behind what was written, into zeros. -/
theorem writeSlice_next {written source : Bytes} {offset room left : Nat}
    (starts : written.length = offset) (rooms : room = source.length + left) :
    writeSlice (written ++ List.replicate room 0) offset source =
      .ok ((written ++ source) ++ List.replicate left 0) := by
  have split : written ++ List.replicate room (0 : UInt8) = written ++
      (List.replicate source.length 0 ++ List.replicate left 0) := by
    rw [List.replicate_append_replicate, rooms]
  rw [writeSlice_over split starts List.length_replicate, List.append_assoc]

/-- The bytes of the fields that are written before the loop. -/
def sidecarFields (count stringOffset : Nat) : Bytes :=
  pathPrefixSidecarMagic ++ u16Bytes pathPrefixSidecarVersion ++ u16Bytes (UInt16.ofNat count) ++
    u32Bytes (UInt32.ofNat sidecarHeaderSize) ++ u32Bytes (UInt32.ofNat stringOffset)

theorem sidecarFields_length (count stringOffset : Nat) :
    (sidecarFields count stringOffset).length = 20 := by
  simp [sidecarFields, pathPrefixSidecarMagic]

theorem writeSidecarFields_eq (count stringOffset room : Nat) :
    writeSidecarFields count stringOffset (List.replicate (20 + room) 0) =
      .ok (sidecarFields count stringOffset ++ List.replicate room 0) := by
  have magicLength : pathPrefixSidecarMagic.length = 8 := rfl
  have magic : writeSlice (List.replicate (20 + room) 0) 0 pathPrefixSidecarMagic =
      .ok (pathPrefixSidecarMagic ++ List.replicate (12 + room) 0) :=
    writeSlice_next (List.length_nil) (by omega)
  have version : writeSlice (pathPrefixSidecarMagic ++ List.replicate (12 + room) 0) 8
      (u16Bytes pathPrefixSidecarVersion) = .ok (_ ++ List.replicate (10 + room) 0) :=
    writeSlice_next magicLength (by rw [u16Bytes_length]; omega)
  unfold writeSidecarFields
  rw [magic, ok_bind, version, ok_bind,
    writeSlice_next (by simp [magicLength]) (by rw [u16Bytes_length]; omega : _ = _ + (8 + room)),
    ok_bind,
    writeSlice_next (by simp [magicLength]) (by rw [u32Bytes_length]; omega : _ = _ + (4 + room)),
    ok_bind, writeSlice_next (by simp [magicLength]) (by rw [u32Bytes_length])]
  rfl

/-- For a table of the size interning keeps, every write is inside the buffer and the
buffer is then the section. -/
theorem writePathPrefixSidecar_eq {prefixes : List Str}
    (total : sidecarHeaderSize + prefixes.length * 8 + stringBytesOf prefixes ≤
      pathPrefixSidecarBytes) :
    writePathPrefixSidecar prefixes = .ok (encodePathPrefixSidecar prefixes) := by
  have sizes : sidecarHeaderSize = 32 ∧ pathPrefixSidecarBytes = 81920 := by decide
  have count : min prefixes.length 65535 = prefixes.length := by omega
  let fields := sidecarFields prefixes.length (sidecarHeaderSize + prefixes.length * 8)
  let room := pathPrefixSidecarBytes - (sidecarHeaderSize + prefixes.length * 8)
  have fieldsLength : fields.length = 20 := sidecarFields_length _ _
  have headerLength : (fields ++ List.replicate 12 0).length = sidecarHeaderSize := by
    rw [List.length_append, fieldsLength, List.length_replicate, sizes.1]
  have written : writeSidecarFields prefixes.length (sidecarHeaderSize + prefixes.length * 8)
      (List.replicate pathPrefixSidecarBytes 0) =
      .ok (sidecarSoFar (fields ++ List.replicate 12 0) [] prefixes.length room) := by
    have zeros : pathPrefixSidecarBytes = 20 + (12 + (prefixes.length * 8 + room)) := by
      simp only [room]
      omega
    rw [zeros, writeSidecarFields_eq]
    simp only [sidecarSoFar, sidecarEntries, fields, List.flatten_nil, List.map_nil,
      List.nil_append, List.append_assoc, List.replicate_append_replicate]
  have loop : writeSidecarEntries (sidecarHeaderSize + prefixes.length * 8) 0 0 prefixes
      (sidecarSoFar (fields ++ List.replicate 12 0) [] prefixes.length room) =
      .ok (UInt32.ofNat (stringBytesOf prefixes), sidecarSoFar (fields ++ List.replicate 12 0)
        prefixes 0 (room - stringBytesOf prefixes)) := by
    have fits : stringBytesOf prefixes ≤ room := by
      simp only [room]
      omega
    have small : stringBytesOf ([] ++ prefixes) < 2 ^ 32 := by
      rw [List.nil_append]
      omega
    have entries := writeSidecarEntries_eq headerLength fits small
    rw [List.nil_append, List.length_nil, Nat.zero_add] at entries
    exact entries
  have cursorPlace : sidecarSoFar (fields ++ List.replicate 12 0) prefixes 0
      (room - stringBytesOf prefixes) = fields ++ (List.replicate 4 0 ++ (List.replicate 8 0 ++
        ((sidecarEntries 0 prefixes).flatten ++ ((prefixes.map Str.bytes).flatten ++
          List.replicate (room - stringBytesOf prefixes) 0)))) := by
    have twelve : List.replicate 12 (0 : UInt8) = List.replicate 4 0 ++ List.replicate 8 0 := rfl
    rw [sidecarSoFar, twelve]
    simp only [Nat.zero_mul, List.replicate_zero, List.nil_append, List.append_assoc]
  unfold writePathPrefixSidecar
  dsimp only
  rw [count, written, ok_bind, List.take_length, loop, ok_bind,
    writeSlice_over cursorPlace fieldsLength (by rw [u32Bytes_length, List.length_replicate]),
    encodePathPrefixSidecar_eq total, Nat.sub_sub]
  simp [sidecarHeader, fields, sidecarFields]

/-! ## Tables filled by interning -/

/-- The table that these calls of `intern_path_prefix` make of an empty one. -/
def internAll (calls : List Str) : PrefixTable :=
  calls.foldl (fun table pathPrefix => (internPathPrefix table pathPrefix).1) .empty

theorem internAll_held (calls : List Str) : (internAll calls).Held := by
  have run : ∀ table : PrefixTable, table.Held →
      (calls.foldl (fun table pathPrefix => (internPathPrefix table pathPrefix).1) table).Held := by
    induction calls with
    | nil => exact fun _ held => held
    | cons pathPrefix rest inductionHypothesis =>
        exact fun table held => inductionHypothesis _ (held.intern pathPrefix)
  exact run .empty PrefixTable.held_empty

/-- A decoded prefix is no longer than its length field can say. -/
theorem decoded_short {sidecar : Bytes} {prefixes : List Str}
    (decoded : decodePathPrefixSidecar sidecar = .ok prefixes) :
    ∀ pathPrefix ∈ prefixes, pathPrefix.len ≤ 65535 := by
  intro pathPrefix member
  unfold decodePathPrefixSidecar at decoded
  obtain ⟨_, _, decoded⟩ := bind_ok.mp decoded
  obtain ⟨_, _, decoded⟩ := bind_ok.mp decoded
  obtain ⟨index, turn⟩ := mapM_ok_mem decoded member
  unfold decodeSidecarEntry at turn
  dsimp only at turn
  split at turn
  · cases turn
  · split at turn
    · cases turn
    · rename_i found
      obtain rfl := Except.ok.inj turn
      have length := (u16At sidecar ((u32At sidecar 12).toNat + index * 8 + 4)).toNat_lt
      rw [Str.len, Str.bytes_of_fromUtf8 found, slice_length]
      omega

/-- For every table that interning fills: the section is written inside its buffer, and it
reads back exactly when no prefix is longer than its length field can say. -/
theorem sidecar_round_trip_iff (calls : List Str) :
    let prefixes := (internAll calls).prefixes
    writePathPrefixSidecar prefixes = .ok (encodePathPrefixSidecar prefixes) ∧
      (encodePathPrefixSidecar prefixes).length = pathPrefixSidecarBytes ∧
      (decodePathPrefixSidecar (encodePathPrefixSidecar prefixes) = .ok prefixes ↔
        ∀ pathPrefix ∈ prefixes, pathPrefix.len ≤ 65535) := by
  have total := (internAll_held calls).total
  exact ⟨writePathPrefixSidecar_eq total, encodePathPrefixSidecar_length total, decoded_short,
    fun short => decode_encodePathPrefixSidecar ⟨total, short⟩⟩

theorem validUtf8_replicate (count : Nat) : validUtf8 (List.replicate count 0x61) = true := by
  induction count with
  | zero => rfl
  | succ count inductionHypothesis =>
      rw [List.replicate_succ, validUtf8.eq_def]
      exact inductionHypothesis

/-- The letter `a`, so many times. -/
def letters (count : Nat) : Str := ⟨List.replicate count 0x61, validUtf8_replicate count⟩

theorem letters_len (count : Nat) : (letters count).len = count := List.length_replicate

/-- A prefix that fits is interned into the empty table. -/
theorem intern_first {pathPrefix : Str}
    (fits : pathPrefixSidecarCanHold 1 (0 + pathPrefix.len) = true) :
    (internPathPrefix .empty pathPrefix).2 = 0 ∧
      (internAll [pathPrefix]).prefixes = [pathPrefix] := by
  have interned : internPathPrefix .empty pathPrefix =
      (⟨AssocMap.empty.insert pathPrefix 0, [pathPrefix], 0 + pathPrefix.len⟩, 0) := by
    have absent : PrefixTable.empty.prefixToId.get? pathPrefix = none := rfl
    have canHold : ¬ pathPrefixSidecarCanHold (PrefixTable.empty.prefixes.length + 1)
        (PrefixTable.empty.stringBytes + pathPrefix.len) = false := by
      rw [Bool.not_eq_false]
      exact fits
    unfold internPathPrefix
    rw [absent]
    dsimp only
    rw [if_neg (by decide), if_neg canHold]
    rfl
  refine ⟨by rw [interned], ?_⟩
  show (internPathPrefix .empty pathPrefix).1.prefixes = _
  rw [interned]

/-- A directory of 65536 bytes is interned, but its section does not read back. -/
theorem long_prefix_not_read_back :
    (internPathPrefix .empty (letters 65536)).2 = 0 ∧
      (internAll [letters 65536]).prefixes = [letters 65536] ∧
      decodePathPrefixSidecar (encodePathPrefixSidecar (internAll [letters 65536]).prefixes) ≠
        .ok (internAll [letters 65536]).prefixes := by
  have length := letters_len 65536
  generalize letters 65536 = directory at length ⊢
  have fits : pathPrefixSidecarCanHold 1 (0 + directory.len) = true := by
    rw [length]
    decide
  obtain ⟨id, prefixes⟩ := intern_first fits
  refine ⟨id, prefixes, ?_⟩
  intro decoded
  have short := decoded_short decoded directory (by rw [prefixes]; exact List.mem_singleton_self _)
  omega

end MoonShot.Format
