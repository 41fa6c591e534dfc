import MoonShot.Lib.Utf8

/-!
Unix paths as the standard library takes them apart.

Owns the components of a path from its end, its file name with stem and extension, its
parent, the path with another file name, and which paths are given back by their own file
name: those with a plain directory in front of it and nothing behind.

Does not own the file system. A path is bytes; the separator is the slash.
-/

namespace MoonShot.Lib

def slash : UInt8 := 0x2F

def dot : UInt8 := 0x2E

namespace UnixPath

/-! ## Components -/

/-- The bytes in front of the components: the root, or a leading `.` component. -/
def lenBeforeBody : (path : Bytes) → Nat
  | [] => 0
  | first :: rest =>
      if first = slash then 1
      else if first = dot ∧ (rest = [] ∨ rest.head? = some slash) then 1
      else 0

/-- The bytes behind the last separator, and the path before them. -/
def lastPiece (path : Bytes) : Bytes × Bytes :=
  let start := lenBeforeBody path
  match rfind (· == slash) (path.drop start) with
  | none => (path.drop start, path.take start)
  | some index => (path.drop (start + index + 1), path.take (start + index))

/-- A path that ends in a piece that is no component: an empty one or `.`. -/
def EndsIdle (path : Bytes) : Prop :=
  lenBeforeBody path < path.length ∧ ((lastPiece path).1 = [] ∨ (lastPiece path).1 = [dot])

instance (path : Bytes) : Decidable (EndsIdle path) := inferInstanceAs (Decidable (_ ∧ _))

/-- The path without the idle pieces at its end. -/
def trimRight : (turns : Nat) → (path : Bytes) → Bytes
  | 0, path => path
  | turns + 1, path => if EndsIdle path then trimRight turns (lastPiece path).2 else path

/-- Every turn takes a byte off. -/
def trimmed (path : Bytes) : Bytes := trimRight path.length path

/-- The last component and the path before it, if there is one behind the root and a
leading `.`. -/
def nextBack (path : Bytes) : Option (Bytes × Bytes) :=
  if lenBeforeBody (trimmed path) < (trimmed path).length then some (lastPiece (trimmed path))
  else none

/-- `file_name` -/
def fileName (path : Bytes) : Option Bytes :=
  (nextBack path).bind fun last => if last.1 = [dot, dot] then none else some last.1

/-- `parent` -/
def parent (path : Bytes) : Option Bytes :=
  match nextBack path with
  | some last => some (trimmed last.2)
  | none => if path.head? = some dot then some [] else none

/-- `push` -/
def push (path name : Bytes) : Bytes :=
  if name.head? = some slash then name
  else if path = [] ∨ path.getLast? = some slash then path ++ name
  else path ++ slash :: name

/-- `with_file_name` -/
def withFileName (path name : Bytes) : Bytes :=
  push (if (fileName path).isSome then (parent path).getD path else path) name

/-- The last dot of a file name that is not its first byte. -/
def extensionDot (name : Bytes) : Option Nat :=
  (rfind (· == dot) name).filter fun index => decide (0 < index)

/-- `file_stem` -/
def fileStem (path : Bytes) : Option Bytes :=
  (fileName path).map fun name =>
    match extensionDot name with
    | some index => name.take index
    | none => name

/-- `extension` -/
def extension (path : Bytes) : Option Bytes :=
  (fileName path).bind fun name => (extensionDot name).map fun index => name.drop (index + 1)

example : fileName [0x61, 0x2F, 0x62, 0x2F, 0x2E] = some [0x62] := by decide

/-! ## Idle ends -/

theorem lenBeforeBody_le (path : Bytes) : lenBeforeBody path ≤ 1 := by
  cases path with
  | nil => exact Nat.zero_le 1
  | cons first rest =>
      simp only [lenBeforeBody]
      split_ifs <;> omega

theorem lenBeforeBody_le_length (path : Bytes) : lenBeforeBody path ≤ path.length := by
  cases path with
  | nil => exact Nat.le_refl 0
  | cons first rest => exact (lenBeforeBody_le _).trans (Nat.succ_pos _)

/-- A path behind its root is what is before its last piece, a separator unless the piece is
the whole body, and the piece. -/
theorem lastPiece_split (path : Bytes) :
    ∃ separator, path = (lastPiece path).2 ++ (separator ++ (lastPiece path).1) ∧
      slash ∉ (lastPiece path).1 ∧
      (separator = [] ∧ (lastPiece path).2.length = lenBeforeBody path ∨
        separator = [slash] ∧ lenBeforeBody path ≤ (lastPiece path).2.length) := by
  have start := lenBeforeBody_le_length path
  unfold lastPiece
  dsimp only
  cases found : rfind (· == slash) (path.drop (lenBeforeBody path)) with
  | none =>
      have absent := rfind_none found
      refine ⟨[], (List.take_append_drop _ path).symm, ?_, Or.inl ⟨rfl, ?_⟩⟩
      · intro member
        simpa using absent slash member
      · rw [List.length_take, Nat.min_eq_left start]
  | some index =>
      obtain ⟨byte, isSlash, split⟩ := rfind_split found
      have later := rfind_last found
      rw [List.drop_drop, ← Nat.add_assoc] at later
      have isByte : byte = slash := beq_iff_eq.mp isSlash
      have inside : lenBeforeBody path + index < path.length := by
        have lengths := congrArg List.length split
        simp only [List.length_append, List.length_cons, List.length_take, List.length_drop]
          at lengths
        omega
      refine ⟨[slash], ?_, ?_, Or.inr ⟨rfl, ?_⟩⟩
      · have front : path.take (lenBeforeBody path + index) =
            path.take (lenBeforeBody path) ++ (path.drop (lenBeforeBody path)).take index :=
          List.take_add
        have back : path.drop (lenBeforeBody path + index + 1) =
            (path.drop (lenBeforeBody path)).drop (index + 1) := by
          rw [List.drop_drop, Nat.add_assoc]
        rw [isByte] at split
        dsimp only
        rw [front, back, List.append_assoc, List.singleton_append, ← split,
          List.take_append_drop]
      · intro member
        simpa using later slash member
      · rw [List.length_take, Nat.min_eq_left (Nat.le_of_lt inside)]
        exact Nat.le_add_right _ _

section NoIdleEnd

variable {front name : Bytes}

theorem slash_not_suffix (nonempty : name ≠ []) (noSlash : slash ∉ name) :
    ¬ [slash] <:+ front ++ name := by
  rintro ⟨start, ends⟩
  rcases List.eq_nil_or_concat name with empty | ⟨init, last, shape⟩
  · exact nonempty empty
  · rw [shape, List.concat_eq_append, ← List.append_assoc] at ends
    obtain ⟨-, same⟩ := List.append_inj' ends rfl
    exact noSlash (by simp [shape, (List.cons.inj same).1])

theorem slashDot_not_suffix (nonempty : name ≠ []) (noSlash : slash ∉ name)
    (notDot : name ≠ [dot]) : ¬ [slash, dot] <:+ front ++ name := by
  rintro ⟨start, ends⟩
  rcases List.eq_nil_or_concat name with empty | ⟨init, last, shape⟩
  · exact nonempty empty
  · have twice : (start ++ [slash]) ++ [dot] = (front ++ init) ++ [last] := by
      rw [shape, List.concat_eq_append] at ends
      simpa using ends
    obtain ⟨before, same⟩ := List.append_inj' twice rfl
    have initNonempty : init ≠ [] := by
      rintro rfl
      rw [List.concat_eq_append, List.nil_append, ← same] at shape
      exact notDot shape
    have initNoSlash : slash ∉ init := by
      intro member
      exact noSlash (by simp [shape, member])
    exact @slash_not_suffix front init initNonempty initNoSlash ⟨start, before⟩

end NoIdleEnd

/-- A path ends in an idle piece when it ends in a slash that is not the root, or in a slash
and a dot. -/
theorem endsIdle_iff (path : Bytes) :
    EndsIdle path ↔ (1 < path.length ∧ [slash] <:+ path) ∨ [slash, dot] <:+ path := by
  obtain ⟨separator, split, noSlash, place⟩ := lastPiece_split path
  have start := lenBeforeBody_le path
  constructor
  · rintro ⟨longer, idle⟩
    rcases place with ⟨rfl, whole⟩ | ⟨rfl, least⟩
    · -- The whole body is idle: it is a dot behind the root.
      rcases idle with empty | isDot
      · have lengths := congrArg List.length split
        rw [empty, List.append_nil, List.append_nil] at lengths
        omega
      · rw [isDot, List.nil_append] at split
        generalize (lastPiece path).2 = before at split whole
        subst split
        rcases before with _ | ⟨first, _ | ⟨second, before⟩⟩
        · exact absurd whole (by decide)
        · by_cases isSlash : first = slash
          · exact Or.inr ⟨[], by rw [isSlash]; rfl⟩
          · have none : lenBeforeBody ([first] ++ [dot]) = 0 := by
              simp [lenBeforeBody, isSlash, show dot ≠ slash by decide]
            rw [none] at whole
            cases whole
        · simp only [List.length_cons] at whole
          omega
    · rcases idle with empty | isDot
      · rw [empty] at split
        refine Or.inl ⟨?_, ⟨_, split.symm⟩⟩
        generalize (lastPiece path).2 = before at split least
        subst split
        rcases before with _ | ⟨first, before⟩
        · exact absurd least (by decide)
        · simp only [List.length_append, List.length_cons]
          omega
      · rw [isDot] at split
        exact Or.inr ⟨_, split.symm⟩
  · intro ends
    have longer : lenBeforeBody path < path.length := by
      rcases ends with ⟨longer, -⟩ | isSuffix
      · omega
      · have long := isSuffix.length_le
        rw [List.length_cons, List.length_singleton] at long
        omega
    refine ⟨longer, ?_⟩
    by_contra busy
    obtain ⟨nonempty, notDot⟩ := not_or.mp busy
    rw [split, ← List.append_assoc] at ends
    rcases ends with ⟨-, isSuffix⟩ | isSuffix
    · exact slash_not_suffix nonempty noSlash isSuffix
    · exact slashDot_not_suffix nonempty noSlash notDot isSuffix

/-! ## Trimming -/

theorem lastPiece_isFront (path : Bytes) : (lastPiece path).2 <+: path := by
  obtain ⟨separator, split, -, -⟩ := lastPiece_split path
  exact ⟨_, split.symm⟩

theorem lastPiece_shorter {path : Bytes} (idle : EndsIdle path) :
    (lastPiece path).2.length < path.length := by
  obtain ⟨separator, split, -, place⟩ := lastPiece_split path
  have lengths := congrArg List.length split
  rw [List.length_append, List.length_append] at lengths
  rcases place with ⟨rfl, whole⟩ | ⟨rfl, -⟩
  · have longer := idle.1
    omega
  · rw [List.length_singleton] at lengths
    omega

theorem trimRight_spec {turns : Nat} {path : Bytes} (enough : path.length ≤ turns) :
    trimRight turns path <+: path ∧ ¬ EndsIdle (trimRight turns path) := by
  induction turns generalizing path with
  | zero =>
      refine ⟨List.prefix_rfl, fun idle => ?_⟩
      have longer := idle.1
      rw [trimRight] at longer
      omega
  | succ turns inductionHypothesis =>
      rw [trimRight]
      split
      · rename_i idle
        have shorter := lastPiece_shorter idle
        obtain ⟨isPrefix, ends⟩ := @inductionHypothesis (lastPiece path).2 (by omega)
        exact ⟨isPrefix.trans (lastPiece_isFront path), ends⟩
      · rename_i ends
        exact ⟨List.prefix_rfl, ends⟩

theorem trimmed_isFront (path : Bytes) : trimmed path <+: path :=
  (trimRight_spec (Nat.le_refl _)).1

theorem trimmed_ends (path : Bytes) : ¬ EndsIdle (trimmed path) :=
  (trimRight_spec (Nat.le_refl _)).2

theorem trimmed_eq {path : Bytes} (ends : ¬ EndsIdle path) : trimmed path = path := by
  unfold trimmed
  cases path.length with
  | zero => rfl
  | succ turns => exact if_neg ends

/-! ## The path with another file name -/

/-- A directory as it stands in front of a file name: nothing, or a path and one slash, where
the path does not end in an idle piece. -/
def PlainDirectory (directory : Bytes) : Prop :=
  directory = [] ∨
    ∃ path, directory = path ++ [slash] ∧ ¬ [slash] <:+ path ∧ ¬ [slash, dot] <:+ path

/-- What `push` puts in front of a name. -/
def directoryOf (path : Bytes) : Bytes :=
  if path = [] ∨ path.getLast? = some slash then path else path ++ [slash]

theorem push_eq {path name : Bytes} (relative : name.head? ≠ some slash) :
    push path name = directoryOf path ++ name := by
  rw [push, if_neg relative, directoryOf]
  split
  · rfl
  · rw [List.append_assoc, List.singleton_append]

theorem endsWith_slash_iff (path : Bytes) : [slash] <:+ path ↔ path.getLast? = some slash := by
  rcases List.eq_nil_or_concat path with rfl | ⟨init, last, rfl⟩
  · simp
  · rw [List.concat_eq_append, List.getLast?_concat]
    constructor
    · rintro ⟨front, ends⟩
      obtain ⟨-, same⟩ := List.append_inj' ends rfl
      rw [(List.cons.inj same).1]
    · intro same
      exact ⟨init, by rw [Option.some.inj same]⟩

theorem directoryOf_plain {path : Bytes} (ends : ¬ EndsIdle path) :
    PlainDirectory (directoryOf path) := by
  rw [endsIdle_iff] at ends
  unfold directoryOf
  split
  · rename_i bare
    rcases bare with rfl | isSlash
    · exact Or.inl rfl
    · have isSuffix := (endsWith_slash_iff path).mpr isSlash
      have short : path.length ≤ 1 := by
        by_contra longer
        exact ends (Or.inl ⟨by omega, isSuffix⟩)
      obtain ⟨front, rfl⟩ := isSuffix
      rw [List.length_append, List.length_singleton] at short
      obtain rfl := List.length_eq_zero_iff.mp (show front.length = 0 by omega)
      exact Or.inr ⟨[], rfl, by simp, by simp⟩
  · rename_i notBare
    refine Or.inr ⟨path, rfl, ?_, fun isSuffix => ends (Or.inr isSuffix)⟩
    rw [endsWith_slash_iff]
    exact fun isSlash => notBare (Or.inr isSlash)

/-- The last component of a path, with what is in front of it. -/
structure LastComponent (path name before separator : Bytes) : Prop where
  ends : ¬ EndsIdle path
  split : path = before ++ (separator ++ name)
  nonempty : name ≠ []
  noSlash : slash ∉ name
  notDot : name ≠ [dot]
  place : separator = [] ∧ before.length = lenBeforeBody path ∨
    separator = [slash] ∧ lenBeforeBody path ≤ before.length

/-- A file name is the last component of the trimmed path. -/
theorem fileName_component {path name : Bytes} (found : fileName path = some name) :
    ∃ before separator, LastComponent (trimmed path) name before separator ∧
      nextBack path = some (name, before) := by
  obtain ⟨last, next, notParent⟩ := Option.bind_eq_some_iff.mp found
  have same : last.1 = name := by
    split at notParent
    · cases notParent
    · exact Option.some.inj notParent
  unfold nextBack at next
  split at next
  · rename_i longer
    obtain rfl := Option.some.inj next
    obtain ⟨separator, split, noSlash, place⟩ := lastPiece_split (trimmed path)
    have notIdle := trimmed_ends path
    refine ⟨_, separator, ⟨notIdle, ?_, ?_, ?_, ?_, place⟩, ?_⟩
    · rw [← same]
      exact split
    · rintro rfl
      exact notIdle ⟨longer, Or.inl same⟩
    · rw [← same]
      exact noSlash
    · rintro rfl
      exact notIdle ⟨longer, Or.inr same⟩
    · rw [nextBack, if_pos longer, ← same]
  · cases next

theorem directoryOf_length_le (path : Bytes) :
    (directoryOf path).length ≤ path.length + 1 := by
  unfold directoryOf
  split
  · exact Nat.le_succ _
  · rw [List.length_append, List.length_singleton]

namespace LastComponent

variable {path name before separator : Bytes}

/-- Without a separator the component stands behind the root or at the start. -/
theorem bare (last : LastComponent path name before separator) (none : separator = []) :
    before = [] ∨ before = [slash] := by
  obtain ⟨-, whole⟩ | ⟨some, -⟩ := last.place
  · have split := last.split
    rw [none, List.nil_append] at split
    rcases before with _ | ⟨first, _ | ⟨second, rest⟩⟩
    · exact Or.inl rfl
    · by_cases isSlash : first = slash
      · exact Or.inr (by rw [isSlash])
      · have noBody : lenBeforeBody path = 0 := by
          have notEmpty := last.nonempty
          have notSlash : name.head? ≠ some slash := by
            intro starts
            exact last.noSlash (List.mem_of_mem_head? starts)
          rw [split]
          simp [lenBeforeBody, isSlash, notEmpty, notSlash]
        rw [noBody] at whole
        cases whole
    · have least := lenBeforeBody_le path
      simp only [List.length_cons] at whole
      omega
  · rw [none] at some
    cases some

/-- What stands in front of the component is kept, or something of it is lost. -/
theorem directory (last : LastComponent path name before separator) :
    directoryOf (trimmed before) = before ++ separator ∨
      (directoryOf (trimmed before)).length < (before ++ separator).length := by
  rcases last.place with ⟨none, -⟩ | ⟨isSlash, least⟩
  · rcases last.bare none with rfl | rfl
    · rw [none]
      exact Or.inl rfl
    · rw [none]
      exact Or.inl (by decide)
  · have isPrefix := trimmed_isFront before
    have bound := directoryOf_length_le (trimmed before)
    rw [isSlash, List.length_append, List.length_singleton]
    by_cases kept : trimmed before = before
    · rw [kept, directoryOf]
      split
      · exact Or.inr (Nat.lt_succ_self _)
      · exact Or.inl rfl
    · have shorter : (trimmed before).length < before.length := by
        refine Nat.lt_of_le_of_ne isPrefix.length_le fun same => ?_
        exact kept (isPrefix.eq_of_length same)
      exact Or.inr (by omega)

/-- A plain directory in front of the component is kept. -/
theorem plain (last : LastComponent path name before separator) {directory : Bytes}
    (isPlain : PlainDirectory directory) (split : path = directory ++ name) :
    directoryOf (trimmed before) = directory := by
  have same : before ++ separator = directory := by
    have whole := last.split
    rw [← List.append_assoc, split] at whole
    exact (List.append_cancel_right whole).symm
  rcases isPlain with rfl | ⟨front, rfl, noSlash, noDot⟩
  · obtain ⟨rfl, -⟩ := List.append_eq_nil_iff.mp same
    rfl
  · rcases last.place with ⟨none, -⟩ | ⟨isSlash, least⟩
    · rw [none, List.append_nil] at same
      rcases last.bare none with rfl | rfl
      · exact absurd same (by simp)
      · rw [← same]
        decide
    · rw [isSlash] at same
      obtain rfl := List.append_cancel_right same
      have notEmpty : before ≠ [] := by
        rintro rfl
        rw [split] at least
        exact absurd least (by simp [lenBeforeBody])
      have ends : ¬ EndsIdle before := by
        rw [endsIdle_iff]
        rintro (⟨-, isSuffix⟩ | isSuffix)
        · exact noSlash isSuffix
        · exact noDot isSuffix
      rw [trimmed_eq ends, directoryOf, if_neg]
      rintro (empty | isLast)
      · exact notEmpty empty
      · exact noSlash ((endsWith_slash_iff before).mpr isLast)

end LastComponent

/-- A path that is a directory and its file name is trimmed. -/
theorem trimmed_of_split {path name directory : Bytes} (found : fileName path = some name)
    (split : path = directory ++ name) : trimmed path = path := by
  obtain ⟨before, separator, last, -⟩ := fileName_component found
  refine trimmed_eq ?_
  rw [endsIdle_iff, split]
  rintro (⟨-, isSuffix⟩ | isSuffix)
  · exact slash_not_suffix last.nonempty last.noSlash isSuffix
  · exact slashDot_not_suffix last.nonempty last.noSlash last.notDot isSuffix

/-- Another file name is put behind a plain directory. The path is this directory with its
own file name, or it is longer and no plain directory with its file name. -/
theorem withFileName_spec {path name : Bytes} (found : fileName path = some name) :
    ∃ directory, PlainDirectory directory ∧
      (∀ other, other.head? ≠ some slash → withFileName path other = directory ++ other) ∧
      (path = directory ++ name ∨ directory.length + name.length < path.length ∧
        ¬ ∃ other, PlainDirectory other ∧ path = other ++ name) := by
  obtain ⟨before, separator, last, next⟩ := fileName_component found
  refine ⟨directoryOf (trimmed before), directoryOf_plain (trimmed_ends _), ?_, ?_⟩
  · intro other relative
    have isSome : (fileName path).isSome = true := by rw [found]; rfl
    rw [withFileName, if_pos isSome, parent, next]
    exact push_eq relative
  · have lengths := congrArg List.length last.split
    have shorter := (trimmed_isFront path).length_le
    by_cases isPlain : ∃ other, PlainDirectory other ∧ path = other ++ name
    · obtain ⟨other, plainOther, split⟩ := isPlain
      have same := trimmed_of_split found split
      rw [same] at last
      rw [last.plain plainOther split]
      exact Or.inl split
    · refine Or.inr ⟨?_, isPlain⟩
      rcases last.directory with kept | lost
      · by_contra long
        have whole : trimmed path = path := by
          refine (trimmed_isFront path).eq_of_length ?_
          rw [kept] at long
          simp only [List.length_append] at long lengths
          omega
        refine isPlain ⟨_, directoryOf_plain (trimmed_ends before), ?_⟩
        rw [kept, List.append_assoc, ← last.split, whole]
      · simp only [List.length_append] at lost lengths
        omega

end UnixPath

end MoonShot.Lib
