import MoonShot.Context.State
import MoonShot.Lib.Text
import MoonShot.Lib.UnixPath

/-!
The delta file of an index, as the command line program names it (`delta_index_path` of
`moon.rs`), against `DeltaIndexPath` of the context.

Owns the first of the two and the paths on which both give one name. One takes the path
apart as a path, the other looks for the last dot and the last separator of a text, where a
backslash is a separator too.

Does not own what is done with the file.
-/

namespace MoonShot.Programs

open MoonShot.Lib
open MoonShot.Lib.UnixPath
open MoonShot.Format

/-- `delta_index_path` of `moon.rs` -/
def deltaIndexPath (path : Bytes) : Bytes :=
  match fileStem path, extension path with
  | some stem, some extension =>
      withFileName path (stem ++ (Context.deltaMark.bytes ++ Context.dotText.bytes) ++ extension)
  | _, _ => lossyBytes path ++ (Context.deltaMark.bytes ++ Context.idxText.bytes)

/-- The two names of the delta file are the same: the file name has an extension without a
backslash and a plain directory in front of it and nothing behind, or it has no extension and
every dot of the path has a separator behind it. -/
def SameDelta (path name : Bytes) : Prop :=
  (∃ directory stem extension, path = directory ++ name ∧ PlainDirectory directory ∧
      name = stem ++ dot :: extension ∧ stem ≠ [] ∧ dot ∉ extension ∧ 0x5C ∉ extension) ∨
    (∀ stem extension, name = stem ++ dot :: extension → stem = []) ∧
      ∀ front back, path = front ++ dot :: back → back.any isPathSeparator = true

/-! ## The last dot -/

/-- Behind any dot stands all that is behind the last one. -/
theorem suffix_of_last {front back stem extension : Bytes} (last : dot ∉ extension)
    (same : front ++ dot :: back = stem ++ dot :: extension) : extension <:+ back := by
  have left : dot :: back <:+ stem ++ dot :: extension := ⟨front, same⟩
  have right : extension <:+ stem ++ dot :: extension :=
    (List.suffix_cons dot extension).trans (List.suffix_append _ _)
  rcases List.suffix_or_suffix_of_suffix left right with inside | behind
  · exact absurd (inside.subset List.mem_cons_self) last
  · rcases List.suffix_cons_iff.mp behind with whole | behind
    · rw [whole] at last
      exact absurd List.mem_cons_self last
    · exact behind

theorem last_unique {front back stem extension : Bytes} (last : dot ∉ extension)
    (otherLast : dot ∉ back) (same : front ++ dot :: back = stem ++ dot :: extension) :
    back = extension :=
  ((suffix_of_last otherLast same.symm).sublist.antisymm (suffix_of_last last same).sublist)

theorem rfind_dot {test : UInt8 → Bool} (isDot : ∀ byte, test byte = true ↔ byte = dot)
    (data : Bytes) :
    (rfind test data = none ∧ dot ∉ data) ∨
      ∃ index, rfind test data = some index ∧
        data = data.take index ++ dot :: data.drop (index + 1) ∧
        dot ∉ data.drop (index + 1) := by
  cases found : rfind test data with
  | none =>
      refine Or.inl ⟨rfl, fun member => ?_⟩
      have absent := rfind_none found dot member
      rw [(isDot dot).mpr rfl] at absent
      cases absent
  | some index =>
      obtain ⟨byte, passes, split⟩ := rfind_split found
      rw [(isDot byte).mp passes] at split
      refine Or.inr ⟨index, rfl, split, fun member => ?_⟩
      have absent := rfind_last found dot member
      rw [(isDot dot).mpr rfl] at absent
      cases absent

/-- A file name has an extension behind its last dot, or no dot behind its first byte. -/
theorem extensionDot_cases (name : Bytes) :
    (extensionDot name = none ∧ ∀ stem extension, name = stem ++ dot :: extension → stem = []) ∨
      ∃ index, extensionDot name = some index ∧
        name = name.take index ++ dot :: name.drop (index + 1) ∧ name.take index ≠ [] ∧
        dot ∉ name.drop (index + 1) := by
  unfold extensionDot
  rcases @rfind_dot (· == dot) (fun byte => beq_iff_eq) name with ⟨none, absent⟩ |
    ⟨index, found, split, last⟩
  · rw [none]
    refine Or.inl ⟨rfl, fun stem extension shape => ?_⟩
    rw [shape] at absent
    exact absurd (by simp) absent
  · rw [found]
    rcases Nat.eq_zero_or_pos index with first | behind
    · refine Or.inl ⟨by simp [first], fun stem extension shape => ?_⟩
      rw [first, List.take_zero, List.nil_append] at split
      rw [first] at last
      have isSuffix := suffix_of_last last (show stem ++ dot :: extension =
        [] ++ dot :: name.drop (0 + 1) by rw [← shape]; exact split)
      have lengths := congrArg List.length (shape.symm.trans split)
      have long := isSuffix.length_le
      simp only [List.length_append, List.length_cons] at lengths
      exact List.length_eq_zero_iff.mp (by omega)
    · refine Or.inr ⟨index, by simp [behind], split, fun empty => ?_, last⟩
      rcases List.take_eq_nil_iff.mp empty with first | noName
      · omega
      · rw [noName] at split
        simp at split

/-! ## The two names -/

theorem isDot_iff (byte : UInt8) : Context.isDot byte = true ↔ byte = dot := beq_iff_eq

/-- `DeltaIndexPath` of a path with a dot. -/
theorem contextDelta_dot {path : Str} {stem extension : Bytes}
    (split : path.bytes = stem ++ dot :: extension) (last : dot ∉ extension) :
    (Context.deltaIndexPath path).bytes =
      if extension.any isPathSeparator then
        path.bytes ++ (Context.deltaMark.bytes ++ Context.idxText.bytes)
      else stem ++ (Context.deltaMark.bytes ++ Context.dotText.bytes) ++ extension := by
  rcases rfind_dot isDot_iff path.bytes with ⟨_, absent⟩ | ⟨index, found, shape, isLast⟩
  · rw [split] at absent
    exact absurd (by simp) absent
  · obtain ⟨parts, cut, stemBytes, extensionBytes⟩ :=
      Str.cutLast_eq_some Context.isDot_ascii found
    have same : path.bytes.drop (index + 1) = extension :=
      last_unique last isLast (shape.symm.trans split)
    have front : path.bytes.take index = stem := by
      have whole := shape.symm.trans split
      rw [same] at whole
      exact List.append_cancel_right whole
    rw [Context.deltaIndexPath, cut]
    rw [front] at stemBytes
    rw [same] at extensionBytes
    dsimp only
    rw [extensionBytes]
    split_ifs
    · simp [Str.append]
    · simp [Str.append, stemBytes, extensionBytes]

/-- `DeltaIndexPath` of a path without a dot. -/
theorem contextDelta_noDot {path : Str} (absent : dot ∉ path.bytes) :
    (Context.deltaIndexPath path).bytes =
      path.bytes ++ (Context.deltaMark.bytes ++ Context.idxText.bytes) := by
  rcases rfind_dot isDot_iff path.bytes with ⟨none, _⟩ | ⟨index, _, shape, _⟩
  · rw [Context.deltaIndexPath, Str.cutLast_eq_none Context.isDot_ascii none]
    simp [Str.append]
  · rw [shape] at absent
    exact absurd (by simp) absent

theorem contextDelta_length (path : Str) :
    path.bytes.length + 6 ≤ (Context.deltaIndexPath path).bytes.length := by
  have marks : Context.deltaMark.bytes.length = 6 ∧ Context.dotText.bytes.length = 1 := ⟨rfl, rfl⟩
  by_cases present : dot ∈ path.bytes
  · rcases rfind_dot isDot_iff path.bytes with ⟨_, absent⟩ | ⟨index, _, shape, last⟩
    · exact absurd present absent
    · have lengths := congrArg List.length shape
      rw [contextDelta_dot shape last]
      rw [List.length_append, List.length_cons] at lengths
      split_ifs
      · simp only [List.length_append, marks]
        omega
      · simp only [List.length_append, marks]
        omega
  · rw [contextDelta_noDot present]
    simp only [List.length_append, marks]
    omega

/-- Without an extension the context puts the mark behind the path when every dot has a
separator behind it, and only then. -/
theorem contextDelta_behind_iff (path : Str) :
    (Context.deltaIndexPath path).bytes =
        path.bytes ++ (Context.deltaMark.bytes ++ Context.idxText.bytes) ↔
      ∀ front back, path.bytes = front ++ dot :: back → back.any isPathSeparator = true := by
  by_cases present : dot ∈ path.bytes
  · rcases rfind_dot isDot_iff path.bytes with ⟨_, absent⟩ | ⟨index, _, shape, last⟩
    · exact absurd present absent
    · rw [contextDelta_dot shape last]
      by_cases separated : (path.bytes.drop (index + 1)).any isPathSeparator = true
      · rw [if_pos separated]
        refine iff_of_true rfl fun front back split => ?_
        obtain ⟨byte, member, isSeparator⟩ := List.any_eq_true.mp separated
        have isSuffix := suffix_of_last last (split.symm.trans shape)
        exact List.any_eq_true.mpr ⟨byte, isSuffix.subset member, isSeparator⟩
      · rw [if_neg separated]
        refine iff_of_false (fun same => ?_) fun all => separated (all _ _ shape)
        have marks : Context.deltaMark.bytes.length = 6 ∧ Context.dotText.bytes.length = 1 ∧
          Context.idxText.bytes.length = 4 := ⟨rfl, rfl, rfl⟩
        have lengths := congrArg List.length shape
        have others := congrArg List.length same
        rw [List.length_append, List.length_cons] at lengths
        simp only [List.length_append, marks] at others
        omega
  · rw [contextDelta_noDot present]
    refine iff_of_true rfl fun front back split => ?_
    rw [split] at present
    exact absurd (by simp) present

/-- A file name with an extension. -/
theorem same_of_extension {path : Str} {name stem extension : Bytes}
    (found : fileName path.bytes = some name) (shape : name = stem ++ dot :: extension)
    (hasStem : stem ≠ []) (last : dot ∉ extension) :
    withFileName path.bytes
          (stem ++ (Context.deltaMark.bytes ++ Context.dotText.bytes) ++ extension) =
        (Context.deltaIndexPath path).bytes ↔ SameDelta path.bytes name := by
  have marks : Context.deltaMark.bytes.length = 6 ∧ Context.dotText.bytes.length = 1 ∧
    Context.idxText.bytes.length = 4 := ⟨rfl, rfl, rfl⟩
  obtain ⟨_, _, component, _⟩ := fileName_component found
  have noSlash := component.noSlash
  have relative : (stem ++ (Context.deltaMark.bytes ++ Context.dotText.bytes) ++
      extension).head? ≠ some slash := by
    rcases stem with _ | ⟨first, stem⟩
    · exact absurd rfl hasStem
    · intro isSlash
      exact noSlash (by simp [shape, ← Option.some.inj isSlash])
  have nameLength := congrArg List.length shape
  rw [List.length_append, List.length_cons] at nameLength
  obtain ⟨directory, isPlain, renamed, place⟩ := withFileName_spec found
  rw [renamed _ relative]
  rcases place with whole | ⟨longer, notPlain⟩
  · have split : path.bytes = (directory ++ stem) ++ dot :: extension := by
      rw [whole, shape, List.append_assoc]
    have lengths := congrArg List.length split
    simp only [List.length_append, List.length_cons] at lengths
    rw [contextDelta_dot split last]
    by_cases separated : 0x5C ∈ extension
    · have any : extension.any isPathSeparator = true :=
        List.any_eq_true.mpr ⟨0x5C, separated, by decide⟩
      rw [if_pos any]
      refine iff_of_false (fun same => ?_) ?_
      · have others := congrArg List.length same
        simp only [List.length_append, marks] at others
        omega
      · rintro (⟨_, otherStem, other, _, _, otherShape, _, otherLast, free⟩ | ⟨noExtension, _⟩)
        · rw [last_unique last otherLast (otherShape.symm.trans shape)] at free
          exact free separated
        · exact hasStem (noExtension stem extension shape)
    · have none : ¬ extension.any isPathSeparator = true := by
        rw [List.any_eq_true]
        rintro ⟨byte, member, isSeparator⟩
        rw [isPathSeparator, Bool.or_eq_true, beq_iff_eq, beq_iff_eq] at isSeparator
        rcases isSeparator with rfl | rfl
        · exact noSlash (by
            rw [shape]
            exact List.mem_append_right _ (List.mem_cons_of_mem _ member))
        · exact separated member
      rw [if_neg none]
      refine iff_of_true (by simp) (Or.inl ?_)
      exact ⟨directory, stem, extension, whole, isPlain, shape, hasStem, last, separated⟩
  · have long := contextDelta_length path
    refine iff_of_false (fun same => ?_) ?_
    · have others := congrArg List.length same
      simp only [List.length_append, marks] at others
      omega
    · rintro (⟨other, _, _, split, plainOther, _⟩ | ⟨noExtension, _⟩)
      · exact notPlain ⟨other, plainOther, split⟩
      · exact hasStem (noExtension stem extension shape)

/-- The command line program and the context give the delta of a path with a file name one
name when the file name has an extension without a backslash, with a plain directory in front
of it and nothing behind, or no extension while every dot of the path has a separator behind
it; and only then. -/
theorem deltaIndexPath_same_iff (path : Str) (name : Bytes)
    (found : fileName path.bytes = some name) :
    deltaIndexPath path.bytes = (Context.deltaIndexPath path).bytes ↔
      SameDelta path.bytes name := by
  rcases extensionDot_cases name with ⟨none, noExtension⟩ | ⟨index, dotted, shape, stem, last⟩
  · have stemmed : fileStem path.bytes = some name := by
      rw [fileStem, found, Option.map_some, none]
    have bare : extension path.bytes = Option.none := by
      rw [extension, found, Option.bind_some, none]
      rfl
    rw [deltaIndexPath, stemmed, bare]
    dsimp only
    rw [lossyBytes_of_valid path.valid, eq_comm, contextDelta_behind_iff]
    constructor
    · intro separated
      exact Or.inr ⟨noExtension, separated⟩
    · rintro (⟨directory, stem, extension, _, _, shape, hasStem, _⟩ | ⟨_, separated⟩)
      · exact absurd (noExtension stem extension shape) hasStem
      · exact separated
  · have stemmed : fileStem path.bytes = some (name.take index) := by
      rw [fileStem, found, Option.map_some, dotted]
    have extended : extension path.bytes = some (name.drop (index + 1)) := by
      rw [extension, found, Option.bind_some, dotted]
      rfl
    rw [deltaIndexPath, stemmed, extended]
    exact same_of_extension found shape stem last

/-- `delta_index_path` and `DeltaIndexPath` of the path `a/b.idx`. -/
theorem deltaIndexPath_same_plain :
    fileName [0x61, 0x2F, 0x62, 0x2E, 0x69, 0x64, 0x78] = some [0x62, 0x2E, 0x69, 0x64, 0x78] ∧
      deltaIndexPath [0x61, 0x2F, 0x62, 0x2E, 0x69, 0x64, 0x78] =
        (Context.deltaIndexPath ⟨[0x61, 0x2F, 0x62, 0x2E, 0x69, 0x64, 0x78], by decide⟩).bytes ∧
      SameDelta [0x61, 0x2F, 0x62, 0x2E, 0x69, 0x64, 0x78] [0x62, 0x2E, 0x69, 0x64, 0x78] := by
  have same : deltaIndexPath [0x61, 0x2F, 0x62, 0x2E, 0x69, 0x64, 0x78] =
      (Context.deltaIndexPath ⟨[0x61, 0x2F, 0x62, 0x2E, 0x69, 0x64, 0x78], by decide⟩).bytes := by
    decide
  refine ⟨by decide, same, ?_⟩
  exact (deltaIndexPath_same_iff ⟨[0x61, 0x2F, 0x62, 0x2E, 0x69, 0x64, 0x78], by decide⟩
    [0x62, 0x2E, 0x69, 0x64, 0x78] (by decide)).mp same

/-- The path `.idx`, whose first dot is a separator of the extension for the context only. -/
theorem hiddenFile_deltas_differ :
    fileName [0x2E, 0x69, 0x64, 0x78] = some [0x2E, 0x69, 0x64, 0x78] ∧
      deltaIndexPath [0x2E, 0x69, 0x64, 0x78] ≠
        (Context.deltaIndexPath ⟨[0x2E, 0x69, 0x64, 0x78], by decide⟩).bytes := by
  decide

end MoonShot.Programs
