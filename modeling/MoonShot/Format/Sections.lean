import MoonShot.Format.Header
import MoonShot.Lib.Extents

/-!
The sections of an index file, in unbounded integers.

Owns the sizes and the places of the sections as a header states them, and that
`validate_layout` is exact: it accepts a header if and only if its counts fit, its
sections follow each other without gaps and the file holds them.
-/

namespace MoonShot.Format

open MoonShot.Lib

namespace IndexFileHeader

/-- The bytes of the sections: header, sidecar, head entries, leaf blocks,
records, index blocks, hash table header, displacements and entry pages. -/
def sectionSizes (header : IndexFileHeader) : List Nat :=
  [indexFileHeaderSize, pathPrefixSidecarBytes, header.headTermEntryCount.toNat * 32,
    header.leafTermBlockCount.toNat * pageSize, header.numDocuments.toNat * docRecSize,
    header.indexBlockCount.toNat * pageSize,
    header.termMphfHeaderCount.toNat * termMphfHeaderSize,
    header.termMphfDisplacementCount.toNat * 4, header.termMphfEntryPageCount.toNat * pageSize]

/-- Where the header says they start; the first two have fixed places. -/
def sectionOffsets (header : IndexFileHeader) : List Nat :=
  [0, indexFileHeaderSize, header.headTermEntryOffset.toNat, header.leafTermBlockOffset.toNat,
    header.docDataOffset.toNat, header.indexBlockOffset.toNat, header.termMphfHeaderOffset.toNat,
    header.termMphfDisplacementOffset.toNat, header.termMphfEntryOffset.toNat]

/-- The section counts are 32-bit numbers, there is at most one hash table header,
and the hash tables have all their sections or none. -/
structure CountsFit (header : IndexFileHeader) : Prop where
  heads : header.headTermEntryCount.toNat < 2 ^ 32
  leafs : header.leafTermBlockCount.toNat < 2 ^ 32
  blocks : header.indexBlockCount.toNat < 2 ^ 32
  displacements : header.termMphfDisplacementCount.toNat < 2 ^ 32
  entryPages : header.termMphfEntryPageCount.toNat < 2 ^ 32
  hashTables :
    (header.termMphfHeaderCount.toNat = 0 ∧ header.termMphfDisplacementCount.toNat = 0 ∧
      header.termMphfEntryPageCount.toNat = 0) ∨
    (header.termMphfHeaderCount.toNat = 1 ∧ 0 < header.termMphfDisplacementCount.toNat ∧
      0 < header.termMphfEntryPageCount.toNat)

/-- The first check of `validate_layout`, in unbounded integers. -/
theorem countsFit_iff (header : IndexFileHeader) :
    header.CountsFit ↔
      ¬ (header.termMphfHeaderCount > 1 ∨ header.headTermEntryCount > u32Max ∨
        header.leafTermBlockCount > u32Max ∨ header.indexBlockCount > u32Max ∨
        header.termMphfDisplacementCount > u32Max ∨ header.termMphfEntryPageCount > u32Max ∨
        (header.termMphfHeaderCount = 0 ∧
          (header.termMphfDisplacementCount ≠ 0 ∨ header.termMphfEntryPageCount ≠ 0)) ∨
        (header.termMphfHeaderCount = 1 ∧
          (header.termMphfDisplacementCount = 0 ∨ header.termMphfEntryPageCount = 0))) := by
  have most : u32Max.toNat = 2 ^ 32 - 1 := by decide
  have zero : (0 : UInt64).toNat = 0 := rfl
  have one : (1 : UInt64).toNat = 1 := rfl
  simp only [gt_iff_lt, UInt64.lt_iff_toNat_lt, ne_eq, ← UInt64.toNat_inj, most, zero, one]
  constructor
  · rintro ⟨heads, leafs, blocks, displacements, entryPages, hashTables⟩
    omega
  · intro accepted
    constructor <;> omega

/-- The places are the running sums of the sizes, one equation for each section. -/
theorem sectionOffsets_eq_iff (header : IndexFileHeader) :
    header.sectionOffsets = runningSums 0 header.sectionSizes ↔
      header.headTermEntryOffset.toNat = indexFileHeaderSize + pathPrefixSidecarBytes ∧
      header.leafTermBlockOffset.toNat =
        header.headTermEntryOffset.toNat + header.headTermEntryCount.toNat * 32 ∧
      header.docDataOffset.toNat =
        header.leafTermBlockOffset.toNat + header.leafTermBlockCount.toNat * pageSize ∧
      header.indexBlockOffset.toNat =
        header.docDataOffset.toNat + header.numDocuments.toNat * docRecSize ∧
      header.termMphfHeaderOffset.toNat =
        header.indexBlockOffset.toNat + header.indexBlockCount.toNat * pageSize ∧
      header.termMphfDisplacementOffset.toNat = header.termMphfHeaderOffset.toNat +
        header.termMphfHeaderCount.toNat * termMphfHeaderSize ∧
      header.termMphfEntryOffset.toNat =
        header.termMphfDisplacementOffset.toNat + header.termMphfDisplacementCount.toNat * 4 := by
  simp only [sectionOffsets, sectionSizes, runningSums, List.cons.injEq, and_true, true_and,
    Nat.zero_add]
  constructor
  · rintro ⟨head, leaf, docData, index, mphf, displacement, entries⟩
    omega
  · rintro ⟨head, leaf, docData, index, mphf, displacement, entries⟩
    omega

theorem stop_eq_sum {header : IndexFileHeader}
    (offsets : header.sectionOffsets = runningSums 0 header.sectionSizes) :
    header.stop = header.sectionSizes.sum := by
  obtain ⟨head, leaf, docData, index, mphf, displacement, entries⟩ :=
    header.sectionOffsets_eq_iff.mp offsets
  rw [stop, entries, displacement, mphf, index, docData, leaf, head]
  simp only [sectionSizes, List.sum_cons, List.sum_nil]
  omega

/-- The layout is the running sum of the section sizes. -/
theorem layout_iff (header : IndexFileHeader) :
    header.Layout ↔ header.CountsFit ∧
      header.sectionOffsets = runningSums 0 header.sectionSizes ∧
      header.sectionSizes.sum < 2 ^ 64 := by
  constructor
  · intro layout
    have offsets := header.sectionOffsets_eq_iff.mpr ⟨layout.head, layout.leaf, layout.docData,
      layout.index, layout.mphfHeader, layout.displacement, layout.entries⟩
    refine ⟨header.countsFit_iff.mpr layout.counts, offsets, ?_⟩
    rw [← stop_eq_sum offsets]
    exact layout.bounded
  · rintro ⟨counts, offsets, bounded⟩
    obtain ⟨head, leaf, docData, index, mphf, displacement, entries⟩ :=
      header.sectionOffsets_eq_iff.mp offsets
    rw [← stop_eq_sum offsets] at bounded
    exact ⟨header.countsFit_iff.mp counts, head, leaf, docData, index, mphf, displacement, entries,
      bounded⟩

/-- The check accepts exactly the headers whose sections follow each other, end
within 64 bits and lie inside the file. -/
theorem validateLayout_iff (header : IndexFileHeader) (fileBytes : Nat) (last : UInt64) :
    header.validateLayout (some fileBytes) = .ok last ↔
      header.CountsFit ∧ header.sectionOffsets = runningSums 0 header.sectionSizes ∧
        header.sectionSizes.sum < 2 ^ 64 ∧ last.toNat = header.sectionSizes.sum ∧
        header.sectionSizes.sum ≤ fileBytes := by
  rw [validateLayout_eq_ok, layout_iff]
  constructor
  · rintro ⟨⟨counts, offsets, bounded⟩, total, inFile⟩
    rw [stop_eq_sum offsets] at total
    exact ⟨counts, offsets, bounded, total, by
      rw [← stop_eq_sum offsets]
      exact inFile fileBytes rfl⟩
  · rintro ⟨counts, offsets, bounded, total, inFile⟩
    rw [← stop_eq_sum offsets] at total inFile
    refine ⟨⟨counts, offsets, bounded⟩, total, ?_⟩
    intro bytes same
    rw [← Option.some.inj same]
    exact inFile

/-- Accepted sections do not overlap and lie inside the file. -/
theorem sections_of_validateLayout {header : IndexFileHeader} {fileBytes : Nat} {last : UInt64}
    (accepted : header.validateLayout (some fileBytes) = .ok last) :
    ((header.sectionOffsets.zip header.sectionSizes).Pairwise fun first second =>
        first.1 + first.2 ≤ second.1) ∧
      ∀ piece ∈ header.sectionOffsets.zip header.sectionSizes, piece.1 + piece.2 ≤ fileBytes := by
  obtain ⟨_, offsets, _, _, inFile⟩ := (header.validateLayout_iff fileBytes last).mp accepted
  rw [offsets]
  refine ⟨extents_disjoint 0 header.sectionSizes, ?_⟩
  intro piece member
  have inside := (extents_inside member).2
  omega

end IndexFileHeader

end MoonShot.Format
