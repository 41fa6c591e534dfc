import MoonShot.Context.Merge
import MoonShot.Context.Saved
import MoonShot.Format.Sections

/-!
The headers of written files.

Owns the theorem that `validate_layout` is exact and that the headers made by
`BuildIndexData` and `Merge` pass it against the files that are written with them.
-/

namespace MoonShot.Context

open MoonShot.Lib
open MoonShot.Postings
open MoonShot.Format
open MoonShot.Serializer
open MoonShot.Index

/-- `BuildIndexData` with the allocation of its records, which panics when they do
not fit a `Vec`. -/
def tryBuildIndexData (float : FloatOps) (store : PostingStore) (buildVectorIndex : Bool) :
    Option BuiltIndexData :=
  if RecordsAllocate store then some (buildIndexData float store buildVectorIndex) else none

/-- A header that describes its parts ends where their file ends. -/
theorem validates_exactly {parts : FileParts} (described : parts.Described) :
    ∃ last, parts.header.validateLayout (some parts.bytes.length) = .ok last ∧
      last.toNat = parts.bytes.length := by
  obtain ⟨last, validated⟩ := described.validates
  refine ⟨last, validated, ?_⟩
  rw [(IndexFileHeader.validateLayout_eq_ok.mp validated).2.1, described.length_bytes]

/-- `validate_layout` accepts a header, with the end of its last section, if and only
if its counts fit, its places are the running sums of its section sizes, the sum
fits 64 bits and the file is that long. Then the sections are disjoint and inside
the file. A header of this version is read back from its bytes. The headers of
`BuildIndexData` and `Merge`, with block counts of 32 bits, pass the check against
the files that `Save` and `Merge` write, and end where these end. -/
theorem header_validation_exact :
    (∀ (header : IndexFileHeader) (fileBytes : Nat) (last : UInt64),
      header.validateLayout (some fileBytes) = .ok last ↔
        header.CountsFit ∧ header.sectionOffsets = runningSums 0 header.sectionSizes ∧
          header.sectionSizes.sum < 2 ^ 64 ∧ last.toNat = header.sectionSizes.sum ∧
          header.sectionSizes.sum ≤ fileBytes) ∧
    (∀ (header : IndexFileHeader) (fileBytes : Nat) (last : UInt64),
      header.validateLayout (some fileBytes) = .ok last →
        ((header.sectionOffsets.zip header.sectionSizes).Pairwise fun first second =>
          first.1 + first.2 ≤ second.1) ∧
        ∀ piece ∈ header.sectionOffsets.zip header.sectionSizes,
          piece.1 + piece.2 ≤ fileBytes) ∧
    (∀ header : IndexFileHeader, header.Current →
      IndexFileHeader.parse header.toBytes = .ok header) ∧
    (∀ (float : FloatOps) (store : PostingStore) (buildVectorIndex : Bool) (data : BuiltIndexData),
      tryBuildIndexData float store buildVectorIndex = some data →
        data.memory.leafTermBlocks.length < 2 ^ 32 → data.memory.indexBlocks.length < 2 ^ 32 →
        ∃ bytes last, save data.header data.memory data.docData data.sidecar = .ok bytes ∧
          data.header.validateLayout (some bytes.length) = .ok last ∧
          last.toNat = bytes.length) ∧
    ∀ (float : FloatOps) (base delta : LocalIndex) (turns : Nat) (merged : FileParts),
      mergeIndexes float base delta turns = some (.ok merged) →
        merged.leafBlocks.length < 2 ^ 32 → merged.indexBlocks.length < 2 ^ 32 →
          ∃ last, merged.header.validateLayout (some merged.bytes.length) = .ok last ∧
            last.toNat = merged.bytes.length := by
  refine ⟨IndexFileHeader.validateLayout_iff,
    fun _ _ _ accepted => IndexFileHeader.sections_of_validateLayout accepted, ?_, ?_, ?_⟩
  · intro header current
    exact IndexFileHeader.parse_of_stored current (slice_all header.toBytes_length)
  · intro float store buildVectorIndex data built leafBound blockBound
    obtain ⟨allocate, same⟩ := Option.ite_none_right_eq_some.mp built
    obtain rfl := Option.some.inj same
    have described := builtParts_described ⟨blockBound, leafBound⟩ allocate
    obtain ⟨last, validated, total⟩ := validates_exactly described
    exact ⟨(builtParts float store).bytes, last, described.save_parts, validated, total⟩
  · intro float base delta turns merged ok leafBound blockBound
    exact validates_exactly (mergeIndexes_described ok leafBound blockBound)

/-- The index of one document with the body `a`. -/
def wordIndex (docId : UInt64) : LocalIndex :=
  let data := buildIndexData default (wordStore docId) false
  { LocalIndex.new false with
    table := data.memory.table
    leafTermBlockCount := data.memory.leafTermBlocks.length % 2 ^ 32
    header := data.header
    docData := data.docData
    sidecar := data.sidecar
    prefixes := data.prefixes
    built := true
    loadedFromDisk := true }

/-- The merge of two such indexes. -/
theorem wordIndex_merges : ∃ parts,
    mergeIndexes default (wordIndex 0) (wordIndex 1) 2 = some (.ok parts) ∧
      parts.leafBlocks.length < 2 ^ 32 ∧ parts.indexBlocks.length < 2 ^ 32 := by
  have ran : ((mergeIndexes default (wordIndex 0) (wordIndex 1) 2).elim false
      fun outcome => outcome.toOption.elim false fun parts =>
        decide (parts.leafBlocks.length < 2 ^ 32 ∧ parts.indexBlocks.length < 2 ^ 32)) = true := by
    decide +kernel
  cases made : mergeIndexes default (wordIndex 0) (wordIndex 1) 2 with
  | none =>
      rw [made] at ran
      cases ran
  | some outcome =>
      rw [made] at ran
      cases outcome with
      | error failure => cases ran
      | ok parts =>
          have bounds := of_decide_eq_true ran
          exact ⟨parts, rfl, bounds.1, bounds.2⟩

/-- The store of a document with the body `a`, and the merge of two indexes of such documents. -/
theorem header_validation_exact_words :
    (∃ data bytes last, tryBuildIndexData default (wordStore 0) false = some data ∧
      save data.header data.memory data.docData data.sidecar = .ok bytes ∧
      data.header.validateLayout (some bytes.length) = .ok last ∧
      last.toNat = data.header.sectionSizes.sum ∧
      IndexFileHeader.parse data.header.toBytes = .ok data.header) ∧
    ∃ merged last, mergeIndexes default (wordIndex 0) (wordIndex 1) 2 = some (.ok merged) ∧
      merged.header.validateLayout (some merged.bytes.length) = .ok last ∧
      ∀ piece ∈ merged.header.sectionOffsets.zip merged.header.sectionSizes,
        piece.1 + piece.2 ≤ merged.bytes.length := by
  obtain ⟨exactly, sections, roundTrip, built, merges⟩ := header_validation_exact
  constructor
  · obtain ⟨bytes, last, saved, validated, _⟩ :=
      built default (wordStore 0) false _ (if_pos (by decide +kernel))
        (by decide +kernel) (by decide +kernel)
    exact ⟨_, bytes, last, if_pos (by decide +kernel), saved, validated,
      ((exactly _ _ _).mp validated).2.2.2.1, roundTrip _ ⟨rfl, rfl⟩⟩
  · obtain ⟨merged, ran, leafBound, blockBound⟩ := wordIndex_merges
    obtain ⟨last, validated, _⟩ := merges _ _ _ _ merged ran leafBound blockBound
    exact ⟨merged, last, ran, validated, (sections _ _ _ validated).2⟩

end MoonShot.Context
