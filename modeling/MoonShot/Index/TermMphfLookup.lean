import MoonShot.Index.EntryFields
import MoonShot.Serializer.TermSlots

/-!
Lookup through the minimal perfect hash of an index.

Owns the records of the hash tables, the proof that every term finds its own, and
that installing the hash built from the leaf pages leaves the lookup of every indexed
key as it was.

Does not own lookups of other keys, which the hash may answer by a fingerprint that
happens to agree.
-/

namespace MoonShot.Index

open MoonShot.Lib
open MoonShot.Postings
open MoonShot.Format
open MoonShot.Table
open MoonShot.Serializer

/-! ## Records -/

/-- The bytes at a slot. -/
def mphfEntryAt (pages : List Page) (slot : Nat) : Option Bytes :=
  pages[slot * termMphfEntrySize / pageSize]?.map fun page =>
    slice page.data (slot * termMphfEntrySize % pageSize) termMphfEntrySize

theorem mphfEntryFields_length (fingerprintSeed : UInt64) (source : TermMphfBuildTerm) :
    (mphfEntryFields fingerprintSeed source).flatten.length = termMphfEntrySize := by
  simp [mphfEntryFields, termMphfEntrySize]

theorem mphfEntry_inside (slot : Nat) :
    slot * termMphfEntrySize % pageSize + termMphfEntrySize ≤ pageSize := by
  show slot * 32 % 4096 + 32 ≤ 4096
  omega

theorem mphfEntry_apart {slot other : Nat} (apart : other ≠ slot)
    (samePage : other * termMphfEntrySize / pageSize = slot * termMphfEntrySize / pageSize) :
    other * termMphfEntrySize % pageSize + termMphfEntrySize ≤
        slot * termMphfEntrySize % pageSize ∨
      slot * termMphfEntrySize % pageSize + termMphfEntrySize ≤
        other * termMphfEntrySize % pageSize := by
  change other * 32 / 4096 = slot * 32 / 4096 at samePage
  show other * 32 % 4096 + 32 ≤ slot * 32 % 4096 ∨ slot * 32 % 4096 + 32 ≤ other * 32 % 4096
  omega

theorem writeMphfEntry_ok {pages after : List Page} {slot : Nat} {entry : Bytes}
    (ran : writeMphfEntry pages slot entry = .ok after)
    (size : entry.length = termMphfEntrySize) :
    after.length = pages.length ∧ mphfEntryAt after slot = some entry ∧
      ∀ other, other ≠ slot → mphfEntryAt after other = mphfEntryAt pages other := by
  unfold writeMphfEntry at ran
  dsimp only at ran
  split at ran
  · cases ran
  · rename_i page found
    obtain rfl := Except.ok.inj ran
    have inside := (List.getElem?_eq_some_iff.mp found).1
    refine ⟨List.length_set, ?_, ?_⟩
    · unfold mphfEntryAt
      have read : slice (page.write (slot * termMphfEntrySize % pageSize) entry).data
          (slot * termMphfEntrySize % pageSize) entry.length = entry :=
        Page.slice_write_same (by rw [size]; exact mphfEntry_inside slot)
      rw [size] at read
      rw [List.getElem?_set_self inside, Option.map_some, read]
    · intro other apart
      unfold mphfEntryAt
      by_cases same : other * termMphfEntrySize / pageSize = slot * termMphfEntrySize / pageSize
      · have disjoint := mphfEntry_apart apart same
        rw [same, List.getElem?_set_self inside, found, Option.map_some, Option.map_some,
          Page.slice_write_of_disjoint (by rw [size]; exact disjoint)]
      · rw [List.getElem?_set_ne (Ne.symm same)]

/-- The loop stores the entry of every term at its slot. -/
theorem writeMphfEntries_ok {fingerprintSeed : UInt64} {slots : List Nat}
    {pairs : List (TermMphfBuildTerm × Nat)} {pages after : List Page} (distinct : slots.Nodup)
    (numbers : (pairs.map Prod.snd).Nodup)
    (ran : writeMphfEntries fingerprintSeed slots pairs pages = .ok (some after)) :
    after.length = pages.length ∧
      (∀ pair ∈ pairs, ∃ slot, slots[pair.2]? = some slot ∧
        mphfEntryAt after slot = some (mphfEntryFields fingerprintSeed pair.1).flatten) ∧
      ∀ slot, (∀ pair ∈ pairs, slots[pair.2]? ≠ some slot) →
        mphfEntryAt after slot = mphfEntryAt pages slot := by
  induction pairs generalizing pages with
  | nil =>
      obtain rfl := Option.some.inj (Except.ok.inj ran)
      exact ⟨rfl, by simp, fun _ _ => rfl⟩
  | cons pair rest inductionHypothesis =>
      obtain ⟨source, index⟩ := pair
      rw [List.map_cons, List.nodup_cons] at numbers
      rw [writeMphfEntries] at ran
      split at ran
      · cases ran
      · rename_i slot found
        split at ran
        · cases ran
        · cases written : writeMphfEntry pages slot
              (mphfEntryFields fingerprintSeed source).flatten with
          | error fault =>
              rw [written] at ran
              cases ran
          | ok next =>
              rw [written] at ran
              obtain ⟨count, here, kept⟩ :=
                writeMphfEntry_ok written (mphfEntryFields_length _ _)
              obtain ⟨restCount, restHere, restKept⟩ := inductionHypothesis numbers.2 ran
              have others : ∀ pair ∈ rest, slots[pair.2]? ≠ some slot := by
                intro pair member same
                have inside := (List.getElem?_eq_some_iff.mp found).1
                have equal := (List.getElem?_inj inside distinct).mp (found.trans same.symm)
                exact numbers.1 (List.mem_map.mpr ⟨pair, member, equal.symm⟩)
              refine ⟨restCount.trans count, ?_, ?_⟩
              · intro pair member
                rcases List.mem_cons.mp member with rfl | inside
                · exact ⟨slot, found, (restKept slot others).trans here⟩
                · exact restHere pair inside
              · intro other absent
                rw [restKept other fun pair member => absent pair (List.mem_cons_of_mem _ member)]
                apply kept
                rintro rfl
                exact absent (source, index) List.mem_cons_self found

/-- A record reads back as the location and the fingerprint of its term. -/
theorem mphfEntry_reads (fingerprintSeed : UInt64) (source : TermMphfBuildTerm) :
    let data := (mphfEntryFields fingerprintSeed source).flatten
    u64At data 24 = termFingerprint fingerprintSeed source.term ∧
      (⟨u32At data 0, u32At data 4, (u32At data 8).toNat, (u32At data 12).toNat,
        u32At data 16⟩ : IndexLocation) = source.location := by
  have word : ∀ index offset value,
      (mphfEntryFields fingerprintSeed source)[index]? = some (u32Bytes value) →
      ((mphfEntryFields fingerprintSeed source).take index).flatten.length = offset →
      u32At (mphfEntryFields fingerprintSeed source).flatten offset = value :=
    fun index offset value found starts =>
      u32At_eq (slice_field found starts (u32Bytes_length value))
  have docFreq := word 0 0 source.docFreq rfl (by simp [mphfEntryFields])
  have indexBlockId := word 1 4 source.indexBlockId rfl (by simp [mphfEntryFields])
  have indexOffset := word 2 8 source.indexOffset rfl (by simp [mphfEntryFields])
  have indexLength := word 3 12 source.indexLength rfl (by simp [mphfEntryFields])
  have continuations := word 4 16 source.continuationBlockCount rfl (by simp [mphfEntryFields])
  dsimp only
  constructor
  · exact u64At_eq (@slice_field _ 6 24 8 _ rfl (by simp [mphfEntryFields])
      (u64Bytes_length _))
  · rw [docFreq, indexBlockId, indexOffset, indexLength, continuations]
    rfl

/-! ## The hash of a list of terms -/

section Build

variable {terms : List TermMphfBuildTerm} {bucketSeed slotSeed fingerprintSeed : UInt64}

/-- What `TryBuildTermMphf` has made when it returns a hash. -/
structure Made (terms : List TermMphfBuildTerm) (bucketSeed slotSeed fingerprintSeed : UInt64)
    (result : TermMphfHeader × List Int × List Page) (bucketCount : UInt32)
    (state : TermMphfState) : Prop where
  header : result.1 = ⟨termMphfMagic, (UInt32.ofNat terms.length).toUInt64, bucketCount,
    UInt32.ofNat terms.length, bucketSeed, slotSeed, fingerprintSeed⟩
  displacements : result.2.1 = state.displacements
  some_ : UInt32.ofNat terms.length ≠ 0
  positive : 0 < bucketCount.toNat
  placed : placeTerms terms bucketSeed slotSeed bucketCount.toNat
    (UInt32.ofNat terms.length).toNat = .ok (some state)
  written : writeMphfEntries fingerprintSeed state.slots terms.zipIdx
    (List.replicate (((UInt32.ofNat terms.length).toNat + pageSize / termMphfEntrySize - 1) /
      (pageSize / termMphfEntrySize)) Page.zero) = .ok (some result.2.2)

theorem tryBuildTermMphf_made {result : TermMphfHeader × List Int × List Page}
    (ran : tryBuildTermMphf terms bucketSeed slotSeed fingerprintSeed = .ok (some result)) :
    ∃ bucketCount state,
      Made terms bucketSeed slotSeed fingerprintSeed result bucketCount state := by
  unfold tryBuildTermMphf at ran
  dsimp only at ran
  split at ran
  · cases ran
  · rename_i some_
    cases power : nextPowerOfTwo (max 1 (UInt32.ofNat terms.length / 2)) with
    | error fault =>
        rw [power] at ran
        cases ran
    | ok bucketCount =>
        rw [power, ok_bind] at ran
        split at ran
        · cases ran
        · cases placed : placeTerms terms bucketSeed slotSeed bucketCount.toNat
              (UInt32.ofNat terms.length).toNat with
          | error fault =>
              rw [placed] at ran
              cases ran
          | ok outcome =>
              rw [placed, ok_bind] at ran
              cases outcome with
              | none => cases ran
              | some state =>
                  dsimp only at ran
                  cases written : writeMphfEntries fingerprintSeed state.slots terms.zipIdx
                      (List.replicate (((UInt32.ofNat terms.length).toNat +
                        pageSize / termMphfEntrySize - 1) / (pageSize / termMphfEntrySize))
                        Page.zero) with
                  | error fault =>
                      rw [written] at ran
                      cases ran
                  | ok pages =>
                      rw [written, ok_bind] at ran
                      cases pages with
                      | none => cases ran
                      | some pages =>
                          obtain rfl := Option.some.inj (Except.ok.inj ran)
                          exact ⟨bucketCount, state, rfl, rfl, some_, nextPowerOfTwo_pos power,
                            placed, written⟩

variable {result : TermMphfHeader × List Int × List Page} {bucketCount : UInt32}
  {state : TermMphfState}

theorem Made.placement
    (made : Made terms bucketSeed slotSeed fingerprintSeed result bucketCount state) :
    Placed terms bucketSeed slotSeed bucketCount.toNat (UInt32.ofNat terms.length).toNat state
      {bucket | bucket < bucketCount.toNat} := placeTerms_placed made.placed

/-- The count of the terms is not cut, and their slots are a permutation. -/
theorem Made.slots
    (made : Made terms bucketSeed slotSeed fingerprintSeed result bucketCount state) :
    (UInt32.ofNat terms.length).toNat = terms.length ∧
      state.slots.Perm (List.range terms.length) := by
  apply made.placement.perm made.positive
  rw [UInt32.toNat_ofNat']
  exact Nat.mod_le _ _

theorem Made.sizes
    (made : Made terms bucketSeed slotSeed fingerprintSeed result bucketCount state) :
    0 < terms.length ∧ terms.length < 2 ^ 32 ∧ result.2.1.length = bucketCount.toNat ∧
      result.2.2.length = (terms.length + 127) / 128 := by
  obtain ⟨count, perm⟩ := made.slots
  have pages := (writeMphfEntries_ok (perm.nodup_iff.mpr List.nodup_range)
    (by rw [List.zipIdx_map_snd]; exact List.nodup_range') made.written).1
  rw [List.length_replicate, count] at pages
  refine ⟨?_, ?_, ?_, pages⟩
  · by_contra none_
    have empty : terms.length = 0 := by omega
    apply made.some_
    rw [empty]
    rfl
  · rw [← count]
    exact UInt32.toNat_lt _
  · rw [made.displacements]
    exact made.placement.bucketRoom

/-- `SetTermMphf` accepts the hash. -/
theorem Made.accepted
    (made : Made terms bucketSeed slotSeed fingerprintSeed result bucketCount state) :
    setTermMphf result.1 result.2.1 result.2.2 = ⟨result.1, result.2.1, result.2.2, true⟩ := by
  obtain ⟨some_, few, displacements, pages⟩ := made.sizes
  obtain ⟨count, _⟩ := made.slots
  have positive := made.positive
  have sizes : termMphfEntrySize = 32 ∧ pageSize = 4096 := ⟨rfl, rfl⟩
  have termCount : (UInt32.ofNat terms.length).toUInt64 ≠ 0 := by
    intro none_
    have value := congrArg UInt64.toNat none_
    rw [UInt32.toNat_toUInt64, count] at value
    exact Nat.ne_of_gt some_ value
  have bucketsSome : bucketCount ≠ 0 := by
    rintro rfl
    exact Nat.lt_irrefl 0 positive
  have displacementsSome : result.2.1 ≠ [] := by
    apply List.ne_nil_of_length_pos
    omega
  have pagesSome : result.2.2.isEmpty = false := by
    rw [List.isEmpty_eq_false_iff]
    apply List.ne_nil_of_length_pos
    omega
  unfold setTermMphf
  rw [made.header, if_neg, if_neg]
  · dsimp only
    rw [count, displacements, pages, sizes.1, sizes.2]
    simp only [ne_eq, not_true_eq_false, false_or, not_lt, gt_iff_lt]
    omega
  · simp only [termCount, bucketsSome, made.some_, displacementsSome, pagesSome, or_self,
      Bool.false_eq_true, not_false_eq_true]

/-- A table with the hash has it in use. -/
theorem Made.hasTermMphf
    (made : Made terms bucketSeed slotSeed fingerprintSeed result bucketCount state)
    {table : IndexBlockTable}
    (installed : table.mphf = setTermMphf result.1 result.2.1 result.2.2) :
    table.hasTermMphf = true := by
  obtain ⟨some_, few, displacements, pages⟩ := made.sizes
  obtain ⟨count, _⟩ := made.slots
  have positive := made.positive
  have entrySize : termMphfEntrySize = 32 := rfl
  have pageBytes : pageSize = 4096 := rfl
  have pageCount : (UInt32.ofNat result.2.2.length).toNat = result.2.2.length := by
    rw [UInt32.toNat_ofNat', pages]
    omega
  unfold IndexBlockTable.hasTermMphf
  rw [installed, made.accepted, made.header]
  dsimp only
  rw [displacements, UInt32.ofNat_toNat, pageCount, pages, count, entrySize, pageBytes]
  simp only [beq_self_eq_true, Bool.true_and, Bool.and_true, Bool.and_eq_true, decide_eq_true_eq,
    gt_iff_lt, ge_iff_le]
  refine ⟨⟨⟨?_, ?_⟩, ?_⟩, ?_⟩
  · rw [UInt64.lt_iff_toNat_lt, UInt32.toNat_toUInt64, count]
    exact some_
  · rw [UInt32.lt_iff_toNat_lt]
    exact positive
  · rw [UInt32.lt_iff_toNat_lt, count]
    exact some_
  · omega

/-- Every term finds its own record. -/
theorem Made.found
    (made : Made terms bucketSeed slotSeed fingerprintSeed result bucketCount state)
    {table : IndexBlockTable}
    (installed : table.mphf = setTermMphf result.1 result.2.1 result.2.2)
    (index : Fin terms.length) :
    table.findTermDataMphf (terms.get index).term.bytes = some (terms.get index).location := by
  obtain ⟨count, perm⟩ := made.slots
  obtain ⟨displacement, read, slot⟩ :=
    made.placement.reads index (bucketOf_lt made.positive _)
  obtain ⟨_, entries, _⟩ := writeMphfEntries_ok (perm.nodup_iff.mpr List.nodup_range)
    (by rw [List.zipIdx_map_snd]; exact List.nodup_range') made.written
  obtain ⟨other, otherSlot, entry⟩ := entries (terms.get index, index.val)
    (List.mem_zipIdx_iff_getElem?.mpr (List.getElem?_eq_getElem index.isLt))
  dsimp only at otherSlot entry
  rw [slot] at otherSlot
  obtain rfl := Option.some.inj otherSlot
  have inside : slotUnder slotSeed (UInt32.ofNat terms.length).toNat (terms.get index).term
      displacement < terms.length :=
    List.mem_range.mp (perm.mem_iff.mp (List.mem_of_getElem? slot))
  have below := inside.trans_eq count.symm
  obtain ⟨page, pageFound, data⟩ := Option.map_eq_some_iff.mp entry
  obtain ⟨fingerprint, location⟩ := mphfEntry_reads fingerprintSeed (terms.get index)
  unfold bucketOf at read
  unfold slotUnder mphfSlotFor at pageFound data below
  unfold IndexBlockTable.findTermDataMphf
  rw [made.hasTermMphf installed, if_neg (by decide), installed, made.accepted, made.header]
  dsimp only
  rw [made.displacements, read]
  dsimp only
  rw [if_neg (not_le.mpr below), pageFound]
  dsimp only
  rw [data, fingerprint]
  unfold termFingerprint
  dsimp only
  rw [if_pos rfl]
  exact congrArg some location

end Build

/-! ## The construction returns -/

theorem writeMphfEntries_returns {fingerprintSeed : UInt64} {slots : List Nat}
    {pairs : List (TermMphfBuildTerm × Nat)} {pages : List Page}
    (inside : ∀ pair ∈ pairs, ∃ slot, slots[pair.2]? = some slot ∧
      slot * termMphfEntrySize / pageSize < pages.length) :
    ∃ outcome, writeMphfEntries fingerprintSeed slots pairs pages = .ok outcome := by
  induction pairs generalizing pages with
  | nil => exact ⟨_, rfl⟩
  | cons pair rest inductionHypothesis =>
      obtain ⟨source, index⟩ := pair
      obtain ⟨slot, found, below⟩ := inside (source, index) List.mem_cons_self
      dsimp only at found
      rw [writeMphfEntries, found]
      dsimp only
      split
      · exact ⟨none, rfl⟩
      · have written : writeMphfEntry pages slot (mphfEntryFields fingerprintSeed source).flatten =
            .ok (pages.set (slot * termMphfEntrySize / pageSize)
              (pages[slot * termMphfEntrySize / pageSize].write
                (slot * termMphfEntrySize % pageSize)
                (mphfEntryFields fingerprintSeed source).flatten)) := by
          unfold writeMphfEntry
          dsimp only
          rw [List.getElem?_eq_getElem below]
        rw [written, ok_bind]
        apply inductionHypothesis
        intro pair member
        rw [List.length_set]
        exact inside pair (List.mem_cons_of_mem _ member)

/-- On fewer than 2^32 terms the construction does not fault. -/
theorem tryBuildTermMphf_returns {terms : List TermMphfBuildTerm}
    (few : terms.length < 2 ^ 32) (bucketSeed slotSeed fingerprintSeed : UInt64) :
    ∃ outcome, tryBuildTermMphf terms bucketSeed slotSeed fingerprintSeed = .ok outcome := by
  have count : (UInt32.ofNat terms.length).toNat = terms.length := by
    rw [UInt32.toNat_ofNat', Nat.mod_eq_of_lt few]
  have half : (max 1 (UInt32.ofNat terms.length / 2)).toNat ≤ 2 ^ 31 := by
    have halved : (UInt32.ofNat terms.length / 2).toNat = terms.length / 2 := by
      rw [UInt32.toNat_div, count]
      rfl
    show (if 1 ≤ UInt32.ofNat terms.length / 2 then UInt32.ofNat terms.length / 2
      else (1 : UInt32)).toNat ≤ 2 ^ 31
    split
    · rw [halved]
      omega
    · decide
  unfold tryBuildTermMphf
  dsimp only
  split
  · exact ⟨none, rfl⟩
  · obtain ⟨bucketCount, power⟩ := nextPowerOfTwo_returns half
    rw [power, ok_bind]
    split
    · exact ⟨none, rfl⟩
    · rw [count]
      obtain ⟨outcome, placed⟩ :=
        @placeTerms_returns terms bucketSeed slotSeed bucketCount.toNat
      rw [placed, ok_bind]
      cases outcome with
      | none => exact ⟨none, rfl⟩
      | some state =>
          obtain ⟨_, perm⟩ :=
            (placeTerms_placed placed).perm (nextPowerOfTwo_pos power) (Nat.le_refl _)
          have length : state.slots.length = terms.length := by
            rw [perm.length_eq, List.length_range]
          have inside : ∀ pair ∈ terms.zipIdx, ∃ slot, state.slots[pair.2]? = some slot ∧
              slot * termMphfEntrySize / pageSize <
                (List.replicate ((terms.length + pageSize / termMphfEntrySize - 1) /
                  (pageSize / termMphfEntrySize)) Page.zero).length := by
            intro pair member
            have key := (List.getElem?_eq_some_iff.mp
              (List.mem_zipIdx_iff_getElem?.mp member)).1
            have found := List.getElem?_eq_getElem (length.symm ▸ key)
            have below := List.mem_range.mp (perm.mem_iff.mp (List.mem_of_getElem? found))
            refine ⟨_, found, ?_⟩
            rw [List.length_replicate]
            show _ * 32 / 4096 < (terms.length + 127) / 128
            omega
          obtain ⟨pages, written⟩ :=
            @writeMphfEntries_returns fingerprintSeed state.slots terms.zipIdx _ inside
          dsimp only
          rw [written, ok_bind]
          cases pages with
          | none => exact ⟨none, rfl⟩
          | some pages => exact ⟨_, rfl⟩

theorem buildTermMphf_returns {terms : List TermMphfBuildTerm} (few : terms.length < 2 ^ 32) :
    ∃ result, buildTermMphf terms = .ok result := by
  have attempts : ∀ turns attempt,
      ∃ result, buildTermMphfFrom terms turns attempt = .ok result := by
    intro turns
    induction turns with
    | zero => exact fun _ => ⟨_, rfl⟩
    | succ turns inductionHypothesis =>
        intro attempt
        rw [buildTermMphfFrom]
        obtain ⟨outcome, tried⟩ := tryBuildTermMphf_returns few
          (0x9ae16a3b2f90404f + 0x9e3779b97f4a7c15 * attempt)
          (0xc3a5c85c97cb3127 ^^^ (0x9e3779b97f4a7c15 * (attempt + 1)))
          (0xb492b66fbe98f273 + 0x9e3779b97f4a7c15 * (attempt + 3))
        rw [tried, ok_bind]
        cases outcome with
        | none => exact inductionHypothesis _
        | some hash => exact ⟨_, rfl⟩
  unfold buildTermMphf
  split
  · exact ⟨_, rfl⟩
  · exact attempts 32 0

/-! ## The hash of an index -/

/-- The hash `BuildTermMphf` returns is empty or made from the terms. -/
theorem buildTermMphf_cases {terms : List TermMphfBuildTerm}
    {result : TermMphfHeader × List Int × List Page} (ran : buildTermMphf terms = .ok result) :
    result = (.default, [], []) ∨ ∃ bucketSeed slotSeed fingerprintSeed,
      tryBuildTermMphf terms bucketSeed slotSeed fingerprintSeed = .ok (some result) := by
  have attempts : ∀ turns attempt, buildTermMphfFrom terms turns attempt = .ok result →
      result = (.default, [], []) ∨ ∃ bucketSeed slotSeed fingerprintSeed,
        tryBuildTermMphf terms bucketSeed slotSeed fingerprintSeed = .ok (some result) := by
    intro turns
    induction turns with
    | zero =>
        intro attempt done
        exact Or.inl (Except.ok.inj done).symm
    | succ turns inductionHypothesis =>
        intro attempt done
        rw [buildTermMphfFrom] at done
        cases tried : tryBuildTermMphf terms (0x9ae16a3b2f90404f + 0x9e3779b97f4a7c15 * attempt)
            (0xc3a5c85c97cb3127 ^^^ (0x9e3779b97f4a7c15 * (attempt + 1)))
            (0xb492b66fbe98f273 + 0x9e3779b97f4a7c15 * (attempt + 3)) with
        | error fault =>
            rw [tried] at done
            cases done
        | ok outcome =>
            rw [tried, ok_bind] at done
            cases outcome with
            | none => exact inductionHypothesis _ done
            | some hash =>
                obtain rfl := Except.ok.inj done
                exact Or.inr ⟨_, _, _, tried⟩
  unfold buildTermMphf at ran
  split at ran
  · exact Or.inl (Except.ok.inj ran).symm
  · exact attempts 32 0 ran

/-- The entries of the leaf pages of an index. -/
def indexedEntries (float : FloatOps) (store : PostingStore) : List LeafTermEntry :=
  (buildBlocks float store).leafTermBlocks.flatMap leafEntries

theorem indexedEntries_eq {float : FloatOps} {store : PostingStore}
    {groups : List (List LeafTermEntry)}
    (written : LeafWriter.Of ((sortedTerms store).foldl (addTerm float) .new).leaf.flush
      groups []) : indexedEntries float store = groups.flatten := by
  have pages : (buildBlocks float store).leafTermBlocks.map leafEntries = groups := by
    apply List.ext_getElem?
    intro index
    rw [List.getElem?_map]
    cases found : groups[index]? with
    | some group =>
        obtain ⟨page, _, pageFound, leaf, _⟩ := written.finished index group found
        have block : (buildBlocks float store).leafTermBlocks[index]? = some page := pageFound
        rw [block, Option.map_some, leafEntries_eq leaf]
    | none =>
        have beyond : (buildBlocks float store).leafTermBlocks.length ≤ index := by
          have count : (buildBlocks float store).leafTermBlocks.length = groups.length :=
            written.blockCount
          rw [count]
          exact List.getElem?_eq_none_iff.mp found
        rw [List.getElem?_eq_none beyond]
        rfl
  rw [indexedEntries, List.flatMap, pages]

/-- The lookup of an indexed term in the built table. -/
theorem findTermData_indexed {float : FloatOps} {store : PostingStore}
    (leafBound : (buildBlocks float store).leafTermBlocks.length < 2 ^ 32) {entry : LeafTermEntry}
    (indexed : entry ∈ indexedEntries float store) (nulFree : entry.term.NulFree) :
    (buildBlocks float store).table.findTermData entry.term = some entry.location := by
  obtain ⟨groups, emitted, _, entries, written, ascending, fits⟩ := buildBlocks_groups float store
  have holds := buildBlocks_holdsGroups written ascending fits leafBound
  rw [indexedEntries_eq written] at indexed
  have search : groups.flatten.find? (fun other => decide (other.term = entry.term)) =
      some entry := by
    rw [List.find?_eq_some_iff_append]
    obtain ⟨before, after, split⟩ := List.append_of_mem indexed
    refine ⟨decide_eq_true rfl, before, after, split, ?_⟩
    intro other member
    rw [IndexBlockTable.AscendingTerms, split] at ascending
    have smaller := (List.pairwise_append.mp ascending).2.2 other member entry List.mem_cons_self
    rw [Bool.not_eq_true', decide_eq_false_iff_not]
    exact ne_of_lt smaller
  rw [findTermData_built, Str.beforeNul_of_nulFree nulFree, holds.findTermDataHeadLeaf_eq, search,
    Option.map_some]

theorem buildTermOf_location (entry : LeafTermEntry) :
    (buildTermOf entry).location = entry.location := by
  unfold TermMphfBuildTerm.location buildTermOf LeafTermEntry.location
  dsimp only
  rw [UInt16.toNat_toUInt32, UInt16.toNat_toUInt32]

/-- A list of terms for which the construction returns a hash: every term has a slot of
its own, `SetTermMphf` accepts the hash, and every term finds its own record. -/
structure Perfect (terms : List TermMphfBuildTerm) (bucketSeed slotSeed : UInt64)
    (result : TermMphfHeader × List Int × List Page) : Prop where
  slots : ∃ state, placeTerms terms bucketSeed slotSeed result.1.bucketCount.toNat terms.length =
    .ok (some state) ∧ state.slots.Perm (List.range terms.length)
  accepted : setTermMphf result.1 result.2.1 result.2.2 = ⟨result.1, result.2.1, result.2.2, true⟩
  found : ∀ table : IndexBlockTable, table.mphf = setTermMphf result.1 result.2.1 result.2.2 →
    table.hasTermMphf = true ∧ ∀ index : Fin terms.length,
      table.findTermDataMphf (terms.get index).term.bytes = some (terms.get index).location

/-- The table of an index after `SetTermMphf`. -/
def installedTable (float : FloatOps) (store : PostingStore)
    (result : TermMphfHeader × List Int × List Page) : IndexBlockTable :=
  { (buildBlocks float store).table with mphf := setTermMphf result.1 result.2.1 result.2.2 }

theorem Made.perfect {terms : List TermMphfBuildTerm}
    {bucketSeed slotSeed fingerprintSeed : UInt64}
    {result : TermMphfHeader × List Int × List Page} {bucketCount : UInt32}
    {state : TermMphfState}
    (made : Made terms bucketSeed slotSeed fingerprintSeed result bucketCount state) :
    Perfect terms bucketSeed slotSeed result := by
  obtain ⟨count, perm⟩ := made.slots
  refine ⟨⟨state, ?_, perm⟩, made.accepted, ?_⟩
  · rw [made.header]
    dsimp only
    rw [← made.placed, count]
  · intro table installed
    exact ⟨made.hasTermMphf installed, made.found installed⟩

/-- Installing the hash made from the leaf pages changes no lookup of an indexed key. -/
theorem installed_same {float : FloatOps} {store : PostingStore}
    (leafBound : (buildBlocks float store).leafTermBlocks.length < 2 ^ 32)
    {result : TermMphfHeader × List Int × List Page}
    (ran : buildTermMphfFromLeafBlocks (buildBlocks float store).leafTermBlocks = .ok result)
    {entry : LeafTermEntry} (indexed : entry ∈ indexedEntries float store)
    (nulFree : entry.term.NulFree) :
    (installedTable float store result).findTermData entry.term =
      (buildBlocks float store).table.findTermData entry.term := by
  have before := findTermData_indexed leafBound indexed nulFree
  rcases buildTermMphf_cases ran with rfl | ⟨bucketSeed, slotSeed, fingerprintSeed, tried⟩
  · rfl
  · obtain ⟨bucketCount, state, made⟩ := tryBuildTermMphf_made tried
    have member : buildTermOf entry ∈ (buildBlocks float store).leafTermBlocks.flatMap
        (fun block => (leafEntries block).map buildTermOf) := by
      rw [← List.map_flatMap]
      exact List.mem_map_of_mem indexed
    obtain ⟨index, termEq⟩ := List.mem_iff_get.mp member
    have installed : (installedTable float store result).mphf =
        setTermMphf result.1 result.2.1 result.2.2 := rfl
    have found := made.found installed index
    rw [termEq, buildTermOf_location] at found
    have hashed : (installedTable float store result).findTermDataMphf entry.term.bytes =
        some entry.location := found
    rw [before, IndexBlockTable.findTermData, made.hasTermMphf installed, if_pos rfl,
      Str.beforeNul_of_nulFree nulFree, hashed]

/-- The hash is perfect on the terms it is made from, and installing the hash of the
leaf pages, which is made for every index of 32-bit term numbers, changes no lookup of
an indexed key. -/
theorem term_mphf_correct :
    (∀ terms bucketSeed slotSeed fingerprintSeed result,
      tryBuildTermMphf terms bucketSeed slotSeed fingerprintSeed = .ok (some result) →
      Perfect terms bucketSeed slotSeed result) ∧
    ∀ (float : FloatOps) (store : PostingStore),
      ((indexedEntries float store).length < 2 ^ 32 →
        ∃ result, buildTermMphfFromLeafBlocks (buildBlocks float store).leafTermBlocks =
          .ok result) ∧
      ((buildBlocks float store).leafTermBlocks.length < 2 ^ 32 →
        ∀ result, buildTermMphfFromLeafBlocks (buildBlocks float store).leafTermBlocks =
          .ok result →
        ∀ entry ∈ indexedEntries float store, entry.term.NulFree →
          (installedTable float store result).findTermData entry.term =
            (buildBlocks float store).table.findTermData entry.term) := by
  refine ⟨?_, fun float store => ⟨?_, ?_⟩⟩
  · intro terms bucketSeed slotSeed fingerprintSeed result ran
    obtain ⟨bucketCount, state, made⟩ := tryBuildTermMphf_made ran
    exact made.perfect
  · intro few
    apply buildTermMphf_returns
    rw [← List.map_flatMap, List.length_map]
    exact few
  · intro leafBound result ran entry indexed nulFree
    exact installed_same leafBound ran indexed nulFree

/-- Three terms, which share a bucket. -/
def threeTerms : List TermMphfBuildTerm :=
  [⟨⟨[0x61], validUtf8_a⟩, 1, 2, 3, 4, 5, 0⟩, ⟨⟨[0x62], validUtf8_b⟩, 6, 7, 8, 9, 10, 0⟩,
    ⟨⟨[0x63], rfl⟩, 11, 12, 13, 14, 15, 0⟩]

theorem threeTerms_perfect :
    ∃ result, tryBuildTermMphf threeTerms 1 2 3 = .ok (some result) ∧
      Perfect threeTerms 1 2 result := by
  have some_ : (tryBuildTermMphf threeTerms 1 2 3).toOption.join.isSome = true := by
    decide +kernel
  cases ran : tryBuildTermMphf threeTerms 1 2 3 with
  | error fault =>
      rw [ran] at some_
      cases some_
  | ok outcome =>
      rw [ran] at some_
      obtain ⟨result, rfl⟩ := Option.isSome_iff_exists.mp some_
      exact ⟨result, rfl, term_mphf_correct.1 threeTerms 1 2 3 result ran⟩

end MoonShot.Index
