import MoonShot.Reader.Advanced
import MoonShot.Serializer.BuildBlocks

/-!
Reading what was built: `BuildBlocks`, `SetBlockMemory`, `SetHeadTermEntries`,
then `AdvancedIndexReader::Open` and a walk.

Owns the list a key denotes in a built index and the theorem that opening any
key stands a reader on exactly that list. `FindTermData` cuts keys at their
first NUL byte, so a key with one denotes the list of its front part.
-/

namespace MoonShot.Index

open MoonShot.Lib
open MoonShot.Postings
open MoonShot.Format
open MoonShot.Table
open MoonShot.Serializer
open MoonShot.Reader

/-- The index pages a store needs have 32-bit numbers. -/
structure Addressable (float : FloatOps) (store : PostingStore) : Prop where
  indexBlocks : (buildBlocks float store).indexBlocks.length < 2 ^ 32
  leafBlocks : (buildBlocks float store).leafTermBlocks.length < 2 ^ 32

/-- The list of the key needs at most 65535 continuation blocks. -/
def ContinuationsFit (float : FloatOps) (store : PostingStore) (key : Str) : Prop :=
  ∀ placement ∈ placementFor float store key, placement.continuationBlockCount ≤ 65535

instance (float : FloatOps) (store : PostingStore) (key : Str) :
    Decidable (ContinuationsFit float store key) :=
  inferInstanceAs (Decidable (∀ placement ∈ placementFor float store key, _))

/-- The postings an index built from the store keeps for a term. -/
def keptPostings (float : FloatOps) (store : PostingStore) (term : Str) : List Posting :=
  if term.len ≤ headTermKeyMax then
    match store.getPostingList term with
    | some list => list.postings float
    | none => []
  else []

section Built

variable {float : FloatOps} {store : PostingStore}

theorem takeWhile_before_key {before after : List (Str × PostingList)} {key : Str}
    {list : PostingList} (split : sortedTerms store = before ++ (key, list) :: after) :
    ((sortedTerms store).takeWhile fun term => term.1 ≠ key) = before := by
  have ascending := sortedTerms_ascending store
  rw [split] at ascending ⊢
  have others : ∀ term ∈ before, term.1 ≠ key := by
    intro term member
    exact ((List.pairwise_append.mp ascending).2.2 term member (key, list)
      List.mem_cons_self).ne
  rw [List.takeWhile_append_of_pos (by simpa using others), List.takeWhile_cons_of_neg (by simp),
    List.append_nil]

/-- A term the loop placed is a kept list of the store. -/
theorem emitted_kept {emitted : List Emitted}
    (built : Built float (sortedTerms store) ((sortedTerms store).foldl (addTerm float) .new)
      emitted) (term : Str) (list : PostingList) :
    (term, list) ∈ emitted.map (fun item => (item.term, item.list)) ↔
      store.getPostingList term = some list ∧ Kept float (term, list) := by
  rw [built.terms, List.mem_filter, mem_sortedTerms, decide_eq_true_eq]

/-- The placement of an emitted term is the one the build gives its key. -/
theorem placementFor_emitted {emitted : List Emitted}
    (built : Built float (sortedTerms store) ((sortedTerms store).foldl (addTerm float) .new)
      emitted) {item : Emitted} (member : item ∈ emitted) :
    placementFor float store item.term = some item.placement := by
  obtain ⟨found, kept⟩ := (emitted_kept built item.term item.list).mp (List.mem_map_of_mem member)
  obtain ⟨before, after, split, placedAt⟩ := built.position item member
  unfold placementFor
  rw [found]
  dsimp only
  rw [if_neg (not_lt.mpr kept.1), takeWhile_before_key split]
  exact placedAt

/-- What the head and leaf search returns for a term of the built table: the entry of
the list that the loop placed for it. -/
theorem findTermDataHeadLeaf_emitted
    (leafBound : (buildBlocks float store).leafTermBlocks.length < 2 ^ 32) (term : Str) :
    match (buildBlocks float store).table.findTermDataHeadLeaf term with
    | none => keptPostings float store term = []
    | some location =>
        ∃ item : Emitted, location = item.entry.location ∧
          store.getPostingList term = some item.list ∧ term.len ≤ headTermKeyMax ∧
          placementFor float store term = some item.placement ∧
          item.Placed float ((sortedTerms store).foldl (addTerm float) .new).index := by
  obtain ⟨groups, emitted, built, entries, holds⟩ := buildBlocks_holds float store leafBound
  have memberIff := emitted_kept built term
  rw [holds.findTermDataHeadLeaf_eq, entries, List.find?_map]
  cases search : emitted.find? ((fun entry => decide (entry.term = term)) ∘ Emitted.entry) with
  | none =>
      show keptPostings float store term = []
      have absent : ∀ item ∈ emitted, item.term ≠ term := by
        intro item member same
        exact List.find?_eq_none.mp search item member (decide_eq_true same)
      unfold keptPostings
      by_cases short : term.len ≤ headTermKeyMax
      · rw [if_pos short]
        cases found : store.getPostingList term with
        | none => rfl
        | some list =>
            by_contra nonempty
            have kept : Kept float (term, list) := by
              refine ⟨short, ?_⟩
              rw [PostingList.getBytes, Ne, encodePostings_eq_nil_iff]
              exact nonempty
            obtain ⟨item, member, same⟩ := List.mem_map.mp ((memberIff list).mpr ⟨found, kept⟩)
            exact absent item member (congrArg Prod.fst same)
      · rw [if_neg short]
  | some item =>
      have member := List.mem_of_find?_eq_some search
      have tested := List.find?_some search
      have termEq : item.term = term := of_decide_eq_true tested
      have pair : (term, item.list) ∈ emitted.map (fun item => (item.term, item.list)) := by
        rw [← termEq]
        exact List.mem_map_of_mem member
      obtain ⟨found, kept⟩ := (memberIff item.list).mp pair
      have placement : placementFor float store term = some item.placement := by
        rw [← termEq]
        exact placementFor_emitted built member
      exact ⟨item, rfl, found, kept.1, placement, built.placed item member⟩

/-- The list of a term of the built table, when its continuation pages can be counted. -/
theorem findTermDataHeadLeaf_built (addressable : Addressable float store) (term : Str)
    (fits : ContinuationsFit float store term) :
    match (buildBlocks float store).table.findTermDataHeadLeaf term with
    | none => keptPostings float store term = []
    | some location =>
        ∃ list first chunks, store.getPostingList term = some list ∧
          term.len ≤ headTermKeyMax ∧ list.postings float = first ++ chunks.flatten ∧
          location.docFreq.toNat = list.entries.length ∧
          ListStored (buildBlocks float store).table.indexBlocks location first chunks := by
  have search := findTermDataHeadLeaf_emitted addressable.leafBlocks term
  cases located : (buildBlocks float store).table.findTermDataHeadLeaf term with
  | none =>
      rw [located] at search
      exact search
  | some location =>
      rw [located] at search
      obtain ⟨item, rfl, found, short, placement, placed⟩ := search
      obtain ⟨first, chunks, postings, stored, chunkCount⟩ :=
        Emitted.listStored placed addressable.indexBlocks (fits item.placement placement)
      refine ⟨item.list, first, chunks, found, short, postings, ?_, stored⟩
      have length := item.list.postings_length float
      have bytes := encodePostings_length_ge (item.list.postings float)
      have firstBytes := stored.inside
      have firstLength := stored.length
      have chainBytes := stored.chain.length_le
      have sizes : pageSize = 4096 := rfl
      rw [sizes] at chainBytes
      rw [length, postings, encodePostings_append, List.length_append] at bytes
      show (UInt32.ofNat item.list.entries.length).toNat = _
      rw [UInt32.toNat_ofNat']
      omega

theorem findTermData_built (key : Str) :
    (buildBlocks float store).table.findTermData key =
      (buildBlocks float store).table.findTermDataHeadLeaf key.beforeNul := by
  have none_ : (buildBlocks float store).table.hasTermMphf = false := rfl
  rw [IndexBlockTable.findTermData, none_]
  rfl

/-- Opening any key of a built index stands the reader on the list of the part
of the key before its first NUL byte. -/
theorem openReader_built (addressable : Addressable float store) (key : Str)
    (fits : ContinuationsFit float store key.beforeNul) {numDocuments : UInt64}
    (documents : numDocuments ≠ 0) :
    ∃ reader,
      AdvancedIndexReader.openReader (buildBlocks float store).table key numDocuments true =
        some reader ∧
      AdvancedIndexReader.ReaderAt (buildBlocks float store).table.indexBlocks reader
        (keptPostings float store key.beforeNul) := by
  have search := findTermDataHeadLeaf_built addressable key.beforeNul fits
  cases found : (buildBlocks float store).table.findTermDataHeadLeaf key.beforeNul with
  | none =>
      rw [found] at search
      rw [search]
      exact AdvancedIndexReader.openReader_absent (by rw [findTermData_built, found]) _ _
  | some location =>
      rw [found] at search
      obtain ⟨list, first, chunks, listFound, short, postings, _, stored⟩ := search
      have kept : keptPostings float store key.beforeNul = first ++ chunks.flatten := by
        rw [keptPostings, if_pos short, listFound]
        exact postings
      rw [kept]
      exact AdvancedIndexReader.openReader_stored (by rw [findTermData_built, found]) stored
        documents

theorem keptPostings_ascending (term : Str) : AscendingIds (keptPostings float store term) := by
  unfold keptPostings
  split
  · split
    · exact PostingList.postings_ascending float _
    · exact List.Pairwise.nil
  · exact List.Pairwise.nil

end Built

/-! ## Build, then read -/

/-- For every key without a NUL byte: a key of the store that fits the leaf
table yields exactly its list, and any other key is at its end at once. -/
theorem build_then_read (float : FloatOps) (calls : List (Str × UInt64 × UInt32))
    (addressable : Addressable float (PostingStore.addPostings calls)) (numDocuments : UInt64)
    (documents : numDocuments ≠ 0) (key : Str) (nulFree : key.NulFree) :
    (∀ list, (PostingStore.addPostings calls).getPostingList key = some list →
      key.len ≤ headTermKeyMax → ContinuationsFit float (PostingStore.addPostings calls) key →
      ∃ location reader,
        (buildBlocks float (PostingStore.addPostings calls)).table.findTermData key =
          some location ∧
        location.docFreq.toNat = list.entries.length ∧
        AdvancedIndexReader.openReader (buildBlocks float (PostingStore.addPostings calls)).table
          key numDocuments true = some reader ∧
        AdvancedIndexReader.Yields
          (buildBlocks float (PostingStore.addPostings calls)).table.indexBlocks reader
          (list.postings float) ∧
        AscendingIds (list.postings float)) ∧
    ((PostingStore.addPostings calls).getPostingList key = none ∨ headTermKeyMax < key.len →
      ∃ reader,
        AdvancedIndexReader.openReader (buildBlocks float (PostingStore.addPostings calls)).table
          key numDocuments true = some reader ∧
        reader.isEnd = true) := by
  have sameKey := Str.beforeNul_of_nulFree nulFree
  constructor
  · intro list found short fits
    have search := findTermDataHeadLeaf_built addressable key fits
    have lookup : (buildBlocks float (PostingStore.addPostings calls)).table.findTermData key =
        _ := findTermData_built key
    have kept : keptPostings float (PostingStore.addPostings calls) key = list.postings float := by
      rw [keptPostings, if_pos short, found]
    obtain ⟨reader, opened, stands⟩ := openReader_built addressable key
      (by rw [sameKey]; exact fits) documents
    rw [sameKey, kept] at stands
    rw [sameKey] at lookup
    cases located : (buildBlocks float
        (PostingStore.addPostings calls)).table.findTermDataHeadLeaf key with
    | none =>
        rw [located, kept] at search
        have nonempty := PostingStore.addPostings_nonempty calls found
        have := list.postings_length float
        rw [search] at this
        exact absurd (List.length_eq_zero_iff.mp this.symm) nonempty
    | some location =>
        rw [located] at search
        obtain ⟨other, _, _, otherFound, _, _, docFreq, _⟩ := search
        obtain rfl : list = other := by
          rw [found] at otherFound
          exact Option.some.inj otherFound
        exact ⟨location, reader, by rw [lookup, located], docFreq, opened, stands.yields,
          list.postings_ascending float⟩
  · intro missing
    have fits : ContinuationsFit float (PostingStore.addPostings calls) key.beforeNul := by
      rw [sameKey]
      rcases missing with absent | long
      · simp [ContinuationsFit, placementFor, absent]
      · intro placement member
        unfold placementFor at member
        split at member
        · cases member
        · rw [if_pos long] at member
          cases member
    obtain ⟨reader, opened, stands⟩ := openReader_built addressable key fits documents
    have nothing : keptPostings float (PostingStore.addPostings calls) key.beforeNul = [] := by
      rw [sameKey, keptPostings]
      rcases missing with absent | long
      · rw [absent]
        split <;> rfl
      · rw [if_neg (not_le.mpr long)]
    rw [nothing] at stands
    exact ⟨reader, opened, stands.1⟩

/-- The key `aB` in the documents 2, 5 and 300, added out of order, and the key `bB` in one. -/
def twoKeys : List (Str × UInt64 × UInt32) :=
  [(⟨[0x61, 0x42], rfl⟩, 300, 1), (⟨[0x62, 0x42], rfl⟩, 5, 1), (⟨[0x61, 0x42], rfl⟩, 2, 1),
    (⟨[0x61, 0x42], rfl⟩, 5, 1)]

theorem build_then_read_twoKeys :
    ∃ location reader,
      (buildBlocks default (PostingStore.addPostings twoKeys)).table.findTermData
        ⟨[0x61, 0x42], rfl⟩ = some location ∧
      location.docFreq.toNat = 3 ∧
      AdvancedIndexReader.openReader (buildBlocks default
        (PostingStore.addPostings twoKeys)).table ⟨[0x61, 0x42], rfl⟩ 300 true = some reader ∧
      AdvancedIndexReader.Yields
        (buildBlocks default (PostingStore.addPostings twoKeys)).table.indexBlocks reader
        [⟨2, 1⟩, ⟨5, 1⟩, ⟨300, 1⟩] ∧
      AscendingIds [⟨2, 1⟩, ⟨5, 1⟩, ⟨300, 1⟩] :=
  (build_then_read default twoKeys ⟨by decide +kernel, by decide +kernel⟩ 300 (by decide)
    ⟨[0x61, 0x42], rfl⟩ (by decide +kernel)).1
    ⟨[⟨2, 1⟩, ⟨5, 1⟩, ⟨300, 1⟩], by unfold Ascending; decide⟩ (by rfl) (by decide)
    (by decide +kernel)

/-- The key `aB` with one posting. -/
def oneCall : List (Str × UInt64 × UInt32) := [(⟨[0x61, 0x42], rfl⟩, 1, 1)]

/-- A key that continues `aB` after a NUL byte is not in the store, but it is
looked up as `aB`: its reader does not start at its end. -/
theorem nul_key_reads_front :
    (PostingStore.addPostings oneCall).getPostingList ⟨[0x61, 0x42, 0x00], rfl⟩ = none ∧
    ((AdvancedIndexReader.openReader (buildBlocks default
      (PostingStore.addPostings oneCall)).table ⟨[0x61, 0x42, 0x00], rfl⟩ 1 true).map
        AdvancedIndexReader.isEnd) = some false := by
  refine ⟨by decide +kernel, by decide +kernel⟩

end MoonShot.Index
