import MoonShot.Index.EntryFields
import MoonShot.Reader.Faults

/-!
Failing block reads on a built index.

Owns the table of an index whose reads fail while a reader is opened, and the
exact runs in which failures only cut the list of a key short.
-/

namespace MoonShot.Index

open MoonShot.Lib
open MoonShot.Postings
open MoonShot.Format
open MoonShot.Table
open MoonShot.Serializer
open MoonShot.Reader
open MoonShot.Reader.AdvancedIndexReader

/-- The table while some reads of its pages fail. -/
structure FailingTable (failing table : IndexBlockTable) : Prop where
  heads : failing.headTermEntries = table.headTermEntries
  mphf : failing.mphf = table.mphf
  leafBlocks : PartOf failing.leafBlocks table.leafBlocks
  indexBlocks : PartOf failing.indexBlocks table.indexBlocks

/-- A lookup with failing reads finds the term or does not. -/
theorem FailingTable.findTermData {failing table : IndexBlockTable}
    (fails : FailingTable failing table) (noMphf : table.hasTermMphf = false) (key : Str) :
    failing.findTermData key = none ∨ failing.findTermData key = table.findTermData key := by
  have noHash : failing.hasTermMphf = false := by
    unfold IndexBlockTable.hasTermMphf at noMphf ⊢
    rw [fails.mphf]
    exact noMphf
  unfold IndexBlockTable.findTermData
  rw [noMphf, noHash]
  simp only [Bool.false_eq_true, if_false]
  unfold IndexBlockTable.findTermDataHeadLeaf
  rw [fails.heads]
  dsimp only
  split
  · exact Or.inl rfl
  · split
    · exact Or.inl rfl
    · split
      · exact Or.inl rfl
      · rename_i entry _
        rcases fails.leafBlocks entry.leafTermBlockId.toNat with failed | got
        · rw [failed]
          exact Or.inl rfl
        · rw [got]
          exact Or.inr rfl

/-- A reader opened on a key of a built index while reads fail: unless `Open` skips the
first block of the list, it stands on the first posting or is at its end. -/
theorem openReader_failing {float : FloatOps} {store : PostingStore}
    (addressable : Addressable float store) {key : Str} {failing : IndexBlockTable}
    (fails : FailingTable failing (buildBlocks float store).table) {numDocuments : UInt64}
    (documents : numDocuments ≠ 0) :
    ∃ reader, openReader failing key numDocuments true = some reader ∧
      (¬ LosesFirstBlock failing key → Stage (buildBlocks float store).table.indexBlocks reader
        (keptPostings float store key.beforeNul)) ∧
      (LosesFirstBlock failing key →
        ¬ Shows reader (keptPostings float store key.beforeNul)) := by
  have ascending : AscendingIds (keptPostings float store key.beforeNul) :=
    keptPostings_ascending key.beforeNul
  have search := findTermDataHeadLeaf_emitted addressable.leafBlocks key.beforeNul
  rw [← findTermData_built] at search
  have lookup := fails.findTermData rfl key
  cases found : failing.findTermData key with
  | none =>
      obtain ⟨reader, opened, ended, none_, released⟩ := openReader_absent found numDocuments true
      have stage : Stage (buildBlocks float store).table.indexBlocks reader
          (keptPostings float store key.beforeNul) :=
        @Stage.stalled _ reader _ [] ((isEnd_iff reader).mp ended) released
          ⟨trivial, none_, reader.blockSeqNumber.toNat_lt⟩ (by simp)
      refine ⟨reader, opened, fun _ => stage, ?_⟩
      rintro ⟨location, located, _⟩
      rw [found] at located
      cases located
  | some location =>
      rw [found] at lookup
      have located := lookup.resolve_left (by simp)
      rw [← located] at search
      obtain ⟨item, rfl, listFound, short, _, placed⟩ := search
      obtain ⟨first, chunks, postings, nonempty, _, stored⟩ :=
        Emitted.listStored_counted placed addressable.indexBlocks
      have list : keptPostings float store key.beforeNul =
          first ++ (chunks.take (chunks.length % 65536)).flatten ++
            (chunks.drop (chunks.length % 65536)).flatten := by
        rw [keptPostings, if_pos short, listFound, List.append_assoc, ← List.flatten_append,
          List.take_append_drop]
        exact postings
      rw [list] at ascending ⊢
      exact openReader_faulty found fails.indexBlocks stored nonempty ascending documents

theorem OnlyTruncates.shows {calls : List FaultyCall} {reader : AdvancedIndexReader}
    {postings : List Posting} (only : OnlyTruncates calls reader postings) :
    Shows reader postings := by
  cases calls with
  | nil => exact only
  | cons call rest => exact only.1

/-- A reader opened on a key of a built index while reads fail, and its run: the
documents are cut short only, and the end is final, exactly when `Open` does not skip
the first block of the list and no call brings the reader back from its end. -/
theorem failures_truncate_iff (float : FloatOps) (store : PostingStore)
    (addressable : Addressable float store) (key : Str) {failing : IndexBlockTable}
    (fails : FailingTable failing (buildBlocks float store).table) {numDocuments : UInt64}
    (documents : numDocuments ≠ 0) {calls : List FaultyCall}
    (parts : ∀ call ∈ calls, PartOf call.blocks (buildBlocks float store).table.indexBlocks) :
    ∃ reader, openReader failing key numDocuments true = some reader ∧
      (OnlyTruncates calls reader (keptPostings float store key.beforeNul) ↔
        ¬ LosesFirstBlock failing key ∧ Careful calls reader) := by
  have ascending : AscendingIds (keptPostings float store key.beforeNul) :=
    keptPostings_ascending key.beforeNul
  obtain ⟨reader, opened, kept, lost⟩ := @openReader_failing _ _ addressable key _ fails _ documents
  refine ⟨reader, opened, ?_⟩
  by_cases loses : LosesFirstBlock failing key
  · refine iff_of_false (fun only => lost loses (OnlyTruncates.shows only)) ?_
    exact fun both => both.1 loses
  · rw [onlyTruncates_iff (kept loses) ascending parts]
    exact ⟨fun careful => ⟨loses, careful⟩, And.right⟩

/-! ## A list that loses its first block -/

/-- The table when it cannot read one of its blocks. -/
def loseBlock (table : IndexBlockTable) (lost : Nat) : IndexBlockTable :=
  { table with
    indexBlocks := fun blockId => if blockId = lost then none else table.indexBlocks blockId }

theorem loseBlock_fails (table : IndexBlockTable) (lost : Nat) :
    FailingTable (loseBlock table lost) table := by
  refine ⟨rfl, rfl, fun _ => Or.inr rfl, ?_⟩
  intro blockId
  unfold loseBlock
  dsimp only
  split
  · exact Or.inl rfl
  · exact Or.inr rfl

/-- `Open` skips the first block of a list that goes on in a second one. -/
theorem losesFirstBlock {table : IndexBlockTable} {key : Str} {location : IndexLocation}
    (found : table.findTermData key = some location) (first : location.indexBlockId.toNat = 0)
    (more : 0 < location.continuationBlockCount.toNat)
    (next : (table.indexBlocks (location.indexBlockId + 1).toNat).isSome) :
    LosesFirstBlock (loseBlock table 0) key := by
  have apart : (location.indexBlockId + 1).toNat ≠ 0 := by
    rw [UInt32.toNat_add, first]
    decide
  refine ⟨location, found, ?_, more, ?_⟩
  · rw [first]
    rfl
  · unfold loseBlock
    dsimp only
    rw [if_neg apart]
    exact next

theorem firstDocuments_ascending (count : Nat) (fits : count ≤ 2 ^ 64) :
    Ascending ((List.range count).map fun docId => ⟨UInt64.ofNat docId, 1⟩) := by
  rw [Ascending, List.pairwise_map]
  refine List.pairwise_lt_range.imp_of_mem ?_
  intro left right leftMember rightMember below
  have leftBound := List.mem_range.mp leftMember
  have rightBound := List.mem_range.mp rightMember
  rw [UInt64.lt_iff_toNat_lt, UInt64.toNat_ofNat', UInt64.toNat_ofNat',
    Nat.mod_eq_of_lt (by omega), Nat.mod_eq_of_lt (by omega)]
  exact below

/-- A list of the first `count` documents. -/
def firstDocuments (count : Nat) (fits : count ≤ 2 ^ 64) : PostingList where
  entries := (List.range count).map fun docId => ⟨UInt64.ofNat docId, 1⟩
  ascending := firstDocuments_ascending count fits

/-- A store with that list alone. -/
def oneList (count : Nat) (fits : count ≤ 2 ^ 64) : PostingStore :=
  { PostingStore.new with
    postings := ⟨[(shortTerm, firstDocuments count fits)], by simp⟩
    postingEntries := UInt64.ofNat count }

section OneList

variable {float : FloatOps} {count : Nat} {fits : count ≤ 2 ^ 64}

theorem oneList_found :
    (oneList count fits).getPostingList shortTerm = some (firstDocuments count fits) :=
  ((oneList count fits).postings.mem_entries_iff shortTerm _).mp List.mem_cons_self

theorem oneList_length : (firstDocuments count fits).entries.length = count := by
  rw [firstDocuments, List.length_map, List.length_range]

theorem oneList_bytes :
    2 * count ≤ ((firstDocuments count fits).getBytes float).length ∧
      ((firstDocuments count fits).getBytes float).length ≤ 11 * count := by
  have postings := (firstDocuments count fits).postings_length float
  have least := encodePostings_length_ge ((firstDocuments count fits).postings float)
  have most : ∀ postings : List Posting,
      (encodePostings postings).length ≤ 11 * postings.length := by
    intro postings
    induction postings with
    | nil => exact Nat.le_refl 0
    | cons posting rest inductionHypothesis =>
        have single := encodePosting_length_le posting
        rw [encodePostings_cons, List.length_append, List.length_cons]
        omega
  have top := most ((firstDocuments count fits).postings float)
  rw [oneList_length] at postings
  rw [postings] at least top
  exact ⟨least, top⟩

/-- An index of one short list has few pages. -/
theorem oneList_addressable (small : count < 2 ^ 16) : Addressable float (oneList count fits) := by
  have sorted : sortedTerms (oneList count fits) = [(shortTerm, firstDocuments count fits)] := rfl
  have bytes := @oneList_bytes float count fits
  have state : ∃ index leaf total, (sortedTerms (oneList count fits)).foldl (addTerm float) .new =
      ⟨index, leaf, total⟩ ∧ index.seq ≤ 11 * count + 3 ∧ leaf.leafBlocks.length = 0 := by
    rw [sorted, List.foldl_cons, List.foldl_nil]
    have short : ¬ shortTerm.len > headTermKeyMax := by decide
    unfold addTerm
    dsimp only
    rw [if_neg short]
    have few := BlockWriter.placePostings_seq BuildState.new.index
      ((firstDocuments count fits).getBytes float)
    have fresh : BuildState.new.index.seq = 0 := rfl
    split
    · exact ⟨_, _, _, rfl, Nat.zero_le _, rfl⟩
    · split
      · rename_i index placed
        rw [placed] at few
        exact ⟨_, _, _, rfl, by dsimp only at few ⊢; omega, rfl⟩
      · rename_i index placement placed
        rw [placed] at few
        exact ⟨_, _, _, rfl, by dsimp only at few ⊢; omega, rfl⟩
  obtain ⟨index, leaf, total, stateEq, few, none_⟩ := state
  constructor
  · show (BlockWriter.close
      ((sortedTerms (oneList count fits)).foldl (addTerm float) .new).index).length < 2 ^ 32
    rw [stateEq]
    unfold BlockWriter.close BlockWriter.flush
    unfold BlockWriter.seq at few
    dsimp only
    split
    · rw [List.length_append, List.length_singleton]
      omega
    · omega
  · show (LeafWriter.flush ((sortedTerms (oneList count fits)).foldl
      (addTerm float) .new).leaf).leafBlocks.length < 2 ^ 32
    rw [stateEq]
    unfold LeafWriter.flush
    split
    · rw [none_]
      decide
    · rw [List.length_append, List.length_singleton, none_]
      decide

/-- The list starts in the first block, and its continuation blocks are enough for its
bytes and no more than its postings. -/
theorem oneList_placement {placement : BlockWriter.Placement} (some_ : 0 < count)
    (placed : placementFor float (oneList count fits) shortTerm = some placement) :
    placement.blockId = 0 ∧ placement.continuationBlockCount ≤ count ∧
      2 * count ≤ (placement.continuationBlockCount + 1) * pageSize := by
  have short : shortTerm.len ≤ headTermKeyMax := by decide
  obtain ⟨atLeast, _⟩ := @oneList_bytes float count fits
  have pairs := (firstDocuments count fits).postings_length float
  rw [oneList_length] at pairs
  have kept : Kept float (shortTerm, firstDocuments count fits) := by
    refine ⟨short, List.ne_nil_of_length_pos ?_⟩
    show 0 < ((firstDocuments count fits).getBytes float).length
    omega
  have first_ : sortedTerms (oneList count fits) =
      [] ++ (shortTerm, firstDocuments count fits) :: [] := rfl
  have enough := bytes_le_packList (position_le float [])
    ((firstDocuments count fits).postings float)
  rw [placement_pages first_ kept placed]
  refine ⟨?_, ?_, atLeast.trans enough⟩
  · unfold placementFor at placed
    rw [oneList_found] at placed
    dsimp only at placed
    rw [if_neg (not_lt.mpr short), takeWhile_before_key first_] at placed
    exact BlockWriter.placePostings_new placed
  · exact (pack_le_length _ _).trans (by rw [pairSizes, List.length_map, pairs])

theorem oneList_continuations (small : count < 2 ^ 16) (some_ : 0 < count) :
    ContinuationsFit float (oneList count fits) shortTerm := by
  intro placement placed
  have few := (oneList_placement some_ placed).2.1
  omega

/-- The list of more than a page starts in the first block and goes on in the second. -/
theorem oneList_spills (small : count < 2 ^ 16) (long : pageSize ≤ count) :
    ∃ location,
      (buildBlocks float (oneList count fits)).table.findTermData shortTerm = some location ∧
      location.indexBlockId.toNat = 0 ∧ 0 < location.continuationBlockCount.toNat ∧
      ((buildBlocks float (oneList count fits)).table.indexBlocks
        location.indexBlockId.toNat).isSome ∧
      ((buildBlocks float (oneList count fits)).table.indexBlocks
        (location.indexBlockId + 1).toNat).isSome := by
  have addressable := @oneList_addressable float count fits small
  have nulFree : shortTerm.beforeNul = shortTerm := by decide
  have short : shortTerm.len ≤ headTermKeyMax := by decide
  have sizes : pageSize = 4096 := rfl
  have pairs := (firstDocuments count fits).postings_length float
  rw [oneList_length] at pairs
  have search := findTermDataHeadLeaf_emitted addressable.leafBlocks shortTerm
  rw [← nulFree, ← findTermData_built, nulFree] at search
  cases found : (buildBlocks float (oneList count fits)).table.findTermData shortTerm with
  | none =>
      rw [found] at search
      have empty : keptPostings float (oneList count fits) shortTerm = [] := search
      rw [keptPostings, if_pos short, oneList_found] at empty
      have none_ : ((firstDocuments count fits).postings float).length = 0 :=
        List.length_eq_zero_iff.mpr empty
      omega
  | some location =>
      rw [found] at search
      obtain ⟨item, rfl, _, _, placement, placed⟩ := search
      obtain ⟨blockId, few, enough⟩ := oneList_placement (by omega) placement
      rw [sizes] at enough long
      have seq : item.entry.location.indexBlockId.toNat = 0 := by
        show (UInt32.ofNat item.placement.blockId).toNat = 0
        rw [blockId]
        rfl
      obtain ⟨first, chunks, _, _, number, stored⟩ :=
        Emitted.listStored_counted placed addressable.indexBlocks
      have all : chunks.take (chunks.length % 65536) = chunks := by
        rw [Nat.mod_eq_of_lt (by omega), List.take_length]
      rw [all] at stored
      obtain ⟨chunk, rest, rfl⟩ := List.exists_cons_of_length_pos (show 0 < chunks.length by omega)
      obtain ⟨⟨page, present, _⟩, _⟩ := stored.chain
      obtain ⟨firstPage, firstPresent, _⟩ := stored.page
      refine ⟨_, rfl, seq, by rw [stored.count]; exact Nat.zero_lt_succ _,
        Option.isSome_iff_exists.mpr ⟨firstPage, firstPresent⟩, ?_⟩
      have next : (item.entry.location.indexBlockId + 1).toNat =
          item.entry.location.indexBlockId.toNat + 1 := by
        rw [UInt32.toNat_add, seq]
        rfl
      rw [next]
      exact Option.isSome_iff_exists.mpr ⟨page, present⟩

end OneList

/-- The index of 4096 documents, opened while all reads succeed. The block behind the first one
cannot be read when `GoUntil` asks for it, and neither when `GoNext` asks again. -/
theorem failures_truncate_lostContinuation :
    ∃ reader, openReader (buildBlocks default (oneList 4096 (by decide))).table shortTerm 1 true =
        some reader ∧
      OnlyTruncates [⟨.goUntil 4095, fun _ => none⟩, ⟨.goNext, fun _ => none⟩] reader
        (keptPostings default (oneList 4096 (by decide)) shortTerm.beforeNul) := by
  obtain ⟨location, found, _, _, first, _⟩ :=
    @oneList_spills default 4096 (by decide) (by decide) (by decide)
  have addressable := @oneList_addressable default 4096 (by decide) (by decide)
  have unread : ∀ call ∈ [(⟨.goUntil 4095, fun _ => none⟩ : FaultyCall), ⟨.goNext, fun _ => none⟩],
      call.blocks = fun _ => none := by
    simp
  obtain ⟨reader, opened, truncates⟩ := failures_truncate_iff default (oneList 4096 (by decide))
    addressable shortTerm ⟨rfl, rfl, fun _ => Or.inr rfl, fun _ => Or.inr rfl⟩
    (by decide : (1 : UInt64) ≠ 0) (fun call member blockId => Or.inl (by rw [unread call member]))
  refine ⟨reader, opened, truncates.mpr ⟨?_, careful_of_unread unread reader⟩⟩
  rintro ⟨other, otherFound, lost, _⟩
  obtain rfl := Option.some.inj (found.symm.trans otherFound)
  rw [lost] at first
  cases first

/-- When the first block of a list of 4096 documents is lost, `Open` shows a posting
that is not the first. -/
theorem first_block_skipped :
    ∃ reader, openReader (loseBlock (buildBlocks default (oneList 4096 (by decide))).table 0)
        shortTerm 1 true = some reader ∧
      ¬ OnlyTruncates [] reader
        (keptPostings default (oneList 4096 (by decide)) shortTerm) := by
  obtain ⟨location, found, first, more, _, next⟩ :=
    @oneList_spills default 4096 (by decide) (by decide) (by decide)
  have addressable := @oneList_addressable default 4096 (by decide) (by decide)
  have fails := loseBlock_fails (buildBlocks default (oneList 4096 (by decide))).table 0
  obtain ⟨reader, opened, _, lost⟩ :=
    @openReader_failing _ _ addressable shortTerm _ fails 1 (by decide)
  exact ⟨reader, opened, lost (losesFirstBlock found first more next)⟩

end MoonShot.Index
