import MoonShot.Context.BatchPostings
import MoonShot.Index.EntryFields

/-!
What the leaf entries of a merge keep of their values (`AddLeafTermEntry`).

Owns the offers of the loop of `Merge`, the states it reaches, what the leaf page
of a batch holds in them, and when every entry a turn writes stores its values
unchanged. Together with the entries of `BuildBlocks` these are all leaf entries
that are written.

Does not own the order in which the merge takes the terms.
-/

namespace MoonShot.Context

open MoonShot.Lib
open MoonShot.Postings
open MoonShot.Format
open MoonShot.Serializer
open MoonShot.Index

/-- The length byte of an entry that was read is the length of its term. -/
theorem leafEntry_lengthStored {page : Page} {index : Nat} {entry : LeafTermEntry}
    (read : leafEntry page index = some entry) : entry.LengthStored := by
  have constants : leafTermDataOffset = 322 ∧ leafDataSize = 3774 ∧ leafTermEntrySize = 16 ∧
      pageSize = 4096 := by
    decide
  unfold leafEntry at read
  split at read
  · cases read
  · dsimp only at read
    split at read
    · cases read
    · rename_i low
      split at read
      · cases read
      · split at read
        · cases read
        · rename_i high
          split at read
          · cases read
          · rename_i term decoded
            obtain rfl := Option.some.inj read
            show _ = term.bytes.length
            rw [Str.bytes_of_fromUtf8 decoded, slice_length_of_le]
            rw [page.size]
            omega

/-! ## The leaf page of a batch -/

namespace MergeBatch

/-- The leaf page holds the entries written to it. -/
structure LeafFilled (batch : MergeBatch) (entries : List LeafTermEntry) : Prop where
  holds : LeafHolds (batch.leafBlocks batch.leafBlockId) entries
  offset : batch.leafWriteOffset = entriesBytes entries
  count : batch.leafEntryCount = entries.length
  lengths : ∀ entry ∈ entries, entry.LengthStored

theorem leafFilled_reset (indexBlockBase : UInt32) : LeafFilled (reset indexBlockBase) [] :=
  ⟨leafHolds_nil _, rfl, rfl, fun _ member => absurd member List.not_mem_nil⟩

/-- A posting leaves the leaf page alone. -/
theorem Appended.leafFilled {batch next : MergeBatch} {source first : Bytes} {parts : List Bytes}
    (appended : Appended batch next source first parts) {entries : List LeafTermEntry}
    (filled : batch.LeafFilled entries) : next.LeafFilled entries := by
  obtain ⟨leafBlocks, leafBlockId, offset, count⟩ := appended.leaf
  refine ⟨?_, ?_, ?_, filled.lengths⟩
  · rw [leafBlocks, leafBlockId]
    exact filled.holds
  · rw [offset]
    exact filled.offset
  · rw [count]
    exact filled.count

/-- The page the entry goes to has room for it. -/
theorem LeafFilled.nextLeaf {batch : MergeBatch} {entries : List LeafTermEntry}
    (filled : batch.LeafFilled entries) {source : LeafTermEntry}
    (fits : source.byteLen ≤ leafDataSize) :
    ∃ before, (batch.nextLeaf source).LeafFilled before ∧
      entriesBytes before + source.byteLen ≤ leafDataSize ∧
      before.length < leafTermDirectoryCount - 1 := by
  have constants : leafTermDirectoryCount = 161 := rfl
  have offset := filled.offset
  have count := filled.count
  unfold MergeBatch.nextLeaf
  by_cases full : batch.leafFull source
  · rw [dif_pos full]
    refine ⟨[], ⟨leafHolds_nil _, rfl, rfl, by simp⟩, ?_, by rw [List.length_nil]; omega⟩
    rw [entriesBytes_nil, Nat.zero_add]
    exact fits
  · rw [dif_neg full]
    unfold leafFull at full
    refine ⟨entries, filled, ?_, by omega⟩
    cases entries with
    | nil =>
        rw [entriesBytes_nil, Nat.zero_add]
        exact fits
    | cons entry rest =>
        rw [List.length_cons] at count
        omega

/-- The entry `AddLeafTermEntry` makes. -/
def mergedEntry (batch : MergeBatch) (source : LeafTermEntry) : LeafTermEntry where
  term := source.term
  docFreq := batch.docFreq
  indexBlockId := batch.indexBlockBase + UInt32.ofNat batch.postingIndexBlockId
  indexOffset := UInt16.ofNat batch.postingIndexOffset
  indexLength := UInt16.ofNat batch.postingIndexLength
  continuationBlockCount := UInt16.ofNat batch.postingContinuationBlockCount
  flags := source.flags
  termLength := source.termLength

/-- `nextLeaf` keeps what the entry is made of. -/
theorem mergedEntry_nextLeaf (batch : MergeBatch) (source : LeafTermEntry) :
    (batch.nextLeaf source).mergedEntry source = batch.mergedEntry source := by
  unfold MergeBatch.nextLeaf
  split <;> rfl

/-- What `AddLeafTermEntry` can do with a term that fits the index: nothing to the
entries, or one more entry behind the last one of the page. -/
theorem addLeafTermEntry_cases {batch : MergeBatch} {entries : List LeafTermEntry}
    (filled : batch.LeafFilled entries) {source : LeafTermEntry} (lengths : source.LengthStored) :
    ∃ after, (batch.addLeafTermEntry source).1.LeafFilled after ∧
      ((batch.addLeafTermEntry source).2 = true → source.term.len ≤ headTermKeyMax →
        ∃ before, after = before ++ [batch.mergedEntry source] ∧
          (batch.nextLeaf source).leafWriteOffset = entriesBytes before ∧
          LeafPageOf ((batch.addLeafTermEntry source).1.leafBlocks
            (batch.addLeafTermEntry source).1.leafBlockId) after) := by
  unfold addLeafTermEntry
  by_cases long : source.term.len > headTermKeyMax
  · rw [if_pos long]
    exact ⟨entries, filled, fun _ short => absurd short (not_le.mpr long)⟩
  · rw [if_neg long]
    dsimp only
    by_cases refused : (batch.nextLeaf source).leafBlockId ≥ mergedBlockLimit ∨
        source.byteLen > leafDataSize
    · rw [dif_pos refused]
      have next : ∃ after, (batch.nextLeaf source).LeafFilled after := by
        unfold MergeBatch.nextLeaf
        by_cases full : batch.leafFull source
        · rw [dif_pos full]
          exact ⟨[], leafHolds_nil _, rfl, rfl, by simp⟩
        · rw [dif_neg full]
          exact ⟨entries, filled⟩
      obtain ⟨after, filledAfter⟩ := next
      exact ⟨after, filledAfter, fun added => absurd added (by simp)⟩
    · rw [dif_neg refused]
      obtain ⟨before, filledBefore, fits, slotFree⟩ :=
        filled.nextLeaf (not_lt.mp fun over_ => refused (Or.inr over_))
      have written := filledBefore.holds.append
        (show entriesBytes before + (batch.mergedEntry source).byteLen ≤ leafDataSize from fits)
        slotFree
      rw [← filledBefore.offset, ← filledBefore.count, ← batch.mergedEntry_nextLeaf source]
        at written
      have page : LeafPageOf ((Function.update (batch.nextLeaf source).leafBlocks
          (batch.nextLeaf source).leafBlockId (writeEntryCount (writeLeafEntry
            ((batch.nextLeaf source).leafBlocks (batch.nextLeaf source).leafBlockId)
            (batch.nextLeaf source).leafEntryCount (batch.nextLeaf source).leafWriteOffset
            ((batch.nextLeaf source).mergedEntry source))
            ((batch.nextLeaf source).leafEntryCount + 1))) (batch.nextLeaf source).leafBlockId)
          (before ++ [batch.mergedEntry source]) := by
        rw [Function.update_self]
        refine ⟨?_, ?_, ?_⟩
        · rw [← batch.mergedEntry_nextLeaf source]
          exact written.writeEntryCount _
        · have count := filledBefore.count
          rw [directoryAt_writeEntryCount _ (by omega), List.length_append, List.length_singleton,
            count]
        · intro entry member
          rcases List.mem_append.mp member with old | new
          · exact filledBefore.lengths entry old
          · rw [List.mem_singleton.mp new]
            exact lengths
      refine ⟨before ++ [batch.mergedEntry source], ⟨page.holds, ?_, ?_, page.lengths⟩, ?_⟩
      · rw [entriesBytes_append, entriesBytes_singleton, ← filledBefore.offset]
        rfl
      · rw [List.length_append, List.length_singleton, ← filledBefore.count]
      · intro _ _
        exact ⟨before, rfl, filledBefore.offset, page⟩

end MergeBatch

/-! ## The turns of a merge -/

namespace MergeState

/-- What a turn offers to the batch: the entry of the term, the frequency of the
postings as a number, the postings, and the call that adds them. -/
structure Offered where
  source : LeafTermEntry
  docFreq : Nat
  postings : Option Bytes
  addPostings : MergeBatch → MergeBatch × Bool

def offeredAlone (index : LocalIndex) (entry : LeafTermEntry) : Offered where
  source := entry
  docFreq := entry.docFreq.toNat
  postings := postingBytes index.table.indexBlocks entry
  addPostings := MergeBatch.addIndex index entry

def offeredPair (base delta : LocalIndex) (small big : LeafTermEntry) : Offered where
  source := small
  docFreq := small.docFreq.toNat + big.docFreq.toNat
  postings := (postingBytes base.table.indexBlocks small).bind fun smallBytes =>
    (postingBytes delta.table.indexBlocks big).map fun bigBytes => smallBytes ++ bigBytes
  addPostings := MergeBatch.addIndexPair base delta small big

/-- The term that stands first in both cursors, with the postings of those that
stand on it. -/
def offered (base delta : LocalIndex) (state : MergeState) : Option Offered :=
  match state.baseCursor.current, state.deltaCursor.current with
  | some baseEntry, some deltaEntry =>
      if state.deltaCursor.lessThan state.baseCursor then some (offeredAlone delta deltaEntry)
      else if state.baseCursor.lessThan state.deltaCursor then some (offeredAlone base baseEntry)
      else some (offeredPair base delta baseEntry deltaEntry)
  | some baseEntry, none => some (offeredAlone base baseEntry)
  | none, some deltaEntry => some (offeredAlone delta deltaEntry)
  | none, none => none

/-- A turn offers that term to the batch. -/
theorem offer_eq (base delta : LocalIndex) (state : MergeState) :
    (state.offer base delta).map Prod.fst =
      (state.offered base delta).map fun offered =>
        state.batch.addTerm offered.source offered.addPostings := by
  unfold offer offered
  dsimp only
  cases baseEq : state.baseCursor.current with
  | none =>
      cases deltaEq : state.deltaCursor.current with
      | none => rfl
      | some deltaEntry => rfl
  | some baseEntry =>
      cases deltaEq : state.deltaCursor.current with
      | none => rfl
      | some deltaEntry =>
          have order : ¬ (state.deltaCursor.lessThan state.baseCursor = true ∧
              state.baseCursor.lessThan state.deltaCursor = true) := by
            unfold LeafCursor.lessThan
            rw [decide_eq_true_eq, decide_eq_true_eq]
            exact fun both => lt_asymm both.1 both.2
          cases below : state.deltaCursor.lessThan state.baseCursor with
          | true =>
              cases above : state.baseCursor.lessThan state.deltaCursor with
              | true => exact absurd ⟨below, above⟩ order
              | false => rfl
          | false =>
              cases above : state.baseCursor.lessThan state.deltaCursor with
              | true => rfl
              | false => rfl

/-- The states the loop of `Merge` is in before and after its turns. -/
inductive Reached (base delta : LocalIndex) : MergeState → Prop
  | new : Reached base delta (MergeState.new base delta)
  | turn {state next : MergeState} (reached : Reached base delta state)
      (ok : state.turn base delta = .ok next) : Reached base delta next

end MergeState

/-- The entry a cursor stands on was read from a page. -/
def LeafCursor.Read (cursor : LeafCursor) : Prop := ∀ entry ∈ cursor.current, entry.LengthStored

theorem LeafCursor.read_goCurrent (index : LocalIndex) (turns leafBlockId entryIndex : Nat) :
    (goCurrent index turns leafBlockId entryIndex).Read := by
  induction turns generalizing leafBlockId entryIndex with
  | zero => exact fun _ member => absurd member (by simp [goCurrent])
  | succ turns inductionHypothesis =>
      rw [goCurrent]
      split
      · split
        · exact fun _ member => absurd member (by simp)
        · split
          · exact fun entry member => leafEntry_lengthStored member
          · exact inductionHypothesis _ _
      · exact fun _ member => absurd member (by simp)

theorem LeafCursor.Read.advance {cursor : LeafCursor} (read : cursor.Read) (index : LocalIndex) :
    (cursor.advance index).Read := by
  unfold LeafCursor.advance
  split
  · exact read
  · exact read_goCurrent index _ _ _

namespace MergeState

/-- In a reached state the cursors stand on entries that were read, and the leaf page
holds what was written to it. -/
structure Sound (state : MergeState) : Prop where
  base : state.baseCursor.Read
  delta : state.deltaCursor.Read
  leaf : ∃ entries, state.batch.LeafFilled entries

/-- What the calls of an offer do. -/
structure Offered.Lawful (offered : Offered) (batch : MergeBatch) : Prop where
  lengths : offered.source.LengthStored
  adds : offered.addPostings batch = (batch, false) ∨
    ∃ next bytes first parts, offered.addPostings batch = (next, true) ∧
      MergeBatch.Appended batch next bytes first parts ∧ offered.postings = some bytes ∧
      next.docFreq = UInt32.ofNat offered.docFreq

theorem lawful_alone (index : LocalIndex) {entry : LeafTermEntry} (lengths : entry.LengthStored)
    (batch : MergeBatch) : (offeredAlone index entry).Lawful batch := by
  refine ⟨lengths, ?_⟩
  rcases MergeBatch.addIndex_cases index entry batch with
    refused | ⟨next, bytes, first, parts, added, appended, read, docFreq⟩
  · exact Or.inl refused
  · refine Or.inr ⟨next, bytes, first, parts, added, appended, read, ?_⟩
    rw [docFreq]
    exact UInt32.ofNat_toNat.symm

theorem lawful_pair (base delta : LocalIndex) {small big : LeafTermEntry}
    (lengths : small.LengthStored) (batch : MergeBatch) :
    (offeredPair base delta small big).Lawful batch := by
  refine ⟨lengths, ?_⟩
  rcases MergeBatch.addIndexPair_cases base delta small big batch with
    refused | ⟨next, bytes, bigBytes, first, parts, added, appended, read, readBig, docFreq⟩
  · exact Or.inl refused
  · refine Or.inr ⟨next, bytes ++ bigBytes, first, parts, added, appended, ?_, ?_⟩
    · show (postingBytes base.table.indexBlocks small).bind _ = _
      rw [read, readBig]
      rfl
    · rw [docFreq]
      show _ = UInt32.ofNat (small.docFreq.toNat + big.docFreq.toNat)
      rw [UInt32.ofNat_add, UInt32.ofNat_toNat, UInt32.ofNat_toNat]

theorem Sound.lawful {base delta : LocalIndex} {state : MergeState} (sound : state.Sound)
    {offered : Offered} (found : state.offered base delta = some offered) :
    offered.Lawful state.batch := by
  have alone : ∀ (index : LocalIndex) (entry : LeafTermEntry), entry.LengthStored →
      some (offeredAlone index entry) = some offered → offered.Lawful state.batch := by
    intro index entry lengths same
    obtain rfl := Option.some.inj same
    exact lawful_alone index lengths state.batch
  unfold MergeState.offered at found
  split at found
  · rename_i baseEntry deltaEntry baseEq deltaEq
    split at found
    · exact alone delta deltaEntry (sound.delta deltaEntry deltaEq) found
    · split at found
      · exact alone base baseEntry (sound.base baseEntry baseEq) found
      · obtain rfl := Option.some.inj found
        exact lawful_pair base delta (sound.base baseEntry baseEq) state.batch
  · rename_i baseEntry baseEq _
    exact alone base baseEntry (sound.base baseEntry baseEq) found
  · rename_i deltaEntry _ deltaEq
    exact alone delta deltaEntry (sound.delta deltaEntry deltaEq) found
  · cases found

/-- A batch that was offered a term still holds its entries. -/
theorem Offered.Lawful.addTerm {offered : Offered} {batch : MergeBatch}
    (lawful : offered.Lawful batch) (filled : ∃ entries, batch.LeafFilled entries) :
    ∃ entries, (batch.addTerm offered.source offered.addPostings).1.LeafFilled entries := by
  obtain ⟨entries, filled⟩ := filled
  unfold MergeBatch.addTerm
  split
  · rcases lawful.adds with refused | ⟨next, bytes, first, parts, added, appended, _⟩
    · rw [refused]
      exact ⟨entries, filled⟩
    · rw [added]
      obtain ⟨after, filledAfter, _⟩ :=
        MergeBatch.addLeafTermEntry_cases (appended.leafFilled filled) lawful.lengths
      exact ⟨after, filledAfter⟩
  · exact ⟨entries, filled⟩

theorem Sound.turn {base delta : LocalIndex} {state next : MergeState} (sound : state.Sound)
    (ok : state.turn base delta = .ok next) : next.Sound := by
  have offers := offer_eq base delta state
  unfold MergeState.turn at ok
  cases offer : state.offer base delta with
  | none =>
      rw [offer] at ok
      cases ok
  | some outcome =>
      obtain ⟨⟨batch, took⟩, takeBase, takeDelta⟩ := outcome
      rw [offer] at offers ok
      obtain ⟨offered, found, made⟩ := Option.map_eq_some_iff.mp offers.symm
      have filled := (sound.lawful found).addTerm sound.leaf
      rw [made] at filled
      cases took with
      | true =>
          obtain rfl := Except.ok.inj ok
          refine ⟨?_, ?_, filled⟩
          · show LeafCursor.Read (if takeBase then _ else _)
            split
            · exact sound.base.advance base
            · exact sound.base
          · show LeafCursor.Read (if takeDelta then _ else _)
            split
            · exact sound.delta.advance delta
            · exact sound.delta
      | false =>
          obtain ⟨⟨dumped, files⟩, ran, rest⟩ := bind_ok.mp ok
          obtain rfl := Except.ok.inj rest
          refine ⟨sound.base, sound.delta, ?_⟩
          obtain ⟨⟨written, after⟩, dump, rest⟩ := bind_ok.mp ran
          obtain ⟨_, _, rest⟩ := bind_ok.mp rest
          obtain ⟨rfl, rfl⟩ := Prod.mk.inj (Except.ok.inj rest)
          unfold MergeFiles.dumpBatch at dump
          dsimp only at dump
          split at dump
          · obtain ⟨rfl, rfl⟩ := Prod.mk.inj (Except.ok.inj dump)
            exact filled
          · obtain ⟨_, _, rest⟩ := bind_ok.mp dump
            obtain ⟨rfl, rfl⟩ := Prod.mk.inj (Except.ok.inj rest)
            exact ⟨[], MergeBatch.leafFilled_reset _⟩

theorem Reached.sound {base delta : LocalIndex} {state : MergeState}
    (reached : Reached base delta state) : state.Sound := by
  induction reached with
  | new =>
      exact ⟨LeafCursor.read_goCurrent _ _ _ _, LeafCursor.read_goCurrent _ _ _ _, [],
        MergeBatch.leafFilled_reset 0⟩
  | turn reached ok inductionHypothesis => exact inductionHypothesis.turn ok

/-! ## What the written entries store -/

/-- The turn from this state writes an entry: the offer, and the batch when its
postings are in. -/
structure Writes (base delta : LocalIndex) (state : MergeState) (offered : Offered)
    (posted : MergeBatch) : Prop where
  offer : state.offered base delta = some offered
  postings : offered.addPostings state.batch = (posted, true)
  short : offered.source.term.len ≤ headTermKeyMax
  entry : (posted.addLeafTermEntry offered.source).2 = true

/-- The values `AddLeafTermEntry` has for the entry. -/
def writtenValues (offered : Offered) (posted : MergeBatch) : EntryValues where
  term := offered.source.term
  docFreq := offered.docFreq
  indexOffset := posted.postingIndexOffset
  indexLength := posted.postingIndexLength
  continuationBlockCount := posted.postingContinuationBlockCount
  directoryOffset := leafTermDataOffset + (posted.nextLeaf offered.source).leafWriteOffset

/-- Every entry a turn of the merge writes stores its values, which name segments
that hold the postings in full. -/
def MergesExactly (base delta : LocalIndex) : Prop :=
  ∀ state offered posted, Reached base delta state → Writes base delta state offered posted →
    let next := (posted.addLeafTermEntry offered.source).1
    StoresExactly (next.leafBlocks next.leafBlockId) (next.leafEntryCount - 1)
        (writtenValues offered posted) ∧
      offered.postings =
        some (posted.postingSegments.map (Segment.data posted.indexBlocks)).flatten

/-- The frequency of every term that is written fits 32 bits. -/
def FrequenciesFit (base delta : LocalIndex) : Prop :=
  ∀ state offered posted, Reached base delta state → Writes base delta state offered posted →
    offered.docFreq < 2 ^ 32

/-- One turn stores its values exactly when the frequency fits. -/
theorem Sound.writes_iff {base delta : LocalIndex} {state : MergeState} (sound : state.Sound)
    {offered : Offered} {posted : MergeBatch} (writes : Writes base delta state offered posted) :
    StoresExactly ((posted.addLeafTermEntry offered.source).1.leafBlocks
        (posted.addLeafTermEntry offered.source).1.leafBlockId)
        ((posted.addLeafTermEntry offered.source).1.leafEntryCount - 1)
        (writtenValues offered posted) ↔ offered.docFreq < 2 ^ 32 := by
  obtain ⟨entries, filled⟩ := sound.leaf
  have lawful := sound.lawful writes.offer
  rcases lawful.adds with refused | ⟨next, bytes, first, parts, added, appended, read, docFreq⟩
  · rw [writes.postings] at refused
    cases refused
  · obtain rfl : posted = next := by
      rw [writes.postings] at added
      exact (Prod.mk.inj added).1
    obtain ⟨after, filledAfter, wrote⟩ :=
      MergeBatch.addLeafTermEntry_cases (appended.leafFilled filled) lawful.lengths
    obtain ⟨before, rfl, offset, leaf⟩ := wrote writes.entry writes.short
    have slot : (posted.addLeafTermEntry offered.source).1.leafEntryCount - 1 = before.length := by
      rw [filledAfter.count, List.length_append, List.length_singleton, Nat.add_sub_cancel]
    have constants : pageSize = 4096 ∧ mergedBlockLimit = 32768 := by decide
    have fits := appended.fits
    have room := appended.room
    have length := appended.length
    have count := appended.count
    rw [slot, storesExactly_iff leaf List.getElem?_concat_length rfl
      (by rw [List.take_left]; exact congrArg (leafTermDataOffset + ·) offset)]
    constructor
    · rintro ⟨frequency, _⟩
      have bound := posted.docFreq.toNat_lt
      have same : posted.docFreq.toNat = offered.docFreq := frequency
      omega
    · intro small
      refine ⟨?_, ?_, ?_, ?_⟩
      · show posted.docFreq.toNat = offered.docFreq
        rw [docFreq, UInt32.toNat_ofNat', Nat.mod_eq_of_lt small]
      · show (UInt16.ofNat posted.postingIndexOffset).toNat = posted.postingIndexOffset
        rw [UInt16.toNat_ofNat', Nat.mod_eq_of_lt (by omega)]
      · show (UInt16.ofNat posted.postingIndexLength).toNat = posted.postingIndexLength
        rw [UInt16.toNat_ofNat', Nat.mod_eq_of_lt (by omega)]
      · show (UInt16.ofNat posted.postingContinuationBlockCount).toNat =
          posted.postingContinuationBlockCount
        rw [UInt16.toNat_ofNat', Nat.mod_eq_of_lt (by omega)]

theorem mergesExactly_iff (base delta : LocalIndex) :
    MergesExactly base delta ↔ FrequenciesFit base delta := by
  constructor
  · intro exact_ state offered posted reached writes
    exact (reached.sound.writes_iff writes).mp (exact_ state offered posted reached writes).1
  · intro fits state offered posted reached writes
    refine ⟨(reached.sound.writes_iff writes).mpr (fits state offered posted reached writes), ?_⟩
    rcases (reached.sound.lawful writes.offer).adds with
      refused | ⟨next, bytes, first, parts, added, appended, read, _⟩
    · rw [writes.postings] at refused
      cases refused
    · obtain rfl : posted = next := by
        rw [writes.postings] at added
        exact (Prod.mk.inj added).1
      rw [read, appended.segments_data]

end MergeState

/-- Leaf entries store their values and lists read back in full exactly when, for a
build, every list fits 65535 continuation pages, and for a merge, every frequency
that is written fits 32 bits. -/
theorem leaf_entries_exact_iff (float : FloatOps) :
    (∀ store, BuildsExactly float store ∧ ReadsInFull float store ↔ PagesFit float store) ∧
      ∀ base delta,
        MergeState.MergesExactly base delta ↔ MergeState.FrequenciesFit base delta := by
  refine ⟨?_, MergeState.mergesExactly_iff⟩
  intro store
  constructor
  · rintro ⟨exact_, _⟩
    exact (buildsExactly_iff float store).mp exact_
  · intro fits
    exact ⟨(buildsExactly_iff float store).mpr fits, fits.readsInFull⟩

end MoonShot.Context
