import MoonShot.Context.Merge

/-!
The posting pages of a merge batch as an append-only log (`AddIndexBytes`).

Owns the segments a posting is stored in, the calls that fill a batch, the
segments committed by a run of them, and the effect of one more posting: either
nothing has changed, or the posting stands in new segments behind all committed
ones, which keep their bytes.

Does not own what the leaf pages of the batch say.
-/

namespace MoonShot.Context

open MoonShot.Lib
open MoonShot.Format

/-! ## Splitting -/

private theorem splitLoop_le {data : Bytes} {limit turns cursor lastPairEnd : Nat}
    (inside : lastPairEnd ≤ limit) : splitLoop data limit turns cursor lastPairEnd ≤ limit := by
  induction turns generalizing cursor lastPairEnd with
  | zero => exact inside
  | succ turns inductionHypothesis =>
      rw [splitLoop]
      split
      · split
        · exact inside
        · split
          · exact inside
          · exact inductionHypothesis (by omega)
      · exact inside

/-- A split is at most the capacity and at most the bytes there are. -/
theorem postingSplitLength_le (data : Bytes) (capacity : Nat) :
    postingSplitLength data capacity ≤ capacity ∧
      postingSplitLength data capacity ≤ data.length := by
  unfold postingSplitLength
  split
  · exact ⟨by assumption, le_rfl⟩
  · have bound : splitLoop data (min data.length capacity) data.length 0 0 ≤
        min data.length capacity := splitLoop_le (Nat.zero_le _)
    omega

/-- The parts are the rest in order, each of a size that fits a page behind its header. -/
theorem continuationParts_spec {turns : Nat} {rest : Bytes} {parts : List Bytes}
    (cut : MergeBatch.continuationParts turns rest = some parts) :
    parts.flatten = rest ∧
      ∀ part ∈ parts, 0 < part.length ∧ continuationHeaderSize + part.length ≤ pageSize := by
  induction turns generalizing rest parts with
  | zero => cases cut
  | succ turns inductionHypothesis =>
      rw [MergeBatch.continuationParts] at cut
      split at cut
      · rename_i empty
        obtain rfl := Option.some.inj cut
        exact ⟨empty.symm, fun part member => absurd member List.not_mem_nil⟩
      · have bounds := postingSplitLength_le rest (pageSize - continuationHeaderSize)
        dsimp only at cut
        split at cut
        · cases cut
        · obtain ⟨others, cutRest, rfl⟩ := Option.map_eq_some_iff.mp cut
          obtain ⟨flat, sizes⟩ := inductionHypothesis cutRest
          refine ⟨by rw [List.flatten_cons, flat, List.take_append_drop], ?_⟩
          intro part member
          rcases List.mem_cons.mp member with rfl | later
          · have constants : continuationHeaderSize = 12 ∧ pageSize = 4096 := ⟨rfl, rfl⟩
            rw [List.length_take]
            omega
          · exact sizes part later

/-! ## Segments -/

/-- Posting bytes in a page, with the header in front of them. -/
structure Segment where
  blockId : Nat
  start : Nat
  headerSize : Nat
  length : Nat

namespace Segment

def stop (segment : Segment) : Nat := segment.start + segment.headerSize + segment.length

/-- The posting bytes. -/
def data (blocks : Nat → Page) (segment : Segment) : Bytes :=
  slice (blocks segment.blockId).data (segment.start + segment.headerSize) segment.length

/-- The header and the posting bytes. -/
def bytes (blocks : Nat → Page) (segment : Segment) : Bytes :=
  slice (blocks segment.blockId).data segment.start (segment.headerSize + segment.length)

/-- In a page of the batch. -/
def Inside (segment : Segment) : Prop :=
  segment.blockId < mergedBlockLimit ∧ segment.stop ≤ pageSize

/-- No byte is in both. -/
def Apart (left right : Segment) : Prop :=
  left.blockId = right.blockId → left.stop ≤ right.start ∨ right.stop ≤ left.start

theorem Apart.symm {left right : Segment} (apart : left.Apart right) : right.Apart left :=
  fun same => (apart same.symm).symm

/-- Below the write position of a batch. -/
def Behind (blockId offset : Nat) (segment : Segment) : Prop :=
  segment.blockId < blockId ∨ segment.blockId = blockId ∧ segment.stop ≤ offset

end Segment

namespace MergeBatch

/-- `IBCH_DataLength` of a continuation page. -/
def continuationLength (blocks : Nat → Page) (blockId : Nat) : Nat :=
  (ContinuationHeader.fromBytes (blocks blockId).data).elim 0
    fun header => header.dataLength.toNat

/-- Where the posting metadata say that the last posting is: the first range, then
one continuation page each, as long as its header says. -/
def postingSegments (batch : MergeBatch) : List Segment :=
  ⟨batch.postingIndexBlockId, batch.postingIndexOffset, 0, batch.postingIndexLength⟩ ::
    (List.range batch.postingContinuationBlockCount).map fun index =>
      let blockId := batch.postingIndexBlockId + 1 + index
      ⟨blockId, 0, continuationHeaderSize, continuationLength batch.indexBlocks blockId⟩

/-! ## Runs of write calls -/

/-- The calls on a view that writes. With a cursor that has no entry a call
returns at once. -/
inductive WriteCall where
  | addIndex (index : LocalIndex) (source : LeafTermEntry)
  | addIndexPair (smallIndex bigIndex : LocalIndex) (small big : LeafTermEntry)
  | addLeafTermEntry (source : LeafTermEntry)
  | resetWrite (indexBlockBase : UInt32)

/-- A batch and the segments of the postings in it. -/
structure Written where
  batch : MergeBatch
  committed : List Segment

/-- The result of a call that adds a posting. -/
def Written.posting (written : Written) : MergeBatch × Bool → Written
  | (batch, true) => ⟨batch, written.committed ++ batch.postingSegments⟩
  | (batch, false) => ⟨batch, written.committed⟩

def Written.step (written : Written) : WriteCall → Written
  | .addIndex index source => written.posting (written.batch.addIndex index source)
  | .addIndexPair smallIndex bigIndex small big =>
      written.posting (addIndexPair smallIndex bigIndex small big written.batch)
  | .addLeafTermEntry source => ⟨(written.batch.addLeafTermEntry source).1, written.committed⟩
  | .resetWrite indexBlockBase => ⟨reset indexBlockBase, []⟩

/-- A new view after the calls. -/
def writes (calls : List WriteCall) : Written := calls.foldl Written.step ⟨reset 0, []⟩

/-! ## One more posting -/

/-- The posting went into the pages as a first range and continuation parts. -/
structure Appended (batch next : MergeBatch) (source first : Bytes) (parts : List Bytes) :
    Prop where
  split : first ++ parts.flatten = source
  sizes : ∀ part ∈ parts, continuationHeaderSize + part.length ≤ pageSize
  target : next.postingIndexBlockId = batch.indexBlockId ∧
      next.postingIndexOffset = batch.indexOffsetInBlock ∨
    next.postingIndexBlockId = batch.indexBlockId + 1 ∧ next.postingIndexOffset = 0
  fits : next.postingIndexOffset + first.length ≤ pageSize
  room : next.postingIndexBlockId + parts.length < mergedBlockLimit
  length : next.postingIndexLength = first.length
  count : next.postingContinuationBlockCount = parts.length
  blocks : next.indexBlocks = writeContinuations
    (Function.update batch.indexBlocks next.postingIndexBlockId
      ((batch.indexBlocks next.postingIndexBlockId).write next.postingIndexOffset first))
    (next.postingIndexBlockId + 1) parts
  blockId : next.indexBlockId = next.postingIndexBlockId + parts.length
  offset : next.indexOffsetInBlock =
    if parts = [] then next.postingIndexOffset + first.length else pageSize
  leaf : next.leafBlocks = batch.leafBlocks ∧ next.leafBlockId = batch.leafBlockId ∧
    next.leafWriteOffset = batch.leafWriteOffset ∧ next.leafEntryCount = batch.leafEntryCount

/-- What `AddIndexBytes` can do: nothing, or append the posting. -/
theorem addIndexBytes_cases (batch : MergeBatch) (source : Bytes) :
    batch.addIndexBytes source = (batch, false) ∨
      ∃ next first parts, batch.addIndexBytes source = (next, true) ∧
        Appended batch next source first parts := by
  unfold addIndexBytes
  dsimp only
  -- The page and the offset the first range goes to, and its length.
  generalize targetEq : (if postingSplitLength source (pageSize - batch.indexOffsetInBlock) = 0 then
      (batch.indexBlockId + 1, 0, postingSplitLength source pageSize)
    else (batch.indexBlockId, batch.indexOffsetInBlock,
      postingSplitLength source (pageSize - batch.indexOffsetInBlock))) = place
  obtain ⟨blockId, offset, length⟩ := place
  have target : (blockId = batch.indexBlockId ∧ offset = batch.indexOffsetInBlock ∨
      blockId = batch.indexBlockId + 1 ∧ offset = 0) ∧
      length = postingSplitLength source (pageSize - offset) := by
    split at targetEq
    · obtain ⟨rfl, rfl, rfl⟩ := targetEq
      exact ⟨Or.inr ⟨rfl, rfl⟩, rfl⟩
    · obtain ⟨rfl, rfl, rfl⟩ := targetEq
      exact ⟨Or.inl ⟨rfl, rfl⟩, rfl⟩
  have bounds := postingSplitLength_le source (pageSize - offset)
  rw [← target.2] at bounds
  dsimp only
  by_cases refused : length = 0 ∨ blockId ≥ mergedBlockLimit
  · exact Or.inl (if_pos refused)
  · rw [if_neg refused]
    cases cut : continuationParts (source.length + 1) (source.drop length) with
    | none => exact Or.inl rfl
    | some parts =>
        dsimp only
        by_cases full : 1 + parts.length > mergedBlockLimit - blockId
        · exact Or.inl (dif_pos full)
        · rw [dif_neg full]
          obtain ⟨flat, sizes⟩ := continuationParts_spec cut
          have takeLength : (source.take length).length = length := by
            rw [List.length_take]
            omega
          refine Or.inr ⟨_, source.take length, parts, rfl, ?_⟩
          exact
            { split := by rw [flat, List.take_append_drop]
              sizes := fun part member => (sizes part member).2
              target := target.1
              fits := by rw [takeLength]; dsimp only; omega
              room := by dsimp only; omega
              length := takeLength.symm
              count := rfl
              blocks := rfl
              blockId := rfl
              offset := by rw [takeLength]
              leaf := ⟨rfl, rfl, rfl, rfl⟩ }

namespace Appended

variable {batch next : MergeBatch} {source first : Bytes} {parts : List Bytes}

theorem block_before (appended : Appended batch next source first parts) {id : Nat}
    (before : id < next.postingIndexBlockId) : next.indexBlocks id = batch.indexBlocks id := by
  rw [appended.blocks, writeContinuations, if_neg (by omega)]
  exact Function.update_of_ne (by omega) _ _

theorem block_first (appended : Appended batch next source first parts) :
    next.indexBlocks next.postingIndexBlockId =
      (batch.indexBlocks next.postingIndexBlockId).write next.postingIndexOffset first := by
  rw [appended.blocks, writeContinuations, if_neg (by omega)]
  exact Function.update_self _ _ _

theorem block_continuation (appended : Appended batch next source first parts) {index : Nat}
    {part : Bytes} (found : parts[index]? = some part) :
    next.indexBlocks (next.postingIndexBlockId + 1 + index) =
      continuationPage (batch.indexBlocks (next.postingIndexBlockId + 1 + index)) part := by
  rw [appended.blocks, writeContinuations, if_pos (by omega), Nat.add_sub_cancel_left, found]
  dsimp only
  rw [Function.update_of_ne (by omega)]

/-- A continuation page holds its header and behind it the part. -/
theorem continuation_stored (appended : Appended batch next source first parts) {index : Nat}
    {part : Bytes} (found : parts[index]? = some part) :
    let page := next.indexBlocks (next.postingIndexBlockId + 1 + index)
    ContinuationHeader.fromBytes page.data =
        some ⟨maxDocIdInPairs part, UInt32.ofNat part.length⟩ ∧
      slice page.data continuationHeaderSize part.length = part := by
  have size := appended.sizes part (List.mem_of_getElem? found)
  dsimp only
  rw [appended.block_continuation found, continuationPage]
  constructor
  · apply ContinuationHeader.fromBytes_of_slice
    rw [Page.slice_write_of_disjoint (Or.inl (by rw [Nat.zero_add]))]
    exact Page.slice_write_same (by rw [ContinuationHeader.toBytes_length]; decide)
  · exact Page.slice_write_same size

theorem continuationLength_eq (appended : Appended batch next source first parts) {index : Nat}
    {part : Bytes} (found : parts[index]? = some part) :
    continuationLength next.indexBlocks (next.postingIndexBlockId + 1 + index) = part.length := by
  have size := appended.sizes part (List.mem_of_getElem? found)
  have constants : continuationHeaderSize = 12 ∧ pageSize = 4096 := ⟨rfl, rfl⟩
  rw [continuationLength, (appended.continuation_stored found).1]
  show (UInt32.ofNat part.length).toNat = part.length
  rw [UInt32.toNat_ofNat']
  omega

/-- The metadata name the first range and every part. -/
theorem postingSegments_eq (appended : Appended batch next source first parts) :
    next.postingSegments =
      ⟨next.postingIndexBlockId, next.postingIndexOffset, 0, first.length⟩ ::
        parts.mapIdx fun index part =>
          ⟨next.postingIndexBlockId + 1 + index, 0, continuationHeaderSize, part.length⟩ := by
  rw [postingSegments, appended.length, appended.count]
  congr 1
  apply List.ext_getElem?
  intro index
  rw [List.getElem?_map, List.getElem?_mapIdx]
  by_cases inside : index < parts.length
  · have found := List.getElem?_eq_getElem inside
    rw [List.getElem?_range inside, found, Option.map_some, Option.map_some]
    dsimp only
    rw [appended.continuationLength_eq found]
  · rw [List.getElem?_eq_none (by rw [List.length_range]; omega),
      List.getElem?_eq_none (Nat.le_of_not_lt inside)]
    rfl

/-- A segment of the posting is the first range or one of the parts. -/
theorem segment_cases (appended : Appended batch next source first parts) {segment : Segment}
    (member : segment ∈ next.postingSegments) :
    segment = ⟨next.postingIndexBlockId, next.postingIndexOffset, 0, first.length⟩ ∨
      ∃ index part, parts[index]? = some part ∧
        segment =
          ⟨next.postingIndexBlockId + 1 + index, 0, continuationHeaderSize, part.length⟩ := by
  rw [appended.postingSegments_eq, List.mem_cons] at member
  refine member.imp id fun later => ?_
  obtain ⟨index, inside, rfl⟩ := List.mem_mapIdx.mp later
  exact ⟨index, parts[index], List.getElem?_eq_getElem inside, rfl⟩

/-- The segments are inside the pages and below the new write position. -/
theorem segment_inside (appended : Appended batch next source first parts) {segment : Segment}
    (member : segment ∈ next.postingSegments) :
    segment.Inside ∧ segment.Behind next.indexBlockId next.indexOffsetInBlock := by
  have room := appended.room
  have fits := appended.fits
  have blockId := appended.blockId
  have offset := appended.offset
  rcases appended.segment_cases member with rfl | ⟨index, part, found, rfl⟩
  · refine ⟨⟨by dsimp only; omega, by dsimp only [Segment.stop]; omega⟩, ?_⟩
    by_cases empty : parts = []
    · rw [if_pos empty] at offset
      rw [empty, List.length_nil] at blockId
      exact Or.inr ⟨by dsimp only; omega, by dsimp only [Segment.stop]; omega⟩
    · have positive := List.length_pos_of_ne_nil empty
      exact Or.inl (by dsimp only; omega)
  · have inside := (List.getElem?_eq_some_iff.mp found).1
    have size := appended.sizes part (List.mem_of_getElem? found)
    have nonempty : parts ≠ [] := List.ne_nil_of_length_pos (by omega)
    rw [if_neg nonempty] at offset
    refine ⟨⟨by dsimp only; omega, by dsimp only [Segment.stop]; omega⟩, ?_⟩
    by_cases last : index + 1 = parts.length
    · exact Or.inr ⟨by dsimp only; omega, by dsimp only [Segment.stop]; omega⟩
    · exact Or.inl (by dsimp only; omega)

/-- What is below the write position stays below it, keeps its bytes and has no byte
in common with the posting. -/
theorem behind (appended : Appended batch next source first parts) {segment : Segment}
    (behind : segment.Behind batch.indexBlockId batch.indexOffsetInBlock) :
    segment.Behind next.indexBlockId next.indexOffsetInBlock ∧
      segment.bytes next.indexBlocks = segment.bytes batch.indexBlocks ∧
      ∀ added ∈ next.postingSegments, added.Apart segment := by
  have blockId := appended.blockId
  have offset := appended.offset
  have fits := appended.fits
  have target := appended.target
  have notLater : segment.blockId ≤ next.postingIndexBlockId := by
    rcases behind with before | here <;> omega
  have below : segment.blockId = next.postingIndexBlockId →
      segment.stop ≤ next.postingIndexOffset := by
    rcases behind with before | here <;> omega
  refine ⟨?_, ?_, ?_⟩
  · by_cases same : segment.blockId = next.indexBlockId
    · have empty : parts = [] := List.length_eq_zero_iff.mp (by omega)
      rw [if_pos empty] at offset
      have := below (by omega)
      exact Or.inr ⟨same, by omega⟩
    · exact Or.inl (by omega)
  · by_cases same : segment.blockId = next.postingIndexBlockId
    · have stop := below same
      unfold Segment.stop at stop
      rw [Segment.bytes, Segment.bytes, same, appended.block_first]
      exact Page.slice_write_of_disjoint (Or.inl (by omega))
    · rw [Segment.bytes, Segment.bytes, appended.block_before (by omega)]
  · intro added member same
    rcases appended.segment_cases member with rfl | ⟨index, part, found, rfl⟩
    · exact Or.inr (below same.symm)
    · dsimp only at same
      omega

/-- No two segments of the posting have a byte in common. -/
theorem segments_apart (appended : Appended batch next source first parts) :
    next.postingSegments.Pairwise Segment.Apart := by
  have distinct : next.postingSegments.Pairwise fun left right => left.blockId ≠ right.blockId := by
    rw [appended.postingSegments_eq]
    refine List.Pairwise.cons ?_ ?_
    · intro segment member
      obtain ⟨index, inside, rfl⟩ := List.mem_mapIdx.mp member
      dsimp only
      omega
    · rw [List.pairwise_iff_getElem]
      intro left right leftInside rightInside before
      rw [List.getElem_mapIdx, List.getElem_mapIdx]
      dsimp only
      omega
  exact distinct.imp fun different same => absurd same different

/-- The segments hold the posting. -/
theorem segments_data (appended : Appended batch next source first parts) :
    (next.postingSegments.map (Segment.data next.indexBlocks)).flatten = source := by
  have firstData : slice (next.indexBlocks next.postingIndexBlockId).data
      (next.postingIndexOffset + 0) first.length = first := by
    rw [appended.block_first]
    exact Page.slice_write_same appended.fits
  have partsData : (parts.mapIdx fun index part =>
        (⟨next.postingIndexBlockId + 1 + index, 0, continuationHeaderSize, part.length⟩ :
          Segment)).map (Segment.data next.indexBlocks) = parts := by
    apply List.ext_getElem?
    intro index
    rw [List.getElem?_map, List.getElem?_mapIdx]
    cases found : parts[index]? with
    | none => rfl
    | some part =>
        rw [Option.map_some, Option.map_some]
        congr 1
        rw [Segment.data, Nat.zero_add]
        exact (appended.continuation_stored found).2
  rw [appended.postingSegments_eq, List.map_cons, List.flatten_cons, partsData]
  dsimp only [Segment.data]
  rw [firstData]
  exact appended.split

end Appended

/-! ## The invariant of a run -/

/-- Every committed segment is inside the pages and below the write position, and
no two have a byte in common. -/
structure Written.AppendOnly (written : Written) : Prop where
  inside : ∀ segment ∈ written.committed, segment.Inside
  behind : ∀ segment ∈ written.committed,
    segment.Behind written.batch.indexBlockId written.batch.indexOffsetInBlock
  apart : written.committed.Pairwise Segment.Apart

theorem Written.appendOnly_reset (indexBlockBase : UInt32) :
    Written.AppendOnly ⟨reset indexBlockBase, []⟩ :=
  ⟨by simp, by simp, List.Pairwise.nil⟩

theorem Written.AppendOnly.append {written : Written} (only : written.AppendOnly)
    {next : MergeBatch} {source first : Bytes} {parts : List Bytes}
    (appended : Appended written.batch next source first parts) :
    Written.AppendOnly ⟨next, written.committed ++ next.postingSegments⟩ where
  inside := by
    intro segment member
    rcases List.mem_append.mp member with old | new
    · exact only.inside segment old
    · exact (appended.segment_inside new).1
  behind := by
    intro segment member
    rcases List.mem_append.mp member with old | new
    · exact (appended.behind (only.behind segment old)).1
    · exact (appended.segment_inside new).2
  apart := by
    refine List.pairwise_append.mpr ⟨only.apart, appended.segments_apart, ?_⟩
    intro segment old added new
    exact ((appended.behind (only.behind segment old)).2.2 added new).symm

/-- The document frequency is set after the posting is in. -/
theorem Appended.withDocFreq {batch next : MergeBatch} {source first : Bytes} {parts : List Bytes}
    (appended : Appended batch next source first parts) (docFreq : UInt32) :
    Appended batch { next with docFreq := docFreq } source first parts :=
  { appended with }

/-- What `AddIndex` can do. -/
theorem addIndex_cases (index : LocalIndex) (source : LeafTermEntry) (batch : MergeBatch) :
    batch.addIndex index source = (batch, false) ∨
      ∃ next bytes first parts, batch.addIndex index source = (next, true) ∧
        Appended batch next bytes first parts ∧
        postingBytes index.table.indexBlocks source = some bytes ∧
        next.docFreq = source.docFreq := by
  unfold addIndex
  cases read : postingBytes index.table.indexBlocks source with
  | none => exact Or.inl rfl
  | some bytes =>
      dsimp only
      by_cases long : bytes.length > postingScratchBytes
      · exact Or.inl (if_pos long)
      · rw [if_neg long]
        rcases addIndexBytes_cases batch bytes with refused | ⟨next, first, parts, added, appended⟩
        · rw [refused]
          exact Or.inl rfl
        · rw [added]
          exact Or.inr ⟨_, bytes, first, parts, rfl, appended.withDocFreq _, rfl, rfl⟩

/-- What `AddIndexPair` can do. -/
theorem addIndexPair_cases (smallIndex bigIndex : LocalIndex) (small big : LeafTermEntry)
    (batch : MergeBatch) :
    addIndexPair smallIndex bigIndex small big batch = (batch, false) ∨
      ∃ next smallBytes bigBytes first parts,
        addIndexPair smallIndex bigIndex small big batch = (next, true) ∧
        Appended batch next (smallBytes ++ bigBytes) first parts ∧
        postingBytes smallIndex.table.indexBlocks small = some smallBytes ∧
        postingBytes bigIndex.table.indexBlocks big = some bigBytes ∧
        next.docFreq = small.docFreq + big.docFreq := by
  unfold addIndexPair
  split
  · rename_i bytes bigBytes read readBig
    by_cases long : bytes.length > postingScratchBytes ∨
        bigBytes.length > postingScratchBytes - bytes.length
    · exact Or.inl (if_pos long)
    · rw [if_neg long]
      rcases addIndexBytes_cases batch (bytes ++ bigBytes) with
        refused | ⟨next, first, parts, added, appended⟩
      · rw [refused]
        exact Or.inl rfl
      · rw [added]
        exact Or.inr
          ⟨_, bytes, bigBytes, first, parts, rfl, appended.withDocFreq _, read, readBig, rfl⟩
  · exact Or.inl rfl

/-- `AddLeafTermEntry` leaves the posting pages and their write position alone. -/
theorem addLeafTermEntry_index (batch : MergeBatch) (source : LeafTermEntry) :
    (batch.addLeafTermEntry source).1.indexBlocks = batch.indexBlocks ∧
      (batch.addLeafTermEntry source).1.indexBlockId = batch.indexBlockId ∧
      (batch.addLeafTermEntry source).1.indexOffsetInBlock = batch.indexOffsetInBlock := by
  have next : (batch.nextLeaf source).indexBlocks = batch.indexBlocks ∧
      (batch.nextLeaf source).indexBlockId = batch.indexBlockId ∧
      (batch.nextLeaf source).indexOffsetInBlock = batch.indexOffsetInBlock := by
    unfold nextLeaf
    split <;> exact ⟨rfl, rfl, rfl⟩
  unfold addLeafTermEntry
  split
  · exact ⟨rfl, rfl, rfl⟩
  · dsimp only
    split <;> exact next

/-- A call that adds a posting or refuses it. -/
theorem Written.AppendOnly.posting {written : Written} (only : written.AppendOnly)
    {outcome : MergeBatch × Bool}
    (cases_ : outcome = (written.batch, false) ∨ ∃ next bytes first parts, outcome = (next, true) ∧
      Appended written.batch next bytes first parts) :
    (written.posting outcome).AppendOnly := by
  rcases cases_ with rfl | ⟨next, bytes, first, parts, rfl, appended⟩
  · exact only
  · exact only.append appended

theorem Written.AppendOnly.step {written : Written} (only : written.AppendOnly)
    (call : WriteCall) : (written.step call).AppendOnly := by
  cases call with
  | addIndex index source =>
      rcases addIndex_cases index source written.batch with
        refused | ⟨next, bytes, first, parts, added, appended, _⟩
      · exact only.posting (Or.inl refused)
      · exact only.posting (Or.inr ⟨next, bytes, first, parts, added, appended⟩)
  | addIndexPair smallIndex bigIndex small big =>
      rcases addIndexPair_cases smallIndex bigIndex small big written.batch with
        refused | ⟨next, bytes, bigBytes, first, parts, added, appended, _⟩
      · exact only.posting (Or.inl refused)
      · exact only.posting (Or.inr ⟨next, bytes ++ bigBytes, first, parts, added, appended⟩)
  | addLeafTermEntry source =>
      obtain ⟨_, blockId, offset⟩ := addLeafTermEntry_index written.batch source
      refine ⟨only.inside, ?_, only.apart⟩
      intro segment member
      have behind := only.behind segment member
      rw [← blockId, ← offset] at behind
      exact behind
  | resetWrite indexBlockBase => exact Written.appendOnly_reset indexBlockBase

theorem appendOnly_writes (calls : List WriteCall) : (writes calls).AppendOnly := by
  have run : ∀ written : Written, written.AppendOnly →
      (calls.foldl Written.step written).AppendOnly := by
    induction calls with
    | nil => exact fun written only => only
    | cons call rest inductionHypothesis =>
        intro written only
        rw [List.foldl_cons]
        exact inductionHypothesis _ (only.step call)
  exact run _ (Written.appendOnly_reset 0)

/-- A posting that is refused leaves no trace; one that is taken stands in new
segments, and all segments from before keep their bytes. -/
theorem addIndexBytes_appends (calls : List WriteCall) (source : Bytes) :
    let batch := (writes calls).batch
    let committed := (writes calls).committed
    match batch.addIndexBytes source with
    | (next, false) => next = batch
    | (next, true) =>
        (∀ segment ∈ committed, segment.bytes next.indexBlocks = segment.bytes batch.indexBlocks) ∧
          (∀ segment ∈ next.postingSegments,
            segment.Inside ∧ ∀ other ∈ committed, segment.Apart other) ∧
          next.postingSegments.Pairwise Segment.Apart ∧
          (next.postingSegments.map (Segment.data next.indexBlocks)).flatten = source := by
  have only := appendOnly_writes calls
  dsimp only
  rcases addIndexBytes_cases (writes calls).batch source with
    refused | ⟨next, first, parts, added, appended⟩
  · rw [refused]
  · rw [added]
    refine ⟨?_, ?_, appended.segments_apart, appended.segments_data⟩
    · intro segment member
      exact (appended.behind (only.behind segment member)).2.1
    · intro segment member
      refine ⟨(appended.segment_inside member).1, ?_⟩
      intro other old
      exact (appended.behind (only.behind other old)).2.2 segment member

end MergeBatch

end MoonShot.Context
