import MoonShot.Format.Pages

/-!
Posting pages as `IndexSerializer::BuildBlocks` fills them.

Owns the page writer of `BuildBlocks` (finished pages, the page being filled,
the write position), the placement of one encoded list over a shared page and
its continuation pages, and the frame rule of the writer: bytes that are
committed stay where they are whatever is placed later.

Does not own the leaf entries that point at the placements.
-/

namespace MoonShot.Serializer

open MoonShot.Lib
open MoonShot.Postings
open MoonShot.Format

/-- `IndexBlocks`, `cur` and `wptr`. The counter `seq` of the source is always
the number of finished pages. -/
structure BlockWriter where
  indexBlocks : List Page
  cur : Page
  wptr : Nat

namespace BlockWriter

def new : BlockWriter := ⟨[], Page.zero, 0⟩

def seq (writer : BlockWriter) : Nat := writer.indexBlocks.length

/-- `flush_index_block` -/
def flush (writer : BlockWriter) : BlockWriter := ⟨writer.indexBlocks ++ [writer.cur], Page.zero, 0⟩

/-- Copy bytes to the write position. -/
def put (writer : BlockWriter) (source : Bytes) : BlockWriter :=
  { writer with
    cur := writer.cur.write writer.wptr source
    wptr := writer.wptr + source.length }

/-- The pages once the last one is flushed. -/
def close (writer : BlockWriter) : List Page :=
  if writer.wptr > 0 then writer.flush.indexBlocks else writer.indexBlocks

/-- The `while remaining > 0` loop over continuation pages: the writer and the
number of pages. `rest` is the part of the list not yet written. -/
def writeContinuations : (turns : Nat) → BlockWriter → (rest : Bytes) → BlockWriter × Nat
  | 0, writer, _ => (writer, 0)
  | turns + 1, writer, rest =>
      if rest = [] then (writer, 0)
      else
        let here := postingPrefixBytes rest (pageSize - continuationHeaderSize)
        if here = 0 then (writer, 0)
        else
          let header : ContinuationHeader :=
            ⟨UInt64.ofNat (maxDocIdInPairs (rest.take here)), UInt32.ofNat here⟩
          let writer := (writer.put header.toBytes).put (rest.take here)
          let writer := if here < rest.length then writer.flush else writer
          let (writer, count) := writeContinuations turns writer (rest.drop here)
          (writer, count + 1)

/-- Where a list was placed: the values before they are narrowed into a leaf
entry. -/
structure Placement where
  blockId : Nat
  offset : Nat
  length : Nat
  continuationBlockCount : Nat
deriving DecidableEq

/-- Copy `here` bytes of the list to the write position and the rest to
continuation pages. -/
def placeAt (writer : BlockWriter) (bytes : Bytes) (here : Nat) : BlockWriter × Placement :=
  let blockId := writer.seq
  let offset := writer.wptr
  let writer := writer.put (bytes.take here)
  let rest := bytes.drop here
  if rest = [] then (writer, ⟨blockId, offset, here, 0⟩)
  else
    let (writer, count) := writeContinuations rest.length writer.flush rest
    (writer, ⟨blockId, offset, here, count⟩)

/-- The writer at the page that takes the start of the list, and how much of
the list goes there. A full page is flushed first; a list whose first pair does
not fit the tail of the page starts a new one. -/
def reserve (writer : BlockWriter) (bytes : Bytes) : BlockWriter × Nat :=
  let writer := if writer.wptr ≥ pageSize then writer.flush else writer
  let here := postingPrefixBytes bytes (pageSize - writer.wptr)
  if here = 0 then (writer.flush, postingPrefixBytes bytes pageSize) else (writer, here)

/-- The part of the `BuildBlocks` loop that places the bytes of one list. -/
def placePostings (writer : BlockWriter) (bytes : Bytes) : BlockWriter × Option Placement :=
  let (writer, here) := writer.reserve bytes
  if here = 0 then (writer, none)
  else
    let (writer, placement) := writer.placeAt bytes here
    (writer, some placement)

/-! ## Committed bytes -/

/-- These bytes stand at `start` of page `blockId` and later writes do not
reach them. -/
structure Committed (writer : BlockWriter) (blockId start : Nat) (bytes : Bytes) : Prop where
  page : ∃ page, (writer.indexBlocks ++ [writer.cur])[blockId]? = some page ∧
    slice page.data start bytes.length = bytes
  inside : start + bytes.length ≤ pageSize
  behind : blockId = writer.seq → start + bytes.length ≤ writer.wptr

/-- Everything committed in the first writer is committed in the second. -/
def Keeps (before after : BlockWriter) : Prop :=
  ∀ blockId start bytes, Committed before blockId start bytes → Committed after blockId start bytes

theorem Keeps.refl (writer : BlockWriter) : Keeps writer writer := fun _ _ _ committed => committed

theorem Keeps.trans {first second third : BlockWriter} (left : Keeps first second)
    (right : Keeps second third) : Keeps first third :=
  fun blockId start bytes committed =>
    right blockId start bytes (left blockId start bytes committed)

theorem keeps_flush (writer : BlockWriter) : Keeps writer writer.flush := by
  rintro blockId start bytes ⟨⟨page, found, stored⟩, inside, behind⟩
  have below := (List.getElem?_eq_some_iff.mp found).1
  refine ⟨⟨page, ?_, stored⟩, inside, ?_⟩
  · show ((writer.indexBlocks ++ [writer.cur]) ++ [Page.zero])[blockId]? = some page
    rw [List.getElem?_append_left below]
    exact found
  · intro atEnd
    have length : writer.flush.seq = (writer.indexBlocks ++ [writer.cur]).length := rfl
    omega

theorem keeps_put (writer : BlockWriter) (source : Bytes) : Keeps writer (writer.put source) := by
  rintro blockId start bytes ⟨⟨page, found, stored⟩, inside, behind⟩
  have below := (List.getElem?_eq_some_iff.mp found).1
  rw [List.length_append, List.length_singleton] at below
  have behindPut : blockId = (writer.put source).seq →
      start + bytes.length ≤ (writer.put source).wptr := by
    intro atEnd
    have := behind atEnd
    show start + bytes.length ≤ writer.wptr + source.length
    omega
  by_cases current : blockId = writer.seq
  · have length : blockId = writer.indexBlocks.length := current
    rw [length, List.getElem?_concat_length] at found
    obtain rfl := Option.some.inj found
    refine ⟨⟨writer.cur.write writer.wptr source, ?_, ?_⟩, inside, behindPut⟩
    · show (writer.indexBlocks ++ [writer.cur.write writer.wptr source])[blockId]? = _
      rw [length, List.getElem?_concat_length]
    · rw [Page.slice_write_of_disjoint (Or.inl (behind current))]
      exact stored
  · have finished : blockId < writer.indexBlocks.length := by
      have different : blockId ≠ writer.indexBlocks.length := current
      omega
    refine ⟨⟨page, ?_, stored⟩, inside, behindPut⟩
    rw [List.getElem?_append_left finished] at found
    show (writer.indexBlocks ++ [writer.cur.write writer.wptr source])[blockId]? = _
    rw [List.getElem?_append_left finished]
    exact found

theorem committed_put {writer : BlockWriter} {source : Bytes}
    (fits : writer.wptr + source.length ≤ pageSize) :
    Committed (writer.put source) writer.seq writer.wptr source := by
  refine ⟨⟨writer.cur.write writer.wptr source, ?_, Page.slice_write_same fits⟩, fits, ?_⟩
  · exact List.getElem?_concat_length
  · intro _
    exact Nat.le_refl _

/-- Committed bytes are in the finished pages once the writer is closed. -/
theorem Committed.close {writer : BlockWriter} {blockId start : Nat} {bytes : Bytes}
    (committed : Committed writer blockId start bytes) (nonempty : bytes ≠ []) :
    ∃ page, writer.close[blockId]? = some page ∧
      slice page.data start bytes.length = bytes := by
  obtain ⟨⟨page, found, stored⟩, inside, behind⟩ := committed
  refine ⟨page, ?_, stored⟩
  unfold BlockWriter.close
  by_cases open_ : writer.wptr > 0
  · rw [if_pos open_]
    exact found
  · have positive := List.length_pos_of_ne_nil nonempty
    have finished : blockId < writer.indexBlocks.length := by
      have below := (List.getElem?_eq_some_iff.mp found).1
      rw [List.length_append, List.length_singleton] at below
      by_contra past
      have := behind (by show blockId = writer.indexBlocks.length; omega)
      omega
    rw [if_neg open_]
    rwa [List.getElem?_append_left finished] at found

/-! ## Placed lists -/

/-- Consecutive pages from `blockId` on hold the chunks, committed. -/
def ChainCommitted (writer : BlockWriter) : (blockId : Nat) → List (List Posting) → Prop
  | _, [] => True
  | blockId, chunk :: rest =>
      (chunk ≠ [] ∧ Committed writer blockId 0 (chunkHeader chunk).toBytes ∧
        Committed writer blockId continuationHeaderSize (encodePostings chunk)) ∧
        ChainCommitted writer (blockId + 1) rest

theorem ChainCommitted.mono {before after : BlockWriter} (keeps : Keeps before after)
    {blockId : Nat} {chunks : List (List Posting)}
    (chain : ChainCommitted before blockId chunks) : ChainCommitted after blockId chunks := by
  induction chunks generalizing blockId with
  | nil => trivial
  | cons chunk rest inductionHypothesis =>
      obtain ⟨⟨nonempty, header, body⟩, tail⟩ := chain
      exact ⟨⟨nonempty, keeps _ _ _ header, keeps _ _ _ body⟩, inductionHypothesis tail⟩

/-- A placement describes where the writer holds the list. -/
structure Placed (writer : BlockWriter) (placement : Placement) (first : List Posting)
    (chunks : List (List Posting)) : Prop where
  nonempty : first ≠ []
  body : Committed writer placement.blockId placement.offset (encodePostings first)
  length : placement.length = (encodePostings first).length
  chain : ChainCommitted writer (placement.blockId + 1) chunks
  count : placement.continuationBlockCount = chunks.length

theorem Placed.mono {before after : BlockWriter} (keeps : Keeps before after)
    {placement : Placement} {first : List Posting} {chunks : List (List Posting)}
    (placed : Placed before placement first chunks) : Placed after placement first chunks :=
  ⟨placed.nonempty, keeps _ _ _ placed.body, placed.length, placed.chain.mono keeps, placed.count⟩

/-- The split point leaves whole postings on both sides, and some on the left
when there is room for one. -/
private theorem prefix_split {postings : List Posting} (nonempty : postings ≠ []) {capacity : Nat}
    (room : 11 ≤ capacity) :
    ∃ taken, taken ≠ [] ∧ ∃ rest, postings = taken ++ rest ∧
      postingPrefixBytes (encodePostings postings) capacity = (encodePostings taken).length ∧
      (encodePostings taken).length ≤ capacity := by
  obtain ⟨count, bound, value, fits, maximal⟩ := postingPrefixBytes_encode postings capacity
  refine ⟨postings.take count, ?_, postings.drop count, (List.take_append_drop _ _).symm, value,
    fits⟩
  obtain ⟨posting, rest, rfl⟩ := List.exists_cons_of_ne_nil nonempty
  rcases Nat.eq_zero_or_pos count with zero | positive
  · have more := maximal (by rw [zero]; simp)
    have pair := encodePosting_length_le posting
    simp only [zero, Nat.zero_add, List.take_succ_cons, List.take_zero, encodePostings_cons,
      encodePostings_nil, List.append_nil] at more
    omega
  · obtain ⟨count, rfl⟩ := Nat.exists_eq_add_of_lt positive
    simp

/-- The header the loop writes is the header of the chunk. -/
private theorem written_header {chunk : List Posting} (nonempty : chunk ≠ []) :
    (⟨UInt64.ofNat (maxDocIdInPairs (encodePostings chunk)),
      UInt32.ofNat (encodePostings chunk).length⟩ : ContinuationHeader) = chunkHeader chunk := by
  obtain ⟨init, last, rfl⟩ := (List.eq_nil_or_concat chunk).resolve_left nonempty
  rw [List.concat_eq_append, maxDocIdInPairs_encode]
  simp [chunkHeader]

theorem writeContinuations_nil (turns : Nat) (writer : BlockWriter) :
    writeContinuations turns writer [] = (writer, 0) := by
  cases turns with
  | zero => rfl
  | succ turns => rw [writeContinuations, if_pos rfl]

/-- The continuation loop writes the whole rest of the list. -/
theorem writeContinuations_spec {turns : Nat} {writer : BlockWriter} {postings : List Posting}
    (fresh : writer.wptr = 0) (enough : postings.length ≤ turns) :
    ∃ chunks, postings = chunks.flatten ∧
      (writeContinuations turns writer (encodePostings postings)).2 = chunks.length ∧
      ChainCommitted (writeContinuations turns writer (encodePostings postings)).1 writer.seq
        chunks ∧
      Keeps writer (writeContinuations turns writer (encodePostings postings)).1 ∧
      (writeContinuations turns writer (encodePostings postings)).1.wptr ≤ pageSize := by
  induction turns generalizing writer postings with
  | zero =>
      have empty : postings = [] := List.length_eq_zero_iff.mp (by omega)
      subst empty
      rw [encodePostings_nil, writeContinuations_nil]
      exact ⟨[], rfl, rfl, trivial, Keeps.refl writer, by simp [fresh]⟩
  | succ turns inductionHypothesis =>
      by_cases empty : postings = []
      · subst empty
        rw [encodePostings_nil, writeContinuations_nil]
        exact ⟨[], rfl, rfl, trivial, Keeps.refl writer, by simp [fresh]⟩
      · obtain ⟨chunk, chunkNonempty, rest, rfl, here, fits⟩ :=
          prefix_split empty (by decide : 11 ≤ pageSize - continuationHeaderSize)
        have chunkLong := encodePostings_length_ge chunk
        have chunkPositive := List.length_pos_of_ne_nil chunkNonempty
        have bytesNonempty : encodePostings (chunk ++ rest) ≠ [] := by
          rw [Ne, encodePostings_eq_nil_iff]
          exact empty
        have sizes : pageSize = 4096 ∧ continuationHeaderSize = 12 := ⟨rfl, rfl⟩
        rw [writeContinuations, if_neg bytesNonempty]
        dsimp only
        rw [here, if_neg (by omega), encodePostings_append, List.take_left, List.drop_left,
          written_header chunkNonempty]
        -- The two writes commit the header and the body of this page.
        let wrote := (writer.put (chunkHeader chunk).toBytes).put (encodePostings chunk)
        have headerFits : writer.wptr + (chunkHeader chunk).toBytes.length ≤ pageSize := by
          rw [fresh, ContinuationHeader.toBytes_length]
          omega
        have afterHeader : (writer.put (chunkHeader chunk).toBytes).wptr =
            continuationHeaderSize := by
          show writer.wptr + (chunkHeader chunk).toBytes.length = _
          rw [fresh, ContinuationHeader.toBytes_length, Nat.zero_add]
        have bodyFits : (writer.put (chunkHeader chunk).toBytes).wptr +
            (encodePostings chunk).length ≤ pageSize := by
          rw [afterHeader]
          omega
        have header : Committed wrote writer.seq 0 (chunkHeader chunk).toBytes := by
          have committed := committed_put headerFits
          rw [fresh] at committed
          exact keeps_put _ _ _ _ _ committed
        have body : Committed wrote writer.seq continuationHeaderSize (encodePostings chunk) := by
          have committed := committed_put bodyFits
          rwa [afterHeader] at committed
        have keepsWrote : Keeps writer wrote := (keeps_put _ _).trans (keeps_put _ _)
        by_cases last : rest = []
        · subst last
          refine ⟨[chunk], by simp, ?_⟩
          rw [if_neg (by simp), encodePostings_nil, writeContinuations_nil]
          exact ⟨rfl, ⟨⟨chunkNonempty, header, body⟩, trivial⟩, keepsWrote, bodyFits⟩
        · have more : (encodePostings chunk).length <
              (encodePostings chunk ++ encodePostings rest).length := by
            have restLong := encodePostings_length_ge rest
            have restPositive := List.length_pos_of_ne_nil last
            rw [List.length_append]
            omega
          have restEnough : rest.length ≤ turns := by
            rw [List.length_append] at enough
            omega
          obtain ⟨chunks, flat, count, chain, keeps, inside⟩ :=
            inductionHypothesis (rfl : wrote.flush.wptr = 0) restEnough
          rw [if_pos more]
          refine ⟨chunk :: chunks, by rw [flat]; simp, ?_, ⟨⟨chunkNonempty, ?_, ?_⟩, ?_⟩, ?_, inside⟩
          · exact congrArg (· + 1) count
          · exact keeps _ _ _ (keeps_flush wrote _ _ _ header)
          · exact keeps _ _ _ (keeps_flush wrote _ _ _ body)
          · have nextSeq : wrote.flush.seq = writer.seq + 1 := by
              show (writer.indexBlocks ++ [_]).length = _
              simp [seq]
            rw [nextSeq] at chain
            exact chain
          · exact (keepsWrote.trans (keeps_flush wrote)).trans keeps

/-- Placing a list whose first part is the given run of whole postings. -/
private theorem placeAt_spec {writer : BlockWriter} {first : List Posting} (rest : List Posting)
    (nonempty : first ≠ []) (fits : writer.wptr + (encodePostings first).length ≤ pageSize) :
    ∃ after placement chunks,
      writer.placeAt (encodePostings (first ++ rest)) (encodePostings first).length =
        (after, placement) ∧
      rest = chunks.flatten ∧ Placed after placement first chunks ∧
      Keeps writer after ∧ after.wptr ≤ pageSize := by
  have body := committed_put fits
  unfold placeAt
  rw [encodePostings_append, List.take_left, List.drop_left]
  by_cases done : rest = []
  · subst done
    exact ⟨_, _, [], rfl, rfl, ⟨nonempty, body, rfl, trivial, rfl⟩, keeps_put _ _, fits⟩
  · have bytesLeft : encodePostings rest ≠ [] := by
      rw [Ne, encodePostings_eq_nil_iff]
      exact done
    have long := encodePostings_length_ge rest
    let wrote := writer.put (encodePostings first)
    obtain ⟨chunks, flat, count, chain, keeps, inside⟩ :=
      writeContinuations_spec (rfl : wrote.flush.wptr = 0)
        (by omega : rest.length ≤ (encodePostings rest).length)
    have keepsFlush : Keeps wrote wrote.flush := keeps_flush wrote
    have nextSeq : wrote.flush.seq = writer.seq + 1 := by
      show (writer.indexBlocks ++ [_]).length = _
      simp [seq]
    rw [nextSeq] at chain
    dsimp only
    rw [if_neg bytesLeft]
    refine ⟨_, _, chunks, rfl, flat, ⟨nonempty, ?_, rfl, chain, count⟩, ?_, inside⟩
    · exact keeps _ _ _ (keepsFlush _ _ _ body)
    · exact ((keeps_put _ _).trans keepsFlush).trans keeps

/-- The reserved room takes a nonempty run of whole postings. -/
private theorem reserve_spec {writer : BlockWriter} {postings : List Posting}
    (inside : writer.wptr ≤ pageSize) (nonempty : postings ≠ []) :
    ∃ start first rest,
      writer.reserve (encodePostings postings) = (start, (encodePostings first).length) ∧
      postings = first ++ rest ∧ first ≠ [] ∧
      start.wptr + (encodePostings first).length ≤ pageSize ∧ Keeps writer start := by
  obtain ⟨opened, openedEq, openedInside, openedKeeps⟩ : ∃ opened,
      (if writer.wptr ≥ pageSize then writer.flush else writer) = opened ∧
        opened.wptr ≤ pageSize ∧ Keeps writer opened := by
    by_cases full : writer.wptr ≥ pageSize
    · rw [if_pos full]
      exact ⟨_, rfl, Nat.zero_le _, keeps_flush writer⟩
    · rw [if_neg full]
      exact ⟨_, rfl, inside, Keeps.refl writer⟩
  unfold reserve
  rw [openedEq]
  dsimp only
  by_cases tailTooSmall :
      postingPrefixBytes (encodePostings postings) (pageSize - opened.wptr) = 0
  · obtain ⟨first, firstNonempty, rest, split, here, fits⟩ :=
      prefix_split nonempty (by decide : 11 ≤ pageSize)
    rw [if_pos tailTooSmall, here]
    refine ⟨_, first, rest, rfl, split, firstNonempty, ?_, openedKeeps.trans (keeps_flush opened)⟩
    show 0 + (encodePostings first).length ≤ pageSize
    omega
  · obtain ⟨count, _, here, fits, _⟩ :=
      postingPrefixBytes_encode postings (pageSize - opened.wptr)
    rw [if_neg tailTooSmall]
    rw [here] at tailTooSmall ⊢
    refine ⟨_, postings.take count, postings.drop count, rfl, (List.take_append_drop _ _).symm, ?_,
      by omega, openedKeeps⟩
    intro empty
    rw [empty] at tailTooSmall
    exact tailTooSmall rfl

/-- A nonempty list is always placed, as a first run in a shared page and the
rest in the continuation pages right behind it. -/
theorem placePostings_spec {writer : BlockWriter} {postings : List Posting}
    (inside : writer.wptr ≤ pageSize) (nonempty : postings ≠ []) :
    ∃ after placement first chunks,
      writer.placePostings (encodePostings postings) = (after, some placement) ∧
      postings = first ++ chunks.flatten ∧ Placed after placement first chunks ∧
      Keeps writer after ∧ after.wptr ≤ pageSize := by
  obtain ⟨start, first, rest, reserved, split, firstNonempty, fits, startKeeps⟩ :=
    reserve_spec inside nonempty
  obtain ⟨after, placement, chunks, placedAt, flat, placed, keeps, afterInside⟩ :=
    placeAt_spec rest firstNonempty fits
  have some_ : (encodePostings first).length ≠ 0 := by
    have long := encodePostings_length_ge first
    have positive := List.length_pos_of_ne_nil firstNonempty
    omega
  unfold placePostings
  rw [reserved]
  dsimp only
  rw [if_neg some_, split, placedAt]
  exact ⟨after, placement, first, chunks, rfl, by rw [flat], placed, startKeeps.trans keeps,
    afterInside⟩

end BlockWriter

end MoonShot.Serializer
