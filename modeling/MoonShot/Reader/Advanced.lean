import MoonShot.Reader.Decoder
import MoonShot.Table.Lookup

/-!
The leaf reader over one posting list (`AdvancedIndexReader.rs`).

Owns `Open`, `LoadContinuation`, `GoNext` and `GoUntil`, each over the blocks it
can get while it runs, and the invariant `ReaderAt`, which names the postings the
reader has not passed. `GoNext` drops the first of them, `GoUntil` drops those
below its target, and neither depends on how the list is cut into blocks.

Does not own scoring: the fields that only `GetScore` reads are left out.
-/

namespace MoonShot.Reader

open MoonShot.Lib
open MoonShot.Postings
open MoonShot.Format
open MoonShot.Table

/-- `ReaderSourceMaskForStream` of the last character of a key. The letters it
knows are single bytes, and no other character ends in one of them. -/
def readerSourceMask (key : Str) : UInt8 :=
  match key.bytes.getLast? with
  | some 0x41 => 1
  | some 0x55 => 2
  | some 0x54 => 4
  | some 0x42 => 8
  | some 0x56 => 16
  | _ => 0

structure AdvancedIndexReader where
  docFreq : UInt32
  sourceMask : UInt8
  blockSeqNumber : UInt32
  remainingContinuationBlocks : Nat
  decoder : UnifiedDecoder

namespace AdvancedIndexReader

def isEnd (reader : AdvancedIndexReader) : Bool := reader.decoder.isEnd

def getDocumentId (reader : AdvancedIndexReader) : UInt64 := reader.decoder.currentDoc

def getTermFreq (reader : AdvancedIndexReader) : UInt8 := reader.decoder.currentTf8

def releaseCurrentBlock (reader : AdvancedIndexReader) : AdvancedIndexReader :=
  { reader with decoder := reader.decoder.takeBlock }

/-- The window `OpenContinuation` opens on a page. -/
def openContinuation (page : Page) : UnifiedDecoder :=
  match ContinuationHeader.fromBytes page.data with
  | some header => .openRaw page continuationHeaderSize header.dataLength.toNat
  | none => .openRaw page 0 0

/-- `LoadContinuation`: whether a block was opened, and the reader after it. -/
def loadContinuation (blocks : BlockSource) (reader : AdvancedIndexReader) :
    Bool × AdvancedIndexReader :=
  let nextSeq := reader.blockSeqNumber + 1
  let reader := reader.releaseCurrentBlock
  match blocks nextSeq.toNat with
  | none => (false, reader)
  | some page =>
      (true,
        { reader with
          blockSeqNumber := nextSeq
          remainingContinuationBlocks := reader.remainingContinuationBlocks - 1
          decoder := openContinuation page })

/-- The `while` loop of `GoNext`. Each turn uses up one continuation block. -/
def goNextLoop (blocks : BlockSource) : (turns : Nat) → AdvancedIndexReader → AdvancedIndexReader
  | 0, reader => reader
  | turns + 1, reader =>
      if reader.isEnd && reader.remainingContinuationBlocks > 0 then
        match loadContinuation blocks reader with
        | (false, reader) => reader
        | (true, reader) =>
            goNextLoop blocks turns { reader with decoder := reader.decoder.decodeNext }
      else reader

/-- The last statement of `GoNext` and `GoUntil`: close at the end of the list. -/
def finish (reader : AdvancedIndexReader) : AdvancedIndexReader :=
  if reader.isEnd && reader.remainingContinuationBlocks = 0 then
    { reader with decoder := reader.decoder.takeBlock.close }
  else reader

def goNext (blocks : BlockSource) (reader : AdvancedIndexReader) : AdvancedIndexReader :=
  let reader := { reader with decoder := reader.decoder.decodeNext }
  finish (goNextLoop blocks reader.remainingContinuationBlocks reader)

/-- The `loop` of `GoUntil`. A turn that does not leave it uses up one
continuation block, and a turn without one left always leaves it. -/
def goUntilLoop (blocks : BlockSource) (target : UInt64) :
    (turns : Nat) → AdvancedIndexReader → AdvancedIndexReader
  | 0, reader => reader
  | turns + 1, reader =>
      let reader := { reader with decoder := reader.decoder.goUntil target }
      if reader.isEnd = false then reader
      else if reader.remainingContinuationBlocks = 0 then reader.releaseCurrentBlock
      else
        let reader := reader.releaseCurrentBlock
        match blocks (reader.blockSeqNumber + 1).toNat with
        | none => reader
        | some page =>
            match ContinuationHeader.fromBytes page.data with
            | none => reader
            | some header =>
                let reader :=
                  { reader with
                    blockSeqNumber := reader.blockSeqNumber + 1
                    remainingContinuationBlocks := reader.remainingContinuationBlocks - 1 }
                if header.maxDocId < target then goUntilLoop blocks target turns reader
                else
                  let reader := { reader with decoder := (openContinuation page).decodeNext }
                  if reader.isEnd then reader.releaseCurrentBlock
                  else goUntilLoop blocks target turns reader

def goUntil (blocks : BlockSource) (reader : AdvancedIndexReader) (target : UInt64) :
    AdvancedIndexReader :=
  finish (goUntilLoop blocks target (reader.remainingContinuationBlocks + 1) reader)

/-- The reader before the lookup of `Open`. -/
def unopened (key : Str) : AdvancedIndexReader := ⟨0, readerSourceMask key, 0, 0, .new⟩

/-- `Open`. The statistics are only asserted on when the term is found;
`averagePositive` is the comparison `average_stream_length > 0.0`, and `none` a
failed assertion. -/
def openReader (table : IndexBlockTable) (key : Str) (numDocuments : UInt64)
    (averagePositive : Bool) : Option AdvancedIndexReader :=
  match table.findTermData key with
  | none => some (goNext table.indexBlocks (unopened key))
  | some location =>
      if numDocuments = 0 ∨ averagePositive = false then none
      else
        let reader :=
          { unopened key with
            docFreq := location.docFreq
            blockSeqNumber := location.indexBlockId
            remainingContinuationBlocks := location.continuationBlockCount.toNat }
        let reader :=
          match table.indexBlocks location.indexBlockId.toNat with
          | some page =>
              { reader with
                decoder := .openRaw page location.indexOffset location.indexLength }
          | none => reader
        some (goNext table.indexBlocks reader)

/-! ## Sources -/

theorem finish_sourceMask (reader : AdvancedIndexReader) :
    (finish reader).sourceMask = reader.sourceMask := by
  unfold finish
  split
  · rfl
  · rfl

theorem loadContinuation_sourceMask (blocks : BlockSource) (reader : AdvancedIndexReader) :
    (loadContinuation blocks reader).2.sourceMask = reader.sourceMask := by
  unfold loadContinuation
  dsimp only
  split
  · rfl
  · rfl

theorem goNext_sourceMask {blocks : BlockSource} (reader : AdvancedIndexReader) :
    (goNext blocks reader).sourceMask = reader.sourceMask := by
  have loop : ∀ turns (reader : AdvancedIndexReader),
      (goNextLoop blocks turns reader).sourceMask = reader.sourceMask := by
    intro turns
    induction turns with
    | zero => exact fun reader => rfl
    | succ turns inductionHypothesis =>
        intro reader
        have loaded := loadContinuation_sourceMask blocks reader
        rw [goNextLoop]
        split
        · split
          · rename_i next opened
            rw [opened] at loaded
            exact loaded
          · rename_i next opened
            rw [opened] at loaded
            exact (inductionHypothesis _).trans loaded
        · rfl
  exact (finish_sourceMask _).trans (loop _ _)

theorem goUntil_sourceMask {blocks : BlockSource} (reader : AdvancedIndexReader)
    (target : UInt64) : (goUntil blocks reader target).sourceMask = reader.sourceMask := by
  have loop : ∀ turns (reader : AdvancedIndexReader),
      (goUntilLoop blocks target turns reader).sourceMask = reader.sourceMask := by
    intro turns
    induction turns with
    | zero => exact fun reader => rfl
    | succ turns inductionHypothesis =>
        intro reader
        rw [goUntilLoop]
        dsimp only
        split
        · rfl
        · split
          · rfl
          · split
            · rfl
            · split
              · rfl
              · split
                · exact inductionHypothesis _
                · split
                  · rfl
                  · exact inductionHypothesis _
  exact (finish_sourceMask _).trans (loop _ _)

/-- A reader has the source of the stream of its key. -/
theorem openReader_sourceMask {table : IndexBlockTable} {key : Str} {numDocuments : UInt64}
    {averagePositive : Bool} {reader : AdvancedIndexReader}
    (opened : openReader table key numDocuments averagePositive = some reader) :
    reader.sourceMask = readerSourceMask key := by
  unfold openReader at opened
  split at opened
  · obtain rfl := Option.some.inj opened
    exact goNext_sourceMask _
  · split at opened
    · cases opened
    · obtain rfl := Option.some.inj opened
      refine (goNext_sourceMask _).trans ?_
      split
      · rfl
      · rfl

/-! ## The postings a reader has not passed -/

section Walk

variable {blocks : BlockSource}

/-- The continuation blocks ahead of the reader hold the chunks. -/
structure Pending (blocks : BlockSource) (reader : AdvancedIndexReader)
    (chunks : List (List Posting)) : Prop where
  chain : ChainStored blocks (reader.blockSeqNumber.toNat + 1) chunks
  count : reader.remainingContinuationBlocks = chunks.length
  bound : reader.blockSeqNumber.toNat + chunks.length < 2 ^ 32

/-- The reader stands on the first of these postings and has the others ahead;
with none left it is at its end and closed. -/
def ReaderAt (blocks : BlockSource) (reader : AdvancedIndexReader) : List Posting → Prop
  | [] =>
      reader.isEnd = true ∧ reader.remainingContinuationBlocks = 0 ∧ reader.decoder.block = none
  | posting :: rest =>
      ∃ here chunks, rest = here ++ chunks.flatten ∧
        reader.decoder.On posting here ∧ Pending blocks reader chunks

theorem ReaderAt.isEnd_iff {reader : AdvancedIndexReader} {postings : List Posting}
    (stands : ReaderAt blocks reader postings) : reader.isEnd = true ↔ postings = [] := by
  cases postings with
  | nil => exact iff_of_true stands.1 rfl
  | cons posting rest =>
      obtain ⟨here, chunks, _, on, _⟩ := stands
      refine iff_of_false ?_ (by simp)
      simp [isEnd, UnifiedDecoder.isEnd, on.current]

theorem ReaderAt.head {reader : AdvancedIndexReader} {posting : Posting} {rest : List Posting}
    (stands : ReaderAt blocks reader (posting :: rest)) :
    reader.getDocumentId = posting.docId ∧ reader.getTermFreq = posting.tf8 := by
  obtain ⟨here, chunks, _, on, _⟩ := stands
  exact ⟨on.doc, on.tf⟩

/-- The header of a stored chunk opens exactly the window of the chunk. -/
theorem openContinuation_over {page : Page} {chunk : List Posting}
    (holds : HoldsContinuation page chunk) :
    ContinuationHeader.fromBytes page.data = some (chunkHeader chunk) ∧
      (openContinuation page).Over chunk := by
  have header := ContinuationHeader.fromBytes_of_slice holds.header
  have inside := holds.inside
  have bound : continuationHeaderSize = 12 ∧ pageSize = 4096 := ⟨rfl, rfl⟩
  have length : (chunkHeader chunk).dataLength.toNat = (encodePostings chunk).length := by
    show (UInt32.ofNat (encodePostings chunk).length).toNat = _
    rw [UInt32.toNat_ofNat']
    omega
  refine ⟨header, ?_⟩
  unfold openContinuation
  rw [header]
  dsimp only
  rw [length]
  exact UnifiedDecoder.openRaw_over inside holds.body

theorem nextSeq_toNat {reader : AdvancedIndexReader} {chunk : List Posting}
    {chunks : List (List Posting)} (pending : Pending blocks reader (chunk :: chunks)) :
    (reader.blockSeqNumber + 1).toNat = reader.blockSeqNumber.toNat + 1 := by
  have bound := pending.bound
  rw [List.length_cons] at bound
  rw [UInt32.toNat_add]
  show (_ + 1) % 2 ^ 32 = _
  omega

/-- One loaded continuation block: what is then ahead. -/
theorem Pending.tail {reader next : AdvancedIndexReader} {chunk : List Posting}
    {chunks : List (List Posting)} (pending : Pending blocks reader (chunk :: chunks))
    (seq : next.blockSeqNumber = reader.blockSeqNumber + 1)
    (remaining : next.remainingContinuationBlocks = reader.remainingContinuationBlocks - 1) :
    Pending blocks next chunks := by
  have bound := pending.bound
  have count := pending.count
  have seqEq : next.blockSeqNumber.toNat = reader.blockSeqNumber.toNat + 1 := by
    rw [seq, nextSeq_toNat pending]
  rw [List.length_cons] at bound count
  refine ⟨?_, ?_, ?_⟩
  · rw [seqEq]
    exact pending.chain.2
  · omega
  · omega

/-- `finish` on a reader that has run out of everything. -/
private theorem finish_ended {reader : AdvancedIndexReader} (ended : reader.isEnd = true)
    (pending : Pending blocks reader []) : ReaderAt blocks (finish reader) [] := by
  have none : reader.remainingContinuationBlocks = 0 := pending.count
  unfold finish
  rw [if_pos (by simp [ended, none])]
  exact ⟨rfl, none, rfl⟩

theorem finish_on {reader : AdvancedIndexReader} {posting : Posting}
    {here : List Posting} {chunks : List (List Posting)} (on : reader.decoder.On posting here)
    (pending : Pending blocks reader chunks) :
    ReaderAt blocks (finish reader) (posting :: (here ++ chunks.flatten)) := by
  unfold finish
  rw [if_neg (by simp [isEnd, UnifiedDecoder.isEnd, on.current])]
  exact ⟨here, chunks, rfl, on, pending⟩

/-- The loop of `GoNext` stops at once on a current posting. -/
theorem goNextLoop_on {reader : AdvancedIndexReader}
    (current : reader.decoder.hasCurrent = true) (turns : Nat) :
    goNextLoop blocks turns reader = reader := by
  cases turns with
  | zero => rfl
  | succ turns => simp [goNextLoop, isEnd, UnifiedDecoder.isEnd, current]

/-- From the end of a window the loop of `GoNext` moves onto the next chunk. -/
private theorem goNextLoop_ended {reader : AdvancedIndexReader} {chunks : List (List Posting)}
    (ended : reader.isEnd = true) (pending : Pending blocks reader chunks) :
    ReaderAt blocks (finish (goNextLoop blocks reader.remainingContinuationBlocks reader))
      chunks.flatten := by
  rw [pending.count]
  cases chunks with
  | nil => exact finish_ended ended pending
  | cons chunk chunks =>
      obtain ⟨⟨page, found, holds⟩, _⟩ := pending.chain
      obtain ⟨posting, rest, rfl⟩ := List.exists_cons_of_ne_nil holds.nonempty
      have window := (openContinuation_over holds).2
      have on := UnifiedDecoder.decodeNext_cons window
      have more : reader.remainingContinuationBlocks > 0 := by
        rw [pending.count]
        simp
      rw [List.length_cons, goNextLoop, if_pos (by simp [ended, more])]
      simp only [loadContinuation, nextSeq_toNat pending, found]
      -- The loaded window is not empty, so the loop stops here.
      rw [goNextLoop_on on.current]
      exact finish_on on (pending.tail rfl rfl)

/-- `GoNext` on a window moves onto the first posting of what is ahead. -/
theorem goNext_ahead {reader : AdvancedIndexReader} {here : List Posting}
    {chunks : List (List Posting)} (ahead : reader.decoder.Over here)
    (pending : Pending blocks reader chunks) :
    ReaderAt blocks (goNext blocks reader) (here ++ chunks.flatten) := by
  have pendingNext : Pending blocks
      { reader with decoder := reader.decoder.decodeNext } chunks :=
    ⟨pending.chain, pending.count, pending.bound⟩
  cases here with
  | nil =>
      have endedNext :
          ({ reader with decoder := reader.decoder.decodeNext } :
            AdvancedIndexReader).isEnd = true := by
        simp [isEnd, UnifiedDecoder.isEnd, UnifiedDecoder.decodeNext_nil ahead]
      exact goNextLoop_ended endedNext pendingNext
  | cons next here =>
      have onNext := UnifiedDecoder.decodeNext_cons ahead
      unfold goNext
      dsimp only
      rw [goNextLoop_on onNext.current]
      exact finish_on onNext pendingNext

/-- `GoNext` passes the current posting. -/
theorem goNext_spec {reader : AdvancedIndexReader} {postings : List Posting}
    (stands : ReaderAt blocks reader postings) :
    ReaderAt blocks (goNext blocks reader) postings.tail := by
  cases postings with
  | nil =>
      obtain ⟨ended, none, released⟩ := stands
      have pending : Pending blocks
          { reader with decoder := reader.decoder.decodeNext } [] :=
        ⟨trivial, none, reader.blockSeqNumber.toNat_lt⟩
      have endedNext :
          ({ reader with decoder := reader.decoder.decodeNext } :
            AdvancedIndexReader).isEnd = true := by
        simp [isEnd, UnifiedDecoder.isEnd, UnifiedDecoder.decodeNext_released released]
      exact goNextLoop_ended endedNext pending
  | cons posting rest =>
      obtain ⟨here, chunks, rfl, on, pending⟩ := stands
      exact goNext_ahead on.ahead pending

theorem goNext_iterate {reader : AdvancedIndexReader} {postings : List Posting}
    (stands : ReaderAt blocks reader postings) (count : Nat) :
    ReaderAt blocks ((goNext blocks)^[count] reader) (postings.drop count) := by
  induction count with
  | zero => exact stands
  | succ count inductionHypothesis =>
      rw [Function.iterate_succ_apply', ← List.tail_drop]
      exact goNext_spec inductionHypothesis

/-- What `GoNext` calls show: posting after posting, and then the end, for good. -/
def Yields (blocks : BlockSource) (reader : AdvancedIndexReader) (postings : List Posting) : Prop :=
  ∀ count,
    match postings[count]? with
    | some posting =>
        ((goNext blocks)^[count] reader).isEnd = false ∧
          ((goNext blocks)^[count] reader).getDocumentId = posting.docId ∧
          ((goNext blocks)^[count] reader).getTermFreq = posting.tf8
    | none => ((goNext blocks)^[count] reader).isEnd = true

theorem ReaderAt.yields {reader : AdvancedIndexReader} {postings : List Posting}
    (stands : ReaderAt blocks reader postings) : Yields blocks reader postings := by
  intro count
  have later := goNext_iterate stands count
  cases found : postings[count]? with
  | none =>
      rw [later.isEnd_iff, List.drop_eq_nil_iff]
      exact List.getElem?_eq_none_iff.mp found
  | some posting =>
      obtain ⟨inside, value⟩ := List.getElem?_eq_some_iff.mp found
      rw [List.drop_eq_getElem_cons inside, value] at later
      refine ⟨?_, later.head⟩
      rw [Bool.eq_false_iff, Ne, later.isEnd_iff]
      simp

/-! ### Skipping -/

/-- A chunk whose last id is below the target holds nothing to stop at. -/
theorem dropWhile_chunk {chunk : List Posting} {target : UInt64}
    (ascending : AscendingIds chunk) (nonempty : chunk ≠ [])
    (passed : (chunkHeader chunk).maxDocId < target) (later : List Posting) :
    (chunk ++ later).dropWhile (fun posting => posting.docId < target) =
      later.dropWhile fun posting => posting.docId < target := by
  obtain ⟨init, last, rfl⟩ := (List.eq_nil_or_concat chunk).resolve_left nonempty
  rw [List.concat_eq_append] at ascending passed ⊢
  simp only [chunkHeader, List.getLast?_append, List.getLast?_singleton, Option.some_or,
    Option.map_some, Option.getD_some] at passed
  apply List.dropWhile_append_of_pos
  intro posting member
  rcases List.mem_append.mp member with inInit | isLast
  · have below := (List.pairwise_append.mp ascending).2.2 posting inInit last
      (List.mem_singleton_self _)
    simpa using UInt64.lt_trans below passed
  · rw [List.mem_singleton.mp isLast]
    simpa using passed

/-- A chunk whose last id reaches the target has a posting to stop at. -/
theorem dropWhile_reached {chunk : List Posting} {target : UInt64} (nonempty : chunk ≠ [])
    (reached : ¬ (chunkHeader chunk).maxDocId < target) :
    chunk.dropWhile (fun posting => posting.docId < target) ≠ [] := by
  obtain ⟨init, last, rfl⟩ := (List.eq_nil_or_concat chunk).resolve_left nonempty
  rw [List.concat_eq_append] at reached ⊢
  simp only [chunkHeader, List.getLast?_append, List.getLast?_singleton, Option.some_or,
    Option.map_some, Option.getD_some] at reached
  intro gone
  have := List.dropWhile_eq_nil_iff.mp gone last (by simp)
  exact reached (by simpa using this)

theorem dropWhile_append_cons {chunk later : List Posting} {target : UInt64}
    {posting : Posting} {rest : List Posting}
    (stopped : chunk.dropWhile (fun posting => posting.docId < target) = posting :: rest) :
    (chunk ++ later).dropWhile (fun posting => posting.docId < target) =
      posting :: (rest ++ later) := by
  rw [List.dropWhile_append, stopped]
  simp

/-- Once the decoder stands on the posting to stop at, the loop of `GoUntil`
leaves. -/
theorem goUntilLoop_on {source : BlockSource} {reader : AdvancedIndexReader} {target : UInt64}
    {posting next : Posting} {here later : List Posting} {chunks : List (List Posting)}
    (on : reader.decoder.On posting here) (pending : Pending blocks reader chunks)
    (stopped : (posting :: here).dropWhile (fun posting => posting.docId < target) =
      next :: later) (turns : Nat) :
    ReaderAt blocks (finish (goUntilLoop source target (turns + 1) reader))
      (next :: (later ++ chunks.flatten)) := by
  have skipped := UnifiedDecoder.goUntil_on on target
  rw [stopped] at skipped
  have notEnd : ({ reader with decoder := reader.decoder.goUntil target } :
      AdvancedIndexReader).isEnd = false := by
    simp [isEnd, UnifiedDecoder.isEnd, skipped.current]
  rw [goUntilLoop, if_pos notEnd]
  exact finish_on skipped ⟨pending.chain, pending.count, pending.bound⟩

/-- From an exhausted window the loop of `GoUntil` passes whole chunks by their
headers and then searches the first one that reaches the target. -/
private theorem goUntilLoop_ended {reader : AdvancedIndexReader} {target : UInt64}
    {chunks : List (List Posting)} (ended : (reader.decoder.goUntil target).hasCurrent = false)
    (pending : Pending blocks reader chunks) (ascending : ∀ chunk ∈ chunks, AscendingIds chunk) :
    ReaderAt blocks (finish (goUntilLoop blocks target (chunks.length + 1) reader))
      (chunks.flatten.dropWhile fun posting => posting.docId < target) := by
  induction chunks generalizing reader with
  | nil =>
      have none : reader.remainingContinuationBlocks = 0 := pending.count
      rw [goUntilLoop]
      simp only [isEnd, UnifiedDecoder.isEnd, ended, Bool.not_false, Bool.true_eq_false, if_false,
        none, if_true]
      apply finish_ended
      · simp [isEnd, UnifiedDecoder.isEnd, releaseCurrentBlock, UnifiedDecoder.takeBlock, ended]
      · exact ⟨trivial, rfl, reader.blockSeqNumber.toNat_lt⟩
  | cons chunk chunks inductionHypothesis =>
      obtain ⟨⟨page, found, holds⟩, _⟩ := pending.chain
      obtain ⟨header, window⟩ := openContinuation_over holds
      have more : reader.remainingContinuationBlocks ≠ 0 := by
        rw [pending.count]
        simp
      have restAscending : ∀ chunk ∈ chunks, AscendingIds chunk :=
        fun chunk member => ascending chunk (List.mem_cons_of_mem _ member)
      rw [goUntilLoop]
      simp only [isEnd, UnifiedDecoder.isEnd, ended, Bool.not_false, Bool.true_eq_false, if_false,
        more, releaseCurrentBlock, nextSeq_toNat pending, found, header, List.flatten_cons]
      by_cases passed : (chunkHeader chunk).maxDocId < target
      · rw [if_pos passed, dropWhile_chunk (ascending chunk List.mem_cons_self) holds.nonempty
          passed]
        refine inductionHypothesis ?_ (pending.tail rfl rfl) restAscending
        have taken : (reader.decoder.goUntil target).takeBlock.hasCurrent = false := ended
        have still := UnifiedDecoder.goUntil_released rfl taken target
        show ((reader.decoder.goUntil target).takeBlock.goUntil target).hasCurrent = false
        rw [still]
        exact ended
      · obtain ⟨posting, rest, rfl⟩ := List.exists_cons_of_ne_nil holds.nonempty
        have on := UnifiedDecoder.decodeNext_cons window
        obtain ⟨next, later, stopped⟩ :=
          List.exists_cons_of_ne_nil (dropWhile_reached holds.nonempty passed)
        rw [if_neg passed, dropWhile_append_cons stopped]
        simp only [on.current, Bool.not_true, Bool.false_eq_true, if_false, List.length_cons]
        exact goUntilLoop_on on (pending.tail rfl rfl) stopped _

/-- `GoUntil` passes the postings below its target. -/
theorem goUntil_spec {reader : AdvancedIndexReader} {postings : List Posting}
    (stands : ReaderAt blocks reader postings) (ascending : AscendingIds postings)
    (target : UInt64) :
    ReaderAt blocks (goUntil blocks reader target)
      (postings.dropWhile fun posting => posting.docId < target) := by
  unfold goUntil
  cases postings with
  | nil =>
      obtain ⟨ended, none, released⟩ := stands
      have noCurrent : reader.decoder.hasCurrent = false := by
        simpa [isEnd, UnifiedDecoder.isEnd] using ended
      have pending : Pending blocks reader [] := ⟨trivial, none, reader.blockSeqNumber.toNat_lt⟩
      have still : (reader.decoder.goUntil target).hasCurrent = false := by
        rw [UnifiedDecoder.goUntil_released released noCurrent]
        exact noCurrent
      rw [pending.count]
      exact goUntilLoop_ended still pending (by simp)
  | cons posting rest =>
      obtain ⟨here, chunks, rfl, on, pending⟩ := stands
      have skipped := UnifiedDecoder.goUntil_on on target
      rw [pending.count, ← List.cons_append]
      cases stopped : (posting :: here).dropWhile fun posting => posting.docId < target with
      | nil =>
          have chunkAscending : ∀ chunk ∈ chunks, AscendingIds chunk := by
            intro chunk member
            have sublist : chunk.Sublist (posting :: (here ++ chunks.flatten)) :=
              ((List.sublist_flatten_of_mem member).trans (List.sublist_append_right _ _)).trans
                (List.sublist_cons_self _ _)
            exact List.Pairwise.sublist sublist ascending
          rw [List.dropWhile_append, stopped]
          simp only [List.isEmpty_nil, if_true]
          rw [stopped] at skipped
          exact goUntilLoop_ended skipped pending chunkAscending
      | cons next later =>
          rw [dropWhile_append_cons stopped]
          exact goUntilLoop_on on pending stopped _

/-! ### Opening -/

/-- Opening a stored list. -/
theorem openReader_stored {table : IndexBlockTable} {key : Str} {location : IndexLocation}
    {first : List Posting} {chunks : List (List Posting)}
    (found : table.findTermData key = some location)
    (stored : ListStored table.indexBlocks location first chunks) {numDocuments : UInt64}
    (documents : numDocuments ≠ 0) :
    ∃ reader, openReader table key numDocuments true = some reader ∧
      ReaderAt table.indexBlocks reader (first ++ chunks.flatten) := by
  obtain ⟨page, pageFound, window⟩ := stored.page
  have ahead := UnifiedDecoder.openRaw_over stored.inside window
  let reader : AdvancedIndexReader :=
    { docFreq := location.docFreq
      sourceMask := readerSourceMask key
      blockSeqNumber := location.indexBlockId
      remainingContinuationBlocks := location.continuationBlockCount.toNat
      decoder := .openRaw page location.indexOffset location.indexLength }
  have pending : Pending table.indexBlocks reader chunks :=
    ⟨stored.chain, stored.count, stored.idBound⟩
  refine ⟨goNext table.indexBlocks reader, ?_, goNext_ahead ahead pending⟩
  simp [openReader, unopened, found, documents, pageFound, reader]

/-- Opening a term that the table does not hold. -/
theorem openReader_absent {table : IndexBlockTable} {key : Str}
    (absent : table.findTermData key = none) (numDocuments : UInt64) (averagePositive : Bool) :
    ∃ reader, openReader table key numDocuments averagePositive = some reader ∧
      ReaderAt table.indexBlocks reader [] := by
  refine ⟨_, by rw [openReader, absent], ?_⟩
  have stands : ReaderAt table.indexBlocks (unopened key) [] := ⟨rfl, rfl, rfl⟩
  exact goNext_spec stands

end Walk

end AdvancedIndexReader

end MoonShot.Reader
