import MoonShot.Reader.Advanced

/-!
The leaf reader when some of its block reads fail.

`GetBlock` answers `None` for a block it cannot have, each time anew. Owns runs
of calls in each of which other reads fail, what it means that a run only cuts
the list short, and when it does: as long as no read succeeds behind a failed one
and brings the reader back from its end.
-/

namespace MoonShot.Reader

open MoonShot.Lib
open MoonShot.Postings
open MoonShot.Format
open MoonShot.Table

namespace AdvancedIndexReader

/-! ## Runs with failing reads -/

/-- Some reads of the second source fail in the first. -/
def PartOf (faulty blocks : BlockSource) : Prop :=
  ∀ blockId, faulty blockId = none ∨ faulty blockId = blocks blockId

inductive Move where
  | goNext
  | goUntil (target : UInt64)

/-- What a move leaves of the postings ahead. -/
def Move.pass (postings : List Posting) : Move → List Posting
  | .goNext => postings.tail
  | .goUntil target => postings.dropWhile fun posting => posting.docId < target

/-- A move, with what `GetBlock` answers while it runs. No call asks for a block
twice. -/
structure FaultyCall where
  move : Move
  blocks : BlockSource

def FaultyCall.run (reader : AdvancedIndexReader) : FaultyCall → AdvancedIndexReader
  | ⟨.goNext, blocks⟩ => goNext blocks reader
  | ⟨.goUntil target, blocks⟩ => goUntil blocks reader target

/-- The reader is at its end or shows the first of the postings. -/
def Shows (reader : AdvancedIndexReader) (postings : List Posting) : Prop :=
  reader.isEnd = true ∨ ∃ posting, postings.head? = some posting ∧
    reader.getDocumentId = posting.docId ∧ reader.getTermFreq = posting.tf8

/-- The reader shows what is first of the postings ahead until it comes to its end,
and then it stays there. -/
def OnlyTruncates : List FaultyCall → AdvancedIndexReader → List Posting → Prop
  | [], reader, postings => Shows reader postings
  | call :: rest, reader, postings =>
      Shows reader postings ∧ (reader.isEnd = true → (call.run reader).isEnd = true) ∧
        OnlyTruncates rest (call.run reader) (call.move.pass postings)

/-- Behind the window of the reader, `GetBlock` hands `GoUntil` block after block up
to one that reaches the target. -/
def reaches (blocks : BlockSource) (target : UInt64) :
    (remaining : Nat) → (blockSeqNumber : UInt32) → Bool
  | 0, _ => false
  | remaining + 1, blockSeqNumber =>
      match blocks (blockSeqNumber + 1).toNat with
      | none => false
      | some page =>
          match ContinuationHeader.fromBytes page.data with
          | none => false
          | some header =>
              if header.maxDocId < target then
                reaches blocks target remaining (blockSeqNumber + 1)
              else true

/-- The call gets a block with a posting it stops at. -/
def FaultyCall.revives (reader : AdvancedIndexReader) : FaultyCall → Bool
  | ⟨.goNext, blocks⟩ =>
      decide (0 < reader.remainingContinuationBlocks) &&
        (blocks (reader.blockSeqNumber + 1).toNat).isSome
  | ⟨.goUntil target, blocks⟩ =>
      reaches blocks target reader.remainingContinuationBlocks reader.blockSeqNumber

/-- No call on a reader at its end gets such a block. -/
def Careful : List FaultyCall → AdvancedIndexReader → Prop
  | [], _ => True
  | call :: rest, reader =>
      (reader.isEnd = true → call.revives reader = false) ∧ Careful rest (call.run reader)

/-- Calls that get no block bring no reader back. -/
theorem careful_of_unread {calls : List FaultyCall}
    (unread : ∀ call ∈ calls, call.blocks = fun _ => none) (reader : AdvancedIndexReader) :
    Careful calls reader := by
  induction calls generalizing reader with
  | nil => trivial
  | cons call rest inductionHypothesis =>
      have none_ := unread call List.mem_cons_self
      refine ⟨fun _ => ?_, inductionHypothesis
        (fun other member => unread other (List.mem_cons_of_mem _ member)) _⟩
      obtain ⟨move, blocks⟩ := call
      obtain rfl : blocks = fun _ => none := none_
      cases move with
      | goNext => exact Bool.and_false _
      | goUntil target =>
          show reaches (fun _ => none) target reader.remainingContinuationBlocks _ = false
          cases reader.remainingContinuationBlocks <;> rfl

/-! ## One call -/

section Calls

variable {blocks : BlockSource}

/-- A reader on a stored list: it stands on the first of the postings, of which
`lost` are not in its blocks, or it is at its end without a block. -/
inductive Stage (blocks : BlockSource) (reader : AdvancedIndexReader) (postings : List Posting) :
    Prop
  | live {posting : Posting} {here : List Posting} {chunks : List (List Posting)}
      {lost : List Posting} (split : postings = posting :: (here ++ chunks.flatten ++ lost))
      (on : reader.decoder.On posting here) (pending : Pending blocks reader chunks)
  | stalled {chunks : List (List Posting)} (ended : reader.decoder.hasCurrent = false)
      (released : reader.decoder.block = none) (pending : Pending blocks reader chunks)
      (ascending : ∀ chunk ∈ chunks, AscendingIds chunk)

theorem isEnd_iff (reader : AdvancedIndexReader) :
    reader.isEnd = true ↔ reader.decoder.hasCurrent = false := by
  rw [isEnd, UnifiedDecoder.isEnd, Bool.not_eq_true']

theorem Stage.shows {reader : AdvancedIndexReader} {postings : List Posting}
    (stage : Stage blocks reader postings) : Shows reader postings := by
  cases stage with
  | live split on pending => exact Or.inr ⟨_, by rw [split]; rfl, on.doc, on.tf⟩
  | stalled ended released pending ascending => exact Or.inl ((isEnd_iff reader).mpr ended)

theorem Pending.withDecoder {reader : AdvancedIndexReader} {chunks : List (List Posting)}
    (pending : Pending blocks reader chunks) (decoder : UnifiedDecoder) :
    Pending blocks { reader with decoder := decoder } chunks :=
  ⟨pending.chain, pending.count, pending.bound⟩

/-- A reader at its end without a block keeps that through the last statement of a
call. -/
theorem stalled_finish {reader : AdvancedIndexReader} {chunks : List (List Posting)}
    (ended : reader.decoder.hasCurrent = false) (released : reader.decoder.block = none)
    (pending : Pending blocks reader chunks) :
    (finish reader).decoder.hasCurrent = false ∧ (finish reader).decoder.block = none ∧
      Pending blocks (finish reader) chunks := by
  unfold finish
  split
  · exact ⟨rfl, rfl, pending.chain, pending.count, pending.bound⟩
  · exact ⟨ended, released, pending⟩

/-- The outcome of a call that has used up its window: it stands on the first of the
postings ahead, or nothing was opened. -/
def Moved (blocks : BlockSource) (next : AdvancedIndexReader) (ahead : List Posting)
    (opened : Bool) : Prop :=
  (opened = true ∧ ∃ posting here chunks, ahead = posting :: (here ++ chunks.flatten) ∧
      next.decoder.On posting here ∧ Pending blocks next chunks) ∨
    (opened = false ∧ next.decoder.hasCurrent = false ∧ next.decoder.block = none ∧
      ∃ chunks, Pending blocks next chunks ∧ ∀ chunk ∈ chunks, AscendingIds chunk)

/-- From the end of a window `GoNext` opens the next block, if it gets it. -/
theorem goNextLoop_faulty {faulty : BlockSource} (part : PartOf faulty blocks)
    {reader : AdvancedIndexReader} {chunks : List (List Posting)} (ended : reader.isEnd = true)
    (pending : Pending blocks reader chunks) (ascending : ∀ chunk ∈ chunks, AscendingIds chunk) :
    Moved blocks (finish (goNextLoop faulty reader.remainingContinuationBlocks reader))
      chunks.flatten (FaultyCall.revives reader ⟨.goNext, faulty⟩) := by
  have noCurrent := (isEnd_iff reader).mp ended
  have count := pending.count
  unfold FaultyCall.revives
  dsimp only
  cases chunks with
  | nil =>
      have none_ : reader.remainingContinuationBlocks = 0 := count
      rw [none_]
      refine Or.inr ⟨rfl, ?_⟩
      unfold finish
      rw [goNextLoop, if_pos (by simp [ended, none_])]
      exact ⟨rfl, rfl, [], ⟨trivial, none_, reader.blockSeqNumber.toNat_lt⟩, by simp⟩
  | cons chunk rest =>
      rw [List.length_cons] at count
      obtain ⟨⟨page, found, holds⟩, _⟩ := pending.chain
      have seq := nextSeq_toNat pending
      have turns : goNextLoop faulty reader.remainingContinuationBlocks reader =
          goNextLoop faulty (rest.length + 1) reader :=
        congrArg (fun turns => goNextLoop faulty turns reader) count
      rw [turns, goNextLoop, if_pos (by simp [ended, count])]
      rcases part (reader.blockSeqNumber + 1).toNat with failed | got
      · refine Or.inr ⟨by rw [failed]; simp, ?_⟩
        unfold loadContinuation
        dsimp only
        rw [failed]
        have released : reader.releaseCurrentBlock.decoder.hasCurrent = false := noCurrent
        have stalled := stalled_finish released rfl (pending.withDecoder reader.decoder.takeBlock)
        exact ⟨stalled.1, stalled.2.1, _, stalled.2.2, ascending⟩
      · rw [seq, found] at got
        obtain ⟨posting, later, rfl⟩ := List.exists_cons_of_ne_nil holds.nonempty
        have on := UnifiedDecoder.decodeNext_cons (openContinuation_over holds).2
        refine Or.inl ⟨by rw [seq, got]; simp [count], ?_⟩
        unfold loadContinuation
        dsimp only
        rw [seq, got]
        dsimp only
        rw [goNextLoop_on on.current]
        let next : AdvancedIndexReader :=
          { reader with
            blockSeqNumber := reader.blockSeqNumber + 1
            remainingContinuationBlocks := reader.remainingContinuationBlocks - 1
            decoder := (openContinuation page).decodeNext }
        have stands : ReaderAt blocks (finish next) (posting :: (later ++ rest.flatten)) :=
          finish_on on (pending.tail rfl rfl)
        obtain ⟨here, chunks, split, onFirst, ahead⟩ := stands
        exact ⟨posting, here, chunks, by rw [← split, List.flatten_cons, List.cons_append],
          onFirst, ahead⟩

/-- From the end of a window `GoUntil` opens the first block that reaches the target,
if it gets all blocks up to it. -/
theorem goUntilLoop_faulty {faulty : BlockSource} (part : PartOf faulty blocks)
    {reader : AdvancedIndexReader} {target : UInt64} {chunks : List (List Posting)}
    (ended : (reader.decoder.goUntil target).hasCurrent = false)
    (pending : Pending blocks reader chunks) (ascending : ∀ chunk ∈ chunks, AscendingIds chunk) :
    Moved blocks (finish (goUntilLoop faulty target (chunks.length + 1) reader))
      (chunks.flatten.dropWhile fun posting => posting.docId < target)
      (reaches faulty target chunks.length reader.blockSeqNumber) := by
  induction chunks generalizing reader with
  | nil =>
      have none_ : reader.remainingContinuationBlocks = 0 := pending.count
      refine Or.inr ⟨rfl, ?_⟩
      rw [goUntilLoop]
      simp only [isEnd, UnifiedDecoder.isEnd, ended, Bool.not_false, Bool.true_eq_false, if_false,
        none_, if_true]
      unfold finish
      rw [if_pos (by simp [isEnd, UnifiedDecoder.isEnd, releaseCurrentBlock,
        UnifiedDecoder.takeBlock, ended])]
      exact ⟨rfl, rfl, [], ⟨trivial, rfl, reader.blockSeqNumber.toNat_lt⟩, by simp⟩
  | cons chunk chunks inductionHypothesis =>
      obtain ⟨⟨page, found, holds⟩, _⟩ := pending.chain
      obtain ⟨header, window⟩ := openContinuation_over holds
      have more : reader.remainingContinuationBlocks ≠ 0 := by
        rw [pending.count]
        simp
      have seq := nextSeq_toNat pending
      have restAscending : ∀ chunk ∈ chunks, AscendingIds chunk :=
        fun chunk member => ascending chunk (List.mem_cons_of_mem _ member)
      rw [goUntilLoop, List.length_cons, reaches]
      simp only [isEnd, UnifiedDecoder.isEnd, ended, Bool.not_false, Bool.true_eq_false, if_false,
        more, releaseCurrentBlock, List.flatten_cons]
      rcases part (reader.blockSeqNumber + 1).toNat with failed | got
      · rw [failed]
        dsimp only
        have stalled := stalled_finish ended rfl
          (pending.withDecoder (reader.decoder.goUntil target).takeBlock)
        exact Or.inr ⟨rfl, stalled.1, stalled.2.1, _, stalled.2.2, ascending⟩
      · rw [got, seq, found]
        dsimp only
        rw [header]
        dsimp only
        by_cases passed : (chunkHeader chunk).maxDocId < target
        · rw [if_pos passed, if_pos passed,
            dropWhile_chunk (ascending chunk List.mem_cons_self) holds.nonempty passed]
          refine inductionHypothesis ?_ (pending.tail rfl rfl) restAscending
          have taken : (reader.decoder.goUntil target).takeBlock.hasCurrent = false := ended
          have still := UnifiedDecoder.goUntil_released rfl taken target
          show ((reader.decoder.goUntil target).takeBlock.goUntil target).hasCurrent = false
          rw [still]
          exact ended
        · obtain ⟨posting, rest, rfl⟩ := List.exists_cons_of_ne_nil holds.nonempty
          have on := UnifiedDecoder.decodeNext_cons window
          obtain ⟨next, later, stopped⟩ :=
            List.exists_cons_of_ne_nil (dropWhile_reached holds.nonempty passed)
          rw [if_neg passed, if_neg passed, dropWhile_append_cons stopped]
          simp only [on.current, Bool.not_true, Bool.false_eq_true, if_false]
          let opened : AdvancedIndexReader :=
            { reader with
              blockSeqNumber := reader.blockSeqNumber + 1
              remainingContinuationBlocks := reader.remainingContinuationBlocks - 1
              decoder := (openContinuation page).decodeNext }
          have behind : Pending blocks opened chunks := pending.tail rfl rfl
          have stands : ReaderAt blocks
              (finish (goUntilLoop faulty target (chunks.length + 1) opened))
              (next :: (later ++ chunks.flatten)) := goUntilLoop_on on behind stopped _
          obtain ⟨here, after, split, onNext, ahead⟩ := stands
          exact Or.inl ⟨rfl, next, here, after, by rw [split], onNext, ahead⟩

/-- A call on a reader at its end moves it onto a posting or leaves it there. -/
theorem run_stalled {reader : AdvancedIndexReader} {chunks : List (List Posting)}
    (ended : reader.decoder.hasCurrent = false) (released : reader.decoder.block = none)
    (pending : Pending blocks reader chunks) (ascending : ∀ chunk ∈ chunks, AscendingIds chunk)
    {call : FaultyCall} (part : PartOf call.blocks blocks) :
    ∃ ahead, Moved blocks (call.run reader) ahead (call.revives reader) := by
  obtain ⟨move, faulty⟩ := call
  cases move with
  | goNext =>
      have still := UnifiedDecoder.decodeNext_released released
      have same : { reader with decoder := reader.decoder.decodeNext } = reader := by
        rw [still, ← ended]
      refine ⟨chunks.flatten, ?_⟩
      show Moved blocks (goNext faulty reader) _ _
      unfold goNext
      dsimp only
      rw [same]
      exact goNextLoop_faulty part ((isEnd_iff reader).mpr ended) pending ascending
  | goUntil target =>
      have still : (reader.decoder.goUntil target).hasCurrent = false := by
        rw [UnifiedDecoder.goUntil_released released ended]
        exact ended
      refine ⟨chunks.flatten.dropWhile fun posting => posting.docId < target, ?_⟩
      show Moved blocks (goUntil faulty reader target) _
        (reaches faulty target reader.remainingContinuationBlocks reader.blockSeqNumber)
      unfold goUntil
      rw [pending.count]
      exact goUntilLoop_faulty part still pending ascending

/-- A call on a reader that stands on a posting moves it as the list says, or to its
end. -/
theorem run_live {reader : AdvancedIndexReader} {posting : Posting} {here lost : List Posting}
    {chunks : List (List Posting)} (on : reader.decoder.On posting here)
    (pending : Pending blocks reader chunks)
    (ascending : AscendingIds (posting :: (here ++ chunks.flatten ++ lost)))
    {call : FaultyCall} (part : PartOf call.blocks blocks) :
    Stage blocks (call.run reader)
      (call.move.pass (posting :: (here ++ chunks.flatten ++ lost))) := by
  have fromMoved : ∀ {next ahead opened}, Moved blocks next ahead opened →
      Stage blocks next (ahead ++ lost) := by
    rintro next ahead opened (⟨_, first, here, chunks, rfl, on, pending⟩ |
      ⟨_, ended, released, chunks, pending, ascending⟩)
    · exact @Stage.live blocks next _ first here chunks lost (by simp) on pending
    · exact Stage.stalled ended released pending ascending
  have fromStands : ∀ {next first rest}, ReaderAt blocks next (first :: rest) →
      Stage blocks next (first :: (rest ++ lost)) := by
    rintro next first rest ⟨here, chunks, rfl, on, pending⟩
    exact Stage.live rfl on pending
  have listed : posting :: (here ++ chunks.flatten ++ lost) =
      (posting :: here) ++ (chunks.flatten ++ lost) := by simp
  have chunkAscending : ∀ chunk ∈ chunks, AscendingIds chunk := by
    intro chunk member
    rw [listed] at ascending
    have inside : AscendingIds (chunks.flatten ++ lost) := (List.pairwise_append.mp ascending).2.1
    have flat : AscendingIds chunks.flatten := (List.pairwise_append.mp inside).1
    exact List.Pairwise.sublist (List.sublist_flatten_of_mem member) flat
  obtain ⟨move, faulty⟩ := call
  cases move with
  | goNext =>
      show Stage blocks (goNext faulty reader) (here ++ chunks.flatten ++ lost)
      unfold goNext
      dsimp only
      have behind := pending.withDecoder reader.decoder.decodeNext
      cases here with
      | nil =>
          have ended : ({ reader with decoder := reader.decoder.decodeNext } :
              AdvancedIndexReader).isEnd = true := by
            simp [isEnd, UnifiedDecoder.isEnd, UnifiedDecoder.decodeNext_nil on.ahead]
          exact fromMoved (goNextLoop_faulty part ended behind chunkAscending)
      | cons next here =>
          have onNext := UnifiedDecoder.decodeNext_cons on.ahead
          rw [goNextLoop_on onNext.current]
          exact fromStands (finish_on onNext behind)
  | goUntil target =>
      show Stage blocks (goUntil faulty reader target)
        ((posting :: (here ++ chunks.flatten ++ lost)).dropWhile
          fun posting => posting.docId < target)
      have skipped := UnifiedDecoder.goUntil_on on target
      unfold goUntil
      rw [pending.count, listed]
      cases stopped : (posting :: here).dropWhile fun posting => posting.docId < target with
      | nil =>
          rw [stopped] at skipped
          have moved := goUntilLoop_faulty part skipped pending chunkAscending
          rw [List.dropWhile_append, stopped]
          simp only [List.isEmpty_nil, if_true]
          rcases moved with ⟨_, first, here, chunks, split, onFirst, ahead⟩ |
            ⟨_, ended, released, chunks, ahead, chunkAscending⟩
          · rw [dropWhile_append_cons split]
            exact Stage.live rfl onFirst ahead
          · exact Stage.stalled ended released ahead chunkAscending
      | cons next later =>
          have stands : ReaderAt blocks
              (finish (goUntilLoop faulty target (chunks.length + 1) reader))
              (next :: (later ++ chunks.flatten)) := goUntilLoop_on on pending stopped _
          rw [dropWhile_append_cons stopped, ← List.append_assoc]
          exact fromStands stands

theorem pass_ascending {postings : List Posting} (ascending : AscendingIds postings)
    (move : Move) : AscendingIds (move.pass postings) := by
  cases move with
  | goNext => exact List.Pairwise.sublist (List.tail_sublist postings) ascending
  | goUntil target => exact List.Pairwise.sublist (List.dropWhile_sublist _) ascending

/-! ## Runs -/

/-- A run only cuts the list short exactly when no call brings the reader back from
its end. -/
theorem onlyTruncates_iff {reader : AdvancedIndexReader} {postings : List Posting}
    (stage : Stage blocks reader postings) (ascending : AscendingIds postings)
    {calls : List FaultyCall} (parts : ∀ call ∈ calls, PartOf call.blocks blocks) :
    OnlyTruncates calls reader postings ↔ Careful calls reader := by
  induction calls generalizing reader postings with
  | nil => exact iff_of_true stage.shows trivial
  | cons call rest inductionHypothesis =>
      have part := parts call List.mem_cons_self
      have later : ∀ call ∈ rest, PartOf call.blocks blocks :=
        fun call member => parts call (List.mem_cons_of_mem _ member)
      have passed := pass_ascending ascending call.move
      rw [OnlyTruncates, Careful]
      cases stage with
      | live split on pending =>
          have current : reader.isEnd ≠ true := by
            rw [Ne, isEnd_iff, on.current]
            exact Bool.noConfusion
          have shows := (Stage.live split on pending).shows
          rw [split] at ascending passed ⊢
          have next := inductionHypothesis (run_live on pending ascending part) passed later
          rw [split] at shows
          rw [next]
          exact ⟨fun both => ⟨fun ended => absurd ended current, both.2.2⟩,
            fun both => ⟨shows, fun ended => absurd ended current, both.2⟩⟩
      | stalled ended released pending chunkAscending =>
          have shows := (Stage.stalled ended released pending chunkAscending : Stage blocks reader
            postings).shows
          have atEnd := (isEnd_iff reader).mpr ended
          obtain ⟨ahead, moved⟩ := run_stalled ended released pending chunkAscending part
          rcases moved with ⟨revived, first, here, chunks, _, on, _⟩ |
            ⟨still, noCurrent, gone, chunks, behind, behindAscending⟩
          · -- The reader is back on a posting, so neither side holds.
            have back : (call.run reader).isEnd ≠ true := by
              rw [Ne, isEnd_iff, on.current]
              exact Bool.noConfusion
            refine iff_of_false (fun both => back (both.2.1 atEnd)) fun both => ?_
            rw [both.1 atEnd] at revived
            cases revived
          · have next := inductionHypothesis
              (Stage.stalled noCurrent gone behind behindAscending) passed later
            rw [next]
            exact ⟨fun both => ⟨fun _ => still, both.2.2⟩,
              fun both => ⟨shows, fun _ => (isEnd_iff _).mpr noCurrent, both.2⟩⟩

/-! ## Opening -/

/-- `Open` does not get the first block of the list and gets the one behind it. -/
def LosesFirstBlock (table : IndexBlockTable) (key : Str) : Prop :=
  ∃ location, table.findTermData key = some location ∧
    table.indexBlocks location.indexBlockId.toNat = none ∧
    0 < location.continuationBlockCount.toNat ∧
    (table.indexBlocks (location.indexBlockId + 1).toNat).isSome

/-- Opening a stored list while reads fail: unless the first block is lost, the reader
stands on the first posting or is at its end. -/
theorem openReader_faulty {table : IndexBlockTable} {key : Str} {location : IndexLocation}
    {first lost : List Posting} {chunks : List (List Posting)}
    (found : table.findTermData key = some location) (part : PartOf table.indexBlocks blocks)
    (stored : ListStored blocks location first chunks) (nonempty : first ≠ [])
    (ascending : AscendingIds (first ++ chunks.flatten ++ lost)) {numDocuments : UInt64}
    (documents : numDocuments ≠ 0) :
    ∃ reader, openReader table key numDocuments true = some reader ∧
      (¬ LosesFirstBlock table key → Stage blocks reader (first ++ chunks.flatten ++ lost)) ∧
      (LosesFirstBlock table key → ¬ Shows reader (first ++ chunks.flatten ++ lost)) := by
  have chunkAscending : ∀ chunk ∈ chunks, AscendingIds chunk := by
    intro chunk member
    have inside := (List.pairwise_append.mp (List.pairwise_append.mp ascending).1).2.1
    exact List.Pairwise.sublist (List.sublist_flatten_of_mem member) inside
  obtain ⟨page, pageFound, window⟩ := stored.page
  let unread : AdvancedIndexReader :=
    { unopened key with
      docFreq := location.docFreq
      blockSeqNumber := location.indexBlockId
      remainingContinuationBlocks := location.continuationBlockCount.toNat }
  have pending : Pending blocks unread chunks := ⟨stored.chain, stored.count, stored.idBound⟩
  have loses : LosesFirstBlock table key ↔ table.indexBlocks location.indexBlockId.toNat = none ∧
      FaultyCall.revives unread ⟨.goNext, table.indexBlocks⟩ = true := by
    show _ ↔ _ ∧ (decide (0 < location.continuationBlockCount.toNat) &&
      (table.indexBlocks (location.indexBlockId + 1).toNat).isSome) = true
    rw [Bool.and_eq_true, decide_eq_true_eq]
    constructor
    · rintro ⟨other, otherFound, failed, more, got⟩
      rw [found] at otherFound
      obtain rfl := Option.some.inj otherFound
      exact ⟨failed, more, got⟩
    · rintro ⟨failed, more, got⟩
      exact ⟨location, found, failed, more, got⟩
  have asserted : ¬ (numDocuments = 0 ∨ true = false) := by simp [documents]
  rw [loses]
  rcases part location.indexBlockId.toNat with failed | got
  · have opened : openReader table key numDocuments true =
        some (goNext table.indexBlocks unread) := by
      unfold openReader
      rw [found]
      dsimp only
      rw [if_neg asserted, failed]
    have moved := goNextLoop_faulty part rfl pending chunkAscending
    refine ⟨goNext table.indexBlocks unread, opened, ?_⟩
    have same : goNext table.indexBlocks unread = finish (goNextLoop table.indexBlocks
        unread.remainingContinuationBlocks unread) := rfl
    rw [← same] at moved
    rcases moved with ⟨revived, posting, here, chunks, split, on, _⟩ |
      ⟨still, ended, released, chunks, behind, behindAscending⟩
    · refine ⟨fun kept => absurd ⟨failed, revived⟩ kept, fun _ => ?_⟩
      -- The posting it stands on is behind the first block, and not first of the list.
      obtain ⟨head, rest, rfl⟩ := List.exists_cons_of_ne_nil nonempty
      rintro (atEnd | ⟨shown, isHead, sameDoc, _⟩)
      · rw [isEnd_iff, on.current] at atEnd
        cases atEnd
      · have headEq : head = shown := Option.some.inj isHead
        have inside := (List.pairwise_append.mp ascending).1
        have below := (List.pairwise_append.mp inside).2.2 head List.mem_cons_self posting
          (by rw [split]; exact List.mem_cons_self)
        rw [headEq, ← sameDoc] at below
        rw [← show (goNext table.indexBlocks unread).getDocumentId = posting.docId from on.doc]
          at below
        exact UInt64.lt_irrefl _ below
    · refine ⟨fun _ => Stage.stalled ended released behind behindAscending, ?_⟩
      rintro ⟨_, revived⟩
      rw [still] at revived
      cases revived
  · have opened : openReader table key numDocuments true =
        some (goNext table.indexBlocks
          { unread with decoder := .openRaw page location.indexOffset location.indexLength }) := by
      unfold openReader
      rw [found]
      dsimp only
      rw [if_neg asserted, got, pageFound]
    refine ⟨_, opened, ?_, ?_⟩
    · intro _
      have ahead := UnifiedDecoder.openRaw_over stored.inside window
      obtain ⟨posting, rest, rfl⟩ := List.exists_cons_of_ne_nil nonempty
      have on := UnifiedDecoder.decodeNext_cons ahead
      obtain ⟨here, behind, split, onFirst, pendingNext⟩ : ReaderAt blocks
          (goNext table.indexBlocks
            { unread with decoder := .openRaw page location.indexOffset location.indexLength })
          (posting :: (rest ++ chunks.flatten)) := by
        unfold goNext
        dsimp only
        rw [goNextLoop_on on.current]
        exact finish_on on (pending.withDecoder _)
      exact Stage.live (by rw [List.cons_append, List.cons_append, split]) onFirst pendingNext
    · rintro ⟨failed, _⟩
      rw [got, pageFound] at failed
      cases failed

end Calls

end AdvancedIndexReader

end MoonShot.Reader
