import MoonShot.Reader.Faults

/-!
Skipping against scanning: `GoUntil` against `GoNext` calls.

Owns the scan that `GoUntil` replaces, what calls show of a reader, and the proof
that the two leave readers that show the same from then on. Also owns the one thing
they leave different: the last document a reader read, which a reader at its end still
returns.
-/

namespace MoonShot.Reader

open MoonShot.Lib
open MoonShot.Postings
open MoonShot.Format
open MoonShot.Table

namespace AdvancedIndexReader

/-- The end of the reader, or the document and the frequency it stands on. -/
def shown (reader : AdvancedIndexReader) : Option (UInt64 × UInt8) :=
  if reader.isEnd then none else some (reader.getDocumentId, reader.getTermFreq)

def runMove (blocks : BlockSource) (reader : AdvancedIndexReader) : Move → AdvancedIndexReader
  | .goNext => goNext blocks reader
  | .goUntil target => goUntil blocks reader target

def runMoves (blocks : BlockSource) (moves : List Move) (reader : AdvancedIndexReader) :
    AdvancedIndexReader :=
  moves.foldl (runMove blocks) reader

/-- The reader is not at its end and its document is below the target. -/
def Below (target : UInt64) (reader : AdvancedIndexReader) : Prop :=
  reader.isEnd = false ∧ reader.getDocumentId < target

instance (target : UInt64) (reader : AdvancedIndexReader) : Decidable (Below target reader) :=
  inferInstanceAs (Decidable (_ ∧ _))

/-- `GoNext` while the reader is not at its end and its document is below the target. -/
def scanUntil (blocks : BlockSource) (target : UInt64) :
    (turns : Nat) → AdvancedIndexReader → AdvancedIndexReader
  | 0, reader => reader
  | turns + 1, reader =>
      if Below target reader then scanUntil blocks target turns (goNext blocks reader) else reader

section Walk

variable {blocks : BlockSource} {reader : AdvancedIndexReader} {postings : List Posting}

theorem ReaderAt.shown (stands : ReaderAt blocks reader postings) :
    reader.shown = postings.head?.map fun posting => (posting.docId, posting.tf8) := by
  unfold AdvancedIndexReader.shown
  cases postings with
  | nil => exact if_pos (stands.isEnd_iff.mpr rfl)
  | cons posting rest =>
      have notEnd : ¬ reader.isEnd = true := by
        rw [stands.isEnd_iff]
        simp
      rw [if_neg notEnd, stands.head.1, stands.head.2]
      rfl

theorem ascending_pass (ascending : AscendingIds postings) (move : Move) :
    AscendingIds (move.pass postings) := by
  cases move with
  | goNext => exact List.Pairwise.sublist (List.tail_sublist _) ascending
  | goUntil target => exact List.Pairwise.sublist (List.dropWhile_sublist _) ascending

theorem ReaderAt.runMove (stands : ReaderAt blocks reader postings)
    (ascending : AscendingIds postings) (move : Move) :
    ReaderAt blocks (runMove blocks reader move) (move.pass postings) := by
  cases move with
  | goNext => exact goNext_spec stands
  | goUntil target => exact goUntil_spec stands ascending target

/-- Calls on a reader on a list leave it on what is left of the list. -/
theorem ReaderAt.runMoves (stands : ReaderAt blocks reader postings)
    (ascending : AscendingIds postings) (moves : List Move) :
    ReaderAt blocks (runMoves blocks moves reader) (moves.foldl Move.pass postings) ∧
      AscendingIds (moves.foldl Move.pass postings) := by
  induction moves generalizing reader postings with
  | nil => exact ⟨stands, ascending⟩
  | cons move rest inductionHypothesis =>
      exact inductionHypothesis (stands.runMove ascending move) (ascending_pass ascending move)

/-- The scan stops at the first posting that is not below the target. -/
theorem scanUntil_spec {turns : Nat} {target : UInt64}
    (stands : ReaderAt blocks reader postings) (enough : postings.length ≤ turns) :
    ReaderAt blocks (scanUntil blocks target turns reader)
      (postings.dropWhile fun posting => posting.docId < target) ∧
      ¬ Below target (scanUntil blocks target turns reader) := by
  induction turns generalizing reader postings with
  | zero =>
      obtain rfl := List.length_eq_zero_iff.mp (Nat.le_zero.mp enough)
      refine ⟨stands, ?_⟩
      rintro ⟨notEnd, _⟩
      have ended : reader.isEnd = true := stands.1
      rw [scanUntil, ended] at notEnd
      cases notEnd
  | succ turns inductionHypothesis =>
      rw [scanUntil]
      cases postings with
      | nil =>
          have stopped : ¬ Below target reader := by
            rintro ⟨notEnd, _⟩
            have ended : reader.isEnd = true := stands.1
            rw [ended] at notEnd
            cases notEnd
          rw [if_neg stopped]
          exact ⟨stands, stopped⟩
      | cons posting rest =>
          have notEnd : reader.isEnd = false := by
            rw [Bool.eq_false_iff, Ne, stands.isEnd_iff]
            simp
          have below : Below target reader ↔ posting.docId < target := by
            rw [Below, stands.head.1]
            exact and_iff_right notEnd
          by_cases passed : posting.docId < target
          · rw [if_pos (below.mpr passed), List.dropWhile_cons_of_pos (by simpa using passed)]
            exact inductionHypothesis (goNext_spec stands) (Nat.le_of_succ_le_succ enough)
          · rw [if_neg (fun inside => passed (below.mp inside)),
              List.dropWhile_cons_of_neg (by simpa using passed)]
            exact ⟨stands, fun inside => passed (below.mp inside)⟩

/-- Readers on the same postings show the same after the same calls. -/
theorem ReaderAt.same_shown {left right : AdvancedIndexReader}
    (leftStands : ReaderAt blocks left postings) (rightStands : ReaderAt blocks right postings)
    (ascending : AscendingIds postings) (later : List Move) :
    (AdvancedIndexReader.runMoves blocks later left).shown =
      (AdvancedIndexReader.runMoves blocks later right).shown := by
  rw [(leftStands.runMoves ascending later).1.shown,
    (rightStands.runMoves ascending later).1.shown]

/-! ## The document of a reader at its end -/

theorem finish_currentDoc (reader : AdvancedIndexReader) :
    (finish reader).decoder.currentDoc = reader.decoder.currentDoc := by
  unfold finish
  split
  · rfl
  · rfl

/-- `GoNext` from the last posting keeps its document. -/
theorem goNext_only {posting : Posting} (stands : ReaderAt blocks reader [posting]) :
    (goNext blocks reader).getDocumentId = posting.docId := by
  obtain ⟨here, chunks, split, on, pending⟩ := stands
  obtain ⟨rfl, flat⟩ := List.append_eq_nil_iff.mp split.symm
  have none_ : reader.remainingContinuationBlocks = 0 := by
    rw [pending.count]
    cases chunks with
    | nil => rfl
    | cons chunk rest =>
        obtain ⟨⟨_, _, holds⟩, _⟩ := pending.chain
        exact absurd (List.append_eq_nil_iff.mp flat).1 holds.nonempty
  unfold goNext
  dsimp only
  rw [none_]
  show (finish _).decoder.currentDoc = posting.docId
  rw [finish_currentDoc]
  show reader.decoder.decodeNext.currentDoc = posting.docId
  rw [UnifiedDecoder.decodeNext_nil on.ahead]
  exact on.doc

/-- A scan that passes the whole list ends with its last document. -/
theorem scanUntil_last {turns : Nat} {target : UInt64} {last : Posting}
    (stands : ReaderAt blocks reader postings) (enough : postings.length ≤ turns)
    (ends : postings.getLast? = some last)
    (beyond : ∀ posting ∈ postings, posting.docId < target) :
    (scanUntil blocks target turns reader).getDocumentId = last.docId := by
  induction turns generalizing reader postings with
  | zero =>
      rw [List.length_eq_zero_iff.mp (Nat.le_zero.mp enough)] at ends
      cases ends
  | succ turns inductionHypothesis =>
      cases postings with
      | nil => cases ends
      | cons posting rest =>
          have notEnd : reader.isEnd = false := by
            rw [Bool.eq_false_iff, Ne, stands.isEnd_iff]
            simp
          have below : Below target reader := by
            refine ⟨notEnd, ?_⟩
            rw [stands.head.1]
            exact beyond posting List.mem_cons_self
          have next := goNext_spec stands
          rw [scanUntil, if_pos below]
          cases rest with
          | nil =>
              obtain rfl : posting = last := Option.some.inj ends
              have ended : ¬ Below target (goNext blocks reader) := by
                rintro ⟨notAtEnd, _⟩
                have atEnd : (goNext blocks reader).isEnd = true := next.1
                rw [atEnd] at notAtEnd
                cases notAtEnd
              have stopped : scanUntil blocks target turns (goNext blocks reader) =
                  goNext blocks reader := by
                cases turns with
                | zero => rfl
                | succ turns => exact if_neg ended
              rw [stopped]
              exact goNext_only stands
          | cons second rest =>
              rw [List.getLast?_cons_cons] at ends
              exact inductionHypothesis next (Nat.le_of_succ_le_succ enough) ends
                fun other member => beyond other (List.mem_cons_of_mem _ member)

/-- Passing the chunks ahead by their headers reads none of their documents. -/
theorem goUntilLoop_passed {target : UInt64} {chunks : List (List Posting)}
    (ended : (reader.decoder.goUntil target).hasCurrent = false)
    (pending : Pending blocks reader chunks)
    (beyond : ∀ posting ∈ chunks.flatten, posting.docId < target) :
    (goUntilLoop blocks target (chunks.length + 1) reader).decoder.currentDoc =
      (reader.decoder.goUntil target).currentDoc := by
  induction chunks generalizing reader with
  | nil =>
      have none_ : reader.remainingContinuationBlocks = 0 := pending.count
      rw [goUntilLoop]
      simp only [isEnd, UnifiedDecoder.isEnd, ended, Bool.not_false, Bool.true_eq_false, if_false,
        none_, if_true]
      rfl
  | cons chunk chunks inductionHypothesis =>
      obtain ⟨⟨page, found, holds⟩, _⟩ := pending.chain
      have header := (openContinuation_over holds).1
      have more : reader.remainingContinuationBlocks ≠ 0 := by
        rw [pending.count]
        simp
      have passed : (chunkHeader chunk).maxDocId < target := by
        obtain ⟨init, last, rfl⟩ := (List.eq_nil_or_concat chunk).resolve_left holds.nonempty
        have maximum : (chunkHeader (init.concat last)).maxDocId = last.docId := by
          simp [chunkHeader]
        rw [maximum]
        exact beyond last (by simp)
      rw [goUntilLoop, List.length_cons]
      simp only [isEnd, UnifiedDecoder.isEnd, ended, Bool.not_false, Bool.true_eq_false, if_false,
        more, releaseCurrentBlock, nextSeq_toNat pending, found, header]
      rw [if_pos passed]
      have taken : (reader.decoder.goUntil target).takeBlock.hasCurrent = false := ended
      have still := UnifiedDecoder.goUntil_released rfl taken target
      let next : AdvancedIndexReader :=
        { reader with
          blockSeqNumber := reader.blockSeqNumber + 1
          remainingContinuationBlocks := reader.remainingContinuationBlocks - 1
          decoder := (reader.decoder.goUntil target).takeBlock }
      have nextEnded : (next.decoder.goUntil target).hasCurrent = false := by
        show ((reader.decoder.goUntil target).takeBlock.goUntil target).hasCurrent = false
        rw [still]
        exact ended
      have rest := inductionHypothesis nextEnded (pending.tail rfl rfl)
        fun posting member => beyond posting (List.mem_append_right _ member)
      rw [rest]
      show ((reader.decoder.goUntil target).takeBlock.goUntil target).currentDoc = _
      rw [still]
      rfl

/-- A skip that passes the whole list ends with the last document of the block it
started in. -/
theorem goUntil_last {target : UInt64} {posting last : Posting} {here : List Posting}
    {chunks : List (List Posting)} (on : reader.decoder.On posting here)
    (pending : Pending blocks reader chunks)
    (beyond : ∀ other ∈ posting :: (here ++ chunks.flatten), other.docId < target)
    (ends : (posting :: here).getLast? = some last) :
    (goUntil blocks reader target).getDocumentId = last.docId := by
  have window : ∀ other ∈ posting :: here, other.docId < target := by
    intro other member
    exact beyond other (List.mem_append_left chunks.flatten member)
  have behind : ∀ other ∈ chunks.flatten, other.docId < target := by
    intro other member
    exact beyond other (List.mem_cons_of_mem _ (List.mem_append_right _ member))
  have ended : (reader.decoder.goUntil target).hasCurrent = false := by
    have skipped := UnifiedDecoder.goUntil_on on target
    rw [List.dropWhile_eq_nil_iff.mpr fun other member => by simpa using window other member]
      at skipped
    exact skipped
  unfold goUntil
  show (finish _).decoder.currentDoc = last.docId
  rw [finish_currentDoc, pending.count, goUntilLoop_passed ended pending behind]
  exact UnifiedDecoder.goUntil_last on window ends

/-- On a list of more than a page, a skip and a scan that pass all of it end with
different documents. -/
theorem skip_differs {target : UInt64} (stands : ReaderAt blocks reader postings)
    (ascending : AscendingIds postings)
    (long : pageSize < (encodePostings postings.tail).length)
    (beyond : ∀ posting ∈ postings, posting.docId < target) :
    (goUntil blocks reader target).getDocumentId ≠
      (scanUntil blocks target postings.length reader).getDocumentId := by
  have scanned := stands
  cases postings with
  | nil => exact absurd long (Nat.not_lt_zero _)
  | cons posting rest =>
      obtain ⟨here, chunks, rfl, on, pending⟩ := stands
      have window := on.ahead.window_length
      have inside := on.ahead.inside
      rw [List.tail_cons, encodePostings_append, List.length_append] at long
      have more : chunks.flatten ≠ [] := by
        intro none_
        rw [none_, encodePostings_nil, List.length_nil] at long
        omega
      obtain ⟨init, last, flat⟩ := (List.eq_nil_or_concat chunks.flatten).resolve_left more
      rw [List.concat_eq_append] at flat
      obtain ⟨front, final, split⟩ :=
        (List.eq_nil_or_concat (posting :: here)).resolve_left (List.cons_ne_nil _ _)
      rw [List.concat_eq_append] at split
      have hereLast : (posting :: here).getLast? = some final := by
        rw [split, List.getLast?_concat]
      have listLast : (posting :: (here ++ chunks.flatten)).getLast? = some last := by
        rw [flat, ← List.append_assoc, ← List.cons_append, List.getLast?_concat]
      rw [goUntil_last on pending beyond hereLast,
        scanUntil_last scanned (Nat.le_refl _) listLast beyond]
      have order : AscendingIds ((posting :: here) ++ chunks.flatten) := ascending
      rw [split, flat] at order
      have below := (List.pairwise_append.mp order).2.2 final (by simp) last (by simp)
      exact (UInt64.ne_of_lt below)

end Walk

end AdvancedIndexReader

end MoonShot.Reader
