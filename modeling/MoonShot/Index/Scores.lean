import MoonShot.Index.ReaderTree
import MoonShot.Reader.Scores

/-!
Scores and sources of the readers that `BuildIndexReader` returns.

Owns the runs that mix moves with reads, and the theorem that a read on a document
gives the value of the query tree there, whatever was moved or read before.
-/

namespace MoonShot.Index

open MoonShot.Lib
open MoonShot.Postings
open MoonShot.Format
open MoonShot.Table
open MoonShot.Serializer
open MoonShot.Reader

/-- A call that moves a reader or reads from it. -/
inductive ReaderCall (ε : Type) where
  | move (call : Call)
  | getScore (entry : ε)
  | getSourceMask

namespace ReaderCall

section Runs

variable {ε α : Type} [AddCommMonoid α] (scoring : IndexReader.Scoring ε α) (blocks : BlockSource) (fuel : Nat)

def run (reader : IndexReader) : ReaderCall ε → Option IndexReader
  | .move call => call.run blocks fuel reader
  | .getScore entry => (IndexReader.getScore scoring blocks entry fuel reader).map Prod.snd
  | .getSourceMask => (IndexReader.getSourceMask blocks fuel reader).map Prod.snd

def runAll (reader : IndexReader) (calls : List (ReaderCall ε)) : Option IndexReader :=
  calls.foldlM (run scoring blocks fuel) reader

end Runs

/-- The documents a call leaves: a read passes none. -/
def leaves {ε : Type} (docs : Finset UInt64) : ReaderCall ε → Finset UInt64
  | .move call => call.leaves docs
  | .getScore _ => docs
  | .getSourceMask => docs

theorem leaves_subset {ε : Type} (docs : Finset UInt64) (call : ReaderCall ε) :
    leaves docs call ⊆ docs := by
  cases call with
  | move call =>
      cases call with
      | goNext => exact Finset.erase_subset _ _
      | goUntil target => exact Finset.filter_subset _ _
  | getScore entry => exact Finset.Subset.refl docs
  | getSourceMask => exact Finset.Subset.refl docs

theorem foldl_leaves_subset {ε : Type} (docs : Finset UInt64) (calls : List (ReaderCall ε)) :
    calls.foldl leaves docs ⊆ docs := by
  induction calls generalizing docs with
  | nil => exact Finset.Subset.refl docs
  | cons call rest inductionHypothesis =>
      exact (inductionHypothesis (leaves docs call)).trans (leaves_subset docs call)

section Runs

variable {ε α : Type} [AddCommMonoid α] (scoring : IndexReader.Scoring ε α) {blocks : BlockSource}
    {postings : Str → List Posting} {fuel : Nat} {reader : IndexReader} {docs : Finset UInt64}

/-- A call leaves the form as it is and the reader on the documents it does not pass. -/
theorem run_spec (ascending : ∀ word, AscendingIds (postings word))
    (stands : IndexReader.At blocks postings fuel reader docs) (call : ReaderCall ε) :
    ∃ next, run scoring blocks fuel reader call = some next ∧
      IndexReader.At blocks postings fuel next (leaves docs call) ∧ next.form = reader.form := by
  have lawful := IndexReader.cursor_lawful blocks postings fuel
  have keeps := IndexReader.cursor_keeps blocks fuel
  cases call with
  | move call =>
      cases call with
      | goNext =>
          obtain ⟨next, moved, nextStands⟩ := lawful.goNext stands
          exact ⟨next, moved, nextStands, keeps.goNext moved⟩
      | goUntil target =>
          obtain ⟨next, moved, nextStands⟩ := lawful.goUntil target stands
          exact ⟨next, moved, nextStands, keeps.goUntil moved⟩
  | getScore entry =>
      obtain ⟨score, next, read, nextStands, kept, _⟩ :=
        IndexReader.getScore_reads scoring blocks ascending entry fuel reader docs stands
      exact ⟨next, congrArg (Option.map Prod.snd) read, nextStands, kept⟩
  | getSourceMask =>
      obtain ⟨mask, next, read, nextStands, kept, _⟩ :=
        IndexReader.getSourceMask_reads blocks postings fuel reader docs stands
      exact ⟨next, congrArg (Option.map Prod.snd) read, nextStands, kept⟩

theorem runAll_spec (ascending : ∀ word, AscendingIds (postings word))
    (stands : IndexReader.At blocks postings fuel reader docs) (calls : List (ReaderCall ε)) :
    ∃ moved, runAll scoring blocks fuel reader calls = some moved ∧
      IndexReader.At blocks postings fuel moved (calls.foldl leaves docs) ∧
      moved.form = reader.form := by
  induction calls generalizing reader docs with
  | nil => exact ⟨reader, rfl, stands, rfl⟩
  | cons call rest inductionHypothesis =>
      obtain ⟨next, ran, nextStands, kept⟩ := run_spec scoring ascending stands call
      obtain ⟨final, finalEq, finalStands, finalKept⟩ := inductionHypothesis nextStands
      refine ⟨final, ?_, finalStands, finalKept.trans kept⟩
      unfold runAll at finalEq ⊢
      rw [List.foldlM_cons, ran]
      exact finalEq

end Runs

end ReaderCall

/-- A read of a new reader's form on a document of its node. -/
theorem Fresh.read {M : Type} {blocks : BlockSource} {postings : Str → List Posting}
    {meaning : Meaning} {fuel : Nat} {reader moved : IndexReader} {node : EvalNode}
    {valuation : Valuation M} {read : IndexReader → Option (M × IndexReader)}
    (fresh : Fresh blocks postings meaning fuel reader node)
    (reads : IndexReader.ReadsAll blocks postings valuation fuel read) {docs : Finset UInt64}
    (stands : IndexReader.At blocks postings fuel moved docs) (kept : moved.form = reader.form)
    (subset : docs ⊆ meaning.docsOf node) (open_ : moved.isEnd = false) :
    ∃ next, read moved = some (meaning.valueOf valuation node moved.docId, next) := by
  have lawful := IndexReader.cursor_lawful blocks postings fuel
  have ended := lawful.isEnd stands
  rw [IndexReader.cursor_isEnd] at ended
  have nonempty : docs.Nonempty := by
    rw [Finset.nonempty_iff_ne_empty]
    intro nothing
    rw [ended.mpr nothing] at open_
    cases open_
  have here := lawful.docId stands nonempty
  rw [IndexReader.cursor_docId] at here
  obtain ⟨value, next, readEq, _, _, valued⟩ := reads moved docs stands
  refine ⟨next, ?_⟩
  rw [readEq, valued nonempty, kept, here, fresh.value valuation _ (subset (firstOf_mem nonempty))]

/-- For every tree over a built index and any calls on its reader: the reader stands as
the moves alone place it, and on a document its score and its sources are those of the
tree there. -/
theorem reader_tree_scores {ε α : Type} [AddCommMonoid α] (scoring : IndexReader.Scoring ε α)
    (float : FloatOps) (store : PostingStore) (queryable : Queryable float store)
    (context : QueryContext) (table : context.table = (buildBlocks float store).table)
    (documents : context.numDocuments ≠ 0) (node : EvalNode) :
    ∃ enough, ∀ fuel, enough ≤ fuel → ∃ reader,
      context.buildIndexReader fuel node = some reader ∧
        ∀ calls : List (ReaderCall ε), ∃ moved,
          ReaderCall.runAll scoring context.table.indexBlocks fuel reader calls = some moved ∧
          Positioned moved (calls.foldl ReaderCall.leaves
            ((context.meaning (builtLists float store)).docsOf node)) ∧
          (moved.isEnd = false → ∀ entry,
            (∃ next, IndexReader.getScore scoring context.table.indexBlocks entry fuel moved =
              some ((context.meaning (builtLists float store)).valueOf
                (IndexReader.scores scoring (builtPostings float store) entry) node moved.docId,
                next)) ∧
            ∃ next, IndexReader.getSourceMask context.table.indexBlocks fuel moved =
              some ((context.meaning (builtLists float store)).valueOf IndexReader.sources node
                moved.docId, next)) := by
  have ascending : ∀ word, AscendingIds (builtPostings float store word) :=
    fun word => keptPostings_ascending _
  obtain ⟨enough, builds⟩ := (reads_built queryable table documents).builds node
  refine ⟨enough, ?_⟩
  intro fuel bounded
  obtain ⟨reader, built, fresh⟩ := builds fuel bounded
  refine ⟨reader, built, ?_⟩
  intro calls
  obtain ⟨moved, ran, stands, kept⟩ := ReaderCall.runAll_spec scoring ascending fresh.stands calls
  refine ⟨moved, ran, positioned_of_at stands, ?_⟩
  intro open_ entry
  have subset := ReaderCall.foldl_leaves_subset
    ((context.meaning (builtLists float store)).docsOf node) calls
  exact ⟨fresh.read (IndexReader.getScore_reads scoring _ ascending entry fuel) stands kept subset
      open_,
    fresh.read (IndexReader.getSourceMask_reads _ _ fuel) stands kept subset open_⟩

/-- Scores that tell leaves and boosts apart. -/
def countingScoring : IndexReader.Scoring Nat Nat where
  leaf _ wordSpan frequency length := wordSpan.toNat + frequency.toNat + length
  weight boostWeight := boostWeight.toNat

/-- `WeakAnd [Or [aB, bB]]` boosted by `aB`. -/
theorem reader_tree_scores_oneCall :
    ∃ enough, ∀ fuel, enough ≤ fuel → ∃ reader,
      oneCallContext.buildIndexReader fuel
        (.boost (.weakAnd [.or [.term ⟨[0x61, 0x42], rfl⟩, .term ⟨[0x62, 0x42], rfl⟩]] 1)
          (.term ⟨[0x61, 0x42], rfl⟩) 0x3F000000) = some reader ∧
        ∀ calls : List (ReaderCall Nat), ∃ moved,
          ReaderCall.runAll countingScoring oneCallContext.table.indexBlocks fuel reader calls =
            some moved ∧
          Positioned moved (calls.foldl ReaderCall.leaves
            ((oneCallContext.meaning
              (builtLists default (PostingStore.addPostings oneCall))).docsOf
              (.boost (.weakAnd [.or [.term ⟨[0x61, 0x42], rfl⟩, .term ⟨[0x62, 0x42], rfl⟩]] 1)
                (.term ⟨[0x61, 0x42], rfl⟩) 0x3F000000))) ∧
          (moved.isEnd = false → ∀ entry,
            (∃ next, IndexReader.getScore countingScoring oneCallContext.table.indexBlocks entry
                fuel moved =
              some ((oneCallContext.meaning
                (builtLists default (PostingStore.addPostings oneCall))).valueOf
                (IndexReader.scores countingScoring
                  (builtPostings default (PostingStore.addPostings oneCall)) entry)
                (.boost (.weakAnd [.or [.term ⟨[0x61, 0x42], rfl⟩, .term ⟨[0x62, 0x42], rfl⟩]] 1)
                  (.term ⟨[0x61, 0x42], rfl⟩) 0x3F000000) moved.docId, next)) ∧
            ∃ next, IndexReader.getSourceMask oneCallContext.table.indexBlocks fuel moved =
              some ((oneCallContext.meaning
                (builtLists default (PostingStore.addPostings oneCall))).valueOf
                IndexReader.sources
                (.boost (.weakAnd [.or [.term ⟨[0x61, 0x42], rfl⟩, .term ⟨[0x62, 0x42], rfl⟩]] 1)
                  (.term ⟨[0x61, 0x42], rfl⟩) 0x3F000000) moved.docId, next)) :=
  reader_tree_scores countingScoring default (PostingStore.addPostings oneCall) queryable_oneCall
    oneCallContext rfl (by decide) _

/-- The reader of the union of no nodes is opened under the empty key: with a list there
it stands on a document and has the score of a leaf, where the sum over no nodes is zero. -/
theorem empty_key_reader_has_score :
    (∀ fuel, ((emptyKeyContext.buildIndexReader (fuel + 1) (.or [])).bind fun reader =>
        if reader.isEnd then none
        else (IndexReader.getScore countingScoring emptyKeyContext.table.indexBlocks 0 (fuel + 1)
          reader).map Prod.fst) = some 2) ∧
    (emptyKeyContext.meaning
      (builtLists default (PostingStore.addPostings [(.empty, 1, 1)]))).valueOf
        (IndexReader.scores countingScoring
          (builtPostings default (PostingStore.addPostings [(.empty, 1, 1)])) 0) (.or []) 1 = 0 := by
  have opened : ((emptyKeyContext.openAdvancedReader .empty 1).bind fun reader =>
      if reader.isEnd then none
      else (IndexReader.getScore countingScoring emptyKeyContext.table.indexBlocks 0 1
        reader).map Prod.fst) = some 2 := by
    decide +kernel
  constructor
  · intro fuel
    rw [buildIndexReader_or_nil, ← opened]
    unfold QueryContext.openAdvancedReader
    cases AdvancedIndexReader.openReader emptyKeyContext.table .empty emptyKeyContext.numDocuments
        true with
    | none => rfl
    | some reader => rfl
  · rw [Meaning.valueOf, Meaning.matchingValuesOf_eq]
    rfl

end MoonShot.Index
