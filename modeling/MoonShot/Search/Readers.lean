import MoonShot.Context.Search
import MoonShot.Index.Scores
import MoonShot.Lib.Ascending
import MoonShot.Search.Executor

/-!
The readers of a context, as the executor sees them.

Owns the scores of readers over a base and a delta, which documents such a reader has not passed,
and that every call of the executor on it succeeds: a move passes documents and a read passes
none. So the executor visits the documents of a reader once each, in ascending order.

Does not own what the documents of a query are.
-/

namespace MoonShot.Search

open MoonShot.Lib
open MoonShot.Postings
open MoonShot.Format
open MoonShot.Table
open MoonShot.Reader
open MoonShot.Index
open MoonShot.Context

/-! ## Reading by place -/

section Places

variable {σ M : Type}

/-- The values of the children at the given places, each read in the way of its place, and the
children after they were read. -/
def gatherAt (read : Nat → σ → Option (M × σ)) (add : M → M → M) (zero : M) (places : List Nat)
    (children : List σ) : Option (M × List σ) :=
  places.foldlM
    (fun (total, children) place =>
      match children[place]? with
      | none => some (total, children)
      | some child =>
          (read place child).map fun (value, child) =>
            (add total value, children.set place child))
    (zero, children)

/-- Reads that succeed, and leave every child where it stands. -/
theorem gatherAt_spec {read : Nat → σ → Option (M × σ)} {left : σ → Finset UInt64 → Prop}
    (reads : ∀ place child docs, left child docs →
      ∃ value next, read place child = some (value, next) ∧ left next docs)
    (add : M → M → M) {children : List σ} {sets : List (Finset UInt64)}
    (stands : List.Forall₂ left children sets) (places : List Nat) (zero : M) :
    ∃ total next, gatherAt read add zero places children = some (total, next) ∧
      List.Forall₂ left next sets := by
  induction places generalizing children zero with
  | nil => exact ⟨zero, children, rfl, stands⟩
  | cons place rest inductionHypothesis =>
      unfold gatherAt at inductionHypothesis ⊢
      rw [List.foldlM_cons]
      cases found : children[place]? with
      | none =>
          simp only [found, Option.bind_eq_bind, Option.bind_some]
          exact inductionHypothesis stands zero
      | some child =>
          obtain ⟨docs, docsFound, atChild⟩ := forall₂_at stands.flip found
          obtain ⟨value, next, readEq, nextStands⟩ := reads place child docs atChild
          have moved := forall₂_set_both stands nextStands place
          rw [IndexReader.set_getElem?_self docsFound] at moved
          simp only [found, readEq, Option.map_some, Option.bind_eq_bind, Option.bind_some]
          exact inductionHypothesis moved (add zero value)

end Places

/-! ## Visits -/

/-- A lawful reader whose documents have entries is visited on each of them once, in ascending
order, when reads leave it where it stands. -/
theorem exists_yields {ρ S : Type} {reader : ScoredReader ρ S} {left : ρ → Finset UInt64 → Prop}
    (lawful : reader.cursor.Lawful noMoreDocs left)
    (scores : ∀ state docs entry, left state docs →
      ∃ score next, reader.getScore state entry = some (score, next) ∧ left next docs)
    (masks : ∀ state docs, left state docs →
      ∃ mask next, reader.getSourceMask state = some (mask, next) ∧ left next docs)
    {getDocDataEntry : UInt64 → Option DocDataEntry} {state : ρ} {docs : Finset UInt64}
    (records : ∀ doc ∈ docs, ∃ entry, getDocDataEntry doc = some entry) (stands : left state docs) :
    ∃ visits, Yields reader getDocDataEntry state visits ∧ AscendingBy Visit.docId visits ∧
      keySet Visit.docId visits = docs := by
  -- The number of documents left falls with every visit.
  obtain ⟨count, size⟩ : ∃ count, docs.card = count := ⟨_, rfl⟩
  induction count generalizing state docs with
  | zero =>
      have nothing := Finset.card_eq_zero.mp size
      refine ⟨[], (lawful.isEnd stands).mpr nothing, List.Pairwise.nil, ?_⟩
      rw [nothing]
      rfl
  | succ count inductionHypothesis =>
      have nonempty : docs.Nonempty := Finset.card_pos.mp (by omega)
      have first := isLeast_firstOf noMoreDocs nonempty
      obtain ⟨entry, found⟩ := records _ first.1
      obtain ⟨score, scored, scoreEq, atScored⟩ := scores state docs entry stands
      obtain ⟨mask, masked, maskEq, atMasked⟩ := masks scored docs atScored
      obtain ⟨next, moved, atNext⟩ := lawful.goNext atMasked
      obtain ⟨visits, yields, ascending, keys⟩ := inductionHypothesis
        (fun doc member => records doc (Finset.mem_of_mem_erase member)) atNext
        (by rw [Finset.card_erase_of_mem first.1, size, Nat.add_sub_cancel])
      have notEnd : reader.cursor.isEnd state = false := by
        rw [← Bool.not_eq_true, lawful.isEnd stands]
        exact nonempty.ne_empty
      refine ⟨⟨firstOf noMoreDocs docs, entry, score, mask⟩ :: visits,
        ⟨notEnd, lawful.docId stands nonempty, found, scored, masked, next, scoreEq, maskEq, moved,
          yields⟩, List.pairwise_cons.mpr ⟨?_, ascending⟩, ?_⟩
      · intro visit member
        have later : visit.docId ∈ docs.erase (firstOf noMoreDocs docs) := by
          rw [← keys]
          exact mem_keySet.mpr ⟨visit, member, rfl⟩
        exact lt_of_le_of_ne (first.2 (Finset.mem_of_mem_erase later))
          (Finset.ne_of_mem_erase later).symm
      · unfold keySet at keys ⊢
        rw [List.map_cons, List.toFinset_cons, keys, Finset.insert_erase first.1]

/-! ## Scores -/

/-- How the readers of a context are scored: the leaves of the base and of the delta by their own
statistics, vector results by the score they carry. -/
structure ReaderScoring (S : Type) where
  base : IndexReader.Scoring DocDataEntry S
  delta : IndexReader.Scoring DocDataEntry S
  vector : F32 → S

section Scores

variable {S : Type} [AddCommMonoid S] (scoring : ReaderScoring S) (fuel : Nat)
  (entry : DocDataEntry)

/-- `GetScore` of the reader of one index. -/
def localScore (leaves : IndexReader.Scoring DocDataEntry S) (vector : F32 → S) :
    LocalReader → Option (S × LocalReader)
  | .text blocks reader =>
      (IndexReader.getScore leaves blocks entry fuel reader).map fun (score, reader) =>
        (score, .text blocks reader)
  | .vector reader =>
      match reader.rest with
      | [] => some (0, .vector reader)
      | result :: _ => some (vector result.score, .vector reader)

/-- `GetScore` -/
def readerScore : SearchReader → Option (S × SearchReader)
  | .single reader =>
      (localScore fuel entry scoring.base scoring.vector reader).map fun (score, reader) =>
        (score, .single reader)
  | .both reader =>
      -- The first child reads the base, the second the delta.
      (gatherAt
        (fun place =>
          localScore fuel entry (if place = 0 then scoring.base else scoring.delta) scoring.vector)
        (· + ·) 0 reader.matching reader.children).map fun (score, children) =>
          (score, .both { reader with children := children })

/-- The calls of the executor on the reader of a context. -/
def contextReader : ScoredReader SearchReader S where
  cursor :=
    { isEnd := SearchReader.isEnd
      docId := SearchReader.docId
      goNext := fun reader => reader.run fuel .goNext
      goUntil := fun reader target => reader.run fuel (.goUntil target) }
  getScore reader entry := readerScore scoring fuel entry reader
  getSourceMask := SearchReader.getSourceMask fuel

end Scores

end MoonShot.Search

namespace MoonShot.Context

open MoonShot.Lib
open MoonShot.Postings
open MoonShot.Format
open MoonShot.Table
open MoonShot.Reader
open MoonShot.Index
open MoonShot.Search

/-! ## Readers of one index -/

/-- Vector results in ascending order, with the documents that are left. -/
structure VectorIndexReader.At (reader : VectorIndexReader) (docs : Finset UInt64) : Prop where
  ascending : AscendingBy VectorSearchResult.docId reader.rest
  bound : ∀ result ∈ reader.rest, result.docId < noMoreDocs
  docs : docs = keySet VectorSearchResult.docId reader.rest

namespace VectorIndexReader.At

variable {reader : VectorIndexReader} {docs : Finset UInt64}

theorem isEnd_iff (stands : reader.At docs) : reader.isEnd = true ↔ docs = ∅ := by
  rw [stands.docs, keySet_eq_empty_iff]
  unfold VectorIndexReader.isEnd
  exact List.isEmpty_iff

theorem docId (stands : reader.At docs) : reader.docId = firstOf noMoreDocs docs := by
  rw [stands.docs]
  cases reader with
  | mk rest =>
      cases rest with
      | nil => rfl
      | cons result rest => exact (firstOf_keySet_cons noMoreDocs stands.ascending).symm

theorem goNext (stands : reader.At docs) :
    reader.goNext.At (docs.erase (firstOf noMoreDocs docs)) := by
  constructor
  · exact stands.ascending.tail
  · intro result member
    exact stands.bound result (List.mem_of_mem_tail member)
  · rw [stands.docs]
    exact (keySet_tail noMoreDocs stands.ascending).symm

theorem goUntil (stands : reader.At docs) (target : UInt64) :
    (reader.goUntil target).At (docs.filter (target ≤ ·)) := by
  have unbounded : ∀ rest : List VectorSearchResult, (∀ result ∈ rest, result.docId < noMoreDocs) →
      (rest.dropWhile fun result => result.docId < target && result.docId < noMoreDocs) =
        rest.dropWhile fun result => result.docId < target := by
    intro rest bound
    induction rest with
    | nil => rfl
    | cons result rest inductionHypothesis =>
        have below := bound result List.mem_cons_self
        rw [List.dropWhile_cons, List.dropWhile_cons, decide_eq_true below, Bool.and_true,
          inductionHypothesis fun other member => bound other (List.mem_cons_of_mem _ member)]
  have same : (reader.goUntil target).rest =
      reader.rest.dropWhile fun result => result.docId < target :=
    unbounded reader.rest stands.bound
  constructor
  · rw [same]
    exact List.Pairwise.sublist (List.dropWhile_sublist _) stands.ascending
  · intro result member
    rw [same] at member
    exact stands.bound result ((List.dropWhile_sublist _).subset member)
  · rw [same, stands.docs]
    exact (keySet_dropWhile stands.ascending target).symm

end VectorIndexReader.At

namespace LocalReader

/-- The documents a reader has not passed. -/
def At (fuel : Nat) : LocalReader → Finset UInt64 → Prop
  | .text blocks reader, docs =>
      ∃ postings, (∀ word, AscendingIds (postings word)) ∧
        IndexReader.At blocks postings fuel reader docs
  | .vector reader, docs => reader.At docs

variable {fuel : Nat} {reader : LocalReader} {docs : Finset UInt64}

theorem cursor_lawful (fuel : Nat) : (cursor fuel).Lawful noMoreDocs (At fuel) where
  bound := by
    intro reader docs stands
    cases reader with
    | text blocks reader =>
        obtain ⟨postings, _, atReader⟩ := stands
        exact (IndexReader.cursor_lawful blocks postings fuel).bound atReader
    | vector reader =>
        intro doc member
        rw [VectorIndexReader.At.docs stands] at member
        obtain ⟨result, listed, same⟩ := mem_keySet.mp member
        rw [← same]
        exact VectorIndexReader.At.bound stands result listed
  isEnd := by
    intro reader docs stands
    cases reader with
    | text blocks reader =>
        obtain ⟨postings, _, atReader⟩ := stands
        have ended := (IndexReader.cursor_lawful blocks postings fuel).isEnd atReader
        rw [IndexReader.cursor_isEnd] at ended
        exact ended
    | vector reader => exact VectorIndexReader.At.isEnd_iff stands
  docId := by
    intro reader docs stands nonempty
    cases reader with
    | text blocks reader =>
        obtain ⟨postings, _, atReader⟩ := stands
        have here := (IndexReader.cursor_lawful blocks postings fuel).docId atReader nonempty
        rw [IndexReader.cursor_docId] at here
        exact here
    | vector reader => exact VectorIndexReader.At.docId stands
  goNext := by
    intro reader docs stands
    cases reader with
    | text blocks reader =>
        obtain ⟨postings, ascending, atReader⟩ := stands
        obtain ⟨next, moved, atNext⟩ :=
          (IndexReader.cursor_lawful blocks postings fuel).goNext atReader
        refine ⟨.text blocks next, ?_, postings, ascending, atNext⟩
        exact congrArg (Option.map (LocalReader.text blocks)) moved
    | vector reader => exact ⟨.vector reader.goNext, rfl, VectorIndexReader.At.goNext stands⟩
  goUntil := by
    intro reader docs target stands
    cases reader with
    | text blocks reader =>
        obtain ⟨postings, ascending, atReader⟩ := stands
        obtain ⟨next, moved, atNext⟩ :=
          (IndexReader.cursor_lawful blocks postings fuel).goUntil target atReader
        refine ⟨.text blocks next, ?_, postings, ascending, atNext⟩
        exact congrArg (Option.map (LocalReader.text blocks)) moved
    | vector reader =>
        exact ⟨.vector (reader.goUntil target), rfl, VectorIndexReader.At.goUntil stands target⟩

theorem getSourceMask_at (stands : reader.At fuel docs) :
    ∃ mask next, reader.getSourceMask fuel = some (mask, next) ∧ next.At fuel docs := by
  cases reader with
  | text blocks reader =>
      obtain ⟨postings, ascending, atReader⟩ := stands
      obtain ⟨mask, next, read, atNext, _, _⟩ :=
        IndexReader.getSourceMask_reads blocks postings fuel reader docs atReader
      refine ⟨mask, .text blocks next, ?_, postings, ascending, atNext⟩
      exact congrArg (Option.map _) read
  | vector reader => exact ⟨reader.sourceMask, .vector reader, rfl, stands⟩

theorem localScore_at {S : Type} [AddCommMonoid S] (leaves : IndexReader.Scoring DocDataEntry S)
    (vector : F32 → S) (entry : DocDataEntry) (stands : reader.At fuel docs) :
    ∃ score next, localScore fuel entry leaves vector reader = some (score, next) ∧
      next.At fuel docs := by
  cases reader with
  | text blocks reader =>
      obtain ⟨postings, ascending, atReader⟩ := stands
      obtain ⟨score, next, read, atNext, _, _⟩ :=
        IndexReader.getScore_reads leaves blocks ascending entry fuel reader docs atReader
      refine ⟨score, .text blocks next, ?_, postings, ascending, atNext⟩
      exact congrArg (Option.map _) read
  | vector reader =>
      unfold localScore
      dsimp only
      split
      · exact ⟨0, .vector reader, rfl, stands⟩
      · exact ⟨_, .vector reader, rfl, stands⟩

end LocalReader

/-! ## Readers of a base and a delta -/

namespace SearchReader

/-- The documents a reader has not passed. -/
def At (fuel : Nat) : SearchReader → Finset UInt64 → Prop
  | .single reader, docs => reader.At fuel docs
  | .both reader, docs => ∃ sets, OrAt (LocalReader.At fuel) reader docs sets

variable {fuel : Nat} {reader : SearchReader} {docs : Finset UInt64}

/-- A union whose children were read. -/
theorem orAt_read {reader : OrIndexReader LocalReader} {sets : List (Finset UInt64)}
    (stands : OrAt (LocalReader.At fuel) reader docs sets) {children : List LocalReader}
    (read : List.Forall₂ (LocalReader.At fuel) children sets) :
    OrAt (LocalReader.At fuel) { reader with children := children } docs sets := by
  constructor
  · exact read
  · have refreshed := stands.refreshed
    rw [refreshed]
    rfl
  · exact stands.docs

variable {S : Type} [AddCommMonoid S] (scoring : ReaderScoring S)

theorem contextReader_lawful (fuel : Nat) :
    (contextReader scoring fuel).cursor.Lawful noMoreDocs (At fuel) where
  bound := by
    intro reader docs stands
    cases reader with
    | single reader => exact (LocalReader.cursor_lawful fuel).bound stands
    | both reader =>
        obtain ⟨sets, union⟩ := stands
        exact orAt_bound (LocalReader.cursor_lawful fuel) union
  isEnd := by
    intro reader docs stands
    cases reader with
    | single reader => exact (LocalReader.cursor_lawful fuel).isEnd stands
    | both reader =>
        obtain ⟨sets, union⟩ := stands
        show decide (reader.currentDoc = noMoreDocs) = true ↔ _
        rw [decide_eq_true_eq]
        exact orAt_ended (LocalReader.cursor_lawful fuel) union
  docId := by
    intro reader docs stands nonempty
    cases reader with
    | single reader => exact (LocalReader.cursor_lawful fuel).docId stands nonempty
    | both reader =>
        obtain ⟨sets, union⟩ := stands
        exact orAt_current (LocalReader.cursor_lawful fuel) union
  goNext := by
    intro reader docs stands
    cases reader with
    | single reader =>
        obtain ⟨next, moved, atNext⟩ := (LocalReader.cursor_lawful fuel).goNext stands
        exact ⟨.single next, congrArg (Option.map SearchReader.single) moved, atNext⟩
    | both reader =>
        obtain ⟨sets, union⟩ := stands
        obtain ⟨next, keep, moved, atNext⟩ := orGoNext_spec (LocalReader.cursor_lawful fuel) union
        exact ⟨.both next, congrArg (Option.map SearchReader.both) moved, _, atNext⟩
  goUntil := by
    intro reader docs target stands
    cases reader with
    | single reader =>
        obtain ⟨next, moved, atNext⟩ := (LocalReader.cursor_lawful fuel).goUntil target stands
        exact ⟨.single next, congrArg (Option.map SearchReader.single) moved, atNext⟩
    | both reader =>
        obtain ⟨sets, union⟩ := stands
        obtain ⟨next, keep, moved, atNext⟩ :=
          orGoUntil_spec (LocalReader.cursor_lawful fuel) union target
        exact ⟨.both next, congrArg (Option.map SearchReader.both) moved, _, atNext⟩

theorem getSourceMask_at (stands : reader.At fuel docs) :
    ∃ mask next, reader.getSourceMask fuel = some (mask, next) ∧ next.At fuel docs := by
  cases reader with
  | single reader =>
      obtain ⟨mask, next, read, atNext⟩ := LocalReader.getSourceMask_at stands
      refine ⟨mask, .single next, ?_, atNext⟩
      exact congrArg (Option.map _) read
  | both reader =>
      obtain ⟨sets, union⟩ := stands
      obtain ⟨mask, next, read, atNext⟩ := @gatherAt_spec _ _
        (fun _ => LocalReader.getSourceMask fuel) _
        (fun _ _ _ atChild => LocalReader.getSourceMask_at atChild) (· ||| ·) _ _ union.children
        reader.matching 0
      refine ⟨mask, .both { reader with children := next }, ?_, sets, orAt_read union atNext⟩
      exact congrArg (Option.map _) read

theorem readerScore_at (entry : DocDataEntry) (stands : reader.At fuel docs) :
    ∃ score next, readerScore scoring fuel entry reader = some (score, next) ∧
      next.At fuel docs := by
  cases reader with
  | single reader =>
      obtain ⟨score, next, read, atNext⟩ :=
        LocalReader.localScore_at scoring.base scoring.vector entry stands
      refine ⟨score, .single next, ?_, atNext⟩
      exact congrArg (Option.map _) read
  | both reader =>
      obtain ⟨sets, union⟩ := stands
      obtain ⟨score, next, read, atNext⟩ := @gatherAt_spec _ _
        (fun place => localScore fuel entry
          (if place = 0 then scoring.base else scoring.delta) scoring.vector) _
        (fun place _ _ atChild => LocalReader.localScore_at
          (if place = 0 then scoring.base else scoring.delta) scoring.vector entry atChild)
        (· + ·) _ _ union.children reader.matching 0
      refine ⟨score, .both { reader with children := next }, ?_, sets, orAt_read union atNext⟩
      exact congrArg (Option.map _) read

end SearchReader

end MoonShot.Context
