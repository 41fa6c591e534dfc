import MoonShot.Query.Conjunction

/-!
`OR` between two queries.

Owns the raw items of two joined queries, which are those of the first, the
keyword, and those of the second, and the law that the documents of the joined
query are those of either, in every mode and over every index.
-/

namespace MoonShot.Query

open MoonShot.Lib
open MoonShot.Postings
open MoonShot.Index
open MoonShot.Serializer

/-- The keyword. -/
def orWord : Str := ⟨[0x4F, 0x52], rfl⟩

/-- The keyword between two blanks. -/
def spacedOr : Str := ⟨[0x20, 0x4F, 0x52, 0x20], rfl⟩

/-- `q1 + " OR " + q2` -/
def orQuery (left right : Str) : Str := (left.append spacedOr).append right

theorem splitRawItems_bytes (query : Str) :
    (splitRawItems query).map Str.bytes = pieces isSeparator [] query.bytes :=
  query.splitAt_bytes isSeparator_ascii

/-- Raw items are determined by their bytes. -/
theorem splitRawItems_eq {query : Str} {items : List Str}
    (bytes : pieces isSeparator [] query.bytes = items.map Str.bytes) :
    splitRawItems query = items := by
  apply List.map_injective_iff.mpr (fun _ _ => Str.ext_bytes)
  rw [splitRawItems_bytes, bytes]

theorem splitRawItems_orQuery (left right : Str) :
    splitRawItems (orQuery left right) =
      splitRawItems left ++ orWord :: splitRawItems right := by
  apply splitRawItems_eq
  have joined : (orQuery left right).bytes =
      left.bytes ++ 0x20 :: (orWord.bytes ++ 0x20 :: right.bytes) := by
    show (left.bytes ++ [0x20, 0x4F, 0x52, 0x20]) ++ right.bytes = _
    rw [List.append_assoc]
    rfl
  rw [joined, pieces_append_cons (by decide), pieces_append_cons (by decide), List.map_append,
    List.map_cons, splitRawItems_bytes, splitRawItems_bytes]
  rfl

/-- The keyword ends the part that is being read, whatever is pending. -/
theorem groupItems_append_or (items rest : List Str) {keyword : Str}
    (isOr : isOrToken keyword = true) (negateNext : Bool) (group : List QueryItem) :
    groupItems negateNext group (items ++ keyword :: rest) =
      groupItems negateNext group items ++ groupItems false [] rest := by
  induction items generalizing negateNext group with
  | nil => simp [groupItems, isOr]
  | cons raw items inductionHypothesis =>
      rw [List.cons_append, groupItems, groupItems]
      split
      · rw [inductionHypothesis, List.cons_append]
      · split
        · exact inductionHypothesis _ _
        · exact inductionHypothesis _ _

theorem disjunctsOf_orQuery (left right : Str) :
    disjunctsOf (orQuery left right) = disjunctsOf left ++ disjunctsOf right := by
  unfold disjunctsOf
  rw [splitRawItems_orQuery, groupItems_append_or _ _ (by decide)]

theorem compileWithMode_noStream (tokenize : Str → List Str) (query : Str) {streamSet : Str}
    (mode : QueryCompileMode) (none_ : parseStreamSet streamSet = []) :
    (compileWithMode tokenize query streamSet mode).root = none := by
  unfold compileWithMode
  split
  · rfl
  · exact if_pos none_

theorem docsOfTree_orQuery (tokenize : Str → List Str) (left right streamSet : Str)
    (mode : QueryCompileMode) (meaning : Meaning) :
    docsOfTree meaning (compileWithMode tokenize (orQuery left right) streamSet mode).root =
      docsOfTree meaning (compileWithMode tokenize left streamSet mode).root ∪
        docsOfTree meaning (compileWithMode tokenize right streamSet mode).root := by
  by_cases none_ : parseStreamSet streamSet = []
  · simp only [compileWithMode_noStream tokenize _ mode none_]
    rfl
  · ext doc
    rw [Finset.mem_union, mem_compiled none_, mem_compiled none_, mem_compiled none_,
      disjunctsOf_orQuery]
    simp only [List.mem_append, or_and_right, exists_or]

/-- The documents of two queries joined by `OR` are those of either query: in
the denotation of the compiled trees over every index, and, over every index
that can be read, as the documents that the reader of the joined tree walks. -/
theorem or_is_union (tokenize : Str → List Str) (left right streamSet : Str)
    (mode : QueryCompileMode) :
    (∀ meaning : Meaning,
      docsOfTree meaning (compileWithMode tokenize (orQuery left right) streamSet mode).root =
        docsOfTree meaning (compileWithMode tokenize left streamSet mode).root ∪
          docsOfTree meaning (compileWithMode tokenize right streamSet mode).root) ∧
    ∀ (float : FloatOps) (store : PostingStore) (context : QueryContext) (node : EvalNode),
      Queryable float store → context.table = (buildBlocks float store).table →
      context.numDocuments ≠ 0 →
      (compileWithMode tokenize (orQuery left right) streamSet mode).root = some node →
      ∃ enough, ∀ fuel, enough ≤ fuel → ∃ reader,
        context.buildIndexReader fuel node = some reader ∧
          ∀ calls, ∃ moved, Call.runAll context.table.indexBlocks fuel reader calls = some moved ∧
            Positioned moved (calls.foldl Call.leaves
              (docsOfTree (context.meaning (builtLists float store))
                  (compileWithMode tokenize left streamSet mode).root ∪
                docsOfTree (context.meaning (builtLists float store))
                  (compileWithMode tokenize right streamSet mode).root)) := by
  refine ⟨docsOfTree_orQuery tokenize left right streamSet mode, ?_⟩
  intro float store context node queryable table documents compiled
  rw [← docsOfTree_orQuery, compiled]
  exact ((reads_built queryable table documents).builds node).positioned

/-- `a OR b` in the body, over an index with the one list `aB`. -/
theorem or_is_union_oneCall :
    ∃ enough, ∀ fuel, enough ≤ fuel → ∃ reader,
      oneCallContext.buildIndexReader fuel
        (.or [.term ⟨[0x61, 0x42], rfl⟩, .term ⟨[0x62, 0x42], rfl⟩]) = some reader ∧
        ∀ calls, ∃ moved,
          Call.runAll oneCallContext.table.indexBlocks fuel reader calls = some moved ∧
          Positioned moved (calls.foldl Call.leaves
            (docsOfTree (oneCallContext.meaning
                (builtLists default (PostingStore.addPostings oneCall)))
                (compileWithMode (fun text => [text]) ⟨[0x61], rfl⟩ ⟨[0x42], rfl⟩ .default).root ∪
              docsOfTree (oneCallContext.meaning
                (builtLists default (PostingStore.addPostings oneCall)))
                (compileWithMode (fun text => [text]) ⟨[0x62], rfl⟩ ⟨[0x42], rfl⟩
                  .default).root)) :=
  (or_is_union (fun text => [text]) ⟨[0x61], rfl⟩ ⟨[0x62], rfl⟩ ⟨[0x42], rfl⟩ .default).2 default
    (PostingStore.addPostings oneCall) oneCallContext _ queryable_oneCall rfl (by decide)
    (by rfl)

end MoonShot.Query
