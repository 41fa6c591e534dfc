import MoonShot.Context.Saved

/-!
Readers of a context: `IndexContext::GetReader` and the copy of it that the search
workers use, `SearchRuntime::get_reader`.

Owns the reader over vector results, readers over a base and a delta together,
both ways to a reader, and when they agree: always for trees with a text query,
and for vector queries unless the delta still has to build its vector index, which
only `GetReader` makes up for.

Does not own the readers of one tree over one table.
-/

namespace MoonShot.Context

open MoonShot.Lib
open MoonShot.Postings
open MoonShot.Format
open MoonShot.Table
open MoonShot.Serializer
open MoonShot.Reader
open MoonShot.Index
open MoonShot.Query

/-! ## Vector results -/

/-- `VectorIndexReader`, as the results it has not passed. -/
structure VectorIndexReader where
  rest : List VectorSearchResult

namespace VectorIndexReader

def new (results : List VectorSearchResult) : VectorIndexReader :=
  ⟨results.insertionSort fun left right => left.docId ≤ right.docId⟩

def isEnd (reader : VectorIndexReader) : Bool := reader.rest.isEmpty

def docId (reader : VectorIndexReader) : UInt64 :=
  match reader.rest with
  | [] => noMoreDocs
  | result :: _ => result.docId

def goNext (reader : VectorIndexReader) : VectorIndexReader := ⟨reader.rest.tail⟩

/-- `GoUntil(target, NO_MORE_DOCS)` -/
def goUntil (reader : VectorIndexReader) (target : UInt64) : VectorIndexReader :=
  ⟨reader.rest.dropWhile fun result => result.docId < target && result.docId < noMoreDocs⟩

/-- `READER_SOURCE_VECTOR` -/
def sourceMask (reader : VectorIndexReader) : UInt8 := if reader.isEnd then 0 else 16

end VectorIndexReader

/-! ## Readers of one index -/

/-- A reader tree with the posting blocks it reads, or vector results. -/
inductive LocalReader where
  | text (blocks : BlockSource) (reader : IndexReader)
  | vector (reader : VectorIndexReader)

namespace LocalReader

def isEnd : LocalReader → Bool
  | .text _ reader => reader.isEnd
  | .vector reader => reader.isEnd

def docId : LocalReader → UInt64
  | .text _ reader => reader.docId
  | .vector reader => reader.docId

/-- `GetTermFreq`; vector results have the default of the trait. -/
def termFreq : LocalReader → UInt32
  | .text _ reader => reader.termFreq
  | .vector _ => 1

def getSourceMask (fuel : Nat) : LocalReader → Option (UInt8 × LocalReader)
  | .text blocks reader =>
      (IndexReader.getSourceMask blocks fuel reader).map fun (mask, reader) =>
        (mask, .text blocks reader)
  | .vector reader => some (reader.sourceMask, .vector reader)

def cursor (fuel : Nat) : Cursor LocalReader UInt64 where
  isEnd := isEnd
  docId := docId
  goNext reader :=
    match reader with
    | .text blocks reader =>
        ((IndexReader.cursor blocks fuel).goNext reader).map (.text blocks)
    | .vector reader => some (.vector reader.goNext)
  goUntil reader target :=
    match reader with
    | .text blocks reader =>
        ((IndexReader.cursor blocks fuel).goUntil reader target).map (.text blocks)
    | .vector reader => some (.vector (reader.goUntil target))

end LocalReader

/-! ## Readers of a context -/

/-- The reader of an index, or the union of the readers of a base and its delta. -/
inductive SearchReader where
  | single (reader : LocalReader)
  | both (reader : OrIndexReader LocalReader)

/-- What a search sees of the document a reader stands on. -/
structure Observation where
  isEnd : Bool
  docId : UInt64
  termFreq : UInt32
  sourceMask : UInt8
deriving DecidableEq

/-- The calls a search makes. -/
inductive SearchCall where
  | goNext
  | goUntil (target : UInt64)
  | getSourceMask

namespace SearchReader

def isEnd : SearchReader → Bool
  | .single reader => reader.isEnd
  | .both reader => reader.currentDoc = noMoreDocs

def docId : SearchReader → UInt64
  | .single reader => reader.docId
  | .both reader => reader.currentDoc

def termFreq : SearchReader → UInt32
  | .single reader => reader.termFreq
  | .both reader =>
      (reader.matching.map fun index => (reader.children.map LocalReader.termFreq).getD index 0).sum

def getSourceMask (fuel : Nat) : SearchReader → Option (UInt8 × SearchReader)
  | .single reader =>
      (reader.getSourceMask fuel).map fun (mask, reader) => (mask, .single reader)
  | .both reader =>
      (IndexReader.sourceMasks (LocalReader.getSourceMask fuel) reader.matching
        reader.children).map fun (mask, children) =>
          (mask, .both { reader with children := children })

def run (fuel : Nat) (reader : SearchReader) : SearchCall → Option SearchReader
  | .goNext =>
      match reader with
      | .single reader => ((LocalReader.cursor fuel).goNext reader).map .single
      | .both reader => (orGoNext (LocalReader.cursor fuel) reader).map .both
  | .goUntil target =>
      match reader with
      | .single reader => ((LocalReader.cursor fuel).goUntil reader target).map .single
      | .both reader => (orGoUntil (LocalReader.cursor fuel) reader target).map .both
  | .getSourceMask => (reader.getSourceMask fuel).map Prod.snd

def runAll (fuel : Nat) (reader : SearchReader) (calls : List SearchCall) : Option SearchReader :=
  calls.foldlM (run fuel) reader

def observe (fuel : Nat) (reader : SearchReader) : Option Observation :=
  (reader.getSourceMask fuel).map fun (mask, _) =>
    ⟨reader.isEnd, reader.docId, reader.termFreq, mask⟩

end SearchReader

/-! ## `GetReader` -/

namespace LocalIndex

/-- What the builders of readers read of an index. -/
def queryContext (index : LocalIndex) : QueryContext where
  table := index.table
  documentCount := index.header.numDocuments
  storeDocs := UInt64.ofNat index.store.docStats.keys.length
  mode := index.weakAndBuildMode

end LocalIndex

/-- `BuildIndexReader` and `build_index_reader` of a root. -/
def buildRootReader (fuel : Nat) (context : QueryContext) (root : Option EvalNode) :
    Option LocalReader :=
  (match root with
    | none => context.openAdvancedReader .empty 1
    | some node => context.buildIndexReader fuel node).map (.text context.table.indexBlocks)

/-- The reader over the results of a vector search. -/
def vectorReader (graph : GraphSearch) (index : VectorIndex) (tree : EvalTree) : LocalReader :=
  .vector (.new (index.search graph tree.vectorQuery (max tree.vectorEfSearch 1)
    tree.vectorEfSearch))

section Readers

variable (graph : GraphSearch) (fuel : Nat)

namespace LocalIndex

/-- `BuildLocalReader`: the reader, and the index after it. -/
def buildLocalReader (index : LocalIndex) (tree : EvalTree) : Option LocalReader × LocalIndex :=
  if tree.root.isNone ∧ tree.vectorQuery ≠ [] then
    let index := index.buildVectorRuntime
    (some (vectorReader graph index.vectorIndex tree), index)
  else (buildRootReader fuel index.queryContext tree.root, index)

end LocalIndex

/-- The union over a base and its delta. -/
def bothReaders (base delta : LocalReader) : SearchReader :=
  .both (newOr (LocalReader.cursor fuel) [base, delta])

namespace IndexContext

/-- `GetReader`: the reader. The indexes after it have built their vector
indexes if it asked for them. -/
def getReader (context : IndexContext) (tree : EvalTree) : Option SearchReader := do
  let base ← (context.base.buildLocalReader graph fuel tree).1
  match context.delta with
  | none => return .single base
  | some delta =>
      -- An empty tree is answered before the delta is looked at.
      if delta.index.documentCount > 0 ∧ (tree.root.isSome ∨ tree.vectorQuery ≠ []) then
        let delta ← (delta.index.buildLocalReader graph fuel tree).1
        return bothReaders fuel base delta
      else return .single base

end IndexContext

/-! ## `SearchRuntime` -/

/-- The snapshot of one index that the workers hold. -/
structure RuntimeIndex where
  queryContext : QueryContext
  vectorIndex : VectorIndex

/-- `SearchRuntime` -/
structure SearchRuntime where
  base : RuntimeIndex
  delta : Option RuntimeIndex

namespace SearchRuntime

/-- The fields `from_context` copies from one index. -/
def ofIndex (index : LocalIndex) : RuntimeIndex := ⟨index.queryContext, index.vectorIndex⟩

/-- `from_context` -/
def fromContext (context : IndexContext) : SearchRuntime where
  base := ofIndex context.base
  delta :=
    match context.delta with
    | some delta => if delta.index.documentCount > 0 then some (ofIndex delta.index) else none
    | none => none

/-- `build_local_reader` -/
def buildLocalReader (runtime : RuntimeIndex) (tree : EvalTree) : Option LocalReader :=
  if tree.root.isNone ∧ tree.vectorQuery ≠ [] then
    some (vectorReader graph runtime.vectorIndex tree)
  else buildRootReader fuel runtime.queryContext tree.root

/-- `get_reader` -/
def getReader (runtime : SearchRuntime) (tree : EvalTree) : Option SearchReader := do
  let base ← buildLocalReader graph fuel runtime.base tree
  match runtime.delta with
  | none => return .single base
  | some delta =>
      if tree.root.isSome ∨ tree.vectorQuery ≠ [] then
        let delta ← buildLocalReader graph fuel delta tree
        return bothReaders fuel base delta
      else return .single base

end SearchRuntime

/-- `EnsureSearchWorkersStarted` of a context without running workers: only the
base builds its vector index. -/
def IndexContext.ensureSearchWorkersStarted (context : IndexContext) : IndexContext :=
  { context with base := context.base.buildVectorRuntime }

end Readers

/-! ## Both ways agree -/

section Agreement

variable {graph : GraphSearch} {fuel : Nat}

theorem VectorIndex.search_of_no_nodes {index : VectorIndex} (empty : index.docIds = [])
    (query : List F32) (topK efSearch : Nat) : index.search graph query topK efSearch = [] := by
  rw [VectorIndex.search, if_pos (.inr empty)]

namespace LocalIndex

theorem buildVectorRuntime_of_built {index : LocalIndex} (done : index.vectorBuilt = true) :
    index.buildVectorRuntime = index := by
  rw [buildVectorRuntime, if_pos done]

@[simp] theorem buildVectorRuntime_vectorBuilt (index : LocalIndex) :
    index.buildVectorRuntime.vectorBuilt = true := by
  unfold buildVectorRuntime
  split
  · assumption
  · rfl

/-- Every document `BuildVectorRuntime` adds has a 32-bit id. -/
theorem vectorDocuments_fit (index : LocalIndex) :
    ∀ docId ∈ index.vectorDocuments, docId.toNat ≤ 0xFFFFFFFF := by
  intro docId member
  obtain ⟨slot, _, found⟩ := List.mem_filterMap.mp member
  dsimp only at found
  split at found
  · rename_i valid
    rw [← Option.some.inj found, ← valid.2.1, UInt32.toNat_toUInt64]
    have := (u32At index.docData (slot * docRecSize)).toNat_lt
    omega
  · cases found

/-- Adding documents to an empty index leaves it empty only when there are none. -/
theorem foldl_add_eq_nil_iff {documents : List UInt64} (index : VectorIndex)
    (fits : ∀ docId ∈ documents, docId.toNat ≤ 0xFFFFFFFF)
    (fresh : index.docIds = [] → index.linkSlots = 0) :
    (documents.foldl VectorIndex.add index).docIds = [] ↔ documents = [] ∧ index.docIds = [] := by
  induction documents generalizing index with
  | nil => simp
  | cons docId rest inductionHypothesis =>
      have added := index.add_ne_nil (fits docId List.mem_cons_self) fresh
      rw [List.foldl_cons, inductionHypothesis (index.add docId)
        (fun other member => fits other (List.mem_cons_of_mem _ member))
        (fun empty => absurd empty added)]
      constructor
      · intro both
        exact absurd both.2 added
      · intro both
        exact absurd both.1 (by simp)

theorem buildVectorRuntime_nodes {index : LocalIndex} (unbuilt : index.vectorBuilt = false) :
    index.buildVectorRuntime.vectorIndex.docIds = [] ↔ index.vectorDocuments = [] := by
  rw [buildVectorRuntime, unbuilt]
  show (index.vectorDocuments.foldl VectorIndex.add _).docIds = [] ↔ _
  rw [foldl_add_eq_nil_iff _ index.vectorDocuments_fit (fun _ => rfl)]
  exact and_iff_left rfl

end LocalIndex

/-- What a search sees after some calls on a reader. -/
def observed (fuel : Nat) (reader : Option SearchReader) (calls : List SearchCall) :
    Option Observation := do
  (← (← reader).runAll fuel calls).observe fuel

/-- The queued search sees what the synchronous search sees, whatever calls both
make. -/
def QueuedAgrees (graph : GraphSearch) (context : IndexContext) (tree : EvalTree) : Prop :=
  let started := context.ensureSearchWorkersStarted
  ∀ fuel calls,
    observed fuel ((SearchRuntime.fromContext started).getReader graph fuel tree) calls =
      observed fuel (started.getReader graph fuel tree) calls

/-- The delta has vectors that it has not put into its vector index. -/
def VectorsPending (context : IndexContext) : Prop :=
  ∃ delta, context.delta = some delta ∧ delta.index.vectorBuilt = false ∧
    delta.index.vectorDocuments ≠ []

/-- A vector query that a search answers. -/
def VectorOnly (tree : EvalTree) : Prop :=
  tree.root = none ∧ tree.vectorQuery.length = docVectorDim

/-- Both builders give the same reader of an index, when its vector index already
gives what it gives after a build. -/
theorem buildLocalReader_eq {index : LocalIndex} {tree : EvalTree}
    (same : tree.root = none → index.vectorIndex.search graph tree.vectorQuery
        (max tree.vectorEfSearch 1) tree.vectorEfSearch =
      index.buildVectorRuntime.vectorIndex.search graph tree.vectorQuery
        (max tree.vectorEfSearch 1) tree.vectorEfSearch) :
    SearchRuntime.buildLocalReader graph fuel (SearchRuntime.ofIndex index) tree =
      (index.buildLocalReader graph fuel tree).1 := by
  unfold SearchRuntime.buildLocalReader LocalIndex.buildLocalReader
  by_cases vectorOnly : tree.root.isNone ∧ tree.vectorQuery ≠ []
  · rw [if_pos vectorOnly, if_pos vectorOnly]
    have none_ : tree.root = none := by simpa using vectorOnly.1
    show some (vectorReader graph index.vectorIndex tree) = _
    unfold vectorReader
    rw [same none_]
  · rw [if_neg vectorOnly, if_neg vectorOnly]
    rfl

/-- The search in a delta that was not built finds nothing, and finds nothing
after a build either when no record holds a vector or the query has another
dimension. -/
theorem delta_search_eq {delta : AttachedDelta} {tree : EvalTree} {topK efSearch : Nat}
    (fine : delta.index.vectorBuilt = true ∨ delta.index.vectorDocuments = [] ∨
      tree.vectorQuery.length ≠ docVectorDim) :
    delta.index.vectorIndex.search graph tree.vectorQuery topK efSearch =
      delta.index.buildVectorRuntime.vectorIndex.search graph tree.vectorQuery topK efSearch := by
  by_cases done : delta.index.vectorBuilt = true
  · rw [LocalIndex.buildVectorRuntime_of_built done]
  · have unbuilt : delta.index.vectorBuilt = false := by simpa using done
    rw [VectorIndex.search_of_no_nodes (delta.unbuilt unbuilt)]
    rcases fine with built | none_ | dimension
    · exact absurd built done
    · have empty := (LocalIndex.buildVectorRuntime_nodes unbuilt).mpr none_
      rw [VectorIndex.search_of_no_nodes empty]
    · rw [VectorIndex.search, if_pos (.inl dimension)]

/-- Without pending vectors for the query the readers are the same. -/
theorem getReader_eq {context : IndexContext} {tree : EvalTree}
    (fine : ¬ (VectorOnly tree ∧ VectorsPending context)) :
    (SearchRuntime.fromContext context.ensureSearchWorkersStarted).getReader graph fuel tree =
      context.ensureSearchWorkersStarted.getReader graph fuel tree := by
  have baseSame : SearchRuntime.buildLocalReader graph fuel
      (SearchRuntime.fromContext context.ensureSearchWorkersStarted).base tree =
        (context.ensureSearchWorkersStarted.base.buildLocalReader graph fuel tree).1 := by
    apply buildLocalReader_eq
    intro _
    rw [LocalIndex.buildVectorRuntime_of_built
      (show context.ensureSearchWorkersStarted.base.vectorBuilt = true from
        LocalIndex.buildVectorRuntime_vectorBuilt _)]
  unfold SearchRuntime.getReader IndexContext.getReader
  rw [baseSame]
  congr 1
  funext base
  show (match (match context.delta with
      | some delta =>
          if delta.index.documentCount > 0 then some (SearchRuntime.ofIndex delta.index) else none
      | none => none) with
    | none => _
    | some delta => _) = match context.delta with
    | none => _
    | some delta => _
  cases attached : context.delta with
  | none => rfl
  | some delta =>
      dsimp only
      by_cases counted : delta.index.documentCount > 0
      · rw [if_pos counted]
        dsimp only
        have deltaSame : SearchRuntime.buildLocalReader graph fuel
            (SearchRuntime.ofIndex delta.index) tree =
              (delta.index.buildLocalReader graph fuel tree).1 := by
          apply buildLocalReader_eq
          intro none_
          apply delta_search_eq
          by_contra pending
          push Not at pending
          exact fine ⟨⟨none_, pending.2.2⟩, delta, attached, by simpa using pending.1, pending.2.1⟩
        rw [deltaSame]
        by_cases asked : tree.root.isSome ∨ tree.vectorQuery ≠ []
        · rw [if_pos asked, if_pos ⟨counted, asked⟩]
        · rw [if_neg asked, if_neg fun both => asked both.2]
      · rw [if_neg counted]
        dsimp only
        rw [if_neg fun both => counted both.1]

end Agreement

/-! ## Pending vectors are noticed -/

section Pending

variable {graph : GraphSearch} {fuel : Nat}

namespace VectorIndexReader

/-- The reader after a union has moved it to the target. -/
def skipped (reader : VectorIndexReader) (target : UInt64) : VectorIndexReader :=
  if reader.docId < target then reader.goUntil target else reader

/-- A reader that was moved to the target stands behind it. -/
theorem le_docId_skipped (reader : VectorIndexReader) {target : UInt64}
    (bound : target < noMoreDocs) : target ≤ (reader.skipped target).docId := by
  unfold skipped
  by_cases below : reader.docId < target
  · rw [if_pos below]
    show target ≤ docId ⟨reader.rest.dropWhile _⟩
    cases left : reader.rest.dropWhile fun result =>
        result.docId < target && result.docId < noMoreDocs with
    | nil => exact le_of_lt bound
    | cons first rest =>
        have stopped := List.head?_dropWhile_not
          (fun result => decide (result.docId < target) && decide (result.docId < noMoreDocs))
          reader.rest
        rw [left] at stopped
        show target ≤ first.docId
        by_contra low
        have low := not_le.mp low
        simp [low, lt_trans low bound] at stopped
  · rw [if_neg below]
    exact not_lt.mp below

end VectorIndexReader

theorem childDoc_vector (reader : VectorIndexReader) :
    childDoc (LocalReader.cursor fuel) (.vector reader) = reader.docId := by
  unfold childDoc
  show (if reader.isEnd then noMoreDocs else reader.docId) = reader.docId
  cases rest : reader.rest with
  | nil => simp [VectorIndexReader.isEnd, VectorIndexReader.docId, rest]
  | cons first _ => simp [VectorIndexReader.isEnd, rest]

/-- A union of vector results always knows its sources. -/
theorem sourceMasks_vectors (fuel : Nat) (places : List Nat) {children : List LocalReader}
    (vectors : ∀ child ∈ children, ∃ reader, child = .vector reader) :
    ∃ mask, IndexReader.sourceMasks (LocalReader.getSourceMask fuel) places children =
      some (mask, children) := by
  unfold IndexReader.sourceMasks
  generalize (0 : UInt8) = sources
  induction places generalizing sources with
  | nil => exact ⟨sources, rfl⟩
  | cons place rest inductionHypothesis =>
      rw [List.foldlM_cons]
      dsimp only
      cases found : children[place]? with
      | none => exact inductionHypothesis sources
      | some child =>
          have inside := List.mem_of_getElem? found
          have unchanged : children.set place child = children := by
            apply List.ext_getElem?
            intro index
            rw [List.getElem?_set]
            split
            · rename_i here
              subst here
              rw [found, if_pos (List.getElem?_eq_some_iff.mp found).1]
            · rfl
          obtain ⟨reader, rfl⟩ := vectors child inside
          show ∃ mask, List.foldlM _ (sources ||| reader.sourceMask, children.set place _) rest = _
          rw [unchanged]
          exact inductionHypothesis _

theorem skipChildren_vector (target : UInt64) (reader : VectorIndexReader)
    (children : List LocalReader) (childDocs : List UInt64) :
    skipChildren (LocalReader.cursor fuel) target (.vector reader :: children)
        (reader.docId :: childDocs) =
      (skipChildren (LocalReader.cursor fuel) target children childDocs).map
        fun (children, childDocs) =>
          (.vector (reader.skipped target) :: children,
            (reader.skipped target).docId :: childDocs) := by
  rw [skipChildren, VectorIndexReader.skipped]
  by_cases below : reader.docId < target
  · rw [if_pos below, if_pos below]
    show Option.map (fun (children, childDocs) => (LocalReader.vector (reader.goUntil target) :: children,
      childDoc (LocalReader.cursor fuel) (.vector (reader.goUntil target)) :: childDocs)) _ = _
    rw [childDoc_vector]
  · rw [if_neg below, if_neg below]

/-- The term frequency of a union of two readers over vector results is the number
of readers on its document. -/
theorem termFreq_vectors (base delta : VectorIndexReader) (baseDoc deltaDoc : UInt64) :
    (SearchReader.both (refreshCurrentDoc [.vector base, .vector delta]
        [baseDoc, deltaDoc])).termFreq =
      if min baseDoc deltaDoc = noMoreDocs then 0 else if baseDoc = deltaDoc then 2 else 1 := by
  show List.sum (List.map _ (if min baseDoc deltaDoc = noMoreDocs then [] else
    matchingChildren [baseDoc, deltaDoc] (min baseDoc deltaDoc))) = _
  by_cases ended : min baseDoc deltaDoc = noMoreDocs
  · rw [if_pos ended, if_pos ended]
    rfl
  · rw [if_neg ended, if_neg ended]
    rcases lt_trichotomy baseDoc deltaDoc with less | same | greater
    · have matching : matchingChildren [baseDoc, deltaDoc] (min baseDoc deltaDoc) = [0] := by
        simp [matchingChildren, List.range_succ, min_eq_left (le_of_lt less), ne_of_gt less]
      rw [matching, if_neg (ne_of_lt less)]
      rfl
    · have matching : matchingChildren [baseDoc, deltaDoc] (min baseDoc deltaDoc) = [0, 1] := by
        simp [matchingChildren, List.range_succ, same]
      rw [matching, if_pos same]
      rfl
    · have matching : matchingChildren [baseDoc, deltaDoc] (min baseDoc deltaDoc) = [1] := by
        simp [matchingChildren, List.range_succ, min_eq_right (le_of_lt greater), ne_of_gt greater]
      rw [matching, if_neg (ne_of_gt greater)]
      rfl

/-- What a search sees of the union of two readers over vector results that it
has moved to the target. -/
theorem observed_vectors (fuel : Nat) {base delta : VectorIndexReader} {target baseDoc deltaDoc : UInt64}
    (baseAt : (base.skipped target).docId = baseDoc)
    (deltaAt : (delta.skipped target).docId = deltaDoc) :
    ∃ mask, observed fuel (some (bothReaders fuel (.vector base) (.vector delta)))
        [.goUntil target] =
      some ⟨min baseDoc deltaDoc = noMoreDocs, min baseDoc deltaDoc,
        if min baseDoc deltaDoc = noMoreDocs then 0 else if baseDoc = deltaDoc then 2 else 1,
        mask⟩ := by
  have moved : skipChildren (LocalReader.cursor fuel) target [.vector base, .vector delta]
      [base.docId, delta.docId] =
        some ([.vector (base.skipped target), .vector (delta.skipped target)],
          [baseDoc, deltaDoc]) := by
    rw [skipChildren_vector, skipChildren_vector, baseAt, deltaAt]
    rfl
  have start : bothReaders fuel (.vector base) (.vector delta) =
      .both (refreshCurrentDoc [.vector base, .vector delta] [base.docId, delta.docId]) := by
    unfold bothReaders newOr
    rw [List.map_cons, List.map_cons, childDoc_vector, childDoc_vector]
    rfl
  have ran : (bothReaders fuel (.vector base) (.vector delta)).runAll fuel [.goUntil target] =
      some (.both (refreshCurrentDoc
        [.vector (base.skipped target), .vector (delta.skipped target)] [baseDoc, deltaDoc])) := by
    rw [start]
    show ((orGoUntil (LocalReader.cursor fuel) _ target).map SearchReader.both >>= pure) = _
    unfold orGoUntil
    show (Option.map SearchReader.both (Option.map _ (skipChildren (LocalReader.cursor fuel) target
      [.vector base, .vector delta] [base.docId, delta.docId])) >>= pure) = _
    rw [moved]
    rfl
  have vectors : ∀ child ∈ [LocalReader.vector (base.skipped target),
      .vector (delta.skipped target)], ∃ reader, child = .vector reader := by simp
  obtain ⟨mask, sources⟩ := sourceMasks_vectors fuel (refreshCurrentDoc
    [LocalReader.vector (base.skipped target), .vector (delta.skipped target)]
    [baseDoc, deltaDoc]).matching vectors
  use mask
  rw [← termFreq_vectors (base.skipped target) (delta.skipped target)]
  unfold observed
  show ((bothReaders fuel (.vector base) (.vector delta)).runAll fuel [.goUntil target]).bind
    (SearchReader.observe fuel) = _
  rw [ran]
  show (Option.map _ (Option.map _ (IndexReader.sourceMasks (LocalReader.getSourceMask fuel) _
    [LocalReader.vector (base.skipped target), .vector (delta.skipped target)]))) = _
  rw [sources]
  rfl

/-- A delta with vectors counts documents. -/
theorem documentCount_pos {index : LocalIndex} (some_ : index.vectorDocuments ≠ []) :
    index.documentCount > 0 := by
  by_contra none_
  apply some_
  have zero : index.header.numDocuments = 0 := UInt64.le_zero_iff.mp (not_lt.mp none_)
  unfold LocalIndex.vectorDocuments
  rw [zero]
  rfl

/-- The results of a search in the graph are documents. -/
theorem docId_new_lt {results : List VectorSearchResult} (nonempty : results ≠ [])
    (bound : ∀ result ∈ results, result.docId < noMoreDocs) :
    (VectorIndexReader.new results).docId < noMoreDocs := by
  have sorted := List.perm_insertionSort (fun left right : VectorSearchResult =>
    left.docId ≤ right.docId) results
  unfold VectorIndexReader.new VectorIndexReader.docId
  cases rest : results.insertionSort fun left right => left.docId ≤ right.docId with
  | nil =>
      rw [rest] at sorted
      exact absurd sorted.symm.eq_nil nonempty
  | cons first others =>
      rw [rest] at sorted
      exact bound first (sorted.mem_iff.mp List.mem_cons_self)

/-- The readers of a vector query in a context with a delta that has documents. -/
theorem getReader_vector (graph : GraphSearch) (fuel : Nat) (context : IndexContext)
    {delta : AttachedDelta} {tree : EvalTree} (vectorOnly : VectorOnly tree) (attached : context.delta = some delta)
    (counted : delta.index.documentCount > 0) :
    (SearchRuntime.fromContext context).getReader graph fuel tree =
        some (bothReaders fuel (vectorReader graph context.base.vectorIndex tree)
          (vectorReader graph delta.index.vectorIndex tree)) ∧
      context.getReader graph fuel tree =
        some (bothReaders fuel
          (vectorReader graph context.base.buildVectorRuntime.vectorIndex tree)
          (vectorReader graph delta.index.buildVectorRuntime.vectorIndex tree)) := by
  have asked : tree.root.isNone ∧ tree.vectorQuery ≠ [] := by
    constructor
    · rw [vectorOnly.1]
      rfl
    · intro empty
      have dimension := vectorOnly.2
      rw [empty] at dimension
      cases dimension
  constructor
  · have runtime : (SearchRuntime.fromContext context).delta =
        some (SearchRuntime.ofIndex delta.index) := by
      unfold SearchRuntime.fromContext
      rw [attached]
      exact if_pos counted
    unfold SearchRuntime.getReader SearchRuntime.buildLocalReader
    rw [runtime, if_pos asked]
    dsimp only [Option.bind_eq_bind, Option.bind_some]
    rw [if_pos (.inr asked.2), if_pos asked]
    rfl
  · unfold IndexContext.getReader LocalIndex.buildLocalReader
    rw [attached, if_pos asked]
    dsimp only [Option.bind_eq_bind, Option.bind_some]
    rw [if_pos ⟨counted, .inr asked.2⟩, if_pos asked]
    rfl

/-- The queued search has no results in a delta where the synchronous search has
some, and one call is enough to see it. -/
theorem pending_differs {context : IndexContext} {tree : EvalTree} (vectorOnly : VectorOnly tree)
    (pending : VectorsPending context) : ¬ QueuedAgrees graph context tree := by
  obtain ⟨delta, attached, unbuilt, some_⟩ := pending
  intro agrees
  let started := context.ensureSearchWorkersStarted
  have readers := getReader_vector graph 0 started vectorOnly attached (documentCount_pos some_)
  have baseBuilt : started.base.buildVectorRuntime = started.base :=
    LocalIndex.buildVectorRuntime_of_built (LocalIndex.buildVectorRuntime_vectorBuilt _)
  have unseen : vectorReader graph delta.index.vectorIndex tree = .vector ⟨[]⟩ := by
    unfold vectorReader
    rw [VectorIndex.search_of_no_nodes (delta.unbuilt unbuilt)]
    rfl
  let results := delta.index.buildVectorRuntime.vectorIndex.search graph tree.vectorQuery
    (max tree.vectorEfSearch 1) tree.vectorEfSearch
  have nodes : delta.index.buildVectorRuntime.vectorIndex.docIds ≠ [] :=
    fun empty => some_ ((LocalIndex.buildVectorRuntime_nodes unbuilt).mp empty)
  have searched : results = graph.search delta.index.buildVectorRuntime.vectorIndex
      tree.vectorQuery (max tree.vectorEfSearch 1) tree.vectorEfSearch := by
    apply if_neg
    rintro (dimension | empty)
    · exact dimension vectorOnly.2
    · exact nodes empty
  have below : (VectorIndexReader.new results).docId < noMoreDocs := by
    rw [searched]
    apply docId_new_lt
    · exact graph.answers _ _ _ _ nodes (by omega)
    · intro result member
      obtain ⟨node, _, same⟩ := graph.answersNodes _ _ _ _ result member
      rw [same, UInt64.lt_iff_toNat_lt, UInt32.toNat_toUInt64]
      have := node.toNat_lt
      have : noMoreDocs.toNat = 2 ^ 64 - 1 := by decide
      omega
  -- Both unions are moved to the first result the queued search misses.
  generalize target : (VectorIndexReader.new results).docId = first at below
  let base := VectorIndexReader.new (started.base.vectorIndex.search graph tree.vectorQuery
    (max tree.vectorEfSearch 1) tree.vectorEfSearch)
  generalize baseAt : (base.skipped first).docId = baseDoc
  have behind : first ≤ baseDoc := baseAt ▸ base.le_docId_skipped below
  have syncAt : ((VectorIndexReader.new results).skipped first).docId = first := by
    rw [VectorIndexReader.skipped, if_neg (by rw [target]; exact lt_irrefl first)]
    exact target
  have queuedAt : (VectorIndexReader.skipped ⟨[]⟩ first).docId = noMoreDocs := by
    rw [VectorIndexReader.skipped]
    split <;> rfl
  obtain ⟨queuedMask, queued⟩ := observed_vectors 0 baseAt queuedAt
  obtain ⟨syncMask, sync⟩ := observed_vectors 0 baseAt syncAt
  have same := agrees 0 [.goUntil first]
  change observed 0 ((SearchRuntime.fromContext started).getReader graph 0 tree) _ =
    observed 0 (started.getReader graph 0 tree) _ at same
  rw [readers.1, readers.2, baseBuilt, unseen] at same
  have equal := Option.some.inj ((queued.symm.trans same).trans sync)
  have docs := congrArg Observation.docId equal
  have frequencies := congrArg Observation.termFreq equal
  dsimp only at docs frequencies
  have bounded : baseDoc ≤ noMoreDocs := UInt64.le_iff_toNat_le.mpr (by
    have := baseDoc.toNat_lt
    have : noMoreDocs.toNat = 2 ^ 64 - 1 := by decide
    omega)
  rw [min_eq_left bounded, min_eq_right behind] at docs frequencies
  subst docs
  rw [if_neg (ne_of_lt below), if_neg (ne_of_lt below), if_neg (ne_of_lt below), if_pos rfl]
    at frequencies
  exact absurd frequencies (by decide)

/-- The queued search sees what the synchronous search sees exactly when it is not
a vector query on a delta whose vector index still has to be built. -/
theorem queued_search_iff (graph : GraphSearch) (context : IndexContext) (tree : EvalTree) :
    QueuedAgrees graph context tree ↔ ¬ (VectorOnly tree ∧ VectorsPending context) := by
  constructor
  · intro agrees both
    exact pending_differs both.1 both.2 agrees
  · intro fine fuel calls
    rw [getReader_eq fine]

end Pending

/-- A graph search that answers with the first nodes of the graph. -/
def firstNodes : GraphSearch where
  search index _ topK _ := (index.docIds.take topK).map fun node => ⟨node.toUInt64, 0⟩
  answersNodes := by
    intro index _ topK _ result member
    obtain ⟨node, inside, rfl⟩ := List.mem_map.mp member
    exact ⟨node, List.mem_of_mem_take inside, rfl⟩
  answers := by
    intro index _ topK _ nonempty positive empty
    have none_ := List.take_eq_nil_iff.mp (List.map_eq_nil_iff.mp empty)
    rcases none_ with zero | none_
    · omega
    · exact nonempty none_

/-- A context that has loaded an index with the document 0, to which the document 1
is added and saved as the delta. -/
def pendingContext : IndexContext :=
  .loadAddSave default wordText wordFiles .new wordPath (wordDocument 1) true

theorem pendingContext_delta : pendingContext.base.loadedFromDisk = true ∧
    ∃ delta, pendingContext.delta = some delta ∧
      delta.index.BuiltFrom default (wordStore 1) ∧ delta.index.vectorBuilt = false := by
  have present : wordFiles wordPath = some (builtParts default (wordStore 0)).bytes :=
    Function.update_self ..
  have writes : writeDocument default wordText .new (wordDocument 1).docId (wordDocument 1) true =
      wordStore 1 := rfl
  have cache : pageSize ≤ IndexContext.new.base.leafTermCacheBytes := by decide
  have saved := IndexContext.loadAddSave_delta (wordStore_storable (.inl rfl)) present cache
    (show (wordDocument 1).docId ≠ 0xFFFFFFFFFFFFFFFF by decide) writes
    (wordStore_storable (.inr rfl))
  rw [← pendingContext] at saved
  exact saved

/-- A queued vector query misses the delta that the synchronous one searches. -/
theorem queued_search_misses_delta :
    pendingContext.base.loadedFromDisk = true ∧
      ¬ QueuedAgrees firstNodes pendingContext
        ⟨none, List.replicate docVectorDim 0x3DB504F3, 200⟩ := by
  obtain ⟨loaded, delta, attached, built, unbuilt⟩ := pendingContext_delta
  refine ⟨loaded, pending_differs ⟨rfl, rfl⟩ ⟨delta, attached, unbuilt, ?_⟩⟩
  unfold LocalIndex.vectorDocuments LocalIndex.firstDocId
  rw [built.header, built.docData]
  decide +kernel

end MoonShot.Context
