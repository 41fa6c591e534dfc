import MoonShot.Reader.Tree
import MoonShot.Index.BuildThenRead

/-!
Query trees: the nodes, what they denote and `BuildIndexReader`.

Owns the query nodes, the builder with its pruning, the documents a node denotes and
the values it has on them.

Does not own any claim about the readers that are built.
-/

namespace MoonShot.Index

open MoonShot.Lib
open MoonShot.Postings
open MoonShot.Format
open MoonShot.Table
open MoonShot.Serializer
open MoonShot.Reader

/-! ## Query nodes -/

inductive WeakAndBuildMode where
  | flatPruned
  | orChildren
  | orChildrenPruned
deriving DecidableEq

/-- `EvalNode`. The defaults are those of `TermNode::new` and `BoostNode::new`. -/
inductive EvalNode where
  | term (streamKey : Str) (wordSpan : UInt32 := 1)
  | and (children : List EvalNode)
  | or (children : List EvalNode)
  | weakAnd (children : List EvalNode) (minShouldMatch : UInt32)
  | not (base exclude : EvalNode)
  | boost (base boost : EvalNode) (boostWeight : F32 := 0x3F800000)

section Flatten

variable (docFreqOf : Str → Nat) (documentCount : Nat)

mutual

/-- `EstimateDocFreq` -/
def estimateDocFreq : EvalNode → Nat
  | .term key _ => docFreqOf key
  | .or children => min (sumDocFreq children) (2 ^ 32 - 1)
  | _ => 0

def sumDocFreq : List EvalNode → Nat
  | [] => 0
  | node :: rest => estimateDocFreq node + sumDocFreq rest

end

def highDf (node : EvalNode) : Bool :=
  documentCount > 0 ∧ estimateDocFreq docFreqOf node > 0 ∧
    estimateDocFreq docFreqOf node > max 100000 (documentCount / 5)

/-- `FlattenWeakAndNodes` -/
def flattenWeakAndNodes (allowHighDf : Bool) : List EvalNode → List EvalNode
  | [] => []
  | .or children :: rest =>
      flattenWeakAndNodes allowHighDf children ++ flattenWeakAndNodes allowHighDf rest
  | node :: rest =>
      (if allowHighDf || !highDf docFreqOf documentCount node then [node] else []) ++
        flattenWeakAndNodes allowHighDf rest

end Flatten

/-! ## The builder -/

/-- What `BuildIndexReader` reads of its context. -/
structure QueryContext where
  table : IndexBlockTable
  documentCount : UInt64
  storeDocs : UInt64
  mode : WeakAndBuildMode

namespace QueryContext

def numDocuments (context : QueryContext) : UInt64 :=
  if context.documentCount > 0 then context.documentCount else context.storeDocs

def docFreqOf (context : QueryContext) (key : Str) : Nat :=
  match context.table.findTermData key with
  | some location => location.docFreq.toNat
  | none => 0

/-- `OpenAdvancedReader`. Stream averages are at least one. -/
def openAdvancedReader (context : QueryContext) (key : Str) (wordSpan : UInt32) :
    Option IndexReader :=
  (AdvancedIndexReader.openReader context.table key context.numDocuments true).map
    (.leaf key wordSpan)

def flatten (context : QueryContext) (allowHighDf : Bool) (nodes : List EvalNode) :
    List EvalNode :=
  flattenWeakAndNodes context.docFreqOf context.documentCount.toNat allowHighDf nodes

/-- The `min_should_match` of `FlatPruned`. -/
def flatMinShouldMatch (count : Nat) : Nat :=
  if count ≤ 2 then 1 else if count ≤ 5 then 2 else 3

def weakAndMinShouldMatch (mode : WeakAndBuildMode) (minShouldMatch : UInt32) (count : Nat) : Nat :=
  if mode = .flatPruned then flatMinShouldMatch count
  else min minShouldMatch.toNat (count % 2 ^ 32)

/-- The readers of the children of a `WeakAnd` node. -/
def weakAndReaders (context : QueryContext) (build : EvalNode → Option IndexReader)
    (children : List EvalNode) : Option (List IndexReader) := do
  let nodes := if context.mode = .flatPruned then context.flatten false children else children
  let readers ← nodes.mapM build
  let readers :=
    if context.mode ≠ .orChildren then readers.filter fun reader => !reader.isEnd else readers
  if readers.isEmpty ∧ context.mode = .flatPruned then
    let all ← (context.flatten true children).mapM build
    pure (all.filter fun reader => !reader.isEnd)
  else pure readers

/-- `BuildIndexReader` of a node -/
def buildIndexReader (context : QueryContext) : (fuel : Nat) → EvalNode → Option IndexReader
  | 0 => fun _ => none
  | fuel + 1 => fun node =>
      let build := buildIndexReader context fuel
      let cursor := IndexReader.cursor context.table.indexBlocks fuel
      match node with
      | .term key wordSpan => context.openAdvancedReader key wordSpan
      | .and children => do
          let readers ← children.mapM build
          if readers.any IndexReader.isEnd then context.openAdvancedReader .empty 1
          else
            match readers with
            | [single] => some single
            | readers => (alignToPivot cursor fuel readers).map .and
      | .or children => do
          let readers ← children.mapM build
          match readers.filter fun reader => !reader.isEnd with
          | [] => context.openAdvancedReader .empty 1
          | [single] => some single
          | readers => some (.or (newOr cursor readers))
      | .weakAnd children minShouldMatch => do
          let readers ← context.weakAndReaders build children
          match readers with
          | [] => context.openAdvancedReader .empty 1
          | [single] => some single
          | readers =>
              (newWeakAnd cursor fuel readers
                (weakAndMinShouldMatch context.mode minShouldMatch readers.length)).map .weakAnd
      | .not base exclude => do
          let base ← build base
          let exclude ← build exclude
          (skipExcluded cursor fuel base exclude).map fun (base, exclude) => .not base exclude
      | .boost base boost boostWeight => do
          let base ← build base
          if base.isEnd then some base
          else
            let boost ← build boost
            if boost.isEnd then some base
            else some (.boost (newBoost cursor base boost boostWeight))

end QueryContext

/-! ## What a node denotes -/

/-- The documents a term denotes and how many documents the index has. -/
structure Meaning where
  lists : Str → Finset UInt64
  documentCount : Nat
  mode : WeakAndBuildMode

namespace Meaning

def tooFrequent (meaning : Meaning) (node : EvalNode) : Bool :=
  highDf (fun key => (meaning.lists key).card) meaning.documentCount node

/-- The documents of enough children, `minShouldMatch` taken against their number. -/
def weakAnd (mode : WeakAndBuildMode) (minShouldMatch : UInt32) (sets : List (Finset UInt64)) :
    Finset UInt64 :=
  atLeast (max 1 (QueryContext.weakAndMinShouldMatch mode minShouldMatch sets.length)) sets

mutual

def docsOf (meaning : Meaning) : EvalNode → Finset UInt64
  | .term key _ => meaning.lists key
  | .and children => interAll (meaning.denotations children)
  | .or children => unionAll (meaning.denotations children)
  | .weakAnd children minShouldMatch =>
      match meaning.mode with
      | .orChildren => weakAnd meaning.mode minShouldMatch (meaning.denotations children)
      | .orChildrenPruned =>
          weakAnd meaning.mode minShouldMatch
            ((meaning.denotations children).filter fun docs => docs ≠ ∅)
      | .flatPruned =>
          let kept := (meaning.leafDenotations false children).filter fun docs => docs ≠ ∅
          let all := (meaning.leafDenotations true children).filter fun docs => docs ≠ ∅
          weakAnd meaning.mode minShouldMatch (if kept = [] then all else kept)
  | .not base exclude => meaning.docsOf base \ meaning.docsOf exclude
  | .boost base _ _ => meaning.docsOf base

def denotations (meaning : Meaning) : List EvalNode → List (Finset UInt64)
  | [] => []
  | node :: rest => meaning.docsOf node :: meaning.denotations rest

/-- The denotations of the leaves below nested `Or` nodes, without those that
are too frequent unless these are allowed. -/
def leafDenotations (meaning : Meaning) (allowHighDf : Bool) :
    List EvalNode → List (Finset UInt64)
  | [] => []
  | .or children :: rest =>
      meaning.leafDenotations allowHighDf children ++ meaning.leafDenotations allowHighDf rest
  | node :: rest =>
      (if allowHighDf || !meaning.tooFrequent node then [meaning.docsOf node] else []) ++
        meaning.leafDenotations allowHighDf rest

end

/-- The sets a `WeakAnd` node counts. -/
def weakAndSets (meaning : Meaning) (children : List EvalNode) : List (Finset UInt64) :=
  match meaning.mode with
  | .orChildren => meaning.denotations children
  | .orChildrenPruned => (meaning.denotations children).filter fun docs => docs ≠ ∅
  | .flatPruned =>
      let kept := (meaning.leafDenotations false children).filter fun docs => docs ≠ ∅
      let all := (meaning.leafDenotations true children).filter fun docs => docs ≠ ∅
      if kept = [] then all else kept

theorem docsOf_weakAnd (meaning : Meaning) (children : List EvalNode)
    (minShouldMatch : UInt32) :
    meaning.docsOf (.weakAnd children minShouldMatch) =
      weakAnd meaning.mode minShouldMatch (meaning.weakAndSets children) := by
  rw [docsOf, weakAndSets]
  cases meaning.mode <;> rfl

theorem denotations_eq (meaning : Meaning) (nodes : List EvalNode) :
    meaning.denotations nodes = nodes.map meaning.docsOf := by
  induction nodes with
  | nil => rfl
  | cons node rest inductionHypothesis =>
      rw [denotations, inductionHypothesis]
      rfl

theorem leafDenotations_eq (meaning : Meaning) (allowHighDf : Bool) (nodes : List EvalNode) :
    meaning.leafDenotations allowHighDf nodes =
      (flattenWeakAndNodes (fun key => (meaning.lists key).card) meaning.documentCount allowHighDf
        nodes).map meaning.docsOf := by
  fun_induction flattenWeakAndNodes (fun key => (meaning.lists key).card) meaning.documentCount
    allowHighDf nodes with
  | case1 => rfl
  | case2 children rest childrenHypothesis restHypothesis =>
      rw [leafDenotations, childrenHypothesis, restHypothesis, List.map_append]
  | case3 node rest notOr restHypothesis =>
      rw [leafDenotations, restHypothesis, List.map_append]
      · unfold tooFrequent
        split <;> rfl
      · exact notOr

/-! ### Values of a node -/

/-- The nodes below nested `Or` nodes, as the builder flattens them. -/
def flatten (meaning : Meaning) (allowHighDf : Bool) (nodes : List EvalNode) : List EvalNode :=
  flattenWeakAndNodes (fun key => (meaning.lists key).card) meaning.documentCount allowHighDf nodes

/-- The nodes a `WeakAnd` node keeps. -/
def weakAndNodes (meaning : Meaning) (children : List EvalNode) : List EvalNode :=
  match meaning.mode with
  | .orChildren => children
  | .orChildrenPruned => children.filter fun node => meaning.docsOf node ≠ ∅
  | .flatPruned =>
      let kept := (meaning.flatten false children).filter fun node => meaning.docsOf node ≠ ∅
      let all := (meaning.flatten true children).filter fun node => meaning.docsOf node ≠ ∅
      if kept = [] then all else kept

section Values

variable {M : Type} (valuation : Valuation M)

mutual

/-- The value of a node on a document. -/
def valueOf (meaning : Meaning) : EvalNode → UInt64 → M
  | .term key wordSpan, doc => valuation.leaf key wordSpan doc
  | .and children, doc => valuation.total (meaning.valuesOf children doc)
  | .or children, doc => valuation.total (meaning.matchingValuesOf children doc)
  | .weakAnd children _, doc =>
      match meaning.mode with
      | .orChildren => valuation.total (meaning.matchingValuesOf children doc)
      | .orChildrenPruned => valuation.total (meaning.matchingValuesOf children doc)
      | .flatPruned =>
          let kept := (meaning.leafDenotations false children).filter fun docs => docs ≠ ∅
          valuation.total (meaning.leafValuesOf (kept = []) children doc)
  | .not base _, doc => meaning.valueOf base doc
  | .boost base boost boostWeight, doc =>
      if doc ∈ meaning.docsOf boost then
        valuation.add (meaning.valueOf base doc)
          (valuation.boosted boostWeight (meaning.valueOf boost doc))
      else meaning.valueOf base doc

def valuesOf (meaning : Meaning) : List EvalNode → UInt64 → List M
  | [], _ => []
  | node :: rest, doc => meaning.valueOf node doc :: meaning.valuesOf rest doc

/-- The values of the nodes that have the document. -/
def matchingValuesOf (meaning : Meaning) : List EvalNode → UInt64 → List M
  | [], _ => []
  | node :: rest, doc =>
      (if doc ∈ meaning.docsOf node then [meaning.valueOf node doc] else []) ++
        meaning.matchingValuesOf rest doc

/-- The values of the leaves below nested `Or` nodes that have the document. -/
def leafValuesOf (meaning : Meaning) (allowHighDf : Bool) : List EvalNode → UInt64 → List M
  | [], _ => []
  | .or children :: rest, doc =>
      meaning.leafValuesOf allowHighDf children doc ++ meaning.leafValuesOf allowHighDf rest doc
  | node :: rest, doc =>
      (if (allowHighDf || !meaning.tooFrequent node) ∧ doc ∈ meaning.docsOf node then
          [meaning.valueOf node doc] else []) ++
        meaning.leafValuesOf allowHighDf rest doc

end

theorem valuesOf_eq (meaning : Meaning) (nodes : List EvalNode) (doc : UInt64) :
    meaning.valuesOf valuation nodes doc =
      nodes.map fun node => meaning.valueOf valuation node doc := by
  induction nodes with
  | nil => rfl
  | cons node rest inductionHypothesis => rw [valuesOf, inductionHypothesis, List.map_cons]

/-- The values that the nodes with the document have on it. -/
def valuesAt (meaning : Meaning) (nodes : List EvalNode) (doc : UInt64) : List M :=
  (nodes.filter fun node => doc ∈ meaning.docsOf node).map fun node =>
    meaning.valueOf valuation node doc

theorem valuesAt_cons (meaning : Meaning) (node : EvalNode) (rest : List EvalNode) (doc : UInt64) :
    meaning.valuesAt valuation (node :: rest) doc =
      (if doc ∈ meaning.docsOf node then [meaning.valueOf valuation node doc] else []) ++
        meaning.valuesAt valuation rest doc := by
  unfold valuesAt
  by_cases inside : doc ∈ meaning.docsOf node
  · rw [if_pos inside, List.filter_cons_of_pos (by simpa using inside), List.map_cons]
    rfl
  · rw [if_neg inside, List.filter_cons_of_neg (by simpa using inside)]
    rfl

/-- Nodes without documents have no values. -/
theorem valuesAt_nonempty (meaning : Meaning) (nodes : List EvalNode) (doc : UInt64) :
    meaning.valuesAt valuation (nodes.filter fun node => meaning.docsOf node ≠ ∅) doc =
      meaning.valuesAt valuation nodes doc := by
  unfold valuesAt
  rw [List.filter_filter]
  congr 1
  apply List.filter_congr
  intro node _
  by_cases inside : doc ∈ meaning.docsOf node
  · simp [inside, Finset.ne_empty_of_mem inside]
  · simp [inside]

theorem matchingValuesOf_eq (meaning : Meaning) (nodes : List EvalNode) (doc : UInt64) :
    meaning.matchingValuesOf valuation nodes doc = meaning.valuesAt valuation nodes doc := by
  induction nodes with
  | nil => rfl
  | cons node rest inductionHypothesis =>
      rw [matchingValuesOf, inductionHypothesis, valuesAt_cons]

theorem leafValuesOf_eq (meaning : Meaning) (allowHighDf : Bool) (nodes : List EvalNode)
    (doc : UInt64) :
    meaning.leafValuesOf valuation allowHighDf nodes doc =
      meaning.valuesAt valuation (meaning.flatten allowHighDf nodes) doc := by
  unfold flatten
  fun_induction flattenWeakAndNodes (fun key => (meaning.lists key).card) meaning.documentCount
    allowHighDf nodes with
  | case1 => rfl
  | case2 children rest childrenHypothesis restHypothesis =>
      rw [leafValuesOf, childrenHypothesis, restHypothesis]
      simp [valuesAt]
  | case3 node rest notOr restHypothesis =>
      rw [leafValuesOf, restHypothesis]
      · unfold tooFrequent
        by_cases kept : (allowHighDf || !highDf (fun key => (meaning.lists key).card)
            meaning.documentCount node) = true
        · simp [kept, valuesAt_cons]
        · simp [kept]
      · exact notOr

theorem weakAndSets_eq (meaning : Meaning) (children : List EvalNode) :
    meaning.weakAndSets children = (meaning.weakAndNodes children).map meaning.docsOf := by
  have filtered : ∀ nodes : List EvalNode,
      (nodes.map meaning.docsOf).filter (fun docs => docs ≠ ∅) =
        (nodes.filter fun node => meaning.docsOf node ≠ ∅).map meaning.docsOf :=
    fun nodes => List.filter_map
  unfold weakAndSets weakAndNodes
  cases meaning.mode with
  | orChildren => exact meaning.denotations_eq children
  | orChildrenPruned =>
      dsimp only
      rw [denotations_eq, filtered]
  | flatPruned =>
      dsimp only
      rw [leafDenotations_eq, leafDenotations_eq, filtered, filtered]
      simp only [List.map_eq_nil_iff]
      exact (apply_ite _ _ _ _).symm

theorem valueOf_weakAnd (meaning : Meaning) (children : List EvalNode) (minShouldMatch : UInt32)
    (doc : UInt64) :
    meaning.valueOf valuation (.weakAnd children minShouldMatch) doc =
      valuation.total (meaning.valuesAt valuation (meaning.weakAndNodes children) doc) := by
  rw [valueOf]
  unfold weakAndNodes
  cases meaning.mode with
  | orChildren =>
      dsimp only
      rw [matchingValuesOf_eq]
  | orChildrenPruned =>
      dsimp only
      rw [matchingValuesOf_eq, valuesAt_nonempty]
  | flatPruned =>
      dsimp only
      have same : (meaning.leafDenotations false children).filter (fun docs => docs ≠ ∅) = [] ↔
          (meaning.flatten false children).filter (fun node => meaning.docsOf node ≠ ∅) = [] := by
        rw [leafDenotations_eq, List.filter_map, List.map_eq_nil_iff]
        rfl
      rw [leafValuesOf_eq, decide_eq_decide.mpr same]
      by_cases none_ :
          (meaning.flatten false children).filter (fun node => meaning.docsOf node ≠ ∅) = []
      · rw [if_pos none_, decide_eq_true none_, valuesAt_nonempty]
      · rw [if_neg none_, decide_eq_false none_, valuesAt_nonempty]

end Values

end Meaning

/-- Flattened nodes are parts of the nodes they come from. -/
theorem sizeOf_flatten {docFreqOf : Str → Nat} {documentCount : Nat} {allowHighDf : Bool}
    {nodes : List EvalNode} {node : EvalNode}
    (member : node ∈ flattenWeakAndNodes docFreqOf documentCount allowHighDf nodes) :
    sizeOf node < sizeOf nodes := by
  fun_induction flattenWeakAndNodes docFreqOf documentCount allowHighDf nodes with
  | case1 => cases member
  | case2 children rest childrenHypothesis restHypothesis =>
      simp only [List.cons.sizeOf_spec, EvalNode.or.sizeOf_spec]
      rcases List.mem_append.mp member with inside | later
      · have := childrenHypothesis inside
        omega
      · have := restHypothesis later
        omega
  | case3 first rest notOr restHypothesis =>
      simp only [List.cons.sizeOf_spec]
      rcases List.mem_append.mp member with here | later
      · split at here
        · rw [List.mem_singleton.mp here]
          omega
        · cases here
      · have := restHypothesis later
        omega

end MoonShot.Index
