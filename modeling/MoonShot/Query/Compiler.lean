import MoonShot.Index.ReaderTree

/-!
The query compiler (`IndexSearchCompiler.rs`): from a query string and a stream
set to the tree of `EvalNode`s.

Owns the raw items and the operator tokens, the four compile modes, the parser
loop, and the reading of a query as disjuncts of items that the loop implements.

The tokenizer is a parameter.
-/

namespace MoonShot.Query

open MoonShot.Lib
open MoonShot.Postings
open MoonShot.Postings.PostingStore
open MoonShot.Index

/-- `QueryCompileMode` -/
inductive QueryCompileMode where
  | default
  | weakAndBigram
  | weakAndBigramBoost
  | weakAndBigramBoostForDoc
deriving DecidableEq

/-- `EvalTree` -/
structure EvalTree where
  root : Option EvalNode
  vectorQuery : List F32
  vectorEfSearch : Nat

/-- `EvalTree::new` -/
def EvalTree.new (root : Option EvalNode) : EvalTree := ⟨root, [], 200⟩

/-! ## Streams and raw items -/

/-- The stream of a letter of the stream set. -/
def streamOfLetter (byte : UInt8) : Option Stream :=
  if byte = 0x41 then some .anchor
  else if byte = 0x55 then some .url
  else if byte = 0x54 then some .title
  else if byte = 0x42 then some .body
  else if byte = 0x4D then some .metadata
  else none

/-- `HasVectorStream` -/
def hasVectorStream (streamSet : Str) : Bool :=
  streamSet.bytes.any fun byte => byte = 0x56 ∨ byte = 0x76

/-- `ParseStreamSet` -/
def parseStreamSet (streamSet : Str) : List Stream :=
  let streams := streamSet.bytes.filterMap streamOfLetter
  if streams = [] ∧ hasVectorStream streamSet = false then [.title] else streams

/-- `to_ascii_lowercase` of one byte. -/
def asciiLower (byte : UInt8) : UInt8 :=
  if 0x41 ≤ byte ∧ byte ≤ 0x5A then byte + 0x20 else byte

/-- `streams_for_field` -/
def streamsForField (field : Str) (fallback : List Stream) : List Stream :=
  let name := field.bytes.map asciiLower
  if name = [0x74, 0x69, 0x74, 0x6C, 0x65] then [.title]
  else if name = [0x62, 0x6F, 0x64, 0x79] then [.body]
  else if name = [0x75, 0x72, 0x6C] ∨ name = [0x73, 0x69, 0x74, 0x65] then [.url]
  else if name = [0x61, 0x6E, 0x63, 0x68, 0x6F, 0x72] then [.anchor]
  else if name = [0x6D, 0x65, 0x74, 0x61] then [.metadata]
  else fallback

/-- `is_or_token` -/
def isOrToken (raw : Str) : Bool := raw.bytes.map asciiLower = [0x6F, 0x72]

/-- `is_not_token`: `not`, `NOT`, `Not`, `nOT` and `-`. -/
def isNotToken (raw : Str) : Bool :=
  raw.bytes = [0x6E, 0x6F, 0x74] ∨ raw.bytes = [0x4E, 0x4F, 0x54] ∨
    raw.bytes = [0x4E, 0x6F, 0x74] ∨ raw.bytes = [0x6E, 0x4F, 0x54] ∨ raw.bytes = [0x2D]

/-- ASCII white space, the comma and both parentheses. -/
def isSeparator (byte : UInt8) : Bool :=
  byte = 0x20 ∨ byte = 0x09 ∨ byte = 0x0A ∨ byte = 0x0C ∨ byte = 0x0D ∨
    byte = 0x2C ∨ byte = 0x28 ∨ byte = 0x29

theorem isSeparator_ascii (byte : UInt8) (passes : isSeparator byte = true) :
    byte.toNat < 0x80 := by
  simp only [isSeparator, decide_eq_true_eq] at passes
  rcases passes with rfl | rfl | rfl | rfl | rfl | rfl | rfl | rfl <;> decide

/-- `split_raw_items` -/
def splitRawItems (query : Str) : List Str := query.splitAt isSeparator isSeparator_ascii

/-- The item without its minus, when one stands before at least one other byte. -/
def withoutMinus (raw : Str) : Option Str :=
  if raw.len > 1 then raw.stripFirst 0x2D (by decide) else none

/-! ## Terms -/

structure QueryTerm where
  term : Str
  streams : List Stream
deriving DecidableEq

/-- `query_term_key` -/
def queryTermKey (term : QueryTerm) : Bytes :=
  term.term.bytes ++ 0x1E :: term.streams.flatMap fun stream => stream.letter.bytes ++ [0x2C]

/-- The terms whose key is seen for the first time. -/
def keepUnseen (seen : List Bytes) : List QueryTerm → List QueryTerm
  | [] => []
  | term :: rest =>
      if queryTermKey term ∈ seen then keepUnseen seen rest
      else term :: keepUnseen (queryTermKey term :: seen) rest

/-- `filter_weak_and_terms`: when no term is longer than one byte none was seen,
so the second pass starts from no keys either. -/
def filterWeakAndTerms (tokens : List QueryTerm) : List QueryTerm :=
  let filtered := keepUnseen [] (tokens.filter fun token => token.term.len > 1)
  if filtered ≠ [] then filtered
  else keepUnseen [] (tokens.filter fun token => token.term ≠ Str.empty)

/-- The key of a term in a stream. -/
def streamKey (term : Str) (stream : Stream) : Str := term.append stream.letter

/-- `make_term_group` -/
def makeTermGroup (term : Str) (streams : List Stream) (wordSpan : UInt32) : EvalNode :=
  match streams with
  | [stream] => .term (streamKey term stream) wordSpan
  | streams => .or (streams.map fun stream => .term (streamKey term stream) wordSpan)

/-- `make_query_term_group`, always called with the word span 1. -/
def makeQueryTermGroup (term : QueryTerm) : EvalNode := makeTermGroup term.term term.streams 1

/-- Two terms joined by the separator. -/
def bigram (left right : Str) : Str := (left.append bigramSep).append right

/-- The adjacent terms that search the same streams. -/
def samePairs (terms : List QueryTerm) : List (QueryTerm × QueryTerm) :=
  (terms.zip terms.tail).filter fun pair => pair.1.streams = pair.2.streams

/-- The groups both bigram builders make. -/
def bigramGroups (terms : List QueryTerm) : List EvalNode :=
  (samePairs terms).map fun pair => makeTermGroup (bigram pair.1.term pair.2.term) pair.1.streams 2

/-- `build_bigram_query` -/
def buildBigramQuery (terms : List QueryTerm) : Option EvalNode :=
  if terms.length < 2 then none
  else
    match bigramGroups terms with
    | [] => none
    | [group] => some group
    | groups => some (.and groups)

/-- `build_any_bigram_query` -/
def buildAnyBigramQuery (terms : List QueryTerm) : Option EvalNode :=
  if terms.length < 2 then none
  else
    match bigramGroups terms with
    | [] => none
    | [group] => some group
    | groups => some (.or groups)

/-- `min_should_match` -/
def minShouldMatch (termCount : Nat) : UInt32 :=
  if termCount ≤ 2 then 1 else if termCount ≤ 5 then 2 else 3

/-- `build_weak_and_base_expression` -/
def buildWeakAndBaseExpression (terms : List QueryTerm) : Option EvalNode :=
  match terms with
  | [] => none
  | [term] => some (makeQueryTermGroup term)
  | terms =>
      some (.weakAnd (terms.map makeQueryTermGroup)
        (min (minShouldMatch terms.length) (UInt32.ofNat terms.length)))

/-- `build_weak_and_bigram_expression` -/
def buildWeakAndBigramExpression (tokens : List QueryTerm) : Option EvalNode :=
  let terms := filterWeakAndTerms tokens
  match buildWeakAndBaseExpression terms, buildAnyBigramQuery terms with
  | some base, some bigrams => some (.or [base, bigrams])
  | some base, none => some base
  | none, bigrams => bigrams

/-- The `QMP_BigramBoostWeight` of `GetQueryCompileModeParameters`. -/
def bigramBoostWeight : QueryCompileMode → F32
  | .default => 0
  | .weakAndBigram => 0
  | .weakAndBigramBoost => 0x3F000000
  | .weakAndBigramBoostForDoc => 0x40800000

/-- `build_weak_and_bigram_boost_expression` -/
def buildWeakAndBigramBoostExpression (tokens : List QueryTerm) (mode : QueryCompileMode) :
    Option EvalNode := do
  let terms := filterWeakAndTerms tokens
  let base ← buildWeakAndBaseExpression terms
  match buildAnyBigramQuery terms with
  | none => some base
  | some bigrams => some (.boost base bigrams (bigramBoostWeight mode))

/-- `build_implicit_expression` -/
def buildImplicitExpression (tokens : List QueryTerm) : QueryCompileMode → Option EvalNode
  | .weakAndBigram => buildWeakAndBigramExpression tokens
  | .weakAndBigramBoost => buildWeakAndBigramBoostExpression tokens .weakAndBigramBoost
  | .weakAndBigramBoostForDoc =>
      buildWeakAndBigramBoostExpression tokens .weakAndBigramBoostForDoc
  | .default =>
      match tokens.map makeQueryTermGroup with
      | [] => none
      | freeNodes =>
          let unigramBase :=
            match freeNodes with
            | [single] => single
            | freeNodes => .and freeNodes
          match buildBigramQuery tokens with
          | some bigrams => some (.or [bigrams, unigramBase])
          | none => some unigramBase

/-- `build_minus_expression` -/
def buildMinusExpression (positive negative : List QueryTerm) (mode : QueryCompileMode) :
    Option EvalNode :=
  if negative = [] then buildImplicitExpression positive mode
  else if positive = [] then none
  else do
    let base ← buildImplicitExpression positive mode
    let exclude ← buildImplicitExpression negative mode
    pure (.not base exclude)

/-! ## The parser loop -/

theorem isColon_ascii (byte : UInt8) (passes : decide (byte = 0x3A) = true) :
    byte.toNat < 0x80 := by
  rw [of_decide_eq_true passes]
  decide

section Parse

variable (tokenize : Str → List Str) (streams : List Stream) (mode : QueryCompileMode)

/-- The text of an item and the streams it searches: a field name before the
first colon chooses the streams when neither side of the colon is empty. -/
def fieldOf (item : Str) : Str × List Stream :=
  match item.cutFirst (fun byte => byte = 0x3A) isColon_ascii with
  | some (field, rest) =>
      if field ≠ Str.empty ∧ rest ≠ Str.empty then (rest, streamsForField field streams)
      else (item, streams)
  | none => (item, streams)

/-- The terms of an item, its minus removed. -/
def termsOf (item : Str) : List QueryTerm :=
  let (text, streams) := fieldOf streams item
  (tokenize text).map fun token => ⟨token, streams⟩

structure ParseState where
  disjuncts : List EvalNode
  positive : List QueryTerm
  negative : List QueryTerm
  sawAny : Bool
  nextIsNegative : Bool

/-- `add_raw_item`, called with items that are no operator token. -/
def addRawItem (raw : Str) (positive negative : List QueryTerm) (forceExclude : Bool) :
    List QueryTerm × List QueryTerm :=
  if raw = Str.empty ∨ isOrToken raw = true ∨ isNotToken raw = true then (positive, negative)
  else
    let exclude := (withoutMinus raw).isSome || forceExclude
    let item := (withoutMinus raw).getD raw
    if item = Str.empty then (positive, negative)
    else
      let terms := termsOf tokenize streams item
      if exclude then (positive, negative ++ terms) else (positive ++ terms, negative)

/-- One turn of the loop of `parse_expression`. -/
def ParseState.step (state : ParseState) (raw : Str) : ParseState :=
  if isOrToken raw then
    { state with
      disjuncts :=
        state.disjuncts ++ (buildMinusExpression state.positive state.negative mode).toList
      positive := []
      negative := []
      nextIsNegative := false }
  else if isNotToken raw then { state with nextIsNegative := true }
  else
    let (positive, negative) :=
      addRawItem tokenize streams raw state.positive state.negative state.nextIsNegative
    { state with positive, negative, sawAny := true, nextIsNegative := false }

/-- `parse_expression` -/
def parseExpression (query : Str) : Option EvalNode :=
  let state := (splitRawItems query).foldl (ParseState.step tokenize streams mode)
    ⟨[], [], [], false, false⟩
  if state.sawAny = false then none
  else
    match state.disjuncts ++ (buildMinusExpression state.positive state.negative mode).toList with
    | [] => none
    | [node] => some node
    | nodes => some (.or nodes)

end Parse

/-- `CompileWithMode` -/
def compileWithMode (tokenize : Str → List Str) (query streamSet : Str) (mode : QueryCompileMode) :
    EvalTree :=
  if query = Str.empty then .new none
  else
    let streams := parseStreamSet streamSet
    .new (if streams = [] then none else parseExpression tokenize streams mode query)

/-! ## Disjuncts -/

/-- An item of a query: its text without a minus, and whether a minus or a `NOT`
negates it. -/
structure QueryItem where
  text : Str
  negated : Bool
deriving DecidableEq

def itemOf (raw : Str) (negateNext : Bool) : QueryItem :=
  ⟨(withoutMinus raw).getD raw, (withoutMinus raw).isSome || negateNext⟩

/-- The items of the parts between the `OR` tokens; `group` is what has been read
of the current part. -/
def groupItems (negateNext : Bool) (group : List QueryItem) : List Str → List (List QueryItem)
  | [] => [group]
  | raw :: rest =>
      if isOrToken raw then group :: groupItems false [] rest
      else if isNotToken raw then groupItems true group rest
      else groupItems false (group ++ [itemOf raw negateNext]) rest

/-- The disjuncts of a query, each the list of its items. -/
def disjunctsOf (query : Str) : List (List QueryItem) := groupItems false [] (splitRawItems query)

section Disjuncts

variable (tokenize : Str → List Str) (streams : List Stream) (mode : QueryCompileMode)

/-- The terms of the items of a disjunct that are negated, or that are not. -/
def termsWhere (negated : Bool) (items : List QueryItem) : List QueryTerm :=
  (items.filter fun item => item.negated = negated).flatMap fun item =>
    termsOf tokenize streams item.text

def disjunctNode (items : List QueryItem) : Option EvalNode :=
  buildMinusExpression (termsWhere tokenize streams false items)
    (termsWhere tokenize streams true items) mode

theorem termsWhere_append (negated : Bool) (left right : List QueryItem) :
    termsWhere tokenize streams negated (left ++ right) =
      termsWhere tokenize streams negated left ++ termsWhere tokenize streams negated right := by
  simp [termsWhere]

theorem buildImplicitExpression_nil : buildImplicitExpression [] mode = none := by
  cases mode <;> rfl

theorem disjunctNode_nil : disjunctNode tokenize streams mode [] = none := by
  show buildMinusExpression [] [] mode = none
  rw [buildMinusExpression, if_pos rfl, buildImplicitExpression_nil]

/-- A raw item has a byte, and what is left behind a minus has one too. -/
theorem itemText_ne_empty {raw : Str} (nonempty : raw ≠ Str.empty) :
    (withoutMinus raw).getD raw ≠ Str.empty := by
  unfold withoutMinus
  split
  · rename_i long
    unfold Str.stripFirst
    split
    · exact nonempty
    · rename_i first rest bytes
      split
      · intro empty
        have restNil : rest = [] := congrArg Str.bytes empty
        rw [Str.len, bytes, restNil] at long
        exact absurd long (Nat.lt_irrefl 1)
      · exact nonempty
  · exact nonempty

theorem addRawItem_eq {raw : Str} (nonempty : raw ≠ Str.empty) (notOr : ¬ isOrToken raw = true)
    (notNot : ¬ isNotToken raw = true) (group : List QueryItem) (negateNext : Bool) :
    addRawItem tokenize streams raw (termsWhere tokenize streams false group)
        (termsWhere tokenize streams true group) negateNext =
      (termsWhere tokenize streams false (group ++ [itemOf raw negateNext]),
        termsWhere tokenize streams true (group ++ [itemOf raw negateNext])) := by
  unfold addRawItem
  rw [if_neg (by simp [nonempty, notOr, notNot])]
  dsimp only
  rw [if_neg (itemText_ne_empty nonempty), termsWhere_append, termsWhere_append]
  cases negated : (withoutMinus raw).isSome || negateNext <;>
    simp [termsWhere, itemOf, negated]

/-- What the loop has done: every finished part has left its node, the current
part its terms. -/
theorem parse_foldl (items : List Str) (nonempty : ∀ raw ∈ items, raw ≠ Str.empty)
    (group : List QueryItem) (done : List EvalNode) (sawAny negateNext : Bool) :
    let state := items.foldl (ParseState.step tokenize streams mode)
      ⟨done, termsWhere tokenize streams false group, termsWhere tokenize streams true group,
        sawAny, negateNext⟩
    state.disjuncts ++ (buildMinusExpression state.positive state.negative mode).toList =
        done ++ (groupItems negateNext group items).filterMap
          (disjunctNode tokenize streams mode) ∧
      (state.sawAny = false → sawAny = false ∧
        ∀ part ∈ groupItems negateNext group items, part = [] ∨ part = group) := by
  induction items generalizing group done sawAny negateNext with
  | nil =>
      refine ⟨?_, fun unseen => ⟨unseen, ?_⟩⟩
      · rw [groupItems, List.filterMap_cons, List.filterMap_nil]
        show done ++ (disjunctNode tokenize streams mode group).toList = _
        cases disjunctNode tokenize streams mode group <;> rfl
      · intro part member
        exact Or.inr (List.mem_singleton.mp member)
  | cons raw rest inductionHypothesis =>
      have restNonempty := fun raw member => nonempty raw (List.mem_cons_of_mem _ member)
      rw [List.foldl_cons, groupItems]
      by_cases isOr : isOrToken raw = true
      · rw [ParseState.step, if_pos isOr, if_pos isOr]
        have step := inductionHypothesis restNonempty []
          (done ++ (disjunctNode tokenize streams mode group).toList) sawAny false
        refine ⟨?_, fun unseen => ⟨(step.2 unseen).1, ?_⟩⟩
        · rw [List.filterMap_cons]
          refine step.1.trans ?_
          cases disjunctNode tokenize streams mode group <;> simp
        · intro part member
          rcases List.mem_cons.mp member with here | later
          · exact Or.inr here
          · exact Or.inl (by simpa using (step.2 unseen).2 part later)
      · by_cases isNot : isNotToken raw = true
        · rw [ParseState.step, if_neg isOr, if_pos isNot, if_neg isOr, if_pos isNot]
          exact inductionHypothesis restNonempty group done sawAny true
        · rw [ParseState.step, if_neg isOr, if_neg isNot, if_neg isOr, if_neg isNot,
            addRawItem_eq tokenize streams (nonempty raw List.mem_cons_self) isOr isNot]
          have step := inductionHypothesis restNonempty (group ++ [itemOf raw negateNext]) done
            true false
          exact ⟨step.1, fun unseen => absurd (step.2 unseen).1 (by decide)⟩

theorem splitRawItems_nonempty (query : Str) : ∀ raw ∈ splitRawItems query, raw ≠ Str.empty := by
  have pieceNonempty : ∀ (data current piece : Bytes), piece ∈ pieces isSeparator current data →
      piece ≠ [] := by
    intro data
    induction data with
    | nil =>
        intro current piece member
        rw [pieces] at member
        split at member
        · cases member
        · rename_i nonempty
          rw [List.mem_singleton.mp member]
          exact nonempty
    | cons byte rest inductionHypothesis =>
        intro current piece member
        rw [pieces] at member
        split at member
        · split at member
          · exact inductionHypothesis _ _ member
          · rename_i nonempty
            rcases List.mem_cons.mp member with here | later
            · rw [here]
              exact nonempty
            · exact inductionHypothesis _ _ later
        · exact inductionHypothesis _ _ member
  intro raw member empty
  obtain ⟨piece, pieceMember, rfl⟩ := List.mem_pmap.mp member
  exact pieceNonempty _ _ piece pieceMember (congrArg Str.bytes empty)

/-- The parser makes one node for each disjunct, joined by an `Or` when there
are several. -/
theorem parseExpression_eq (query : Str) :
    parseExpression tokenize streams mode query =
      match (disjunctsOf query).filterMap (disjunctNode tokenize streams mode) with
      | [] => none
      | [node] => some node
      | nodes => some (.or nodes) := by
  have loop := parse_foldl tokenize streams mode (splitRawItems query)
    (splitRawItems_nonempty query) [] [] false false
  dsimp only at loop
  unfold parseExpression disjunctsOf
  dsimp only
  by_cases seen : ((splitRawItems query).foldl (ParseState.step tokenize streams mode)
      ⟨[], [], [], false, false⟩).sawAny = false
  · -- Nothing but operator tokens: every part is empty and leaves no node.
    rw [if_pos seen]
    have parts := (loop.2 seen).2
    have nothing : (groupItems false [] (splitRawItems query)).filterMap
        (disjunctNode tokenize streams mode) = [] := by
      rw [List.filterMap_eq_nil_iff]
      intro items member
      have isNil : items = [] := by simpa using parts items member
      rw [isNil, disjunctNode_nil]
    rw [nothing]
  · rw [if_neg seen]
    have nodes := loop.1
    rw [List.nil_append] at nodes
    rw [← nodes]
    rfl

end Disjuncts

end MoonShot.Query
