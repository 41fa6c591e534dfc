import MoonShot.Query.Content

/-!
What the compiled trees match, and the default mode against the conjunction it
stands for.

Owns the documents of the term groups, of the bigram arm and of a whole compiled
query, and the theorem that says for which queries the bigram arm of the default
mode adds no document to the conjunction of the tokens.

The bigram arm joins only adjacent tokens that search the same streams. A token
that no such pair names is missing from the arm altogether.
-/

namespace MoonShot.Query

open MoonShot.Lib
open MoonShot.Postings
open MoonShot.Postings.PostingStore
open MoonShot.Format
open MoonShot.Index
open MoonShot.Table
open MoonShot.Serializer
open MoonShot.Reader

/-! ## Documents of compiled nodes -/

/-- The documents of the root of a tree. -/
def docsOfTree (meaning : Meaning) : Option EvalNode → Finset UInt64
  | none => ∅
  | some node => meaning.docsOf node

section Nodes

variable {meaning : Meaning} {doc : UInt64}

theorem mem_docsOf_and {children : List EvalNode} :
    doc ∈ meaning.docsOf (.and children) ↔
      children ≠ [] ∧ ∀ node ∈ children, doc ∈ meaning.docsOf node := by
  rw [Meaning.docsOf, Meaning.denotations_eq, mem_interAll]
  simp

theorem mem_docsOf_or {children : List EvalNode} :
    doc ∈ meaning.docsOf (.or children) ↔ ∃ node ∈ children, doc ∈ meaning.docsOf node := by
  rw [Meaning.docsOf, Meaning.denotations_eq, mem_unionAll]
  simp

theorem mem_docsOf_term {key : Str} {wordSpan : UInt32} :
    doc ∈ meaning.docsOf (.term key wordSpan) ↔ doc ∈ meaning.lists key := by
  rw [Meaning.docsOf]

theorem mem_docsOf_group {term : Str} {streams : List Stream} {wordSpan : UInt32} :
    doc ∈ meaning.docsOf (makeTermGroup term streams wordSpan) ↔
      ∃ stream ∈ streams, doc ∈ meaning.lists (streamKey term stream) := by
  unfold makeTermGroup
  split
  · rw [mem_docsOf_term]
    simp
  · rw [mem_docsOf_or]
    simp [mem_docsOf_term]

/-- The document has the bigram of every adjacent pair with the same streams. -/
def HasPairs (meaning : Meaning) (doc : UInt64) (tokens : List QueryTerm) : Prop :=
  ∀ pair ∈ samePairs tokens, ∃ stream ∈ pair.1.streams,
    doc ∈ meaning.lists (streamKey (bigram pair.1.term pair.2.term) stream)

/-- The document has every token in one of its streams. -/
def HasTokens (meaning : Meaning) (doc : UInt64) (tokens : List QueryTerm) : Prop :=
  ∀ token ∈ tokens, ∃ stream ∈ token.streams, doc ∈ meaning.lists (streamKey token.term stream)

theorem samePairs_eq_nil {tokens : List QueryTerm} (short : tokens.length < 2) :
    samePairs tokens = [] := by
  match tokens, short with
  | [], _ => rfl
  | [_], _ => rfl

theorem mem_bigramGroups {tokens : List QueryTerm} :
    (∀ node ∈ bigramGroups tokens, doc ∈ meaning.docsOf node) ↔ HasPairs meaning doc tokens := by
  simp only [bigramGroups, HasPairs, List.forall_mem_map, mem_docsOf_group]

theorem bigramGroups_eq_nil {tokens : List QueryTerm} :
    bigramGroups tokens = [] ↔ samePairs tokens = [] := by
  simp [bigramGroups]

theorem mem_buildBigramQuery {tokens : List QueryTerm} :
    doc ∈ docsOfTree meaning (buildBigramQuery tokens) ↔
      samePairs tokens ≠ [] ∧ HasPairs meaning doc tokens := by
  unfold buildBigramQuery
  by_cases short : tokens.length < 2
  · rw [if_pos short, samePairs_eq_nil short]
    simp [docsOfTree]
  · rw [if_neg short, ← mem_bigramGroups, Ne, ← bigramGroups_eq_nil]
    split
    · rename_i none_
      rw [none_]
      simp [docsOfTree]
    · rename_i single
      rw [single]
      simp [docsOfTree]
    · rename_i groups _ _
      show doc ∈ meaning.docsOf (.and _) ↔ _
      rw [mem_docsOf_and]

/-- The unigram arm. -/
def unigramArm (tokens : List QueryTerm) : EvalNode :=
  match tokens.map makeQueryTermGroup with
  | [single] => single
  | freeNodes => .and freeNodes

theorem mem_unigramArm {tokens : List QueryTerm} (nonempty : tokens ≠ []) :
    doc ∈ meaning.docsOf (unigramArm tokens) ↔ HasTokens meaning doc tokens := by
  have all : (∀ node ∈ tokens.map makeQueryTermGroup, doc ∈ meaning.docsOf node) ↔
      HasTokens meaning doc tokens := by
    simp [HasTokens, makeQueryTermGroup, mem_docsOf_group]
  rw [← all]
  unfold unigramArm
  split
  · rename_i single
    rw [single]
    simp
  · rw [mem_docsOf_and]
    simp [nonempty]

theorem buildImplicitExpression_default {tokens : List QueryTerm} (nonempty : tokens ≠ []) :
    buildImplicitExpression tokens .default =
      match buildBigramQuery tokens with
      | some bigrams => some (.or [bigrams, unigramArm tokens])
      | none => some (unigramArm tokens) := by
  cases tokens with
  | nil => exact absurd rfl nonempty
  | cons first rest => rfl

theorem mem_default {tokens : List QueryTerm} (nonempty : tokens ≠ []) :
    doc ∈ docsOfTree meaning (buildImplicitExpression tokens .default) ↔
      (samePairs tokens ≠ [] ∧ HasPairs meaning doc tokens) ∨ HasTokens meaning doc tokens := by
  rw [buildImplicitExpression_default nonempty, ← mem_buildBigramQuery, ← mem_unigramArm nonempty]
  cases buildBigramQuery tokens with
  | none => simp [docsOfTree]
  | some bigrams =>
      show doc ∈ meaning.docsOf (.or _) ↔ _
      rw [mem_docsOf_or]
      simp [docsOfTree]

end Nodes

/-- In a context that reads the index of the calls the reader of a node is built
and stands on these documents. -/
theorem builds_written {float : FloatOps} {calls : List WriteCall} {context : QueryContext}
    (queryable : Queryable float (written calls))
    (table : context.table = (buildBlocks float (written calls)).table)
    (documents : context.numDocuments ≠ 0)
    (count : context.documentCount = storeDocDataRecordCount (written calls)) (node : EvalNode) :
    ∃ enough, ∀ fuel, enough ≤ fuel → ∃ reader,
      context.buildIndexReader fuel node = some reader ∧
        IndexReader.At context.table.indexBlocks (builtPostings float (written calls)) fuel reader
          ((indexMeaning float calls context.mode).docsOf node) := by
  obtain ⟨enough, builds⟩ := (reads_built queryable table documents).builds node
  refine ⟨enough, ?_⟩
  intro fuel bounded
  obtain ⟨reader, built, fresh⟩ := builds fuel bounded
  refine ⟨reader, built, ?_⟩
  rw [indexMeaning, ← count]
  exact fresh.stands

/-! ## Documents of a compiled query -/

theorem mem_compiled {meaning : Meaning} {tokenize : Str → List Str} {query streamSet : Str}
    {mode : QueryCompileMode} (hasStream : parseStreamSet streamSet ≠ []) {doc : UInt64} :
    doc ∈ docsOfTree meaning (compileWithMode tokenize query streamSet mode).root ↔
      ∃ items ∈ disjunctsOf query,
        doc ∈ docsOfTree meaning
          (disjunctNode tokenize (parseStreamSet streamSet) mode items) := by
  have parsed : doc ∈ docsOfTree meaning
        (parseExpression tokenize (parseStreamSet streamSet) mode query) ↔
      ∃ items ∈ disjunctsOf query,
        doc ∈ docsOfTree meaning
          (disjunctNode tokenize (parseStreamSet streamSet) mode items) := by
    have nodes : (∃ items ∈ disjunctsOf query, doc ∈ docsOfTree meaning
          (disjunctNode tokenize (parseStreamSet streamSet) mode items)) ↔
        ∃ node ∈ (disjunctsOf query).filterMap
          (disjunctNode tokenize (parseStreamSet streamSet) mode), doc ∈ meaning.docsOf node := by
      simp only [List.mem_filterMap]
      constructor
      · rintro ⟨items, member, inside⟩
        cases built : disjunctNode tokenize (parseStreamSet streamSet) mode items with
        | none =>
            rw [built] at inside
            exact absurd inside (Finset.notMem_empty doc)
        | some node =>
            rw [built] at inside
            exact ⟨node, ⟨items, member, built⟩, inside⟩
      · rintro ⟨node, ⟨items, member, built⟩, inside⟩
        exact ⟨items, member, by rw [built]; exact inside⟩
    rw [nodes, parseExpression_eq]
    split
    · rename_i none_
      rw [none_]
      simp [docsOfTree]
    · rename_i single
      rw [single]
      simp [docsOfTree]
    · exact mem_docsOf_or
  unfold compileWithMode
  by_cases empty : query = Str.empty
  · -- The empty query has one disjunct without items.
    rw [if_pos empty, ← parsed, empty]
    have none_ : parseExpression tokenize (parseStreamSet streamSet) mode Str.empty = none := rfl
    rw [none_]
    rfl
  · rw [if_neg empty]
    show doc ∈ docsOfTree meaning (if _ then _ else _) ↔ _
    rw [if_neg hasStream]
    exact parsed

/-! ## The default mode -/

/-- The tokens of a query that no operator negates, in order. -/
def queryTokens (tokenize : Str → List Str) (streams : List Stream) (query : Str) :
    List QueryTerm :=
  (disjunctsOf query).flatMap (termsWhere tokenize streams false)

/-- `Write` can post the bigram of the pair under a key that fits. -/
def PairWritable (pair : QueryTerm × QueryTerm) : Prop :=
  pair.1.term ≠ Str.empty ∧ pair.2.term ≠ Str.empty ∧
    pair.1.term.len + pair.2.term.len + 2 ≤ headTermKeyMax

/-- There is no bigram arm, or no document can match it, or every token is in
every document that does: it stands in a pair whose streams the token searches. -/
def PairsCover (tokens : List QueryTerm) : Prop :=
  samePairs tokens = [] ∨ (∃ pair ∈ samePairs tokens, ¬ PairWritable pair) ∨
    ∀ token ∈ tokens, ∃ pair ∈ samePairs tokens,
      (token.term = pair.1.term ∨ token.term = pair.2.term) ∧
        ∀ stream ∈ pair.1.streams, stream ∈ token.streams

theorem mem_samePairs {tokens : List QueryTerm} {pair : QueryTerm × QueryTerm}
    (member : pair ∈ samePairs tokens) :
    pair.1 ∈ tokens ∧ pair.2 ∈ tokens := by
  have zipped := List.of_mem_zip (List.mem_filter.mp member).1
  exact ⟨zipped.1, List.mem_of_mem_tail zipped.2⟩

theorem mem_lists_bigram {float : FloatOps} {calls : List WriteCall}
    {left right : Str} (leftClean : Clean left) (rightClean : Clean right) (stream : Stream)
    (doc : UInt64) :
    doc ∈ builtLists float (written calls) (streamKey (bigram left right) stream) ↔
      left.len + right.len + 2 ≤ headTermKeyMax ∧
        Posted (written calls) (streamKey (bigram left right) stream) doc := by
  rw [mem_builtLists (nulFree_streamKey (nulFree_bigram leftClean rightClean) stream),
    streamKey_len, bigram_len]

section Arms

variable {float : FloatOps} {calls : List WriteCall} {build : WeakAndBuildMode}
  {tokens : List QueryTerm} {doc : UInt64}

theorem hasTokens_iff (fit : KeysFit calls) (clean : ∀ token ∈ tokens, Clean token.term) :
    HasTokens (indexMeaning float calls build) doc tokens ↔
      ∀ token ∈ tokens, ∃ stream ∈ token.streams, Contains calls doc token.term stream := by
  unfold HasTokens
  apply forall₂_congr
  intro token member
  show (∃ stream ∈ token.streams,
    doc ∈ builtLists float (written calls) (streamKey token.term stream)) ↔ _
  simp only [mem_lists_token fit (clean token member)]

/-- A document of the bigram arm holds both words of every pair, so pairs that
cover the tokens leave nothing to add. -/
theorem PairsCover.hasTokens (covers : PairsCover tokens) (cleanWords : CleanWords calls)
    (fit : KeysFit calls) (clean : ∀ token ∈ tokens, Clean token.term)
    (some_ : samePairs tokens ≠ [])
    (pairs : HasPairs (indexMeaning float calls build) doc tokens) :
    HasTokens (indexMeaning float calls build) doc tokens := by
  have both : ∀ pair ∈ samePairs tokens, PairWritable pair ∧ ∃ stream ∈ pair.1.streams,
      Contains calls doc pair.1.term stream ∧ Contains calls doc pair.2.term stream := by
    intro pair member
    obtain ⟨stream, streamMember, listed⟩ := pairs pair member
    have leftClean := clean _ (mem_samePairs member).1
    have rightClean := clean _ (mem_samePairs member).2
    obtain ⟨short, posted⟩ := (mem_lists_bigram leftClean rightClean stream doc).mp listed
    have contains := posted_bigram cleanWords leftClean posted
    obtain ⟨_, _, _, _, _, leftNonempty⟩ := contains.1
    obtain ⟨_, _, _, _, _, rightNonempty⟩ := contains.2
    exact ⟨⟨leftNonempty, rightNonempty, short⟩, stream, streamMember, contains⟩
  rw [hasTokens_iff fit clean]
  intro token member
  rcases covers with none_ | ⟨pair, pairMember, unwritable⟩ | covered
  · exact absurd none_ some_
  · exact absurd (both pair pairMember).1 unwritable
  · obtain ⟨pair, pairMember, named, searched⟩ := covered token member
    obtain ⟨_, stream, streamMember, left, right⟩ := both pair pairMember
    refine ⟨stream, searched stream streamMember, ?_⟩
    rcases named with same | same
    · rw [same]
      exact left
    · rw [same]
      exact right

/-- The calls that write each pair, alone in the stream picked for it, into
document 1. -/
def pairCalls (pick : QueryTerm × QueryTerm → Stream) (pairs : List (QueryTerm × QueryTerm)) :
    List WriteCall :=
  pairs.map fun pair => ⟨[pair.1.term, pair.2.term], 1, (pick pair).letter⟩

theorem writtenTerms_pair {left right : Str} (leftNonempty : left ≠ Str.empty)
    (rightNonempty : right ≠ Str.empty) :
    writtenTerms [left, right] = [left, right, bigram left right] := by
  simp [writtenTerms, leftNonempty, rightNonempty]

theorem pairCalls_fit {pick : QueryTerm × QueryTerm → Stream}
    {pairs : List (QueryTerm × QueryTerm)} (writable : ∀ pair ∈ pairs, PairWritable pair) :
    KeysFit (pairCalls pick pairs) := by
  intro call member term termMember
  obtain ⟨pair, pairMember, rfl⟩ := List.mem_map.mp member
  have pairWritable := writable pair pairMember
  rw [writtenTerms_pair pairWritable.1 pairWritable.2.1] at termMember
  have short := pairWritable.2.2
  simp only [List.mem_cons, List.not_mem_nil, or_false] at termMember
  rcases termMember with rfl | rfl | rfl
  · omega
  · omega
  · rw [bigram_len]
    omega

/-- Where a token is in no covering pair, the pairs can be written into streams
that the token does not search. -/
theorem exists_pairs_without_token {token : QueryTerm}
    (streams : ∀ pair ∈ samePairs tokens, pair.1.streams ≠ [])
    (uncovered : ∀ pair ∈ samePairs tokens,
      (token.term = pair.1.term ∨ token.term = pair.2.term) →
        ∃ stream ∈ pair.1.streams, stream ∉ token.streams) :
    ∃ pick : QueryTerm × QueryTerm → Stream, ∀ pair ∈ samePairs tokens,
      pick pair ∈ pair.1.streams ∧
        (token.term = pair.1.term ∨ token.term = pair.2.term → pick pair ∉ token.streams) := by
  have each : ∀ pair : QueryTerm × QueryTerm, ∃ stream : Stream, pair ∈ samePairs tokens →
      stream ∈ pair.1.streams ∧
        (token.term = pair.1.term ∨ token.term = pair.2.term → stream ∉ token.streams) := by
    intro pair
    by_cases member : pair ∈ samePairs tokens
    · by_cases named : token.term = pair.1.term ∨ token.term = pair.2.term
      · obtain ⟨stream, inside, outside⟩ := uncovered pair member named
        exact ⟨stream, fun _ => ⟨inside, fun _ => outside⟩⟩
      · obtain ⟨stream, inside⟩ := List.exists_mem_of_ne_nil _ (streams pair member)
        exact ⟨stream, fun _ => ⟨inside, fun isNamed => absurd isNamed named⟩⟩
    · exact ⟨.title, fun isMember => absurd isMember member⟩
  choose pick picked using each
  exact ⟨pick, fun pair member => picked pair member⟩

theorem hasPairs_pairCalls {pick : QueryTerm × QueryTerm → Stream}
    (clean : ∀ token ∈ tokens, Clean token.term)
    (writable : ∀ pair ∈ samePairs tokens, PairWritable pair)
    (picked : ∀ pair ∈ samePairs tokens, pick pair ∈ pair.1.streams) :
    HasPairs (indexMeaning float (pairCalls pick (samePairs tokens)) build) 1 tokens := by
  intro pair member
  have pairWritable := writable pair member
  refine ⟨pick pair, picked pair member, ?_⟩
  apply (mem_lists_bigram (clean _ (mem_samePairs member).1) (clean _ (mem_samePairs member).2)
    (pick pair) 1).mpr
  refine ⟨pairWritable.2.2, (posted_written _ _ _).mpr ?_⟩
  refine ⟨_, List.mem_map_of_mem member, rfl, bigram pair.1.term pair.2.term, ?_, ?_⟩
  · rw [writtenTerms_pair pairWritable.1 pairWritable.2.1]
    simp
  · rw [streamAbbrev_letter]

theorem not_contains_pairCalls {pick : QueryTerm × QueryTerm → Stream} {token : QueryTerm}
    (avoids : ∀ pair ∈ samePairs tokens,
      token.term = pair.1.term ∨ token.term = pair.2.term → pick pair ∉ token.streams) :
    ¬ ∃ stream ∈ token.streams,
      Contains (pairCalls pick (samePairs tokens)) 1 token.term stream := by
  rintro ⟨stream, searched, call, member, _, sameStream, word, _⟩
  obtain ⟨pair, pairMember, rfl⟩ := List.mem_map.mp member
  rw [streamAbbrev_letter] at sameStream
  have named : token.term = pair.1.term ∨ token.term = pair.2.term := by simpa using word
  exact avoids pair pairMember named (sameStream ▸ searched)

end Arms

theorem groupItems_noOr {items : List Str} (noOr : ∀ raw ∈ items, isOrToken raw = false)
    (negateNext : Bool) (group : List QueryItem) :
    ∃ part, groupItems negateNext group items = [part] := by
  induction items generalizing negateNext group with
  | nil => exact ⟨group, rfl⟩
  | cons raw rest inductionHypothesis =>
      have restNoOr := fun raw member => noOr raw (List.mem_cons_of_mem _ member)
      rw [groupItems, if_neg (by rw [noOr raw List.mem_cons_self]; decide)]
      split
      · exact inductionHypothesis restNoOr _ _
      · exact inductionHypothesis restNoOr _ _

theorem streamsForField_ne_nil (field : Str) {streams : List Stream} (nonempty : streams ≠ []) :
    streamsForField field streams ≠ [] := by
  unfold streamsForField
  dsimp only
  split_ifs <;> first | exact nonempty | exact List.cons_ne_nil _ _

theorem streams_ne_nil {tokenize : Str → List Str} {streams : List Stream}
    (nonempty : streams ≠ []) {text : Str} {token : QueryTerm}
    (member : token ∈ termsOf tokenize streams text) : token.streams ≠ [] := by
  obtain ⟨_, _, rfl⟩ := List.mem_map.mp member
  show (fieldOf streams text).2 ≠ []
  unfold fieldOf
  split
  · split
    · exact streamsForField_ne_nil _ nonempty
    · exact nonempty
  · exact nonempty

/-- For a query without `OR` and without a negated item, whose tokens are clean:
the documents it matches in the default mode are, in every written index, those
that hold every token in one of its streams, exactly when the same-stream pairs
cover the tokens. -/
theorem default_mode_conjunction_iff (tokenize : Str → List Str) (query streamSet : Str)
    (hasStream : parseStreamSet streamSet ≠ [])
    (noOr : ∀ raw ∈ splitRawItems query, isOrToken raw = false)
    (noNegation : ∀ items ∈ disjunctsOf query, ∀ item ∈ items, item.negated = false)
    (someToken : queryTokens tokenize (parseStreamSet streamSet) query ≠ [])
    (clean : ∀ token ∈ queryTokens tokenize (parseStreamSet streamSet) query, Clean token.term) :
    (∀ (float : FloatOps) (calls : List WriteCall) (build : WeakAndBuildMode), CleanWords calls →
      KeysFit calls → ∀ doc,
        doc ∈ docsOfTree (indexMeaning float calls build)
            (compileWithMode tokenize query streamSet .default).root ↔
          ∀ token ∈ queryTokens tokenize (parseStreamSet streamSet) query,
            ∃ stream ∈ token.streams, Contains calls doc token.term stream) ↔
      PairsCover (queryTokens tokenize (parseStreamSet streamSet) query) := by
  obtain ⟨items, only⟩ : ∃ items, disjunctsOf query = [items] := groupItems_noOr noOr false []
  have tokensEq : queryTokens tokenize (parseStreamSet streamSet) query =
      termsWhere tokenize (parseStreamSet streamSet) false items := by
    rw [queryTokens, only, List.flatMap_singleton]
  have noneNegated : termsWhere tokenize (parseStreamSet streamSet) true items = [] := by
    have none_ : items.filter (fun item => item.negated = true) = [] := by
      rw [List.filter_eq_nil_iff]
      intro item member
      have positive := noNegation items (by rw [only]; exact List.mem_singleton_self _) item member
      simp [positive]
    rw [termsWhere, none_]
    rfl
  rw [tokensEq] at someToken clean ⊢
  have matches_ : ∀ (meaning : Meaning) (doc : UInt64),
      doc ∈ docsOfTree meaning (compileWithMode tokenize query streamSet .default).root ↔
        (samePairs (termsWhere tokenize (parseStreamSet streamSet) false items) ≠ [] ∧
          HasPairs meaning doc (termsWhere tokenize (parseStreamSet streamSet) false items)) ∨
        HasTokens meaning doc (termsWhere tokenize (parseStreamSet streamSet) false items) := by
    intro meaning doc
    rw [mem_compiled hasStream, only]
    simp only [List.mem_singleton, exists_eq_left]
    rw [disjunctNode, noneNegated, buildMinusExpression, if_pos rfl, mem_default someToken]
  have streams : ∀ token ∈ termsWhere tokenize (parseStreamSet streamSet) false items,
      token.streams ≠ [] := by
    intro token member
    obtain ⟨item, _, termMember⟩ := List.mem_flatMap.mp member
    exact streams_ne_nil hasStream termMember
  generalize termsWhere tokenize (parseStreamSet streamSet) false items = tokens at *
  constructor
  · intro holds
    by_contra uncovered
    simp only [PairsCover, not_or, not_exists, not_and, not_not, not_forall] at uncovered
    obtain ⟨some_, writable, token, member, missed⟩ := uncovered
    obtain ⟨pick, picked⟩ := exists_pairs_without_token
      (fun pair pairMember => streams _ (mem_samePairs pairMember).1)
      (fun pair pairMember named => by simpa using missed pair pairMember named)
    have cleanWords : CleanWords (pairCalls pick (samePairs tokens)) := by
      intro call callMember word wordMember
      obtain ⟨pair, pairMember, rfl⟩ := List.mem_map.mp callMember
      have named : word = pair.1.term ∨ word = pair.2.term := by simpa using wordMember
      rcases named with rfl | rfl
      · exact clean _ (mem_samePairs pairMember).1
      · exact clean _ (mem_samePairs pairMember).2
    have found := (holds default _ .flatPruned cleanWords (pairCalls_fit writable) 1).mp
      ((matches_ _ 1).mpr (Or.inl ⟨some_, hasPairs_pairCalls clean writable
        fun pair pairMember => (picked pair pairMember).1⟩))
    exact not_contains_pairCalls (fun pair pairMember => (picked pair pairMember).2)
      (found token member)
  · intro covers float calls build cleanWords fit doc
    have held : HasTokens (indexMeaning float calls build) doc tokens ↔ _ :=
      hasTokens_iff fit clean
    rw [matches_, ← held]
    constructor
    · rintro (⟨some_, pairs⟩ | all)
      · exact covers.hasTokens cleanWords fit clean some_ pairs
      · exact all
    · exact Or.inr

/-- The query `a b` in the body: where the index of the calls is read, the reader of the tree
stands on exactly the documents with both words. -/
theorem default_mode_conjunction_iff_twoWords :
    PairsCover (queryTokens (fun text => [text]) (parseStreamSet ⟨[0x42], rfl⟩)
        ⟨[0x61, 0x20, 0x62], rfl⟩) ∧
      ∀ (float : FloatOps) (calls : List WriteCall) (context : QueryContext) (node : EvalNode),
        CleanWords calls → KeysFit calls → Queryable float (written calls) →
        context.table = (buildBlocks float (written calls)).table → context.numDocuments ≠ 0 →
        context.documentCount = storeDocDataRecordCount (written calls) →
        (compileWithMode (fun text => [text]) ⟨[0x61, 0x20, 0x62], rfl⟩ ⟨[0x42], rfl⟩
          .default).root = some node →
        ∃ enough, ∀ fuel, enough ≤ fuel → ∃ reader,
          context.buildIndexReader fuel node = some reader ∧ ∃ documents,
            IndexReader.At context.table.indexBlocks (builtPostings float (written calls)) fuel
              reader documents ∧
            ∀ doc, doc ∈ documents ↔
              ∀ token ∈ queryTokens (fun text => [text]) (parseStreamSet ⟨[0x42], rfl⟩)
                  ⟨[0x61, 0x20, 0x62], rfl⟩,
                ∃ stream ∈ token.streams, Contains calls doc token.term stream := by
  have covers : PairsCover (queryTokens (fun text => [text]) (parseStreamSet ⟨[0x42], rfl⟩)
      ⟨[0x61, 0x20, 0x62], rfl⟩) := by
    unfold PairsCover PairWritable
    decide +kernel
  have conjunction := (default_mode_conjunction_iff (fun text => [text])
    ⟨[0x61, 0x20, 0x62], rfl⟩ ⟨[0x42], rfl⟩ (by decide +kernel) (by decide +kernel)
    (by decide +kernel) (by decide +kernel) (by decide +kernel)).mpr covers
  refine ⟨covers, ?_⟩
  intro float calls context node cleanWords fit queryable table documents count compiled
  obtain ⟨enough, builds⟩ := builds_written queryable table documents count node
  refine ⟨enough, fun fuel bounded => ?_⟩
  obtain ⟨reader, built, stands⟩ := builds fuel bounded
  refine ⟨reader, built, _, stands, fun doc => ?_⟩
  rw [← conjunction float calls context.mode cleanWords fit doc, compiled]
  rfl

/-- The query `title:a title:b body:c`. -/
def mixedFieldQuery : Str :=
  ⟨[0x74, 0x69, 0x74, 0x6C, 0x65, 0x3A, 0x61, 0x20, 0x74, 0x69, 0x74, 0x6C, 0x65, 0x3A, 0x62, 0x20,
    0x62, 0x6F, 0x64, 0x79, 0x3A, 0x63], rfl⟩

/-- Document 1 has the title `a b` and no body. -/
def titleOnly : List WriteCall :=
  [⟨[⟨[0x61], validUtf8_a⟩, ⟨[0x62], validUtf8_b⟩], 1, ⟨[0x54], validUtf8_T⟩⟩]

def titleOnlyContext : QueryContext :=
  ⟨(buildBlocks default (written titleOnly)).table, 1, 1, .flatPruned⟩

/-- The pair `a b` is the whole bigram arm of `title:a title:b body:c`: document 1
matches, and the reader of the tree stands on it, but its body has no `c`. -/
theorem mixed_fields_match_without_body :
    CleanWords titleOnly ∧ KeysFit titleOnly ∧
    1 ∈ docsOfTree (indexMeaning default titleOnly .flatPruned)
      (compileWithMode (fun text => [text]) mixedFieldQuery ⟨[0x54, 0x42], rfl⟩ .default).root ∧
    ((compileWithMode (fun text => [text]) mixedFieldQuery ⟨[0x54, 0x42], rfl⟩
      .default).root.bind (titleOnlyContext.buildIndexReader 20)).map IndexReader.docId = some 1 ∧
    ¬ ∀ token ∈ queryTokens (fun text => [text]) (parseStreamSet ⟨[0x54, 0x42], rfl⟩)
        mixedFieldQuery,
      ∃ stream ∈ token.streams, Contains titleOnly 1 token.term stream := by
  refine ⟨by decide +kernel, by decide +kernel, by decide +kernel, by decide +kernel,
    by decide +kernel⟩

end MoonShot.Query
