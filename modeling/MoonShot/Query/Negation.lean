import MoonShot.Query.Conjunction

/-!
Negated items: what a disjunct with negated tokens returns.

Owns the condition on the tokens of a disjunct under which no document it returns
holds a negated one, and the theorem that this is exactly when that is so over
every written index, for every disjunct that requires no term it negates.

`build_minus_expression` pools the negated tokens of a disjunct and compiles
them as if they were a query. What is excluded are the documents of that query:
those that hold all the tokens in the default mode, those that hold enough of
the kept ones in the others.
-/

namespace MoonShot.Query

open MoonShot.Lib
open MoonShot.Postings
open MoonShot.Postings.PostingStore
open MoonShot.Format
open MoonShot.Index
open MoonShot.Table
open MoonShot.Serializer
open MoonShot.Reader

/-! ## The condition -/

/-- The token is this term and searches this stream. -/
def QueryTerm.Has (token : QueryTerm) (term : Str) (stream : Stream) : Prop :=
  token.term = term ∧ stream ∈ token.streams

instance (token : QueryTerm) (term : Str) (stream : Stream) : Decidable (token.Has term stream) :=
  inferInstanceAs (Decidable (_ ∧ _))

/-- `Write` can post the term under a key that fits. -/
def Writable (term : Str) : Prop := term ≠ Str.empty ∧ term.len + 1 ≤ headTermKeyMax

/-- How many of that many pooled terms a document must hold when none is pruned. -/
def pooledThreshold (count : Nat) : Nat :=
  max 1 (QueryContext.weakAndMinShouldMatch .orChildren
    (min (minShouldMatch count) (UInt32.ofNat count)) count)

/-- The pooled terms exclude a document for this one stream key alone. -/
def KeyExcludes (negative : List QueryTerm) (term : Str) (stream : Stream) :
    QueryCompileMode → Prop
  | .default => ∀ token ∈ negative, token.Has term stream
  | _ =>
      if (filterWeakAndTerms negative).length ≤ 1 then
        ∀ token ∈ filterWeakAndTerms negative, token.Has term stream
      else
        (∀ token ∈ filterWeakAndTerms negative, Writable token.term →
          ∀ other ∈ token.streams, token.term = term ∧ other = stream) ∧
        pooledThreshold (filterWeakAndTerms negative).length ≤
          (filterWeakAndTerms negative).countP fun token => token.Has term stream

/-- Each stream key of the negated tokens excludes on its own. -/
def EachExcludes (negative : List QueryTerm) (mode : QueryCompileMode) : Prop :=
  ∀ token ∈ negative, Writable token.term → ∀ stream ∈ token.streams,
    KeyExcludes negative token.term stream mode

/-- The disjunct has no positive token, so that it has no tree, or each stream key
of its negated tokens excludes on its own. -/
def DisjunctExcludes (positive negative : List QueryTerm) (mode : QueryCompileMode) : Prop :=
  positive = [] ∨ EachExcludes negative mode

/-- A document can hold all the positive tokens, and none of their terms is negated. -/
structure Ordinary (positive negative : List QueryTerm) : Prop where
  clean : ∀ token ∈ positive, Clean token.term
  writable : ∀ token ∈ positive, Writable token.term
  streams : ∀ token ∈ positive, token.streams ≠ []
  apart : ∀ token ∈ positive, ∀ other ∈ negative, other.term ≠ token.term

/-- No document of the disjunct holds a negated token in one of its streams. -/
def Excludes (positive negative : List QueryTerm) (mode : QueryCompileMode) : Prop :=
  ∀ (float : FloatOps) (calls : List WriteCall) (build : WeakAndBuildMode), KeysFit calls →
    ∀ doc ∈ docsOfTree (indexMeaning float calls build)
        (buildMinusExpression positive negative mode),
      ∀ token ∈ negative, ∀ stream ∈ token.streams, ¬ Contains calls doc token.term stream

/-! ## Kept terms -/

theorem mem_keepUnseen {seen : List Bytes} {terms : List QueryTerm} {token : QueryTerm}
    (member : token ∈ keepUnseen seen terms) : token ∈ terms := by
  induction terms generalizing seen with
  | nil => cases member
  | cons first rest inductionHypothesis =>
      rw [keepUnseen] at member
      split at member
      · exact List.mem_cons_of_mem _ (inductionHypothesis member)
      · rcases List.mem_cons.mp member with here | later
        · rw [here]
          exact List.mem_cons_self
        · exact List.mem_cons_of_mem _ (inductionHypothesis later)

theorem mem_filterWeakAndTerms {tokens : List QueryTerm} {token : QueryTerm}
    (member : token ∈ filterWeakAndTerms tokens) : token ∈ tokens := by
  unfold filterWeakAndTerms at member
  dsimp only at member
  split at member
  · exact (List.mem_filter.mp (mem_keepUnseen member)).1
  · exact (List.mem_filter.mp (mem_keepUnseen member)).1

/-! ## Documents of the weak modes -/

section Nodes

variable {meaning : Meaning} {doc : UInt64}

theorem mem_docsOf_not {base exclude : EvalNode} :
    doc ∈ meaning.docsOf (.not base exclude) ↔
      doc ∈ meaning.docsOf base ∧ doc ∉ meaning.docsOf exclude := by
  rw [Meaning.docsOf, Finset.mem_sdiff]

theorem mem_docsOf_weakAnd {children : List EvalNode} {minShouldMatch : UInt32} :
    doc ∈ meaning.docsOf (.weakAnd children minShouldMatch) ↔
      max 1 (QueryContext.weakAndMinShouldMatch meaning.mode minShouldMatch
          (meaning.weakAndSets children).length) ≤
        (meaning.weakAndSets children).countP fun docs => doc ∈ docs := by
  rw [Meaning.docsOf_weakAnd, Meaning.weakAnd, mem_atLeast (by omega)]

theorem mem_docsOf_makeQueryTermGroup {token : QueryTerm} :
    doc ∈ meaning.docsOf (makeQueryTermGroup token) ↔
      ∃ stream ∈ token.streams, doc ∈ meaning.lists (streamKey token.term stream) :=
  mem_docsOf_group

/-- The document has the bigram of some adjacent pair with the same streams. -/
def HasSomePair (meaning : Meaning) (doc : UInt64) (tokens : List QueryTerm) : Prop :=
  ∃ pair ∈ samePairs tokens, ∃ stream ∈ pair.1.streams,
    doc ∈ meaning.lists (streamKey (bigram pair.1.term pair.2.term) stream)

theorem mem_buildAnyBigramQuery {tokens : List QueryTerm}
    (inside : doc ∈ docsOfTree meaning (buildAnyBigramQuery tokens)) :
    HasSomePair meaning doc tokens := by
  have some_ : (∃ node ∈ bigramGroups tokens, doc ∈ meaning.docsOf node) →
      HasSomePair meaning doc tokens := by
    rintro ⟨node, member, matched⟩
    obtain ⟨pair, pairMember, rfl⟩ := List.mem_map.mp member
    exact ⟨pair, pairMember, mem_docsOf_group.mp matched⟩
  apply some_
  unfold buildAnyBigramQuery at inside
  split at inside
  · exact absurd inside (Finset.notMem_empty doc)
  · split at inside
    · exact absurd inside (Finset.notMem_empty doc)
    · rename_i single
      rw [single]
      exact ⟨_, List.mem_singleton_self _, inside⟩
    · exact mem_docsOf_or.mp inside

variable {mode : QueryCompileMode}

/-- In the weak modes the documents of the base expression match, and any other
match comes from a bigram. -/
theorem weak_cases (weak : mode ≠ .default) (tokens : List QueryTerm) :
    (doc ∈ docsOfTree meaning (buildWeakAndBaseExpression (filterWeakAndTerms tokens)) →
      doc ∈ docsOfTree meaning (buildImplicitExpression tokens mode)) ∧
    (doc ∈ docsOfTree meaning (buildImplicitExpression tokens mode) →
      doc ∈ docsOfTree meaning (buildWeakAndBaseExpression (filterWeakAndTerms tokens)) ∨
        HasSomePair meaning doc (filterWeakAndTerms tokens)) := by
  have boost : (doc ∈ docsOfTree meaning
        (buildWeakAndBaseExpression (filterWeakAndTerms tokens)) →
      doc ∈ docsOfTree meaning (buildWeakAndBigramBoostExpression tokens mode)) ∧
    (doc ∈ docsOfTree meaning (buildWeakAndBigramBoostExpression tokens mode) →
      doc ∈ docsOfTree meaning (buildWeakAndBaseExpression (filterWeakAndTerms tokens)) ∨
        HasSomePair meaning doc (filterWeakAndTerms tokens)) := by
    unfold buildWeakAndBigramBoostExpression
    dsimp only
    cases buildWeakAndBaseExpression (filterWeakAndTerms tokens) with
    | none => exact ⟨id, Or.inl⟩
    | some base =>
        cases buildAnyBigramQuery (filterWeakAndTerms tokens) with
        | none => exact ⟨id, Or.inl⟩
        | some bigrams =>
            show (doc ∈ meaning.docsOf base →
                doc ∈ meaning.docsOf (.boost base bigrams (bigramBoostWeight mode))) ∧
              (doc ∈ meaning.docsOf (.boost base bigrams (bigramBoostWeight mode)) →
                doc ∈ meaning.docsOf base ∨ _)
            rw [Meaning.docsOf]
            exact ⟨id, Or.inl⟩
  cases mode with
  | default => exact absurd rfl weak
  | weakAndBigramBoost => exact boost
  | weakAndBigramBoostForDoc => exact boost
  | weakAndBigram =>
      show (_ → doc ∈ docsOfTree meaning (buildWeakAndBigramExpression tokens)) ∧
        (doc ∈ docsOfTree meaning (buildWeakAndBigramExpression tokens) → _)
      unfold buildWeakAndBigramExpression
      dsimp only
      have bigramCase : doc ∈ docsOfTree meaning
          (buildAnyBigramQuery (filterWeakAndTerms tokens)) → _ := mem_buildAnyBigramQuery
      cases buildWeakAndBaseExpression (filterWeakAndTerms tokens) with
      | none =>
          refine ⟨fun inside => absurd inside (Finset.notMem_empty doc), fun inside => ?_⟩
          exact Or.inr (bigramCase inside)
      | some base =>
          cases found : buildAnyBigramQuery (filterWeakAndTerms tokens) with
          | none => exact ⟨id, Or.inl⟩
          | some bigrams =>
              rw [found] at bigramCase
              show (doc ∈ meaning.docsOf base → doc ∈ meaning.docsOf (.or [base, bigrams])) ∧
                (doc ∈ meaning.docsOf (.or [base, bigrams]) → doc ∈ meaning.docsOf base ∨ _)
              rw [mem_docsOf_or]
              refine ⟨fun inside => ⟨base, List.mem_cons_self, inside⟩, ?_⟩
              rintro ⟨node, member, inside⟩
              rcases List.mem_pair.mp member with rfl | rfl
              · exact Or.inl inside
              · exact Or.inr (bigramCase inside)

/-- The stream keys below the groups of the tokens. -/
def leafKeys (tokens : List QueryTerm) : List Str :=
  tokens.flatMap fun token => token.streams.map (streamKey token.term)

theorem leafDenotations_terms (allowHighDf : Bool) (keys : List Str) :
    meaning.leafDenotations allowHighDf (keys.map fun key => .term key) =
      (keys.filter fun key => allowHighDf || !meaning.tooFrequent (.term key)).map
        meaning.lists := by
  induction keys with
  | nil => rfl
  | cons key rest inductionHypothesis =>
      rw [List.map_cons, Meaning.leafDenotations, inductionHypothesis, Meaning.docsOf]
      · cases kept : allowHighDf || !meaning.tooFrequent (.term key)
        · simp [kept]
        · simp [kept]
      · intro nodes grouped
        cases grouped

theorem leafDenotations_group (allowHighDf : Bool) (term : Str) (streams : List Stream)
    (rest : List EvalNode) :
    meaning.leafDenotations allowHighDf (makeTermGroup term streams 1 :: rest) =
      ((streams.map (streamKey term)).filter fun key =>
          allowHighDf || !meaning.tooFrequent (.term key)).map meaning.lists ++
        meaning.leafDenotations allowHighDf rest := by
  have terms : meaning.leafDenotations allowHighDf
      ((streams.map (streamKey term)).map fun key => .term key) = _ :=
    leafDenotations_terms allowHighDf (streams.map (streamKey term))
  unfold makeTermGroup
  split
  · rename_i stream
    rw [List.map_singleton, List.map_singleton, Meaning.leafDenotations] at terms
    · rw [Meaning.leafDenotations, List.map_singleton, ← terms, Meaning.leafDenotations,
        List.append_nil]
      intro nodes grouped
      cases grouped
    · intro nodes grouped
      cases grouped
  · rw [Meaning.leafDenotations, ← terms, List.map_map]
    rfl

theorem leafDenotations_groups (allowHighDf : Bool) (tokens : List QueryTerm) :
    meaning.leafDenotations allowHighDf (tokens.map makeQueryTermGroup) =
      ((leafKeys tokens).filter fun key => allowHighDf || !meaning.tooFrequent (.term key)).map
        meaning.lists := by
  induction tokens with
  | nil => rfl
  | cons token rest inductionHypothesis =>
      rw [List.map_cons, makeQueryTermGroup, leafDenotations_group, inductionHypothesis, leafKeys,
        leafKeys, List.flatMap_cons, List.filter_append, List.map_append]

theorem mem_leafKeys {tokens : List QueryTerm} {key : Str} :
    key ∈ leafKeys tokens ↔
      ∃ token ∈ tokens, ∃ stream ∈ token.streams, key = streamKey token.term stream := by
  simp only [leafKeys, List.mem_flatMap, List.mem_map, eq_comm]

theorem buildWeakAndBaseExpression_many {tokens : List QueryTerm} (many : ¬ tokens.length ≤ 1) :
    buildWeakAndBaseExpression tokens =
      some (.weakAnd (tokens.map makeQueryTermGroup)
        (min (minShouldMatch tokens.length) (UInt32.ofNat tokens.length))) := by
  match tokens, many with
  | [], many => exact absurd (Nat.zero_le 1) many
  | [_], many => exact absurd (Nat.le_refl 1) many
  | _ :: _ :: _, _ => rfl

/-- The sets `FlatPruned` counts: the leaves that are not too frequent, or all of
them when none is left. -/
theorem weakAndSets_flat (children : List EvalNode) (flat : meaning.mode = .flatPruned) :
    ((meaning.leafDenotations false children).filter (fun docs => docs ≠ ∅) ≠ [] ∧
      meaning.weakAndSets children =
        (meaning.leafDenotations false children).filter fun docs => docs ≠ ∅) ∨
    ((meaning.leafDenotations false children).filter (fun docs => docs ≠ ∅) = [] ∧
      meaning.weakAndSets children =
        (meaning.leafDenotations true children).filter fun docs => docs ≠ ∅) := by
  unfold Meaning.weakAndSets
  rw [flat]
  dsimp only
  by_cases none_ : (meaning.leafDenotations false children).filter (fun docs => docs ≠ ∅) = []
  · exact Or.inr ⟨none_, if_pos none_⟩
  · exact Or.inl ⟨none_, if_neg none_⟩

/-- Where every set that is counted holds the document, the threshold is met. -/
theorem threshold_le_of_all {sets : List (Finset UInt64)} {minShouldMatch : UInt32}
    {build : WeakAndBuildMode} (some_ : sets ≠ []) (all : ∀ docs ∈ sets, doc ∈ docs) :
    max 1 (QueryContext.weakAndMinShouldMatch build minShouldMatch sets.length) ≤
      sets.countP fun docs => doc ∈ docs := by
  have count : (sets.countP fun docs => doc ∈ docs) = sets.length := by
    rw [List.countP_eq_length]
    simpa using all
  have positive := List.length_pos_iff.mpr some_
  rw [count]
  apply max_le positive
  unfold QueryContext.weakAndMinShouldMatch QueryContext.flatMinShouldMatch
  split
  · split
    · exact positive
    · split <;> omega
  · have := Nat.mod_le sets.length (2 ^ 32)
    omega

/-- A pruned weak conjunction has a document that is in the list of one of its stream keys, and in
the list of every other one that is not empty. -/
theorem mem_weakAnd_pruned {tokens : List QueryTerm} {token : QueryTerm} {stream : Stream}
    (pruned : meaning.mode ≠ .orChildren) (member : token ∈ tokens)
    (streamMember : stream ∈ token.streams)
    (listed : doc ∈ meaning.lists (streamKey token.term stream))
    (all : ∀ other ∈ tokens, ∀ place ∈ other.streams,
      meaning.lists (streamKey other.term place) ≠ ∅ →
        doc ∈ meaning.lists (streamKey other.term place)) {minShouldMatch : UInt32} :
    doc ∈ meaning.docsOf (.weakAnd (tokens.map makeQueryTermGroup) minShouldMatch) := by
  rw [mem_docsOf_weakAnd]
  cases build : meaning.mode with
  | orChildren => exact absurd build pruned
  | orChildrenPruned =>
      have sets : meaning.weakAndSets (tokens.map makeQueryTermGroup) =
          (meaning.denotations (tokens.map makeQueryTermGroup)).filter fun docs => docs ≠ ∅ := by
        unfold Meaning.weakAndSets
        rw [build]
      have inGroup : doc ∈ meaning.docsOf (makeQueryTermGroup token) :=
        mem_docsOf_makeQueryTermGroup.mpr ⟨stream, streamMember, listed⟩
      rw [sets, Meaning.denotations_eq]
      apply threshold_le_of_all
      · apply List.ne_nil_of_mem
        exact List.mem_filter.mpr ⟨List.mem_map_of_mem (List.mem_map_of_mem member),
          decide_eq_true (Finset.ne_empty_of_mem inGroup)⟩
      · intro docs docsMember
        obtain ⟨inside, nonempty⟩ := List.mem_filter.mp docsMember
        obtain ⟨node, nodeMember, rfl⟩ := List.mem_map.mp inside
        obtain ⟨other, otherMember, rfl⟩ := List.mem_map.mp nodeMember
        obtain ⟨found, foundInside⟩ := Finset.nonempty_of_ne_empty (of_decide_eq_true nonempty)
        obtain ⟨place, placeMember, foundListed⟩ := mem_docsOf_makeQueryTermGroup.mp foundInside
        exact mem_docsOf_makeQueryTermGroup.mpr
          ⟨place, placeMember, all other otherMember place placeMember
            (Finset.ne_empty_of_mem foundListed)⟩
  | flatPruned =>
      have leafs : ∀ allowHighDf, ∀ docs ∈ (meaning.leafDenotations allowHighDf
          (tokens.map makeQueryTermGroup)).filter (fun docs => docs ≠ ∅), doc ∈ docs := by
        intro allowHighDf docs docsMember
        obtain ⟨inside, nonempty⟩ := List.mem_filter.mp docsMember
        rw [leafDenotations_groups] at inside
        obtain ⟨key, keyMember, rfl⟩ := List.mem_map.mp inside
        obtain ⟨other, otherMember, place, placeMember, rfl⟩ :=
          mem_leafKeys.mp (List.mem_filter.mp keyMember).1
        exact all other otherMember place placeMember (of_decide_eq_true nonempty)
      rcases weakAndSets_flat (tokens.map makeQueryTermGroup) build with
        ⟨some_, setsEq⟩ | ⟨_, setsEq⟩
      · rw [setsEq]
        exact threshold_le_of_all some_ (leafs false)
      · rw [setsEq]
        apply threshold_le_of_all _ (leafs true)
        apply List.ne_nil_of_mem
        apply List.mem_filter.mpr
        refine ⟨?_, decide_eq_true (Finset.ne_empty_of_mem listed)⟩
        rw [leafDenotations_groups]
        apply List.mem_map.mpr
        refine ⟨streamKey token.term stream, List.mem_filter.mpr ⟨?_, rfl⟩, rfl⟩
        exact mem_leafKeys.mpr ⟨token, member, stream, streamMember, rfl⟩

end Nodes

/-! ## The condition is enough -/

section Enough

variable {float : FloatOps} {calls : List WriteCall} {build : WeakAndBuildMode}
  {negative : List QueryTerm} {mode : QueryCompileMode} {doc : UInt64} {term : Str}
  {stream : Stream}

theorem Contains.writable (fit : KeysFit calls) (clean : Clean term)
    (contains : Contains calls doc term stream) : Writable term := by
  have posted := fit.posted ((posted_streamKey clean).mpr contains)
  rw [streamKey_len] at posted
  obtain ⟨_, _, _, _, _, nonempty⟩ := contains
  exact ⟨nonempty, posted⟩

/-- Several kept terms that all come down to one stream key: every set that the
weak conjunction counts holds the documents of that key. -/
theorem mem_weakAnd_of_oneKey (fit : KeysFit calls) {tokens : List QueryTerm}
    (clean : ∀ token ∈ tokens, Clean token.term) (termClean : Clean term)
    (contains : Contains calls doc term stream)
    (oneKey : ∀ token ∈ tokens, Writable token.term →
      ∀ other ∈ token.streams, token.term = term ∧ other = stream)
    (enough : pooledThreshold tokens.length ≤ tokens.countP fun token => token.Has term stream) :
    doc ∈ (indexMeaning float calls build).docsOf (.weakAnd (tokens.map makeQueryTermGroup)
      (min (minShouldMatch tokens.length) (UInt32.ofNat tokens.length))) := by
  have listed : doc ∈ builtLists float (written calls) (streamKey term stream) :=
    (mem_lists_token fit termClean stream doc).mpr contains
  -- A list that is not empty is the list of the one key.
  have sameList : ∀ token ∈ tokens, ∀ other ∈ token.streams,
      ∀ found ∈ builtLists float (written calls) (streamKey token.term other),
        token.term = term ∧ other = stream := by
    intro token member other otherMember found inside
    have held := (mem_lists_token fit (clean token member) other found).mp inside
    exact oneKey token member (held.writable fit (clean token member)) other otherMember
  have holder : ∃ token ∈ tokens, token.Has term stream := by
    have positive : 0 < tokens.countP fun token => token.Has term stream :=
      lt_of_lt_of_le (lt_of_lt_of_le Nat.one_pos (le_max_left 1 _)) enough
    obtain ⟨token, member, has⟩ := List.countP_pos_iff.mp positive
    exact ⟨token, member, of_decide_eq_true has⟩
  obtain ⟨token, member, tokenHas⟩ := holder
  have pruned : build ≠ .orChildren →
      doc ∈ (indexMeaning float calls build).docsOf (.weakAnd (tokens.map makeQueryTermGroup)
        (min (minShouldMatch tokens.length) (UInt32.ofNat tokens.length))) := by
    intro isPruned
    apply mem_weakAnd_pruned isPruned member tokenHas.2
    · rw [tokenHas.1]
      exact listed
    · intro other otherMember place placeMember nonempty
      obtain ⟨found, foundInside⟩ := Finset.nonempty_of_ne_empty nonempty
      obtain ⟨rfl, rfl⟩ := sameList other otherMember place placeMember found foundInside
      exact listed
  cases build with
  | orChildren =>
      rw [mem_docsOf_weakAnd]
      show _ ≤ List.countP _ ((indexMeaning float calls .orChildren).denotations _)
      show max 1 (QueryContext.weakAndMinShouldMatch .orChildren _
        ((indexMeaning float calls .orChildren).denotations _).length) ≤ _
      rw [Meaning.denotations_eq, List.length_map, List.length_map, List.countP_map,
        List.countP_map]
      apply le_trans enough
      apply List.countP_mono_left
      intro other _ has
      have otherHas := of_decide_eq_true has
      apply decide_eq_true
      apply mem_docsOf_makeQueryTermGroup.mpr
      exact ⟨stream, otherHas.2, by rw [otherHas.1]; exact listed⟩
  | orChildrenPruned => exact pruned (by decide)
  | flatPruned => exact pruned (by decide)

theorem buildImplicitExpression_unkept (weak : mode ≠ .default)
    (unkept : filterWeakAndTerms negative = []) :
    buildImplicitExpression negative mode = none := by
  cases mode with
  | default => exact absurd rfl weak
  | weakAndBigram =>
      show buildWeakAndBigramExpression negative = none
      rw [buildWeakAndBigramExpression, unkept]
      rfl
  | weakAndBigramBoost =>
      show buildWeakAndBigramBoostExpression negative _ = none
      rw [buildWeakAndBigramBoostExpression, unkept]
      rfl
  | weakAndBigramBoostForDoc =>
      show buildWeakAndBigramBoostExpression negative _ = none
      rw [buildWeakAndBigramBoostExpression, unkept]
      rfl

theorem keyExcludes_weak (weak : mode ≠ .default) :
    KeyExcludes negative term stream mode ↔
      if (filterWeakAndTerms negative).length ≤ 1 then
        ∀ token ∈ filterWeakAndTerms negative, token.Has term stream
      else
        (∀ token ∈ filterWeakAndTerms negative, Writable token.term →
          ∀ other ∈ token.streams, token.term = term ∧ other = stream) ∧
        pooledThreshold (filterWeakAndTerms negative).length ≤
          (filterWeakAndTerms negative).countP fun token => token.Has term stream := by
  cases mode with
  | default => exact absurd rfl weak
  | weakAndBigram => exact Iff.rfl
  | weakAndBigramBoost => exact Iff.rfl
  | weakAndBigramBoostForDoc => exact Iff.rfl

/-- A document that holds the key is a document of the pooled terms. -/
theorem mem_pooled_of_keyExcludes (fit : KeysFit calls)
    (clean : ∀ token ∈ negative, Clean token.term) (nonempty : negative ≠ [])
    (termClean : Clean term) (contains : Contains calls doc term stream)
    (excludes : KeyExcludes negative term stream mode) {pooled : EvalNode}
    (built : buildImplicitExpression negative mode = some pooled) :
    doc ∈ docsOfTree (indexMeaning float calls build) (buildImplicitExpression negative mode) := by
  have listed : doc ∈ builtLists float (written calls) (streamKey term stream) :=
    (mem_lists_token fit termClean stream doc).mpr contains
  by_cases weak : mode ≠ .default
  · rw [keyExcludes_weak weak] at excludes
    apply (weak_cases weak negative).1
    by_cases few : (filterWeakAndTerms negative).length ≤ 1
    · rw [if_pos few] at excludes
      match kept : filterWeakAndTerms negative, few with
      | [], _ =>
          rw [buildImplicitExpression_unkept weak kept] at built
          cases built
      | [token], _ =>
          have has := excludes token (by rw [kept]; exact List.mem_singleton_self _)
          apply mem_docsOf_makeQueryTermGroup.mpr
          exact ⟨stream, has.2, by rw [has.1]; exact listed⟩
    · rw [if_neg few] at excludes
      rw [buildWeakAndBaseExpression_many few]
      exact mem_weakAnd_of_oneKey fit
        (fun token member => clean token (mem_filterWeakAndTerms member)) termClean contains
        excludes.1 excludes.2
  · rw [not_not] at weak
    subst weak
    apply (mem_default nonempty).mpr
    apply Or.inr
    intro token member
    have has := excludes token member
    exact ⟨stream, has.2, by rw [has.1]; exact listed⟩

theorem buildMinusExpression_eq (nonempty : negative ≠ []) {positive : List QueryTerm}
    {node : EvalNode} (built : buildMinusExpression positive negative mode = some node) :
    ∃ base exclude, buildImplicitExpression positive mode = some base ∧
      buildImplicitExpression negative mode = some exclude ∧ node = .not base exclude := by
  rw [buildMinusExpression, if_neg nonempty] at built
  split at built
  · cases built
  · cases baseEq : buildImplicitExpression positive mode with
    | none =>
        rw [baseEq] at built
        cases built
    | some base =>
        cases excludeEq : buildImplicitExpression negative mode with
        | none =>
            rw [baseEq, excludeEq] at built
            cases built
        | some exclude =>
            rw [baseEq, excludeEq] at built
            exact ⟨base, exclude, rfl, rfl, (Option.some.inj built).symm⟩

theorem excludes_of_disjunctExcludes (clean : ∀ token ∈ negative, Clean token.term)
    {positive : List QueryTerm} (condition : DisjunctExcludes positive negative mode) :
    Excludes positive negative mode := by
  intro float calls build fit doc inside token member stream streamMember contains
  have nonempty : negative ≠ [] := List.ne_nil_of_mem member
  have each : EachExcludes negative mode := by
    rcases condition with noPositive | each
    · rw [buildMinusExpression, if_neg nonempty, if_pos noPositive] at inside
      exact absurd inside (Finset.notMem_empty doc)
    · exact each
  cases built : buildMinusExpression positive negative mode with
  | none =>
      rw [built] at inside
      exact absurd inside (Finset.notMem_empty doc)
  | some node =>
      rw [built] at inside
      obtain ⟨base, exclude, _, excludeEq, rfl⟩ := buildMinusExpression_eq nonempty built
      have key := each token member (contains.writable fit (clean token member)) stream
        streamMember
      have pooled : doc ∈ docsOfTree (indexMeaning float calls build) _ :=
        mem_pooled_of_keyExcludes fit clean nonempty (clean token member) contains key excludeEq
      rw [excludeEq] at pooled
      exact (mem_docsOf_not.mp inside).2 pooled

end Enough

/-! ## The condition is needed -/

section Needed

variable {calls : List WriteCall} {build : WeakAndBuildMode} {positive negative : List QueryTerm}
  {mode : QueryCompileMode} {doc : UInt64} {token : QueryTerm} {stream : Stream}

/-- Of terms that are not empty some are kept. -/
theorem filterWeakAndTerms_ne_nil {tokens : List QueryTerm} (some_ : tokens ≠ [])
    (nonempty : ∀ token ∈ tokens, token.term ≠ Str.empty) : filterWeakAndTerms tokens ≠ [] := by
  have kept : ∀ terms : List QueryTerm, terms ≠ [] → keepUnseen [] terms ≠ [] := by
    intro terms present
    obtain ⟨first, rest, rfl⟩ := List.exists_cons_of_ne_nil present
    rw [keepUnseen, if_neg List.not_mem_nil]
    exact List.cons_ne_nil _ _
  unfold filterWeakAndTerms
  dsimp only
  split
  · assumption
  · apply kept
    obtain ⟨token, member⟩ := List.exists_mem_of_ne_nil _ some_
    exact List.ne_nil_of_mem (List.mem_filter.mpr ⟨member, decide_eq_true (nonempty token member)⟩)

/-- A document that holds every positive token in all of its streams is a document of the
positive part, however the index is built. -/
theorem mem_positive (fit : KeysFit calls) (ordinary : Ordinary positive negative)
    (nonempty : positive ≠ [])
    (holds : ∀ token ∈ positive, ∀ stream ∈ token.streams, Contains calls doc token.term stream) :
    doc ∈ docsOfTree (indexMeaning default calls build)
      (buildImplicitExpression positive mode) := by
  have listed : ∀ token ∈ positive, ∀ stream ∈ token.streams,
      doc ∈ builtLists default (written calls) (streamKey token.term stream) := by
    intro token member stream streamMember
    exact (mem_lists_token fit (ordinary.clean token member) stream doc).mpr
      (holds token member stream streamMember)
  have grouped : ∀ token ∈ positive,
      doc ∈ (indexMeaning default calls build).docsOf (makeQueryTermGroup token) := by
    intro token member
    obtain ⟨stream, streamMember⟩ := List.exists_mem_of_ne_nil _ (ordinary.streams token member)
    exact mem_docsOf_makeQueryTermGroup.mpr ⟨stream, streamMember, listed token member stream
      streamMember⟩
  by_cases weak : mode ≠ .default
  · apply (weak_cases weak positive).1
    have some_ := filterWeakAndTerms_ne_nil nonempty fun token member =>
      (ordinary.writable token member).1
    by_cases few : (filterWeakAndTerms positive).length ≤ 1
    · obtain ⟨single, only⟩ : ∃ single, filterWeakAndTerms positive = [single] :=
        List.length_eq_one_iff.mp (by have := List.length_pos_iff.mpr some_; omega)
      have member : single ∈ positive :=
        mem_filterWeakAndTerms (by rw [only]; exact List.mem_singleton_self _)
      rw [only]
      exact grouped single member
    · rw [buildWeakAndBaseExpression_many few]
      obtain ⟨token, member⟩ := List.exists_mem_of_ne_nil _ some_
      obtain ⟨stream, streamMember⟩ := List.exists_mem_of_ne_nil _
        (ordinary.streams token (mem_filterWeakAndTerms member))
      have pruned : build ≠ .orChildren → doc ∈ (indexMeaning default calls build).docsOf
          (.weakAnd ((filterWeakAndTerms positive).map makeQueryTermGroup)
            (min (minShouldMatch (filterWeakAndTerms positive).length)
              (UInt32.ofNat (filterWeakAndTerms positive).length))) := by
        intro isPruned
        apply mem_weakAnd_pruned isPruned member streamMember
        · exact listed token (mem_filterWeakAndTerms member) stream streamMember
        · intro other otherMember place placeMember _
          exact listed other (mem_filterWeakAndTerms otherMember) place placeMember
      cases build with
      | orChildren =>
          apply mem_docsOf_weakAnd.mpr
          apply threshold_le_of_all
          · show (indexMeaning default calls .orChildren).denotations _ ≠ []
            rw [Meaning.denotations_eq, ne_eq, List.map_eq_nil_iff, List.map_eq_nil_iff]
            exact some_
          · intro docs docsMember
            change docs ∈ (indexMeaning default calls .orChildren).denotations _ at docsMember
            rw [Meaning.denotations_eq] at docsMember
            obtain ⟨node, nodeMember, rfl⟩ := List.mem_map.mp docsMember
            obtain ⟨other, otherMember, rfl⟩ := List.mem_map.mp nodeMember
            exact grouped other (mem_filterWeakAndTerms otherMember)
      | orChildrenPruned => exact pruned (by decide)
      | flatPruned => exact pruned (by decide)
  · rw [not_not] at weak
    subst weak
    exact (mem_default nonempty).mpr (Or.inr fun token member =>
      mem_docsOf_makeQueryTermGroup.mp (grouped token member))

/-- A document of the positive part that holds a negated token is returned unless the pooled
terms match it. -/
theorem mem_pooled_of_excludes (excludes : Excludes positive negative mode) (fit : KeysFit calls)
    (nonempty : positive ≠ []) (member : token ∈ negative) (streamMember : stream ∈ token.streams)
    (contains : Contains calls doc token.term stream)
    (returned : doc ∈ docsOfTree (indexMeaning default calls build)
      (buildImplicitExpression positive mode)) {pooled : EvalNode}
    (built : buildImplicitExpression negative mode = some pooled) :
    doc ∈ docsOfTree (indexMeaning default calls build)
      (buildImplicitExpression negative mode) := by
  by_contra outside
  cases base : buildImplicitExpression positive mode with
  | none =>
      rw [base] at returned
      exact absurd returned (Finset.notMem_empty doc)
  | some node =>
      have minus : buildMinusExpression positive negative mode = some (.not node pooled) := by
        rw [buildMinusExpression, if_neg (List.ne_nil_of_mem member), if_neg nonempty, base, built]
        rfl
      apply excludes default calls build fit doc _ token member stream streamMember contains
      rw [minus]
      rw [base] at returned
      rw [built] at outside
      exact mem_docsOf_not.mpr ⟨returned, outside⟩

theorem writtenTerms_singleton {term : Str} {terms : List Str}
    (member : term ∈ writtenTerms terms) {word : Str} (single : terms = [word]) : term = word := by
  subst single
  simp only [writtenTerms, List.tail_cons, List.zip_nil_right, List.filter_nil, List.map_nil,
    List.append_nil, List.mem_filter, List.mem_singleton] at member
  exact member.1

/-- Calls of one clean word each, which post no bigram. -/
def SingleWords (calls : List WriteCall) : Prop :=
  ∀ call ∈ calls, ∃ word, call.words = [word] ∧ Clean word

theorem SingleWords.no_bigram (single : SingleWords calls) {left right : Str}
    (leftClean : Clean left) (rightClean : Clean right) {float : FloatOps} :
    doc ∉ builtLists float (written calls) (streamKey (bigram left right) stream) := by
  intro inside
  have posted := ((mem_lists_bigram leftClean rightClean stream doc).mp inside).2
  obtain ⟨call, member, _, term, termMember, sameKey⟩ := (posted_written _ _ _).mp posted
  obtain ⟨word, words, wordClean⟩ := single call member
  obtain ⟨rfl, _⟩ := streamKey_injective sameKey
  exact wordClean.ne_bigram left right (writtenTerms_singleton termMember words).symm

theorem SingleWords.no_pair (single : SingleWords calls) {tokens : List QueryTerm}
    (clean : ∀ token ∈ tokens, Clean token.term) {float : FloatOps} :
    ¬ HasSomePair (indexMeaning float calls build) doc tokens := by
  rintro ⟨pair, member, other, _, listed⟩
  exact single.no_bigram (clean _ (mem_samePairs member).1) (clean _ (mem_samePairs member).2)
    listed

/-- Document 1 holds the tokens in all of their streams, each word on its own. -/
def holding (tokens : List QueryTerm) : List WriteCall :=
  tokens.flatMap fun token =>
    token.streams.map fun stream => ⟨[token.term], 1, stream.letter⟩

theorem mem_holding {tokens : List QueryTerm} {call : WriteCall} :
    call ∈ holding tokens ↔ ∃ token ∈ tokens, ∃ stream ∈ token.streams,
      call = ⟨[token.term], 1, stream.letter⟩ := by
  simp only [holding, List.mem_flatMap, List.mem_map, eq_comm]

theorem singleWords_holding {tokens : List QueryTerm} (clean : ∀ token ∈ tokens, Clean token.term) :
    SingleWords (holding tokens) := by
  intro call member
  obtain ⟨token, tokenMember, stream, _, rfl⟩ := mem_holding.mp member
  exact ⟨token.term, rfl, clean token tokenMember⟩

theorem keysFit_holding {tokens : List QueryTerm}
    (writable : ∀ token ∈ tokens, Writable token.term) : KeysFit (holding tokens) := by
  intro call member key keyMember
  obtain ⟨token, tokenMember, stream, _, rfl⟩ := mem_holding.mp member
  rw [writtenTerms_singleton keyMember rfl]
  exact (writable token tokenMember).2

/-- Where the calls are made, document 1 holds the tokens. -/
theorem contains_holding {tokens : List QueryTerm}
    (writable : ∀ token ∈ tokens, Writable token.term)
    (made : ∀ call ∈ holding tokens, call ∈ calls) :
    ∀ token ∈ tokens, ∀ stream ∈ token.streams, Contains calls 1 token.term stream := by
  intro token member stream streamMember
  exact ⟨_, made _ (mem_holding.mpr ⟨token, member, stream, streamMember, rfl⟩), rfl,
    streamAbbrev_letter _, List.mem_singleton_self _, (writable token member).1⟩

/-- Document 1 holds the term in the stream, the tokens in theirs, and nothing else. -/
def oneWord (tokens : List QueryTerm) (term : Str) (stream : Stream) : List WriteCall :=
  ⟨[term], 1, stream.letter⟩ :: holding tokens

theorem contains_oneWord {term other : Str} (nonempty : term ≠ Str.empty) {otherStream : Stream}
    (apart : ∀ token ∈ positive, other ≠ token.term) :
    Contains (oneWord positive term stream) 1 other otherStream ↔
      other = term ∧ otherStream = stream := by
  constructor
  · rintro ⟨call, member, _, sameStream, word, _⟩
    rcases List.mem_cons.mp member with rfl | held
    · rw [streamAbbrev_letter] at sameStream
      exact ⟨List.mem_singleton.mp word, sameStream.symm⟩
    · obtain ⟨token, tokenMember, _, _, rfl⟩ := mem_holding.mp held
      exact absurd (List.mem_singleton.mp word) (apart token tokenMember)
  · rintro ⟨rfl, rfl⟩
    exact ⟨_, List.mem_cons_self, rfl, streamAbbrev_letter _, List.mem_singleton_self _, nonempty⟩

theorem singleWords_oneWord {term : Str} (clean : Clean term)
    (held : ∀ token ∈ positive, Clean token.term) :
    SingleWords (oneWord positive term stream) := by
  intro call member
  rcases List.mem_cons.mp member with rfl | later
  · exact ⟨term, rfl, clean⟩
  · exact singleWords_holding held call later

theorem keysFit_oneWord {term : Str} (writable : Writable term)
    (held : ∀ token ∈ positive, Writable token.term) :
    KeysFit (oneWord positive term stream) := by
  intro call member key keyMember
  rcases List.mem_cons.mp member with rfl | later
  · rw [writtenTerms_singleton keyMember rfl]
    exact writable.2
  · exact keysFit_holding held call later key keyMember

theorem tooFrequent_of {meaning : Meaning} {key : Str} (some_ : 0 < meaning.documentCount)
    (many : 100000 < (meaning.lists key).card)
    (fifth : meaning.documentCount / 5 < (meaning.lists key).card) :
    meaning.tooFrequent (.term key) = true := by
  unfold Meaning.tooFrequent highDf
  rw [estimateDocFreq]
  apply decide_eq_true
  refine ⟨some_, Nat.zero_lt_of_lt many, ?_⟩
  omega

/-- Documents 1 to `count` hold the term in the stream, document 0 another one, and document 1
the tokens in their streams. -/
def crowded (tokens : List QueryTerm) (count : Nat) (term : Str) (stream : Stream) (other : Str)
    (otherStream : Stream) : List WriteCall :=
  ((List.range count).map fun index =>
      (⟨[term], UInt64.ofNat (index + 1), stream.letter⟩ : WriteCall)) ++
    (⟨[other], 0, otherStream.letter⟩ :: holding tokens)

section Crowded

variable {count : Nat} {term other : Str} {otherStream : Stream}

theorem mem_crowded {call : WriteCall} :
    call ∈ crowded positive count term stream other otherStream ↔
      (∃ index < count, call = ⟨[term], UInt64.ofNat (index + 1), stream.letter⟩) ∨
        call = ⟨[other], 0, otherStream.letter⟩ ∨ call ∈ holding positive := by
  simp only [crowded, List.mem_append, List.mem_map, List.mem_range, List.mem_cons, eq_comm]

theorem singleWords_crowded (termClean : Clean term) (otherClean : Clean other)
    (held : ∀ token ∈ positive, Clean token.term) :
    SingleWords (crowded positive count term stream other otherStream) := by
  intro call member
  rcases mem_crowded.mp member with ⟨index, _, rfl⟩ | rfl | later
  · exact ⟨term, rfl, termClean⟩
  · exact ⟨other, rfl, otherClean⟩
  · exact singleWords_holding held call later

theorem keysFit_crowded (writable : Writable term) (otherWritable : Writable other)
    (held : ∀ token ∈ positive, Writable token.term) :
    KeysFit (crowded positive count term stream other otherStream) := by
  intro call member key keyMember
  rcases mem_crowded.mp member with ⟨index, _, rfl⟩ | rfl | later
  · rw [writtenTerms_singleton keyMember rfl]
    exact writable.2
  · rw [writtenTerms_singleton keyMember rfl]
    exact otherWritable.2
  · exact keysFit_holding held call later key keyMember

theorem contains_crowded (writable : Writable term) {index : Nat} (small : index < count) :
    Contains (crowded positive count term stream other otherStream) (UInt64.ofNat (index + 1)) term
      stream :=
  ⟨_, mem_crowded.mpr (Or.inl ⟨index, small, rfl⟩), rfl, streamAbbrev_letter _,
    List.mem_singleton_self _, writable.1⟩

/-- What a document other than 0 holds besides the tokens is the crowded key. -/
theorem crowded_only {held : Str} {heldStream : Stream}
    (apart : ∀ token ∈ positive, held ≠ token.term) (notZero : doc ≠ 0)
    (contains : Contains (crowded positive count term stream other otherStream) doc held
      heldStream) :
    held = term ∧ heldStream = stream := by
  obtain ⟨call, member, sameDoc, sameStream, word, _⟩ := contains
  rcases mem_crowded.mp member with ⟨index, _, rfl⟩ | rfl | later
  · rw [streamAbbrev_letter] at sameStream
    exact ⟨List.mem_singleton.mp word, sameStream.symm⟩
  · exact absurd sameDoc.symm notZero
  · obtain ⟨token, tokenMember, _, _, rfl⟩ := mem_holding.mp later
    exact absurd (List.mem_singleton.mp word) (apart token tokenMember)

theorem crowded_card (small : count < 2 ^ 32)
    (fit : KeysFit (crowded positive count term stream other otherStream))
    (writable : Writable term) (clean : Clean term) {float : FloatOps} :
    count ≤ (builtLists float (written (crowded positive count term stream other otherStream))
      (streamKey term stream)).card := by
  have injective : Set.InjOn (fun index : Nat => UInt64.ofNat (index + 1))
      (Finset.range count : Finset Nat) := by
    intro left leftMember right rightMember same
    have leftSmall := Finset.mem_range.mp leftMember
    have rightSmall := Finset.mem_range.mp rightMember
    have sameNat := congrArg UInt64.toNat same
    rw [UInt64.toNat_ofNat', UInt64.toNat_ofNat'] at sameNat
    omega
  calc count = ((Finset.range count).image fun index => UInt64.ofNat (index + 1)).card := by
        rw [Finset.card_image_of_injOn injective, Finset.card_range]
    _ ≤ _ := by
        apply Finset.card_le_card
        intro doc member
        obtain ⟨index, inRange, rfl⟩ := Finset.mem_image.mp member
        exact (mem_lists_token fit clean stream _).mpr
          (contains_crowded writable (Finset.mem_range.mp inRange))

theorem crowded_docs (present : 0 < count) (small : count < 2 ^ 32) {docId : UInt64}
    (member : docId ∈
      (written (crowded positive count term stream other otherStream)).docStats.keys) :
    docId.toNat ≤ count := by
  obtain ⟨call, callMember, _, rfl⟩ := (hasDoc_written _ docId).mp member
  rcases mem_crowded.mp callMember with ⟨index, inRange, rfl⟩ | rfl | later
  · show (UInt64.ofNat (index + 1)).toNat ≤ count
    rw [UInt64.toNat_ofNat']
    omega
  · exact Nat.zero_le _
  · obtain ⟨token, _, _, _, rfl⟩ := mem_holding.mp later
    exact present

theorem crowded_count (present : 0 < count) (small : count < 2 ^ 32) (term : Str)
    (stream : Stream) (other : Str) (otherStream : Stream) :
    let records :=
      storeDocDataRecordCount (written (crowded positive count term stream other otherStream))
    0 < records.toNat ∧ records.toNat ≤ count + 1 := by
  have nonempty :
      (written (crowded positive count term stream other otherStream)).docStats.keys ≠ [] := by
    have zero : (written (crowded positive count term stream other otherStream)).HasDoc 0 := by
      rw [hasDoc_written]
      exact ⟨_, mem_crowded.mpr (Or.inr (Or.inl rfl)), List.cons_ne_nil _ _, rfl⟩
    exact List.ne_nil_of_mem zero
  have idsFit : DocIdsFit (written (crowded positive count term stream other otherStream)) := by
    intro docId member
    have := crowded_docs present small member
    omega
  obtain ⟨last, lastMember, _, records, _⟩ := storeRange nonempty idsFit
  have := crowded_docs present small lastMember
  omega

theorem crowded_tooFrequent (many : 100000 < count) (small : count < 2 ^ 32)
    (fit : KeysFit (crowded positive count term stream other otherStream))
    (writable : Writable term) (clean : Clean term) :
    (indexMeaning default (crowded positive count term stream other otherStream) build).tooFrequent
      (.term (streamKey term stream)) = true := by
  have records := @crowded_count positive count (Nat.zero_lt_of_lt many) small term stream other
    otherStream
  have card : count ≤ (builtLists default
      (written (crowded positive count term stream other otherStream))
      (streamKey term stream)).card := crowded_card small fit writable clean
  exact tooFrequent_of records.1 (lt_of_lt_of_le many card) (by
    show (storeDocDataRecordCount _).toNat / 5 < (builtLists _ _ _).card
    omega)

/-- The other key is listed for document 0 only, so it is not too frequent. -/
theorem crowded_other
    (fit : KeysFit (crowded positive count term stream other otherStream)) (clean : Clean other)
    (apart : ∀ token ∈ positive, other ≠ token.term)
    (different : ¬ (other = term ∧ otherStream = stream)) :
    (indexMeaning default (crowded positive count term stream other otherStream) build).tooFrequent
      (.term (streamKey other otherStream)) = false := by
  have subset : builtLists default
      (written (crowded positive count term stream other otherStream))
      (streamKey other otherStream) ⊆ {0} := by
    intro found inside
    rw [Finset.mem_singleton]
    by_contra notZero
    exact different (crowded_only apart notZero
      ((mem_lists_token fit clean otherStream found).mp inside))
  have card := Finset.card_le_card subset
  rw [Finset.card_singleton] at card
  unfold Meaning.tooFrequent highDf
  rw [estimateDocFreq]
  apply decide_eq_false
  rintro ⟨_, _, exceeds⟩
  change max 100000 _ < (builtLists _ _ _).card at exceeds
  omega

/-- The pooled terms do not reach a key that is too frequent as long as another
one is not. -/
theorem crowded_notMem {tokens : List QueryTerm} (many : 100000 < count) (small : count < 2 ^ 32)
    (clean : ∀ token ∈ tokens, Clean token.term) (termClean : Clean term)
    (writable : Writable term) {rare : QueryTerm} (rareMember : rare ∈ tokens)
    (rareWritable : Writable rare.term) (held : ∀ token ∈ positive, Writable token.term)
    (apart : ∀ token ∈ tokens, ∀ other ∈ positive, token.term ≠ other.term)
    (placeMember : otherStream ∈ rare.streams)
    (different : ¬ (rare.term = term ∧ otherStream = stream)) {minShouldMatch : UInt32} :
    1 ∉ (indexMeaning default (crowded positive count term stream rare.term otherStream)
      .flatPruned).docsOf (.weakAnd (tokens.map makeQueryTermGroup) minShouldMatch) := by
  have fit : KeysFit (crowded positive count term stream rare.term otherStream) :=
    keysFit_crowded writable rareWritable held
  have rareListed : 0 ∈ builtLists default
      (written (crowded positive count term stream rare.term otherStream))
      (streamKey rare.term otherStream) := by
    apply (mem_lists_token fit (clean rare rareMember) otherStream 0).mpr
    exact ⟨_, mem_crowded.mpr (Or.inr (Or.inl rfl)), rfl, streamAbbrev_letter _,
      List.mem_singleton_self _, rareWritable.1⟩
  have rareKept : (indexMeaning default (crowded positive count term stream rare.term otherStream)
      .flatPruned).tooFrequent (.term (streamKey rare.term otherStream)) = false :=
    crowded_other fit (clean rare rareMember) (apart rare rareMember) different
  intro inside
  rw [mem_docsOf_weakAnd] at inside
  rcases weakAndSets_flat (tokens.map makeQueryTermGroup)
      (rfl : (indexMeaning default (crowded positive count term stream rare.term otherStream)
        .flatPruned).mode = .flatPruned) with ⟨_, setsEq⟩ | ⟨none_, _⟩
  · rw [setsEq] at inside
    obtain ⟨docs, docsMember, held⟩ := List.countP_pos_iff.mp
      (lt_of_lt_of_le (lt_of_lt_of_le Nat.one_pos (le_max_left 1 _)) inside)
    obtain ⟨leaf, _⟩ := List.mem_filter.mp docsMember
    rw [leafDenotations_groups] at leaf
    obtain ⟨key, keyMember, rfl⟩ := List.mem_map.mp leaf
    obtain ⟨isLeaf, notFrequent⟩ := List.mem_filter.mp keyMember
    obtain ⟨other, otherMember, place, _, rfl⟩ := mem_leafKeys.mp isLeaf
    have contains := (mem_lists_token fit (clean other otherMember) place 1).mp
      (of_decide_eq_true held)
    obtain ⟨sameTerm, sameStream⟩ := crowded_only (apart other otherMember) (by decide) contains
    rw [sameTerm, sameStream, crowded_tooFrequent many small fit writable termClean] at notFrequent
    exact absurd notFrequent (by decide)
  · have kept : builtLists default
        (written (crowded positive count term stream rare.term otherStream))
        (streamKey rare.term otherStream) ∈
          ((indexMeaning default (crowded positive count term stream rare.term otherStream)
            .flatPruned).leafDenotations false (tokens.map makeQueryTermGroup)).filter
              fun docs => docs ≠ ∅ := by
      apply List.mem_filter.mpr
      refine ⟨?_, decide_eq_true (Finset.ne_empty_of_mem rareListed)⟩
      rw [leafDenotations_groups]
      apply List.mem_map.mpr
      refine ⟨streamKey rare.term otherStream, List.mem_filter.mpr ⟨?_, ?_⟩, rfl⟩
      · exact mem_leafKeys.mpr ⟨rare, rareMember, otherStream, placeMember, rfl⟩
      · rw [rareKept]
        rfl
    rw [none_] at kept
    cases kept

end Crowded

theorem mem_group_oneWord {term : Str} (writable : Writable term) (clean : Clean token.term)
    (held : ∀ token ∈ positive, Writable token.term)
    (apart : ∀ other ∈ positive, token.term ≠ other.term) :
    1 ∈ (indexMeaning default (oneWord positive term stream) build).docsOf
        (makeQueryTermGroup token) ↔
      token.Has term stream := by
  have held : ∀ place, 1 ∈ builtLists default (written (oneWord positive term stream))
      (streamKey token.term place) ↔ token.term = term ∧ place = stream := by
    intro place
    rw [mem_lists_token (keysFit_oneWord writable held) clean, contains_oneWord writable.1 apart]
  rw [mem_docsOf_makeQueryTermGroup]
  show (∃ place ∈ token.streams, 1 ∈ builtLists default (written (oneWord positive term stream))
    (streamKey token.term place)) ↔ _
  simp only [held]
  constructor
  · rintro ⟨place, placeMember, same, rfl⟩
    exact ⟨same, placeMember⟩
  · rintro ⟨same, placeMember⟩
    exact ⟨stream, placeMember, same, rfl⟩

theorem exists_pooled (weak : mode ≠ .default) (kept : filterWeakAndTerms negative ≠ []) :
    ∃ pooled, buildImplicitExpression negative mode = some pooled := by
  obtain ⟨base, baseEq⟩ : ∃ base, buildWeakAndBaseExpression (filterWeakAndTerms negative) =
      some base := by
    match filterWeakAndTerms negative, kept with
    | [], kept => exact absurd rfl kept
    | [_], _ => exact ⟨_, rfl⟩
    | _ :: _ :: _, _ => exact ⟨_, rfl⟩
  have boost : ∃ pooled, buildWeakAndBigramBoostExpression negative mode = some pooled := by
    unfold buildWeakAndBigramBoostExpression
    dsimp only
    rw [baseEq]
    cases buildAnyBigramQuery (filterWeakAndTerms negative) with
    | none => exact ⟨_, rfl⟩
    | some bigrams => exact ⟨_, rfl⟩
  cases mode with
  | default => exact absurd rfl weak
  | weakAndBigramBoost => exact boost
  | weakAndBigramBoostForDoc => exact boost
  | weakAndBigram =>
      show ∃ pooled, buildWeakAndBigramExpression negative = some pooled
      unfold buildWeakAndBigramExpression
      dsimp only
      rw [baseEq]
      cases buildAnyBigramQuery (filterWeakAndTerms negative) with
      | none => exact ⟨_, rfl⟩
      | some bigrams => exact ⟨_, rfl⟩

/-- A disjunct with no term both required and negated whose documents hold no negated token. -/
structure Sparing (positive negative : List QueryTerm) (mode : QueryCompileMode) : Prop where
  ordinary : Ordinary positive negative
  nonempty : positive ≠ []
  clean : ∀ token ∈ negative, Clean token.term
  excludes : Excludes positive negative mode

section Sparing

variable (sparing : Sparing positive negative mode)

include sparing

theorem Sparing.negated_apart (member : token ∈ negative) :
    ∀ other ∈ positive, token.term ≠ other.term :=
  fun other otherMember => sparing.ordinary.apart other otherMember token member

/-- The pooled terms match the document of one word. -/
theorem Sparing.pooled_oneWord (member : token ∈ negative) (writable : Writable token.term)
    (streamMember : stream ∈ token.streams) (build : WeakAndBuildMode) {pooled : EvalNode}
    (built : buildImplicitExpression negative mode = some pooled) :
    1 ∈ docsOfTree (indexMeaning default (oneWord positive token.term stream) build)
      (buildImplicitExpression negative mode) := by
  have fit : KeysFit (oneWord positive token.term stream) :=
    keysFit_oneWord writable sparing.ordinary.writable
  have contains : Contains (oneWord positive token.term stream) 1 token.term stream :=
    (contains_oneWord writable.1 (sparing.negated_apart member)).mpr ⟨rfl, rfl⟩
  have held : ∀ other ∈ positive, ∀ place ∈ other.streams,
      Contains (oneWord positive token.term stream) 1 other.term place :=
    contains_holding sparing.ordinary.writable fun _ made => List.mem_cons_of_mem _ made
  exact mem_pooled_of_excludes sparing.excludes fit sparing.nonempty member streamMember contains
    (mem_positive fit sparing.ordinary sparing.nonempty held) built

/-- In the index of one word the pooled terms match through the base expression. -/
theorem Sparing.base_oneWord (weak : mode ≠ .default) (member : token ∈ negative)
    (writable : Writable token.term) (streamMember : stream ∈ token.streams)
    (build : WeakAndBuildMode) (kept : filterWeakAndTerms negative ≠ []) :
    1 ∈ docsOfTree (indexMeaning default (oneWord positive token.term stream) build)
      (buildWeakAndBaseExpression (filterWeakAndTerms negative)) := by
  obtain ⟨pooled, built⟩ := exists_pooled weak kept
  have inside := sparing.pooled_oneWord member writable streamMember build built
  rcases (weak_cases weak negative).2 inside with base | pair
  · exact base
  · exact absurd pair
      ((singleWords_oneWord (sparing.clean token member) sparing.ordinary.clean).no_pair
        fun token member => sparing.clean token (mem_filterWeakAndTerms member))

/-- Several kept terms: each that can be written has the one stream key. -/
theorem Sparing.kept_oneKey (weak : mode ≠ .default) (member : token ∈ negative)
    (writable : Writable token.term) (streamMember : stream ∈ token.streams)
    (few : ¬(filterWeakAndTerms negative).length ≤ 1) {rare : QueryTerm}
    (rareMember : rare ∈ filterWeakAndTerms negative) (rareWritable : Writable rare.term)
    {place : Stream} (placeMember : place ∈ rare.streams) :
    rare.term = token.term ∧ place = stream := by
  by_contra different
  have keptClean : ∀ token ∈ filterWeakAndTerms negative, Clean token.term :=
    fun token member => sparing.clean token (mem_filterWeakAndTerms member)
  obtain ⟨pooled, built⟩ := exists_pooled weak (List.ne_nil_of_mem rareMember)
  have single : SingleWords (crowded positive 100001 token.term stream rare.term place) :=
    singleWords_crowded (sparing.clean token member) (keptClean rare rareMember)
      sparing.ordinary.clean
  have fit : KeysFit (crowded positive 100001 token.term stream rare.term place) :=
    keysFit_crowded writable rareWritable sparing.ordinary.writable
  have contains : Contains (crowded positive 100001 token.term stream rare.term place) 1 token.term
      stream := contains_crowded writable (by decide : 0 < 100001)
  have held : ∀ other ∈ positive, ∀ stored ∈ other.streams,
      Contains (crowded positive 100001 token.term stream rare.term place) 1 other.term stored :=
    contains_holding sparing.ordinary.writable
      fun _ made => mem_crowded.mpr (Or.inr (Or.inr made))
  have inside : 1 ∈ docsOfTree (indexMeaning default
      (crowded positive 100001 token.term stream rare.term place) .flatPruned) _ :=
    mem_pooled_of_excludes sparing.excludes fit sparing.nonempty member streamMember contains
      (mem_positive fit sparing.ordinary sparing.nonempty held) built
  rcases (weak_cases weak negative).2 inside with base | pair
  · rw [buildWeakAndBaseExpression_many few] at base
    exact crowded_notMem (by decide) (by decide) keptClean (sparing.clean token member) writable
      rareMember rareWritable sparing.ordinary.writable
      (fun kept keptMember => sparing.negated_apart (mem_filterWeakAndTerms keptMember))
      placeMember different base
  · exact single.no_pair keptClean pair

theorem Sparing.eachExcludes : EachExcludes negative mode := by
  intro token member writable stream streamMember
  by_cases weak : mode ≠ .default
  · rw [keyExcludes_weak weak]
    have keptClean : ∀ token ∈ filterWeakAndTerms negative, Clean token.term :=
      fun token member => sparing.clean token (mem_filterWeakAndTerms member)
    have keptApart : ∀ kept ∈ filterWeakAndTerms negative, ∀ other ∈ positive,
        kept.term ≠ other.term :=
      fun kept keptMember => sparing.negated_apart (mem_filterWeakAndTerms keptMember)
    by_cases few : (filterWeakAndTerms negative).length ≤ 1
    · rw [if_pos few]
      intro kept keptMember
      have some_ := List.ne_nil_of_mem keptMember
      have base := sparing.base_oneWord weak member writable streamMember .flatPruned
        some_
      obtain ⟨single, only⟩ : ∃ single, filterWeakAndTerms negative = [single] :=
        List.length_eq_one_iff.mp (by have := List.length_pos_iff.mpr some_; omega)
      rw [only] at keptMember base
      have singleMember : single ∈ filterWeakAndTerms negative := by
        rw [only]
        exact List.mem_singleton_self _
      rw [List.mem_singleton.mp keptMember]
      exact (mem_group_oneWord writable (keptClean single singleMember)
        sparing.ordinary.writable (keptApart single singleMember)).mp base
    · rw [if_neg few]
      have some_ : filterWeakAndTerms negative ≠ [] := by
        intro none_
        rw [none_] at few
        exact few (Nat.zero_le 1)
      constructor
      · intro rare rareMember rareWritable place placeMember
        exact sparing.kept_oneKey weak member writable streamMember few rareMember rareWritable
          placeMember
      · have base := sparing.base_oneWord weak member writable streamMember .orChildren
          some_
        rw [buildWeakAndBaseExpression_many few] at base
        have counted := mem_docsOf_weakAnd.mp base
        change max 1 (QueryContext.weakAndMinShouldMatch .orChildren _
          ((indexMeaning default (oneWord positive token.term stream)
            .orChildren).denotations _).length) ≤
            List.countP _ ((indexMeaning default (oneWord positive token.term stream)
              .orChildren).denotations _) at counted
        rw [Meaning.denotations_eq, List.length_map, List.length_map, List.countP_map,
          List.countP_map] at counted
        apply le_trans counted
        apply List.countP_mono_left
        intro kept keptMember held
        apply decide_eq_true
        exact (mem_group_oneWord writable (keptClean kept keptMember) sparing.ordinary.writable
          (keptApart kept keptMember)).mp (of_decide_eq_true held)
  · rw [not_not] at weak
    subst weak
    intro other otherMember
    have nonempty : negative ≠ [] := List.ne_nil_of_mem member
    obtain ⟨pooled, built⟩ : ∃ pooled, buildImplicitExpression negative .default = some pooled := by
      rw [buildImplicitExpression_default nonempty]
      cases buildBigramQuery negative with
      | none => exact ⟨_, rfl⟩
      | some bigrams => exact ⟨_, rfl⟩
    have inside := sparing.pooled_oneWord member writable streamMember .flatPruned built
    rcases (mem_default nonempty).mp inside with ⟨some_, pairs⟩ | tokens
    · obtain ⟨pair, pairMember⟩ := List.exists_mem_of_ne_nil _ some_
      exact absurd ⟨pair, pairMember, pairs pair pairMember⟩
        ((singleWords_oneWord (sparing.clean token member) sparing.ordinary.clean).no_pair
          sparing.clean)
    · exact (mem_group_oneWord writable (sparing.clean other otherMember)
        sparing.ordinary.writable (sparing.negated_apart otherMember)).mp
        (mem_docsOf_makeQueryTermGroup.mpr (tokens other otherMember))

end Sparing

end Needed

/-! ## Queries with negated items -/

/-- Where every disjunct has no positive token, or each stream key of its negated tokens excludes
on its own, no document returned through a disjunct holds a token of a negated item of it in a
stream the item searches. A disjunct where that is not so, and which requires no term it negates,
returns such a document from some index. -/
theorem negation_excludes_iff (mode : QueryCompileMode) :
    (∀ (tokenize : Str → List Str) (query streamSet : Str),
      (∀ items ∈ disjunctsOf query,
        ∀ token ∈ termsWhere tokenize (parseStreamSet streamSet) true items, Clean token.term) →
      (∀ items ∈ disjunctsOf query,
        DisjunctExcludes (termsWhere tokenize (parseStreamSet streamSet) false items)
          (termsWhere tokenize (parseStreamSet streamSet) true items) mode) →
      ∀ (float : FloatOps) (calls : List WriteCall) (build : WeakAndBuildMode), KeysFit calls →
        ∀ doc,
          (doc ∈ docsOfTree (indexMeaning float calls build)
              (compileWithMode tokenize query streamSet mode).root →
            ∃ items ∈ disjunctsOf query, doc ∈ docsOfTree (indexMeaning float calls build)
              (disjunctNode tokenize (parseStreamSet streamSet) mode items)) ∧
          ∀ items ∈ disjunctsOf query,
            doc ∈ docsOfTree (indexMeaning float calls build)
              (disjunctNode tokenize (parseStreamSet streamSet) mode items) →
            ∀ item ∈ items, item.negated = true →
              ∀ token ∈ termsOf tokenize (parseStreamSet streamSet) item.text,
                ∀ stream ∈ token.streams, ¬ Contains calls doc token.term stream) ∧
    ∀ positive negative : List QueryTerm, (∀ token ∈ negative, Clean token.term) →
      Ordinary positive negative →
        (Excludes positive negative mode ↔ DisjunctExcludes positive negative mode) := by
  constructor
  · intro tokenize query streamSet clean conditions float calls build fit doc
    constructor
    · intro inside
      by_cases hasStream : parseStreamSet streamSet = []
      · have none_ : (compileWithMode tokenize query streamSet mode).root = none := by
          unfold compileWithMode
          split
          · rfl
          · exact if_pos hasStream
        rw [none_] at inside
        exact absurd inside (Finset.notMem_empty doc)
      · exact (mem_compiled hasStream).mp inside
    · intro items itemsMember inside item itemMember negated token tokenMember
      have member : token ∈ termsWhere tokenize (parseStreamSet streamSet) true items := by
        apply List.mem_flatMap.mpr
        exact ⟨item, List.mem_filter.mpr ⟨itemMember, decide_eq_true negated⟩, tokenMember⟩
      exact excludes_of_disjunctExcludes (clean items itemsMember) (conditions items itemsMember)
        float calls build fit doc inside token member
  · intro positive negative clean ordinary
    refine ⟨?_, excludes_of_disjunctExcludes clean⟩
    intro excludes
    by_cases noPositive : positive = []
    · exact Or.inl noPositive
    · have sparing : Sparing positive negative mode := ⟨ordinary, noPositive, clean, excludes⟩
      exact Or.inr sparing.eachExcludes

/-- Document 1 has the body `a`, document 2 the body `a b`. -/
def twoBodies : List WriteCall :=
  [⟨[⟨[0x61], validUtf8_a⟩], 1, ⟨[0x42], validUtf8_B⟩⟩,
    ⟨[⟨[0x61], validUtf8_a⟩, ⟨[0x62], validUtf8_b⟩], 2, ⟨[0x42], validUtf8_B⟩⟩]

/-- The query `a -b` returns document 1, which has no `b`. -/
theorem negation_excludes_iff_oneNegation :
    KeysFit twoBodies ∧
    1 ∈ docsOfTree (indexMeaning default twoBodies .flatPruned)
      (disjunctNode (fun text => [text]) (parseStreamSet ⟨[0x42], rfl⟩) .default
        [⟨⟨[0x61], rfl⟩, false⟩, ⟨⟨[0x62], rfl⟩, true⟩]) ∧
    ¬ Contains twoBodies 1 ⟨[0x62], rfl⟩ .body := by
  have inside : 1 ∈ docsOfTree (indexMeaning default twoBodies .flatPruned)
      (disjunctNode (fun text => [text]) (parseStreamSet ⟨[0x42], rfl⟩) .default
        [⟨⟨[0x61], rfl⟩, false⟩, ⟨⟨[0x62], rfl⟩, true⟩]) := by
    decide +kernel
  have only : disjunctsOf ⟨[0x61, 0x20, 0x2D, 0x62], rfl⟩ =
      [[⟨⟨[0x61], rfl⟩, false⟩, ⟨⟨[0x62], rfl⟩, true⟩]] := by
    decide +kernel
  have negative : termsWhere (fun text => [text]) (parseStreamSet ⟨[0x42], rfl⟩) true
      [⟨⟨[0x61], rfl⟩, false⟩, ⟨⟨[0x62], rfl⟩, true⟩] = [⟨⟨[0x62], rfl⟩, [.body]⟩] := by
    decide +kernel
  refine ⟨by decide +kernel, inside, ?_⟩
  apply ((negation_excludes_iff .default).1 (fun text => [text]) ⟨[0x61, 0x20, 0x2D, 0x62], rfl⟩
    ⟨[0x42], rfl⟩ _ _ default twoBodies .flatPruned (by decide +kernel) 1).2 _
    (by rw [only]; exact List.mem_singleton_self _) inside ⟨⟨[0x62], rfl⟩, true⟩ (by decide) rfl
    ⟨⟨[0x62], rfl⟩, [.body]⟩ (by decide +kernel) .body (by decide)
  · intro items member token tokenMember
    rw [only, List.mem_singleton] at member
    rw [member, negative, List.mem_singleton] at tokenMember
    rw [tokenMember]
    decide +kernel
  · intro items member
    apply Or.inr
    intro token tokenMember writable stream streamMember other otherMember
    rw [only, List.mem_singleton] at member
    rw [member, negative, List.mem_singleton] at tokenMember otherMember
    rw [tokenMember] at streamMember
    rw [otherMember, tokenMember]
    exact ⟨rfl, streamMember⟩

def twoBodiesContext : QueryContext :=
  ⟨(buildBlocks default (written twoBodies)).table, 2, 2, .flatPruned⟩

/-- The query `a -b -c` pools `b` and `c`: document 2, which has a `b` and no `c`,
is returned, and the reader of the tree moves to it. -/
theorem pooled_negation_keeps_document :
    disjunctsOf ⟨[0x61, 0x20, 0x2D, 0x62, 0x20, 0x2D, 0x63], rfl⟩ =
      [[⟨⟨[0x61], rfl⟩, false⟩, ⟨⟨[0x62], rfl⟩, true⟩, ⟨⟨[0x63], rfl⟩, true⟩]] ∧
    KeysFit twoBodies ∧
    2 ∈ docsOfTree (indexMeaning default twoBodies .flatPruned)
      (compileWithMode (fun text => [text]) ⟨[0x61, 0x20, 0x2D, 0x62, 0x20, 0x2D, 0x63], rfl⟩
        ⟨[0x42], rfl⟩ .default).root ∧
    ((compileWithMode (fun text => [text]) ⟨[0x61, 0x20, 0x2D, 0x62, 0x20, 0x2D, 0x63], rfl⟩
        ⟨[0x42], rfl⟩ .default).root.bind fun node => do
      let reader ← twoBodiesContext.buildIndexReader 20 node
      Call.runAll twoBodiesContext.table.indexBlocks 20 reader [.goUntil 2]).map
        IndexReader.docId = some 2 ∧
    Contains twoBodies 2 ⟨[0x62], rfl⟩ .body := by
  refine ⟨by decide +kernel, by decide +kernel, by decide +kernel, by decide +kernel,
    by decide +kernel⟩

end MoonShot.Query
