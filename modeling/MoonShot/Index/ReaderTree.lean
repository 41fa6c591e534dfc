import MoonShot.Index.QueryTree

/-!
What the readers that `BuildIndexReader` returns walk.

Owns the proof that a new reader of any tree has the documents and the values of its
node, and the theorem that the reader stands on the first document of the denotation
that the calls so far have not passed.

A reader for nothing is opened under the empty key, so an index must not have
a list under it.
-/

namespace MoonShot.Index

open MoonShot.Lib
open MoonShot.Postings
open MoonShot.Format
open MoonShot.Table
open MoonShot.Serializer
open MoonShot.Reader

/-! ## New readers -/

/-- A new reader of a node: it has passed nothing, and its form denotes the node. -/
structure Fresh (blocks : BlockSource) (postings : Str → List Posting) (meaning : Meaning)
    (fuel : Nat) (reader : IndexReader) (node : EvalNode) : Prop where
  stands : IndexReader.At blocks postings fuel reader (meaning.docsOf node)
  docs : reader.formDocs postings = meaning.docsOf node
  value : ∀ {M : Type} (valuation : Valuation M), ∀ doc ∈ meaning.docsOf node,
    reader.form.value (IndexReader.wordDocs postings) valuation doc =
      meaning.valueOf valuation node doc

section Fresh

variable {blocks : BlockSource} {postings : Str → List Posting} {meaning : Meaning} {fuel : Nat}
    {reader : IndexReader} {readers : List IndexReader} {node : EvalNode} {nodes : List EvalNode}

theorem Fresh.succ (fresh : Fresh blocks postings meaning fuel reader node) :
    Fresh blocks postings meaning (fuel + 1) reader node :=
  ⟨fresh.stands.succ, fresh.docs, fresh.value⟩

/-- A reader without documents is a new reader of a node without documents. -/
theorem fresh_nothing (stands : IndexReader.At blocks postings fuel reader ∅)
    (docs : reader.formDocs postings = ∅) (nothing : meaning.docsOf node = ∅) :
    Fresh blocks postings meaning fuel reader node := by
  refine ⟨?_, docs.trans nothing.symm, ?_⟩
  · rw [nothing]
    exact stands
  · intro M valuation doc member
    rw [nothing] at member
    cases member

/-- A new reader of a node is one of every node that denotes the same. -/
theorem Fresh.congr {other : EvalNode} (fresh : Fresh blocks postings meaning fuel reader node)
    (docs : meaning.docsOf other = meaning.docsOf node)
    (value : ∀ {M : Type} (valuation : Valuation M), ∀ doc ∈ meaning.docsOf node,
      meaning.valueOf valuation other doc = meaning.valueOf valuation node doc) :
    Fresh blocks postings meaning fuel reader other := by
  refine ⟨docs ▸ fresh.stands, fresh.docs.trans docs.symm, ?_⟩
  intro M valuation doc member
  rw [docs] at member
  rw [fresh.value valuation doc member, value valuation doc member]

theorem fresh_stands (fresh : List.Forall₂ (Fresh blocks postings meaning fuel) readers nodes) :
    List.Forall₂ (IndexReader.At blocks postings fuel) readers (nodes.map meaning.docsOf) :=
  List.forall₂_map_right_iff.mpr (fresh.imp fun _ _ here => here.stands)

theorem fresh_docs (fresh : List.Forall₂ (Fresh blocks postings meaning fuel) readers nodes) :
    readers.map (IndexReader.formDocs postings) = nodes.map meaning.docsOf := by
  induction fresh with
  | nil => rfl
  | cons first _ inductionHypothesis =>
      rw [List.map_cons, List.map_cons, first.docs, inductionHypothesis]

/-- A pass over new readers starts from no document passed. -/
theorem fresh_passedAlike
    (fresh : List.Forall₂ (Fresh blocks postings meaning fuel) readers nodes) :
    IndexReader.PassedAlike postings readers (nodes.map meaning.docsOf) :=
  ⟨fun _ => true, by rw [keepIn_all, fresh_docs fresh]⟩

section Values

variable {M : Type} (valuation : Valuation M) {doc : UInt64}

theorem fresh_values (fresh : List.Forall₂ (Fresh blocks postings meaning fuel) readers nodes)
    (all : ∀ node ∈ nodes, doc ∈ meaning.docsOf node) :
    ReaderForm.values (IndexReader.wordDocs postings) valuation
        (readers.map IndexReader.form) doc =
      nodes.map fun node => meaning.valueOf valuation node doc := by
  induction fresh with
  | nil => rfl
  | cons first _ inductionHypothesis =>
      rw [List.map_cons, List.map_cons, ReaderForm.values,
        first.value valuation doc (all _ List.mem_cons_self),
        inductionHypothesis fun node member => all node (List.mem_cons_of_mem _ member)]

theorem fresh_matchingValues
    (fresh : List.Forall₂ (Fresh blocks postings meaning fuel) readers nodes) :
    ReaderForm.matchingValues (IndexReader.wordDocs postings) valuation
        (readers.map IndexReader.form) doc =
      meaning.valuesAt valuation nodes doc := by
  induction fresh with
  | nil => rfl
  | @cons reader node readers nodes first _ inductionHypothesis =>
      have docs : reader.form.docs (IndexReader.wordDocs postings) = meaning.docsOf node :=
        first.docs
      rw [List.map_cons, ReaderForm.matchingValues, docs, Meaning.valuesAt_cons,
        inductionHypothesis]
      by_cases inside : doc ∈ meaning.docsOf node
      · rw [if_pos inside, if_pos inside, first.value valuation doc inside]
        rfl
      · rw [if_neg inside, if_neg inside]
        rfl

end Values

/-- Dropping the readers at their end drops the nodes without documents. -/
theorem filter_notEnd (fresh : List.Forall₂ (Fresh blocks postings meaning fuel) readers nodes) :
    List.Forall₂ (Fresh blocks postings meaning fuel)
      (readers.filter fun reader => !reader.isEnd)
      (nodes.filter fun node => meaning.docsOf node ≠ ∅) := by
  have lawful := IndexReader.cursor_lawful blocks postings fuel
  induction fresh with
  | nil => exact .nil
  | @cons reader node readers rest first _ inductionHypothesis =>
      have ended := lawful.isEnd first.stands
      rw [IndexReader.cursor_isEnd] at ended
      by_cases empty : meaning.docsOf node = ∅
      · rw [List.filter_cons_of_neg (by simpa using ended.mpr empty),
          List.filter_cons_of_neg (by simpa using empty)]
        exact inductionHypothesis
      · rw [List.filter_cons_of_pos (by simpa using mt ended.mp empty),
          List.filter_cons_of_pos (by simpa using empty)]
        exact .cons first inductionHypothesis

theorem any_isEnd_iff {sets : List (Finset UInt64)}
    (stands : List.Forall₂ (IndexReader.At blocks postings fuel) readers sets) :
    readers.any IndexReader.isEnd = true ↔ ∅ ∈ sets := by
  have ended := isEnd_iff_mem (IndexReader.cursor_lawful blocks postings fuel) stands
  rwa [IndexReader.cursor_isEnd] at ended

end Fresh

theorem unionAll_filter (sets : List (Finset UInt64)) :
    unionAll (sets.filter fun docs => docs ≠ ∅) = unionAll sets := by
  ext doc
  rw [mem_unionAll, mem_unionAll]
  constructor
  · rintro ⟨docs, member, inside⟩
    exact ⟨docs, (List.mem_filter.mp member).1, inside⟩
  · rintro ⟨docs, member, inside⟩
    refine ⟨docs, List.mem_filter.mpr ⟨member, ?_⟩, inside⟩
    simpa using Finset.ne_empty_of_mem inside

/-! ## The builder meets the denotation -/

/-- Every key opens on its postings, and the table counts them. -/
structure Reads (context : QueryContext) (postings : Str → List Posting) : Prop where
  opens : ∀ key, ∃ reader,
    AdvancedIndexReader.openReader context.table key context.numDocuments true = some reader ∧
      IndexReader.LeafAt context.table.indexBlocks reader (IndexReader.wordDocs postings key)
        (postings key)
  docFreq : ∀ key, context.docFreqOf key = (IndexReader.wordDocs postings key).card
  nothing : IndexReader.wordDocs postings .empty = ∅

def QueryContext.meaning (context : QueryContext) (lists : Str → Finset UInt64) : Meaning :=
  ⟨lists, context.documentCount.toNat, context.mode⟩

/-- A new reader in a context. -/
abbrev QueryContext.FreshReader (context : QueryContext) (postings : Str → List Posting) :
    Nat → IndexReader → EvalNode → Prop :=
  Fresh context.table.indexBlocks postings (context.meaning (IndexReader.wordDocs postings))

section Build

variable {context : QueryContext} {postings : Str → List Posting}

/-- With enough fuel a new reader of the node is built. -/
def Builds (context : QueryContext) (postings : Str → List Posting) (node : EvalNode) : Prop :=
  ∃ enough, ∀ fuel, enough ≤ fuel → ∃ reader,
    context.buildIndexReader fuel node = some reader ∧
      context.FreshReader postings fuel reader node

theorem Reads.openAt (reads : Reads context postings) (key : Str) (wordSpan : UInt32)
    (fuel : Nat) :
    ∃ reader, context.openAdvancedReader key wordSpan = some reader ∧
      context.FreshReader postings (fuel + 1) reader (.term key wordSpan) := by
  obtain ⟨reader, opened, leaf⟩ := reads.opens key
  refine ⟨.leaf key wordSpan reader, by rw [QueryContext.openAdvancedReader, opened]; rfl, ?_⟩
  refine ⟨⟨postings key, leaf, List.suffix_refl _, ?_⟩, rfl, fun _ _ _ => rfl⟩
  exact AdvancedIndexReader.openReader_sourceMask opened

/-- The reader for nothing. -/
theorem Reads.openNothing (reads : Reads context postings) {node : EvalNode}
    (nothing : (context.meaning (IndexReader.wordDocs postings)).docsOf node = ∅) (fuel : Nat) :
    ∃ reader, context.openAdvancedReader .empty 1 = some reader ∧
      context.FreshReader postings (fuel + 1) reader node := by
  obtain ⟨reader, opened, fresh⟩ := reads.openAt .empty 1 fuel
  have empty : (context.meaning (IndexReader.wordDocs postings)).docsOf (.term .empty 1) = ∅ :=
    reads.nothing
  refine ⟨reader, opened, fresh_nothing ?_ (fresh.docs.trans empty) nothing⟩
  rw [← empty]
  exact fresh.stands

theorem builds_all {nodes : List EvalNode}
    (each : ∀ node ∈ nodes, Builds context postings node) :
    ∃ enough, ∀ fuel, enough ≤ fuel → ∃ readers,
      nodes.mapM (context.buildIndexReader fuel) = some readers ∧
        List.Forall₂ (context.FreshReader postings fuel) readers nodes := by
  induction nodes with
  | nil => exact ⟨0, fun fuel _ => ⟨[], rfl, .nil⟩⟩
  | cons node rest inductionHypothesis =>
      obtain ⟨enough, builds⟩ := each node List.mem_cons_self
      obtain ⟨enoughRest, buildsRest⟩ :=
        inductionHypothesis fun node member => each node (List.mem_cons_of_mem _ member)
      refine ⟨max enough enoughRest, ?_⟩
      intro fuel bounded
      obtain ⟨reader, built, fresh⟩ := builds fuel (by omega)
      obtain ⟨readers, builtRest, freshRest⟩ := buildsRest fuel (by omega)
      exact ⟨reader :: readers, by simp [built, builtRest], .cons fresh freshRest⟩

theorem Reads.builds_term (reads : Reads context postings) (key : Str) (wordSpan : UInt32) :
    Builds context postings (.term key wordSpan) := by
  refine ⟨1, ?_⟩
  intro fuel positive
  obtain ⟨fuel, rfl⟩ := Nat.exists_eq_succ_of_ne_zero (by omega : fuel ≠ 0)
  exact reads.openAt key wordSpan fuel

theorem Reads.builds_and (reads : Reads context postings) {children : List EvalNode}
    (each : ∀ node ∈ children, Builds context postings node) :
    Builds context postings (.and children) := by
  let meaning := context.meaning (IndexReader.wordDocs postings)
  have denoted : meaning.docsOf (.and children) = interAll (children.map meaning.docsOf) := by
    rw [Meaning.docsOf, Meaning.denotations_eq]
  obtain ⟨enough, all⟩ := builds_all each
  refine ⟨max enough (totalOf (children.map meaning.docsOf) + 1) + 1, ?_⟩
  intro fuel bounded
  obtain ⟨fuel, rfl⟩ := Nat.exists_eq_succ_of_ne_zero (by omega : fuel ≠ 0)
  obtain ⟨readers, mapped, fresh⟩ := all fuel (by omega)
  have stands := fresh_stands fresh
  have ended := any_isEnd_iff stands
  simp only [QueryContext.buildIndexReader, mapped, Option.bind_eq_bind, Option.bind_some]
  by_cases someEnded : readers.any IndexReader.isEnd = true
  · rw [if_pos someEnded]
    refine reads.openNothing ?_ fuel
    refine denoted.trans (Finset.eq_empty_of_forall_notMem fun doc member => ?_)
    exact Finset.notMem_empty doc ((mem_interAll.mp member).2 ∅ (ended.mp someEnded))
  · rw [if_neg someEnded]
    split
    · rename_i single
      -- One child is its own intersection.
      cases fresh with
      | @cons _ node _ _ first rest =>
          cases rest
          refine ⟨single, rfl, first.succ.congr (denoted.trans ?_) ?_⟩
          · exact interAll_singleton _
          · intro M valuation doc _
            rw [Meaning.valueOf, Meaning.valuesOf_eq]
            exact valuation.total_singleton _
    · have fits : totalOf (children.map meaning.docsOf) < fuel := by omega
      obtain ⟨aligned, alignedEq, alignedStands⟩ := andAt_new
        (IndexReader.cursor_lawful context.table.indexBlocks postings fuel) stands fits
      have kept := alignToPivot_kept (IndexReader.cursor_keeps _ fuel) alignedEq
      rw [alignedEq]
      refine ⟨.and aligned, rfl, ?_, ?_, ?_⟩
      · rw [denoted]
        exact alignedStands
      · rw [IndexReader.formDocs_and, IndexReader.formDocs_kept kept, fresh_docs fresh, denoted]
      · intro M valuation doc member
        rw [denoted, mem_interAll, List.forall_mem_map] at member
        rw [IndexReader.form_and, ReaderForm.value, kept, fresh_values valuation fresh member.2,
          Meaning.valueOf, Meaning.valuesOf_eq]

theorem Reads.builds_or (reads : Reads context postings) {children : List EvalNode}
    (each : ∀ node ∈ children, Builds context postings node) :
    Builds context postings (.or children) := by
  let meaning := context.meaning (IndexReader.wordDocs postings)
  have denoted : meaning.docsOf (.or children) =
      unionAll ((children.filter fun node => meaning.docsOf node ≠ ∅).map meaning.docsOf) := by
    rw [Meaning.docsOf, Meaning.denotations_eq, ← unionAll_filter, List.filter_map]
    rfl
  have valued : ∀ {M : Type} (valuation : Valuation M) doc,
      meaning.valueOf valuation (.or children) doc = valuation.total
        (meaning.valuesAt valuation (children.filter fun node => meaning.docsOf node ≠ ∅) doc) := by
    intro M valuation doc
    rw [Meaning.valueOf, Meaning.matchingValuesOf_eq, Meaning.valuesAt_nonempty]
  obtain ⟨enough, all⟩ := builds_all each
  refine ⟨enough + 1, ?_⟩
  intro fuel bounded
  obtain ⟨fuel, rfl⟩ := Nat.exists_eq_succ_of_ne_zero (by omega : fuel ≠ 0)
  obtain ⟨readers, mapped, fresh⟩ := all fuel (by omega)
  simp only [QueryContext.buildIndexReader, mapped, Option.bind_eq_bind, Option.bind_some]
  have kept := filter_notEnd fresh
  generalize (children.filter fun node => meaning.docsOf node ≠ ∅) = nodes at kept denoted valued
  generalize (readers.filter fun reader => !reader.isEnd) = left at kept
  split
  · cases kept
    exact reads.openNothing denoted fuel
  · rename_i single
    cases kept with
    | @cons _ node _ _ first rest =>
        cases rest
        refine ⟨single, rfl, first.succ.congr (denoted.trans ?_) ?_⟩
        · exact unionAll_singleton _
        · intro M valuation doc member
          rw [valued, Meaning.valuesAt_cons, if_pos member]
          exact valuation.total_singleton _
  · have stands := orAt_new
      (IndexReader.cursor_lawful context.table.indexBlocks postings fuel) (fresh_stands kept)
    refine ⟨_, rfl, ?_, ?_, ?_⟩
    · rw [denoted]
      exact ⟨_, stands, fresh_passedAlike kept⟩
    · rw [denoted, ← fresh_docs kept]
      exact IndexReader.formDocs_or postings _
    · intro M valuation doc _
      rw [valued, ← fresh_matchingValues valuation kept, IndexReader.form_or, ReaderForm.value]
      rfl

theorem builds_not {base exclude : EvalNode} (baseBuilds : Builds context postings base)
    (excludeBuilds : Builds context postings exclude) :
    Builds context postings (.not base exclude) := by
  let meaning := context.meaning (IndexReader.wordDocs postings)
  obtain ⟨enough, builds⟩ := baseBuilds
  obtain ⟨enoughExclude, buildsExclude⟩ := excludeBuilds
  refine ⟨max (max enough enoughExclude) ((meaning.docsOf base).card + 1) + 1, ?_⟩
  intro fuel bounded
  obtain ⟨fuel, rfl⟩ := Nat.exists_eq_succ_of_ne_zero (by omega : fuel ≠ 0)
  obtain ⟨reader, built, fresh⟩ := builds fuel (by omega)
  obtain ⟨excluded, builtExclude, freshExclude⟩ := buildsExclude fuel (by omega)
  have fits : (meaning.docsOf base).card < fuel := by omega
  obtain ⟨next, nextExclude, nextEq, nextStands⟩ := skipExcluded_spec
    (IndexReader.cursor_lawful context.table.indexBlocks postings fuel) fresh.stands
    freshExclude.stands fits
  obtain ⟨kept, keptExclude⟩ := skipExcluded_kept (IndexReader.cursor_keeps _ fuel) nextEq
  simp only [QueryContext.buildIndexReader, built, builtExclude, Option.bind_eq_bind,
    Option.bind_some, nextEq]
  refine ⟨.not next nextExclude, rfl, ?_, ?_, ?_⟩
  · rw [Meaning.docsOf]
    exact nextStands
  · rw [Meaning.docsOf, IndexReader.formDocs_not, IndexReader.formDocs, IndexReader.formDocs, kept,
      keptExclude, ← fresh.docs, ← freshExclude.docs]
    rfl
  · intro M valuation doc member
    rw [Meaning.docsOf] at member
    rw [IndexReader.form, ReaderForm.value, kept, Meaning.valueOf]
    exact fresh.value valuation doc (Finset.mem_sdiff.mp member).1

theorem builds_boost {base boost : EvalNode} (boostWeight : F32)
    (baseBuilds : Builds context postings base) (boostBuilds : Builds context postings boost) :
    Builds context postings (.boost base boost boostWeight) := by
  let meaning := context.meaning (IndexReader.wordDocs postings)
  have denoted : meaning.docsOf (.boost base boost boostWeight) = meaning.docsOf base := by
    rw [Meaning.docsOf]
  obtain ⟨enough, builds⟩ := baseBuilds
  obtain ⟨enoughBoost, buildsBoost⟩ := boostBuilds
  refine ⟨max enough enoughBoost + 1, ?_⟩
  intro fuel bounded
  obtain ⟨fuel, rfl⟩ := Nat.exists_eq_succ_of_ne_zero (by omega : fuel ≠ 0)
  obtain ⟨reader, built, fresh⟩ := builds fuel (by omega)
  obtain ⟨boosting, builtBoost, freshBoost⟩ := buildsBoost fuel (by omega)
  have lawful := IndexReader.cursor_lawful context.table.indexBlocks postings fuel
  have ended := lawful.isEnd fresh.stands
  have boostEnded := lawful.isEnd freshBoost.stands
  rw [IndexReader.cursor_isEnd] at ended boostEnded
  simp only [QueryContext.buildIndexReader, built, builtBoost, Option.bind_eq_bind,
    Option.bind_some]
  split
  · rename_i atEnd
    have nothing := ended.mp atEnd
    refine ⟨reader, rfl, fresh.succ.congr denoted ?_⟩
    intro M valuation doc member
    rw [nothing] at member
    cases member
  · split
    · rename_i atEnd
      refine ⟨reader, rfl, fresh.succ.congr denoted ?_⟩
      intro M valuation doc _
      rw [Meaning.valueOf, boostEnded.mp atEnd, if_neg (Finset.notMem_empty doc)]
    · refine ⟨_, rfl, ⟨?_, ?_⟩, ?_, ?_⟩
      · rw [denoted]
        exact ⟨fresh.stands, childDoc_eq lawful fresh.stands⟩
      · have docs : boosting.formDocs postings = meaning.docsOf boost := freshBoost.docs
        have atBoost := freshBoost.stands
        rw [← docs] at atBoost
        exact boostFollows_new lawful atBoost boostWeight _
      · rw [denoted, IndexReader.formDocs_boost]
        exact fresh.docs
      · intro M valuation doc member
        have docs : boosting.form.docs (IndexReader.wordDocs postings) = meaning.docsOf boost :=
          freshBoost.docs
        rw [denoted] at member
        rw [IndexReader.form_boost, ReaderForm.value, Meaning.valueOf]
        show (if doc ∈ boosting.form.docs _ then _ else _) = _
        rw [docs]
        by_cases inside : doc ∈ meaning.docsOf boost
        · rw [if_pos inside, if_pos inside]
          exact congrArg₂ valuation.add (fresh.value valuation doc member)
            (congrArg _ (freshBoost.value valuation doc inside))
        · rw [if_neg inside, if_neg inside]
          exact fresh.value valuation doc member

theorem Reads.flatten_eq (reads : Reads context postings) (allowHighDf : Bool)
    (nodes : List EvalNode) :
    (context.meaning (IndexReader.wordDocs postings)).flatten allowHighDf nodes =
      context.flatten allowHighDf nodes := by
  have counts : context.docFreqOf = fun key => (IndexReader.wordDocs postings key).card :=
    funext reads.docFreq
  rw [Meaning.flatten, QueryContext.flatten, counts]
  rfl

/-- The readers of the children are new readers of the nodes that count. -/
theorem Reads.weakAndReaders_spec (reads : Reads context postings) {children : List EvalNode}
    (each : ∀ node, node ∈ children ∨ (∃ allowHighDf, node ∈ context.flatten allowHighDf children) →
      Builds context postings node) :
    ∃ enough, ∀ fuel, enough ≤ fuel → ∃ readers,
      context.weakAndReaders (context.buildIndexReader fuel) children = some readers ∧
        List.Forall₂ (context.FreshReader postings fuel) readers
          ((context.meaning (IndexReader.wordDocs postings)).weakAndNodes children) := by
  let meaning := context.meaning (IndexReader.wordDocs postings)
  unfold QueryContext.weakAndReaders Meaning.weakAndNodes
  have sameMode : (context.meaning (IndexReader.wordDocs postings)).mode = context.mode := rfl
  rw [sameMode]
  obtain ⟨enough, all⟩ := builds_all fun node member => each node (Or.inl member)
  cases mode : context.mode with
  | orChildren =>
      refine ⟨enough, ?_⟩
      intro fuel bounded
      obtain ⟨readers, mapped, fresh⟩ := all fuel bounded
      exact ⟨readers, by simp [mapped], fresh⟩
  | orChildrenPruned =>
      refine ⟨enough, ?_⟩
      intro fuel bounded
      obtain ⟨readers, mapped, fresh⟩ := all fuel bounded
      exact ⟨readers.filter fun reader => !reader.isEnd, by simp [mapped], filter_notEnd fresh⟩
  | flatPruned =>
      obtain ⟨enoughKept, allKept⟩ :=
        builds_all fun node member => each node (Or.inr ⟨false, member⟩)
      obtain ⟨enoughAll, allAll⟩ :=
        builds_all fun node member => each node (Or.inr ⟨true, member⟩)
      refine ⟨max enoughKept enoughAll, ?_⟩
      intro fuel bounded
      obtain ⟨kept, keptMapped, keptFresh⟩ := allKept fuel (by omega)
      obtain ⟨readers, mapped, fresh⟩ := allAll fuel (by omega)
      have keptLeft := filter_notEnd keptFresh
      dsimp only
      rw [reads.flatten_eq, reads.flatten_eq]
      by_cases none_ : (context.flatten false children).filter
          (fun node => meaning.docsOf node ≠ ∅) = []
      · -- No leaf is left, so the frequent ones are allowed again.
        rw [if_pos none_]
        rw [none_] at keptLeft
        have noReaders : (kept.filter fun reader => !reader.isEnd) = [] := by
          cases found : kept.filter fun reader => !reader.isEnd with
          | nil => rfl
          | cons first rest =>
              rw [found] at keptLeft
              cases keptLeft
        refine ⟨readers.filter fun reader => !reader.isEnd, ?_, filter_notEnd fresh⟩
        simp only [if_true, Option.bind_eq_bind, keptMapped, Option.bind_some, ne_eq, reduceCtorEq,
          not_false_eq_true, noReaders, List.isEmpty_nil, and_self, mapped]
        rfl
      · rw [if_neg none_]
        have someReaders : (kept.filter fun reader => !reader.isEnd) ≠ [] := by
          intro nothing
          rw [nothing] at keptLeft
          exact none_ (List.forall₂_nil_left_iff.mp keptLeft)
        refine ⟨kept.filter fun reader => !reader.isEnd, ?_, keptLeft⟩
        simp only [if_true, Option.bind_eq_bind, keptMapped, Option.bind_some, ne_eq, reduceCtorEq,
          not_false_eq_true, List.isEmpty_iff, someReaders, false_and, if_false]
        rfl

theorem weakAnd_singleton (mode : WeakAndBuildMode) (minShouldMatch : UInt32)
    (docs : Finset UInt64) : Meaning.weakAnd mode minShouldMatch [docs] = docs := by
  have one : max 1 (QueryContext.weakAndMinShouldMatch mode minShouldMatch 1) = 1 := by
    unfold QueryContext.weakAndMinShouldMatch
    split
    · rfl
    · omega
  unfold Meaning.weakAnd
  ext doc
  rw [List.length_singleton, one, mem_atLeast Nat.one_pos, List.countP_singleton]
  by_cases inside : doc ∈ docs <;> simp [inside]

theorem Reads.builds_weakAnd (reads : Reads context postings) {children : List EvalNode}
    (minShouldMatch : UInt32)
    (each : ∀ node, node ∈ children ∨ (∃ allowHighDf, node ∈ context.flatten allowHighDf children) →
      Builds context postings node) :
    Builds context postings (.weakAnd children minShouldMatch) := by
  let meaning := context.meaning (IndexReader.wordDocs postings)
  have denoted : meaning.docsOf (.weakAnd children minShouldMatch) =
      Meaning.weakAnd context.mode minShouldMatch
        ((meaning.weakAndNodes children).map meaning.docsOf) := by
    rw [Meaning.docsOf_weakAnd, Meaning.weakAndSets_eq]
    rfl
  have valued : ∀ {M : Type} (valuation : Valuation M) doc,
      meaning.valueOf valuation (.weakAnd children minShouldMatch) doc =
        valuation.total (meaning.valuesAt valuation (meaning.weakAndNodes children) doc) :=
    fun valuation doc => meaning.valueOf_weakAnd valuation children minShouldMatch doc
  obtain ⟨enough, all⟩ := reads.weakAndReaders_spec each
  refine ⟨max enough (totalOf ((meaning.weakAndNodes children).map meaning.docsOf) + 1) + 1, ?_⟩
  intro fuel bounded
  obtain ⟨fuel, rfl⟩ := Nat.exists_eq_succ_of_ne_zero (by omega : fuel ≠ 0)
  obtain ⟨readers, mapped, fresh⟩ := all fuel (by omega)
  have fits : totalOf ((meaning.weakAndNodes children).map meaning.docsOf) < fuel := by omega
  have lawful := IndexReader.cursor_lawful context.table.indexBlocks postings fuel
  simp only [QueryContext.buildIndexReader, mapped, Option.bind_eq_bind, Option.bind_some]
  change List.Forall₂ _ _ (meaning.weakAndNodes children) at fresh
  generalize meaning.weakAndNodes children = nodes at fresh fits denoted valued
  split
  · cases fresh
    exact reads.openNothing denoted fuel
  · rename_i single
    cases fresh with
    | @cons _ node _ _ first rest =>
        cases rest
        refine ⟨single, rfl, first.succ.congr (denoted.trans (weakAnd_singleton _ _ _)) ?_⟩
        intro M valuation doc member
        rw [valued, Meaning.valuesAt_cons, if_pos member]
        exact valuation.total_singleton _
  · have stands := fresh_stands fresh
    have count : readers.length = (nodes.map meaning.docsOf).length := stands.length_eq
    unfold newWeakAnd
    rw [childDocs_eq lawful stands, count, Nat.max_comm]
    obtain ⟨reader, keep, readerEq, readerStands⟩ := alignToMatch_spec lawful
      (lt_of_lt_of_le Nat.one_pos (Nat.le_max_left 1
        (QueryContext.weakAndMinShouldMatch context.mode minShouldMatch
          (nodes.map meaning.docsOf).length))) stands fits
    obtain ⟨kept, threshold⟩ := alignToMatch_kept (IndexReader.cursor_keeps _ fuel) readerEq
    rw [readerEq]
    refine ⟨.weakAnd reader, rfl, ?_, ?_, ?_⟩
    · rw [denoted]
      exact ⟨_, readerStands, (fresh_passedAlike fresh).moved kept keep⟩
    · rw [denoted, IndexReader.formDocs_weakAnd, IndexReader.formDocs_kept kept, fresh_docs fresh,
        threshold]
      rfl
    · intro M valuation doc _
      rw [valued, ← fresh_matchingValues valuation fresh, IndexReader.form_weakAnd,
        ReaderForm.value, kept]

/-- Every node is built: by recursion on the node, where the nodes that
`FlatPruned` builds are parts of the children. -/
theorem Reads.builds (reads : Reads context postings) (node : EvalNode) :
    Builds context postings node :=
  match node with
  | .term key wordSpan => reads.builds_term key wordSpan
  | .and children => reads.builds_and fun node _ => reads.builds node
  | .or children => reads.builds_or fun node _ => reads.builds node
  | .weakAnd children minShouldMatch => by
      apply reads.builds_weakAnd minShouldMatch
      intro node member
      have smaller : sizeOf node < sizeOf children := by
        rcases member with child | ⟨allowHighDf, flattened⟩
        · exact List.sizeOf_lt_of_mem child
        · exact sizeOf_flatten flattened
      exact reads.builds node
  | .not base exclude => builds_not (reads.builds base) (reads.builds exclude)
  | .boost base boost boostWeight =>
      builds_boost boostWeight (reads.builds base) (reads.builds boost)
termination_by sizeOf node
decreasing_by
  · have := List.sizeOf_lt_of_mem (by assumption : node ∈ children)
    simp only [EvalNode.and.sizeOf_spec]
    omega
  · have := List.sizeOf_lt_of_mem (by assumption : node ∈ children)
    simp only [EvalNode.or.sizeOf_spec]
    omega
  · simp only [EvalNode.weakAnd.sizeOf_spec]
    omega
  · simp only [EvalNode.not.sizeOf_spec]
    omega
  · simp only [EvalNode.not.sizeOf_spec]
    omega
  · simp only [EvalNode.boost.sizeOf_spec]
    omega
  · simp only [EvalNode.boost.sizeOf_spec]
    omega

end Build

/-! ## Calls on the reader -/

/-- A call on a reader, `GoUntil` with the limit `NO_MORE_DOCS`. -/
inductive Call where
  | goNext
  | goUntil (target : UInt64)

namespace Call

def run (blocks : BlockSource) (fuel : Nat) (reader : IndexReader) : Call → Option IndexReader
  | .goNext => (IndexReader.cursor blocks fuel).goNext reader
  | .goUntil target => (IndexReader.cursor blocks fuel).goUntil reader target

def runAll (blocks : BlockSource) (fuel : Nat) (reader : IndexReader) (calls : List Call) :
    Option IndexReader :=
  calls.foldlM (run blocks fuel) reader

/-- The documents a call leaves: `GoNext` passes the first one, `GoUntil` those
below its target. -/
def leaves (docs : Finset UInt64) : Call → Finset UInt64
  | .goNext => docs.erase (firstOf noMoreDocs docs)
  | .goUntil target => docs.filter (target ≤ ·)

theorem runAll_spec {blocks : BlockSource} {postings : Str → List Posting} {fuel : Nat}
    {reader : IndexReader} {docs : Finset UInt64}
    (stands : IndexReader.At blocks postings fuel reader docs) (calls : List Call) :
    ∃ moved, runAll blocks fuel reader calls = some moved ∧
      IndexReader.At blocks postings fuel moved (calls.foldl leaves docs) := by
  have lawful := IndexReader.cursor_lawful blocks postings fuel
  induction calls generalizing reader docs with
  | nil => exact ⟨reader, rfl, stands⟩
  | cons call rest inductionHypothesis =>
      have step : ∃ next, call.run blocks fuel reader = some next ∧
          IndexReader.At blocks postings fuel next (call.leaves docs) := by
        cases call with
        | goNext => exact lawful.goNext stands
        | goUntil target => exact lawful.goUntil target stands
      obtain ⟨next, moved, nextStands⟩ := step
      obtain ⟨final, finalEq, finalStands⟩ := inductionHypothesis nextStands
      refine ⟨final, ?_, finalStands⟩
      unfold runAll at finalEq ⊢
      rw [List.foldlM_cons, moved]
      exact finalEq

end Call

/-- The reader stands on the least of the documents, and is at its end exactly
when there is none. -/
def Positioned (reader : IndexReader) (docs : Finset UInt64) : Prop :=
  (reader.isEnd = true ↔ docs = ∅) ∧ ∀ doc, IsLeast (docs : Set UInt64) doc → reader.docId = doc

theorem positioned_of_at {blocks : BlockSource} {postings : Str → List Posting} {fuel : Nat}
    {reader : IndexReader} {docs : Finset UInt64}
    (stands : IndexReader.At blocks postings fuel reader docs) : Positioned reader docs := by
  have lawful := IndexReader.cursor_lawful blocks postings fuel
  have ended := lawful.isEnd stands
  rw [IndexReader.cursor_isEnd] at ended
  refine ⟨ended, ?_⟩
  intro doc least
  have here := lawful.docId stands ⟨doc, least.1⟩
  rw [IndexReader.cursor_docId] at here
  rw [here]
  exact firstOf_eq_of_isLeast least

/-- A reader that is built stands, after any calls, on the least document of the
denotation that they have not passed. -/
theorem Builds.positioned {context : QueryContext} {postings : Str → List Posting}
    {node : EvalNode} (builds : Builds context postings node) :
    ∃ enough, ∀ fuel, enough ≤ fuel → ∃ reader,
      context.buildIndexReader fuel node = some reader ∧
        ∀ calls, ∃ moved, Call.runAll context.table.indexBlocks fuel reader calls = some moved ∧
          Positioned moved (calls.foldl Call.leaves
            ((context.meaning (IndexReader.wordDocs postings)).docsOf node)) := by
  obtain ⟨enough, built⟩ := builds
  refine ⟨enough, ?_⟩
  intro fuel bounded
  obtain ⟨reader, readerEq, fresh⟩ := built fuel bounded
  refine ⟨reader, readerEq, ?_⟩
  intro calls
  obtain ⟨moved, movedEq, movedStands⟩ := Call.runAll_spec fresh.stands calls
  exact ⟨moved, movedEq, positioned_of_at movedStands⟩

/-! ## Trees over a built index -/

/-- The list a key denotes in the index built from the store. -/
def builtPostings (float : FloatOps) (store : PostingStore) (key : Str) : List Posting :=
  keptPostings float store key.beforeNul

/-- The documents of the list a key denotes in the index built from the store. -/
def builtLists (float : FloatOps) (store : PostingStore) (key : Str) : Finset UInt64 :=
  IndexReader.idsOf (keptPostings float store key.beforeNul)

/-- A store whose index query trees can read. -/
structure Queryable (float : FloatOps) (store : PostingStore) : Prop where
  addressable : Addressable float store
  fits : ∀ key, ContinuationsFit float store key
  bound : ∀ key list, store.getPostingList key = some list →
    ∀ entry ∈ list.entries, entry.docId < noMoreDocs
  noEmptyKey : store.getPostingList .empty = none

section Built

variable {float : FloatOps} {store : PostingStore}

theorem keptPostings_bound (queryable : Queryable float store) (key : Str) :
    ∀ posting ∈ keptPostings float store key, posting.docId < noMoreDocs := by
  intro posting member
  unfold keptPostings at member
  split at member
  · split at member
    · rename_i list found
      obtain ⟨entry, listed, rfl⟩ := List.mem_map.mp member
      exact queryable.bound key list found entry listed
    · cases member
  · cases member

theorem card_idsOf {postings : List Posting} (ascending : AscendingIds postings) :
    (IndexReader.idsOf postings).card = postings.length := by
  have nodup : (postings.map Posting.docId).Nodup :=
    List.pairwise_map.mpr (ascending.imp fun below => below.ne)
  rw [IndexReader.idsOf, List.toFinset_card_of_nodup nodup, List.length_map]

theorem reads_built (queryable : Queryable float store) {context : QueryContext}
    (table : context.table = (buildBlocks float store).table)
    (documents : context.numDocuments ≠ 0) : Reads context (builtPostings float store) := by
  refine ⟨?_, ?_, ?_⟩
  · intro key
    obtain ⟨reader, opened, stands⟩ :=
      openReader_built queryable.addressable key (queryable.fits _) documents
    rw [table]
    exact ⟨reader, opened, stands, keptPostings_ascending _, keptPostings_bound queryable _, rfl⟩
  · intro key
    have search := findTermDataHeadLeaf_built queryable.addressable key.beforeNul (queryable.fits _)
    rw [IndexReader.wordDocs, builtPostings, card_idsOf (keptPostings_ascending _),
      QueryContext.docFreqOf, table, findTermData_built]
    cases found : (buildBlocks float store).table.findTermDataHeadLeaf key.beforeNul with
    | none =>
        rw [found] at search
        rw [search]
        rfl
    | some location =>
        rw [found] at search
        obtain ⟨list, _, _, listFound, short, _, docFreq, _⟩ := search
        rw [keptPostings, if_pos short, listFound]
        exact docFreq.trans (list.postings_length float).symm
  · have nothing : keptPostings float store Str.empty = [] := by
      rw [keptPostings, queryable.noEmptyKey]
      split <;> rfl
    show IndexReader.idsOf (keptPostings float store Str.empty.beforeNul) = ∅
    have nulFree : Str.empty.NulFree := fun _ member => absurd member List.not_mem_nil
    rw [Str.beforeNul_of_nulFree nulFree, nothing]
    rfl

end Built

/-- For every tree over a built index: with enough fuel the reader is built, and
after any calls it stands on the least document of the denotation that they have
not passed. -/
theorem reader_tree_semantics (float : FloatOps) (store : PostingStore)
    (queryable : Queryable float store) (context : QueryContext)
    (table : context.table = (buildBlocks float store).table)
    (documents : context.numDocuments ≠ 0) (node : EvalNode) :
    ∃ enough, ∀ fuel, enough ≤ fuel → ∃ reader,
      context.buildIndexReader fuel node = some reader ∧
        ∀ calls, ∃ moved, Call.runAll context.table.indexBlocks fuel reader calls = some moved ∧
          Positioned moved (calls.foldl Call.leaves
            ((context.meaning (builtLists float store)).docsOf node)) :=
  ((reads_built queryable table documents).builds node).positioned

/-- The index of `oneCall`, read in the mode that prunes and flattens. -/
def oneCallContext : QueryContext :=
  ⟨(buildBlocks default (PostingStore.addPostings oneCall)).table, 1, 1, .flatPruned⟩

theorem queryable_oneCall : Queryable default (PostingStore.addPostings oneCall) := by
  have only : ∀ key list, (PostingStore.addPostings oneCall).getPostingList key = some list →
      key = ⟨[0x61, 0x42], rfl⟩ ∧ list = ⟨[⟨1, 1⟩], List.pairwise_singleton _ _⟩ := by
    intro key list found
    have entries : (PostingStore.addPostings oneCall).postings.entries =
        [(⟨[0x61, 0x42], rfl⟩, ⟨[⟨1, 1⟩], List.pairwise_singleton _ _⟩)] := rfl
    have member := (AssocMap.mem_entries_iff _ key list).mpr found
    rw [entries, List.mem_singleton, Prod.mk.injEq] at member
    exact member
  refine ⟨⟨by decide +kernel, by decide +kernel⟩, ?_, ?_, by decide +kernel⟩
  · intro key
    cases found : (PostingStore.addPostings oneCall).getPostingList key with
    | none => simp [ContinuationsFit, placementFor, found]
    | some list =>
        rw [(only key list found).1]
        decide +kernel
  · intro key list found entry member
    rw [(only key list found).2] at member
    rw [List.mem_singleton.mp member]
    decide

/-- Document 1 for `WeakAnd [Or [aB, bB]]` minus `bB`. -/
theorem reader_tree_semantics_oneCall :
    ∃ enough, ∀ fuel, enough ≤ fuel → ∃ reader,
      oneCallContext.buildIndexReader fuel
        (.not (.weakAnd [.or [.term ⟨[0x61, 0x42], rfl⟩, .term ⟨[0x62, 0x42], rfl⟩]] 2)
          (.term ⟨[0x62, 0x42], rfl⟩)) = some reader ∧
      ∀ calls, ∃ moved,
        Call.runAll oneCallContext.table.indexBlocks fuel reader calls = some moved ∧
          Positioned moved (calls.foldl Call.leaves
            ((oneCallContext.meaning
              (builtLists default (PostingStore.addPostings oneCall))).docsOf
                (.not (.weakAnd [.or [.term ⟨[0x61, 0x42], rfl⟩, .term ⟨[0x62, 0x42], rfl⟩]] 2)
                  (.term ⟨[0x62, 0x42], rfl⟩)))) :=
  reader_tree_semantics default (PostingStore.addPostings oneCall) queryable_oneCall
    oneCallContext rfl (by decide) _

theorem buildIndexReader_or_nil (context : QueryContext) (fuel : Nat) :
    context.buildIndexReader (fuel + 1) (.or []) = context.openAdvancedReader .empty 1 := rfl

/-- A store with a list under the empty key. -/
def emptyKeyContext : QueryContext :=
  ⟨(buildBlocks default (PostingStore.addPostings [(.empty, 1, 1)])).table, 1, 1, .flatPruned⟩

/-- The union of no nodes is empty, but its reader is opened under the empty key
and stands on the list found there. -/
theorem empty_key_reader_not_at_end :
    (∀ fuel, (emptyKeyContext.buildIndexReader (fuel + 1) (.or [])).map IndexReader.isEnd =
      some false) ∧
    (emptyKeyContext.meaning
      (builtLists default (PostingStore.addPostings [(.empty, 1, 1)]))).docsOf (.or []) = ∅ := by
  have opened : (emptyKeyContext.openAdvancedReader .empty 1).map IndexReader.isEnd = some false := by
    decide +kernel
  constructor
  · intro fuel
    rw [← opened]
    exact congrArg _ (buildIndexReader_or_nil emptyKeyContext fuel)
  · rw [Meaning.docsOf]
    rfl

end MoonShot.Index
