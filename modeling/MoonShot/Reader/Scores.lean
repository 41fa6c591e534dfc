import MoonShot.Reader.Tree

/-!
Scores and sources read off a tree of readers (`GetScore`, `GetSourceMask`).

Owns the score of a tree with abstract leaf scores, and the proof that reading a
tree leaves it where it stands and gives the value of its form on the document it
stands on. Only a boost moves a reader while it is read.
-/

namespace MoonShot.Reader

open MoonShot.Lib
open MoonShot.Postings
open MoonShot.Format

namespace IndexReader

/-! ## Reading the children -/

section Gather

variable {σ M : Type}

/-- The values of the children at the given places, added up, and the children after
they were read. -/
def gather (read : σ → Option (M × σ)) (add : M → M → M) (zero : M) (places : List Nat)
    (children : List σ) : Option (M × List σ) :=
  places.foldlM
    (fun (total, children) place =>
      match children[place]? with
      | none => some (total, children)
      | some child =>
          (read child).map fun (value, child) => (add total value, children.set place child))
    (zero, children)

theorem gather_cons (read : σ → Option (M × σ)) (add : M → M → M) (zero : M) {place : Nat}
    (rest : List Nat) {children : List σ} {child next : σ} {value : M}
    (found : children[place]? = some child) (readEq : read child = some (value, next)) :
    gather read add zero (place :: rest) children =
      gather read add (add zero value) rest (children.set place next) := by
  unfold gather
  rw [List.foldlM_cons]
  simp only [found, readEq, Option.map_some, Option.bind_eq_bind, Option.bind_some]

theorem gather_none (read : σ → Option (M × σ)) (add : M → M → M) (zero : M) {place : Nat}
    (rest : List Nat) {children : List σ} (absent : children[place]? = none) :
    gather read add zero (place :: rest) children = gather read add zero rest children := by
  unfold gather
  rw [List.foldlM_cons]
  simp only [absent, Option.bind_eq_bind, Option.bind_some]

end Gather

/-! ## Scores -/

/-- How readers are scored. A leaf's score depends on the word and the span it was
opened with, the frequency it stands on and the entry of the document. -/
structure Scoring (ε α : Type) where
  leaf : Str → UInt32 → UInt32 → ε → α
  weight : F32 → α

section Score

variable {ε α : Type} [AddCommMonoid α]

/-- The sum of the scores of the children at the given places. -/
def sumScores {σ : Type} (score : σ → Option (α × σ)) (places : List Nat) (children : List σ) :
    Option (α × List σ) :=
  gather score (· + ·) 0 places children

/-- `GetScore` -/
def getScore (scoring : Scoring ε α) (blocks : BlockSource) (entry : ε) :
    (fuel : Nat) → IndexReader → Option (α × IndexReader)
  | 0, _ => none
  | fuel + 1, reader =>
      let score := getScore scoring blocks entry fuel
      match reader with
      | .leaf word wordSpan reader =>
          some (scoring.leaf word wordSpan reader.getTermFreq.toUInt32 entry,
            .leaf word wordSpan reader)
      | .and children =>
          (sumScores score (List.range children.length) children).map fun (total, children) =>
            (total, .and children)
      | .or reader =>
          (sumScores score reader.matching reader.children).map fun (total, children) =>
            (total, .or { reader with children := children })
      | .weakAnd reader =>
          (sumScores score reader.matching reader.children).map fun (total, children) =>
            (total, .weakAnd { reader with children := children })
      | .boost reader =>
          if reader.currentDoc = noMoreDocs then some (0, .boost reader)
          else do
            let (baseScore, base) ← score reader.base
            let (matched, reader) ← boostMatchesBase (cursor blocks fuel) { reader with base := base }
            some (baseScore + if matched then scoring.weight reader.boostWeight else 0,
              .boost reader)
      | .not base exclude =>
          (score base).map fun (score, base) => (score, .not base exclude)

end Score

/-! ## What a read gives -/

/-- The frequency of a document in a list; zero when it is not there. -/
def termFreqIn (postings : List Posting) (doc : UInt64) : UInt8 :=
  ((postings.find? fun posting => posting.docId = doc).map Posting.tf8).getD 0

/-- The values of a read of scores. -/
def scores {ε α : Type} [AddCommMonoid α] (scoring : Scoring ε α) (postings : Str → List Posting)
    (entry : ε) : Valuation α where
  zero := 0
  add := (· + ·)
  leaf word wordSpan doc :=
    scoring.leaf word wordSpan (termFreqIn (postings word) doc).toUInt32 entry
  boosted boostWeight _ := scoring.weight boostWeight
  zero_add := zero_add
  add_zero := add_zero

/-- The values of a read of sources. -/
def sources : Valuation UInt8 where
  zero := 0
  add := (· ||| ·)
  leaf word _ _ := readerSourceMask word
  boosted _ mask := mask
  zero_add _ := UInt8.zero_or
  add_zero _ := UInt8.or_zero

section Reads

variable {M : Type} {blocks : BlockSource} {postings : Str → List Posting} {fuel : Nat}
    {valuation : Valuation M}

/-- A read succeeds, leaves the reader where it stands, and on a document gives the
value of its form there. -/
def Reads (blocks : BlockSource) (postings : Str → List Posting) (valuation : Valuation M)
    (fuel : Nat) (read : IndexReader → Option (M × IndexReader)) (reader : IndexReader)
    (docs : Finset UInt64) : Prop :=
  ∃ value next, read reader = some (value, next) ∧ At blocks postings fuel next docs ∧
    next.form = reader.form ∧
    (docs.Nonempty → value =
      reader.form.value (wordDocs postings) valuation (firstOf noMoreDocs docs))

/-- Every reader that stands somewhere is read so. -/
def ReadsAll (blocks : BlockSource) (postings : Str → List Posting) (valuation : Valuation M)
    (fuel : Nat) (read : IndexReader → Option (M × IndexReader)) : Prop :=
  ∀ reader docs, At blocks postings fuel reader docs →
    Reads blocks postings valuation fuel read reader docs

theorem find?_head {posting : Posting} {before rest : List Posting}
    (ascending : AscendingIds (before ++ posting :: rest)) :
    (before ++ posting :: rest).find? (fun other => other.docId = posting.docId) =
      some posting := by
  have earlier : before.find? (fun other => other.docId = posting.docId) = none := by
    rw [List.find?_eq_none]
    intro other member
    rw [decide_eq_true_eq]
    exact ((List.pairwise_append.mp ascending).2.2 other member posting List.mem_cons_self).ne
  rw [List.find?_append, earlier, List.find?_cons_of_pos (by simp)]
  rfl

/-- A leaf on a document stands on the frequency of its word there. -/
theorem leaf_termFreq {reader : AdvancedIndexReader} {docs : Finset UInt64} {word : Str}
    {left : List Posting} (leaf : LeafAt blocks reader docs left)
    (listed : LeafOf postings word reader left) (ascending : AscendingIds (postings word))
    (nonempty : docs.Nonempty) :
    reader.getTermFreq = termFreqIn (postings word) (firstOf noMoreDocs docs) := by
  cases left with
  | nil => exact absurd (leaf.docs.trans rfl) nonempty.ne_empty
  | cons posting rest =>
      obtain ⟨before, split⟩ := listed.suffix
      rw [← split] at ascending
      rw [leaf.stands.head.2, leaf.docs, firstOf_idsOf_cons leaf.ascending, termFreqIn, ← split,
        find?_head ascending]
      rfl

/-! ### Several children -/

theorem range_filterMap_map {α β : Type} (items : List α) (made : α → β) :
    ((List.range items.length).filterMap fun place => (items.map made)[place]?) =
      items.map made := by
  induction items with
  | nil => rfl
  | cons first rest inductionHypothesis =>
      rw [List.length_cons, List.range_succ_eq_map, List.map_cons, List.filterMap_cons,
        List.filterMap_map]
      exact congrArg (made first :: ·) inductionHypothesis

theorem set_getElem?_self {α : Type} {items : List α} {place : Nat} {item : α}
    (found : items[place]? = some item) : items.set place item = items := by
  obtain ⟨inside, rfl⟩ := List.getElem?_eq_some_iff.mp found
  exact List.set_getElem_self inside

theorem gather_spec {read : IndexReader → Option (M × IndexReader)}
    (reads : ReadsAll blocks postings valuation fuel read) {children : List IndexReader}
    {sets : List (Finset UInt64)} (stands : List.Forall₂ (At blocks postings fuel) children sets)
    (places : List Nat) (zero : M) :
    ∃ total next, gather read valuation.add zero places children = some (total, next) ∧
      List.Forall₂ (At blocks postings fuel) next sets ∧
      next.map form = children.map form ∧
      ∀ doc, (∀ place ∈ places, ∀ docs, sets[place]? = some docs →
          docs.Nonempty ∧ firstOf noMoreDocs docs = doc) →
        total = ((places.filterMap fun place => (children.map form)[place]?).map fun form =>
          form.value (wordDocs postings) valuation doc).foldl valuation.add zero := by
  induction places generalizing children zero with
  | nil => exact ⟨zero, children, rfl, stands, rfl, fun _ _ => rfl⟩
  | cons place rest inductionHypothesis =>
      cases found : children[place]? with
      | none =>
          obtain ⟨total, next, gathered, nextStands, kept, valued⟩ :=
            inductionHypothesis stands zero
          refine ⟨total, next, (gather_none _ _ _ rest found).trans gathered, nextStands, kept, ?_⟩
          intro doc on
          rw [valued doc fun place member => on place (List.mem_cons_of_mem _ member),
            List.filterMap_cons, List.getElem?_map, found]
          rfl
      | some child =>
          obtain ⟨docs, docsFound, atChild⟩ := forall₂_at stands.flip found
          obtain ⟨value, next, readEq, nextStands, kept, valued⟩ := reads child docs atChild
          have moved := forall₂_set_both stands nextStands place
          rw [set_getElem?_self docsFound] at moved
          obtain ⟨total, final, gathered, finalStands, finalKept, totalEq⟩ :=
            inductionHypothesis moved (valuation.add zero value)
          have forms : (children.set place next).map form = children.map form := by
            rw [List.map_set, kept]
            apply set_getElem?_self
            rw [List.getElem?_map, found]
            rfl
          rw [forms] at finalKept totalEq
          refine ⟨total, final, (gather_cons _ _ _ rest found readEq).trans gathered, finalStands,
            finalKept, ?_⟩
          intro doc on
          obtain ⟨nonempty, first⟩ := on place List.mem_cons_self docs docsFound
          rw [totalEq doc fun place member => on place (List.mem_cons_of_mem _ member),
            valued nonempty, first, List.filterMap_cons, List.getElem?_map, found]
          rfl

theorem matchingChildren_cons (first : UInt64) (rest : List UInt64) (doc : UInt64) :
    matchingChildren (first :: rest) doc =
      (if first = doc then [0] else []) ++ (matchingChildren rest doc).map Nat.succ := by
  have shifted : ((fun index => decide ((first :: rest)[index]? = some doc)) ∘ Nat.succ) =
      fun index => decide (rest[index]? = some doc) := by
    funext index
    simp
  unfold matchingChildren
  rw [List.length_cons, List.range_succ_eq_map, List.filter_cons, List.filter_map, shifted]
  by_cases same : first = doc
  · simp [same]
  · simp [same]

/-- The matching children are those whose form has the document. -/
theorem filterMap_matchingChildren {lists : Str → Finset UInt64} {forms : List ReaderForm}
    {sets : List (Finset UInt64)} {doc : UInt64}
    (alike : List.Forall₂
      (fun form docs => firstOf noMoreDocs docs = doc ↔ doc ∈ form.docs lists) forms sets) :
    ((matchingChildren (cachedDocs sets) doc).filterMap fun place => forms[place]?) =
      forms.filter fun form => doc ∈ form.docs lists := by
  induction alike with
  | nil => rfl
  | @cons form docs forms sets here _ inductionHypothesis =>
      have others : ((matchingChildren (cachedDocs sets) doc).map Nat.succ).filterMap
          (fun place => (form :: forms)[place]?) = forms.filter fun form => doc ∈ form.docs lists := by
        rw [List.filterMap_map, ← inductionHypothesis]
        rfl
      have cached : cachedDocs (docs :: sets) = firstOf noMoreDocs docs :: cachedDocs sets := rfl
      rw [cached, matchingChildren_cons, List.filterMap_append, others]
      by_cases inside : doc ∈ form.docs lists
      · rw [if_pos (here.mpr inside), List.filter_cons_of_pos (by simpa using inside)]
        rfl
      · rw [if_neg (mt here.mp inside), List.filter_cons_of_neg (by simpa using inside)]
        rfl

/-- On the first document of their union, children that have passed the same documents
stand there when their form has it. -/
theorem PassedAlike.first_iff {children : List IndexReader} {sets : List (Finset UInt64)}
    (alike : PassedAlike postings children sets) {doc : UInt64} (below : doc ≠ noMoreDocs)
    (some_ : ∃ docs ∈ sets, doc ∈ docs) (least : ∀ docs ∈ sets, ∀ other ∈ docs, doc ≤ other) :
    List.Forall₂
      (fun form docs => firstOf noMoreDocs docs = doc ↔ doc ∈ form.docs (wordDocs postings))
      (children.map form) sets := by
  obtain ⟨keep, rfl⟩ := alike
  have kept : keep doc = true := by
    obtain ⟨docs, listed, inside⟩ := some_
    obtain ⟨whole, _, rfl⟩ := List.mem_map.mp listed
    exact (Finset.mem_filter.mp inside).2
  clear some_
  rw [map_formDocs, keepIn, List.map_map] at least ⊢
  rw [List.forall₂_map_right_iff, List.forall₂_same]
  intro form member
  rw [Function.comp_apply]
  constructor
  · intro first
    have inside : doc ∈ (form.docs (wordDocs postings)).filter fun doc => keep doc = true := by
      rw [← first]
      apply firstOf_mem
      rw [Finset.nonempty_iff_ne_empty]
      intro nothing
      rw [nothing, firstOf_empty] at first
      exact below first.symm
    exact (Finset.mem_filter.mp inside).1
  · intro inside
    apply firstOf_eq_of_isLeast
    refine ⟨Finset.mem_coe.mpr (Finset.mem_filter.mpr ⟨inside, kept⟩), ?_⟩
    exact least _ (List.mem_map_of_mem member)

/-- Reading the matching children gives the values of the children that have the
document. -/
theorem gather_matching {read : IndexReader → Option (M × IndexReader)}
    (reads : ReadsAll blocks postings valuation fuel read) {children : List IndexReader}
    {sets : List (Finset UInt64)} (stands : List.Forall₂ (At blocks postings fuel) children sets)
    (alike : PassedAlike postings children sets) (places : List Nat) :
    ∃ total next, gather read valuation.add valuation.zero places children = some (total, next) ∧
      List.Forall₂ (At blocks postings fuel) next sets ∧
      next.map form = children.map form ∧
      ∀ doc, doc ≠ noMoreDocs → (∃ docs ∈ sets, doc ∈ docs) →
        (∀ docs ∈ sets, ∀ other ∈ docs, doc ≤ other) →
        places = matchingChildren (cachedDocs sets) doc →
        total = valuation.total (ReaderForm.matchingValues (wordDocs postings) valuation
          (children.map form) doc) := by
  obtain ⟨total, next, gathered, nextStands, kept, valued⟩ :=
    gather_spec reads stands places valuation.zero
  refine ⟨total, next, gathered, nextStands, kept, ?_⟩
  intro doc below some_ least matching
  have on : ∀ place ∈ places, ∀ docs, sets[place]? = some docs →
      docs.Nonempty ∧ firstOf noMoreDocs docs = doc := by
    intro place member docs found
    rw [matching, mem_matchingChildren] at member
    obtain ⟨other, otherFound, first⟩ := member
    obtain rfl := Option.some.inj (found.symm.trans otherFound)
    refine ⟨?_, first⟩
    rw [Finset.nonempty_iff_ne_empty]
    rintro rfl
    exact below (first.symm.trans (firstOf_empty noMoreDocs))
  rw [valued doc on, matching, filterMap_matchingChildren (alike.first_iff below some_ least),
    ReaderForm.matchingValues_eq]
  rfl

/-! ### The kinds of readers -/

section Kinds

theorem firstOf_from_iff {docs : Finset UInt64} {doc : UInt64} (below : doc ≠ noMoreDocs) :
    firstOf noMoreDocs (docs.filter (doc ≤ ·)) = doc ↔ doc ∈ docs := by
  constructor
  · intro first
    have nonempty : (docs.filter (doc ≤ ·)).Nonempty := by
      rw [Finset.nonempty_iff_ne_empty]
      intro nothing
      rw [nothing, firstOf_empty] at first
      exact below first.symm
    have inside : firstOf noMoreDocs (docs.filter (doc ≤ ·)) ∈ docs.filter (doc ≤ ·) :=
      firstOf_mem nonempty
    rw [first] at inside
    exact (Finset.mem_filter.mp inside).1
  · intro inside
    apply firstOf_eq_of_isLeast
    refine ⟨Finset.mem_coe.mpr (Finset.mem_filter.mpr ⟨inside, le_rfl⟩), ?_⟩
    intro other member
    exact (Finset.mem_filter.mp member).2

variable {read : IndexReader → Option (M × IndexReader)} {docs : Finset UInt64}

theorem and_reads (reads : ReadsAll blocks postings valuation fuel read)
    {children : List IndexReader} (stands : AndAt (At blocks postings fuel) fuel children docs)
    {places : List Nat} (all : docs.Nonempty → places = List.range children.length) :
    ∃ total next, gather read valuation.add valuation.zero places children = some (total, next) ∧
      AndAt (At blocks postings fuel) fuel next docs ∧ next.map form = children.map form ∧
      (docs.Nonempty → total = (IndexReader.and children).form.value (wordDocs postings) valuation
        (firstOf noMoreDocs docs)) := by
  obtain ⟨sets, atChildren, aligned, enough, same⟩ := stands
  obtain ⟨total, next, gathered, nextStands, kept, valued⟩ :=
    gather_spec reads atChildren places valuation.zero
  refine ⟨total, next, gathered, ⟨sets, nextStands, aligned, enough, same⟩, kept, ?_⟩
  intro nonempty
  have least : ∀ set ∈ sets, IsLeast (set : Set UInt64) (firstOf noMoreDocs docs) := by
    rw [same] at nonempty ⊢
    exact aligned.first nonempty
  rw [valued (firstOf noMoreDocs docs) fun place _ set found =>
      ⟨⟨_, (least set (List.mem_of_getElem? found)).1⟩,
        firstOf_eq_of_isLeast (least set (List.mem_of_getElem? found))⟩,
    all nonempty, form_and, ReaderForm.value, ReaderForm.values_eq, range_filterMap_map]
  rfl

theorem or_reads (reads : ReadsAll blocks postings valuation fuel read)
    {reader : OrIndexReader IndexReader} {sets : List (Finset UInt64)}
    (stands : OrAt (At blocks postings fuel) reader docs sets)
    (alike : PassedAlike postings reader.children sets) :
    ∃ total next, gather read valuation.add valuation.zero reader.matching reader.children =
        some (total, next) ∧
      At blocks postings (fuel + 1) (.or { reader with children := next }) docs ∧
      next.map form = reader.children.map form ∧
      (docs.Nonempty → total = (IndexReader.or reader).form.value (wordDocs postings) valuation
        (firstOf noMoreDocs docs)) := by
  have lawful := cursor_lawful blocks postings fuel
  have bound := orAt_bound lawful stands
  have matching := orAt_matching lawful stands
  obtain ⟨total, next, gathered, nextStands, kept, valued⟩ :=
    gather_matching reads stands.children alike reader.matching
  have refreshed : ({ reader with children := next } : OrIndexReader IndexReader) =
      refreshCurrentDoc next (cachedDocs sets) := by
    rw [stands.refreshed]
    rfl
  have passed := alike.moved kept fun _ => true
  rw [keepIn_all] at passed
  refine ⟨total, next, gathered, ⟨sets, ⟨nextStands, refreshed, stands.docs⟩, passed⟩, kept, ?_⟩
  intro nonempty
  have first : firstOf noMoreDocs docs ∈ docs := firstOf_mem nonempty
  rw [form_or, ReaderForm.value]
  apply valued _ (bound _ first).ne
  · exact mem_unionAll.mp (stands.docs.subset first)
  · rw [stands.docs]
    exact firstOf_unionAll_le sets
  · exact matching nonempty

theorem weakAnd_reads (reads : ReadsAll blocks postings valuation fuel read)
    {reader : WeakAndIndexReader IndexReader} {sets : List (Finset UInt64)}
    (stands : WeakAndAt (At blocks postings fuel) fuel reader docs sets)
    (alike : PassedAlike postings reader.children sets) :
    ∃ total next, gather read valuation.add valuation.zero reader.matching reader.children =
        some (total, next) ∧
      At blocks postings (fuel + 1) (.weakAnd { reader with children := next }) docs ∧
      next.map form = reader.children.map form ∧
      (docs.Nonempty → total = (IndexReader.weakAnd reader).form.value (wordDocs postings)
        valuation (firstOf noMoreDocs docs)) := by
  have lawful := cursor_lawful blocks postings fuel
  have current := weakAndAt_current lawful stands
  have ended := weakAndAt_ended lawful stands
  obtain ⟨total, next, gathered, nextStands, kept, valued⟩ :=
    gather_matching reads stands.children alike reader.matching
  have passed := alike.moved kept fun _ => true
  rw [keepIn_all] at passed
  refine ⟨total, next, gathered, ⟨sets, { stands with children := nextStands }, passed⟩, kept, ?_⟩
  intro nonempty
  have open_ := mt ended.mp nonempty.ne_empty
  have first : firstOf noMoreDocs docs ∈ docs := firstOf_mem nonempty
  rw [form_weakAnd, ReaderForm.value, ← current]
  rw [← current, stands.docs, atLeast, Finset.mem_filter] at first
  apply valued _ open_
  · exact mem_unionAll.mp first.1
  · rw [stands.current]
    exact firstOf_unionAll_le sets
  · exact (stands.aligned open_).1

theorem not_reads (reads : ReadsAll blocks postings valuation fuel read)
    {base exclude : IndexReader}
    (stands : NotAt (At blocks postings fuel) fuel base exclude docs) :
    ∃ value next, read base = some (value, next) ∧
      NotAt (At blocks postings fuel) fuel next exclude docs ∧ next.form = base.form ∧
      (docs.Nonempty → value = (IndexReader.not base exclude).form.value (wordDocs postings)
        valuation (firstOf noMoreDocs docs)) := by
  obtain ⟨baseDocs, excludeDocs, atBase, atExclude, enough, same, clear⟩ := stands
  obtain ⟨value, next, readEq, nextStands, kept, valued⟩ := reads base baseDocs atBase
  refine ⟨value, next, readEq,
    ⟨baseDocs, excludeDocs, nextStands, atExclude, enough, same, clear⟩, kept, ?_⟩
  intro nonempty
  have baseNonempty : baseDocs.Nonempty := (same ▸ nonempty).mono Finset.sdiff_subset
  rw [form, ReaderForm.value, valued baseNonempty, same,
    firstOf_sdiff baseNonempty (clear baseNonempty)]

/-- Asked whether its second reader is on the document, a boost moves it there. -/
theorem boostMatchesBase_spec {reader : BoostIndexReader IndexReader}
    (stands : BoostAt (At blocks postings fuel) reader docs) {boostDocs : Finset UInt64}
    (follows : BoostFollows (At blocks postings fuel) boostDocs reader docs) :
    ∃ matched next, boostMatchesBase (cursor blocks fuel) reader = some (matched, next) ∧
      BoostAt (At blocks postings fuel) next docs ∧
      BoostFollows (At blocks postings fuel) boostDocs next docs ∧
      (IndexReader.boost next).form = (IndexReader.boost reader).form ∧
      (matched = true → next.boostDoc = next.currentDoc) ∧
      (docs.Nonempty → (matched = true ↔ firstOf noMoreDocs docs ∈ boostDocs)) := by
  have lawful := cursor_lawful blocks postings fuel
  obtain ⟨floor, atBoost, boostDoc, below⟩ := follows
  have bound := lawful.bound atBoost
  have first : docs.Nonempty → reader.currentDoc ∈ docs := by
    intro nonempty
    rw [stands.current]
    exact firstOf_mem nonempty
  unfold boostMatchesBase
  by_cases ended : reader.boostDoc = noMoreDocs ∨ reader.currentDoc = noMoreDocs
  · rw [if_pos ended]
    refine ⟨false, reader, rfl, stands, ⟨floor, atBoost, boostDoc, below⟩, rfl, nofun, ?_⟩
    intro nonempty
    have here := first nonempty
    rcases ended with boostEnded | baseEnded
    · rw [boostDoc, firstOf_eq_limit_iff bound] at boostEnded
      refine iff_of_false nofun fun inside => ?_
      rw [← stands.current] at inside
      have left : reader.currentDoc ∈ boostDocs.filter (floor ≤ ·) :=
        Finset.mem_filter.mpr ⟨inside, below _ here⟩
      rw [boostEnded] at left
      exact Finset.notMem_empty _ left
    · rw [baseEnded] at here
      exact absurd (lawful.bound stands.base _ here) (lt_irrefl _)
  · rw [if_neg ended]
    have open_ : reader.currentDoc ≠ noMoreDocs := fun same => ended (Or.inr same)
    have nonempty : docs.Nonempty := by
      rw [Finset.nonempty_iff_ne_empty]
      rintro rfl
      exact open_ (stands.current.trans (firstOf_empty _))
    have here := first nonempty
    by_cases behind : reader.boostDoc < reader.currentDoc
    · rw [if_pos behind]
      obtain ⟨boost, moved, atMoved⟩ := lawful.goUntil reader.currentDoc atBoost
      have passed : (boostDocs.filter (floor ≤ ·)).filter (reader.currentDoc ≤ ·) =
          boostDocs.filter (reader.currentDoc ≤ ·) := by
        rw [Finset.filter_filter]
        apply Finset.filter_congr
        intro doc _
        exact and_iff_right_of_imp fun above => le_trans (below _ here) above
      rw [passed] at atMoved
      have movedDoc := childDoc_eq lawful atMoved
      rw [moved]
      refine ⟨_, _, rfl, ⟨stands.base, stands.current⟩,
        ⟨reader.currentDoc, atMoved, movedDoc, ?_⟩, ?_, of_decide_eq_true, fun _ => ?_⟩
      · intro doc member
        rw [stands.current]
        exact firstOf_le member
      · rw [form_boost, form_boost, (cursor_keeps blocks fuel).goUntil moved]
      · rw [decide_eq_true_eq, movedDoc, ← stands.current]
        exact firstOf_from_iff open_
    · rw [if_neg behind]
      refine ⟨_, reader, rfl, stands, ⟨floor, atBoost, boostDoc, below⟩, rfl, of_decide_eq_true,
        fun _ => ?_⟩
      rw [decide_eq_true_eq, ← stands.current]
      have least : ∀ doc ∈ boostDocs.filter (floor ≤ ·), reader.currentDoc ≤ doc := by
        intro doc member
        exact le_trans (not_lt.mp behind) (boostDoc ▸ firstOf_le member)
      constructor
      · intro same
        have inside : reader.boostDoc ∈ boostDocs.filter (floor ≤ ·) := by
          rw [boostDoc]
          apply firstOf_mem
          rw [Finset.nonempty_iff_ne_empty, ne_eq, ← firstOf_eq_limit_iff bound, ← boostDoc]
          exact fun last => ended (Or.inl last)
        rw [same] at inside
        exact (Finset.mem_filter.mp inside).1
      · intro inside
        rw [boostDoc]
        exact firstOf_eq_of_isLeast
          ⟨Finset.mem_coe.mpr (Finset.mem_filter.mpr ⟨inside, below _ here⟩), least⟩

end Kinds

/-! ### Reads of a whole tree -/

/-- The base of a boost was read. -/
theorem boostAt_base {reader : BoostIndexReader IndexReader} {docs : Finset UInt64}
    (stands : BoostAt (At blocks postings fuel) reader docs)
    (follows : BoostFollows (At blocks postings fuel) (formDocs postings reader.boost) reader docs)
    {base : IndexReader} (atBase : At blocks postings fuel base docs) :
    BoostAt (At blocks postings fuel) { reader with base := base } docs ∧
      BoostFollows (At blocks postings fuel) (formDocs postings reader.boost)
        { reader with base := base } docs :=
  ⟨⟨atBase, stands.current⟩, follows⟩

theorem boost_ended {reader : BoostIndexReader IndexReader} {docs : Finset UInt64}
    (stands : BoostAt (At blocks postings fuel) reader docs) :
    reader.currentDoc = noMoreDocs ↔ docs = ∅ := by
  rw [stands.current]
  exact firstOf_eq_limit_iff ((cursor_lawful blocks postings fuel).bound stands.base)

/-- The score of a tree on the document it stands on is the value of its form. -/
theorem getScore_reads {ε α : Type} [AddCommMonoid α] (scoring : Scoring ε α)
    (blocks : BlockSource) {postings : Str → List Posting}
    (ascending : ∀ word, AscendingIds (postings word)) (entry : ε) (fuel : Nat) :
    ReadsAll blocks postings (scores scoring postings entry) fuel
      (getScore scoring blocks entry fuel) := by
  induction fuel with
  | zero => exact fun _ _ stands => False.elim stands
  | succ fuel reads =>
      intro reader docs stands
      cases reader with
      | leaf word wordSpan reader =>
          obtain ⟨ahead, leaf, listed⟩ := stands
          refine ⟨_, _, rfl, ⟨ahead, leaf, listed⟩, rfl, ?_⟩
          intro nonempty
          rw [leaf_termFreq leaf listed (ascending word) nonempty]
          rfl
      | and children =>
          obtain ⟨total, next, gathered, nextStands, kept, valued⟩ :=
            and_reads reads stands fun _ => rfl
          refine ⟨total, .and next, ?_, nextStands, ?_, valued⟩
          · exact congrArg (Option.map fun (total, children) => (total, IndexReader.and children))
              gathered
          · rw [form_and, form_and, kept]
      | or reader =>
          obtain ⟨sets, union, alike⟩ := stands
          obtain ⟨total, next, gathered, nextStands, kept, valued⟩ := or_reads reads union alike
          refine ⟨total, .or { reader with children := next }, ?_, nextStands, ?_, valued⟩
          · exact congrArg (Option.map fun (total, children) =>
              (total, IndexReader.or { reader with children := children })) gathered
          · rw [form_or, form_or, kept]
      | weakAnd reader =>
          obtain ⟨sets, weak, alike⟩ := stands
          obtain ⟨total, next, gathered, nextStands, kept, valued⟩ :=
            weakAnd_reads reads weak alike
          refine ⟨total, .weakAnd { reader with children := next }, ?_, nextStands, ?_, valued⟩
          · exact congrArg (Option.map fun (total, children) =>
              (total, IndexReader.weakAnd { reader with children := children })) gathered
          · rw [form_weakAnd, form_weakAnd, kept]
      | boost reader =>
          obtain ⟨boosted, follows⟩ := stands
          have ended := boost_ended boosted
          unfold Reads getScore
          dsimp only
          by_cases last : reader.currentDoc = noMoreDocs
          · rw [if_pos last]
            refine ⟨0, .boost reader, rfl, ⟨boosted, follows⟩, rfl, ?_⟩
            exact fun nonempty => absurd (ended.mp last) nonempty.ne_empty
          · rw [if_neg last]
            obtain ⟨baseScore, base, baseEq, atBase, baseForm, baseValued⟩ :=
              reads reader.base docs boosted.base
            obtain ⟨baseAt, baseFollows⟩ := boostAt_base boosted follows atBase
            obtain ⟨matched, next, nextEq, nextAt, nextFollows, nextForm, _, matchedIff⟩ :=
              boostMatchesBase_spec baseAt baseFollows
            rw [form_boost, form_boost, baseForm] at nextForm
            obtain ⟨_, sameBoost, sameWeight⟩ := ReaderForm.boost.inj nextForm
            have sameDocs : formDocs postings next.boost = formDocs postings reader.boost :=
              congrArg (ReaderForm.docs (wordDocs postings)) sameBoost
            simp only [baseEq, nextEq, Option.bind_eq_bind, Option.bind_some]
            refine ⟨_, .boost next, rfl, ⟨nextAt, sameDocs ▸ nextFollows⟩, ?_, ?_⟩
            · rw [form_boost, form_boost, nextForm]
            · intro nonempty
              have iff := matchedIff nonempty
              rw [form_boost, ReaderForm.value, baseValued nonempty, sameWeight]
              by_cases inside : firstOf noMoreDocs docs ∈ formDocs postings reader.boost
              · rw [if_pos (iff.mpr inside)]
                exact (if_pos inside).symm
              · rw [if_neg (mt iff.mp inside), add_zero]
                exact (if_neg inside).symm
      | not base exclude =>
          obtain ⟨score, next, readEq, nextStands, kept, valued⟩ := not_reads reads stands
          refine ⟨score, .not next exclude, ?_, nextStands, ?_, valued⟩
          · exact congrArg (Option.map fun (score, base) => (score, IndexReader.not base exclude))
              readEq
          · rw [form, form, kept]

/-- On a document every child of an intersection stands there. -/
theorem and_places {children : List IndexReader} {docs : Finset UInt64}
    (stands : AndAt (At blocks postings fuel) fuel children docs) (nonempty : docs.Nonempty) :
    ((List.range children.length).filter fun place =>
      children[place]?.any fun child =>
        !child.isEnd && child.docId = (IndexReader.and children).docId) =
      List.range children.length := by
  have lawful := cursor_lawful blocks postings fuel
  have here := andAt_docId lawful stands nonempty
  obtain ⟨sets, atChildren, _, _, _, least⟩ := andAt_first stands nonempty
  rw [docId_and blocks fuel, here, List.filter_eq_self]
  intro place member
  have found := List.getElem?_eq_getElem (List.mem_range.mp member)
  obtain ⟨docs, docsFound, atChild⟩ := forall₂_at atChildren.flip found
  have isLeast := least docs (List.mem_of_getElem? docsFound)
  have ended := lawful.isEnd atChild
  have onDoc := lawful.docId atChild ⟨_, isLeast.1⟩
  rw [cursor_isEnd] at ended
  rw [cursor_docId, firstOf_eq_of_isLeast isLeast] at onDoc
  have notEnd := mt ended.mp (Finset.ne_empty_of_mem isLeast.1)
  rw [found, Option.any_some, onDoc]
  simpa using notEnd

/-- The sources of a tree on the document it stands on are the value of its form. -/
theorem getSourceMask_reads (blocks : BlockSource) (postings : Str → List Posting) (fuel : Nat) :
    ReadsAll blocks postings sources fuel (getSourceMask blocks fuel) := by
  induction fuel with
  | zero => exact fun _ _ stands => False.elim stands
  | succ fuel reads =>
      intro reader docs stands
      cases reader with
      | leaf word wordSpan reader =>
          obtain ⟨ahead, leaf, listed⟩ := stands
          exact ⟨_, _, rfl, ⟨ahead, leaf, listed⟩, rfl, fun _ => listed.sourceMask⟩
      | and children =>
          obtain ⟨total, next, gathered, nextStands, kept, valued⟩ :=
            and_reads reads stands (and_places stands)
          refine ⟨total, .and next, ?_, nextStands, ?_, valued⟩
          · exact congrArg (Option.map fun found => (found.1, IndexReader.and found.2)) gathered
          · rw [form_and, form_and, kept]
      | or reader =>
          obtain ⟨sets, union, alike⟩ := stands
          obtain ⟨total, next, gathered, nextStands, kept, valued⟩ := or_reads reads union alike
          refine ⟨total, .or { reader with children := next }, ?_, nextStands, ?_, valued⟩
          · exact congrArg (Option.map fun found =>
              (found.1, IndexReader.or { reader with children := found.2 })) gathered
          · rw [form_or, form_or, kept]
      | weakAnd reader =>
          obtain ⟨sets, weak, alike⟩ := stands
          obtain ⟨total, next, gathered, nextStands, kept, valued⟩ :=
            weakAnd_reads reads weak alike
          refine ⟨total, .weakAnd { reader with children := next }, ?_, nextStands, ?_, valued⟩
          · exact congrArg (Option.map fun found =>
              (found.1, IndexReader.weakAnd { reader with children := found.2 })) gathered
          · rw [form_weakAnd, form_weakAnd, kept]
      | boost reader =>
          obtain ⟨boosted, follows⟩ := stands
          have ended := boost_ended boosted
          unfold Reads getSourceMask
          dsimp only
          by_cases last : reader.currentDoc = noMoreDocs
          · rw [if_pos last]
            refine ⟨0, .boost reader, rfl, ⟨boosted, follows⟩, rfl, ?_⟩
            exact fun nonempty => absurd (ended.mp last) nonempty.ne_empty
          · rw [if_neg last]
            obtain ⟨baseMask, base, baseEq, atBase, baseForm, baseValued⟩ :=
              reads reader.base docs boosted.base
            obtain ⟨baseAt, baseFollows⟩ := boostAt_base boosted follows atBase
            obtain ⟨matched, next, nextEq, nextAt, nextFollows, nextForm, onDoc, matchedIff⟩ :=
              boostMatchesBase_spec baseAt baseFollows
            rw [form_boost, form_boost, baseForm] at nextForm
            obtain ⟨_, sameBoost, _⟩ := ReaderForm.boost.inj nextForm
            simp only [baseEq, nextEq, Option.bind_eq_bind, Option.bind_some]
            cases matched with
            | false =>
                have sameDocs : formDocs postings next.boost = formDocs postings reader.boost :=
                  congrArg (ReaderForm.docs (wordDocs postings)) sameBoost
                refine ⟨_, .boost next, rfl, ⟨nextAt, sameDocs ▸ nextFollows⟩, ?_, ?_⟩
                · rw [form_boost, form_boost, nextForm]
                · intro nonempty
                  have outside : firstOf noMoreDocs docs ∉
                      reader.boost.form.docs (wordDocs postings) :=
                    fun inside => Bool.false_ne_true ((matchedIff nonempty).mpr inside)
                  rw [form_boost, ReaderForm.value, baseValued nonempty, if_neg outside]
            | true =>
                obtain ⟨floor, atBoost, boostDoc, below⟩ := nextFollows
                obtain ⟨boostMask, moved, movedEq, atMoved, movedForm, movedValued⟩ :=
                  reads next.boost _ atBoost
                have first : firstOf noMoreDocs
                    ((formDocs postings reader.boost).filter (floor ≤ ·)) =
                      firstOf noMoreDocs docs := by
                  rw [← boostDoc, onDoc rfl, nextAt.current]
                have boostNonempty :
                    ((formDocs postings reader.boost).filter (floor ≤ ·)).Nonempty := by
                  rw [Finset.nonempty_iff_ne_empty]
                  intro nothing
                  rw [nothing, firstOf_empty, ← boosted.current] at first
                  exact last first.symm
                have sameForm := movedForm.trans sameBoost
                have sameDocs : formDocs postings moved = formDocs postings reader.boost :=
                  congrArg (ReaderForm.docs (wordDocs postings)) sameForm
                simp only [if_true, movedEq, Option.bind_some]
                refine ⟨_, .boost { next with boost := moved }, rfl,
                  ⟨⟨nextAt.base, nextAt.current⟩, ?_⟩, ?_, ?_⟩
                · rw [sameDocs]
                  exact ⟨floor, atMoved, boostDoc, below⟩
                · rw [form_boost, form_boost, sameForm, ← sameBoost, nextForm, sameBoost]
                · intro nonempty
                  have inside : firstOf noMoreDocs docs ∈
                      reader.boost.form.docs (wordDocs postings) := (matchedIff nonempty).mp rfl
                  rw [form_boost, ReaderForm.value, baseValued nonempty, if_pos inside,
                    movedValued boostNonempty, first, sameBoost]
                  rfl
      | not base exclude =>
          obtain ⟨mask, next, readEq, nextStands, kept, valued⟩ := not_reads reads stands
          refine ⟨mask, .not next exclude, ?_, nextStands, ?_, valued⟩
          · exact congrArg (Option.map fun found => (found.1, IndexReader.not found.2 exclude)) readEq
          · rw [form, form, kept]

end Reads

end IndexReader

end MoonShot.Reader
