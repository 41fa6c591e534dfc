import MoonShot.Reader.Advanced
import MoonShot.Reader.Form
import MoonShot.Reader.Kept

/-!
Trees of readers (`Box<dyn IndexReader>`).

Owns the reader kinds that a query builds, the dispatch of the operations to
them, and the one invariant of all trees, `At`: which documents a tree has not
passed. The operations that move a tree of any depth are lawful for it and keep
its form.

The fuel of a cursor bounds the depth of the tree and the turns of every loop in
it. `At fuel` says that the fuel is enough.
-/

namespace MoonShot.Reader

open MoonShot.Lib
open MoonShot.Postings
open MoonShot.Format

/-- The kinds of readers in a tree. A leaf carries the word and the span it was opened
with, which its score depends on. -/
inductive IndexReader where
  | leaf (word : Str) (wordSpan : UInt32) (reader : AdvancedIndexReader)
  | and (children : List IndexReader)
  | or (reader : OrIndexReader IndexReader)
  | weakAnd (reader : WeakAndIndexReader IndexReader)
  | boost (reader : BoostIndexReader IndexReader)
  | not (base exclude : IndexReader)

namespace IndexReader

mutual

/-- `IsEnd` -/
def isEnd : IndexReader → Bool
  | .leaf _ _ reader => reader.isEnd
  | .and children => children.isEmpty || anyEnd children
  | .or reader => reader.currentDoc = noMoreDocs
  | .weakAnd reader => reader.currentDoc = noMoreDocs
  | .boost reader => reader.currentDoc = noMoreDocs
  | .not base _ => base.isEnd

def anyEnd : List IndexReader → Bool
  | [] => false
  | first :: rest => first.isEnd || anyEnd rest

end

mutual

/-- `GetDocumentID` -/
def docId : IndexReader → UInt64
  | .leaf _ _ reader => reader.getDocumentId
  | .and children => if (IndexReader.and children).isEnd then noMoreDocs else headDocId children
  | .or reader => reader.currentDoc
  | .weakAnd reader => reader.currentDoc
  | .boost reader => reader.currentDoc
  | .not base _ => base.docId

def headDocId : List IndexReader → UInt64
  | [] => noMoreDocs
  | first :: _ => first.docId

end

theorem anyEnd_eq (children : List IndexReader) : anyEnd children = children.any isEnd := by
  induction children with
  | nil => rfl
  | cons first rest inductionHypothesis =>
      rw [anyEnd, List.any_cons, inductionHypothesis]

/-- `GoNext`, the children moved by the given cursor. -/
def moveNext (blocks : BlockSource) (child : Cursor IndexReader UInt64) (fuel : Nat) :
    IndexReader → Option IndexReader
  | .leaf word wordSpan reader => some (.leaf word wordSpan (reader.goNext blocks))
  | .and children => (andGoNext child fuel children).map .and
  | .or reader => (orGoNext child reader).map .or
  | .weakAnd reader => (weakAndGoNext child fuel reader).map .weakAnd
  | .boost reader => (boostGoNext child reader).map .boost
  | .not base exclude =>
      (notGoNext child fuel base exclude).map fun (base, exclude) => .not base exclude

/-- `GoUntil(target, NO_MORE_DOCS)`, the children moved by the given cursor. -/
def moveUntil (blocks : BlockSource) (child : Cursor IndexReader UInt64) (fuel : Nat) :
    IndexReader → UInt64 → Option IndexReader
  | .leaf word wordSpan reader, target =>
      some (.leaf word wordSpan (reader.goUntil blocks target))
  | .and children, target => (andGoUntil child fuel children target).map .and
  | .or reader, target => (orGoUntil child reader target).map .or
  | .weakAnd reader, target => (weakAndGoUntil child fuel reader target).map .weakAnd
  | .boost reader, target => (boostGoUntil child reader target).map .boost
  | .not base exclude, target =>
      (notGoUntil child fuel base exclude target).map fun (base, exclude) => .not base exclude

/-- The operations of a tree. -/
def cursor (blocks : BlockSource) : (fuel : Nat) → Cursor IndexReader UInt64
  | 0 => ⟨isEnd, docId, fun _ => none, fun _ _ => none⟩
  | fuel + 1 =>
      ⟨isEnd, docId, moveNext blocks (cursor blocks fuel) fuel,
        moveUntil blocks (cursor blocks fuel) fuel⟩

@[simp] theorem cursor_isEnd (blocks : BlockSource) (fuel : Nat) :
    (cursor blocks fuel).isEnd = isEnd := by
  cases fuel <;> rfl

@[simp] theorem cursor_docId (blocks : BlockSource) (fuel : Nat) :
    (cursor blocks fuel).docId = docId := by
  cases fuel <;> rfl

/-! ## Term frequencies and sources -/

mutual

/-- `GetTermFreq`; the sums wrap at 32 bits. -/
def termFreq : IndexReader → UInt32
  | .leaf _ _ reader => reader.getTermFreq.toUInt32
  | .and children => (termFreqs children).sum
  | .or ⟨children, _, matching, _⟩ =>
      (matching.map fun index => (termFreqs children).getD index 0).sum
  | .weakAnd ⟨children, _, matching, _, _⟩ =>
      (matching.map fun index => (termFreqs children).getD index 0).sum
  | .boost ⟨base, _, _, currentDoc, _⟩ => if currentDoc = noMoreDocs then 0 else base.termFreq
  | .not base _ => base.termFreq

def termFreqs : List IndexReader → List UInt32
  | [] => []
  | first :: rest => first.termFreq :: termFreqs rest

end

/-- The sources of the children at the given places, or-ed together, and the
children after they were asked. -/
def sourceMasks {σ : Type} (mask : σ → Option (UInt8 × σ)) (places : List Nat)
    (children : List σ) : Option (UInt8 × List σ) :=
  places.foldlM
    (fun (sources, children) place =>
      match children[place]? with
      | none => some (sources, children)
      | some child =>
          (mask child).map fun (source, child) => (sources ||| source, children.set place child))
    (0, children)

/-- `BoostMatchesBase`: the boost reader follows the base when it is asked. -/
def boostMatchesBase {σ : Type} (child : Cursor σ UInt64) (reader : BoostIndexReader σ) :
    Option (Bool × BoostIndexReader σ) :=
  if reader.boostDoc = noMoreDocs ∨ reader.currentDoc = noMoreDocs then some (false, reader)
  else if reader.boostDoc < reader.currentDoc then
    (child.goUntil reader.boost reader.currentDoc).map fun boost =>
      let boostDoc := childDoc child boost
      (boostDoc = reader.currentDoc, { reader with boost := boost, boostDoc := boostDoc })
  else some (reader.boostDoc = reader.currentDoc, reader)

/-- `GetSourceMask` -/
def getSourceMask (blocks : BlockSource) : (fuel : Nat) → IndexReader → Option (UInt8 × IndexReader)
  | 0, _ => none
  | fuel + 1, reader =>
      let mask := getSourceMask blocks fuel
      match reader with
      | .leaf word wordSpan reader => some (reader.sourceMask, .leaf word wordSpan reader)
      | .and children =>
          let doc := (IndexReader.and children).docId
          let places := (List.range children.length).filter fun place =>
            children[place]?.any fun child => !child.isEnd && child.docId = doc
          (sourceMasks mask places children).map fun (sources, children) =>
            (sources, .and children)
      | .or reader =>
          (sourceMasks mask reader.matching reader.children).map fun (sources, children) =>
            (sources, .or { reader with children := children })
      | .weakAnd reader =>
          (sourceMasks mask reader.matching reader.children).map fun (sources, children) =>
            (sources, .weakAnd { reader with children := children })
      | .boost reader =>
          if reader.currentDoc = noMoreDocs then some (0, .boost reader)
          else do
            let (baseMask, base) ← mask reader.base
            let (matched, reader) ← boostMatchesBase (cursor blocks fuel) { reader with base := base }
            if matched then
              let (boostMask, moved) ← mask reader.boost
              some (baseMask ||| boostMask, .boost { reader with boost := moved })
            else some (baseMask, .boost reader)
      | .not base exclude =>
          (mask base).map fun (source, base) => (source, .not base exclude)

theorem isEnd_and (blocks : BlockSource) (fuel : Nat) (children : List IndexReader) :
    (IndexReader.and children).isEnd = andIsEnd (cursor blocks fuel) children := by
  rw [isEnd, andIsEnd, cursor_isEnd, anyEnd_eq]

theorem docId_and (blocks : BlockSource) (fuel : Nat) (children : List IndexReader) :
    (IndexReader.and children).docId = andDocId (cursor blocks fuel) children := by
  unfold andDocId
  rw [docId, isEnd_and blocks fuel]
  cases children with
  | nil => rfl
  | cons first rest =>
      rw [cursor_docId]
      rfl

/-! ## Form -/

mutual

/-- The form of a tree. -/
def form : IndexReader → ReaderForm
  | .leaf word wordSpan _ => .leaf word wordSpan
  | .and children => .and (forms children)
  | .or ⟨children, _, _, _⟩ => .or (forms children)
  | .weakAnd ⟨children, _, _, minShouldMatch, _⟩ => .weakAnd (forms children) minShouldMatch
  | .boost ⟨base, follower, boostWeight, _, _⟩ => .boost base.form follower.form boostWeight
  | .not base exclude => .not base.form exclude.form

def forms : List IndexReader → List ReaderForm
  | [] => []
  | first :: rest => first.form :: forms rest

end

theorem forms_eq (children : List IndexReader) : forms children = children.map form := by
  induction children with
  | nil => rfl
  | cons first rest inductionHypothesis => rw [forms, inductionHypothesis, List.map_cons]

theorem form_and (children : List IndexReader) :
    (IndexReader.and children).form = .and (children.map form) := by
  rw [form, forms_eq]

theorem form_or (reader : OrIndexReader IndexReader) :
    (IndexReader.or reader).form = .or (reader.children.map form) := by
  rw [form, forms_eq]

theorem form_weakAnd (reader : WeakAndIndexReader IndexReader) :
    (IndexReader.weakAnd reader).form =
      .weakAnd (reader.children.map form) reader.minShouldMatch := by
  rw [form, forms_eq]

theorem form_boost (reader : BoostIndexReader IndexReader) :
    (IndexReader.boost reader).form =
      .boost reader.base.form reader.boost.form reader.boostWeight := by
  rw [form]

/-- Every move keeps the form. -/
theorem cursor_keeps (blocks : BlockSource) (fuel : Nat) : (cursor blocks fuel).Keeps form := by
  induction fuel with
  | zero => exact ⟨nofun, nofun⟩
  | succ fuel inductionHypothesis =>
      constructor
      · intro reader next ran
        cases reader with
        | leaf word wordSpan reader =>
            obtain rfl := Option.some.inj ran
            rfl
        | and children =>
            obtain ⟨moved, movedEq, rfl⟩ := Option.map_eq_some_iff.mp ran
            rw [form_and, form_and, andGoNext_kept inductionHypothesis movedEq]
        | or reader =>
            obtain ⟨moved, movedEq, rfl⟩ := Option.map_eq_some_iff.mp ran
            rw [form_or, form_or, orGoNext_kept inductionHypothesis movedEq]
        | weakAnd reader =>
            obtain ⟨moved, movedEq, rfl⟩ := Option.map_eq_some_iff.mp ran
            obtain ⟨kept, same⟩ := weakAndGoNext_kept inductionHypothesis movedEq
            rw [form_weakAnd, form_weakAnd, kept, same]
        | boost reader =>
            obtain ⟨moved, movedEq, rfl⟩ := Option.map_eq_some_iff.mp ran
            obtain ⟨same, kept⟩ := boostGoNext_kept inductionHypothesis movedEq
            rw [form_boost, form_boost, kept, same]
        | not base exclude =>
            obtain ⟨⟨moved, movedExclude⟩, movedEq, rfl⟩ := Option.map_eq_some_iff.mp ran
            obtain ⟨kept, keptExclude⟩ := notGoNext_kept inductionHypothesis movedEq
            rw [form, form, kept, keptExclude]
      · intro reader next target ran
        cases reader with
        | leaf word wordSpan reader =>
            obtain rfl := Option.some.inj ran
            rfl
        | and children =>
            obtain ⟨moved, movedEq, rfl⟩ := Option.map_eq_some_iff.mp ran
            rw [form_and, form_and, andGoUntil_kept inductionHypothesis movedEq]
        | or reader =>
            obtain ⟨moved, movedEq, rfl⟩ := Option.map_eq_some_iff.mp ran
            rw [form_or, form_or, orGoUntil_kept inductionHypothesis movedEq]
        | weakAnd reader =>
            obtain ⟨moved, movedEq, rfl⟩ := Option.map_eq_some_iff.mp ran
            obtain ⟨kept, same⟩ := weakAndGoUntil_kept inductionHypothesis movedEq
            rw [form_weakAnd, form_weakAnd, kept, same]
        | boost reader =>
            obtain ⟨moved, movedEq, rfl⟩ := Option.map_eq_some_iff.mp ran
            obtain ⟨same, kept⟩ := boostGoUntil_kept inductionHypothesis movedEq
            rw [form_boost, form_boost, kept, same]
        | not base exclude =>
            obtain ⟨⟨moved, movedExclude⟩, movedEq, rfl⟩ := Option.map_eq_some_iff.mp ran
            obtain ⟨kept, keptExclude⟩ := notGoUntil_kept inductionHypothesis movedEq
            rw [form, form, kept, keptExclude]

/-! ## Leaves -/

section Leaf

variable {blocks : BlockSource}

def idsOf (postings : List Posting) : Finset UInt64 := (postings.map Posting.docId).toFinset

/-- What is left of a leaf reader. -/
structure LeafAt (blocks : BlockSource) (reader : AdvancedIndexReader) (docs : Finset UInt64)
    (postings : List Posting) : Prop where
  stands : AdvancedIndexReader.ReaderAt blocks reader postings
  ascending : AscendingIds postings
  bound : ∀ posting ∈ postings, posting.docId < noMoreDocs
  docs : docs = idsOf postings

theorem mem_idsOf {postings : List Posting} {doc : UInt64} :
    doc ∈ idsOf postings ↔ ∃ posting ∈ postings, posting.docId = doc := by
  simp [idsOf]

theorem idsOf_eq_empty_iff {postings : List Posting} : idsOf postings = ∅ ↔ postings = [] := by
  simp [idsOf]

theorem firstOf_idsOf_cons {posting : Posting} {rest : List Posting}
    (ascending : AscendingIds (posting :: rest)) :
    firstOf noMoreDocs (idsOf (posting :: rest)) = posting.docId := by
  apply firstOf_eq_of_isLeast
  refine ⟨mem_idsOf.mpr ⟨posting, List.mem_cons_self, rfl⟩, ?_⟩
  intro doc member
  obtain ⟨other, listed, rfl⟩ := mem_idsOf.mp member
  rcases List.mem_cons.mp listed with rfl | later
  · exact le_rfl
  · exact ((List.pairwise_cons.mp ascending).1 other later).le

theorem LeafAt.goNext {reader : AdvancedIndexReader} {docs : Finset UInt64}
    {postings : List Posting} (leaf : LeafAt blocks reader docs postings) :
    LeafAt blocks (reader.goNext blocks) (docs.erase (firstOf noMoreDocs docs)) postings.tail := by
  refine ⟨AdvancedIndexReader.goNext_spec leaf.stands, leaf.ascending.tail,
    fun posting member => leaf.bound posting (List.mem_of_mem_tail member), ?_⟩
  rw [leaf.docs]
  cases postings with
  | nil => rfl
  | cons posting rest =>
      rw [firstOf_idsOf_cons leaf.ascending, List.tail_cons]
      have absent : posting.docId ∉ idsOf rest := by
        intro member
        obtain ⟨other, listed, same⟩ := mem_idsOf.mp member
        exact ((List.pairwise_cons.mp leaf.ascending).1 other listed).ne same.symm
      unfold idsOf at absent ⊢
      rw [List.map_cons, List.toFinset_cons, Finset.erase_insert absent]

theorem LeafAt.goUntil {reader : AdvancedIndexReader} {docs : Finset UInt64}
    {postings : List Posting} (leaf : LeafAt blocks reader docs postings) (target : UInt64) :
    LeafAt blocks (reader.goUntil blocks target) (docs.filter (target ≤ ·))
      (postings.dropWhile fun posting => posting.docId < target) := by
  refine ⟨AdvancedIndexReader.goUntil_spec leaf.stands leaf.ascending target,
    leaf.ascending.sublist (List.dropWhile_sublist _),
    fun posting member => leaf.bound posting ((List.dropWhile_sublist _).subset member), ?_⟩
  rw [leaf.docs]
  have ascending := leaf.ascending
  clear leaf
  induction postings with
  | nil => rfl
  | cons posting rest inductionHypothesis =>
      by_cases below : posting.docId < target
      · rw [List.dropWhile_cons_of_pos (by simpa using below),
          ← inductionHypothesis ascending.tail]
        unfold idsOf
        rw [List.map_cons, List.toFinset_cons, Finset.filter_insert, if_neg (not_le.mpr below)]
      · rw [List.dropWhile_cons_of_neg (by simpa using below)]
        apply Finset.filter_true_of_mem
        intro doc member
        have first : firstOf noMoreDocs (idsOf (posting :: rest)) ≤ doc := firstOf_le member
        rw [firstOf_idsOf_cons ascending] at first
        exact le_trans (not_lt.mp below) first

theorem LeafAt.isEnd_iff {reader : AdvancedIndexReader} {docs : Finset UInt64}
    {postings : List Posting} (leaf : LeafAt blocks reader docs postings) :
    reader.isEnd = true ↔ docs = ∅ := by
  rw [leaf.stands.isEnd_iff, leaf.docs, idsOf_eq_empty_iff]

theorem LeafAt.docId_eq {reader : AdvancedIndexReader} {docs : Finset UInt64}
    {postings : List Posting} (leaf : LeafAt blocks reader docs postings)
    (nonempty : docs.Nonempty) : reader.getDocumentId = firstOf noMoreDocs docs := by
  cases postings with
  | nil => exact absurd (leaf.docs.trans rfl) nonempty.ne_empty
  | cons posting rest => rw [leaf.stands.head.1, leaf.docs, firstOf_idsOf_cons leaf.ascending]

end Leaf

/-- What is left of a leaf are the last postings of its word. -/
structure LeafOf (postings : Str → List Posting) (word : Str) (reader : AdvancedIndexReader)
    (left : List Posting) : Prop where
  suffix : left <:+ postings word
  sourceMask : reader.sourceMask = readerSourceMask word

/-! ## Trees -/

/-- The documents of the postings of a word. -/
def wordDocs (postings : Str → List Posting) (word : Str) : Finset UInt64 := idsOf (postings word)

/-- The documents of the form of a tree. -/
def formDocs (postings : Str → List Posting) (reader : IndexReader) : Finset UInt64 :=
  reader.form.docs (wordDocs postings)

/-- The children have passed the same documents. -/
def PassedAlike (postings : Str → List Posting) (children : List IndexReader)
    (sets : List (Finset UInt64)) : Prop :=
  ∃ keep, sets = keepIn keep (children.map (formDocs postings))

/-- The documents that a tree has not passed; the fuel is enough for its depth
and for every loop in it. -/
def At (blocks : BlockSource) (postings : Str → List Posting) :
    (fuel : Nat) → IndexReader → Finset UInt64 → Prop
  | 0 => fun _ _ => False
  | fuel + 1 => fun reader docs =>
      let left := At blocks postings fuel
      match reader with
      | .leaf word _ reader =>
          ∃ ahead, LeafAt blocks reader docs ahead ∧ LeafOf postings word reader ahead
      | .and children => AndAt left fuel children docs
      | .or reader =>
          ∃ sets, OrAt left reader docs sets ∧ PassedAlike postings reader.children sets
      | .weakAnd reader =>
          ∃ sets, WeakAndAt left fuel reader docs sets ∧ PassedAlike postings reader.children sets
      | .boost reader =>
          BoostAt left reader docs ∧ BoostFollows left (formDocs postings reader.boost) reader docs
      | .not base exclude => NotAt left fuel base exclude docs

section Trees

variable {blocks : BlockSource} {postings : Str → List Posting} {fuel : Nat}

theorem map_formDocs (postings : Str → List Posting) (readers : List IndexReader) :
    readers.map (formDocs postings) = (readers.map form).map (ReaderForm.docs (wordDocs postings)) :=
  List.map_map.symm

theorem formDocs_kept {children moved : List IndexReader}
    (kept : moved.map form = children.map form) :
    moved.map (formDocs postings) = children.map (formDocs postings) := by
  rw [map_formDocs, map_formDocs, kept]

theorem formDocs_and (postings : Str → List Posting) (children : List IndexReader) :
    formDocs postings (.and children) = interAll (children.map (formDocs postings)) := by
  rw [formDocs, form_and, ReaderForm.docs, ReaderForm.docsOfAll_eq, map_formDocs]

theorem formDocs_or (postings : Str → List Posting) (reader : OrIndexReader IndexReader) :
    formDocs postings (.or reader) = unionAll (reader.children.map (formDocs postings)) := by
  rw [formDocs, form_or, ReaderForm.docs, ReaderForm.docsOfAll_eq, map_formDocs]

theorem formDocs_weakAnd (postings : Str → List Posting)
    (reader : WeakAndIndexReader IndexReader) :
    formDocs postings (.weakAnd reader) =
      atLeast reader.minShouldMatch (reader.children.map (formDocs postings)) := by
  rw [formDocs, form_weakAnd, ReaderForm.docs, ReaderForm.docsOfAll_eq, map_formDocs]

theorem formDocs_boost (postings : Str → List Posting) (reader : BoostIndexReader IndexReader) :
    formDocs postings (.boost reader) = formDocs postings reader.base := by
  rw [formDocs, form_boost, ReaderForm.docs]
  rfl

theorem formDocs_not (postings : Str → List Posting) (base exclude : IndexReader) :
    formDocs postings (.not base exclude) =
      formDocs postings base \ formDocs postings exclude := by
  rw [formDocs, form, ReaderForm.docs]
  rfl

theorem PassedAlike.moved {children moved : List IndexReader} {sets : List (Finset UInt64)}
    (alike : PassedAlike postings children sets) (kept : moved.map form = children.map form)
    (keep : UInt64 → Bool) : PassedAlike postings moved (keepIn keep sets) := by
  obtain ⟨before, rfl⟩ := alike
  rw [keepIn_keepIn, ← formDocs_kept kept]
  exact ⟨_, rfl⟩

/-- More fuel is enough too. -/
theorem At.succ {reader : IndexReader} {docs : Finset UInt64}
    (stands : At blocks postings fuel reader docs) :
    At blocks postings (fuel + 1) reader docs := by
  induction fuel generalizing reader docs with
  | zero => cases stands
  | succ fuel inductionHypothesis =>
      have lift : ∀ {children : List IndexReader} {sets : List (Finset UInt64)},
          List.Forall₂ (At blocks postings fuel) children sets →
          List.Forall₂ (At blocks postings (fuel + 1)) children sets :=
        fun stands => stands.imp fun _ _ => inductionHypothesis
      cases reader with
      | leaf word wordSpan reader => exact stands
      | and children =>
          obtain ⟨sets, children_, aligned, enough, same⟩ := stands
          exact ⟨sets, lift children_, aligned, by omega, same⟩
      | or reader =>
          obtain ⟨sets, union, alike⟩ := stands
          exact ⟨sets, ⟨lift union.children, union.refreshed, union.docs⟩, alike⟩
      | weakAnd reader =>
          obtain ⟨sets, weak, alike⟩ := stands
          exact ⟨sets, ⟨lift weak.children, weak.cached, weak.positive,
            Nat.lt_succ_of_lt weak.enough, weak.docs, weak.current, weak.aligned⟩, alike⟩
      | boost reader =>
          obtain ⟨boosted, floor, atBoost, boostDoc, below⟩ := stands
          exact ⟨⟨inductionHypothesis boosted.base, boosted.current⟩, floor,
            inductionHypothesis atBoost, boostDoc, below⟩
      | not base exclude =>
          obtain ⟨baseDocs, excludeDocs, atBase, atExclude, enough, same, clear⟩ := stands
          exact ⟨baseDocs, excludeDocs, inductionHypothesis atBase, inductionHypothesis atExclude,
            by omega, same, clear⟩

/-- The laws at one more unit of fuel, from the laws of the children. -/
private theorem lawful_step
    (children : (cursor blocks fuel).Lawful noMoreDocs (At blocks postings fuel)) :
    (cursor blocks (fuel + 1)).Lawful noMoreDocs (At blocks postings (fuel + 1)) where
  bound := by
    intro reader docs stands
    cases reader with
    | leaf word wordSpan reader =>
        obtain ⟨ahead, leaf, _⟩ := stands
        intro doc member
        rw [leaf.docs] at member
        obtain ⟨posting, listed, rfl⟩ := mem_idsOf.mp member
        exact leaf.bound posting listed
    | and readers => exact andAt_bound children stands
    | or reader =>
        obtain ⟨sets, union, _⟩ := stands
        exact orAt_bound children union
    | weakAnd reader =>
        obtain ⟨sets, weak, _⟩ := stands
        exact weakAndAt_bound children weak
    | boost reader => exact children.bound stands.1.base
    | not base exclude =>
        obtain ⟨baseDocs, excludeDocs, atBase, _, _, rfl, _⟩ := stands
        intro doc member
        exact children.bound atBase doc (Finset.mem_sdiff.mp member).1
  isEnd := by
    intro reader docs stands
    show reader.isEnd = true ↔ docs = ∅
    cases reader with
    | leaf word wordSpan reader =>
        obtain ⟨ahead, leaf, _⟩ := stands
        exact leaf.isEnd_iff
    | and readers =>
        rw [isEnd_and blocks fuel]
        exact andAt_isEnd children stands
    | or reader =>
        obtain ⟨sets, union, _⟩ := stands
        rw [isEnd, decide_eq_true_eq]
        exact orAt_ended children union
    | weakAnd reader =>
        obtain ⟨sets, weak, _⟩ := stands
        rw [isEnd, decide_eq_true_eq]
        exact weakAndAt_ended children weak
    | boost reader =>
        rw [isEnd, decide_eq_true_eq, stands.1.current]
        exact firstOf_eq_limit_iff (children.bound stands.1.base)
    | not base exclude =>
        obtain ⟨baseDocs, _, atBase, _, _, _, empty, _⟩ := NotAt.first_base stands
        have ended := children.isEnd atBase
        rw [cursor_isEnd] at ended
        rw [isEnd, ended, empty]
  docId := by
    intro reader docs stands nonempty
    show reader.docId = _
    cases reader with
    | leaf word wordSpan reader =>
        obtain ⟨ahead, leaf, _⟩ := stands
        exact leaf.docId_eq nonempty
    | and readers =>
        rw [docId_and blocks fuel]
        exact andAt_docId children stands nonempty
    | or reader =>
        obtain ⟨sets, union, _⟩ := stands
        exact orAt_current children union
    | weakAnd reader =>
        obtain ⟨sets, weak, _⟩ := stands
        exact weakAndAt_current children weak
    | boost reader => exact stands.1.current
    | not base exclude =>
        obtain ⟨baseDocs, _, atBase, _, _, _, empty, first⟩ := NotAt.first_base stands
        have here := children.docId atBase
          (Finset.nonempty_of_ne_empty (mt empty.mpr nonempty.ne_empty))
        rw [cursor_docId] at here
        rw [docId, here, first]
  goNext := by
    intro reader docs stands
    show ∃ next, moveNext blocks (cursor blocks fuel) fuel reader = some next ∧ _
    have keeps := cursor_keeps blocks fuel
    cases reader with
    | leaf word wordSpan reader =>
        obtain ⟨ahead, leaf, listed⟩ := stands
        exact ⟨_, rfl, ahead.tail, leaf.goNext, ahead.tail_suffix.trans listed.suffix,
          (AdvancedIndexReader.goNext_sourceMask reader).trans listed.sourceMask⟩
    | and readers =>
        obtain ⟨next, nextEq, nextStands⟩ := andGoNext_spec children stands
        exact ⟨.and next, by rw [moveNext, nextEq]; rfl, nextStands⟩
    | or reader =>
        obtain ⟨sets, union, alike⟩ := stands
        obtain ⟨next, keep, nextEq, nextUnion⟩ := orGoNext_spec children union
        exact ⟨.or next, by rw [moveNext, nextEq]; rfl, _, nextUnion,
          alike.moved (orGoNext_kept keeps nextEq) keep⟩
    | weakAnd reader =>
        obtain ⟨sets, weak, alike⟩ := stands
        obtain ⟨next, keep, nextEq, nextWeak⟩ := weakAndGoNext_spec children weak
        exact ⟨.weakAnd next, by rw [moveNext, nextEq]; rfl, _, nextWeak,
          alike.moved (weakAndGoNext_kept keeps nextEq).1 keep⟩
    | boost reader =>
        obtain ⟨boosted, follows⟩ := stands
        obtain ⟨next, nextEq, nextBoosted⟩ := boostGoNext_spec children boosted
        refine ⟨.boost next, by rw [moveNext, nextEq]; rfl, nextBoosted, ?_⟩
        rw [(boostGoNext_kept keeps nextEq).1]
        exact follows.subset (Finset.erase_subset _ _)
    | not base exclude =>
        obtain ⟨next, nextExclude, nextEq, nextStands⟩ := notGoNext_spec children stands
        exact ⟨.not next nextExclude, by rw [moveNext, nextEq]; rfl, nextStands⟩
  goUntil := by
    intro reader docs target stands
    show ∃ next, moveUntil blocks (cursor blocks fuel) fuel reader target = some next ∧ _
    have keeps := cursor_keeps blocks fuel
    cases reader with
    | leaf word wordSpan reader =>
        obtain ⟨ahead, leaf, listed⟩ := stands
        exact ⟨_, rfl, _, leaf.goUntil target, (List.dropWhile_suffix _).trans listed.suffix,
          (AdvancedIndexReader.goUntil_sourceMask reader target).trans listed.sourceMask⟩
    | and readers =>
        obtain ⟨next, nextEq, nextStands⟩ := andGoUntil_spec children stands target
        exact ⟨.and next, by rw [moveUntil, nextEq]; rfl, nextStands⟩
    | or reader =>
        obtain ⟨sets, union, alike⟩ := stands
        obtain ⟨next, keep, nextEq, nextUnion⟩ := orGoUntil_spec children union target
        exact ⟨.or next, by rw [moveUntil, nextEq]; rfl, _, nextUnion,
          alike.moved (orGoUntil_kept keeps nextEq) keep⟩
    | weakAnd reader =>
        obtain ⟨sets, weak, alike⟩ := stands
        obtain ⟨next, keep, nextEq, nextWeak⟩ := weakAndGoUntil_spec children weak target
        exact ⟨.weakAnd next, by rw [moveUntil, nextEq]; rfl, _, nextWeak,
          alike.moved (weakAndGoUntil_kept keeps nextEq).1 keep⟩
    | boost reader =>
        obtain ⟨boosted, follows⟩ := stands
        obtain ⟨next, nextEq, nextBoosted⟩ := boostGoUntil_spec children boosted target
        refine ⟨.boost next, by rw [moveUntil, nextEq]; rfl, nextBoosted, ?_⟩
        rw [(boostGoUntil_kept keeps nextEq).1]
        exact follows.subset (Finset.filter_subset _ _)
    | not base exclude =>
        obtain ⟨next, nextExclude, nextEq, nextStands⟩ := notGoUntil_spec children stands target
        exact ⟨.not next nextExclude, by rw [moveUntil, nextEq]; rfl, nextStands⟩

/-- The operations of a tree are those of a cursor over what it has left. -/
theorem cursor_lawful (blocks : BlockSource) (postings : Str → List Posting) (fuel : Nat) :
    (cursor blocks fuel).Lawful noMoreDocs (At blocks postings fuel) := by
  induction fuel with
  | zero =>
      exact ⟨fun stands => False.elim stands, fun stands => False.elim stands,
        fun stands => False.elim stands, fun stands => False.elim stands,
        fun _ stands => False.elim stands⟩
  | succ fuel inductionHypothesis => exact lawful_step inductionHypothesis

end Trees

end IndexReader

end MoonShot.Reader
