import MoonShot.Reader.Conjunction

/-!
Composite readers with cached child documents: `OrIndexReader` and
`WeakAndIndexReader`.

Owns the caches (`m_ChildDocs`, `m_MatchingChildren`, `m_CurrentDoc`), the loops
that keep them in step with the children, and what is left when the children
are lawful cursors: the union, and the documents that enough children share.
-/

namespace MoonShot.Reader

open MoonShot.Lib

section Readers

variable {σ : Type} (child : Cursor σ UInt64)

/-- Positions of the children that stand on the document. -/
def matchingChildren (childDocs : List UInt64) (doc : UInt64) : List Nat :=
  (List.range childDocs.length).filter fun index => childDocs[index]? = some doc

/-- `iter().min().unwrap_or(NO_MORE_DOCS)` over the cached documents. -/
def minDoc (childDocs : List UInt64) : UInt64 := childDocs.min?.getD noMoreDocs

/-- `GoNext` and `UpdateChildDoc` for each of the given positions. -/
def advanceChildren : List Nat → List σ → List UInt64 → Option (List σ × List UInt64)
  | [], children, childDocs => some (children, childDocs)
  | index :: rest, children, childDocs =>
      match children[index]? with
      | none => none
      | some reader =>
          match child.goNext reader with
          | none => none
          | some next =>
              advanceChildren rest (children.set index next)
                (childDocs.set index (childDoc child next))

/-- `GoUntil` and `UpdateChildDoc` for the children below the target. -/
def skipChildren (target : UInt64) : List σ → List UInt64 → Option (List σ × List UInt64)
  | reader :: children, doc :: childDocs =>
      if doc < target then
        match child.goUntil reader target with
        | none => none
        | some next =>
            (skipChildren target children childDocs).map fun (children, childDocs) =>
              (next :: children, childDoc child next :: childDocs)
      else
        (skipChildren target children childDocs).map fun (children, childDocs) =>
          (reader :: children, doc :: childDocs)
  | children, childDocs => some (children, childDocs)

/-! ## `OrIndexReader` -/

structure OrIndexReader (σ : Type) where
  children : List σ
  childDocs : List UInt64
  matching : List Nat
  currentDoc : UInt64

/-- `OrIndexReader::RefreshCurrentDoc` -/
def refreshCurrentDoc (children : List σ) (childDocs : List UInt64) : OrIndexReader σ :=
  let currentDoc := minDoc childDocs
  { children := children
    childDocs := childDocs
    matching := if currentDoc = noMoreDocs then [] else matchingChildren childDocs currentDoc
    currentDoc := currentDoc }

def newOr (children : List σ) : OrIndexReader σ :=
  refreshCurrentDoc children (children.map (childDoc child))

def orGoNext (reader : OrIndexReader σ) : Option (OrIndexReader σ) :=
  if reader.currentDoc = noMoreDocs then some reader
  else
    (advanceChildren child reader.matching reader.children reader.childDocs).map
      fun (children, childDocs) => refreshCurrentDoc children childDocs

def orGoUntil (reader : OrIndexReader σ) (target : UInt64) : Option (OrIndexReader σ) :=
  (skipChildren child target reader.children reader.childDocs).map
    fun (children, childDocs) => refreshCurrentDoc children childDocs

/-! ## `WeakAndIndexReader` -/

structure WeakAndIndexReader (σ : Type) where
  children : List σ
  childDocs : List UInt64
  matching : List Nat
  minShouldMatch : Nat
  currentDoc : UInt64

/-- `WeakAndIndexReader::AlignToMatch` -/
def alignToMatch (minShouldMatch : Nat) :
    (fuel : Nat) → List σ → List UInt64 → Option (WeakAndIndexReader σ)
  | 0, _, _ => none
  | fuel + 1, children, childDocs =>
      let doc := minDoc childDocs
      if doc = noMoreDocs then some ⟨children, childDocs, [], minShouldMatch, noMoreDocs⟩
      else
        let matching := matchingChildren childDocs doc
        if matching.length ≥ minShouldMatch then
          some ⟨children, childDocs, matching, minShouldMatch, doc⟩
        else
          (advanceChildren child matching children childDocs).bind fun (children, childDocs) =>
            alignToMatch minShouldMatch fuel children childDocs

def newWeakAnd (fuel : Nat) (children : List σ) (minShouldMatch : Nat) :
    Option (WeakAndIndexReader σ) :=
  alignToMatch child (max minShouldMatch 1) fuel children (children.map (childDoc child))

def weakAndGoNext (fuel : Nat) (reader : WeakAndIndexReader σ) : Option (WeakAndIndexReader σ) :=
  if reader.currentDoc = noMoreDocs then some reader
  else
    (advanceChildren child reader.matching reader.children reader.childDocs).bind
      fun (children, childDocs) =>
        alignToMatch child reader.minShouldMatch fuel children childDocs

def weakAndGoUntil (fuel : Nat) (reader : WeakAndIndexReader σ) (target : UInt64) :
    Option (WeakAndIndexReader σ) :=
  (skipChildren child target reader.children reader.childDocs).bind
    fun (children, childDocs) => alignToMatch child reader.minShouldMatch fuel children childDocs

end Readers

/-! ## The caches -/

section Caches

variable {σ : Type} {child : Cursor σ UInt64} {left : σ → Finset UInt64 → Prop}

/-- The cached documents of children with these sets left. -/
def cachedDocs (sets : List (Finset UInt64)) : List UInt64 := sets.map (firstOf noMoreDocs)

theorem childDocs_eq (lawful : child.Lawful noMoreDocs left) {children : List σ}
    {sets : List (Finset UInt64)} (stands : List.Forall₂ left children sets) :
    children.map (childDoc child) = cachedDocs sets := by
  induction stands with
  | nil => rfl
  | cons first _ inductionHypothesis =>
      rw [List.map_cons, childDoc_eq lawful first, inductionHypothesis]
      rfl

theorem mem_matchingChildren {sets : List (Finset UInt64)} {doc : UInt64} {index : Nat} :
    index ∈ matchingChildren (cachedDocs sets) doc ↔
      ∃ docs, sets[index]? = some docs ∧ firstOf noMoreDocs docs = doc := by
  unfold matchingChildren cachedDocs
  rw [List.mem_filter, List.mem_range, List.length_map, decide_eq_true_eq, List.getElem?_map,
    Option.map_eq_some_iff]
  constructor
  · exact fun both => both.2
  · rintro ⟨docs, found, first⟩
    exact ⟨(List.getElem?_eq_some_iff.mp found).1, docs, found, first⟩

theorem minDoc_eq (sets : List (Finset UInt64))
    (bound : ∀ docs ∈ sets, ∀ doc ∈ docs, doc < noMoreDocs) :
    minDoc (cachedDocs sets) = firstOf noMoreDocs (unionAll sets) := by
  unfold minDoc cachedDocs
  cases least : (sets.map (firstOf noMoreDocs)).min? with
  | none =>
      have : sets = [] := by simpa using least
      subst this
      exact (firstOf_empty noMoreDocs).symm
  | some first =>
      obtain ⟨attained, lowest⟩ := List.min?_eq_some_iff.mp least
      obtain ⟨docs, member, rfl⟩ := List.mem_map.mp attained
      symm
      by_cases nonempty : docs.Nonempty
      · apply firstOf_eq_of_isLeast
        refine ⟨mem_unionAll.mpr ⟨docs, member, firstOf_mem nonempty⟩, ?_⟩
        intro doc inside
        obtain ⟨other, otherMember, otherInside⟩ := mem_unionAll.mp inside
        exact le_trans (lowest _ (List.mem_map_of_mem otherMember)) (firstOf_le otherInside)
      · -- The least cached document is the end mark, so every child is at its end.
        have empty := Finset.not_nonempty_iff_eq_empty.mp nonempty
        subst empty
        have nothing : unionAll sets = ∅ := by
          apply Finset.eq_empty_of_forall_notMem
          intro doc inside
          obtain ⟨other, otherMember, otherInside⟩ := mem_unionAll.mp inside
          have low := le_trans (lowest _ (List.mem_map_of_mem otherMember)) (firstOf_le otherInside)
          rw [firstOf_empty] at low
          exact absurd (bound other otherMember doc otherInside) (not_lt.mpr low)
        rw [nothing]
        rfl

theorem matchingChildren_length (childDocs : List UInt64) (doc : UInt64) :
    (matchingChildren childDocs doc).length = childDocs.count doc := by
  unfold matchingChildren
  induction childDocs with
  | nil => rfl
  | cons first rest inductionHypothesis =>
      have shifted : ((fun index => decide ((first :: rest)[index]? = some doc)) ∘ Nat.succ) =
          fun index => decide (rest[index]? = some doc) := by
        funext index
        simp
      rw [List.length_cons, List.range_succ_eq_map, List.filter_cons, List.filter_map, shifted,
        List.count_cons]
      by_cases same : first = doc
      · simp [same, inductionHypothesis]
      · simp [same, inductionHypothesis]

theorem matchingChildren_nodup (childDocs : List UInt64) (doc : UInt64) :
    (matchingChildren childDocs doc).Nodup :=
  List.Nodup.filter _ List.nodup_range

theorem forall₂_set_both {α β : Type} {related : α → β → Prop} {children : List α}
    {sets : List β} (stands : List.Forall₂ related children sets) {reader : α} {docs : β}
    (placed : related reader docs) (index : Nat) :
    List.Forall₂ related (children.set index reader) (sets.set index docs) := by
  induction stands generalizing index with
  | nil => exact .nil
  | cons first others inductionHypothesis =>
      cases index with
      | zero => exact .cons placed others
      | succ index => exact .cons first (inductionHypothesis index)

theorem forall₂_at {α β : Type} {related : α → β → Prop} {children : List α} {sets : List β}
    (stands : List.Forall₂ related children sets) {index : Nat} {docs : β}
    (found : sets[index]? = some docs) : ∃ reader, children[index]? = some reader ∧
      related reader docs := by
  induction stands generalizing index with
  | nil => cases found
  | cons first others inductionHypothesis =>
      cases index with
      | zero =>
          obtain rfl := Option.some.inj found
          exact ⟨_, rfl, first⟩
      | succ index => exact inductionHypothesis found

/-- The children at the positions pass the document they stand on. -/
theorem advanceChildren_at (lawful : child.Lawful noMoreDocs left) {doc : UInt64}
    {indices : List Nat} {children : List σ} {sets : List (Finset UInt64)}
    (stands : List.Forall₂ left children sets) (nodup : indices.Nodup)
    (onDoc : ∀ index ∈ indices, ∃ docs, sets[index]? = some docs ∧
      firstOf noMoreDocs docs = doc) :
    ∃ moved after, advanceChildren child indices children (cachedDocs sets) =
        some (moved, cachedDocs after) ∧
      List.Forall₂ left moved after ∧
      ∀ index, after[index]? =
        if index ∈ indices then sets[index]?.map (·.erase doc) else sets[index]? := by
  induction indices generalizing children sets with
  | nil => exact ⟨children, sets, rfl, stands, by simp⟩
  | cons head rest inductionHypothesis =>
      obtain ⟨docs, found, first⟩ := onDoc head List.mem_cons_self
      obtain ⟨reader, readerFound, atReader⟩ := forall₂_at stands found
      obtain ⟨next, nextEq, atNext⟩ := lawful.goNext atReader
      rw [first] at atNext
      obtain ⟨absent, restNodup⟩ := List.nodup_cons.mp nodup
      have others : ∀ index, index ≠ head →
          (sets.set head (docs.erase doc))[index]? = sets[index]? := by
        intro index different
        exact List.getElem?_set_ne different.symm
      obtain ⟨moved, after, movedEq, movedStands, positions⟩ :=
        inductionHypothesis (forall₂_set_both stands atNext head) restNodup (by
          intro index member
          rw [others index (fun same => absent (same ▸ member))]
          exact onDoc index (List.mem_cons_of_mem _ member))
      refine ⟨moved, after, ?_, movedStands, ?_⟩
      · unfold advanceChildren
        rw [readerFound]
        dsimp only
        rw [nextEq]
        dsimp only
        rw [childDoc_eq lawful atNext]
        have cached : (cachedDocs sets).set head (firstOf noMoreDocs (docs.erase doc)) =
            cachedDocs (sets.set head (docs.erase doc)) := by
          unfold cachedDocs
          rw [List.map_set]
        rw [cached]
        exact movedEq
      · intro index
        rw [positions index]
        by_cases here : index = head
        · subst here
          rw [if_neg absent, if_pos List.mem_cons_self, found,
            List.getElem?_set_self (List.getElem?_eq_some_iff.mp found).1]
          rfl
        · rw [others index here]
          simp [here]

/-- All children that stand on the least cached document pass it; the others
do not have it. -/
theorem advanceChildren_least (lawful : child.Lawful noMoreDocs left) {children : List σ}
    {sets : List (Finset UInt64)} (stands : List.Forall₂ left children sets) (doc : UInt64)
    (least : ∀ docs ∈ sets, ∀ other ∈ docs, doc ≤ other) :
    ∃ moved, advanceChildren child (matchingChildren (cachedDocs sets) doc) children
        (cachedDocs sets) = some (moved, cachedDocs (sets.map (Finset.filter (· ≠ doc)))) ∧
      List.Forall₂ left moved (sets.map (Finset.filter (· ≠ doc))) := by
  obtain ⟨moved, after, movedEq, movedStands, positions⟩ :=
    advanceChildren_at lawful stands (matchingChildren_nodup (cachedDocs sets) doc)
      fun index member => mem_matchingChildren.mp member
  have same : after = sets.map (Finset.filter (· ≠ doc)) := by
    apply List.ext_getElem?
    intro index
    rw [positions index, List.getElem?_map]
    by_cases matching : index ∈ matchingChildren (cachedDocs sets) doc
    · rw [if_pos matching]
      cases sets[index]? with
      | none => rfl
      | some docs => rw [Option.map_some, Option.map_some, Finset.filter_ne']
    · rw [if_neg matching]
      cases found : sets[index]? with
      | none => rfl
      | some docs =>
          have absent : doc ∉ docs := by
            intro inside
            apply matching
            refine mem_matchingChildren.mpr ⟨docs, found, ?_⟩
            apply firstOf_eq_of_isLeast
            exact ⟨inside, fun other member =>
              least docs (List.mem_of_getElem? found) other member⟩
          rw [Option.map_some, Finset.filter_ne', Finset.erase_eq_of_notMem absent]
  rw [same] at movedEq movedStands
  exact ⟨moved, movedEq, movedStands⟩

theorem skipChildren_spec (lawful : child.Lawful noMoreDocs left) {children : List σ}
    {sets : List (Finset UInt64)} (stands : List.Forall₂ left children sets) (target : UInt64) :
    ∃ moved, skipChildren child target children (cachedDocs sets) =
        some (moved, cachedDocs (sets.map (Finset.filter (target ≤ ·)))) ∧
      List.Forall₂ left moved (sets.map (Finset.filter (target ≤ ·))) := by
  induction stands with
  | nil => exact ⟨[], rfl, .nil⟩
  | @cons reader docs readers rest first others inductionHypothesis =>
      obtain ⟨moved, movedEq, movedStands⟩ := inductionHypothesis
      show ∃ moved, skipChildren child target (reader :: readers)
        (firstOf noMoreDocs docs :: cachedDocs rest) = _ ∧ _
      unfold skipChildren
      by_cases below : firstOf noMoreDocs docs < target
      · rw [if_pos below]
        obtain ⟨next, nextEq, atNext⟩ := lawful.goUntil target first
        rw [nextEq]
        dsimp only
        rw [movedEq, childDoc_eq lawful atNext]
        exact ⟨next :: moved, rfl, .cons atNext movedStands⟩
      · rw [if_neg below, movedEq]
        have same : docs.filter (target ≤ ·) = docs := by
          apply Finset.filter_true_of_mem
          intro doc member
          exact le_trans (not_lt.mp below) (firstOf_le member)
        refine ⟨reader :: moved, ?_, ?_⟩
        · show some (reader :: moved, firstOf noMoreDocs docs :: cachedDocs _) =
            some (reader :: moved, firstOf noMoreDocs (docs.filter (target ≤ ·)) :: cachedDocs _)
          rw [same]
        · rw [List.map_cons, same]
          exact .cons first movedStands

end Caches

/-! ## What is left of lawful children -/

section Left

variable {σ : Type} {child : Cursor σ UInt64} {left : σ → Finset UInt64 → Prop}

theorem forall₂_bound (lawful : child.Lawful noMoreDocs left) {children : List σ}
    {sets : List (Finset UInt64)} (stands : List.Forall₂ left children sets) :
    ∀ docs ∈ sets, ∀ doc ∈ docs, doc < noMoreDocs := by
  intro docs member
  obtain ⟨index, found⟩ := List.getElem?_of_mem member
  obtain ⟨reader, _, atReader⟩ := forall₂_at stands found
  exact lawful.bound atReader

theorem unionAll_bound {sets : List (Finset UInt64)}
    (bound : ∀ docs ∈ sets, ∀ doc ∈ docs, doc < noMoreDocs) :
    ∀ doc ∈ unionAll sets, doc < noMoreDocs := by
  intro doc member
  obtain ⟨docs, listed, inside⟩ := mem_unionAll.mp member
  exact bound docs listed doc inside

/-- The first document of a union is not above any document of the sets. -/
theorem firstOf_unionAll_le (sets : List (Finset UInt64)) :
    ∀ docs ∈ sets, ∀ doc ∈ docs, firstOf noMoreDocs (unionAll sets) ≤ doc :=
  fun docs member _ inside => firstOf_le (mem_unionAll.mpr ⟨docs, member, inside⟩)

/-! ### The union -/

/-- What is left of an `OrIndexReader`: its caches are what a refresh gives. -/
structure OrAt (left : σ → Finset UInt64 → Prop) (reader : OrIndexReader σ) (docs : Finset UInt64)
    (sets : List (Finset UInt64)) : Prop where
  children : List.Forall₂ left reader.children sets
  refreshed : reader = refreshCurrentDoc reader.children (cachedDocs sets)
  docs : docs = unionAll sets

section Or

variable (lawful : child.Lawful noMoreDocs left) {reader : OrIndexReader σ} {docs : Finset UInt64}
    {sets : List (Finset UInt64)}

include lawful

theorem orAt_new {children : List σ} (stands : List.Forall₂ left children sets) :
    OrAt left (newOr child children) (unionAll sets) sets :=
  ⟨stands, by rw [newOr, childDocs_eq lawful stands]; rfl, rfl⟩

theorem orAt_bound (stands : OrAt left reader docs sets) : ∀ doc ∈ docs, doc < noMoreDocs := by
  rw [stands.docs]
  exact unionAll_bound (forall₂_bound lawful stands.children)

theorem orAt_current (stands : OrAt left reader docs sets) :
    reader.currentDoc = firstOf noMoreDocs docs := by
  rw [stands.refreshed, stands.docs]
  exact minDoc_eq sets (forall₂_bound lawful stands.children)

theorem orAt_ended (stands : OrAt left reader docs sets) :
    reader.currentDoc = noMoreDocs ↔ docs = ∅ := by
  rw [orAt_current lawful stands]
  exact firstOf_eq_limit_iff (orAt_bound lawful stands)

/-- Before the end, the matching children are those on the first document. -/
theorem orAt_matching (stands : OrAt left reader docs sets) (nonempty : docs.Nonempty) :
    reader.matching = matchingChildren (cachedDocs sets) (firstOf noMoreDocs docs) := by
  have current := orAt_current lawful stands
  have notEnd := mt (orAt_ended lawful stands).mp nonempty.ne_empty
  rw [stands.refreshed] at notEnd
  rw [← current, stands.refreshed]
  exact if_neg notEnd

theorem orGoNext_spec (stands : OrAt left reader docs sets) :
    ∃ next keep, orGoNext child reader = some next ∧
      OrAt left next (docs.erase (firstOf noMoreDocs docs)) (keepIn keep sets) := by
  unfold orGoNext
  by_cases ended : reader.currentDoc = noMoreDocs
  · rw [if_pos ended]
    have empty := (orAt_ended lawful stands).mp ended
    refine ⟨reader, fun _ => true, rfl, ?_⟩
    rw [keepIn_all, empty, Finset.erase_eq_of_notMem (Finset.notMem_empty _), ← empty]
    exact stands
  · rw [if_neg ended]
    have nonempty : docs.Nonempty :=
      Finset.nonempty_iff_ne_empty.mpr (mt (orAt_ended lawful stands).mpr ended)
    have cached : reader.childDocs = cachedDocs sets := by rw [stands.refreshed]; rfl
    obtain ⟨moved, movedEq, movedStands⟩ :=
      advanceChildren_least lawful stands.children _ (firstOf_unionAll_le sets)
    rw [orAt_matching lawful stands nonempty, cached, stands.docs, movedEq]
    refine ⟨_, fun doc => decide (doc ≠ firstOf noMoreDocs (unionAll sets)), rfl, ?_⟩
    rw [← map_filter_eq_keepIn]
    refine ⟨movedStands, rfl, ?_⟩
    rw [unionAll_map_filter, Finset.filter_ne']

theorem orGoUntil_spec (stands : OrAt left reader docs sets) (target : UInt64) :
    ∃ next keep, orGoUntil child reader target = some next ∧
      OrAt left next (docs.filter (target ≤ ·)) (keepIn keep sets) := by
  have cached : reader.childDocs = cachedDocs sets := by rw [stands.refreshed]; rfl
  obtain ⟨moved, movedEq, movedStands⟩ := skipChildren_spec lawful stands.children target
  unfold orGoUntil
  rw [cached, movedEq]
  refine ⟨_, fun doc => decide (target ≤ doc), rfl, ?_⟩
  rw [← map_filter_eq_keepIn]
  refine ⟨movedStands, rfl, ?_⟩
  rw [unionAll_map_filter, stands.docs]

end Or

/-! ### Documents that enough children share -/

/-- What is left of a `WeakAndIndexReader`: unless every child is at its end,
enough of them stand on the current document. -/
structure WeakAndAt (left : σ → Finset UInt64 → Prop) (fuel : Nat) (reader : WeakAndIndexReader σ)
    (docs : Finset UInt64) (sets : List (Finset UInt64)) : Prop where
  children : List.Forall₂ left reader.children sets
  cached : reader.childDocs = cachedDocs sets
  positive : 0 < reader.minShouldMatch
  enough : totalOf sets < fuel
  docs : docs = atLeast reader.minShouldMatch sets
  current : reader.currentDoc = firstOf noMoreDocs (unionAll sets)
  aligned : reader.currentDoc ≠ noMoreDocs →
    reader.matching = matchingChildren (cachedDocs sets) reader.currentDoc ∧
      reader.minShouldMatch ≤ reader.matching.length

/-- The children that stand on the first document are those that have it. -/
theorem countP_first {sets : List (Finset UInt64)} {doc : UInt64} (below : doc ≠ noMoreDocs)
    (least : ∀ docs ∈ sets, ∀ other ∈ docs, doc ≤ other) :
    (matchingChildren (cachedDocs sets) doc).length =
      sets.countP fun docs => doc ∈ docs := by
  rw [matchingChildren_length, cachedDocs, List.count, List.countP_map]
  apply List.countP_congr
  intro docs member
  simp only [Function.comp_apply, beq_iff_eq, decide_eq_true_eq]
  constructor
  · intro first
    rw [← first]
    apply firstOf_mem
    rw [Finset.nonempty_iff_ne_empty]
    rintro rfl
    exact below (first.symm.trans (firstOf_empty noMoreDocs))
  · intro inside
    exact firstOf_eq_of_isLeast ⟨inside, fun other => least docs member other⟩

section WeakAnd

variable (lawful : child.Lawful noMoreDocs left) {fuel : Nat} {reader : WeakAndIndexReader σ}
    {docs : Finset UInt64} {sets : List (Finset UInt64)}

/-- Every turn of the loop takes a document that too few children have. -/
theorem alignToMatch_spec (lawful : child.Lawful noMoreDocs left) {minShouldMatch : Nat}
    (positive : 0 < minShouldMatch) {fuel : Nat} {children : List σ}
    {sets : List (Finset UInt64)} (stands : List.Forall₂ left children sets)
    (enough : totalOf sets < fuel) :
    ∃ reader keep, alignToMatch child minShouldMatch fuel children (cachedDocs sets) =
        some reader ∧
      WeakAndAt left fuel reader (atLeast minShouldMatch sets) (keepIn keep sets) := by
  induction fuel generalizing children sets with
  | zero => omega
  | succ fuel inductionHypothesis =>
      have bound := forall₂_bound lawful stands
      have first := minDoc_eq sets bound
      unfold alignToMatch
      dsimp only
      rw [first]
      by_cases ended : firstOf noMoreDocs (unionAll sets) = noMoreDocs
      · rw [if_pos ended]
        refine ⟨_, fun _ => true, rfl, ?_⟩
        rw [keepIn_all]
        exact ⟨stands, rfl, positive, enough, rfl, ended.symm, fun open_ => absurd rfl open_⟩
      · rw [if_neg ended]
        by_cases matched : (matchingChildren (cachedDocs sets)
            (firstOf noMoreDocs (unionAll sets))).length ≥ minShouldMatch
        · rw [if_pos matched]
          refine ⟨_, fun _ => true, rfl, ?_⟩
          rw [keepIn_all]
          exact ⟨stands, rfl, positive, enough, rfl, rfl, fun _ => ⟨rfl, matched⟩⟩
        · rw [if_neg matched]
          have least := firstOf_unionAll_le sets
          obtain ⟨moved, movedEq, movedStands⟩ := advanceChildren_least lawful stands _ least
          have nonempty : (unionAll sets).Nonempty := by
            rw [Finset.nonempty_iff_ne_empty]
            exact fun empty => ended ((firstOf_eq_limit_iff (unionAll_bound bound)).mpr empty)
          obtain ⟨set, member, inside⟩ := mem_unionAll.mp (isLeast_firstOf noMoreDocs nonempty).1
          have fewer := totalOf_map_filter_lt (· ≠ firstOf noMoreDocs (unionAll sets)) member inside
            (fun kept => kept rfl)
          obtain ⟨reader, keep, readerEq, atReader⟩ :=
            inductionHypothesis movedStands (by omega)
          rw [movedEq, Option.bind_some]
          have tooFew : firstOf noMoreDocs (unionAll sets) ∉ atLeast minShouldMatch sets := by
            rw [mem_atLeast positive, ← countP_first ended least]
            exact matched
          rw [atLeast_map_filter positive, Finset.filter_ne', Finset.erase_eq_of_notMem tooFew,
            map_filter_eq_keepIn, keepIn_keepIn] at atReader
          exact ⟨reader, _, readerEq, { atReader with enough := Nat.lt_succ_of_lt atReader.enough }⟩

include lawful

theorem weakAndAt_bound (stands : WeakAndAt left fuel reader docs sets) :
    ∀ doc ∈ docs, doc < noMoreDocs := by
  intro doc member
  rw [stands.docs, atLeast, Finset.mem_filter] at member
  exact unionAll_bound (forall₂_bound lawful stands.children) doc member.1

/-- The current document is the first one that enough children have. -/
theorem weakAndAt_current (stands : WeakAndAt left fuel reader docs sets) :
    reader.currentDoc = firstOf noMoreDocs docs := by
  by_cases ended : reader.currentDoc = noMoreDocs
  · have nothing : unionAll sets = ∅ := by
      rw [← firstOf_eq_limit_iff (unionAll_bound (forall₂_bound lawful stands.children)),
        ← stands.current]
      exact ended
    rw [ended, stands.docs, atLeast, nothing, Finset.filter_empty, firstOf_empty]
  · have least := firstOf_unionAll_le sets
    obtain ⟨matching, matched⟩ := stands.aligned ended
    symm
    apply firstOf_eq_of_isLeast
    rw [stands.docs]
    constructor
    · rw [Finset.mem_coe, mem_atLeast stands.positive, ← countP_first ended
        (by rw [stands.current]; exact least), ← matching]
      exact matched
    · intro doc member
      rw [Finset.mem_coe, atLeast, Finset.mem_filter] at member
      rw [stands.current]
      exact firstOf_le member.1

theorem weakAndAt_ended (stands : WeakAndAt left fuel reader docs sets) :
    reader.currentDoc = noMoreDocs ↔ docs = ∅ := by
  rw [weakAndAt_current lawful stands]
  exact firstOf_eq_limit_iff (weakAndAt_bound lawful stands)

theorem weakAndGoNext_spec (stands : WeakAndAt left fuel reader docs sets) :
    ∃ next keep, weakAndGoNext child fuel reader = some next ∧
      WeakAndAt left fuel next (docs.erase (firstOf noMoreDocs docs)) (keepIn keep sets) := by
  unfold weakAndGoNext
  by_cases ended : reader.currentDoc = noMoreDocs
  · rw [if_pos ended]
    have empty := (weakAndAt_ended lawful stands).mp ended
    refine ⟨reader, fun _ => true, rfl, ?_⟩
    rw [keepIn_all, empty, Finset.erase_eq_of_notMem (Finset.notMem_empty _), ← empty]
    exact stands
  · rw [if_neg ended]
    obtain ⟨matching, _⟩ := stands.aligned ended
    have first := weakAndAt_current lawful stands
    obtain ⟨moved, movedEq, movedStands⟩ := advanceChildren_least lawful stands.children
      reader.currentDoc (by rw [stands.current]; exact firstOf_unionAll_le sets)
    have fewer := totalOf_map_filter_le sets (· ≠ reader.currentDoc)
    obtain ⟨next, keep, nextEq, nextStands⟩ := alignToMatch_spec lawful stands.positive movedStands
      (lt_of_le_of_lt fewer stands.enough)
    rw [matching, stands.cached, movedEq, Option.bind_some]
    rw [atLeast_map_filter stands.positive, Finset.filter_ne', ← stands.docs, first,
      map_filter_eq_keepIn, keepIn_keepIn] at nextStands
    exact ⟨next, _, nextEq, nextStands⟩

theorem weakAndGoUntil_spec (stands : WeakAndAt left fuel reader docs sets) (target : UInt64) :
    ∃ next keep, weakAndGoUntil child fuel reader target = some next ∧
      WeakAndAt left fuel next (docs.filter (target ≤ ·)) (keepIn keep sets) := by
  obtain ⟨moved, movedEq, movedStands⟩ := skipChildren_spec lawful stands.children target
  have fewer := totalOf_map_filter_le sets (target ≤ ·)
  obtain ⟨next, keep, nextEq, nextStands⟩ := alignToMatch_spec lawful stands.positive movedStands
    (lt_of_le_of_lt fewer stands.enough)
  unfold weakAndGoUntil
  rw [stands.cached, movedEq, Option.bind_some]
  rw [atLeast_map_filter stands.positive, ← stands.docs, map_filter_eq_keepIn, keepIn_keepIn]
    at nextStands
  exact ⟨next, _, nextEq, nextStands⟩

end WeakAnd

end Left

end MoonShot.Reader
