import MoonShot.Lib.Joined
import MoonShot.Context.MergedEntries
import MoonShot.Context.WrittenHeaders

/-!
The terms of a merged index (`IndexContext::Merge`).

Owns the walk of a cursor over the leaf pages of an index, what a batch and the dumped files
hold together, and the terms a merge writes: of two indexes with ascending terms whose leaf
pages are read, every term that fits a leaf entry, once and in order, with the frequencies of
both indexes. A lookup in the file of a merge therefore finds what lookups in both indexes find.

Does not own the posting bytes behind an entry.
-/

namespace MoonShot.Context

open MoonShot.Lib
open MoonShot.Postings
open MoonShot.Format
open MoonShot.Serializer
open MoonShot.Index

/-- Each result of a loop comes from the turn at its place. -/
theorem mapM_ok_get {ε α γ : Type} {turn : γ → Except ε α} {items : List γ} {results : List α}
    (ok : items.mapM turn = .ok results) {place : Nat} {result : α}
    (found : results[place]? = some result) :
    ∃ item, items[place]? = some item ∧ turn item = .ok result := by
  induction items generalizing results place with
  | nil =>
      obtain rfl := Except.ok.inj ok
      cases found
  | cons item rest inductionHypothesis =>
      rw [List.mapM_cons] at ok
      obtain ⟨first, here, ok⟩ := bind_ok.mp ok
      obtain ⟨others, ran, ok⟩ := bind_ok.mp ok
      obtain rfl := Except.ok.inj ok
      cases place with
      | zero =>
          rw [List.getElem?_cons_zero] at found
          obtain rfl := Option.some.inj found
          exact ⟨item, rfl, here⟩
      | succ place => exact inductionHypothesis ran found

/-- A slot of a list with one more item is a slot of the list, or holds that item. -/
theorem getElem?_concat_cases {α : Type} {items : List α} {last item : α} {place : Nat}
    (found : (items ++ [last])[place]? = some item) :
    (place < items.length ∧ items[place]? = some item) ∨ (place = items.length ∧ item = last) := by
  by_cases inside : place < items.length
  · rw [List.getElem?_append_left inside] at found
    exact Or.inl ⟨inside, found⟩
  · have bound := (List.getElem?_eq_some_iff.mp found).1
    rw [List.length_append, List.length_singleton] at bound
    obtain rfl : place = items.length := by omega
    rw [List.getElem?_concat_length] at found
    exact Or.inr ⟨rfl, (Option.some.inj found).symm⟩

/-! ## The walk of a cursor -/

/-- Every leaf page of the index is read, and the pages hold these groups of entries. -/
structure LocalIndex.LeafsRead (index : LocalIndex) (groups : List (List LeafTermEntry)) :
    Prop where
  count : groups.length = index.leafTermBlockCount
  pages : ∀ place group, groups[place]? = some group →
    ∃ page, index.table.leafBlocks place = some page ∧ entryCount page = group.length ∧
      ∀ slot < group.length, leafEntry page slot = group[slot]?

namespace LeafCursor

/-- The cursor stands on the first of these entries. -/
structure At (groups : List (List LeafTermEntry)) (cursor : LeafCursor)
    (rest : List LeafTermEntry) : Prop where
  current : cursor.current = rest.head?
  place : rest ≠ [] → ∃ group, groups[cursor.leafBlockId]? = some group ∧
    cursor.entryIndex < group.length ∧
    rest = group.drop cursor.entryIndex ++ (groups.drop (cursor.leafBlockId + 1)).flatten

section Walk

variable {index : LocalIndex} {groups : List (List LeafTermEntry)}

/-- `GoCurrent` skips the pages it is behind, and stands on the next entry there is. -/
theorem goCurrent_at (reads : index.LeafsRead groups) (turns leafBlockId entryIndex : Nat)
    (enough : groups.length < leafBlockId + turns)
    (inside : entryIndex ≤ (groups[leafBlockId]?.getD []).length) :
    (goCurrent index turns leafBlockId entryIndex).At groups
      ((groups.drop leafBlockId).flatten.drop entryIndex) := by
  induction turns generalizing leafBlockId entryIndex with
  | zero =>
      have nothing : groups.drop leafBlockId = [] := List.drop_eq_nil_of_le (by omega)
      rw [nothing, List.flatten_nil, List.drop_nil]
      exact ⟨rfl, fun some_ => absurd rfl some_⟩
  | succ turns inductionHypothesis =>
      rw [goCurrent]
      by_cases below : leafBlockId < index.leafTermBlockCount
      · have listed : leafBlockId < groups.length := reads.count ▸ below
        have found := List.getElem?_eq_getElem listed
        obtain ⟨page, read, count, entries⟩ := reads.pages _ _ found
        rw [found, Option.getD_some] at inside
        rw [if_pos below, read]
        dsimp only
        rw [List.drop_eq_getElem_cons listed, List.flatten_cons,
          List.drop_append_of_le_length inside]
        by_cases here : entryIndex < groups[leafBlockId].length
        · rw [if_pos (count ▸ here)]
          constructor
          · rw [entries entryIndex here, List.head?_append, List.head?_drop,
              List.getElem?_eq_getElem here]
            rfl
          · intro _
            exact ⟨_, found, here, rfl⟩
        · rw [if_neg (count ▸ here), List.drop_eq_nil_of_le (not_lt.mp here), List.nil_append]
          have next := inductionHypothesis (leafBlockId + 1) 0 (by omega) (Nat.zero_le _)
          rwa [List.drop_zero] at next
      · have nothing : groups.drop leafBlockId = [] :=
          List.drop_eq_nil_of_le (reads.count ▸ not_lt.mp below)
        rw [if_neg below, nothing, List.flatten_nil, List.drop_nil]
        exact ⟨rfl, fun some_ => absurd rfl some_⟩

theorem new_at (reads : index.LeafsRead groups) : (new index).At groups groups.flatten := by
  have first := goCurrent_at reads (index.leafTermBlockCount + 1) 0 0
    (by rw [reads.count]; omega) (Nat.zero_le _)
  rwa [List.drop_zero, List.drop_zero] at first

/-- `Advance` leaves the first entry behind. -/
theorem At.advance (reads : index.LeafsRead groups) {cursor : LeafCursor}
    {rest : List LeafTermEntry} (stands : cursor.At groups rest) :
    (cursor.advance index).At groups rest.tail := by
  cases rest with
  | nil =>
      unfold LeafCursor.advance
      rw [stands.current]
      exact stands
  | cons entry rest =>
      obtain ⟨group, found, inside, split⟩ := stands.place (List.cons_ne_nil _ _)
      unfold LeafCursor.advance
      rw [stands.current]
      dsimp only [List.head?_cons]
      have next := goCurrent_at reads (index.leafTermBlockCount + 1) cursor.leafBlockId
        (cursor.entryIndex + 1) (by rw [reads.count]; omega) (by rw [found]; exact inside)
      obtain ⟨listed, same⟩ := List.getElem?_eq_some_iff.mp found
      have whole : (groups.drop cursor.leafBlockId).flatten =
          group ++ (groups.drop (cursor.leafBlockId + 1)).flatten := by
        rw [List.drop_eq_getElem_cons listed, List.flatten_cons, same]
      have behind : (groups.drop cursor.leafBlockId).flatten.drop (cursor.entryIndex + 1) =
          rest := by
        rw [whole, List.drop_append_of_le_length inside, ← List.tail_drop,
          ← List.tail_append_of_ne_nil, ← split]
        · rfl
        · exact List.ne_nil_of_length_pos (by rw [List.length_drop]; omega)
      rwa [behind] at next

end Walk

end LeafCursor

/-! ## The pages of a batch -/

namespace MergeBatch

/-- The full leaf pages of a batch hold these groups, and the page that is filled these
entries. -/
structure LeafsHold (batch : MergeBatch) (groups : List (List LeafTermEntry))
    (last : List LeafTermEntry) : Prop where
  filled : batch.LeafFilled last
  full : groups.length = batch.leafBlockId
  pages : ∀ place group, groups[place]? = some group → LeafPageOf (batch.leafBlocks place) group
  nonempty : ∀ group ∈ groups, group ≠ []
  page : last ≠ [] → LeafPageOf (batch.leafBlocks batch.leafBlockId) last

theorem leafsHold_reset (indexBlockBase : UInt32) : LeafsHold (reset indexBlockBase) [] [] :=
  ⟨leafFilled_reset indexBlockBase, rfl, fun _ _ found => absurd found (by simp), by simp,
    fun some_ => absurd rfl some_⟩

section Pages

variable {batch : MergeBatch} {groups : List (List LeafTermEntry)} {last : List LeafTermEntry}

theorem Appended.leafsHold {next : MergeBatch} {source first : Bytes} {parts : List Bytes}
    (appended : Appended batch next source first parts) (hold : batch.LeafsHold groups last) :
    next.LeafsHold groups last := by
  obtain ⟨leafBlocks, leafBlockId, _, _⟩ := appended.leaf
  refine ⟨appended.leafFilled hold.filled, ?_, ?_, hold.nonempty, ?_⟩
  · rw [leafBlockId]
    exact hold.full
  · rw [leafBlocks]
    exact hold.pages
  · rw [leafBlocks, leafBlockId]
    exact hold.page

/-- The page change keeps the entries. -/
theorem LeafsHold.nextLeaf (hold : batch.LeafsHold groups last) (source : LeafTermEntry) :
    ∃ after before, (batch.nextLeaf source).LeafsHold after before ∧
      after.flatten ++ before = groups.flatten ++ last ∧
      (source.byteLen ≤ leafDataSize → entriesBytes before + source.byteLen ≤ leafDataSize) ∧
      before.length < leafTermDirectoryCount - 1 := by
  have constants : leafTermDirectoryCount = 161 := rfl
  have offset := hold.filled.offset
  have count := hold.filled.count
  unfold MergeBatch.nextLeaf
  by_cases full : batch.leafFull source
  · rw [dif_pos full]
    have some_ : last ≠ [] := by
      intro nothing
      have positive := full.1
      rw [count, nothing] at positive
      exact Nat.lt_irrefl 0 positive
    have closed := hold.page some_
    refine ⟨groups ++ [last], [], ⟨⟨leafHolds_nil _, rfl, rfl, by simp⟩, ?_, ?_, ?_, ?_⟩,
      ?_, ?_, ?_⟩
    · rw [List.length_append, hold.full]
      rfl
    · intro place group found
      dsimp only
      have length := hold.full
      cases getElem?_concat_cases found with
      | inl old =>
          rw [Function.update_of_ne (by omega)]
          exact hold.pages place group old.2
      | inr new =>
          rw [new.1, new.2, length, Function.update_self, count]
          exact ⟨closed.holds.writeEntryCount _, directoryAt_writeEntryCount _ closed.holds.count,
            closed.lengths⟩
    · exact List.forall_mem_append.mpr ⟨hold.nonempty, List.forall_mem_singleton.mpr some_⟩
    · exact fun nonempty => absurd rfl nonempty
    · rw [List.flatten_append, List.flatten_singleton, List.append_nil]
    · intro fits
      rw [entriesBytes_nil, Nat.zero_add]
      exact fits
    · rw [List.length_nil]
      omega
  · rw [dif_neg full]
    unfold leafFull at full
    refine ⟨groups, last, hold, rfl, ?_, by omega⟩
    intro fits
    cases last with
    | nil =>
        rw [entriesBytes_nil, Nat.zero_add]
        exact fits
    | cons entry rest =>
        rw [List.length_cons] at count
        omega

/-- `AddLeafTermEntry` keeps the entries, and adds one more when it takes a term that fits. -/
theorem LeafsHold.addLeafTermEntry (hold : batch.LeafsHold groups last) {source : LeafTermEntry}
    (lengths : source.LengthStored) :
    ∃ after rest, (batch.addLeafTermEntry source).1.LeafsHold after rest ∧
      after.flatten ++ rest = groups.flatten ++ last ++
        if (batch.addLeafTermEntry source).2 = true ∧ source.term.len ≤ headTermKeyMax then
          [batch.mergedEntry source] else [] := by
  unfold MergeBatch.addLeafTermEntry
  by_cases long : source.term.len > headTermKeyMax
  · rw [if_pos long]
    refine ⟨groups, last, hold, ?_⟩
    rw [if_neg (fun both => absurd both.2 (not_le.mpr long)), List.append_nil]
  · rw [if_neg long]
    dsimp only
    obtain ⟨after, before, holdNext, same, fits, room⟩ := hold.nextLeaf source
    by_cases refused : (batch.nextLeaf source).leafBlockId ≥ mergedBlockLimit ∨
        source.byteLen > leafDataSize
    · rw [dif_pos refused]
      refine ⟨after, before, holdNext, ?_⟩
      rw [if_neg (fun both => Bool.false_ne_true both.1), List.append_nil]
      exact same
    · rw [dif_neg refused, if_pos ⟨rfl, not_lt.mp long⟩]
      have entryFits := fits (not_lt.mp fun over_ => refused (Or.inr over_))
      have count := holdNext.filled.count
      have written := holdNext.filled.holds.append
        (show entriesBytes before + (batch.mergedEntry source).byteLen ≤ leafDataSize from
          entryFits)
        room
      rw [← holdNext.filled.offset, ← count, ← batch.mergedEntry_nextLeaf source] at written
      have page : LeafPageOf (writeEntryCount (writeLeafEntry
            ((batch.nextLeaf source).leafBlocks (batch.nextLeaf source).leafBlockId)
            (batch.nextLeaf source).leafEntryCount (batch.nextLeaf source).leafWriteOffset
            ((batch.nextLeaf source).mergedEntry source))
            ((batch.nextLeaf source).leafEntryCount + 1))
          (before ++ [batch.mergedEntry source]) := by
        refine ⟨?_, ?_, ?_⟩
        · rw [← batch.mergedEntry_nextLeaf source]
          exact written.writeEntryCount _
        · rw [directoryAt_writeEntryCount _ (by omega), List.length_append, List.length_singleton,
            count]
        · exact List.forall_mem_append.mpr
            ⟨holdNext.filled.lengths, List.forall_mem_singleton.mpr lengths⟩
      refine ⟨after, before ++ [batch.mergedEntry source], ⟨⟨?_, ?_, ?_, page.lengths⟩, ?_, ?_,
        holdNext.nonempty, ?_⟩, ?_⟩
      · dsimp only
        rw [Function.update_self]
        exact page.holds
      · rw [entriesBytes_append, entriesBytes_singleton, ← holdNext.filled.offset]
        rfl
      · rw [List.length_append, List.length_singleton, ← count]
      · exact holdNext.full
      · intro place group found
        dsimp only
        have bound := (List.getElem?_eq_some_iff.mp found).1
        have here := holdNext.full
        rw [Function.update_of_ne (by omega)]
        exact holdNext.pages place group found
      · intro _
        dsimp only
        rw [Function.update_self]
        exact page
      · rw [← List.append_assoc, same]

/-- The pages a dump writes, each with the entries it holds. -/
theorem LeafsHold.used (hold : batch.LeafsHold groups last) :
    ∃ pages : List (List LeafTermEntry), pages.length = batch.usedLeafBlockCount ∧
      pages.flatten = groups.flatten ++ last ∧ (∀ group ∈ pages, group ≠ []) ∧
      ∀ place group, pages[place]? = some group → LeafPageOf (batch.leafBlocks place) group := by
  have count := hold.filled.count
  unfold usedLeafBlockCount
  cases last with
  | nil =>
      refine ⟨groups, ?_, (List.append_nil _).symm, hold.nonempty, hold.pages⟩
      rw [if_neg (by rw [count]; exact Nat.lt_irrefl 0), hold.full]
  | cons entry rest =>
      refine ⟨groups ++ [entry :: rest], ?_, ?_, ?_, ?_⟩
      · rw [if_pos (by rw [count]; exact Nat.succ_pos _), List.length_append, hold.full]
        rfl
      · rw [List.flatten_append, List.flatten_singleton]
      · exact List.forall_mem_append.mpr
          ⟨hold.nonempty, List.forall_mem_singleton.mpr (List.cons_ne_nil _ _)⟩
      · intro place group found
        cases getElem?_concat_cases found with
        | inl old => exact hold.pages place group old.2
        | inr new =>
            rw [new.1, new.2, hold.full]
            exact hold.page (List.cons_ne_nil _ _)

end Pages

end MergeBatch

/-! ## The turns -/

/-- The documents an entry counts, none when there is no entry. -/
def frequencyOf (entry : Option LeafTermEntry) : Nat :=
  entry.elim 0 fun entry => entry.docFreq.toNat

/-- The term of what was taken fits a leaf entry. -/
def fitsLeaf (item : Joined LeafTermEntry) : Bool := decide (item.lead.term.len ≤ headTermKeyMax)

/-- The leaf entry that is written for what was taken. -/
structure Merges (item : Joined LeafTermEntry) (entry : LeafTermEntry) : Prop where
  term : entry.term = item.lead.term
  docFreq : entry.docFreq =
    UInt32.ofNat (frequencyOf item.taken.1 + frequencyOf item.taken.2)

namespace MergeState

/-- What a turn offers for what it takes. -/
def offeredOf (base delta : LocalIndex) : Joined LeafTermEntry → Offered
  | .left entry => offeredAlone base entry
  | .right entry => offeredAlone delta entry
  | .both small big => offeredPair base delta small big

theorem offeredOf_source (base delta : LocalIndex) (item : Joined LeafTermEntry) :
    (offeredOf base delta item).source = item.lead := by
  cases item <;> rfl

theorem offeredOf_docFreq (base delta : LocalIndex) (item : Joined LeafTermEntry) :
    (offeredOf base delta item).docFreq =
      frequencyOf item.taken.1 + frequencyOf item.taken.2 := by
  cases item with
  | left entry => rfl
  | right entry => exact (Nat.zero_add _).symm
  | both small big => rfl

section Turns

variable {base delta : LocalIndex} {state : MergeState}
  {baseGroups deltaGroups : List (List LeafTermEntry)} {restBase restDelta : List LeafTermEntry}

/-- A turn takes what the walk over both rests takes first. -/
theorem offer_joined (sound : state.Sound) (baseAt : state.baseCursor.At baseGroups restBase)
    (deltaAt : state.deltaCursor.At deltaGroups restDelta) {item : Joined LeafTermEntry}
    {items : List (Joined LeafTermEntry)}
    (first : joined LeafTermEntry.term restBase restDelta = item :: items) :
    state.offer base delta =
        some (state.batch.addTerm item.lead (offeredOf base delta item).addPostings,
          item.taken.1.isSome, item.taken.2.isSome) ∧
      (offeredOf base delta item).Lawful state.batch ∧
      items = joined LeafTermEntry.term (if item.taken.1.isSome then restBase.tail else restBase)
        (if item.taken.2.isSome then restDelta.tail else restDelta) := by
  have baseEq := baseAt.current
  have deltaEq := deltaAt.current
  unfold MergeState.offer
  dsimp only
  cases restBase with
  | nil =>
      cases restDelta with
      | nil =>
          rw [joined] at first
          cases first
      | cons big restDelta =>
          rw [joined] at first
          obtain ⟨rfl, rfl⟩ := List.cons.inj first
          dsimp only [List.head?_nil, List.head?_cons] at baseEq deltaEq
          rw [baseEq, deltaEq]
          exact ⟨rfl, lawful_alone delta (sound.delta big deltaEq) state.batch, rfl⟩
  | cons small restBase =>
      cases restDelta with
      | nil =>
          rw [joined] at first
          obtain ⟨rfl, rfl⟩ := List.cons.inj first
          dsimp only [List.head?_nil, List.head?_cons] at baseEq deltaEq
          rw [baseEq, deltaEq]
          exact ⟨rfl, lawful_alone base (sound.base small baseEq) state.batch, rfl⟩
      | cons big restDelta =>
          dsimp only [List.head?_cons] at baseEq deltaEq
          have deltaLess : state.deltaCursor.lessThan state.baseCursor =
              decide (big.term < small.term) := by
            unfold LeafCursor.lessThan
            rw [baseEq, deltaEq]
            rfl
          have baseLess : state.baseCursor.lessThan state.deltaCursor =
              decide (small.term < big.term) := by
            unfold LeafCursor.lessThan
            rw [baseEq, deltaEq]
            rfl
          rw [deltaLess, baseLess, baseEq, deltaEq]
          rw [joined] at first
          by_cases below : big.term < small.term
          · rw [if_pos below] at first
            obtain ⟨rfl, rfl⟩ := List.cons.inj first
            rw [decide_eq_true below, decide_eq_false (lt_asymm below)]
            exact ⟨rfl, lawful_alone delta (sound.delta big deltaEq) state.batch, rfl⟩
          · rw [if_neg below] at first
            by_cases above : small.term < big.term
            · rw [if_pos above] at first
              obtain ⟨rfl, rfl⟩ := List.cons.inj first
              rw [decide_eq_false below, decide_eq_true above]
              exact ⟨rfl, lawful_alone base (sound.base small baseEq) state.batch, rfl⟩
            · rw [if_neg above] at first
              obtain ⟨rfl, rfl⟩ := List.cons.inj first
              rw [decide_eq_false below, decide_eq_false above]
              exact ⟨rfl, lawful_pair base delta (sound.base small baseEq) state.batch, rfl⟩

/-- What an offer does to the entries: nothing when it is refused, and otherwise one more
entry for a term that fits. -/
theorem addTerm_entries {item : Joined LeafTermEntry} {batch : MergeBatch}
    {groups : List (List LeafTermEntry)} {last : List LeafTermEntry}
    (lawful : (offeredOf base delta item).Lawful batch) (hold : batch.LeafsHold groups last) :
    let added := batch.addTerm item.lead (offeredOf base delta item).addPostings
    ∃ after rest more, added.1.LeafsHold after rest ∧
      after.flatten ++ rest = groups.flatten ++ last ++ more ∧
      (added.2 = false → more = []) ∧
      (added.2 = true → List.Forall₂ Merges ([item].filter fitsLeaf) more) := by
  intro added
  have unchanged : ∃ after rest more, batch.LeafsHold after rest ∧
      after.flatten ++ rest = groups.flatten ++ last ++ more ∧
      (false = false → more = []) ∧
      (false = true → List.Forall₂ Merges ([item].filter fitsLeaf) more) :=
    ⟨groups, last, [], hold, (List.append_nil _).symm, fun _ => rfl,
      fun refused => by cases refused⟩
  have lengths := lawful.lengths
  rw [offeredOf_source] at lengths
  show ∃ after rest more, (batch.addTerm item.lead _).1.LeafsHold after rest ∧ _ ∧
    ((batch.addTerm item.lead _).2 = false → _) ∧ ((batch.addTerm item.lead _).2 = true → _)
  unfold MergeBatch.addTerm
  split
  · cases lawful.adds with
    | inl refused =>
        rw [refused]
        exact unchanged
    | inr taken =>
        obtain ⟨next, bytes, first, parts, took, appended, _, docFreq⟩ := taken
        rw [took]
        dsimp only
        obtain ⟨after, rest, holdNext, same⟩ :=
          (appended.leafsHold hold).addLeafTermEntry lengths
        refine ⟨after, rest, _, holdNext, same, ?_, ?_⟩
        · intro refused
          rw [if_neg (fun both => Bool.false_ne_true (refused.symm.trans both.1))]
        · intro accepted
          by_cases short : item.lead.term.len ≤ headTermKeyMax
          · rw [if_pos ⟨accepted, short⟩, List.filter_singleton]
            have fits : fitsLeaf item = true := decide_eq_true short
            rw [fits]
            refine List.Forall₂.cons ⟨rfl, ?_⟩ List.Forall₂.nil
            show next.docFreq = _
            rw [docFreq, offeredOf_docFreq]
          · rw [if_neg (fun both => short both.2), List.filter_singleton]
            have fits : fitsLeaf item = false := decide_eq_false short
            rw [fits]
            exact List.Forall₂.nil
  · exact unchanged

end Turns

end MergeState

/-- The dumped leaf pages hold these groups, each under a head entry with its first term and
its page number. -/
structure MergeFiles.Hold (files : MergeFiles) (groups : List (List LeafTermEntry)) : Prop where
  headCount : files.heads.length = groups.length
  leafCount : files.leafs.length = groups.length
  nonempty : ∀ group ∈ groups, group ≠ []
  leaf : ∀ place group, groups[place]? = some group → ∃ page first,
    files.leafs[place]? = some page ∧ LeafPageOf page group ∧ group.head? = some first ∧
      files.heads[place]? = some (HeadTermEntry.new first.term (UInt32.ofNat place))

theorem MergeFiles.hold_new : MergeFiles.new.Hold [] :=
  ⟨rfl, rfl, by simp, fun _ _ found => absurd found (by simp)⟩

/-- The head entries a dump writes. -/
theorem MergeFiles.dumpLeaf_heads {batch : MergeBatch} {files : MergeFiles}
    {pages : List (List LeafTermEntry)} {dumped : List (HeadTermEntry × Nat)}
    (holds : ∀ place group, pages[place]? = some group →
      LeafPageOf (batch.leafBlocks place) group)
    (ran : (List.range pages.length).mapM (files.dumpLeaf batch) = .ok dumped)
    {place : Nat} {group : List LeafTermEntry} (found : pages[place]? = some group)
    (nonempty : group ≠ []) :
    ∃ first, group.head? = some first ∧ (dumped.map Prod.fst)[place]? =
      some (HeadTermEntry.new first.term
        (files.headEntryCount.toUInt32 + UInt32.ofNat place)) := by
  obtain ⟨first, behind, rfl⟩ := List.exists_cons_of_ne_nil nonempty
  refine ⟨first, rfl, ?_⟩
  have inside := (List.getElem?_eq_some_iff.mp found).1
  have listed : place < dumped.length := by
    rw [mapM_ok_length ran, List.length_range]
    exact inside
  obtain ⟨number, numbered, turn⟩ := mapM_ok_get ran (List.getElem?_eq_getElem listed)
  rw [List.getElem?_range inside] at numbered
  obtain rfl := Option.some.inj numbered
  unfold MergeFiles.dumpLeaf at turn
  dsimp only at turn
  rw [(holds place _ found).leafEntry_eq] at turn
  rw [List.getElem?_map, List.getElem?_eq_getElem listed, ← Except.ok.inj turn]
  rfl

/-- A dump moves the entries of the batch to the files. -/
theorem MergeFiles.dumpBatch_hold {batch next : MergeBatch} {files dumped : MergeFiles}
    {written groups : List (List LeafTermEntry)} {last : List LeafTermEntry}
    (counted : files.Counted) (filesHold : files.Hold written)
    (hold : batch.LeafsHold groups last) (ok : dumpBatch batch files = .ok (next, dumped)) :
    ∃ pages, dumped.Hold (written ++ pages) ∧ pages.flatten = groups.flatten ++ last ∧
      next.LeafsHold [] [] := by
  obtain ⟨pages, length, flat, nonempty, holds⟩ := hold.used
  unfold MergeFiles.dumpBatch at ok
  dsimp only at ok
  split at ok
  · rename_i nothing
    obtain ⟨rfl, rfl⟩ := Prod.mk.inj (Except.ok.inj ok)
    rw [nothing.1] at length
    obtain rfl := List.eq_nil_of_length_eq_zero length
    obtain ⟨noGroups, noLast⟩ := List.append_eq_nil_iff.mp flat.symm
    rw [noLast] at hold
    have noneFull : groups = [] := by
      apply List.eq_nil_iff_forall_not_mem.mpr
      intro group member
      exact hold.nonempty group member (List.flatten_eq_nil_iff.mp noGroups group member)
    rw [noneFull] at hold
    refine ⟨[], ?_, flat, hold⟩
    rw [List.append_nil]
    exact filesHold
  · obtain ⟨heads, ran, rest⟩ := bind_ok.mp ok
    obtain ⟨rfl, rfl⟩ := Prod.mk.inj (Except.ok.inj rest)
    rw [← length] at ran ⊢
    have headLength : heads.length = pages.length := by
      rw [mapM_ok_length ran, List.length_range]
    refine ⟨pages, ⟨?_, ?_, ?_, ?_⟩, flat, MergeBatch.leafsHold_reset _⟩
    · rw [List.length_append, List.length_append, List.length_map, filesHold.headCount, headLength]
    · rw [List.length_append, List.length_append, List.length_map, List.length_range,
        filesHold.leafCount]
    · exact List.forall_mem_append.mpr ⟨filesHold.nonempty, nonempty⟩
    · intro place group found
      dsimp only
      by_cases old : place < written.length
      · rw [List.getElem?_append_left old] at found
        obtain ⟨page, first, leaf, pageOf, isHead, head⟩ := filesHold.leaf place group found
        refine ⟨page, first, ?_, pageOf, isHead, ?_⟩
        · rw [List.getElem?_append_left (filesHold.leafCount ▸ old)]
          exact leaf
        · rw [List.getElem?_append_left (filesHold.headCount ▸ old)]
          exact head
      · have behind := not_lt.mp old
        rw [List.getElem?_append_right behind] at found
        have inside := (List.getElem?_eq_some_iff.mp found).1
        obtain ⟨first, isHead, head⟩ := dumpLeaf_heads holds ran found
          (nonempty group (List.mem_of_getElem? found))
        refine ⟨batch.leafBlocks (place - written.length), first, ?_, holds _ _ found, isHead, ?_⟩
        · rw [List.getElem?_append_right (filesHold.leafCount ▸ behind), filesHold.leafCount,
            List.getElem?_map, List.getElem?_range inside]
          rfl
        · rw [List.getElem?_append_right (filesHold.headCount ▸ behind), filesHold.headCount, head,
            counted.heads, filesHold.headCount]
          have number : (UInt64.ofNat written.length).toUInt32 +
              UInt32.ofNat (place - written.length) = UInt32.ofNat place := by
            rw [UInt64.toUInt32_ofNat', ← UInt32.ofNat_add, Nat.add_sub_cancel' behind]
          rw [number]

/-! ## The run -/

namespace MergeState

/-- How far a merge has come: the walk over both indexes is done up to where the cursors stand,
and what it took is in the files and the batch. -/
structure Progress (baseGroups deltaGroups : List (List LeafTermEntry)) (state : MergeState)
    (restBase restDelta : List LeafTermEntry) (done : List (Joined LeafTermEntry)) : Prop where
  base : state.baseCursor.At baseGroups restBase
  delta : state.deltaCursor.At deltaGroups restDelta
  split : joined LeafTermEntry.term baseGroups.flatten deltaGroups.flatten =
    done ++ joined LeafTermEntry.term restBase restDelta
  counted : state.files.Counted
  written : ∃ written groups last, state.files.Hold written ∧
    state.batch.LeafsHold groups last ∧ List.Forall₂ Merges (done.filter fitsLeaf)
      (written.flatten ++ (groups.flatten ++ last))

section Run

variable {base delta : LocalIndex} {baseGroups deltaGroups : List (List LeafTermEntry)}
  {state : MergeState} {restBase restDelta : List LeafTermEntry}
  {done : List (Joined LeafTermEntry)}

theorem progress_new (baseReads : base.LeafsRead baseGroups)
    (deltaReads : delta.LeafsRead deltaGroups) :
    (MergeState.new base delta).Progress baseGroups deltaGroups baseGroups.flatten
      deltaGroups.flatten [] :=
  ⟨LeafCursor.new_at baseReads, LeafCursor.new_at deltaReads, rfl, MergeFiles.counted_new, [], [],
    [], MergeFiles.hold_new, MergeBatch.leafsHold_reset 0, List.Forall₂.nil⟩

/-- One turn: the cursors move on with what the batch takes, and a dump moves what it holds. -/
theorem Progress.turn (baseReads : base.LeafsRead baseGroups)
    (deltaReads : delta.LeafsRead deltaGroups) (sound : state.Sound)
    (progress : state.Progress baseGroups deltaGroups restBase restDelta done)
    {next : MergeState} (ok : state.turn base delta = .ok next) :
    ∃ nextBase nextDelta more,
      next.Progress baseGroups deltaGroups nextBase nextDelta (done ++ more) := by
  have counted := turn_counted progress.counted ok
  unfold MergeState.turn at ok
  cases walk : joined LeafTermEntry.term restBase restDelta with
  | nil =>
      have nothing : restBase = [] ∧ restDelta = [] := joined_eq_nil walk
      have refused : state.offer base delta = none := by
        have baseEq := progress.base.current
        have deltaEq := progress.delta.current
        rw [nothing.1] at baseEq
        rw [nothing.2] at deltaEq
        unfold MergeState.offer
        dsimp only
        rw [baseEq, deltaEq]
        rfl
      rw [refused] at ok
      cases ok
  | cons item items =>
      obtain ⟨offer, lawful, itemsEq⟩ :=
        @offer_joined base delta _ _ _ _ _ sound progress.base progress.delta _ _ walk
      obtain ⟨written, groups, last, filesHold, hold, merges⟩ := progress.written
      obtain ⟨after, rest, more, holdNext, same, refusedNone, acceptedMore⟩ :=
        addTerm_entries lawful hold
      rw [offer] at ok
      generalize state.batch.addTerm item.lead (offeredOf base delta item).addPostings = added
        at ok holdNext refusedNone acceptedMore
      obtain ⟨batch, took⟩ := added
      cases took with
      | true =>
          obtain rfl := Except.ok.inj ok
          refine ⟨if item.taken.1.isSome then restBase.tail else restBase,
            if item.taken.2.isSome then restDelta.tail else restDelta, [item], ?_, ?_, ?_, counted,
            written, after, rest, filesHold, holdNext, ?_⟩
          · dsimp only
            split
            · exact progress.base.advance baseReads
            · exact progress.base
          · dsimp only
            split
            · exact progress.delta.advance deltaReads
            · exact progress.delta
          · rw [progress.split, walk, itemsEq, List.append_assoc]
            rfl
          · rw [List.filter_append, same, ← List.append_assoc, ← List.append_assoc]
            refine List.rel_append ?_ (acceptedMore rfl)
            rw [List.append_assoc]
            exact merges
      | false =>
          obtain ⟨⟨dumpedBatch, files⟩, ran, ok⟩ := bind_ok.mp ok
          obtain rfl := Except.ok.inj ok
          obtain ⟨⟨_, _⟩, dump, ran⟩ := bind_ok.mp ran
          obtain ⟨_, _, ran⟩ := bind_ok.mp ran
          obtain ⟨rfl, rfl⟩ := Prod.mk.inj (Except.ok.inj ran)
          obtain ⟨pages, filesNext, flat, emptied⟩ :=
            MergeFiles.dumpBatch_hold progress.counted filesHold holdNext dump
          refine ⟨restBase, restDelta, [], progress.base, progress.delta, ?_, counted,
            written ++ pages, [], [], filesNext, emptied, ?_⟩
          · rw [List.append_nil]
            exact progress.split
          · rw [List.append_nil, List.flatten_append, flat, same, refusedNone rfl, List.append_nil,
              List.flatten_nil, List.append_nil, List.append_nil]
            exact merges

/-- A loop that ends has walked to the end of both indexes. -/
theorem Progress.loop (baseReads : base.LeafsRead baseGroups)
    (deltaReads : delta.LeafsRead deltaGroups) {turns : Nat} (reached : Reached base delta state)
    (progress : state.Progress baseGroups deltaGroups restBase restDelta done)
    {final : MergeState} (ok : MergeState.loop base delta turns state = some (.ok final)) :
    final.Progress baseGroups deltaGroups [] []
      (joined LeafTermEntry.term baseGroups.flatten deltaGroups.flatten) := by
  induction turns generalizing state restBase restDelta done with
  | zero => cases ok
  | succ turns inductionHypothesis =>
      rw [MergeState.loop] at ok
      split at ok
      · split at ok
        · cases ok
        · rename_i next ran
          obtain ⟨nextBase, nextDelta, more, moved⟩ :=
            progress.turn baseReads deltaReads reached.sound ran
          exact inductionHypothesis (Reached.turn reached ran) moved ok
      · rename_i ended
        obtain rfl := Except.ok.inj (Option.some.inj ok)
        have baseEq := progress.base.current
        have deltaEq := progress.delta.current
        obtain ⟨noBase, noDelta⟩ := Bool.or_eq_false_iff.mp (Bool.eq_false_iff.mpr ended)
        rw [baseEq] at noBase
        rw [deltaEq] at noDelta
        obtain rfl : restBase = [] := by
          cases restBase with
          | nil => rfl
          | cons entry rest => cases noBase
        obtain rfl : restDelta = [] := by
          cases restDelta with
          | nil => rfl
          | cons entry rest => cases noDelta
        have split := progress.split
        rw [joined, List.append_nil] at split
        rw [split]
        exact progress

end Run

end MergeState

/-- The files of a merge that ends hold one entry for each term of the walk that fits. -/
theorem mergeTerms_hold {base delta : LocalIndex}
    {baseGroups deltaGroups : List (List LeafTermEntry)}
    (baseReads : base.LeafsRead baseGroups) (deltaReads : delta.LeafsRead deltaGroups)
    {turns : Nat} {files : MergeFiles} (ran : mergeTerms base delta turns = some (.ok files)) :
    ∃ written, files.Hold written ∧ List.Forall₂ Merges
      ((joined LeafTermEntry.term baseGroups.flatten deltaGroups.flatten).filter fitsLeaf)
      written.flatten := by
  obtain ⟨outcome, loop, rest⟩ := Option.map_eq_some_iff.mp ran
  obtain ⟨state, finished, last⟩ := bind_ok.mp rest
  obtain ⟨⟨batch, after⟩, dumped, same⟩ := bind_ok.mp last
  obtain rfl := Except.ok.inj same
  rw [finished] at loop
  have progress := (MergeState.progress_new baseReads deltaReads).loop baseReads deltaReads
    MergeState.Reached.new loop
  obtain ⟨written, groups, rest, filesHold, hold, merges⟩ := progress.written
  obtain ⟨pages, held, flat, _⟩ :=
    MergeFiles.dumpBatch_hold progress.counted filesHold hold dumped
  refine ⟨written ++ pages, held, ?_⟩
  rw [List.flatten_append, flat]
  exact merges

/-! ## The merged index -/

section Merged

variable {baseGroups deltaGroups written : List (List LeafTermEntry)}

/-- Each written entry was taken from the walk. -/
theorem mergedFrom {items : List (Joined LeafTermEntry)} {entries : List LeafTermEntry}
    (merges : List.Forall₂ Merges items entries) {entry : LeafTermEntry}
    (member : entry ∈ entries) :
    ∃ item ∈ items, Merges item entry := by
  induction merges with
  | nil => cases member
  | @cons item first items entries here _ inductionHypothesis =>
      cases List.mem_cons.mp member with
      | inl same => exact ⟨item, List.mem_cons_self, same ▸ here⟩
      | inr later =>
          obtain ⟨found, listed, merged⟩ := inductionHypothesis later
          exact ⟨found, List.mem_cons_of_mem _ listed, merged⟩

/-- The written terms are the ones that were taken. -/
theorem mergedTerms_eq {items : List (Joined LeafTermEntry)} {entries : List LeafTermEntry}
    (merges : List.Forall₂ Merges items entries) :
    entries.map LeafTermEntry.term = items.map fun item => item.lead.term := by
  induction merges with
  | nil => rfl
  | cons here _ inductionHypothesis =>
      rw [List.map_cons, List.map_cons, here.term, inductionHypothesis]

variable (baseAscending : AscendingBy LeafTermEntry.term baseGroups.flatten)
  (deltaAscending : AscendingBy LeafTermEntry.term deltaGroups.flatten)
  (merges : List.Forall₂ Merges
    ((joined LeafTermEntry.term baseGroups.flatten deltaGroups.flatten).filter fitsLeaf)
    written.flatten)

include baseAscending deltaAscending merges

/-- The written terms ascend. -/
theorem written_ascending : AscendingBy LeafTermEntry.term written.flatten := by
  have walk := (joined_joins _ _ baseAscending deltaAscending).ascending.filter fitsLeaf
  unfold AscendingBy
  rw [← List.pairwise_map, mergedTerms_eq merges, List.pairwise_map]
  exact walk

/-- The terms that are written. -/
theorem written_isSome_iff (term : Str) :
    (itemWith LeafTermEntry.term written.flatten term).isSome = true ↔
      term.len ≤ headTermKeyMax ∧
        ((itemWith LeafTermEntry.term baseGroups.flatten term).isSome = true ∨
          (itemWith LeafTermEntry.term deltaGroups.flatten term).isSome = true) := by
  have keys := (joined_joins _ _ baseAscending deltaAscending).keys term
  rw [itemWith_isSome_iff, itemWith_isSome_iff, itemWith_isSome_iff, ← keys]
  have listed : (∃ entry ∈ written.flatten, entry.term = term) ↔
      term ∈ written.flatten.map LeafTermEntry.term := List.mem_map.symm
  rw [listed, mergedTerms_eq merges, List.mem_map]
  constructor
  · intro taken
    obtain ⟨item, member, rfl⟩ := taken
    have parts := List.mem_filter.mp member
    exact ⟨of_decide_eq_true parts.2, item, parts.1, rfl⟩
  · intro taken
    obtain ⟨short, item, member, rfl⟩ := taken
    exact ⟨item, List.mem_filter.mpr ⟨member, decide_eq_true short⟩, rfl⟩

/-- The frequency of a written term is the sum of the frequencies in both indexes. -/
theorem written_docFreq {term : Str} {entry : LeafTermEntry}
    (found : itemWith LeafTermEntry.term written.flatten term = some entry) :
    entry.docFreq =
      UInt32.ofNat (frequencyOf (itemWith LeafTermEntry.term baseGroups.flatten term) +
        frequencyOf (itemWith LeafTermEntry.term deltaGroups.flatten term)) := by
  unfold itemWith at found
  have same : entry.term = term := by simpa using List.find?_some found
  obtain ⟨item, member, merged⟩ := mergedFrom merges (List.mem_of_find?_eq_some found)
  have taken := (joined_joins _ _ baseAscending deltaAscending).taken item
    (List.mem_filter.mp member).1
  rw [merged.docFreq, taken, ← merged.term, same]

end Merged

/-- The head entries that were written are accepted when the file is read. -/
theorem MergeFiles.Hold.headsFit {files : MergeFiles} {written : List (List LeafTermEntry)}
    (hold : files.Hold written)
    (fits : ∀ entry ∈ written.flatten, entry.term.len ≤ headTermKeyMax) :
    ∀ head ∈ files.heads, head.firstTermLength.toNat ≤ headTermKeyMax := by
  intro head member
  obtain ⟨place, found⟩ := List.mem_iff_getElem?.mp member
  have inside := (List.getElem?_eq_some_iff.mp found).1
  rw [hold.headCount] at inside
  obtain ⟨_, first, _, _, isHead, isNew⟩ := hold.leaf place _ (List.getElem?_eq_getElem inside)
  rw [isNew] at found
  rw [← Option.some.inj found]
  apply HeadTermEntry.new_firstTermLength
  apply fits
  exact List.mem_flatten.mpr ⟨_, List.getElem_mem inside, List.mem_of_mem_head? isHead⟩

/-- So are the leaf pages. -/
theorem MergeFiles.Hold.leafsValid {files : MergeFiles} {written : List (List LeafTermEntry)}
    (hold : files.Hold written) : ∀ page ∈ files.leafs, leafBlockValid page = true := by
  intro page member
  obtain ⟨place, found⟩ := List.mem_iff_getElem?.mp member
  have inside := (List.getElem?_eq_some_iff.mp found).1
  rw [hold.leafCount] at inside
  obtain ⟨_, _, isPage, pageOf, _, _⟩ := hold.leaf place _ (List.getElem?_eq_getElem inside)
  rw [isPage] at found
  rw [← Option.some.inj found]
  exact pageOf.valid

/-- The merged table holds the written entries. -/
theorem mergedTable_holds {files : MergeFiles} {written : List (List LeafTermEntry)}
    (hold : files.Hold written) (ascending : AscendingBy LeafTermEntry.term written.flatten)
    (fits : ∀ entry ∈ written.flatten, entry.term.len ≤ headTermKeyMax)
    (bound : files.leafs.length < 2 ^ 32) :
    (MemoryTable.mk files.heads files.leafs files.blocks .cleared).table.Holds written := by
  have count := hold.leafCount
  refine ⟨hold.nonempty, ascending, fits, hold.headCount, count ▸ bound, ?_⟩
  intro place group found
  obtain ⟨page, first, leaf, pageOf, isHead, head⟩ := hold.leaf place group found
  have inside := (List.getElem?_eq_some_iff.mp found).1
  have member : first ∈ written.flatten :=
    List.mem_flatten.mpr ⟨group, List.mem_of_getElem? found, List.mem_of_mem_head? isHead⟩
  refine ⟨_, first, page, head, isHead, HeadTermEntry.firstTermStr_new (fits first member), ?_, ?_,
    pageOf⟩
  · show (UInt32.ofNat place).toNat = place
    rw [UInt32.toNat_ofNat', Nat.mod_eq_of_lt (by omega)]
  · show Table.memoryBlocks files.leafs place = some page
    unfold Table.memoryBlocks
    rw [Nat.mod_eq_of_lt bound, if_pos (by omega)]
    exact leaf

/-- The lookup in a table that holds groups. -/
theorem lookup_eq {table : Table.IndexBlockTable} {groups : List (List LeafTermEntry)}
    (holds : table.Holds groups) (term : Str) :
    table.findTermDataHeadLeaf term =
      (itemWith LeafTermEntry.term groups.flatten term).map LeafTermEntry.location := by
  rw [holds.findTermDataHeadLeaf_eq]
  unfold itemWith
  congr!

/-- A load of the file of a merge finds the written entries, which are those of the walk that
fit. -/
theorem mergeIndexes_lookup {float : FloatOps} {base delta : LocalIndex}
    {baseGroups deltaGroups : List (List LeafTermEntry)} (baseReads : base.LeafsRead baseGroups)
    (deltaReads : delta.LeafsRead deltaGroups)
    (baseAscending : AscendingBy LeafTermEntry.term baseGroups.flatten)
    (deltaAscending : AscendingBy LeafTermEntry.term deltaGroups.flatten) {turns : Nat}
    {parts : FileParts} (merged : mergeIndexes float base delta turns = some (.ok parts))
    (leafBound : parts.leafBlocks.length < 2 ^ 32)
    (blockBound : parts.indexBlocks.length < 2 ^ 32) {prefixes : List Str}
    (decodes : decodePathPrefixSidecar parts.sidecar = .ok prefixes) {files : FileSystem}
    {path : Str} (present : files path = some parts.bytes) {leafTermCacheBytes : Nat}
    (cache : pageSize ≤ leafTermCacheBytes) :
    ∃ loaded, loadFile files path leafTermCacheBytes = .ok loaded ∧
      loadBytes parts.bytes = .ok loaded ∧ ∃ written,
        loaded.table.Holds written ∧ loaded.leafTermBlockCount = written.length ∧
        (∀ key : Str, loaded.table.findTermData key =
          loaded.table.findTermDataHeadLeaf key.beforeNul) ∧
        List.Forall₂ Merges
          ((joined LeafTermEntry.term baseGroups.flatten deltaGroups.flatten).filter fitsLeaf)
          written.flatten := by
  have described := mergeIndexes_described merged leafBound blockBound
  obtain ⟨table, docData, dumped, _, terms, _, isMerged⟩ := mergeIndexes_eq_ok merged
  have isHeads : parts.heads = dumped.heads := by rw [isMerged]
  have isLeafs : parts.leafBlocks = dumped.leafs := by rw [isMerged]
  have isBlocks : parts.indexBlocks = dumped.blocks := by rw [isMerged]
  obtain ⟨written, hold, merges⟩ := mergeTerms_hold baseReads deltaReads terms
  have ascending := written_ascending baseAscending deltaAscending merges
  have fits : ∀ entry ∈ written.flatten, entry.term.len ≤ headTermKeyMax := by
    intro entry member
    obtain ⟨item, listed, merge⟩ := mergedFrom merges member
    rw [merge.term]
    exact of_decide_eq_true (List.mem_filter.mp listed).2
  have holds := mergedTable_holds hold ascending fits (isLeafs ▸ leafBound)
  have agrees : parts.Agrees prefixes := by
    refine ⟨described, decodes, ?_, ?_⟩
    · rw [isHeads]
      exact hold.headsFit fits
    · rw [isLeafs]
      exact hold.leafsValid
  have isTable : (parts.loaded prefixes).table =
      (MemoryTable.mk dumped.heads dumped.leafs dumped.blocks .cleared).table := by
    rw [← isHeads, ← isLeafs, ← isBlocks]
    rfl
  refine ⟨_, agrees.loadFile_bytes present cache, agrees.loadBytes_bytes, written, ?_, ?_, ?_,
    merges⟩
  · rw [isTable]
    exact holds
  · show parts.leafBlocks.length = written.length
    rw [isLeafs, hold.leafCount]
  · intro key
    have noMphf : (parts.loaded prefixes).table.hasTermMphf = false := rfl
    unfold Table.IndexBlockTable.findTermData
    rw [if_neg (by rw [noMphf]; decide)]

/-! ## Lookups -/

/-- The leaf pages of the table hold ascending terms, and all of them are counted. -/
def HoldsTerms (table : Table.IndexBlockTable) (leafTermBlockCount : Nat) : Prop :=
  ∃ groups, table.Holds groups ∧ leafTermBlockCount = groups.length

/-- The documents a location counts, none when there is no location. -/
def frequencyAt (location : Option IndexLocation) : Nat :=
  location.elim 0 fun location => location.docFreq.toNat

theorem lookup_isSome {table : Table.IndexBlockTable} {groups : List (List LeafTermEntry)}
    (holds : table.Holds groups) (term : Str) :
    (table.findTermDataHeadLeaf term).isSome =
      (itemWith LeafTermEntry.term groups.flatten term).isSome := by
  rw [lookup_eq holds, Option.isSome_map]

theorem frequencyAt_lookup {table : Table.IndexBlockTable} {groups : List (List LeafTermEntry)}
    (holds : table.Holds groups) (term : Str) :
    frequencyAt (table.findTermDataHeadLeaf term) =
      frequencyOf (itemWith LeafTermEntry.term groups.flatten term) := by
  rw [lookup_eq holds]
  cases itemWith LeafTermEntry.term groups.flatten term with
  | none => rfl
  | some entry => rfl

/-- Only terms that fit are found. -/
theorem lookup_fits {table : Table.IndexBlockTable} {groups : List (List LeafTermEntry)}
    (holds : table.Holds groups) {term : Str}
    (found : (table.findTermDataHeadLeaf term).isSome = true) : term.len ≤ headTermKeyMax := by
  rw [lookup_isSome holds] at found
  obtain ⟨entry, member, rfl⟩ := itemWith_isSome_iff.mp found
  exact holds.fits entry member

/-- The leaf pages of a table that holds groups are read. -/
theorem LocalIndex.leafsRead_of_holds {index : LocalIndex} {groups : List (List LeafTermEntry)}
    (holds : index.table.Holds groups) (count : index.leafTermBlockCount = groups.length) :
    index.LeafsRead groups where
  count := count.symm
  pages := by
    intro place group found
    obtain ⟨_, _, page, _, _, _, _, isPage, pageOf⟩ := holds.leaf place group found
    exact ⟨page, isPage, pageOf.counted, fun slot _ => pageOf.leafEntry_eq slot⟩

/-- A load of the file of a merge finds exactly the terms of both indexes, each with the sum of
its frequencies, and its table can be merged again. -/
theorem merge_then_find {float : FloatOps} {base delta : LocalIndex}
    (baseHolds : HoldsTerms base.table base.leafTermBlockCount)
    (deltaHolds : HoldsTerms delta.table delta.leafTermBlockCount) {turns : Nat}
    {parts : FileParts} (merged : mergeIndexes float base delta turns = some (.ok parts))
    (leafBound : parts.leafBlocks.length < 2 ^ 32)
    (blockBound : parts.indexBlocks.length < 2 ^ 32) {prefixes : List Str}
    (decodes : decodePathPrefixSidecar parts.sidecar = .ok prefixes) {files : FileSystem}
    {path : Str} (present : files path = some parts.bytes) {leafTermCacheBytes : Nat}
    (cache : pageSize ≤ leafTermCacheBytes) :
    ∃ loaded, loadFile files path leafTermCacheBytes = .ok loaded ∧
      loadBytes parts.bytes = .ok loaded ∧
      HoldsTerms loaded.table loaded.leafTermBlockCount ∧ ∀ key : Str,
        let inBase := base.table.findTermDataHeadLeaf key.beforeNul
        let inDelta := delta.table.findTermDataHeadLeaf key.beforeNul
        ((loaded.table.findTermData key).isSome = true ↔
          inBase.isSome = true ∨ inDelta.isSome = true) ∧
        ∀ location ∈ loaded.table.findTermData key,
          location.docFreq = UInt32.ofNat (frequencyAt inBase + frequencyAt inDelta) := by
  obtain ⟨baseGroups, baseTable, baseCount⟩ := baseHolds
  obtain ⟨deltaGroups, deltaTable, deltaCount⟩ := deltaHolds
  obtain ⟨loaded, fromFile, fromBytes, written, holds, count, headLeaf, merges⟩ :=
    mergeIndexes_lookup (LocalIndex.leafsRead_of_holds baseTable baseCount)
      (LocalIndex.leafsRead_of_holds deltaTable deltaCount) baseTable.ascending
      deltaTable.ascending merged leafBound blockBound decodes present cache
  refine ⟨loaded, fromFile, fromBytes, ⟨written, holds, count⟩, ?_⟩
  intro key inBase inDelta
  have isSome := written_isSome_iff baseTable.ascending deltaTable.ascending merges key.beforeNul
  constructor
  · have either : inBase.isSome = true ∨ inDelta.isSome = true ↔
        (itemWith LeafTermEntry.term baseGroups.flatten key.beforeNul).isSome = true ∨
          (itemWith LeafTermEntry.term deltaGroups.flatten key.beforeNul).isSome = true := by
      rw [lookup_isSome baseTable, lookup_isSome deltaTable]
    rw [headLeaf, lookup_isSome holds, isSome, ← either]
    constructor
    · exact fun both => both.2
    · intro found
      exact ⟨found.elim (lookup_fits baseTable) (lookup_fits deltaTable), found⟩
  · intro location found
    rw [headLeaf, lookup_eq holds] at found
    obtain ⟨entry, isEntry, rfl⟩ := Option.map_eq_some_iff.mp found
    show entry.docFreq = _
    rw [frequencyAt_lookup baseTable, frequencyAt_lookup deltaTable]
    exact written_docFreq baseTable.ascending deltaTable.ascending merges isEntry

/-! ## Merging what was built -/

/-- What is built from a store holds terms. -/
theorem holdsTerms_built {float : FloatOps} {store : PostingStore} {buildVectorIndex : Bool}
    (leafBound : (buildBlocks float store).leafTermBlocks.length < 2 ^ 32) :
    let memory := (buildIndexData float store buildVectorIndex).memory
    HoldsTerms memory.table (memory.leafTermBlocks.length % 2 ^ 32) := by
  obtain ⟨groups, _, _, _, holds⟩ := buildBlocks_holds float store leafBound
  have heads : (buildBlocks float store).headTermEntries.length = groups.length := holds.headCount
  have count : (buildBlocks float store).leafTermBlocks.length = groups.length := by
    rw [← (buildBlocks_wellFormed float store).1, heads]
  refine ⟨groups, ⟨holds.nonempty, holds.ascending, holds.fits, holds.headCount, holds.bound,
    holds.leaf⟩, ?_⟩
  show (buildBlocks float store).leafTermBlocks.length % 2 ^ 32 = groups.length
  rw [Nat.mod_eq_of_lt leafBound, count]

/-- Two indexes that hold the same word, and the file of their merge. -/
theorem merge_then_find_words : ∃ parts loaded,
    mergeIndexes default (wordIndex 0) (wordIndex 1) 2 = some (.ok parts) ∧
      loadBytes parts.bytes = .ok loaded ∧
      HoldsTerms loaded.table loaded.leafTermBlockCount ∧ ∀ key : Str,
        let inBase := (wordIndex 0).table.findTermDataHeadLeaf key.beforeNul
        let inDelta := (wordIndex 1).table.findTermDataHeadLeaf key.beforeNul
        ((loaded.table.findTermData key).isSome = true ↔
          inBase.isSome = true ∨ inDelta.isSome = true) ∧
        ∀ location ∈ loaded.table.findTermData key,
          location.docFreq = UInt32.ofNat (frequencyAt inBase + frequencyAt inDelta) := by
  have baseBound : (buildBlocks default (wordStore 0)).leafTermBlocks.length < 2 ^ 32 := by
    decide +kernel
  have deltaBound : (buildBlocks default (wordStore 1)).leafTermBlocks.length < 2 ^ 32 := by
    decide +kernel
  have baseHolds : HoldsTerms (wordIndex 0).table (wordIndex 0).leafTermBlockCount :=
    holdsTerms_built baseBound
  have deltaHolds : HoldsTerms (wordIndex 1).table (wordIndex 1).leafTermBlockCount :=
    holdsTerms_built deltaBound
  obtain ⟨parts, merged, leafBound, blockBound⟩ := wordIndex_merges
  obtain ⟨table, docData, _, records, _, _, isMerged⟩ := mergeIndexes_eq_ok merged
  have noPrefixes : (mergeDocData (wordIndex 0) (wordIndex 1)).toOption.map
      (fun made => made.1.prefixes) = some [] := by
    decide +kernel
  rw [records] at noPrefixes
  have decodes : decodePathPrefixSidecar parts.sidecar = .ok [] := by
    rw [isMerged]
    show decodePathPrefixSidecar (encodePathPrefixSidecar table.prefixes) = .ok []
    have empty : table.prefixes = [] := Option.some.inj noPrefixes
    rw [empty]
    exact decode_encodePathPrefixSidecar
      ⟨by decide, fun _ member => absurd member List.not_mem_nil⟩
  obtain ⟨files, path, present⟩ :
      ∃ (files : FileSystem) (path : Str), files path = some parts.bytes :=
    ⟨fun _ => some parts.bytes, ⟨[0x61], rfl⟩, rfl⟩
  obtain ⟨loaded, _, opened, finds⟩ := merge_then_find baseHolds deltaHolds merged leafBound
    blockBound decodes present (Nat.le_refl pageSize)
  exact ⟨parts, loaded, merged, opened, finds⟩

end MoonShot.Context
