import MoonShot.Postings.Store
import MoonShot.Serializer.PostingBlocks
import MoonShot.Table.Lookup

/-!
`IndexSerializer::BuildBlocks`: from a posting store to posting pages, leaf
pages and head entries.

Owns the leaf writer with its two reasons to start a new page, the loop over
the sorted terms, and its result: every kept term has exactly one leaf entry,
in term order, whose location holds the encoding of its list.

Does not own lookup and reading, which only use that result.
-/

namespace MoonShot.Serializer

open MoonShot.Lib
open MoonShot.Postings
open MoonShot.Format
open MoonShot.Table

/-! ## The leaf writer -/

/-- `leaf_blocks`, `head_entries`, `leaf_block`, `leaf_write_offset`,
`leaf_entry_count` and `first_leaf_term`. -/
structure LeafWriter where
  leafBlocks : List Page
  headEntries : List HeadTermEntry
  leafBlock : Page
  writeOffset : Nat
  entryCount : Nat
  firstLeafTerm : Str

namespace LeafWriter

def new : LeafWriter := ⟨[], [], Page.zero, 0, 0, Str.empty⟩

/-- `flush_leaf_block` -/
def flush (writer : LeafWriter) : LeafWriter :=
  if writer.entryCount = 0 then writer
  else
    { leafBlocks := writer.leafBlocks ++ [writeEntryCount writer.leafBlock writer.entryCount]
      headEntries := writer.headEntries ++
        [HeadTermEntry.new writer.firstLeafTerm (UInt32.ofNat writer.leafBlocks.length)]
      leafBlock := Page.zero
      writeOffset := 0
      entryCount := 0
      firstLeafTerm := Str.empty }

/-- The leaf part of the loop: a page is full by slots or by bytes. -/
def add (writer : LeafWriter) (entry : LeafTermEntry) : LeafWriter :=
  let writer :=
    if writer.entryCount > 0 ∧
        (writer.entryCount ≥ leafTermDirectoryCount - 1 ∨
          writer.writeOffset + entry.byteLen > leafDataSize) then writer.flush
    else writer
  let writer := if writer.entryCount = 0 then { writer with firstLeafTerm := entry.term } else writer
  { writer with
    leafBlock := writeLeafEntry writer.leafBlock writer.entryCount writer.writeOffset entry
    writeOffset := writer.writeOffset + entry.byteLen
    entryCount := writer.entryCount + 1 }

/-- The writer has finished the groups and is filling a page with `current`. -/
structure Of (writer : LeafWriter) (groups : List (List LeafTermEntry))
    (current : List LeafTermEntry) : Prop where
  blockCount : writer.leafBlocks.length = groups.length
  headCount : writer.headEntries.length = groups.length
  nonempty : ∀ group ∈ groups, group ≠ []
  finished : ∀ index group, groups[index]? = some group →
    ∃ page first, writer.leafBlocks[index]? = some page ∧ LeafPageOf page group ∧
      group.head? = some first ∧
      writer.headEntries[index]? = some (HeadTermEntry.new first.term (UInt32.ofNat index))
  holds : LeafHolds writer.leafBlock current
  offset : writer.writeOffset = entriesBytes current
  count : writer.entryCount = current.length
  first : ∀ entry, current.head? = some entry → writer.firstLeafTerm = entry.term
  lengths : ∀ entry ∈ current, entry.LengthStored

theorem of_new : Of new [] [] :=
  ⟨rfl, rfl, by simp, by simp, leafHolds_nil _, rfl, rfl, by simp, by simp⟩

theorem Of.flush {writer : LeafWriter} {groups : List (List LeafTermEntry)}
    {current : List LeafTermEntry} (of : Of writer groups current) :
    ∃ finished, Of writer.flush finished [] ∧ finished.flatten = groups.flatten ++ current := by
  have count := of.count
  by_cases none_ : writer.entryCount = 0
  · have empty : current = [] := List.length_eq_zero_iff.mp (by omega)
    subst empty
    refine ⟨groups, ?_, by simp⟩
    rw [LeafWriter.flush, if_pos none_]
    exact of
  · have currentNonempty : current ≠ [] := by
      rintro rfl
      exact none_ count
    obtain ⟨first, rest, rfl⟩ := List.exists_cons_of_ne_nil currentNonempty
    refine ⟨groups ++ [first :: rest], ?_, by simp⟩
    rw [LeafWriter.flush, if_neg none_]
    refine ⟨by simp [of.blockCount], by simp [of.headCount], ?_, ?_, leafHolds_nil _, rfl, rfl,
      by simp, by simp⟩
    · intro group member
      rcases List.mem_append.mp member with old | new
      · exact of.nonempty group old
      · rw [List.mem_singleton.mp new]
        simp
    · intro index group found
      by_cases last : index = groups.length
      · rw [last, List.getElem?_concat_length] at found
        obtain rfl := Option.some.inj found
        refine ⟨writeEntryCount writer.leafBlock writer.entryCount, first, ?_, ⟨?_, ?_, of.lengths⟩,
          rfl, ?_⟩
        · show (writer.leafBlocks ++ [_])[index]? = _
          rw [last, ← of.blockCount, List.getElem?_concat_length]
        · exact of.holds.writeEntryCount _
        · rw [count]
          exact directoryAt_writeEntryCount _ of.holds.count
        · show (writer.headEntries ++ [_])[index]? = _
          rw [last, ← of.headCount, List.getElem?_concat_length, of.first first rfl, of.blockCount,
            of.headCount]
      · have inside : index < groups.length := by
          have := (List.getElem?_eq_some_iff.mp found).1
          rw [List.length_append, List.length_singleton] at this
          omega
        rw [List.getElem?_append_left inside] at found
        obtain ⟨page, firstEntry, pageFound, leaf, head, headFound⟩ := of.finished index group found
        refine ⟨page, firstEntry, ?_, leaf, head, ?_⟩
        · show (writer.leafBlocks ++ [_])[index]? = _
          rw [List.getElem?_append_left (by rw [of.blockCount]; exact inside)]
          exact pageFound
        · show (writer.headEntries ++ [_])[index]? = _
          rw [List.getElem?_append_left (by rw [of.headCount]; exact inside)]
          exact headFound

/-- Putting an entry behind the current ones, when the page has room. -/
private theorem Of.put {writer : LeafWriter} {groups : List (List LeafTermEntry)}
    {current : List LeafTermEntry} (of : Of writer groups current) {entry : LeafTermEntry}
    (lengthStored : entry.LengthStored)
    (fits : entriesBytes current + entry.byteLen ≤ leafDataSize)
    (slotFree : current.length < leafTermDirectoryCount - 1) :
    Of
      (let writer :=
        if writer.entryCount = 0 then { writer with firstLeafTerm := entry.term } else writer
      { writer with
        leafBlock := writeLeafEntry writer.leafBlock writer.entryCount writer.writeOffset entry
        writeOffset := writer.writeOffset + entry.byteLen
        entryCount := writer.entryCount + 1 })
      groups (current ++ [entry]) := by
  have stored := of.holds.append fits slotFree
  rw [← of.offset, ← of.count] at stored
  have lengths : ∀ other ∈ current ++ [entry], other.LengthStored := by
    intro other member
    rcases List.mem_append.mp member with old | new
    · exact of.lengths other old
    · rw [List.mem_singleton.mp new]
      exact lengthStored
  by_cases none_ : writer.entryCount = 0
  · have empty : current = [] := List.length_eq_zero_iff.mp (by rw [← of.count]; exact none_)
    subst empty
    simp only [if_pos none_]
    exact ⟨of.blockCount, of.headCount, of.nonempty, of.finished, stored,
      by simp [of.offset], by simp [of.count], by simp, lengths⟩
  · simp only [if_neg none_]
    refine ⟨of.blockCount, of.headCount, of.nonempty, of.finished, stored,
      by simp [of.offset], by simp [of.count], ?_, lengths⟩
    intro first head
    obtain ⟨other, rest, rfl⟩ : ∃ other rest, current = other :: rest := by
      apply List.exists_cons_of_ne_nil
      rintro rfl
      exact none_ of.count
    exact of.first first (by simpa using head)

theorem Of.add {writer : LeafWriter} {groups : List (List LeafTermEntry)}
    {current : List LeafTermEntry} (of : Of writer groups current) {entry : LeafTermEntry}
    (lengthStored : entry.LengthStored) (fits : entry.byteLen ≤ leafDataSize) :
    ∃ finished page, Of (writer.add entry) finished page ∧
      finished.flatten ++ page = groups.flatten ++ current ++ [entry] := by
  have constants : leafTermDirectoryCount = 161 := rfl
  have count := of.count
  have offset := of.offset
  unfold LeafWriter.add
  by_cases full : writer.entryCount > 0 ∧
      (writer.entryCount ≥ leafTermDirectoryCount - 1 ∨
        writer.writeOffset + entry.byteLen > leafDataSize)
  · obtain ⟨finished, flushed, flat⟩ := of.flush
    rw [if_pos full]
    exact ⟨finished, [entry], flushed.put lengthStored (by simpa using fits) (by simp [constants]),
      by rw [flat]⟩
  · rw [if_neg full]
    have room : entriesBytes current + entry.byteLen ≤ leafDataSize := by
      by_cases none_ : writer.entryCount = 0
      · have empty : current = [] := List.length_eq_zero_iff.mp (by omega)
        simpa [empty] using fits
      · omega
    exact ⟨groups, current ++ [entry], of.put lengthStored room (by omega), by simp⟩

end LeafWriter

/-! ## The loop over the terms -/

structure BuildState where
  index : BlockWriter
  leaf : LeafWriter
  totalTerms : UInt64

def BuildState.new : BuildState := ⟨.new, .new, 0⟩

/-- The leaf entry of a placed list, with the casts of the source. -/
def builtEntry (term : Str) (list : PostingList) (placement : BlockWriter.Placement) :
    LeafTermEntry where
  term := term
  docFreq := list.docFreq
  indexBlockId := UInt32.ofNat placement.blockId
  indexOffset := UInt16.ofNat placement.offset
  indexLength := UInt16.ofNat placement.length
  continuationBlockCount := UInt16.ofNat placement.continuationBlockCount
  flags := 0
  termLength := UInt8.ofNat term.len

/-- The body of the `for` loop of `BuildBlocks`. -/
def addTerm (float : FloatOps) (state : BuildState) (term : Str × PostingList) : BuildState :=
  if term.1.len > headTermKeyMax then state
  else
    let bytes := term.2.getBytes float
    if bytes = [] then state
    else
      match state.index.placePostings bytes with
      | (index, none) => { state with index := index }
      | (index, some placement) =>
          { index := index
            leaf := state.leaf.add (builtEntry term.1 term.2 placement)
            totalTerms := state.totalTerms + 1 }

/-- `sort_by_key` on the terms, which are distinct. -/
def sortedTerms (store : PostingStore) : List (Str × PostingList) :=
  store.postings.entries.insertionSort fun left right => left.1 ≤ right.1

structure BuildBlocksResult where
  indexBlocks : List Page
  headTermEntries : List HeadTermEntry
  leafTermBlocks : List Page
  termMphfHeader : TermMphfHeader
  termMphfDisplacements : List Int
  termMphfEntryPages : List Page
  totalTerms : UInt64

/-- `BuildBlocks` -/
def buildBlocks (float : FloatOps) (store : PostingStore) : BuildBlocksResult :=
  let state := (sortedTerms store).foldl (addTerm float) .new
  let leaf := state.leaf.flush
  { indexBlocks := state.index.close
    headTermEntries := leaf.headEntries
    leafTermBlocks := leaf.leafBlocks
    termMphfHeader := .zeroed
    termMphfDisplacements := []
    termMphfEntryPages := []
    totalTerms := state.totalTerms }

/-- Where `BuildBlocks` puts the list of a key: what the loop has written
before it reaches the key decides the page and the offset. -/
def placementFor (float : FloatOps) (store : PostingStore) (key : Str) :
    Option BlockWriter.Placement :=
  match store.getPostingList key with
  | none => none
  | some list =>
      if key.len > headTermKeyMax then none
      else
        let before := (sortedTerms store).takeWhile fun term => term.1 ≠ key
        ((before.foldl (addTerm float) .new).index.placePostings (list.getBytes float)).2

/-- A fresh table after `SetBlockMemory` and `SetHeadTermEntries`. -/
def BuildBlocksResult.table (result : BuildBlocksResult) : IndexBlockTable where
  headTermEntries := result.headTermEntries
  leafBlocks := memoryBlocks result.leafTermBlocks
  indexBlocks := memoryBlocks result.indexBlocks
  mphf := .cleared

/-! ### Sorted terms -/

theorem sortedTerms_perm (store : PostingStore) :
    (sortedTerms store).Perm store.postings.entries :=
  List.perm_insertionSort _ _

theorem sortedTerms_ascending (store : PostingStore) :
    (sortedTerms store).Pairwise fun left right => left.1 < right.1 := by
  have ordered : (sortedTerms store).Pairwise fun left right => left.1 ≤ right.1 := by
    have total : Std.Total fun left right : Str × PostingList => left.1 ≤ right.1 :=
      ⟨fun left right => le_total left.1 right.1⟩
    have transitive : IsTrans (Str × PostingList) fun left right => left.1 ≤ right.1 :=
      ⟨fun _ _ _ => le_trans⟩
    exact List.pairwise_insertionSort _ _
  have distinct : ((sortedTerms store).map Prod.fst).Nodup :=
    ((sortedTerms_perm store).map Prod.fst).nodup_iff.mpr store.postings.nodup
  rw [List.nodup_iff_pairwise_ne, List.pairwise_map] at distinct
  exact (ordered.and distinct).imp fun both => lt_of_le_of_ne both.1 both.2

theorem mem_sortedTerms {store : PostingStore} {key : Str} {list : PostingList} :
    (key, list) ∈ sortedTerms store ↔ store.getPostingList key = some list := by
  rw [(sortedTerms_perm store).mem_iff]
  exact store.postings.mem_entries_iff key list

/-! ### The loop invariant -/

/-- The loop gives the term a leaf entry. -/
def Kept (float : FloatOps) (term : Str × PostingList) : Prop :=
  term.1.len ≤ headTermKeyMax ∧ term.2.getBytes float ≠ []

instance (float : FloatOps) (term : Str × PostingList) : Decidable (Kept float term) :=
  inferInstanceAs (Decidable (_ ∧ _))

/-- A term the loop has placed. -/
structure Emitted where
  term : Str
  list : PostingList
  placement : BlockWriter.Placement

def Emitted.entry (emitted : Emitted) : LeafTermEntry :=
  builtEntry emitted.term emitted.list emitted.placement

/-- The writer holds the list of the emitted term where its placement says. -/
def Emitted.Placed (float : FloatOps) (index : BlockWriter) (emitted : Emitted) : Prop :=
  ∃ first chunks, emitted.list.postings float = first ++ chunks.flatten ∧
    BlockWriter.Placed index emitted.placement first chunks

/-- After the terms in `done`: one entry for each kept term, in order, each
list placed where the entry says, at the position the writer had then. -/
structure Built (float : FloatOps) (done : List (Str × PostingList)) (state : BuildState)
    (emitted : List Emitted) : Prop where
  terms : (emitted.map fun emitted => (emitted.term, emitted.list)) =
    done.filter fun term => Kept float term
  inside : state.index.wptr ≤ pageSize
  placed : ∀ item ∈ emitted, item.Placed float state.index
  position : ∀ item ∈ emitted, ∃ before after, done = before ++ (item.term, item.list) :: after ∧
    ((before.foldl (addTerm float) .new).index.placePostings (item.list.getBytes float)).2 =
      some item.placement
  leaf : ∃ groups current, state.leaf.Of groups current ∧
    groups.flatten ++ current = emitted.map Emitted.entry

theorem built_new (float : FloatOps) : Built float [] .new [] :=
  ⟨rfl, Nat.zero_le _, by simp, by simp, [], [], LeafWriter.of_new, rfl⟩

private theorem builtEntry_lengthStored {term : Str} (fits : term.len ≤ headTermKeyMax)
    (list : PostingList) (placement : BlockWriter.Placement) :
    (builtEntry term list placement).LengthStored ∧
      (builtEntry term list placement).byteLen ≤ leafDataSize := by
  have constants : headTermKeyMax = 26 ∧ leafDataSize = 3774 ∧ leafTermEntrySize = 16 := by decide
  constructor
  · show (UInt8.ofNat term.len).toNat = term.len
    rw [UInt8.toNat_ofNat']
    omega
  · show leafTermEntrySize + term.len ≤ leafDataSize
    omega

/-- One turn of the loop. -/
theorem Built.step {float : FloatOps} {done : List (Str × PostingList)} {emitted : List Emitted}
    (built : Built float done (done.foldl (addTerm float) .new) emitted)
    (term : Str × PostingList) :
    ∃ emitted', Built float (done ++ [term])
      ((done ++ [term]).foldl (addTerm float) .new) emitted' := by
  rw [List.foldl_append, List.foldl_cons, List.foldl_nil]
  generalize stateEq : done.foldl (addTerm float) .new = state at built
  -- The position facts of earlier terms survive a longer list of processed terms.
  have position : ∀ item ∈ emitted, ∃ before after,
      done ++ [term] = before ++ (item.term, item.list) :: after ∧
        ((before.foldl (addTerm float) .new).index.placePostings
          (item.list.getBytes float)).2 = some item.placement := by
    intro item member
    obtain ⟨before, after, split, placedAt⟩ := built.position item member
    exact ⟨before, after ++ [term], by rw [split]; simp, placedAt⟩
  by_cases kept : Kept float term
  · have nonempty : term.2.postings float ≠ [] := by
      intro empty
      apply kept.2
      rw [PostingList.getBytes, empty, encodePostings_nil]
    obtain ⟨index, placement, first, chunks, placedAt, split, placed, keeps, inside⟩ :=
      BlockWriter.placePostings_spec built.inside nonempty
    obtain ⟨groups, current, of, flat⟩ := built.leaf
    obtain ⟨lengthStored, fits⟩ := builtEntry_lengthStored kept.1 term.2 placement
    obtain ⟨finished, page, ofNext, flatNext⟩ := of.add lengthStored fits
    have bytesEq : term.2.getBytes float = encodePostings (term.2.postings float) := rfl
    have stepped : addTerm float state term =
        ⟨index, state.leaf.add (builtEntry term.1 term.2 placement), state.totalTerms + 1⟩ := by
      unfold addTerm
      rw [if_neg (not_lt.mpr kept.1)]
      dsimp only
      rw [if_neg kept.2, bytesEq, placedAt]
    refine ⟨emitted ++ [⟨term.1, term.2, placement⟩], ?_⟩
    rw [stepped]
    refine ⟨?_, inside, ?_, ?_, finished, page, ofNext, ?_⟩
    · rw [List.map_append, built.terms, List.filter_append]
      simp [kept]
    · intro item member
      rcases List.mem_append.mp member with old | new
      · obtain ⟨oldFirst, oldChunks, oldSplit, oldPlaced⟩ := built.placed item old
        exact ⟨oldFirst, oldChunks, oldSplit, oldPlaced.mono keeps⟩
      · rw [List.mem_singleton.mp new]
        exact ⟨first, chunks, split, placed⟩
    · intro item member
      rcases List.mem_append.mp member with old | new
      · exact position item old
      · rw [List.mem_singleton.mp new]
        refine ⟨done, [], rfl, ?_⟩
        rw [stateEq, bytesEq, placedAt]
    · rw [flatNext, flat, List.map_append]
      rfl
  · have skipped : addTerm float state term = state := by
      unfold addTerm
      by_cases long : term.1.len > headTermKeyMax
      · rw [if_pos long]
      · have empty : term.2.getBytes float = [] := by
          by_contra nonempty
          exact kept ⟨not_lt.mp long, nonempty⟩
        rw [if_neg long]
        dsimp only
        rw [if_pos empty]
    rw [skipped]
    refine ⟨emitted, ?_, built.inside, built.placed, position, built.leaf⟩
    rw [built.terms, List.filter_append]
    simp [kept]

/-- The whole loop. -/
theorem built_all (float : FloatOps) (terms : List (Str × PostingList)) :
    ∃ emitted, Built float terms (terms.foldl (addTerm float) .new) emitted := by
  induction terms using List.reverseRecOn with
  | nil => exact ⟨[], built_new float⟩
  | append_singleton done term inductionHypothesis =>
      obtain ⟨emitted, built⟩ := inductionHypothesis
      exact built.step term

/-! ## The built table -/

theorem memoryBlocks_eq {blocks : List Page} (bound : blocks.length < 2 ^ 32) {blockId : Nat}
    {page : Page} (found : blocks[blockId]? = some page) :
    memoryBlocks blocks blockId = some page := by
  have inside := (List.getElem?_eq_some_iff.mp found).1
  rw [memoryBlocks, Nat.mod_eq_of_lt bound, if_pos inside, found]

/-- Committed continuation pages are what the closed writer hands out. -/
theorem BlockWriter.ChainCommitted.close {writer : BlockWriter}
    (bound : writer.close.length < 2 ^ 32) {blockId : Nat} {chunks : List (List Posting)}
    (chain : writer.ChainCommitted blockId chunks) :
    ChainStored (memoryBlocks writer.close) blockId chunks ∧
      (chunks ≠ [] → blockId + chunks.length ≤ writer.close.length) := by
  induction chunks generalizing blockId with
  | nil => exact ⟨trivial, by simp⟩
  | cons chunk rest inductionHypothesis =>
      obtain ⟨⟨nonempty, header, body⟩, tail⟩ := chain
      obtain ⟨restStored, restBound⟩ := inductionHypothesis tail
      have headerNonempty : (chunkHeader chunk).toBytes ≠ [] := by
        apply List.ne_nil_of_length_pos
        rw [ContinuationHeader.toBytes_length]
        decide
      have bodyNonempty : encodePostings chunk ≠ [] := by
        rw [Ne, encodePostings_eq_nil_iff]
        exact nonempty
      obtain ⟨page, found, headerStored⟩ := header.close headerNonempty
      obtain ⟨samePage, sameFound, bodyStored⟩ := body.close bodyNonempty
      obtain rfl : page = samePage := by
        rw [found] at sameFound
        exact Option.some.inj sameFound
      rw [ContinuationHeader.toBytes_length] at headerStored
      have inside := (List.getElem?_eq_some_iff.mp found).1
      refine ⟨⟨⟨page, memoryBlocks_eq bound found, nonempty, body.inside, headerStored, bodyStored⟩,
        restStored⟩, ?_⟩
      intro _
      rw [List.length_cons]
      cases rest with
      | nil => exact inside
      | cons next rest =>
          have := restBound (by simp)
          omega

private theorem chainStored_take {blocks : BlockSource} {blockId : Nat} {chunks : List (List Posting)}
    (stored : ChainStored blocks blockId chunks) (count : Nat) :
    ChainStored blocks blockId (chunks.take count) := by
  induction chunks generalizing blockId count with
  | nil =>
      rw [List.take_nil]
      trivial
  | cons chunk rest inductionHypothesis =>
      cases count with
      | zero => trivial
      | succ count => exact ⟨stored.1, inductionHypothesis stored.2 count⟩

/-- A placed list is stored where its leaf entry says, up to the number of
continuation pages that the entry counts. -/
theorem Emitted.listStored_counted {float : FloatOps} {index : BlockWriter} {emitted : Emitted}
    (placed : emitted.Placed float index) (bound : index.close.length < 2 ^ 32) :
    ∃ (first : List Posting) (chunks : List (List Posting)),
      emitted.list.postings float = first ++ chunks.flatten ∧ first ≠ [] ∧
      emitted.placement.continuationBlockCount = chunks.length ∧
      ListStored (memoryBlocks index.close) emitted.entry.location first
        (chunks.take (chunks.length % 65536)) := by
  obtain ⟨first, chunks, split, placed⟩ := placed
  have sizes : pageSize = 4096 := rfl
  have bodyNonempty : encodePostings first ≠ [] := by
    rw [Ne, encodePostings_eq_nil_iff]
    exact placed.nonempty
  obtain ⟨page, found, stored⟩ := placed.body.close bodyNonempty
  obtain ⟨chain, chainBound⟩ := placed.chain.close bound
  have inside := placed.body.inside
  have length := placed.length
  have count := placed.count
  have counted := Nat.mod_le chunks.length 65536
  have blockInside := (List.getElem?_eq_some_iff.mp found).1
  have blockId : emitted.entry.location.indexBlockId.toNat = emitted.placement.blockId := by
    show (UInt32.ofNat emitted.placement.blockId).toNat = _
    rw [UInt32.toNat_ofNat']
    omega
  have offset : emitted.entry.location.indexOffset = emitted.placement.offset := by
    show (UInt16.ofNat emitted.placement.offset).toNat = _
    rw [UInt16.toNat_ofNat']
    omega
  have lengthEq : emitted.entry.location.indexLength = (encodePostings first).length := by
    show (UInt16.ofNat emitted.placement.length).toNat = _
    rw [UInt16.toNat_ofNat', length]
    omega
  have takeLength : (chunks.take (chunks.length % 65536)).length = chunks.length % 65536 := by
    rw [List.length_take]
    omega
  have countEq : emitted.entry.location.continuationBlockCount.toNat = chunks.length % 65536 := by
    show (UInt16.ofNat emitted.placement.continuationBlockCount).toUInt32.toNat = _
    rw [UInt16.toNat_toUInt32, UInt16.toNat_ofNat', count]
  have idBound : emitted.placement.blockId + chunks.length < 2 ^ 32 := by
    cases chunks with
    | nil =>
        rw [List.length_nil]
        omega
    | cons chunk rest =>
        have := chainBound (by simp)
        omega
  refine ⟨first, chunks, split, placed.nonempty, count,
    ⟨⟨page, ?_, ?_⟩, ?_, lengthEq, ?_, by rw [countEq, takeLength], ?_⟩⟩
  · rw [blockId]
    exact memoryBlocks_eq bound found
  · rw [offset, lengthEq]
    exact stored
  · rw [offset, lengthEq]
    exact inside
  · rw [blockId]
    exact chainStored_take chain _
  · rw [blockId, takeLength]
    omega

/-- A placed list is stored where its leaf entry says, provided the values
survive the casts of the entry. -/
theorem Emitted.listStored {float : FloatOps} {index : BlockWriter} {emitted : Emitted}
    (placed : emitted.Placed float index) (bound : index.close.length < 2 ^ 32)
    (continuations : emitted.placement.continuationBlockCount ≤ 65535) :
    ∃ first chunks, emitted.list.postings float = first ++ chunks.flatten ∧
      ListStored (memoryBlocks index.close) emitted.entry.location first chunks ∧
      chunks.length ≤ 65535 := by
  obtain ⟨first, chunks, split, _, count, stored⟩ := Emitted.listStored_counted placed bound
  have few : chunks.length ≤ 65535 := by omega
  rw [Nat.mod_eq_of_lt (by omega), List.take_length] at stored
  exact ⟨first, chunks, split, stored, few⟩

/-- The leaf pages built from a store: groups of the entries of the kept terms. -/
theorem buildBlocks_groups (float : FloatOps) (store : PostingStore) :
    ∃ groups emitted,
      Built float (sortedTerms store) ((sortedTerms store).foldl (addTerm float) .new) emitted ∧
      groups.flatten = emitted.map Emitted.entry ∧
      LeafWriter.Of ((sortedTerms store).foldl (addTerm float) .new).leaf.flush groups [] ∧
      IndexBlockTable.AscendingTerms groups.flatten ∧
      ∀ entry ∈ groups.flatten, entry.term.len ≤ headTermKeyMax := by
  obtain ⟨emitted, built⟩ := built_all float (sortedTerms store)
  obtain ⟨finished, current, of, flat⟩ := built.leaf
  obtain ⟨groups, flushed, flatFlushed⟩ := of.flush
  have entries : groups.flatten = emitted.map Emitted.entry := flatFlushed.trans flat
  refine ⟨groups, emitted, built, entries, flushed, ?_, ?_⟩
  · have order := (sortedTerms_ascending store).sublist
      (List.filter_sublist (p := fun term => Kept float term))
    rw [← built.terms, List.pairwise_map] at order
    unfold IndexBlockTable.AscendingTerms
    rw [entries, List.pairwise_map]
    exact order
  · intro entry member
    rw [entries] at member
    obtain ⟨item, itemMember, rfl⟩ := List.mem_map.mp member
    have : (item.term, item.list) ∈ (sortedTerms store).filter fun term => Kept float term := by
      rw [← built.terms]
      exact List.mem_map_of_mem itemMember
    have kept : Kept float (item.term, item.list) := by
      simpa using (List.mem_filter.mp this).2
    exact kept.1

/-- The table built from a store holds the groups of its leaf pages. -/
theorem buildBlocks_holdsGroups {float : FloatOps} {store : PostingStore}
    {groups : List (List LeafTermEntry)}
    (written : LeafWriter.Of ((sortedTerms store).foldl (addTerm float) .new).leaf.flush groups [])
    (ascending : IndexBlockTable.AscendingTerms groups.flatten)
    (fits : ∀ entry ∈ groups.flatten, entry.term.len ≤ headTermKeyMax)
    (leafBound : (buildBlocks float store).leafTermBlocks.length < 2 ^ 32) :
    IndexBlockTable.Holds (buildBlocks float store).table groups := by
  have blockCount : (buildBlocks float store).leafTermBlocks.length = groups.length :=
    written.blockCount
  refine ⟨written.nonempty, ascending, fits, written.headCount, by omega, ?_⟩
  intro index group found
  obtain ⟨page, first, pageFound, leaf, head, headFound⟩ := written.finished index group found
  have inside := (List.getElem?_eq_some_iff.mp found).1
  have firstFits : first.term.len ≤ headTermKeyMax := by
    apply fits
    exact List.mem_flatten.mpr ⟨group, List.mem_of_getElem? found, List.mem_of_head? head⟩
  refine ⟨_, first, page, headFound, head, HeadTermEntry.firstTermStr_new firstFits, ?_,
    memoryBlocks_eq leafBound pageFound, leaf⟩
  show (UInt32.ofNat index).toNat = index
  rw [UInt32.toNat_ofNat']
  omega

/-- The table built from a store holds one entry for each kept term. -/
theorem buildBlocks_holds (float : FloatOps) (store : PostingStore)
    (leafBound : (buildBlocks float store).leafTermBlocks.length < 2 ^ 32) :
    ∃ groups emitted,
      Built float (sortedTerms store) ((sortedTerms store).foldl (addTerm float) .new) emitted ∧
      groups.flatten = emitted.map Emitted.entry ∧
      IndexBlockTable.Holds (buildBlocks float store).table groups := by
  obtain ⟨groups, emitted, built, entries, written, ascending, fits⟩ :=
    buildBlocks_groups float store
  exact ⟨groups, emitted, built, entries,
    buildBlocks_holdsGroups written ascending fits leafBound⟩

/-- The head entries and leaf pages built from a store are accepted when a file
is read back. -/
theorem buildBlocks_wellFormed (float : FloatOps) (store : PostingStore) :
    (buildBlocks float store).headTermEntries.length =
        (buildBlocks float store).leafTermBlocks.length ∧
      (∀ head ∈ (buildBlocks float store).headTermEntries,
        head.firstTermLength.toNat ≤ headTermKeyMax) ∧
      ∀ page ∈ (buildBlocks float store).leafTermBlocks, leafBlockValid page = true := by
  obtain ⟨groups, emitted, _, _, flushed, _, fits⟩ := buildBlocks_groups float store
  have blockCount : (buildBlocks float store).leafTermBlocks.length = groups.length :=
    flushed.blockCount
  have headCount : (buildBlocks float store).headTermEntries.length = groups.length :=
    flushed.headCount
  have groupAt : ∀ index, index < groups.length → ∃ (page : Page) (first : LeafTermEntry),
      (buildBlocks float store).leafTermBlocks[index]? = some page ∧
      leafBlockValid page = true ∧ first.term.len ≤ headTermKeyMax ∧
      (buildBlocks float store).headTermEntries[index]? =
        some (HeadTermEntry.new first.term (UInt32.ofNat index)) := by
    intro index inside
    have found : groups[index]? = some groups[index] := List.getElem?_eq_getElem inside
    obtain ⟨page, first, pageFound, leaf, head, headFound⟩ := flushed.finished index _ found
    refine ⟨page, first, pageFound, leaf.valid, ?_, headFound⟩
    apply fits
    exact List.mem_flatten.mpr ⟨_, List.mem_of_getElem? found, List.mem_of_head? head⟩
  refine ⟨headCount.trans blockCount.symm, ?_, ?_⟩
  · intro head member
    obtain ⟨index, inside, rfl⟩ := List.mem_iff_getElem.mp member
    obtain ⟨page, first, _, _, firstFits, headFound⟩ := groupAt index (by omega)
    rw [List.getElem?_eq_getElem inside] at headFound
    rw [Option.some.inj headFound]
    exact HeadTermEntry.new_firstTermLength firstFits
  · intro page member
    obtain ⟨index, inside, rfl⟩ := List.mem_iff_getElem.mp member
    obtain ⟨other, first, pageFound, valid, _⟩ := groupAt index (by omega)
    rw [List.getElem?_eq_getElem inside] at pageFound
    rw [Option.some.inj pageFound]
    exact valid

end MoonShot.Serializer
