import MoonShot.Format.LeafPages
import MoonShot.Lib.Sorted

/-!
Term lookup in an index block table (`IndexBlockTable::FindTermData`).

Owns the table as lookup sees it (head entries, leaf blocks, posting blocks,
the optional minimal perfect hash), the cut of the key at its first NUL byte,
the hash path and the head and leaf path. `Holds` says that the leaf pages
hold groups of entries in ascending term order under their head entries; under
it the head and leaf path finds exactly the entries of the groups.

The bloom filter in front of the lookup accepts every term and is left out.
-/

namespace MoonShot.Table

open MoonShot.Lib
open MoonShot.Postings
open MoonShot.Format

/-! ## Minimal perfect hash -/

/-- `TERM_MPHF_MAGIC` -/
def termMphfMagic : UInt64 := 0x4850464d4d524554

/-- `TERM_MPHF_ENTRY_SIZE` -/
def termMphfEntrySize : Nat := 32

structure TermMphfHeader where
  magic : UInt64
  termCount : UInt64
  bucketCount : UInt32
  slotCount : UInt32
  bucketSeed : UInt64
  slotSeed : UInt64
  fingerprintSeed : UInt64
deriving DecidableEq

/-- `TermMphfHeader::default` -/
def TermMphfHeader.default : TermMphfHeader := ⟨termMphfMagic, 0, 0, 0, 0, 0, 0⟩

/-- `TermMphfHeader::zeroed` -/
def TermMphfHeader.zeroed : TermMphfHeader := ⟨0, 0, 0, 0, 0, 0, 0⟩

def termMphfHash (term : Bytes) (seed : UInt64) : UInt64 :=
  let hash := term.foldl (fun hash byte => (hash ^^^ byte.toUInt64) * 1099511628211)
    ((1469598103934665603 : UInt64) ^^^ seed)
  let hash := (hash ^^^ (hash >>> 32)) * 0xd6e8feb86659fd93
  hash ^^^ (hash >>> 32)

def termMphfSlotSeed (seed : UInt64) (displacement : UInt32) : UInt64 :=
  let x := seed ^^^ ((0x9e3779b97f4a7c15 : UInt64) * (displacement.toUInt64 + 1))
  let x := (x ^^^ (x >>> 30)) * 0xbf58476d1ce4e5b9
  let x := (x ^^^ (x >>> 27)) * 0x94d049bb133111eb
  x ^^^ (x >>> 31)

/-- The hash tables of a block table; the counts of the source are the lengths
as 32-bit values. -/
structure TermMphf where
  header : TermMphfHeader
  displacements : List Int
  entryPages : List Page
  enabled : Bool

/-- The tables after `ClearTermMphf`. -/
def TermMphf.cleared : TermMphf := ⟨TermMphfHeader.default, [], [], true⟩

/-- `IndexBlockTable`, as term lookup and readers use it. -/
structure IndexBlockTable where
  headTermEntries : List HeadTermEntry
  leafBlocks : BlockSource
  indexBlocks : BlockSource
  mphf : TermMphf

/-- The blocks of a pool filled by `SetPoolMemory`: every block has its own
slot, so none is ever read from a file. -/
def memoryBlocks (blocks : List Page) : BlockSource := fun blockId =>
  if blockId < blocks.length % 2 ^ 32 then blocks[blockId]? else none

namespace IndexBlockTable

def hasTermMphf (table : IndexBlockTable) : Bool :=
  let mphf := table.mphf
  let displacementCount := UInt32.ofNat mphf.displacements.length
  let entryPageCount := UInt32.ofNat mphf.entryPages.length
  mphf.enabled && mphf.header.magic == termMphfMagic && mphf.header.termCount > 0 &&
    mphf.header.bucketCount > 0 && mphf.header.slotCount > 0 &&
    displacementCount == mphf.header.bucketCount &&
    mphf.displacements.length == displacementCount.toNat &&
    mphf.entryPages.length == entryPageCount.toNat &&
    entryPageCount.toNat * pageSize ≥ mphf.header.slotCount.toNat * termMphfEntrySize

/-- `FindTermDataMphf` -/
def findTermDataMphf (table : IndexBlockTable) (term : Bytes) : Option IndexLocation :=
  if table.hasTermMphf = false then none
  else
    let header := table.mphf.header
    let bucket := (termMphfHash term header.bucketSeed).toNat % header.bucketCount.toNat
    match table.mphf.displacements[bucket]? with
    | none => none
    | some displacement =>
        let slot :=
          if displacement < 0 then (-displacement - 1).toNat
          else
            (termMphfHash term
              (termMphfSlotSeed header.slotSeed (UInt32.ofNat displacement.toNat))).toNat %
              header.slotCount.toNat
        if slot ≥ header.slotCount.toNat then none
        else
          let byteOffset := slot * termMphfEntrySize
          match table.mphf.entryPages[byteOffset / pageSize]? with
          | none => none
          | some page =>
              let data := slice page.data (byteOffset % pageSize) termMphfEntrySize
              let hash := termMphfHash term header.fingerprintSeed
              let fingerprint := if hash = 0 then 1 else hash
              if u64At data 24 = fingerprint then
                some
                  { docFreq := u32At data 0
                    indexBlockId := u32At data 4
                    indexOffset := (u32At data 8).toNat
                    indexLength := (u32At data 12).toNat
                    continuationBlockCount := u32At data 16 }
              else none

/-! ## Head and leaf search -/

/-- The search inside one leaf block. -/
def findInLeaf (page : Page) (term : Str) : Option IndexLocation :=
  let probe := fun index => (leafEntry page index).map fun entry => decide (entry.term < term)
  match lowerBound probe (entryCount page) 0 (entryCount page) with
  | none => none
  | some left =>
      if left = entryCount page then none
      else
        match leafEntry page left with
        | none => none
        | some entry => if entry.term = term then some entry.location else none

/-- `FindTermDataHeadLeaf`. `partition_point` on head entries that ascend is
the length of the run of entries not above the term. -/
def findTermDataHeadLeaf (table : IndexBlockTable) (term : Str) : Option IndexLocation :=
  let entries := table.headTermEntries.take (2 ^ 32 - 1)
  if entries = [] ∨ term.len > headTermKeyMax then none
  else
    let pos := (entries.takeWhile fun entry => entry.firstTermStr ≤ term).length
    if pos = 0 then none
    else
      match entries[pos - 1]? with
      | none => none
      | some entry =>
          match table.leafBlocks entry.leafTermBlockId.toNat with
          | none => none
          | some page => findInLeaf page term

/-- `FindTermData`: the key counts up to its first NUL byte. -/
def findTermData (table : IndexBlockTable) (key : Str) : Option IndexLocation :=
  let term := key.beforeNul
  if table.hasTermMphf then
    match table.findTermDataMphf term.bytes with
    | some location => some location
    | none => table.findTermDataHeadLeaf term
  else table.findTermDataHeadLeaf term

/-! ## Lookup in ordered leaf pages -/

/-- The terms of the entries ascend strictly. -/
def AscendingTerms (entries : List LeafTermEntry) : Prop :=
  entries.Pairwise fun left right => left.term < right.term

/-- The leaf pages hold the groups, each under a head entry with its first term
and its page number, and terms ascend over all groups. -/
structure Holds (table : IndexBlockTable) (groups : List (List LeafTermEntry)) : Prop where
  nonempty : ∀ group ∈ groups, group ≠ []
  ascending : AscendingTerms groups.flatten
  fits : ∀ entry ∈ groups.flatten, entry.term.len ≤ headTermKeyMax
  headCount : table.headTermEntries.length = groups.length
  bound : groups.length < 2 ^ 32
  leaf : ∀ index group, groups[index]? = some group →
    ∃ head first page, table.headTermEntries[index]? = some head ∧
      group.head? = some first ∧ head.firstTermStr = first.term ∧
      head.leafTermBlockId.toNat = index ∧
      table.leafBlocks index = some page ∧ LeafPageOf page group

/-- The search inside a leaf page finds the entry with the term. -/
theorem findInLeaf_eq {page : Page} {group : List LeafTermEntry} (leaf : LeafPageOf page group)
    (ascending : AscendingTerms group) (term : Str) :
    findInLeaf page term =
      (group.find? fun entry => entry.term = term).map LeafTermEntry.location := by
  have boundLe := rank_le LeafTermEntry.term group term
  -- The probe switches where the terms stop being smaller.
  have searched : lowerBound
      (fun index => (leafEntry page index).map fun entry => decide (entry.term < term))
      (entryCount page) 0 (entryCount page) = some (rank LeafTermEntry.term group term) := by
    rw [leaf.counted]
    refine lowerBound_eq (by omega) (Nat.zero_le _) boundLe ?_ ?_
    · intro index _ before
      obtain ⟨entry, found⟩ : ∃ entry, group[index]? = some entry :=
        ⟨_, List.getElem?_eq_getElem (by omega)⟩
      have passes := (lt_rank_iff ascending found).mp before
      simp [leaf.leafEntry_eq, found, passes]
    · intro index after inside
      obtain ⟨entry, found⟩ : ∃ entry, group[index]? = some entry :=
        ⟨_, List.getElem?_eq_getElem inside⟩
      have stops : ¬ entry.term < term := by
        rw [← lt_rank_iff ascending found]
        omega
      simp [leaf.leafEntry_eq, found, not_lt.mp stops]
  unfold findInLeaf
  dsimp only
  rw [searched]
  dsimp only
  rw [leaf.counted, leaf.leafEntry_eq, find?_eq_at_rank ascending]
  cases at_ : group[rank LeafTermEntry.term group term]? with
  | none =>
      have past := List.getElem?_eq_none_iff.mp at_
      rw [if_pos (by omega)]
      rfl
  | some entry =>
      have inside := (List.getElem?_eq_some_iff.mp at_).1
      rw [if_neg (by omega)]
      by_cases same : entry.term = term
      · simp [same]
      · simp [same]

section HeadLeaf

variable {table : IndexBlockTable} {groups : List (List LeafTermEntry)}

private theorem Holds.takeAll (holds : Holds table groups) :
    table.headTermEntries.take (2 ^ 32 - 1) = table.headTermEntries := by
  have count := holds.headCount
  have bound := holds.bound
  exact List.take_of_length_le (by omega)

/-- Entries of an earlier group come before those of a later one. -/
private theorem Holds.groupOrder (holds : Holds table groups) {left right : Nat}
    (before : left < right) {leftGroup rightGroup : List LeafTermEntry}
    (leftFound : groups[left]? = some leftGroup) (rightFound : groups[right]? = some rightGroup)
    {leftEntry rightEntry : LeafTermEntry} (leftMember : leftEntry ∈ leftGroup)
    (rightMember : rightEntry ∈ rightGroup) : leftEntry.term < rightEntry.term := by
  have order := (List.pairwise_flatten.mp holds.ascending).2
  obtain ⟨leftInside, leftEq⟩ := List.getElem?_eq_some_iff.mp leftFound
  obtain ⟨rightInside, rightEq⟩ := List.getElem?_eq_some_iff.mp rightFound
  have across := List.pairwise_iff_getElem.mp order left right leftInside rightInside before
  rw [leftEq, rightEq] at across
  exact across leftEntry leftMember rightEntry rightMember

private theorem Holds.headOf (holds : Holds table groups) {index : Nat} {head : HeadTermEntry}
    (found : table.headTermEntries[index]? = some head) :
    ∃ group first page, groups[index]? = some group ∧ group.head? = some first ∧
      head.firstTermStr = first.term ∧ table.leafBlocks head.leafTermBlockId.toNat = some page ∧
      LeafPageOf page group := by
  have inside := (List.getElem?_eq_some_iff.mp found).1
  have count := holds.headCount
  have groupFound : groups[index]? = some (groups[index]) := List.getElem?_eq_getElem (by omega)
  obtain ⟨other, first, page, sameHead, firstEq, termEq, idEq, pageFound, leaf⟩ :=
    holds.leaf index _ groupFound
  obtain rfl : head = other := by
    rw [found] at sameHead
    exact Option.some.inj sameHead
  exact ⟨_, first, page, groupFound, firstEq, termEq, by rw [idEq]; exact pageFound, leaf⟩

/-- A head entry lies before the partition point exactly when its first term is
not above the key. -/
private theorem Holds.lt_pos_iff (holds : Holds table groups) (term : Str) {index : Nat}
    {head : HeadTermEntry} (found : table.headTermEntries[index]? = some head) :
    index < (table.headTermEntries.takeWhile fun entry => entry.firstTermStr ≤ term).length ↔
      head.firstTermStr ≤ term := by
  have closed : table.headTermEntries.Pairwise fun earlier later =>
      decide (later.firstTermStr ≤ term) = true → decide (earlier.firstTermStr ≤ term) = true := by
    rw [List.pairwise_iff_getElem]
    intro left right leftInside rightInside before
    obtain ⟨_, leftFirst, _, leftGroup, leftHead, leftTerm, _⟩ :=
      holds.headOf (List.getElem?_eq_getElem leftInside)
    obtain ⟨_, rightFirst, _, rightGroup, rightHead, rightTerm, _⟩ :=
      holds.headOf (List.getElem?_eq_getElem rightInside)
    have order := holds.groupOrder before leftGroup rightGroup
      (List.mem_of_head? leftHead) (List.mem_of_head? rightHead)
    rw [decide_eq_true_eq, decide_eq_true_eq, leftTerm, rightTerm]
    intro rightBelow
    exact le_trans order.le rightBelow
  rw [lt_takeWhile_length_iff closed found, decide_eq_true_eq]

/-- A term is only looked for in the group before the partition point. -/
private theorem Holds.find_in_group (holds : Holds table groups) {term : Str} {index : Nat}
    {group : List LeafTermEntry} (found : groups[index]? = some group)
    (reached : ∀ first, group.head? = some first → first.term ≤ term)
    (nextAbove : ∀ next first, groups[index + 1]? = some next → next.head? = some first →
      term < first.term) :
    (groups.flatten.find? fun entry => entry.term = term) =
      group.find? fun entry => entry.term = term := by
  obtain ⟨inside, groupEq⟩ := List.getElem?_eq_some_iff.mp found
  have split : groups = groups.take index ++ (group :: groups.drop (index + 1)) := by
    rw [← groupEq, ← List.drop_eq_getElem_cons inside, List.take_append_drop]
  obtain ⟨first, firstEq⟩ : ∃ first, group.head? = some first := by
    have nonempty := holds.nonempty group (List.mem_of_getElem? found)
    exact ⟨group.head nonempty, List.head?_eq_some_head nonempty⟩
  have earlier : (groups.take index).flatten.find? (fun entry => decide (entry.term = term)) =
      none := by
    rw [List.find?_eq_none]
    intro entry member
    obtain ⟨other, otherMember, entryMember⟩ := List.mem_flatten.mp member
    obtain ⟨position, positionFound⟩ := List.getElem?_of_mem otherMember
    have below : position < index := by
      have := (List.getElem?_eq_some_iff.mp positionFound).1
      rw [List.length_take] at this
      omega
    rw [List.getElem?_take_of_lt below] at positionFound
    have order := holds.groupOrder below positionFound found entryMember
      (List.mem_of_head? firstEq)
    simpa using (lt_of_lt_of_le order (reached first firstEq)).ne
  have later : (groups.drop (index + 1)).flatten.find?
      (fun entry => decide (entry.term = term)) = none := by
    rw [List.find?_eq_none]
    intro entry member
    obtain ⟨other, otherMember, entryMember⟩ := List.mem_flatten.mp member
    obtain ⟨position, positionFound⟩ := List.getElem?_of_mem otherMember
    rw [List.getElem?_drop] at positionFound
    obtain ⟨next, nextFound⟩ : ∃ next, groups[index + 1]? = some next := by
      have := (List.getElem?_eq_some_iff.mp positionFound).1
      exact ⟨_, List.getElem?_eq_getElem (by omega)⟩
    have nextNonempty := holds.nonempty next (List.mem_of_getElem? nextFound)
    have above := nextAbove next _ nextFound (List.head?_eq_some_head nextNonempty)
    have order : (next.head nextNonempty).term ≤ entry.term := by
      rcases Nat.eq_zero_or_pos position with zero | positive
      · rw [zero, Nat.add_zero, nextFound] at positionFound
        obtain rfl := Option.some.inj positionFound
        obtain ⟨head, rest, rfl⟩ := List.exists_cons_of_ne_nil nextNonempty
        have ascending := (List.pairwise_flatten.mp holds.ascending).1 _
          (List.mem_of_getElem? nextFound)
        rcases List.mem_cons.mp entryMember with same | inRest
        · exact le_of_eq (congrArg LeafTermEntry.term same.symm)
        · exact ((List.pairwise_cons.mp ascending).1 entry inRest).le
      · exact (holds.groupOrder (by omega) nextFound positionFound
          (List.head_mem nextNonempty) entryMember).le
    simpa using (lt_of_lt_of_le above order).ne'
  conv_lhs => rw [split]
  rw [List.flatten_append, List.flatten_cons, List.find?_append, earlier, List.find?_append, later]
  simp

/-- The head and leaf path finds exactly the entries of the groups. -/
theorem Holds.findTermDataHeadLeaf_eq (holds : Holds table groups) (term : Str) :
    table.findTermDataHeadLeaf term =
      (groups.flatten.find? fun entry => entry.term = term).map LeafTermEntry.location := by
  have missing : (∀ entry ∈ groups.flatten, entry.term ≠ term) →
      (groups.flatten.find? fun entry => decide (entry.term = term)) = none := by
    intro absent
    rw [List.find?_eq_none]
    intro entry member
    simpa using absent entry member
  have count := holds.headCount
  unfold findTermDataHeadLeaf
  rw [holds.takeAll]
  dsimp only
  by_cases skipped : table.headTermEntries = [] ∨ term.len > headTermKeyMax
  · rw [if_pos skipped, missing]
    · rfl
    · rcases skipped with empty | long
      · rw [empty] at count
        rw [List.length_eq_zero_iff.mp count.symm]
        simp
      · intro entry member same
        have := holds.fits entry member
        rw [same] at this
        omega
  · rw [if_neg skipped]
    generalize posEq :
      (table.headTermEntries.takeWhile fun entry => entry.firstTermStr ≤ term).length = pos
    have posLe : pos ≤ table.headTermEntries.length := by
      rw [← posEq]
      exact (List.takeWhile_sublist _).length_le
    have side : ∀ index head, table.headTermEntries[index]? = some head →
        (index < pos ↔ head.firstTermStr ≤ term) := by
      intro index head found
      rw [← posEq]
      exact holds.lt_pos_iff term found
    by_cases none_ : pos = 0
    · rw [if_pos none_, missing]
      · rfl
      · intro entry member same
        obtain ⟨group, groupMember, entryMember⟩ := List.mem_flatten.mp member
        obtain ⟨index, groupFound⟩ := List.getElem?_of_mem groupMember
        obtain ⟨head, first, page, headFound, firstEq, termEq, _, _, leaf⟩ :=
          holds.leaf index group groupFound
        have above : ¬ head.firstTermStr ≤ term := by
          rw [← side index head headFound]
          omega
        obtain ⟨firstHead, rest, rfl⟩ :=
          List.exists_cons_of_ne_nil (holds.nonempty group groupMember)
        obtain rfl : firstHead = first := by simpa using firstEq
        have ascending := (List.pairwise_flatten.mp holds.ascending).1 _ groupMember
        rw [termEq, ← same] at above
        rcases List.mem_cons.mp entryMember with isFirst | inRest
        · exact above (le_of_eq (congrArg LeafTermEntry.term isFirst.symm))
        · exact above ((List.pairwise_cons.mp ascending).1 entry inRest).le
    · rw [if_neg none_]
      have found : table.headTermEntries[pos - 1]? =
          some (table.headTermEntries[pos - 1]) := List.getElem?_eq_getElem (by omega)
      obtain ⟨group, first, page, groupFound, firstEq, termEq, pageFound, leaf⟩ :=
        holds.headOf found
      have ascending := (List.pairwise_flatten.mp holds.ascending).1 _
        (List.mem_of_getElem? groupFound)
      rw [found]
      dsimp only
      rw [pageFound]
      dsimp only
      rw [findInLeaf_eq leaf ascending, holds.find_in_group groupFound]
      · intro other otherEq
        obtain rfl : first = other := by
          rw [firstEq] at otherEq
          exact Option.some.inj otherEq
        rw [← termEq, ← side _ _ found]
        omega
      · intro next nextFirst nextFound nextFirstEq
        obtain ⟨head, otherFirst, _, headFound, otherFirstEq, otherTermEq, _⟩ :=
          holds.leaf _ next nextFound
        obtain rfl : nextFirst = otherFirst := by
          rw [nextFirstEq] at otherFirstEq
          exact Option.some.inj otherFirstEq
        rw [← otherTermEq, ← not_le, ← side _ _ headFound]
        omega

end HeadLeaf

end IndexBlockTable

end MoonShot.Table
