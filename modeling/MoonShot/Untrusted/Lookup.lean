import MoonShot.Untrusted.Load

/-!
Term lookup in untrusted tables (`IndexBlockTable::FindTermData`).

Owns the lookup with every check, over the tables that `LoadFromBytes` installs:
head entries and leaf entries in any order, any block ids, any hash tables. It never
faults. `partition_point` is the one of the standard library, which promises nothing
about a slice that is not partitioned, and is a parameter here.

Does not own the block cache: blocks are what it hands out.
-/

namespace MoonShot.Untrusted

open MoonShot.Lib
open MoonShot.Postings
open MoonShot.Format
open MoonShot.Table
open MoonShot.Serializer

/-- `partition_point`, by the answers of its predicate. -/
structure PartitionPoint where
  point : List Bool → Nat
  inside : ∀ answers, point answers ≤ answers.length
  partitioned : ∀ front back : List Bool, (∀ answer ∈ front, answer = true) →
    (∀ answer ∈ back, answer = false) → point (front ++ back) = front.length

/-- The number of answers before the first `false`. -/
def PartitionPoint.leading : PartitionPoint where
  point answers := (answers.takeWhile id).length
  inside answers := (List.takeWhile_sublist id).length_le
  partitioned front back before behind := by
    rw [List.takeWhile_append_of_pos (p := id) before]
    cases back with
    | nil => rw [List.takeWhile_nil, List.append_nil]
    | cons first rest =>
        have stops : ¬ id first = true := by
          rw [id, behind first List.mem_cons_self]
          decide
        rw [List.takeWhile_cons_of_neg stops, List.append_nil]

/-- On items that answer `true` up to some point, the point is the number of them. -/
theorem PartitionPoint.point_map (point : PartitionPoint) {α : Type} {items : List α}
    {answer : α → Bool}
    (once : items.Pairwise fun left right => answer right = true → answer left = true) :
    point.point (items.map answer) = (items.takeWhile answer).length := by
  have split := List.takeWhile_append_dropWhile (p := answer) (l := items)
  have behind : ∀ item ∈ items.dropWhile answer, answer item = false := by
    have tail := once.sublist (List.dropWhile_sublist answer)
    have stopped := List.head?_dropWhile_not answer items
    cases rest : items.dropWhile answer with
    | nil => exact fun item member => absurd member List.not_mem_nil
    | cons first others =>
        rw [rest] at tail stopped
        have firstStops : answer first = false := stopped
        intro item member
        rcases List.mem_cons.mp member with rfl | later
        · exact firstStops
        · have reached := (List.pairwise_cons.mp tail).1 item later
          rw [Bool.eq_false_iff]
          intro passes
          rw [reached passes] at firstStops
          cases firstStops
  have counted := point.partitioned ((items.takeWhile answer).map answer)
    ((items.dropWhile answer).map answer)
    (List.forall_mem_map.mpr fun item member => List.mem_takeWhile_imp member)
    (List.forall_mem_map.mpr behind)
  rw [← List.map_append, split, List.length_map] at counted
  exact counted

/-! ## Lookup without checks -/

section Unchecked

variable (point : PartitionPoint) (table : IndexBlockTable)

/-- `FindTermDataHeadLeaf` with this `partition_point`. -/
def locateHeadLeaf (term : Str) : Option IndexLocation :=
  let entries := table.headTermEntries.take (2 ^ 32 - 1)
  if entries = [] ∨ term.len > headTermKeyMax then none
  else
    let pos := point.point (entries.map fun entry => decide (entry.firstTermStr ≤ term))
    if pos = 0 then none
    else
      match entries[pos - 1]? with
      | none => none
      | some entry =>
          match table.leafBlocks entry.leafTermBlockId.toNat with
          | none => none
          | some page => IndexBlockTable.findInLeaf page term

/-- `FindTermData` with this `partition_point`. -/
def locate (key : Str) : Option IndexLocation :=
  let term := key.beforeNul
  if table.hasTermMphf then
    match table.findTermDataMphf term.bytes with
    | some location => some location
    | none => locateHeadLeaf point table term
  else locateHeadLeaf point table term

/-- Under ascending head entries every `partition_point` finds the same. -/
theorem locate_eq_of_ascending
    (ascending : table.headTermEntries.Pairwise fun left right =>
      left.firstTermStr ≤ right.firstTermStr) (key : Str) :
    locate point table key = table.findTermData key := by
  have same : ∀ term, locateHeadLeaf point table term = table.findTermDataHeadLeaf term := by
    intro term
    have ordered := ascending.sublist (List.take_sublist (2 ^ 32 - 1) table.headTermEntries)
    have once : (table.headTermEntries.take (2 ^ 32 - 1)).Pairwise fun left right =>
        decide (right.firstTermStr ≤ term) = true → decide (left.firstTermStr ≤ term) = true :=
      (ordered.imp fun below reached => decide_eq_true (le_trans below (of_decide_eq_true reached)))
    have counted := point.point_map once
    unfold locateHeadLeaf IndexBlockTable.findTermDataHeadLeaf
    dsimp only
    exact counted ▸ rfl
  unfold locate IndexBlockTable.findTermData
  dsimp only
  cases table.hasTermMphf with
  | false => exact same _
  | true =>
      cases table.findTermDataMphf key.beforeNul.bytes with
      | none => exact same _
      | some location => rfl

end Unchecked

/-! ## Lookup with checks -/

/-- `HeadTermEntry::first_term` -/
def firstTerm (entry : HeadTermEntry) : Checked Str := do
  let bytes ← readSlice entry.firstTerm 0 entry.firstTermLength.toNat
  return (Str.fromUtf8 bytes).getD Str.empty

/-- The loop of the search in a leaf block; `none` when an entry is missing. -/
def searchLeaf (page : Page) (term : Str) : (turns left right : Nat) → Checked (Option Nat)
  | 0, left, right => if left < right then .error .unfinished else .ok (some left)
  | turns + 1, left, right =>
      if left < right then do
        let width ← subUsize right left
        let mid ← addUsize left (width / 2)
        match ← leafEntry page mid with
        | none => return none
        | some entry =>
            if entry.term < term then
              let left ← addUsize mid 1
              searchLeaf page term turns left right
            else searchLeaf page term turns left mid
      else .ok (some left)

/-- The closure of `FindTermDataHeadLeaf` on the leaf block. -/
def findInLeaf (page : Page) (term : Str) : Checked (Option IndexLocation) := do
  let count ← entryCount page
  match ← searchLeaf page term count 0 count with
  | none => return none
  | some left =>
      if left = count then return none
      else
        match ← leafEntry page left with
        | none => return none
        | some entry => return if entry.term = term then some entry.location else none

section Checked

variable (point : PartitionPoint) (table : IndexBlockTable)

/-- `FindTermDataHeadLeaf`. The predicate is asked about every entry, so a fault of
it is never missed. -/
def findTermDataHeadLeaf (term : Str) : Checked (Option IndexLocation) :=
  let entries := table.headTermEntries.take (2 ^ 32 - 1)
  if entries = [] ∨ term.len > headTermKeyMax then .ok none
  else do
    let answers ← entries.mapM fun entry => do
      let first ← firstTerm entry
      return decide (first ≤ term)
    let pos := point.point answers
    if pos = 0 then return none
    else
      match entries[pos - 1]? with
      | none => .error .outOfBounds
      | some entry =>
          match table.leafBlocks entry.leafTermBlockId.toNat with
          | none => return none
          | some page => findInLeaf page term

/-- `HasTermMphf` -/
def hasTermMphf : Checked Bool := do
  let mphf := table.mphf
  let displacementCount := UInt32.ofNat mphf.displacements.length
  let entryPageCount := UInt32.ofNat mphf.entryPages.length
  let available ← mulUsize entryPageCount.toNat pageSize
  let required ← mulUsize mphf.header.slotCount.toNat termMphfEntrySize
  return mphf.enabled && mphf.header.magic == termMphfMagic && mphf.header.termCount > 0 &&
    mphf.header.bucketCount > 0 && mphf.header.slotCount > 0 &&
    displacementCount == mphf.header.bucketCount &&
    mphf.displacements.length == displacementCount.toNat &&
    mphf.entryPages.length == entryPageCount.toNat && available ≥ required

/-- `TermMphfSlotSeed`: all but the first addition wraps around. -/
def slotSeed (seed : UInt64) (displacement : UInt32) : Checked UInt64 := do
  let _next ← addU64 displacement.toUInt64 1
  return termMphfSlotSeed seed displacement

/-- The slot of a term in its bucket. -/
def slotOf (term : Bytes) (displacement : Int) : Checked Nat :=
  if displacement < 0 then do
    let negated ← fitI64 (-displacement)
    let slot ← fitI64 (negated - 1)
    return slot.toNat
  else do
    let seed ← slotSeed table.mphf.header.slotSeed (UInt32.ofNat displacement.toNat)
    remUsize (termMphfHash term seed).toNat table.mphf.header.slotCount.toNat

/-- The entry in a slot, under the fingerprint of the term. -/
def readMphfEntry (fingerprint : UInt64) (data : Bytes) : Checked (Option IndexLocation) := do
  let stored ← readU64 data 24
  if stored ≠ fingerprint then return none
  else
    let docFreq ← readU32 data 0
    let indexBlockId ← readU32 data 4
    let indexOffset ← readU32 data 8
    let indexLength ← readU32 data 12
    let continuationBlockCount ← readU32 data 16
    return some ⟨docFreq, indexBlockId, indexOffset.toNat, indexLength.toNat, continuationBlockCount⟩

/-- `FindTermDataMphf` -/
def findTermDataMphf (term : Bytes) : Checked (Option IndexLocation) := do
  let enabled ← hasTermMphf table
  if enabled = false then return none
  else
    let header := table.mphf.header
    let bucket ← remUsize (termMphfHash term header.bucketSeed).toNat header.bucketCount.toNat
    match table.mphf.displacements[bucket]? with
    | none => return none
    | some displacement =>
        let slot ← slotOf table term displacement
        if slot ≥ header.slotCount.toNat then return none
        else
          let byteOffset ← mulUsize slot termMphfEntrySize
          if byteOffset / pageSize ≥ (UInt32.ofNat table.mphf.entryPages.length).toNat then return none
          else
            match table.mphf.entryPages[byteOffset / pageSize]? with
            | none => return none
            | some page =>
                let stop ← addUsize (byteOffset % pageSize) termMphfEntrySize
                let data ← readSlice page.data (byteOffset % pageSize) stop
                let hash := termMphfHash term header.fingerprintSeed
                readMphfEntry (if hash = 0 then 1 else hash) data

/-- `&text[..stop]`, which faults inside a character. -/
def prefixOf (text : Str) (stop : Nat) : Checked Str := do
  let bytes ← readSlice text.bytes 0 stop
  match Str.fromUtf8 bytes with
  | some front => return front
  | none => .error .outOfBounds

/-- `FindTermData` -/
def findTermData (key : Str) : Checked (Option IndexLocation) := do
  let termLength := (key.bytes.takeWhile (· != 0)).length
  let termBytes ← readSlice key.bytes 0 termLength
  let term ← prefixOf key termLength
  if ← hasTermMphf table then
    match ← findTermDataMphf table termBytes with
    | some location => return some location
    | none => findTermDataHeadLeaf point table term
  else findTermDataHeadLeaf point table term

end Checked

/-! ## Lookup never faults -/

/-- What lookup relies on in a table. -/
structure LookupReady (table : IndexBlockTable) : Prop where
  headsFit : ∀ entry ∈ table.headTermEntries, entry.firstTermLength.toNat ≤ headTermKeyMax
  displacements : ∀ displacement ∈ table.mphf.displacements,
    -2 ^ 31 ≤ displacement ∧ displacement < 2 ^ 31

section Leaf

variable {page : Page} {term : Str}

/-- The search ends within as many turns as there are entries. -/
theorem searchLeaf_eq {turns left right : Nat} (enough : right - left ≤ turns)
    (range : right < 2 ^ 63) :
    searchLeaf page term turns left right =
      .ok (lowerBound (fun index =>
        (Format.leafEntry page index).map fun entry => decide (entry.term < term))
          turns left right) := by
  induction turns generalizing left right with
  | zero =>
      rw [searchLeaf, if_neg (by omega)]
      rfl
  | succ turns inductionHypothesis =>
      rw [searchLeaf, lowerBound]
      by_cases more : left < right
      · rw [if_pos more, if_pos more, subUsize_eq more.le]
        show (addUsize left ((right - left) / 2) >>= _) = _
        rw [addUsize_eq (by omega)]
        show (leafEntry page (left + (right - left) / 2) >>= _) = _
        rw [leafEntry_eq]
        dsimp only
        cases Format.leafEntry page (left + (right - left) / 2) with
        | none => rfl
        | some entry =>
            show (if entry.term < term then _ else _) = _
            by_cases below : entry.term < term
            · rw [if_pos below, addUsize_eq (by omega), Option.map_some, decide_eq_true below]
              exact inductionHypothesis (by omega) range
            · rw [if_neg below, Option.map_some, decide_eq_false below]
              exact inductionHypothesis (by omega) (by omega)
      · rw [if_neg more, if_neg more]

theorem findInLeaf_eq : findInLeaf page term = .ok (IndexBlockTable.findInLeaf page term) := by
  have few : Format.entryCount page ≤ leafTermDirectoryCount - 1 := Nat.min_le_right _ _
  have size : leafTermDirectoryCount = 161 := rfl
  unfold findInLeaf IndexBlockTable.findInLeaf
  rw [entryCount_eq]
  show (searchLeaf page term (Format.entryCount page) 0 (Format.entryCount page) >>= _) = _
  rw [searchLeaf_eq (by omega) (by omega)]
  dsimp only
  cases lowerBound (fun index =>
      (Format.leafEntry page index).map fun entry => decide (entry.term < term))
        (Format.entryCount page) 0 (Format.entryCount page) with
  | none => rfl
  | some left =>
      show (if left = Format.entryCount page then _ else _) =
        Except.ok (if left = Format.entryCount page then none else _)
      by_cases last : left = Format.entryCount page
      · rw [if_pos last, if_pos last]
        rfl
      · rw [if_neg last, if_neg last, leafEntry_eq]
        cases Format.leafEntry page left with
        | none => rfl
        | some entry => rfl

end Leaf

section Table

variable {table : IndexBlockTable}

theorem hasTermMphf_eq (table : IndexBlockTable) : hasTermMphf table = .ok table.hasTermMphf := by
  have pages := (UInt32.ofNat table.mphf.entryPages.length).toNat_lt
  have slots := table.mphf.header.slotCount.toNat_lt
  have sizes : pageSize = 4096 ∧ termMphfEntrySize = 32 := ⟨rfl, rfl⟩
  unfold hasTermMphf
  dsimp only
  rw [mulUsize_eq (by rw [sizes.1]; omega), mulUsize_eq (by rw [sizes.2]; omega)]
  rfl

/-- The counts of hash tables that are there. -/
theorem hasTermMphf_counts (enabled : table.hasTermMphf = true) :
    0 < table.mphf.header.bucketCount.toNat ∧ 0 < table.mphf.header.slotCount.toNat ∧
      table.mphf.entryPages.length = (UInt32.ofNat table.mphf.entryPages.length).toNat := by
  simp only [IndexBlockTable.hasTermMphf, Bool.and_eq_true, decide_eq_true_eq,
    beq_iff_eq] at enabled
  obtain ⟨⟨⟨⟨⟨⟨_, buckets⟩, slots⟩, _⟩, _⟩, pages⟩, _⟩ := enabled
  exact ⟨UInt32.lt_iff_toNat_lt.mp buckets, UInt32.lt_iff_toNat_lt.mp slots, pages⟩

/-- The slot of a term, as the lookup without checks computes it. -/
theorem slotOf_eq {term : Bytes} {displacement : Int} (slots : 0 < table.mphf.header.slotCount.toNat)
    (range : -2 ^ 31 ≤ displacement ∧ displacement < 2 ^ 31) :
    slotOf table term displacement = .ok (
      if displacement < 0 then (-displacement - 1).toNat
      else (termMphfHash term (termMphfSlotSeed table.mphf.header.slotSeed
        (UInt32.ofNat displacement.toNat))).toNat % table.mphf.header.slotCount.toNat) := by
  unfold slotOf
  by_cases negative : displacement < 0
  · rw [if_pos negative, if_pos negative, fitI64_eq (by omega) (by omega)]
    show (fitI64 (-displacement - 1) >>= _) = _
    rw [fitI64_eq (by omega) (by omega)]
    rfl
  · have next := (UInt32.ofNat displacement.toNat).toNat_lt
    have one : (1 : UInt64).toNat = 1 := rfl
    rw [if_neg negative, if_neg negative, slotSeed,
      addU64_eq (by rw [UInt32.toNat_toUInt64, one]; omega)]
    exact remUsize_eq slots

theorem readMphfEntry_eq {fingerprint : UInt64} {data : Bytes} (length : data.length = 32) :
    readMphfEntry fingerprint data = .ok (
      if u64At data 24 = fingerprint then
        some
          { docFreq := u32At data 0
            indexBlockId := u32At data 4
            indexOffset := (u32At data 8).toNat
            indexLength := (u32At data 12).toNat
            continuationBlockCount := u32At data 16 }
      else none) := by
  have word : ∀ offset, offset + 4 ≤ 32 → readU32 data offset = .ok (u32At data offset) :=
    fun offset inside => readU32_eq (by omega) (by omega)
  unfold readMphfEntry
  rw [readU64_eq (by omega) (by decide)]
  show (if u64At data 24 ≠ fingerprint then _ else _) = _
  by_cases same : u64At data 24 = fingerprint
  · rw [if_neg (not_not.mpr same), if_pos same, word 0 (by decide), word 4 (by decide),
      word 8 (by decide), word 12 (by decide), word 16 (by decide)]
    rfl
  · rw [if_pos same, if_neg same]
    rfl

/-- The byte offset of a slot is a multiple of the entry size. -/
theorem slot_inside (slot : Nat) : slot * termMphfEntrySize % pageSize + termMphfEntrySize ≤ pageSize := by
  have sizes : pageSize = 4096 ∧ termMphfEntrySize = 32 := ⟨rfl, rfl⟩
  rw [sizes.1, sizes.2]
  omega

theorem findTermDataMphf_eq (ready : LookupReady table) (term : Bytes) :
    findTermDataMphf table term = .ok (table.findTermDataMphf term) := by
  unfold findTermDataMphf IndexBlockTable.findTermDataMphf
  rw [hasTermMphf_eq]
  show (if table.hasTermMphf = false then _ else _) = _
  by_cases off : table.hasTermMphf = false
  · rw [if_pos off, if_pos off]
    rfl
  · have enabled : table.hasTermMphf = true := Bool.eq_true_of_not_eq_false off
    obtain ⟨bucketCount, slotCount, pages⟩ := hasTermMphf_counts enabled
    have slotRange := table.mphf.header.slotCount.toNat_lt
    have entrySize : termMphfEntrySize = 32 := rfl
    rw [if_neg off, if_neg off, remUsize_eq bucketCount, ok_bind]
    dsimp only
    cases found : table.mphf.displacements[(termMphfHash term table.mphf.header.bucketSeed).toNat %
        table.mphf.header.bucketCount.toNat]? with
    | none => rfl
    | some displacement =>
        dsimp only
        rw [slotOf_eq slotCount (ready.displacements displacement (List.mem_of_getElem? found))]
        generalize (if displacement < 0 then (-displacement - 1).toNat
          else (termMphfHash term (termMphfSlotSeed table.mphf.header.slotSeed
            (UInt32.ofNat displacement.toNat))).toNat % table.mphf.header.slotCount.toNat) = slot
        show (if slot ≥ table.mphf.header.slotCount.toNat then _ else _) = _
        by_cases beyond : slot ≥ table.mphf.header.slotCount.toNat
        · rw [if_pos beyond, if_pos beyond]
          rfl
        · rw [if_neg beyond, if_neg beyond, mulUsize_eq (by rw [entrySize]; omega)]
          show (if slot * termMphfEntrySize / pageSize ≥ _ then _ else _) = _
          rw [← pages]
          by_cases past : slot * termMphfEntrySize / pageSize ≥ table.mphf.entryPages.length
          · rw [if_pos past, List.getElem?_eq_none past]
            rfl
          · rw [if_neg past]
            cases table.mphf.entryPages[slot * termMphfEntrySize / pageSize]? with
            | none => rfl
            | some page =>
                have inside := slot_inside slot
                have bytes : slot * termMphfEntrySize % pageSize + termMphfEntrySize ≤
                    page.data.length := by rw [page.size]; exact inside
                have sized : pageSize = 4096 := rfl
                dsimp only
                rw [addUsize_eq (by omega)]
                show (readSlice page.data _ _ >>= _) = _
                rw [readSlice_add bytes]
                exact readMphfEntry_eq (slice_length_of_le bytes)

theorem firstTerm_eq {entry : HeadTermEntry} (fits : entry.firstTermLength.toNat ≤ headTermKeyMax) :
    firstTerm entry = .ok entry.firstTermStr := by
  unfold firstTerm HeadTermEntry.firstTermStr
  rw [readSlice_eq (Nat.zero_le _) (by rw [entry.size]; exact fits)]
  rfl

theorem findTermDataHeadLeaf_eq (point : PartitionPoint) (ready : LookupReady table) (term : Str) :
    findTermDataHeadLeaf point table term = .ok (locateHeadLeaf point table term) := by
  unfold findTermDataHeadLeaf locateHeadLeaf
  dsimp only
  by_cases nothing : table.headTermEntries.take (2 ^ 32 - 1) = [] ∨ term.len > headTermKeyMax
  · rw [if_pos nothing, if_pos nothing]
  · have answers : (table.headTermEntries.take (2 ^ 32 - 1)).mapM (fun entry => do
        let first ← firstTerm entry
        return decide (first ≤ term)) = .ok ((table.headTermEntries.take (2 ^ 32 - 1)).map
          fun entry => decide (entry.firstTermStr ≤ term)) := by
      apply mapM_checked
      intro entry member
      rw [firstTerm_eq (ready.headsFit entry (List.mem_of_mem_take member))]
      rfl
    have inside := point.inside ((table.headTermEntries.take (2 ^ 32 - 1)).map
      fun entry => decide (entry.firstTermStr ≤ term))
    rw [List.length_map] at inside
    rw [if_neg nothing, if_neg nothing, answers, ok_bind]
    generalize point.point ((table.headTermEntries.take (2 ^ 32 - 1)).map
      fun entry => decide (entry.firstTermStr ≤ term)) = pos at inside ⊢
    by_cases first : pos = 0
    · rw [if_pos first, if_pos first]
      rfl
    · rw [if_neg first, if_neg first, List.getElem?_eq_getElem (by omega)]
      dsimp only
      cases table.leafBlocks _ with
      | none => rfl
      | some page => exact findInLeaf_eq

/-- The cut in front of the first NUL byte is between characters. -/
theorem prefixOf_beforeNul (key : Str) :
    prefixOf key (key.bytes.takeWhile (· != 0)).length = .ok key.beforeNul := by
  have front : slice key.bytes 0 (key.bytes.takeWhile (· != 0)).length = key.beforeNul.bytes :=
    (List.prefix_iff_eq_take.mp (List.takeWhile_prefix _)).symm
  unfold prefixOf
  rw [readSlice_eq (Nat.zero_le _) (List.takeWhile_sublist _).length_le, Nat.sub_zero, front,
    ok_bind, Str.fromUtf8_bytes]
  rfl

/-- Lookup in a ready table raises no fault. -/
theorem findTermData_eq (point : PartitionPoint) (ready : LookupReady table) (key : Str) :
    findTermData point table key = .ok (locate point table key) := by
  have front : slice key.bytes 0 (key.bytes.takeWhile (· != 0)).length = key.beforeNul.bytes :=
    (List.prefix_iff_eq_take.mp (List.takeWhile_prefix _)).symm
  unfold findTermData locate
  dsimp only
  rw [readSlice_eq (Nat.zero_le _) (List.takeWhile_sublist _).length_le, Nat.sub_zero, front,
    ok_bind, prefixOf_beforeNul, ok_bind, hasTermMphf_eq, ok_bind]
  by_cases enabled : table.hasTermMphf = true
  · rw [if_pos enabled, if_pos enabled, findTermDataMphf_eq ready, ok_bind]
    cases table.findTermDataMphf key.beforeNul.bytes with
    | none => exact findTermDataHeadLeaf_eq point ready _
    | some location => rfl
  · rw [if_neg enabled, if_neg enabled]
    exact findTermDataHeadLeaf_eq point ready _

end Table

/-! ## Loaded tables -/

section Loaded

variable {data : Bytes}

theorem headAt_fits {offset : Nat} {entry : HeadTermEntry}
    (ok : Serializer.headAt data offset = .ok entry) :
    entry.firstTermLength.toNat ≤ headTermKeyMax := by
  unfold Serializer.headAt at ok
  split at ok
  · cases ok
  · cases read : HeadTermEntry.fromBytes (slice data offset HeadTermEntry.headTermEntrySize) with
    | none =>
        rw [read] at ok
        cases ok
    | some stored =>
        rw [read] at ok
        obtain rfl := Except.ok.inj ok
        exact fromBytes_fits read

theorem i32At_range (data : Bytes) (offset : Nat) :
    -2 ^ 31 ≤ i32At data offset ∧ i32At data offset < 2 ^ 31 := by
  have word := (u32At data offset).toNat_lt
  unfold i32At
  dsimp only
  split
  · omega
  · omega

theorem decodeTermMphf_displacements {header : IndexFileHeader}
    {tables : TermMphfHeader × List Int × List Page}
    (ok : Serializer.decodeTermMphf data header = .ok tables) :
    ∀ displacement ∈ tables.2.1, -2 ^ 31 ≤ displacement ∧ displacement < 2 ^ 31 := by
  unfold Serializer.decodeTermMphf at ok
  split at ok
  · obtain rfl := Except.ok.inj ok
    exact fun _ member => absurd member List.not_mem_nil
  · obtain ⟨_, _, ok⟩ := bind_ok.mp ok
    obtain ⟨_, _, ok⟩ := bind_ok.mp ok
    obtain ⟨_, _, ok⟩ := bind_ok.mp ok
    obtain ⟨_, _, ok⟩ := bind_ok.mp ok
    obtain ⟨_, _, ok⟩ := bind_ok.mp ok
    obtain ⟨pages, _, ok⟩ := bind_ok.mp ok
    obtain rfl := Except.ok.inj ok
    exact List.forall_mem_map.mpr fun index _ => i32At_range data _

theorem decode_ready {decoded : DecodedIndexData} (ok : Serializer.decode data = .ok decoded) :
    (∀ entry ∈ decoded.head, entry.firstTermLength.toNat ≤ headTermKeyMax) ∧
      ∀ displacement ∈ decoded.mphfDisplacements,
        -2 ^ 31 ≤ displacement ∧ displacement < 2 ^ 31 := by
  obtain ⟨header, _, ok⟩ := bind_ok.mp ok
  obtain ⟨last, _, ok⟩ := bind_ok.mp ok
  obtain ⟨_, _, ok⟩ := bind_ok.mp ok
  obtain ⟨prefixes, _, ok⟩ := bind_ok.mp ok
  obtain ⟨head, heads, ok⟩ := bind_ok.mp ok
  obtain ⟨leafBlocks, _, ok⟩ := bind_ok.mp ok
  obtain ⟨_, _, ok⟩ := bind_ok.mp ok
  obtain ⟨indexBlocks, _, ok⟩ := bind_ok.mp ok
  obtain ⟨tables, read, ok⟩ := bind_ok.mp ok
  obtain rfl := Except.ok.inj ok
  refine ⟨?_, decodeTermMphf_displacements read⟩
  intro entry member
  obtain ⟨index, at_⟩ := mapM_ok_mem heads member
  exact headAt_fits at_

theorem setTermMphf_displacements (header : TermMphfHeader) (displacements : List Int)
    (entryPages : List Page) : ∀ displacement ∈
      (Serializer.setTermMphf header displacements entryPages).displacements,
        displacement ∈ displacements := by
  have nothing : ∀ displacement ∈ TermMphf.cleared.displacements, displacement ∈ displacements :=
    fun _ member => absurd member List.not_mem_nil
  unfold Serializer.setTermMphf
  split
  · exact nothing
  · split
    · exact nothing
    · exact fun _ member => member

/-- A loaded table is ready for lookup. -/
theorem loadBytes_ready {loaded : LoadedIndex} (ok : Serializer.loadBytes data = .ok loaded) :
    LookupReady loaded.table := by
  obtain ⟨header, _, ok⟩ := bind_ok.mp ok
  obtain ⟨decoded, read, ok⟩ := bind_ok.mp ok
  obtain ⟨heads, displacements⟩ := decode_ready read
  obtain rfl := Except.ok.inj ok
  refine ⟨heads, ?_⟩
  intro displacement member
  change displacement ∈ (if _ then _ else TermMphf.cleared : TermMphf).displacements at member
  split at member
  · exact displacements displacement (setTermMphf_displacements _ _ _ displacement member)
  · exact absurd member List.not_mem_nil

end Loaded

end MoonShot.Untrusted
