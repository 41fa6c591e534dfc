import MoonShot.Index.BuildThenRead
import MoonShot.Postings.Runs
import MoonShot.Serializer.PageCounts

/-!
What leaf entries keep of the values they are made from.

A leaf entry has 8, 16 and 32-bit fields, and the writers cast their values into
them unchecked. Owns what it means that a slot stores its values unchanged, and
when all slots that `BuildBlocks` fills do.

Does not own the entries of a merge.
-/

namespace MoonShot.Index

open MoonShot.Lib
open MoonShot.Postings
open MoonShot.Format
open MoonShot.Serializer
open MoonShot.Reader

/-- The values of a leaf entry and of its directory slot before the casts. -/
structure EntryValues where
  term : Str
  docFreq : Nat
  indexOffset : Nat
  indexLength : Nat
  continuationBlockCount : Nat
  directoryOffset : Nat

/-- The slot reads back as the values. -/
def StoresExactly (page : Page) (slot : Nat) (values : EntryValues) : Prop :=
  directoryAt page slot = values.directoryOffset ∧
    ∃ entry, leafEntry page slot = some entry ∧ entry.term = values.term ∧
      entry.termLength.toNat = values.term.len ∧ entry.docFreq.toNat = values.docFreq ∧
      entry.indexOffset.toNat = values.indexOffset ∧
      entry.indexLength.toNat = values.indexLength ∧
      entry.continuationBlockCount.toNat = values.continuationBlockCount

/-- A slot of a page of entries stores the values its entry was made from. -/
theorem storesExactly_iff {page : Page} {entries : List LeafTermEntry} {slot : Nat}
    {entry : LeafTermEntry} {values : EntryValues} (leaf : LeafPageOf page entries)
    (found : entries[slot]? = some entry) (term : entry.term = values.term)
    (directory : values.directoryOffset = leafTermDataOffset + entriesBytes (entries.take slot)) :
    StoresExactly page slot values ↔
      entry.docFreq.toNat = values.docFreq ∧ entry.indexOffset.toNat = values.indexOffset ∧
        entry.indexLength.toNat = values.indexLength ∧
        entry.continuationBlockCount.toNat = values.continuationBlockCount := by
  have read : leafEntry page slot = some entry := by rw [leaf.leafEntry_eq, found]
  have lengths := leaf.lengths entry (List.mem_of_getElem? found)
  have bytes := entriesBytes_take_le entries slot
  have inside := leaf.holds.inside
  have constants : leafTermDataOffset = 322 ∧ leafDataSize = 3774 := by decide
  have slotEq : directoryAt page slot = values.directoryOffset := by
    rw [directoryAt, u16At_eq (leaf.holds.directory slot entry found), UInt16.toNat_ofNat',
      Nat.mod_eq_of_lt (by omega), directory]
  constructor
  · rintro ⟨_, other, readOther, _, _, same⟩
    rw [read] at readOther
    rw [Option.some.inj readOther]
    exact same
  · intro same
    refine ⟨slotEq, entry, read, term, ?_, same⟩
    rw [← term]
    exact lengths

section Build

variable (float : FloatOps) (store : PostingStore)

/-- The values `BuildBlocks` has for a list it keeps. -/
def builtValues (term : Str) (list : PostingList) (placement : BlockWriter.Placement)
    (directoryOffset : Nat) : EntryValues where
  term := term
  docFreq := list.entries.length
  indexOffset := placement.offset
  indexLength := placement.length
  continuationBlockCount := placement.continuationBlockCount
  directoryOffset := directoryOffset

/-- Every slot of every built leaf page stores the values of a list. -/
def BuildsExactly : Prop :=
  ∀ page ∈ (buildBlocks float store).leafTermBlocks, ∀ slot < entryCount page,
    ∃ term list placement, store.getPostingList term = some list ∧
      placementFor float store term = some placement ∧
      StoresExactly page slot (builtValues term list placement
        (leafTermDataOffset + entriesBytes ((leafEntries page).take slot)))

/-- Every list that an index of 32-bit page numbers keeps reads back in full. -/
def ReadsInFull : Prop :=
  Addressable float store → ∀ (key : Str) (list : PostingList) (numDocuments : UInt64),
    key.NulFree → key.len ≤ headTermKeyMax → store.getPostingList key = some list →
    numDocuments ≠ 0 →
    ∃ reader, AdvancedIndexReader.openReader (buildBlocks float store).table key numDocuments true =
        some reader ∧
      AdvancedIndexReader.Yields (buildBlocks float store).table.indexBlocks reader
        (list.postings float)

/-- The pairs of every list that is kept pack into at most 65535 continuation pages. -/
def PagesFit : Prop :=
  ∀ before term list after, sortedTerms store = before ++ (term, list) :: after →
    Kept float (term, list) →
    (packList (positionAfter float before) (pairSizes (list.postings float))).1 ≤ 65535

variable {float : FloatOps} {store : PostingStore}

/-- The continuation pages of a kept list, when its term stands behind `before`. -/
theorem placement_pages {before after : List (Str × PostingList)} {term : Str}
    {list : PostingList} {placement : BlockWriter.Placement}
    (split : sortedTerms store = before ++ (term, list) :: after) (kept : Kept float (term, list))
    (placed : placementFor float store term = some placement) :
    placement.continuationBlockCount =
      (packList (positionAfter float before) (pairSizes (list.postings float))).1 := by
  have found : store.getPostingList term = some list := by
    rw [← mem_sortedTerms, split]
    exact List.mem_append_right _ List.mem_cons_self
  have nonempty : list.postings float ≠ [] := by
    intro empty
    apply kept.2
    rw [PostingList.getBytes, empty, encodePostings_nil]
  unfold placementFor at placed
  rw [found] at placed
  dsimp only at placed
  rw [if_neg (not_lt.mpr kept.1), takeWhile_before_key split] at placed
  exact continuationBlockCount_eq float nonempty placed

/-- A list of at most 65535 continuation pages has a 32-bit number of postings. -/
theorem length_of_pages {position : Nat} {list : PostingList} (room : position ≤ pageSize)
    (fits : (packList position (pairSizes (list.postings float))).1 ≤ 65535) :
    list.entries.length < 2 ^ 32 := by
  have bytes := bytes_le_packList room (list.postings float)
  have pages := Nat.mul_le_mul_right pageSize (Nat.add_le_add_right fits 1)
  have pairs := encodePostings_length_ge (list.postings float)
  have count := list.postings_length float
  have sizes : pageSize = 4096 := rfl
  omega

theorem position_le (float : FloatOps) (before : List (Str × PostingList)) :
    positionAfter float before ≤ pageSize := by
  obtain ⟨_, built⟩ := built_all float before
  rw [← wptr_eq]
  exact built.inside

/-- A placed list starts in a page and the part there ends in it. -/
theorem placement_inside {index : BlockWriter} {item : Emitted} (placed : item.Placed float index) :
    item.placement.offset < pageSize ∧ item.placement.length ≤ pageSize := by
  obtain ⟨first, chunks, _, placed⟩ := placed
  have inside := placed.body.inside
  have length := placed.length
  have long := encodePostings_length_ge first
  have positive := List.length_pos_of_ne_nil placed.nonempty
  omega

/-- The entries of a page, read by index. -/
theorem leafEntries_eq {page : Page} {entries : List LeafTermEntry}
    (leaf : LeafPageOf page entries) : leafEntries page = entries := by
  have all : ∀ entries : List LeafTermEntry,
      (List.range entries.length).filterMap (fun index => entries[index]?) = entries := by
    intro entries
    induction entries using List.reverseRecOn with
    | nil => rfl
    | append_singleton init last inductionHypothesis =>
        have same : (List.range init.length).filterMap (fun index => (init ++ [last])[index]?) =
            (List.range init.length).filterMap fun index => init[index]? := by
          apply List.filterMap_congr
          intro index member
          exact List.getElem?_append_left (List.mem_range.mp member)
        rw [List.length_append, List.length_singleton, List.range_succ, List.filterMap_append, same,
          inductionHypothesis, List.filterMap_cons, List.getElem?_concat_length]
        rfl
  have read : (List.range entries.length).filterMap (leafEntry page) =
      (List.range entries.length).filterMap fun index => entries[index]? := by
    apply List.filterMap_congr
    intro index _
    exact leaf.leafEntry_eq index
  rw [leafEntries, leaf.counted, read, all]

/-- The built pages store their values exactly when the continuation pages of every
list can be counted in 16 bits. -/
theorem buildsExactly_iff (float : FloatOps) (store : PostingStore) :
    BuildsExactly float store ↔ PagesFit float store := by
  obtain ⟨groups, emitted, built, entries, flushed, _, _⟩ := buildBlocks_groups float store
  have pages : ∀ (index : Nat) (group : List LeafTermEntry), groups[index]? = some group →
      ∃ page, (buildBlocks float store).leafTermBlocks[index]? = some page ∧
        LeafPageOf page group := by
    intro index group found
    obtain ⟨page, _, pageFound, leaf, _⟩ := flushed.finished index group found
    exact ⟨page, pageFound, leaf⟩
  have constants : pageSize = 4096 := rfl
  constructor
  · intro exact_ before term list after split kept
    have pair : (term, list) ∈ emitted.map (fun item => (item.term, item.list)) := by
      rw [built.terms, List.mem_filter, split, decide_eq_true_eq]
      exact ⟨List.mem_append_right _ List.mem_cons_self, kept⟩
    obtain ⟨item, member, same⟩ := List.mem_map.mp pair
    obtain ⟨rfl, rfl⟩ := Prod.mk.inj same
    have inside : item.entry ∈ groups.flatten := by
      rw [entries]
      exact List.mem_map_of_mem member
    obtain ⟨group, groupMember, entryMember⟩ := List.mem_flatten.mp inside
    obtain ⟨index, groupFound⟩ := List.mem_iff_getElem?.mp groupMember
    obtain ⟨slot, slotFound⟩ := List.mem_iff_getElem?.mp entryMember
    obtain ⟨page, pageFound, leaf⟩ := pages index group groupFound
    have below : slot < entryCount page := by
      rw [leaf.counted]
      exact (List.getElem?_eq_some_iff.mp slotFound).1
    obtain ⟨other, otherList, placement, _, placed, _, entry, read, termEq, _, _, _, _, count⟩ :=
      exact_ page (List.mem_of_getElem? pageFound) slot below
    rw [leaf.leafEntry_eq, slotFound] at read
    obtain rfl := Option.some.inj read
    obtain rfl : item.term = other := termEq
    rw [← placement_pages split kept placed]
    have bound := item.entry.continuationBlockCount.toNat_lt
    have countEq : item.entry.continuationBlockCount.toNat = placement.continuationBlockCount :=
      count
    omega
  · intro fits page pageMember slot below
    obtain ⟨index, pageFound⟩ := List.mem_iff_getElem?.mp pageMember
    have indexInside : index < groups.length := by
      have := (List.getElem?_eq_some_iff.mp pageFound).1
      have blockCount : (buildBlocks float store).leafTermBlocks.length = groups.length :=
        flushed.blockCount
      omega
    obtain ⟨other, otherFound, leaf⟩ := pages index _ (List.getElem?_eq_getElem indexInside)
    rw [pageFound] at otherFound
    obtain rfl := Option.some.inj otherFound
    rw [leaf.counted] at below
    have slotFound := List.getElem?_eq_getElem below
    have inside : groups[index][slot] ∈ emitted.map Emitted.entry := by
      rw [← entries]
      exact List.mem_flatten.mpr ⟨_, List.getElem_mem indexInside, List.getElem_mem below⟩
    obtain ⟨item, member, itemEq⟩ := List.mem_map.mp inside
    rw [← itemEq] at slotFound
    obtain ⟨found, kept⟩ :=
      (emitted_kept built item.term item.list).mp (List.mem_map_of_mem member)
    have placed := placementFor_emitted built member
    obtain ⟨before, after, split, _⟩ := built.position item member
    have few := fits before item.term item.list after split kept
    have pageCount := placement_pages split kept placed
    have postings := length_of_pages (position_le float before) few
    obtain ⟨offset, length⟩ := placement_inside (built.placed item member)
    refine ⟨item.term, item.list, item.placement, found, placed, ?_⟩
    rw [leafEntries_eq leaf]
    refine (storesExactly_iff leaf slotFound rfl rfl).mpr ⟨?_, ?_, ?_, ?_⟩
    · show (UInt32.ofNat item.list.entries.length).toNat = item.list.entries.length
      rw [UInt32.toNat_ofNat', Nat.mod_eq_of_lt postings]
    · show (UInt16.ofNat item.placement.offset).toNat = item.placement.offset
      rw [UInt16.toNat_ofNat', Nat.mod_eq_of_lt (by omega)]
    · show (UInt16.ofNat item.placement.length).toNat = item.placement.length
      rw [UInt16.toNat_ofNat', Nat.mod_eq_of_lt (by omega)]
    · show (UInt16.ofNat item.placement.continuationBlockCount).toNat =
        item.placement.continuationBlockCount
      rw [UInt16.toNat_ofNat', Nat.mod_eq_of_lt (by omega)]

/-- Then every list reads back in full. -/
theorem PagesFit.readsInFull {float : FloatOps} {store : PostingStore}
    (fits : PagesFit float store) : ReadsInFull float store := by
  intro addressable key list numDocuments nulFree short found documents
  have sameKey := Str.beforeNul_of_nulFree nulFree
  have continuations : ContinuationsFit float store key := by
    intro placement placed
    by_cases kept : Kept float (key, list)
    · obtain ⟨before, after, split⟩ := List.append_of_mem (mem_sortedTerms.mpr found)
      rw [placement_pages split kept placed]
      exact fits before key list after split kept
    · have empty : list.getBytes float = [] := by
        by_contra bytes
        exact kept ⟨short, bytes⟩
      have nothing : placementFor float store key = none := by
        unfold placementFor
        rw [found]
        dsimp only
        rw [if_neg (not_lt.mpr short), empty]
        exact BlockWriter.placePostings_nil _
      rw [nothing] at placed
      cases placed
  have opened := openReader_built addressable key (by rw [sameKey]; exact continuations) documents
  obtain ⟨reader, ran, stands⟩ := opened
  rw [sameKey, keptPostings, if_pos short, found] at stands
  exact ⟨reader, ran, stands.yields⟩

end Build

/-! ## A list of too many pages -/

/-- The term `a`. -/
def shortTerm : Str := ⟨[0x61], validUtf8_a⟩

/-- The term in each of the first `count` documents. -/
def inEveryDocument (count : Nat) : List (Str × UInt64 × UInt32) :=
  (List.range count).map fun docId => (shortTerm, UInt64.ofNat docId, 1)

theorem inEveryDocument_length {count : Nat} (fits : count ≤ 2 ^ 64) (some_ : 0 < count) :
    ∃ list,
      (PostingStore.addPostings (inEveryDocument count)).getPostingList shortTerm = some list ∧
      count ≤ list.entries.length := by
  have holds : ∀ docId < count,
      (PostingStore.addPostings (inEveryDocument count)).tf? shortTerm (UInt64.ofNat docId) =
        some 1 := by
    intro docId below
    have called : (shortTerm, UInt64.ofNat docId, (1 : UInt32)) ∈ (inEveryDocument count).reverse :=
      List.mem_reverse.mpr (List.mem_map.mpr ⟨docId, List.mem_range.mpr below, rfl⟩)
    rw [PostingStore.addPostings_tf?, PostingStore.lastTf]
    cases found : (inEveryDocument count).reverse.find? fun call =>
        decide (call.1 = shortTerm ∧ call.2.1 = UInt64.ofNat docId) with
    | none =>
        have missed := List.find?_eq_none.mp found _ called
        exact absurd (decide_eq_true ⟨rfl, rfl⟩) missed
    | some call =>
        obtain ⟨_, _, rfl⟩ :=
          List.mem_map.mp (List.mem_reverse.mp (List.mem_of_find?_eq_some found))
        rfl
  obtain ⟨list, found, _⟩ := PostingStore.tf?_eq_some.mp (holds 0 some_)
  refine ⟨list, found, ?_⟩
  have members : (List.range count).map (fun docId => (⟨UInt64.ofNat docId, 1⟩ : IndexEntry)) ⊆
      list.entries := by
    intro entry member
    obtain ⟨docId, inside, rfl⟩ := List.mem_map.mp member
    obtain ⟨other, otherFound, entryMember⟩ :=
      PostingStore.tf?_eq_some.mp (holds docId (List.mem_range.mp inside))
    rw [found] at otherFound
    rw [Option.some.inj otherFound]
    exact entryMember
  have distinct : ((List.range count).map fun docId =>
      (⟨UInt64.ofNat docId, 1⟩ : IndexEntry)).Nodup := by
    refine List.Nodup.map_on ?_ List.nodup_range
    intro left leftMember right rightMember same
    have ids := congrArg (fun entry : IndexEntry => entry.docId.toNat) same
    have leftBelow := List.mem_range.mp leftMember
    have rightBelow := List.mem_range.mp rightMember
    dsimp only at ids
    rw [UInt64.toNat_ofNat', UInt64.toNat_ofNat', Nat.mod_eq_of_lt (by omega),
      Nat.mod_eq_of_lt (by omega)] at ids
    exact ids
  have bound := (List.subperm_of_subset distinct members).length_le
  rw [List.length_map, List.length_range] at bound
  exact bound

/-- A term of more than 2^27 documents needs more continuation pages than its entry
can count. -/
theorem not_pagesFit {float : FloatOps} {store : PostingStore} {term : Str} {list : PostingList}
    (short : term.len ≤ headTermKeyMax) (found : store.getPostingList term = some list)
    (long : 2 ^ 27 + 2048 < list.entries.length) : ¬ PagesFit float store := by
  intro fits
  obtain ⟨before, after, split⟩ := List.append_of_mem (mem_sortedTerms.mpr found)
  have pairs := encodePostings_length_ge (list.postings float)
  have count := list.postings_length float
  have kept : Kept float (term, list) := by
    refine ⟨short, ?_⟩
    show encodePostings (list.postings float) ≠ []
    apply List.ne_nil_of_length_pos
    omega
  have few := fits before term list after split kept
  have bytes := bytes_le_packList (position_le float before) (list.postings float)
  have sizes : pageSize = 4096 := rfl
  have pages := Nat.mul_le_mul_right pageSize (Nat.add_le_add_right few 1)
  omega

/-- A term of 2^28 documents is stored with a wrong number of continuation pages. -/
theorem long_list_count_cut :
    ¬ BuildsExactly default (PostingStore.addPostings (inEveryDocument 268435456)) := by
  obtain ⟨list, found, long⟩ := @inEveryDocument_length 268435456 (by decide) (by decide)
  generalize PostingStore.addPostings (inEveryDocument 268435456) = store at found ⊢
  rw [buildsExactly_iff]
  exact not_pagesFit (by decide) found (by omega)

end MoonShot.Index
