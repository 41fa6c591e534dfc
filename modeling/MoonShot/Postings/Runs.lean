import MoonShot.Lib.Sorted
import MoonShot.Postings.Store

/-!
Runs of `AddPosting` calls.

Owns the frequency a store holds for a key and a document, the frequency of the
last call for the two, the number of entries over all lists, and the lemma that
a store is determined by its frequencies. Owns also the words that `Write`
counts before it posts them.
-/

namespace MoonShot.Postings

open MoonShot.Lib

namespace PostingList

/-- The frequency the list holds for the document. -/
def tf? (list : PostingList) (docId : UInt64) : Option UInt32 :=
  (list.entries.find? fun entry => entry.docId = docId).map IndexEntry.termFrequency

theorem mem_entries_iff_tf? (list : PostingList) (entry : IndexEntry) :
    entry ∈ list.entries ↔ list.tf? entry.docId = some entry.termFrequency := by
  obtain ⟨entries, ascending⟩ := list
  unfold tf?
  dsimp only
  induction entries with
  | nil => simp
  | cons head rest inductionHypothesis =>
      have parts := List.pairwise_cons.mp ascending
      by_cases same : head.docId = entry.docId
      · rw [List.find?_cons_of_pos (by simpa using same), Option.map_some, Option.some.injEq,
          List.mem_cons]
        constructor
        · rintro (rfl | later)
          · rfl
          · have before := parts.1 entry later
            rw [same] at before
            exact absurd before (UInt64.lt_irrefl _)
        · intro sameTf
          obtain ⟨docId, tf⟩ := entry
          left
          rw [← show head.docId = docId from same, ← show head.termFrequency = tf from sameTf]
      · rw [List.find?_cons_of_neg (by simpa using same), ← inductionHypothesis parts.2,
          List.mem_cons]
        exact or_iff_right fun equal => same (congrArg IndexEntry.docId equal.symm)

/-- Two lists with the same frequencies are equal: both list them in the one
ascending order. -/
theorem eq_of_tf? {left right : PostingList} (same : ∀ docId, left.tf? docId = right.tf? docId) :
    left = right := by
  have members : ∀ entry, entry ∈ left.entries ↔ entry ∈ right.entries := by
    intro entry
    rw [mem_entries_iff_tf?, mem_entries_iff_tf?, same]
  have entries : left.entries = right.entries :=
    eq_of_ordered_of_mem_iff UInt64.lt_asymm left.ascending right.ascending members
  obtain ⟨leftEntries, _⟩ := left
  obtain ⟨rightEntries, _⟩ := right
  cases entries
  rfl

theorem tf?_add (list : PostingList) (docId : UInt64) (tf : UInt32) (query : UInt64) :
    (list.add docId tf).tf? query = if query = docId then some tf else list.tf? query := by
  obtain ⟨entries, ascending⟩ := list
  unfold tf? add
  dsimp only
  rw [addEntry_eq_setEntry ascending]
  clear ascending
  induction entries with
  | nil =>
      by_cases same : query = docId
      · simp [setEntry, same]
      · simp [setEntry, same, Ne.symm same]
  | cons head rest inductionHypothesis =>
      unfold setEntry
      split
      · by_cases same : query = docId
        · simp [same]
        · rw [if_neg same, List.find?_cons_of_neg (by simpa using Ne.symm same)]
      · split
        · rename_i replaced
          by_cases same : query = docId
          · simp [same]
          · rw [if_neg same, List.find?_cons_of_neg (by simpa using Ne.symm same),
              List.find?_cons_of_neg (by simpa [← replaced] using Ne.symm same)]
        · rename_i different
          by_cases atHead : head.docId = query
          · have other : ¬ query = docId := fun same => different (same.symm.trans atHead.symm)
            simp [atHead, other]
          · rw [List.find?_cons_of_neg (by simpa using atHead), inductionHypothesis,
              List.find?_cons_of_neg (by simpa using atHead)]

theorem binarySearch_le {entries : List IndexEntry} {docId : UInt64} {index : Nat}
    (missed : binarySearch entries docId = .error index) : index ≤ entries.length := by
  have bound := (List.takeWhile_sublist
    (fun entry : IndexEntry => decide (entry.docId < docId)) (l := entries)).length_le
  unfold binarySearch at missed
  dsimp only at missed
  split at missed
  · split at missed
    · cases missed
    · rw [← Except.error.inj missed]
      exact bound
  · rw [← Except.error.inj missed]
    exact bound

/-- `AddPosting` reports an added entry exactly when the list grows. -/
theorem length_addEntry (entries : List IndexEntry) (docId : UInt64) (tf : UInt32) :
    (addEntry entries docId tf).1.length =
      entries.length + (addEntry entries docId tf).2.toNat := by
  unfold addEntry
  cases entries.getLast? with
  | none => simp
  | some last =>
      dsimp only
      by_cases after : last.docId < docId
      · simp [after]
      · rw [if_neg after]
        by_cases same : last.docId = docId
        · simp [same]
        · rw [if_neg same]
          cases search : binarySearch entries docId with
          | ok index => simp
          | error index => simp [List.length_insertIdx, binarySearch_le search]

end PostingList

namespace PostingStore

/-- The frequency the store holds for the key and the document. -/
def tf? (store : PostingStore) (key : Str) (docId : UInt64) : Option UInt32 :=
  (store.getPostingList key).bind fun list => list.tf? docId

/-- `TotalPostingEntries` -/
def totalPostingEntries (store : PostingStore) : UInt64 := store.postingEntries

/-- The entries of all lists. -/
def entryTotal (store : PostingStore) : Nat :=
  store.postings.total fun list => list.entries.length

theorem getPostingList_addPosting (store : PostingStore) (key : Str) (docId : UInt64)
    (tf : UInt32) (query : Str) :
    (store.addPosting key docId tf).getPostingList query =
      if query = key then some (((store.getPostingList key).getD .empty).add docId tf)
      else store.getPostingList query :=
  AssocMap.get?_upsert store.postings key .empty _ query

theorem tf?_addPosting (store : PostingStore) (key : Str) (docId : UInt64) (tf : UInt32)
    (query : Str) (other : UInt64) :
    (store.addPosting key docId tf).tf? query other =
      if query = key ∧ other = docId then some tf else store.tf? query other := by
  unfold PostingStore.tf?
  rw [getPostingList_addPosting]
  by_cases sameKey : query = key
  · rw [if_pos sameKey, Option.bind_some, PostingList.tf?_add, sameKey]
    by_cases sameDoc : other = docId
    · simp [sameDoc]
    · rw [if_neg sameDoc, if_neg (fun both => sameDoc both.2)]
      cases store.getPostingList key <;> rfl
  · rw [if_neg sameKey, if_neg (fun both => sameKey both.1)]

theorem tf?_eq_some {store : PostingStore} {key : Str} {docId : UInt64} {tf : UInt32} :
    store.tf? key docId = some tf ↔
      ∃ list, store.getPostingList key = some list ∧ ⟨docId, tf⟩ ∈ list.entries := by
  unfold PostingStore.tf?
  rw [Option.bind_eq_some_iff]
  simp only [PostingList.mem_entries_iff_tf?]

theorem addPosting_counted {store : PostingStore} (key : Str) (docId : UInt64) (tf : UInt32)
    (counted : store.postingEntries = UInt64.ofNat store.entryTotal) :
    (store.addPosting key docId tf).postingEntries =
      UInt64.ofNat (store.addPosting key docId tf).entryTotal := by
  let before := (store.postings.get? key).getD .empty
  have moved := AssocMap.total_upsert (fun list : PostingList => list.entries.length)
    store.postings key .empty rfl fun list => list.add docId tf
  have grown := PostingList.length_addEntry before.entries docId tf
  have total : (store.addPosting key docId tf).entryTotal =
      store.entryTotal + (PostingList.addEntry before.entries docId tf).2.toNat := by
    change (PostingList.addEntry before.entries docId tf).1.length = _ at grown
    show AssocMap.total _ (store.postings.upsert _ _ _) = AssocMap.total _ store.postings + _
    change AssocMap.total _ (store.postings.upsert _ _ _) + before.entries.length =
      AssocMap.total _ store.postings + (PostingList.addEntry before.entries docId tf).1.length
      at moved
    omega
  rw [total, UInt64.ofNat_add, ← counted]
  show (if (PostingList.addEntry before.entries docId tf).2 then
    store.postingEntries + 1 else store.postingEntries) = _
  cases (PostingList.addEntry before.entries docId tf).2 with
  | false => exact (UInt64.add_zero _).symm
  | true => rfl

/-- `AddPosting` touches the lists and their counter only. -/
theorem foldl_addPosting_frame (terms : List (Str × UInt32)) (store : PostingStore)
    (stream : Stream) (docId : UInt64) :
    let after := terms.foldl
      (fun store term => store.addPosting (term.1.append stream.letter) docId term.2) store
    after.docStats = store.docStats ∧ after.docVectors = store.docVectors ∧
      after.totalTerms = store.totalTerms := by
  induction terms generalizing store with
  | nil => exact ⟨rfl, rfl, rfl⟩
  | cons term rest inductionHypothesis => exact inductionHypothesis (store.addPosting _ docId _)

/-- Postings are only added for the one document. -/
theorem foldl_addPosting_tf? {terms : List (Str × UInt32)} {store : PostingStore}
    {stream : Stream} {docId other : UInt64} {key : Str} {tf : UInt32}
    (found : (terms.foldl
        (fun store term => store.addPosting (term.1.append stream.letter) docId term.2)
        store).tf? key other = some tf) :
    other = docId ∨ store.tf? key other = some tf := by
  induction terms generalizing store with
  | nil => exact Or.inr found
  | cons term rest inductionHypothesis =>
      rcases inductionHypothesis found with same | earlier
      · exact Or.inl same
      · rw [tf?_addPosting] at earlier
        split at earlier
        · rename_i here
          exact Or.inl here.2
        · exact Or.inr earlier

/-! ## Whole runs -/

theorem addPostings_append (calls : List (Str × UInt64 × UInt32)) (call : Str × UInt64 × UInt32) :
    addPostings (calls ++ [call]) = (addPostings calls).addPosting call.1 call.2.1 call.2.2 := by
  rw [addPostings, List.foldl_append]
  rfl

/-- The frequency of the last call for the key and the document. -/
def lastTf (calls : List (Str × UInt64 × UInt32)) (key : Str) (docId : UInt64) : Option UInt32 :=
  (calls.reverse.find? fun call => call.1 = key ∧ call.2.1 = docId).map fun call => call.2.2

theorem addPostings_tf? (calls : List (Str × UInt64 × UInt32)) (key : Str) (docId : UInt64) :
    (addPostings calls).tf? key docId = lastTf calls key docId := by
  induction calls using List.reverseRecOn with
  | nil => rfl
  | append_singleton calls call inductionHypothesis =>
      rw [addPostings_append, tf?_addPosting, inductionHypothesis]
      unfold lastTf
      rw [List.reverse_append, List.reverse_singleton, List.singleton_append]
      by_cases same : key = call.1 ∧ docId = call.2.1
      · rw [if_pos same, List.find?_cons_of_pos (by simp [same])]
        rfl
      · have other : ¬ (call.1 = key ∧ call.2.1 = docId) :=
          fun both => same ⟨both.1.symm, both.2.symm⟩
        rw [if_neg same, List.find?_cons_of_neg (by simpa using other)]

theorem addPostings_getPostingList_eq_none (calls : List (Str × UInt64 × UInt32)) (key : Str) :
    (addPostings calls).getPostingList key = none ↔ ∀ call ∈ calls, call.1 ≠ key := by
  induction calls using List.reverseRecOn with
  | nil => simp [addPostings, getPostingList, new]
  | append_singleton calls call inductionHypothesis =>
      rw [addPostings_append, getPostingList_addPosting]
      by_cases same : key = call.1
      · rw [if_pos same]
        refine iff_of_false (by simp) fun absent => ?_
        exact absurd same.symm (absent call (List.mem_append_right _ List.mem_cons_self))
      · rw [if_neg same, inductionHypothesis]
        simp only [List.mem_append, List.mem_singleton, or_imp, forall_and, forall_eq]
        exact (and_iff_left (Ne.symm same)).symm

theorem addPostings_counted (calls : List (Str × UInt64 × UInt32)) :
    (addPostings calls).postingEntries = UInt64.ofNat (addPostings calls).entryTotal := by
  induction calls using List.reverseRecOn with
  | nil => simp [addPostings, entryTotal, new]
  | append_singleton calls call inductionHypothesis =>
      rw [addPostings_append]
      exact addPosting_counted _ _ _ inductionHypothesis

/-! ## Word counts -/

theorem unigramCounts_append (words : List Str) (word : Str) :
    unigramCounts (words ++ [word]) =
      if word = Str.empty then unigramCounts words
      else (unigramCounts words).upsert word 0 (· + 1) := by
  rw [unigramCounts, List.foldl_append]
  rfl

theorem mem_unigramCounts (words : List Str) (term : Str) :
    term ∈ (unigramCounts words).keys ↔ term ∈ words ∧ term ≠ Str.empty := by
  induction words using List.reverseRecOn with
  | nil => simp [unigramCounts]
  | append_singleton words word inductionHypothesis =>
      rw [unigramCounts_append]
      by_cases empty : word = Str.empty
      · rw [if_pos empty, inductionHypothesis, empty]
        simp only [List.mem_append, List.mem_singleton]
        tauto
      · rw [if_neg empty, AssocMap.mem_keys_upsert, inductionHypothesis]
        simp only [List.mem_append, List.mem_singleton]
        constructor
        · rintro (rfl | old)
          · exact ⟨Or.inr rfl, empty⟩
          · exact ⟨Or.inl old.1, old.2⟩
        · rintro ⟨old | rfl, nonempty⟩
          · exact Or.inr ⟨old, nonempty⟩
          · exact Or.inl rfl

theorem unigramCounts_length_le (words : List Str) :
    (unigramCounts words).entries.length ≤ words.length := by
  have inside : (unigramCounts words).keys ⊆ words :=
    fun word member => ((mem_unigramCounts words word).mp member).1
  have short := (List.subperm_of_subset (unigramCounts words).nodup inside).length_le
  rwa [List.length_map] at short

/-! ## Order of the calls -/

/-- No key and document twice. -/
def Unrepeated (calls : List (Str × UInt64 × UInt32)) : Prop :=
  (calls.map fun call => (call.1, call.2.1)).Nodup

instance (calls : List (Str × UInt64 × UInt32)) : Decidable (Unrepeated calls) :=
  inferInstanceAs (Decidable (List.Nodup _))

theorem lastTf_eq_some {calls : List (Str × UInt64 × UInt32)} (unrepeated : Unrepeated calls)
    {key : Str} {docId : UInt64} {tf : UInt32} :
    lastTf calls key docId = some tf ↔ (key, docId, tf) ∈ calls := by
  have asked : ∀ {call : Str × UInt64 × UInt32},
      (calls.reverse.find? fun call => call.1 = key ∧ call.2.1 = docId) = some call →
        call ∈ calls ∧ call.1 = key ∧ call.2.1 = docId := by
    intro call found
    exact ⟨List.mem_reverse.mp (List.mem_of_find?_eq_some found),
      by simpa using List.find?_some found⟩
  unfold lastTf
  rw [Option.map_eq_some_iff]
  constructor
  · rintro ⟨⟨_, _, _⟩, found, rfl⟩
    obtain ⟨member, rfl, rfl⟩ := asked found
    exact member
  · intro member
    have some_ : (calls.reverse.find? fun call => call.1 = key ∧ call.2.1 = docId).isSome := by
      rw [List.find?_isSome]
      exact ⟨_, List.mem_reverse.mpr member, by simp⟩
    obtain ⟨call, found⟩ := Option.isSome_iff_exists.mp some_
    obtain ⟨callMember, sameKey, sameDoc⟩ := asked found
    have same := List.inj_on_of_nodup_map unrepeated callMember member (Prod.ext sameKey sameDoc)
    exact ⟨call, found, by rw [same]⟩

theorem lastTf_perm {left right : List (Str × UInt64 × UInt32)} (perm : left.Perm right)
    (unrepeated : Unrepeated left) (key : Str) (docId : UInt64) :
    lastTf left key docId = lastTf right key docId := by
  have unrepeatedRight : Unrepeated right := (perm.map _).nodup_iff.mp unrepeated
  apply Option.ext
  intro tf
  rw [lastTf_eq_some unrepeated, lastTf_eq_some unrepeatedRight, perm.mem_iff]

theorem addPostings_perm {left right : List (Str × UInt64 × UInt32)} (perm : left.Perm right)
    (unrepeated : Unrepeated left) (key : Str) :
    (addPostings left).getPostingList key = (addPostings right).getPostingList key := by
  have sameTf : ∀ docId, (addPostings left).tf? key docId = (addPostings right).tf? key docId := by
    intro docId
    rw [addPostings_tf?, addPostings_tf?, lastTf_perm perm unrepeated]
  have sameNone : (addPostings left).getPostingList key = none ↔
      (addPostings right).getPostingList key = none := by
    rw [addPostings_getPostingList_eq_none, addPostings_getPostingList_eq_none]
    simp only [perm.mem_iff]
  unfold tf? at sameTf
  cases leftList : (addPostings left).getPostingList key with
  | none => rw [sameNone.mp leftList]
  | some list =>
      cases rightList : (addPostings right).getPostingList key with
      | none => rw [sameNone.mpr rightList] at leftList; cases leftList
      | some other =>
          rw [leftList, rightList] at sameTf
          rw [PostingList.eq_of_tf? sameTf]

end PostingStore

end MoonShot.Postings
