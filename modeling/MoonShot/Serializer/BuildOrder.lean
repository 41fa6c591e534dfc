import MoonShot.Postings.Runs
import MoonShot.Serializer.BuildBlocks

/-!
What `BuildBlocks` makes of a posting store does not depend on how the store
came about.

Owns the theorem that the built blocks are a function of the lookups alone, and
the order independence of `AddPosting` runs.

Does not own the packing itself, which only ever sees the sorted terms.
-/

namespace MoonShot.Serializer

open MoonShot.Lib
open MoonShot.Postings
open MoonShot.Postings.PostingStore

/-- Two orders of iteration over one map are sorted to one list. -/
theorem sortedTerms_congr {left right : PostingStore}
    (same : ∀ key, left.getPostingList key = right.getPostingList key) :
    sortedTerms left = sortedTerms right := by
  have members : ∀ term, term ∈ sortedTerms left ↔ term ∈ sortedTerms right := by
    rintro ⟨key, list⟩
    rw [mem_sortedTerms, mem_sortedTerms, same]
  exact eq_of_ordered_of_mem_iff lt_asymm (sortedTerms_ascending left)
    (sortedTerms_ascending right) members

theorem buildBlocks_congr (float : FloatOps) {left right : PostingStore}
    (same : ∀ key, left.getPostingList key = right.getPostingList key) :
    buildBlocks float left = buildBlocks float right := by
  unfold buildBlocks
  rw [sortedTerms_congr same]

/-- The order in which the map is iterated is not part of the store. -/
theorem getPostingList_of_perm {left right : PostingStore}
    (perm : left.postings.entries.Perm right.postings.entries) (key : Str) :
    left.getPostingList key = right.getPostingList key := by
  apply Option.ext
  intro list
  unfold getPostingList
  rw [← AssocMap.mem_entries_iff, ← AssocMap.mem_entries_iff, perm.mem_iff]

/-- After any run of `AddPosting` calls each list ascends and is the map from
documents to the frequency of their last call, and the entry counter counts the
entries. Runs of the same calls in another order build the same blocks, in
whatever order the two hash maps are iterated. -/
theorem addPosting_order_independent (float : FloatOps) :
    (∀ calls key,
      ((addPostings calls).getPostingList key = none ↔ ∀ call ∈ calls, call.1 ≠ key) ∧
      ∀ list, (addPostings calls).getPostingList key = some list →
        Ascending list.entries ∧
        ∀ entry, entry ∈ list.entries ↔
          lastTf calls key entry.docId = some entry.termFrequency) ∧
    (∀ calls, (addPostings calls).totalPostingEntries =
      UInt64.ofNat (addPostings calls).entryTotal) ∧
    ∀ left right, left.Perm right → Unrepeated left →
      ∀ first second : PostingStore,
        first.postings.entries.Perm (addPostings left).postings.entries →
        second.postings.entries.Perm (addPostings right).postings.entries →
        (buildBlocks float first).indexBlocks = (buildBlocks float second).indexBlocks ∧
        (buildBlocks float first).leafTermBlocks = (buildBlocks float second).leafTermBlocks ∧
        (buildBlocks float first).headTermEntries =
          (buildBlocks float second).headTermEntries := by
  refine ⟨fun calls key => ⟨addPostings_getPostingList_eq_none calls key, ?_⟩,
    addPostings_counted, ?_⟩
  · intro list found
    refine ⟨list.ascending, fun entry => ?_⟩
    rw [PostingList.mem_entries_iff_tf?, ← addPostings_tf?, PostingStore.tf?, found,
      Option.bind_some]
  · intro left right perm unrepeated first second firstPerm secondPerm
    have same : ∀ key, first.getPostingList key = second.getPostingList key := by
      intro key
      rw [getPostingList_of_perm firstPerm, addPostings_perm perm unrepeated,
        getPostingList_of_perm secondPerm]
    rw [buildBlocks_congr float same]
    exact ⟨rfl, rfl, rfl⟩

/-- Two documents posted under one key, in both orders. -/
theorem addPosting_order_independent_swapped :
    let left : List (Str × UInt64 × UInt32) := [(bigramSep, 2, 1), (bigramSep, 1, 3)]
    let right : List (Str × UInt64 × UInt32) := [(bigramSep, 1, 3), (bigramSep, 2, 1)]
    lastTf left bigramSep 2 = some 1 ∧
    (buildBlocks default (addPostings left)).indexBlocks =
      (buildBlocks default (addPostings right)).indexBlocks :=
  ⟨by decide,
    ((addPosting_order_independent default).2.2 _ _ (List.Perm.swap _ _ _) (by decide) _ _
      (List.Perm.refl _) (List.Perm.refl _)).1⟩

end MoonShot.Serializer
