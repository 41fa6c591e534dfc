import MoonShot.Postings.Statistics
import MoonShot.Query.Content

/-!
Term frequencies and stream lengths after a run of `Write` calls.

Owns the frequency and the length that a run leaves for a document and a
stream, each stated on the token lists of the calls, and the exact condition
under which the two account for the same tokens.

Does not own scores: ranking only reads these numbers.
-/

namespace MoonShot.Query

open MoonShot.Lib
open MoonShot.Postings
open MoonShot.Postings.PostingStore

/-! ## What the calls write -/

/-- A word without the bigram separator. -/
def SepFree (word : Str) : Prop := 0x1F ∉ word.bytes

instance (word : Str) : Decidable (SepFree word) :=
  inferInstanceAs (Decidable (_ ∉ _))

theorem SepFree.ne_bigram {word : Str} (free : SepFree word) (left right : Str) :
    word ≠ bigram left right := by
  rintro rfl
  exact free (sep_mem_bigram left right)

/-- The token lists written for the document and the stream, in call order. -/
def tokenLists (calls : List WriteCall) (docId : UInt64) (stream : Stream) : List (List Str) :=
  (calls.filter fun call =>
    call.docId = docId ∧ streamAbbrev call.postingType = stream).map WriteCall.words

/-- All tokens written for the document and the stream. -/
def tokens (calls : List WriteCall) (docId : UInt64) (stream : Stream) : List Str :=
  (tokenLists calls docId stream).flatten

theorem tokenLists_append (calls : List WriteCall) (call : WriteCall) (docId : UInt64)
    (stream : Stream) :
    tokenLists (calls ++ [call]) docId stream =
      tokenLists calls docId stream ++
        if call.docId = docId ∧ streamAbbrev call.postingType = stream then [call.words]
        else [] := by
  rw [tokenLists, List.filter_append, List.map_append]
  by_cases same : call.docId = docId ∧ streamAbbrev call.postingType = stream
  · rw [if_pos same, List.filter_cons_of_pos (by simpa using same)]
    rfl
  · rw [if_neg same, List.filter_cons_of_neg (by simpa using same)]
    rfl

theorem written_append (calls : List WriteCall) (call : WriteCall) :
    written (calls ++ [call]) =
      (written calls).write call.words call.docId call.postingType := by
  rw [written, List.foldl_append]
  rfl

/-! ## Frequencies -/

theorem get?_unigramCounts (words : List Str) {word : Str} (nonempty : word ≠ Str.empty) :
    (unigramCounts words).get? word =
      if word ∈ words then some (UInt32.ofNat (words.count word)) else none := by
  induction words using List.reverseRecOn with
  | nil => rfl
  | append_singleton words last inductionHypothesis =>
      rw [unigramCounts_append]
      by_cases empty : last = Str.empty
      · have other : ¬ last = word := fun same => nonempty (same.symm.trans empty)
        rw [if_pos empty, inductionHypothesis, List.count_append, List.count_singleton]
        simp [other, Ne.symm other]
      · rw [if_neg empty, AssocMap.get?_upsert, inductionHypothesis, List.count_append,
          List.count_singleton]
        by_cases same : word = last
        · subst same
          rw [inductionHypothesis]
          by_cases seen : word ∈ words
          · simp [seen, UInt32.ofNat_add]
          · simp [seen, List.count_eq_zero_of_not_mem seen]
        · simp [same, Ne.symm same]

theorem get?_bigramFold (pairs : List (Str × Str)) (counts : AssocMap Str UInt32) {word : Str}
    (free : SepFree word) :
    (pairs.foldl
        (fun counts pair =>
          if pair.1 = Str.empty ∨ pair.2 = Str.empty then counts
          else counts.upsert ((pair.1.append bigramSep).append pair.2) 0 (· + 1)) counts).get? word =
      counts.get? word := by
  induction pairs generalizing counts with
  | nil => rfl
  | cons pair rest inductionHypothesis =>
      rw [List.foldl_cons, inductionHypothesis]
      split
      · rfl
      · exact (AssocMap.get?_upsert _ _ _ _ _).trans (if_neg (free.ne_bigram pair.1 pair.2))

theorem tf?_foldl {terms : List (Str × UInt32)} (distinct : (terms.map Prod.fst).Nodup)
    (store : PostingStore) (stream : Stream) (docId : UInt64) (word : Str) (asked : Stream)
    (other : UInt64) :
    (terms.foldl
        (fun store term => store.addPosting (term.1.append stream.letter) docId term.2)
        store).tf? (streamKey word asked) other =
      if docId = other ∧ stream = asked then
        ((terms.find? fun term => term.1 = word).map Prod.snd).or
          (store.tf? (streamKey word asked) other)
      else store.tf? (streamKey word asked) other := by
  induction terms generalizing store with
  | nil => simp
  | cons term rest inductionHypothesis =>
      rw [List.map_cons, List.nodup_cons] at distinct
      rw [List.foldl_cons, inductionHypothesis distinct.2, tf?_addPosting]
      by_cases here : docId = other ∧ stream = asked
      · rw [if_pos here, if_pos here]
        obtain ⟨rfl, rfl⟩ := here
        by_cases same : term.1 = word
        · subst same
          have absent : rest.find? (fun later => later.1 = term.1) = none := by
            rw [List.find?_eq_none]
            intro later member
            simpa using fun equal : later.1 = term.1 =>
              distinct.1 (equal ▸ List.mem_map_of_mem (f := Prod.fst) member)
          have key : streamKey term.1 stream = term.1.append stream.letter ∧ docId = docId :=
            ⟨rfl, rfl⟩
          rw [if_pos key, absent, List.find?_cons_of_pos (by simp)]
          rfl
        · have otherKey : ¬ (streamKey word stream = term.1.append stream.letter ∧ docId = docId) :=
            fun both => same (streamKey_injective both.1).1.symm
          rw [if_neg otherKey, List.find?_cons_of_neg (by simpa using same)]
      · have otherKey : ¬ (streamKey word asked = term.1.append stream.letter ∧ other = docId) :=
          fun both => here ⟨both.2.symm, (streamKey_injective both.1).2.symm⟩
        rw [if_neg here, if_neg here, if_neg otherKey]

theorem tf?_write (store : PostingStore) (call : WriteCall) {word : Str} (free : SepFree word)
    (nonempty : word ≠ Str.empty) (stream : Stream) (docId : UInt64) :
    (store.write call.words call.docId call.postingType).tf? (streamKey word stream) docId =
      if (call.docId = docId ∧ streamAbbrev call.postingType = stream) ∧ word ∈ call.words then
        some (UInt32.ofNat (call.words.count word))
      else store.tf? (streamKey word stream) docId := by
  unfold write
  by_cases empty : call.words = []
  · rw [if_pos empty, empty]
    simp
  · rw [if_neg empty]
    refine (tf?_foldl (AssocMap.nodup _) store (streamAbbrev call.postingType) call.docId word
      stream docId).trans ?_
    have counted : (bigramCounts (unigramCounts call.words) call.words).get? word =
        if word ∈ call.words then some (UInt32.ofNat (call.words.count word)) else none := by
      rw [bigramCounts, get?_bigramFold _ _ free, get?_unigramCounts _ nonempty]
    unfold AssocMap.get? at counted
    rw [counted]
    by_cases here : call.docId = docId ∧ streamAbbrev call.postingType = stream
    · by_cases inside : word ∈ call.words
      · simp [here, inside]
      · simp [here, inside]
    · simp [here]

/-- The frequency of a word after its lists are written one after the other:
the last list that has the word decides. -/
def lastCount (word : Str) (lists : List (List Str)) : Option UInt32 :=
  (lists.reverse.find? (word ∈ ·)).map fun words => UInt32.ofNat (words.count word)

theorem lastCount_append (word : Str) (lists : List (List Str)) (words : List Str) :
    lastCount word (lists ++ [words]) =
      if word ∈ words then some (UInt32.ofNat (words.count word)) else lastCount word lists := by
  unfold lastCount
  rw [List.reverse_append, List.reverse_singleton, List.singleton_append]
  by_cases inside : word ∈ words
  · rw [if_pos inside, List.find?_cons_of_pos (by simpa using inside)]
    rfl
  · rw [if_neg inside, List.find?_cons_of_neg (by simpa using inside)]

theorem tf?_written (calls : List WriteCall) {word : Str} (free : SepFree word)
    (nonempty : word ≠ Str.empty) (stream : Stream) (docId : UInt64) :
    (written calls).tf? (streamKey word stream) docId =
      lastCount word (tokenLists calls docId stream) := by
  induction calls using List.reverseRecOn with
  | nil => rfl
  | append_singleton calls call inductionHypothesis =>
      rw [written_append, tf?_write _ _ free nonempty, inductionHypothesis, tokenLists_append]
      by_cases here : call.docId = docId ∧ streamAbbrev call.postingType = stream
      · rw [if_pos here, lastCount_append]
        simp only [here, and_self, true_and]
      · rw [if_neg here, List.append_nil, if_neg (fun both => here both.1)]

/-- The stored frequency of the word, zero where there is no posting. -/
def storedTf (calls : List WriteCall) (docId : UInt64) (stream : Stream) (word : Str) : Nat :=
  (((written calls).tf? (streamKey word stream) docId).getD 0).toNat

/-- The last list accounts for all occurrences exactly when no other list has
the word and its count fits the counter. -/
theorem lastCount_eq_count_iff (word : Str) (lists : List (List Str)) :
    ((lastCount word lists).getD 0).toNat = lists.flatten.count word ↔
      lists.countP (word ∈ ·) ≤ 1 ∧ lists.flatten.count word < 2 ^ 32 := by
  induction lists using List.reverseRecOn with
  | nil => simp [lastCount]
  | append_singleton lists words inductionHypothesis =>
      rw [lastCount_append, List.flatten_append, List.flatten_singleton, List.count_append,
        List.countP_append, List.countP_singleton]
      by_cases inside : word ∈ words
      · have earlier : lists.countP (word ∈ ·) = 0 ↔ lists.flatten.count word = 0 := by
          rw [List.countP_eq_zero, List.count_eq_zero, List.mem_flatten]
          simp
        have here : 0 < words.count word := List.count_pos_iff.mpr inside
        rw [if_pos inside, if_pos (by simpa using inside), Option.getD_some, UInt32.toNat_ofNat']
        -- The remainder of this list's count is at most this list's count.
        have remainder := Nat.mod_le (words.count word) (2 ^ 32)
        constructor
        · intro equal
          have none_ : lists.flatten.count word = 0 := by omega
          have small := Nat.mod_lt (words.count word) (show 0 < 2 ^ 32 by norm_num)
          exact ⟨by rw [earlier.mpr none_], by omega⟩
        · rintro ⟨single, fits⟩
          have none_ : lists.flatten.count word = 0 := earlier.mp (by omega)
          rw [Nat.mod_eq_of_lt (by omega)]
          omega
      · rw [if_neg inside, if_neg (by simpa using inside), List.count_eq_zero_of_not_mem inside]
        exact inductionHypothesis

/-! ## Lengths -/

/-- The recorded length of the stream of the document. -/
def recordedLen (calls : List WriteCall) (docId : UInt64) (stream : Stream) : UInt32 :=
  ((written calls).statsOf docId).streamLen stream

theorem streamLen_extended (stats : DocStats) (stream asked : Stream) (count unique : UInt32) :
    (DocStats.extended stats stream count unique).streamLen asked =
      stats.streamLen asked + if stream = asked then count else 0 := by
  cases stream <;> cases asked <;>
    first | rfl | exact (UInt32.add_zero _).symm

theorem recordedLen_eq (calls : List WriteCall) (docId : UInt64) (stream : Stream) :
    recordedLen calls docId stream = UInt32.ofNat (tokens calls docId stream).length := by
  induction calls using List.reverseRecOn with
  | nil => cases stream <;> rfl
  | append_singleton calls call inductionHypothesis =>
      unfold recordedLen tokens at inductionHypothesis ⊢
      rw [written_append, tokenLists_append]
      by_cases empty : call.words = []
      · have unchanged : (written calls).write call.words call.docId call.postingType =
            written calls := by
          unfold write
          rw [if_pos empty]
        rw [unchanged, inductionHypothesis, empty]
        split <;> simp
      · unfold statsOf at inductionHypothesis ⊢
        rw [(write_records _ empty _ _).1, AssocMap.get?_upsert]
        by_cases sameDoc : docId = call.docId
        · subst sameDoc
          rw [if_pos rfl, Option.getD_some, streamLen_extended, inductionHypothesis]
          by_cases sameStream : streamAbbrev call.postingType = stream
          · simp [sameStream, UInt32.ofNat_add]
          · simp [sameStream]
        · have other : ¬ (call.docId = docId ∧ streamAbbrev call.postingType = stream) :=
            fun both => sameDoc both.1.symm
          rw [if_neg sameDoc, inductionHypothesis, if_neg other, List.append_nil]

/-! ## Both together -/

/-- The stored frequencies of all words of the stream of the document. -/
def unigramTotal (calls : List WriteCall) (docId : UInt64) (stream : Stream) : Nat :=
  (((tokens calls docId stream).dedup.filter (· ≠ Str.empty)).map
    (storedTf calls docId stream)).sum

/-- Frequencies count all that was written, and add up to the recorded length. -/
structure Accumulates (calls : List WriteCall) (docId : UInt64) (stream : Stream) : Prop where
  frequencies : ∀ word, SepFree word → word ≠ Str.empty →
    storedTf calls docId stream word = (tokens calls docId stream).count word
  total : (∀ word ∈ tokens calls docId stream, SepFree word) →
    unigramTotal calls docId stream + (tokens calls docId stream).count Str.empty =
      (recordedLen calls docId stream).toNat

/-- No word is written in two calls, and no count leaves its counter. -/
structure Undivided (calls : List WriteCall) (docId : UInt64) (stream : Stream) : Prop where
  once : ∀ word, SepFree word → word ≠ Str.empty →
    (tokenLists calls docId stream).countP (word ∈ ·) ≤ 1
  counted : ∀ word, SepFree word → word ≠ Str.empty →
    (tokens calls docId stream).count word < 2 ^ 32
  total : (∀ word ∈ tokens calls docId stream, SepFree word) →
    (tokens calls docId stream).length < 2 ^ 32

theorem storedTf_eq_count_iff (calls : List WriteCall) (docId : UInt64) (stream : Stream)
    {word : Str} (free : SepFree word) (nonempty : word ≠ Str.empty) :
    storedTf calls docId stream word = (tokens calls docId stream).count word ↔
      (tokenLists calls docId stream).countP (word ∈ ·) ≤ 1 ∧
        (tokens calls docId stream).count word < 2 ^ 32 := by
  unfold storedTf tokens
  rw [tf?_written _ free nonempty]
  exact lastCount_eq_count_iff word _

theorem unigramTotal_eq {calls : List WriteCall} {docId : UInt64} {stream : Stream}
    (frequencies : ∀ word, SepFree word → word ≠ Str.empty →
      storedTf calls docId stream word = (tokens calls docId stream).count word)
    (free : ∀ word ∈ tokens calls docId stream, SepFree word) :
    unigramTotal calls docId stream + (tokens calls docId stream).count Str.empty =
      (tokens calls docId stream).length := by
  have each : ((tokens calls docId stream).dedup.filter (· ≠ Str.empty)).map
      (storedTf calls docId stream) =
      ((tokens calls docId stream).dedup.filter (· ≠ Str.empty)).map
        fun word => (tokens calls docId stream).count word := by
    apply List.map_congr_left
    intro word member
    obtain ⟨seen, nonempty⟩ := List.mem_filter.mp member
    exact frequencies word (free word (List.mem_dedup.mp seen)) (of_decide_eq_true nonempty)
  rw [unigramTotal, each, List.sum_map_count_dedup_filter_eq_countP, List.count,
    List.length_eq_countP_add_countP (fun word => decide (word ≠ Str.empty))]
  congr 1
  apply List.countP_congr
  intro word _
  simp

/-- Writing in pieces accumulates exactly when no word is written in two
pieces of one stream of one document. -/
theorem write_accumulates_iff (calls : List WriteCall) (docId : UInt64) (stream : Stream) :
    Accumulates calls docId stream ↔ Undivided calls docId stream := by
  have recorded : (recordedLen calls docId stream).toNat =
      (tokens calls docId stream).length % 2 ^ 32 := by
    rw [recordedLen_eq, UInt32.toNat_ofNat']
  constructor
  · rintro ⟨frequencies, total⟩
    have each := fun word free nonempty =>
      (storedTf_eq_count_iff calls docId stream free nonempty).mp (frequencies word free nonempty)
    refine ⟨fun word free nonempty => (each word free nonempty).1,
      fun word free nonempty => (each word free nonempty).2, fun free => ?_⟩
    have sum := total free
    rw [unigramTotal_eq frequencies free, recorded] at sum
    rw [sum]
    exact Nat.mod_lt _ (by norm_num)
  · rintro ⟨once, counted, total⟩
    have frequencies : ∀ word, SepFree word → word ≠ Str.empty →
        storedTf calls docId stream word = (tokens calls docId stream).count word :=
      fun word free nonempty => (storedTf_eq_count_iff calls docId stream free nonempty).mpr
        ⟨once word free nonempty, counted word free nonempty⟩
    refine ⟨frequencies, fun free => ?_⟩
    rw [unigramTotal_eq frequencies free, recorded, Nat.mod_eq_of_lt (total free)]

/-- One word written twice into one stream: its frequency stays one, the length
becomes two. -/
theorem write_twice_not_accumulated :
    let word : Str := ⟨[0x61], rfl⟩
    let calls : List WriteCall := [⟨[word], 1, Str.empty⟩, ⟨[word], 1, Str.empty⟩]
    storedTf calls 1 .body word = 1 ∧ (tokens calls 1 .body).count word = 2 ∧
      recordedLen calls 1 .body = 2 ∧ ¬ Accumulates calls 1 .body := by
  refine ⟨by decide, by decide, by decide, fun accumulates => ?_⟩
  have equal := accumulates.frequencies ⟨[0x61], rfl⟩ (by decide) (by decide)
  exact absurd equal (by decide)

end MoonShot.Query
