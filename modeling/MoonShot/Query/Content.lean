import MoonShot.Format.DocData
import MoonShot.Postings.Runs
import MoonShot.Query.Compiler

/-!
What an index that `AdvancedIndexWriter::Write` filled holds.

Owns the documents that a run of `Write` calls puts words into, stated on the
calls alone, and the theorems that the list of a stream key is the list of the
documents whose words in that stream include the term, and that the list of a
bigram key only names documents that hold both words.

Does not own the readers: the lists of a built index are those of `builtLists`.
-/

namespace MoonShot.Query

open MoonShot.Lib
open MoonShot.Postings
open MoonShot.Postings.PostingStore
open MoonShot.Format
open MoonShot.Index
open MoonShot.Table
open MoonShot.Reader

/-- One call of `Write`. -/
structure WriteCall where
  words : List Str
  docId : UInt64
  postingType : Str

/-- The store after a run of `Write` calls. -/
def written (calls : List WriteCall) : PostingStore :=
  calls.foldl (fun store call => store.write call.words call.docId call.postingType) .new

/-- A word of the document in the stream; empty words are not indexed. -/
def Contains (calls : List WriteCall) (docId : UInt64) (token : Str) (stream : Stream) : Prop :=
  ∃ call ∈ calls, call.docId = docId ∧ streamAbbrev call.postingType = stream ∧
    token ∈ call.words ∧ token ≠ Str.empty

instance (calls : List WriteCall) (docId : UInt64) (token : Str) (stream : Stream) :
    Decidable (Contains calls docId token stream) :=
  inferInstanceAs (Decidable (∃ call ∈ calls, _))

/-- A token without the bytes `0x00` and `0x1F`, as all that tokenizers yield. -/
def Clean (token : Str) : Prop := ∀ byte ∈ token.bytes, byte ≠ 0 ∧ byte ≠ 0x1F

instance (token : Str) : Decidable (Clean token) :=
  inferInstanceAs (Decidable (∀ byte ∈ token.bytes, _))

/-- The terms one call posts: its words and the pairs of adjacent words. -/
def writtenTerms (words : List Str) : List Str :=
  words.filter (· ≠ Str.empty) ++
    ((words.zip words.tail).filter fun pair => pair.1 ≠ Str.empty ∧ pair.2 ≠ Str.empty).map
      fun pair => bigram pair.1 pair.2

/-! ## Postings of a store -/

/-- The list of the key names the document. -/
def Posted (store : PostingStore) (key : Str) (docId : UInt64) : Prop :=
  ∃ list, store.getPostingList key = some list ∧ docId ∈ list.entries.map IndexEntry.docId

theorem docIds_setEntry (docId : UInt64) (tf : UInt32) (entries : List IndexEntry)
    (other : UInt64) :
    other ∈ (PostingList.setEntry docId tf entries).map IndexEntry.docId ↔
      other = docId ∨ other ∈ entries.map IndexEntry.docId := by
  induction entries with
  | nil => simp [PostingList.setEntry]
  | cons head rest inductionHypothesis =>
      unfold PostingList.setEntry
      split
      · simp
      · split
        · rename_i same
          simp [same]
        · rw [List.map_cons, List.mem_cons, inductionHypothesis, List.map_cons, List.mem_cons]
          exact or_left_comm

theorem posted_addPosting (store : PostingStore) (key : Str) (docId : UInt64) (tf : UInt32)
    (query : Str) (other : UInt64) :
    Posted (store.addPosting key docId tf) query other ↔
      Posted store query other ∨ (query = key ∧ other = docId) := by
  unfold Posted getPostingList addPosting
  rw [AssocMap.get?_upsert]
  by_cases same : query = key
  · rw [if_pos same, same]
    cases found : store.postings.get? key with
    | none =>
        simp only [Option.getD_none, Option.some.injEq, exists_eq_left', reduceCtorEq, false_and,
          exists_false, true_and, false_or]
        show other ∈ (PostingList.addEntry [] docId tf).1.map IndexEntry.docId ↔ _
        rw [PostingList.addEntry_eq_setEntry List.Pairwise.nil, docIds_setEntry]
        simp
    | some list =>
        simp only [Option.getD_some, Option.some.injEq, exists_eq_left', true_and]
        show other ∈ (PostingList.addEntry list.entries docId tf).1.map IndexEntry.docId ↔ _
        rw [PostingList.addEntry_eq_setEntry list.ascending, docIds_setEntry, or_comm]
  · rw [if_neg same]
    simp [same]

theorem posted_foldl (terms : List (Str × UInt32)) (store : PostingStore) (stream : Stream)
    (docId : UInt64) (query : Str) (other : UInt64) :
    Posted (terms.foldl
        (fun store term => store.addPosting (term.1.append stream.letter) docId term.2) store)
        query other ↔
      Posted store query other ∨
        (other = docId ∧ ∃ term ∈ terms.map Prod.fst, query = streamKey term stream) := by
  induction terms generalizing store with
  | nil => simp
  | cons term rest inductionHypothesis =>
      rw [List.foldl_cons, inductionHypothesis, posted_addPosting, List.map_cons]
      simp only [List.mem_cons, exists_eq_or_imp]
      show (_ ∨ query = streamKey term.1 stream ∧ _) ∨ _ ↔ _
      tauto

theorem mem_bigramFold (pairs : List (Str × Str)) (counts : AssocMap Str UInt32) (term : Str) :
    term ∈ (pairs.foldl
        (fun counts pair =>
          if pair.1 = Str.empty ∨ pair.2 = Str.empty then counts
          else counts.upsert ((pair.1.append bigramSep).append pair.2) 0 (· + 1)) counts).keys ↔
      term ∈ counts.keys ∨
        ∃ pair ∈ pairs, pair.1 ≠ Str.empty ∧ pair.2 ≠ Str.empty ∧ term = bigram pair.1 pair.2 := by
  induction pairs generalizing counts with
  | nil => simp
  | cons pair rest inductionHypothesis =>
      rw [List.foldl_cons, inductionHypothesis]
      by_cases empty : pair.1 = Str.empty ∨ pair.2 = Str.empty
      · rw [if_pos empty]
        simp only [List.mem_cons, exists_eq_or_imp]
        tauto
      · rw [if_neg empty, AssocMap.mem_keys_upsert]
        rw [not_or] at empty
        simp only [List.mem_cons, exists_eq_or_imp]
        show (term = bigram pair.1 pair.2 ∨ _) ∨ _ ↔ _
        tauto

theorem mem_termTf (words : List Str) (term : Str) :
    term ∈ (bigramCounts (unigramCounts words) words).entries.map Prod.fst ↔
      term ∈ writtenTerms words := by
  show term ∈ (bigramCounts (unigramCounts words) words).keys ↔ _
  rw [bigramCounts, mem_bigramFold, mem_unigramCounts, writtenTerms, List.mem_append,
    List.mem_filter, List.mem_map]
  simp only [List.mem_filter, decide_eq_true_eq]
  apply or_congr Iff.rfl
  constructor
  · rintro ⟨pair, member, left, right, rfl⟩
    exact ⟨pair, ⟨member, left, right⟩, rfl⟩
  · rintro ⟨pair, ⟨member, left, right⟩, rfl⟩
    exact ⟨pair, member, left, right, rfl⟩

theorem posted_write (store : PostingStore) (call : WriteCall) (query : Str) (other : UInt64) :
    Posted (store.write call.words call.docId call.postingType) query other ↔
      Posted store query other ∨ (other = call.docId ∧
        ∃ term ∈ writtenTerms call.words,
          query = streamKey term (streamAbbrev call.postingType)) := by
  unfold write
  by_cases empty : call.words = []
  · rw [if_pos empty, empty]
    simp [writtenTerms]
  · rw [if_neg empty]
    refine (posted_foldl _ store (streamAbbrev call.postingType) call.docId query other).trans ?_
    simp only [mem_termTf]

theorem posted_written (calls : List WriteCall) (key : Str) (docId : UInt64) :
    Posted (written calls) key docId ↔
      ∃ call ∈ calls, call.docId = docId ∧
        ∃ term ∈ writtenTerms call.words, key = streamKey term (streamAbbrev call.postingType) := by
  induction calls using List.reverseRecOn with
  | nil =>
      refine ⟨fun posted => ?_, fun posted => ?_⟩
      · obtain ⟨list, found, _⟩ := posted
        cases found
      · obtain ⟨call, member, _⟩ := posted
        cases member
  | append_singleton calls call inductionHypothesis =>
      rw [written, List.foldl_append, List.foldl_cons, List.foldl_nil]
      refine (posted_write (written calls) call key docId).trans ?_
      rw [inductionHypothesis]
      simp only [List.mem_append, List.mem_singleton, or_and_right, exists_or, exists_eq_left]
      rw [eq_comm (a := docId)]

/-! ## Documents of a store -/

theorem hasDoc_write (store : PostingStore) (call : WriteCall) (docId : UInt64) :
    (store.write call.words call.docId call.postingType).HasDoc docId ↔
      store.HasDoc docId ∨ (call.words ≠ [] ∧ docId = call.docId) := by
  unfold write
  by_cases empty : call.words = []
  · rw [if_pos empty]
    simp [empty]
  · rw [if_neg empty]
    unfold HasDoc addStreamStats addDocTokens
    dsimp only
    rw [AssocMap.mem_keys_upsert, AssocMap.mem_keys_upsert, (foldl_addPosting_frame _ _ _ _).1]
    simp only [ne_eq, empty, not_false_eq_true, true_and]
    tauto

theorem hasDoc_written (calls : List WriteCall) (docId : UInt64) :
    (written calls).HasDoc docId ↔ ∃ call ∈ calls, call.words ≠ [] ∧ docId = call.docId := by
  induction calls using List.reverseRecOn with
  | nil =>
      show docId ∈ [] ↔ _
      simp
  | append_singleton calls call inductionHypothesis =>
      rw [written, List.foldl_append, List.foldl_cons, List.foldl_nil]
      refine (hasDoc_write (written calls) call docId).trans ?_
      rw [inductionHypothesis]
      simp only [List.mem_append, List.mem_singleton, or_and_right, exists_or, exists_eq_left]

/-! ## Keys -/

theorem letter_length (stream : Stream) : stream.letter.bytes.length = 1 := by
  cases stream <;> rfl

theorem letter_injective {left right : Stream} (same : left.letter = right.letter) :
    left = right := by
  cases left <;> cases right <;> first | rfl | exact absurd same (by decide)

theorem streamAbbrev_letter (stream : Stream) : streamAbbrev stream.letter = stream := by
  cases stream <;> rfl

theorem streamKey_injective {left right : Str} {leftStream rightStream : Stream}
    (same : streamKey left leftStream = streamKey right rightStream) :
    left = right ∧ leftStream = rightStream := by
  have bytes : left.bytes ++ leftStream.letter.bytes = right.bytes ++ rightStream.letter.bytes :=
    congrArg Str.bytes same
  have parts := List.append_inj' bytes (by rw [letter_length, letter_length])
  exact ⟨Str.ext_bytes parts.1, letter_injective (Str.ext_bytes parts.2)⟩

theorem streamKey_len (term : Str) (stream : Stream) :
    (streamKey term stream).len = term.len + 1 := by
  show (term.bytes ++ stream.letter.bytes).length = _
  rw [List.length_append, letter_length]
  rfl

theorem bigram_len (left right : Str) : (bigram left right).len = left.len + right.len + 1 := by
  show ((left.bytes ++ [0x1F]) ++ right.bytes).length = left.bytes.length + right.bytes.length + 1
  rw [List.length_append, List.length_append, List.length_singleton]
  omega

theorem sep_mem_bigram (left right : Str) : 0x1F ∈ (bigram left right).bytes := by
  show 0x1F ∈ (left.bytes ++ [0x1F]) ++ right.bytes
  simp

theorem Clean.ne_bigram {token : Str} (clean : Clean token) (left right : Str) :
    token ≠ bigram left right := by
  intro same
  exact (clean 0x1F (same ▸ sep_mem_bigram left right)).2 rfl

/-- The front of a bigram ends at its first separator. -/
theorem bigram_injective {left right left' right' : Str} (clean : Clean left)
    (clean' : Clean left') (same : bigram left right = bigram left' right') :
    left = left' ∧ right = right' := by
  have front : ∀ {token : Str} (rest : Bytes), Clean token →
      ((token.bytes ++ [0x1F]) ++ rest).takeWhile (· != 0x1F) = token.bytes := by
    intro token rest tokenClean
    rw [List.append_assoc, List.takeWhile_append_of_pos, List.singleton_append,
      List.takeWhile_cons_of_neg (by decide), List.append_nil]
    intro byte member
    simpa using (tokenClean byte member).2
  have bytes : (left.bytes ++ [0x1F]) ++ right.bytes = (left'.bytes ++ [0x1F]) ++ right'.bytes :=
    congrArg Str.bytes same
  have fronts : left.bytes = left'.bytes := by
    rw [← front right.bytes clean, bytes, front right'.bytes clean']
  rw [fronts] at bytes
  exact ⟨Str.ext_bytes fronts, Str.ext_bytes (List.append_cancel_left bytes)⟩

theorem nulFree_streamKey {term : Str} (free : term.NulFree) (stream : Stream) :
    (streamKey term stream).NulFree := by
  intro byte member
  rcases List.mem_append.mp member with inTerm | inLetter
  · exact free byte inTerm
  · cases stream <;> rw [List.mem_singleton.mp inLetter] <;> decide

theorem Clean.nulFree {token : Str} (clean : Clean token) : token.NulFree :=
  fun byte member => (clean byte member).1

theorem nulFree_bigram {left right : Str} (leftClean : Clean left) (rightClean : Clean right) :
    (bigram left right).NulFree := by
  intro byte member
  rcases List.mem_append.mp member with inFront | inRight
  · rcases List.mem_append.mp inFront with inLeft | isSep
    · exact (leftClean byte inLeft).1
    · rw [List.mem_singleton.mp isSep]
      decide
  · exact (rightClean byte inRight).1

/-! ## Lists of a written index -/

theorem posted_streamKey {calls : List WriteCall} {token : Str} (clean : Clean token)
    {stream : Stream} {docId : UInt64} :
    Posted (written calls) (streamKey token stream) docId ↔ Contains calls docId token stream := by
  rw [posted_written]
  constructor
  · rintro ⟨call, member, sameDoc, term, termMember, sameKey⟩
    obtain ⟨rfl, rfl⟩ := streamKey_injective sameKey
    rcases List.mem_append.mp termMember with word | pair
    · have parts := List.mem_filter.mp word
      exact ⟨call, member, sameDoc, rfl, parts.1, of_decide_eq_true parts.2⟩
    · obtain ⟨pair, _, joined⟩ := List.mem_map.mp pair
      exact absurd joined.symm (clean.ne_bigram _ _)
  · rintro ⟨call, member, sameDoc, rfl, word, nonempty⟩
    refine ⟨call, member, sameDoc, token, List.mem_append_left _ ?_, rfl⟩
    exact List.mem_filter.mpr ⟨word, decide_eq_true nonempty⟩

/-- The words of every call are clean. -/
def CleanWords (calls : List WriteCall) : Prop :=
  ∀ call ∈ calls, ∀ word ∈ call.words, Clean word

/-- Every unigram and bigram key of the calls fits the leaf table. -/
def KeysFit (calls : List WriteCall) : Prop :=
  ∀ call ∈ calls, ∀ term ∈ writtenTerms call.words, term.len + 1 ≤ headTermKeyMax

instance (calls : List WriteCall) : Decidable (CleanWords calls) :=
  inferInstanceAs (Decidable (∀ call ∈ calls, ∀ word ∈ call.words, _))

instance (calls : List WriteCall) : Decidable (KeysFit calls) :=
  inferInstanceAs (Decidable (∀ call ∈ calls, ∀ term ∈ writtenTerms call.words, _))

theorem posted_bigram {calls : List WriteCall} (cleanWords : CleanWords calls) {left right : Str}
    (leftClean : Clean left) {stream : Stream} {docId : UInt64}
    (posted : Posted (written calls) (streamKey (bigram left right) stream) docId) :
    Contains calls docId left stream ∧ Contains calls docId right stream := by
  obtain ⟨call, member, sameDoc, term, termMember, sameKey⟩ := (posted_written _ _ _).mp posted
  obtain ⟨rfl, rfl⟩ := streamKey_injective sameKey
  rcases List.mem_append.mp termMember with word | pair
  · have wordClean := cleanWords call member _ (List.mem_filter.mp word).1
    exact absurd rfl (wordClean.ne_bigram left right)
  · obtain ⟨pair, pairMember, joined⟩ := List.mem_map.mp pair
    have parts := List.mem_filter.mp pairMember
    have nonempty := of_decide_eq_true parts.2
    have leftWord := (List.of_mem_zip parts.1).1
    have rightWord := List.mem_of_mem_tail (List.of_mem_zip parts.1).2
    obtain ⟨rfl, rfl⟩ := bigram_injective (cleanWords call member _ leftWord) leftClean joined
    exact ⟨⟨call, member, sameDoc, rfl, leftWord, nonempty.1⟩,
      ⟨call, member, sameDoc, rfl, rightWord, nonempty.2⟩⟩

theorem mem_builtLists {float : FloatOps} {store : PostingStore} {key : Str}
    (free : key.NulFree) (docId : UInt64) :
    docId ∈ builtLists float store key ↔ key.len ≤ headTermKeyMax ∧ Posted store key docId := by
  rw [builtLists, Str.beforeNul_of_nulFree free, IndexReader.mem_idsOf, keptPostings, Posted]
  by_cases short : key.len ≤ headTermKeyMax
  · rw [if_pos short]
    cases found : store.getPostingList key with
    | none => simp
    | some list => simp [PostingList.postings, short]
  · rw [if_neg short]
    simp [short]

theorem KeysFit.posted {calls : List WriteCall} (fit : KeysFit calls) {key : Str}
    {docId : UInt64} (posted : Posted (written calls) key docId) : key.len ≤ headTermKeyMax := by
  obtain ⟨call, member, _, term, termMember, rfl⟩ := (posted_written _ _ _).mp posted
  rw [streamKey_len]
  exact fit call member term termMember

/-- What a query over the index of the calls reads. -/
def indexMeaning (float : FloatOps) (calls : List WriteCall) (build : WeakAndBuildMode) : Meaning :=
  ⟨builtLists float (written calls), (storeDocDataRecordCount (written calls)).toNat, build⟩

theorem mem_lists_token {float : FloatOps} {calls : List WriteCall} (fit : KeysFit calls)
    {token : Str} (clean : Clean token) (stream : Stream) (docId : UInt64) :
    docId ∈ builtLists float (written calls) (streamKey token stream) ↔
      Contains calls docId token stream := by
  rw [mem_builtLists (nulFree_streamKey clean.nulFree stream), posted_streamKey clean]
  exact ⟨And.right, fun contains =>
    ⟨fit.posted ((posted_streamKey clean).mpr contains), contains⟩⟩

end MoonShot.Query
