import MoonShot.Lib.AssocMap
import MoonShot.Postings.Encoding

/-!
The in-memory posting store (`PostingStore.rs`) and the writer in front of it
(`AdvancedIndexWriter.rs`).

Owns the posting lists, which carry the proof that their document ids ascend,
the per-document statistics and vectors, and every mutation the writer makes.

Floating point is not modelled: a 32-bit float is its bit pattern, and every
computation on floats is a field of `FloatOps`.
-/

namespace MoonShot.Postings

open MoonShot.Lib

/-- A 32-bit float as its bit pattern. -/
abbrev F32 := UInt32

/-- The floating-point computations of the source, as arbitrary functions of
their integer and bit-pattern arguments. -/
structure FloatOps where
  /-- `tf8_encode` -/
  tf8Encode : UInt32 → UInt8
  /-- One component of `QuantizeVector`, as a raw byte. -/
  quantize : F32 → UInt8
  /-- `DocDataEncodeScore` -/
  encodeScore : F32 → UInt16
  /-- `diversity` of `EncodeDocData`, from document length and unique terms. -/
  diversity : UInt32 → UInt32 → F32
  /-- `length_quality`, from the document length. -/
  lengthQuality : UInt32 → F32
  /-- `quality_score`, from document length and unique terms. -/
  qualityScore : UInt32 → UInt32 → F32
  /-- `authority_score`, from the title length. -/
  authorityScore : UInt32 → F32
  /-- `spam_score`, from document length and unique terms. -/
  spamScore : UInt32 → UInt32 → F32
  /-- `total_terms as f32 / document_count as f32` -/
  averageLength : UInt64 → UInt64 → F32
  /-- The weighted average of two average lengths, from both averages and both
  record counts. -/
  mergedAverage : F32 → UInt64 → F32 → UInt64 → F32
  /-- The literal `1.0`. -/
  one : F32

instance : Inhabited FloatOps where
  default :=
    { tf8Encode := fun tf => tf.toUInt8
      quantize := fun _ => 0
      encodeScore := fun _ => 0
      diversity := fun _ _ => 0
      lengthQuality := fun _ => 0
      qualityScore := fun _ _ => 0
      authorityScore := fun _ => 0
      spamScore := fun _ _ => 0
      averageLength := fun _ _ => 0
      mergedAverage := fun _ _ _ _ => 0
      one := 0x3F800000 }

/-! ## Posting lists -/

structure IndexEntry where
  docId : UInt64
  termFrequency : UInt32
deriving DecidableEq, Repr

/-- Document ids ascend strictly. -/
def Ascending (entries : List IndexEntry) : Prop :=
  entries.Pairwise fun left right => left.docId < right.docId

/-- A posting list: entries in strictly ascending document order. -/
structure PostingList where
  entries : List IndexEntry
  ascending : Ascending entries

namespace PostingList

def empty : PostingList := ⟨[], List.Pairwise.nil⟩

/-- `doc_freq`: the number of entries as a 32-bit value. -/
def docFreq (list : PostingList) : UInt32 := UInt32.ofNat list.entries.length

/-- The list as it is stored, with quantised frequencies. -/
def postings (float : FloatOps) (list : PostingList) : List Posting :=
  list.entries.map fun entry => ⟨entry.docId, float.tf8Encode entry.termFrequency⟩

/-- `get_bytes` -/
def getBytes (float : FloatOps) (list : PostingList) : Bytes :=
  encodePostings (list.postings float)

/-- `binary_search_by_key` on ascending ids: the index of `docId`, or the index
at which it belongs. -/
def binarySearch (entries : List IndexEntry) (docId : UInt64) : Except Nat Nat :=
  let position := (entries.takeWhile fun entry => entry.docId < docId).length
  match entries[position]? with
  | some entry => if entry.docId = docId then .ok position else .error position
  | none => .error position

/-- The entries after `AddPosting`, and whether one was added. -/
def addEntry (entries : List IndexEntry) (docId : UInt64) (tf : UInt32) :
    List IndexEntry × Bool :=
  match entries.getLast? with
  | none => (entries ++ [⟨docId, tf⟩], true)
  | some last =>
      if last.docId < docId then (entries ++ [⟨docId, tf⟩], true)
      else if last.docId = docId then
        (entries.modify (entries.length - 1) fun entry => { entry with termFrequency := tf }, false)
      else
        match binarySearch entries docId with
        | .ok index =>
            (entries.modify index fun entry => { entry with termFrequency := tf }, false)
        | .error index => (entries.insertIdx index ⟨docId, tf⟩, true)

/-- What all branches of `addEntry` amount to on an ascending list. -/
def setEntry (docId : UInt64) (tf : UInt32) : List IndexEntry → List IndexEntry
  | [] => [⟨docId, tf⟩]
  | entry :: rest =>
      if docId < entry.docId then ⟨docId, tf⟩ :: entry :: rest
      else if docId = entry.docId then ⟨docId, tf⟩ :: rest
      else entry :: setEntry docId tf rest

private theorem modify_at_length {α : Type} (left : List α) (head : α) (rest : List α)
    (change : α → α) :
    (left ++ head :: rest).modify left.length change = left ++ change head :: rest := by
  induction left with
  | nil => rfl
  | cons first left inductionHypothesis => simp [inductionHypothesis]

private theorem insertIdx_at_length {α : Type} (left right : List α) (value : α) :
    (left ++ right).insertIdx left.length value = left ++ value :: right := by
  induction left with
  | nil => rfl
  | cons first left inductionHypothesis => simp [inductionHypothesis]

theorem setEntry_append {docId : UInt64} {tf : UInt32} {left right : List IndexEntry}
    (below : ∀ entry ∈ left, entry.docId < docId) :
    setEntry docId tf (left ++ right) = left ++ setEntry docId tf right := by
  induction left with
  | nil => rfl
  | cons head rest inductionHypothesis =>
      have headBelow := below head List.mem_cons_self
      rw [List.cons_append, setEntry, if_neg (UInt64.not_lt.mpr (UInt64.le_of_lt headBelow)),
        if_neg (fun equal : docId = head.docId => UInt64.lt_irrefl docId (equal ▸ headBelow)),
        inductionHypothesis (fun entry member => below entry (List.mem_cons_of_mem _ member))]
      rfl

theorem setEntry_cons_eq {docId : UInt64} {tf : UInt32} {head : IndexEntry}
    {rest : List IndexEntry} (same : head.docId = docId) :
    setEntry docId tf (head :: rest) = { head with termFrequency := tf } :: rest := by
  subst same
  rw [setEntry, if_neg (UInt64.lt_irrefl _), if_pos rfl]

theorem addEntry_eq_setEntry {entries : List IndexEntry} (ascending : Ascending entries)
    (docId : UInt64) (tf : UInt32) :
    (addEntry entries docId tf).1 = setEntry docId tf entries := by
  rcases List.eq_nil_or_concat entries with rfl | ⟨init, last, rfl⟩
  · rfl
  · rw [List.concat_eq_append] at ascending ⊢
    have initBelow : ∀ entry ∈ init, entry.docId < last.docId := by
      intro entry member
      exact (List.pairwise_append.mp ascending).2.2 entry member last (List.mem_singleton_self _)
    unfold addEntry
    rw [List.getLast?_append, List.getLast?_singleton, Option.some_or]
    dsimp only
    by_cases after : last.docId < docId
    · rw [if_pos after]
      have allBelow : ∀ entry ∈ init ++ [last], entry.docId < docId := by
        intro entry member
        rcases List.mem_append.mp member with inInit | isLast
        · exact UInt64.lt_trans (initBelow entry inInit) after
        · rw [List.mem_singleton.mp isLast]
          exact after
      conv_rhs => rw [← List.append_nil (init ++ [last]), setEntry_append allBelow]
      rfl
    · rw [if_neg after]
      by_cases same : last.docId = docId
      · rw [if_pos same, setEntry_append (fun entry member => same ▸ initBelow entry member),
          setEntry_cons_eq same, List.length_append, List.length_singleton, Nat.add_sub_cancel,
          modify_at_length]
      · -- The place of `docId` is where the ids stop being smaller.
        rw [if_neg same]
        let smaller := fun entry : IndexEntry => decide (entry.docId < docId)
        have split := List.takeWhile_append_dropWhile (p := smaller) (l := init ++ [last])
        have below : ∀ entry ∈ (init ++ [last]).takeWhile smaller, entry.docId < docId := by
          intro entry member
          simpa [smaller] using List.mem_takeWhile_imp member
        unfold binarySearch
        dsimp only
        change (match
          (match (init ++ [last])[((init ++ [last]).takeWhile smaller).length]? with
            | some entry => if entry.docId = docId then _ else _
            | none => _ : Except Nat Nat) with
          | .ok index => _
          | .error index => _ : List IndexEntry × Bool).1 = _
        generalize (init ++ [last]).takeWhile smaller = front at split below
        generalize restEq : (init ++ [last]).dropWhile smaller = rest at split
        rw [← split, setEntry_append below, List.getElem?_append_right (Nat.le_refl _),
          Nat.sub_self]
        cases rest with
        | nil => simp [setEntry]
        | cons head tail =>
            have notSmaller : ¬ head.docId < docId := by
              have stopped := List.head?_dropWhile_not smaller (init ++ [last])
              rw [restEq] at stopped
              simpa [smaller] using stopped
            by_cases found : head.docId = docId
            · simp [found, setEntry_cons_eq found, modify_at_length]
            · have later : docId < head.docId := by
                rw [UInt64.lt_iff_toNat_lt] at notSmaller ⊢
                have different : head.docId.toNat ≠ docId.toNat :=
                  fun equal => found (UInt64.toNat_inj.mp equal)
                omega
              simp [found, setEntry, later, insertIdx_at_length]

theorem mem_setEntry {docId : UInt64} {tf : UInt32} {entries : List IndexEntry}
    {entry : IndexEntry} (member : entry ∈ setEntry docId tf entries) :
    entry = ⟨docId, tf⟩ ∨ entry ∈ entries := by
  induction entries with
  | nil => simpa [setEntry] using member
  | cons head rest inductionHypothesis =>
      unfold setEntry at member
      split at member
      · rcases List.mem_cons.mp member with new | old
        · exact Or.inl new
        · exact Or.inr old
      · split at member
        · rcases List.mem_cons.mp member with new | old
          · exact Or.inl new
          · exact Or.inr (List.mem_cons_of_mem _ old)
        · rcases List.mem_cons.mp member with old | later
          · exact Or.inr (old ▸ List.mem_cons_self)
          · rcases inductionHypothesis later with new | old
            · exact Or.inl new
            · exact Or.inr (List.mem_cons_of_mem _ old)

theorem setEntry_ascending {docId : UInt64} {tf : UInt32} {entries : List IndexEntry}
    (ascending : Ascending entries) : Ascending (setEntry docId tf entries) := by
  induction entries with
  | nil => exact List.pairwise_singleton _ _
  | cons head rest inductionHypothesis =>
      have parts := List.pairwise_cons.mp ascending
      unfold setEntry
      split
      · rename_i before
        refine List.pairwise_cons.mpr ⟨?_, ascending⟩
        intro entry member
        rcases List.mem_cons.mp member with same | later
        · rw [same]
          exact before
        · exact UInt64.lt_trans before (parts.1 entry later)
      · split
        · rename_i same
          refine List.pairwise_cons.mpr ⟨?_, parts.2⟩
          intro entry member
          change docId < entry.docId
          rw [same]
          exact parts.1 entry member
        · rename_i notBefore notSame
          refine List.pairwise_cons.mpr ⟨?_, inductionHypothesis parts.2⟩
          intro entry member
          rcases mem_setEntry member with new | old
          · rw [new]
            change head.docId < docId
            rw [UInt64.lt_iff_toNat_lt] at notBefore ⊢
            have different : docId.toNat ≠ head.docId.toNat :=
              fun equal => notSame (UInt64.toNat_inj.mp equal)
            omega
          · exact parts.1 entry old

/-- `AddPosting` on one list. -/
def add (list : PostingList) (docId : UInt64) (tf : UInt32) : PostingList where
  entries := (addEntry list.entries docId tf).1
  ascending := by
    rw [addEntry_eq_setEntry list.ascending]
    exact setEntry_ascending list.ascending

end PostingList

namespace PostingList

theorem postings_length (float : FloatOps) (list : PostingList) :
    (list.postings float).length = list.entries.length := by
  simp [postings]

theorem postings_ascending (float : FloatOps) (list : PostingList) :
    AscendingIds (list.postings float) := by
  unfold AscendingIds postings
  rw [List.pairwise_map]
  exact list.ascending

theorem setEntry_ne_nil (docId : UInt64) (tf : UInt32) (entries : List IndexEntry) :
    setEntry docId tf entries ≠ [] := by
  cases entries with
  | nil => simp [setEntry]
  | cons head rest =>
      unfold setEntry
      split
      · simp
      · split <;> simp

theorem add_ne_nil (list : PostingList) (docId : UInt64) (tf : UInt32) :
    (list.add docId tf).entries ≠ [] := by
  show (addEntry list.entries docId tf).1 ≠ []
  rw [addEntry_eq_setEntry list.ascending]
  exact setEntry_ne_nil docId tf list.entries

end PostingList

/-! ## Documents -/

structure DocStats where
  docLen : UInt32 := 0
  uniqueTerms : UInt32 := 0
  titleLen : UInt32 := 0
  bodyLen : UInt32 := 0
  urlLen : UInt32 := 0
  anchorLen : UInt32 := 0
  metaLen : UInt32 := 0
  importance : F32 := 0
  path : Str := Str.empty
deriving DecidableEq

/-- `DOC_VECTOR_DIM` -/
def docVectorDim : Nat := 128

/-- A quantised document vector: exactly `DOC_VECTOR_DIM` raw bytes. -/
structure DocVector where
  bytes : Bytes
  size : bytes.length = docVectorDim

/-- `PostingStore` -/
structure PostingStore where
  postings : AssocMap Str PostingList
  docStats : AssocMap UInt64 DocStats
  docVectors : AssocMap UInt64 DocVector
  totalTerms : UInt64
  postingEntries : UInt64

namespace PostingStore

def new : PostingStore := ⟨.empty, .empty, .empty, 0, 0⟩

def getPostingList (store : PostingStore) (key : Str) : Option PostingList :=
  store.postings.get? key

/-- `AddPosting`: `m_PostingEntries` counts the entries that were added. -/
def addPosting (store : PostingStore) (key : Str) (docId : UInt64) (tf : UInt32) :
    PostingStore :=
  let before := (store.getPostingList key).getD .empty
  let added := (PostingList.addEntry before.entries docId tf).2
  { store with
    postings := store.postings.upsert key .empty fun list => list.add docId tf
    postingEntries := if added then store.postingEntries + 1 else store.postingEntries }

/-- The store after a run of `AddPosting` calls. -/
def addPostings (calls : List (Str × UInt64 × UInt32)) : PostingStore :=
  calls.foldl (fun store call => store.addPosting call.1 call.2.1 call.2.2) .new

/-- `AddPosting` never leaves an empty list behind. -/
theorem addPostings_nonempty (calls : List (Str × UInt64 × UInt32)) {key : Str}
    {list : PostingList} (found : (addPostings calls).getPostingList key = some list) :
    list.entries ≠ [] := by
  induction calls using List.reverseRecOn generalizing list with
  | nil => cases found
  | append_singleton calls call inductionHypothesis =>
      rw [addPostings, List.foldl_append, List.foldl_cons, List.foldl_nil, getPostingList,
        addPosting, AssocMap.get?_upsert] at found
      by_cases same : key = call.1
      · rw [if_pos same] at found
        rw [← Option.some.inj found]
        exact PostingList.add_ne_nil _ _ _
      · rw [if_neg same] at found
        exact inductionHypothesis found

/-- `AddDocTokens` -/
def addDocTokens (store : PostingStore) (docId : UInt64) (count : UInt32) : PostingStore :=
  { store with
    docStats := store.docStats.upsert docId {} fun stats =>
      { stats with docLen := stats.docLen + count }
    totalTerms := store.totalTerms + count.toUInt64 }

/-- The five text streams. -/
inductive Stream where
  | title
  | body
  | url
  | anchor
  | metadata
deriving DecidableEq, Repr

/-- `AddStreamStats` -/
def addStreamStats (store : PostingStore) (docId : UInt64) (stream : Stream)
    (tokenCount uniqueCount : UInt32) : PostingStore :=
  { store with
    docStats := store.docStats.upsert docId {} fun stats =>
      let stats := { stats with uniqueTerms := stats.uniqueTerms + uniqueCount }
      match stream with
      | .title => { stats with titleLen := stats.titleLen + tokenCount }
      | .body => { stats with bodyLen := stats.bodyLen + tokenCount }
      | .url => { stats with urlLen := stats.urlLen + tokenCount }
      | .anchor => { stats with anchorLen := stats.anchorLen + tokenCount }
      | .metadata => { stats with metaLen := stats.metaLen + tokenCount } }

/-- `SetDocImportance` -/
def setDocImportance (store : PostingStore) (docId : UInt64) (score : F32) : PostingStore :=
  { store with
    docStats := store.docStats.upsert docId {} fun stats => { stats with importance := score } }

/-- `SetDocPath` -/
def setDocPath (store : PostingStore) (docId : UInt64) (path : Str) : PostingStore :=
  { store with
    docStats := store.docStats.upsert docId {} fun stats => { stats with path := path } }

/-- `SetDocVector`: a vector of any other dimension is refused. -/
def setDocVector (float : FloatOps) (store : PostingStore) (docId : UInt64)
    (vector : List F32) : PostingStore :=
  if size : vector.length = docVectorDim then
    { store with
      docStats := store.docStats.upsert docId {} id
      docVectors := store.docVectors.insert docId
        ⟨vector.map float.quantize, by simpa using size⟩ }
  else store

/-- The document has a statistics record (`HasDoc`). -/
def HasDoc (store : PostingStore) (docId : UInt64) : Prop := docId ∈ store.docStats.keys

instance (store : PostingStore) (docId : UInt64) : Decidable (store.HasDoc docId) :=
  inferInstanceAs (Decidable (docId ∈ store.docStats.keys))

/-! ## The writer -/

/-- `BIGRAM_SEP`, the unit separator. -/
def bigramSep : Str := ⟨[0x1F], rfl⟩

/-- The one-letter suffix of a stream's keys. -/
def Stream.letter : Stream → Str
  | .title => ⟨[0x54], rfl⟩
  | .body => ⟨[0x42], rfl⟩
  | .url => ⟨[0x55], rfl⟩
  | .anchor => ⟨[0x41], rfl⟩
  | .metadata => ⟨[0x4D], rfl⟩

/-- `StreamAbbrev`. The names of its last match all start with one of the five
letters, so that match can only take its default. -/
def streamAbbrev (stream : Str) : Stream :=
  match stream.bytes with
  | [] => .body
  | first :: _ =>
      if first = 0x41 ∨ first = 0x61 then .anchor
      else if first = 0x55 ∨ first = 0x75 then .url
      else if first = 0x54 ∨ first = 0x74 then .title
      else if first = 0x42 ∨ first = 0x62 then .body
      else if first = 0x4D ∨ first = 0x6D then .metadata
      else .body

/-- Count the nonempty words. -/
def unigramCounts (words : List Str) : AssocMap Str UInt32 :=
  words.foldl
    (fun counts word => if word = Str.empty then counts else counts.upsert word 0 (· + 1)) .empty

/-- Count, on top of `counts`, the pairs of adjacent nonempty words. -/
def bigramCounts (counts : AssocMap Str UInt32) (words : List Str) : AssocMap Str UInt32 :=
  (words.zip words.tail).foldl
    (fun counts pair =>
      if pair.1 = Str.empty ∨ pair.2 = Str.empty then counts
      else counts.upsert ((pair.1.append bigramSep).append pair.2) 0 (· + 1)) counts

/-- `AdvancedIndexWriter::Write` -/
def write (store : PostingStore) (words : List Str) (docId : UInt64) (postingType : Str) :
    PostingStore :=
  if words = [] then store
  else
    let stream := streamAbbrev postingType
    let unigrams := unigramCounts words
    let termTf := bigramCounts unigrams words
    let store := termTf.entries.foldl
      (fun store term => store.addPosting (term.1.append stream.letter) docId term.2) store
    let store := store.addDocTokens docId (UInt32.ofNat words.length)
    store.addStreamStats docId stream (UInt32.ofNat words.length)
      (UInt32.ofNat unigrams.entries.length)

end PostingStore

end MoonShot.Postings
