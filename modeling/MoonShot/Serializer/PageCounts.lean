import MoonShot.Lib.Packing
import MoonShot.Serializer.BuildBlocks

/-!
How many continuation pages `BuildBlocks` gives a list.

Owns the packing of the encoded pairs into pages, a function of their sizes
alone, and the proof that the page writer places every list that way.

Does not own what the counts are stored in.
-/

namespace MoonShot.Serializer

open MoonShot.Lib
open MoonShot.Postings
open MoonShot.Format

/-- The encoded sizes of the pairs of a list. -/
def pairSizes (postings : List Posting) : List Nat :=
  postings.map fun posting => (encodePosting posting).length

/-- The continuation pages of a list, and the position behind it, when pages are
filled up to `position` before it. A list whose first pair does not fit the page
starts on the next one. -/
def packList (position : Nat) (sizes : List Nat) : Nat × Nat :=
  pack pageSize continuationHeaderSize
    (if position + sizes.headD 0 ≤ pageSize then position else 0) sizes

/-- The position behind the lists of the terms. -/
def positionAfter (float : FloatOps) (terms : List (Str × PostingList)) : Nat :=
  (terms.filter fun term => Kept float term).foldl
    (fun position term => (packList position (pairSizes (term.2.postings float))).2) 0

/-! ## Sizes of pairs -/

theorem pairSizes_append (left right : List Posting) :
    pairSizes (left ++ right) = pairSizes left ++ pairSizes right := List.map_append

theorem sum_pairSizes (postings : List Posting) :
    (pairSizes postings).sum = (encodePostings postings).length := by
  rw [encodePostings, List.length_flatMap]
  rfl

theorem pairSizes_fit (postings : List Posting) :
    ∀ size ∈ pairSizes postings, continuationHeaderSize + size ≤ pageSize := by
  intro size member
  obtain ⟨posting, _, rfl⟩ := List.mem_map.mp member
  have constants : continuationHeaderSize = 12 ∧ pageSize = 4096 := ⟨rfl, rfl⟩
  have bound := encodePosting_length_le posting
  omega

/-- A list takes at most a page more than its continuation pages. -/
theorem bytes_le_packList {position : Nat} (room : position ≤ pageSize)
    (postings : List Posting) :
    (encodePostings postings).length ≤
      ((packList position (pairSizes postings)).1 + 1) * pageSize := by
  have start : (if position + (pairSizes postings).headD 0 ≤ pageSize then position else 0) ≤
      pageSize := by
    split
    · exact room
    · exact Nat.zero_le _
  have held := (pack_holds start (pairSizes_fit postings)).1
  rw [sum_pairSizes] at held
  unfold packList
  omega

/-! ## The writer packs -/

namespace BlockWriter

/-- The bytes a page takes: whole pairs, as many as fit. -/
structure Takes (postings : List Posting) (used : Nat) (taken rest : List Posting) : Prop where
  split : postings = taken ++ rest
  bytes : postingPrefixBytes (encodePostings postings) (pageSize - used) =
    (encodePostings taken).length
  fits : used + (pairSizes taken).sum ≤ pageSize
  full : ∀ next others, rest = next :: others →
    pageSize < used + (pairSizes taken).sum + (encodePosting next).length

private theorem takes_prefix (postings : List Posting) {used : Nat} (room : used ≤ pageSize) :
    ∃ taken rest, Takes postings used taken rest := by
  obtain ⟨count, bound, value, fits, maximal⟩ :=
    postingPrefixBytes_encode postings (pageSize - used)
  refine ⟨postings.take count, postings.drop count, (List.take_append_drop _ _).symm, value, ?_, ?_⟩
  · rw [sum_pairSizes]
    omega
  · intro next others restEq
    have head : postings[count]? = some next := by
      rw [← List.head?_drop, restEq]
      rfl
    have more := maximal (List.getElem?_eq_some_iff.mp head).1
    have single : encodePostings [next] = encodePosting next := by simp [encodePostings]
    rw [List.take_add_one, head, Option.toList_some, encodePostings_append, List.length_append,
      single] at more
    rw [sum_pairSizes]
    omega

/-- A page with room for the first pair takes it. -/
private theorem Takes.nonempty {posting : Posting} {others : List Posting} {used : Nat}
    {taken rest : List Posting} (takes : Takes (posting :: others) used taken rest)
    (room : used + (encodePosting posting).length ≤ pageSize) : taken ≠ [] := by
  rintro rfl
  have full := takes.full posting others takes.split.symm
  rw [pairSizes, List.map_nil, List.sum_nil, Nat.add_zero] at full
  omega

/-- The pairs that do not fit are packed from a new page on. -/
private theorem Takes.pack_eq {postings : List Posting} {used : Nat} {taken rest : List Posting}
    (takes : Takes postings used taken rest) :
    pack pageSize continuationHeaderSize used (pairSizes postings) =
      if rest = [] then (0, used + (pairSizes taken).sum)
      else
        ((pack pageSize continuationHeaderSize continuationHeaderSize (pairSizes rest)).1 + 1,
          (pack pageSize continuationHeaderSize continuationHeaderSize (pairSizes rest)).2) := by
  rw [takes.split, pairSizes_append, pack_fits _ takes.fits]
  cases restEq : rest with
  | nil => rfl
  | cons next others =>
      have full := takes.full next others restEq
      have fits := pairSizes_fit rest (encodePosting next).length (by rw [restEq]; simp [pairSizes])
      rw [if_neg (by simp)]
      exact pack_next full fits

/-- The continuation loop packs the rest of a list into new pages. -/
theorem writeContinuations_packs {turns : Nat} {writer : BlockWriter} {postings : List Posting}
    (fresh : writer.wptr = 0) (nonempty : postings ≠ []) (enough : postings.length ≤ turns) :
    let packed := pack pageSize continuationHeaderSize continuationHeaderSize (pairSizes postings)
    (writeContinuations turns writer (encodePostings postings)).2 = packed.1 + 1 ∧
      (writeContinuations turns writer (encodePostings postings)).1.wptr = packed.2 := by
  have sizes : pageSize = 4096 ∧ continuationHeaderSize = 12 := ⟨rfl, rfl⟩
  induction turns generalizing writer postings with
  | zero =>
      have positive := List.length_pos_of_ne_nil nonempty
      omega
  | succ turns inductionHypothesis =>
      obtain ⟨taken, rest, takes⟩ :=
        takes_prefix postings (by decide : continuationHeaderSize ≤ pageSize)
      have takenNonempty : taken ≠ [] := by
        obtain ⟨posting, others, rfl⟩ := List.exists_cons_of_ne_nil nonempty
        have bound := encodePosting_length_le posting
        exact takes.nonempty (by omega)
      have takenLong := encodePostings_length_ge taken
      have takenPositive := List.length_pos_of_ne_nil takenNonempty
      have bytesNonempty : encodePostings postings ≠ [] := by
        rw [Ne, encodePostings_eq_nil_iff]
        exact nonempty
      dsimp only
      rw [writeContinuations, if_neg bytesNonempty]
      dsimp only
      rw [takes.bytes, if_neg (by omega), takes.pack_eq, takes.split, encodePostings_append,
        List.take_left, List.drop_left]
      by_cases last : rest = []
      · subst last
        rw [if_neg (by simp), if_pos rfl, encodePostings_nil, writeContinuations_nil]
        refine ⟨rfl, ?_⟩
        show writer.wptr + (ContinuationHeader.toBytes _).length + (encodePostings taken).length = _
        rw [fresh, ContinuationHeader.toBytes_length, sum_pairSizes, Nat.zero_add]
      · have restLong := encodePostings_length_ge rest
        have restPositive := List.length_pos_of_ne_nil last
        have restEnough : rest.length ≤ turns := by
          rw [takes.split, List.length_append] at enough
          omega
        rw [if_pos (by rw [List.length_append]; omega), if_neg last]
        have packed := fun (flushed : BlockWriter) (empty : flushed.wptr = 0) =>
          inductionHypothesis empty last restEnough
        exact ⟨congrArg (· + 1) (packed _ rfl).1, (packed _ rfl).2⟩

/-- Placing a list whose first bytes are what the page takes. -/
private theorem placeAt_packs {writer : BlockWriter} {postings taken rest : List Posting}
    (takes : Takes postings writer.wptr taken rest) :
    let packed := pack pageSize continuationHeaderSize writer.wptr (pairSizes postings)
    let placed := writer.placeAt (encodePostings postings) (encodePostings taken).length
    placed.2.continuationBlockCount = packed.1 ∧ placed.1.wptr = packed.2 := by
  dsimp only
  unfold placeAt
  dsimp only
  rw [takes.pack_eq, takes.split, encodePostings_append, List.take_left, List.drop_left]
  by_cases last : rest = []
  · subst last
    rw [encodePostings_nil, if_pos rfl, if_pos rfl, sum_pairSizes]
    exact ⟨rfl, rfl⟩
  · have bytesLeft : encodePostings rest ≠ [] := by
      rw [Ne, encodePostings_eq_nil_iff]
      exact last
    have long := encodePostings_length_ge rest
    rw [if_neg bytesLeft, if_neg last]
    exact writeContinuations_packs rfl last (by omega)

/-- The page that takes the start of a list is filled up to the position, or new. -/
private theorem reserve_packs {writer : BlockWriter} {postings : List Posting}
    (inside : writer.wptr ≤ pageSize) (nonempty : postings ≠ []) :
    ∃ start taken rest, writer.reserve (encodePostings postings) =
        (start, (encodePostings taken).length) ∧
      start.wptr = (if writer.wptr + (pairSizes postings).headD 0 ≤ pageSize then writer.wptr
        else 0) ∧
      taken ≠ [] ∧ Takes postings start.wptr taken rest := by
  obtain ⟨posting, others, rfl⟩ := List.exists_cons_of_ne_nil nonempty
  have sizes : pageSize = 4096 := rfl
  have short := encodePosting_length_le posting
  have positive := encodePosting_length_pos posting
  have head : (pairSizes (posting :: others)).headD 0 = (encodePosting posting).length := rfl
  -- A page with room for the first pair is used as it is.
  have used : ∀ opened : BlockWriter, opened.wptr + (encodePosting posting).length ≤ pageSize →
      ∃ taken rest, Takes (posting :: others) opened.wptr taken rest ∧ taken ≠ [] ∧
        (encodePostings taken).length ≠ 0 := by
    intro opened room
    obtain ⟨taken, rest, takes⟩ :=
      takes_prefix (posting :: others) (by omega : opened.wptr ≤ pageSize)
    have some_ := takes.nonempty room
    have long := encodePostings_length_ge taken
    have count := List.length_pos_of_ne_nil some_
    exact ⟨taken, rest, takes, some_, by omega⟩
  rw [head]
  unfold reserve
  by_cases fits : writer.wptr + (encodePosting posting).length ≤ pageSize
  · obtain ⟨taken, rest, takes, some_, here⟩ := used writer fits
    rw [if_pos fits, if_neg (by omega : ¬ writer.wptr ≥ pageSize)]
    dsimp only
    rw [takes.bytes, if_neg here]
    exact ⟨writer, taken, rest, rfl, rfl, some_, takes⟩
  · obtain ⟨taken, rest, takes, some_, here⟩ := used writer.flush (by
      show 0 + (encodePosting posting).length ≤ pageSize
      omega)
    have bytes : postingPrefixBytes (encodePostings (posting :: others)) pageSize =
        (encodePostings taken).length := takes.bytes
    rw [if_neg fits]
    by_cases full : writer.wptr ≥ pageSize
    · rw [if_pos full]
      have freshRoom : pageSize - writer.flush.wptr = pageSize := rfl
      dsimp only
      rw [freshRoom, bytes, if_neg here]
      exact ⟨writer.flush, taken, rest, rfl, rfl, some_, takes⟩
    · obtain ⟨none_, tail, tooLate⟩ := takes_prefix (posting :: others) inside
      have nothing : none_ = [] := by
        by_contra more
        obtain ⟨first, further, rfl⟩ := List.exists_cons_of_ne_nil more
        have same : posting = first := (List.cons.inj tooLate.split).1
        have fitsHere := tooLate.fits
        rw [← same, pairSizes, List.map_cons, List.sum_cons] at fitsHere
        omega
      rw [if_neg full]
      dsimp only
      rw [tooLate.bytes, nothing, encodePostings_nil, List.length_nil, if_pos rfl, bytes]
      exact ⟨writer.flush, taken, rest, rfl, rfl, some_, takes⟩

/-- An empty list is not placed. -/
theorem placePostings_nil (writer : BlockWriter) : (writer.placePostings []).2 = none := by
  have nothing : ∀ capacity, postingPrefixBytes [] capacity = 0 := by
    intro capacity
    obtain ⟨count, bound, value, _⟩ := postingPrefixBytes_encode [] capacity
    rw [List.take_nil, encodePostings_nil, List.length_nil] at value
    exact value
  unfold placePostings reserve
  dsimp only
  rw [nothing, if_pos rfl]
  dsimp only
  rw [nothing, if_pos rfl]

/-- A list is placed the way its pairs pack. -/
theorem placePostings_packs {writer after : BlockWriter} {postings : List Posting}
    {placement : Placement} (inside : writer.wptr ≤ pageSize) (nonempty : postings ≠ [])
    (placed : writer.placePostings (encodePostings postings) = (after, some placement)) :
    placement.continuationBlockCount = (packList writer.wptr (pairSizes postings)).1 ∧
      after.wptr = (packList writer.wptr (pairSizes postings)).2 := by
  obtain ⟨start, taken, rest, reserved, position, some_, takes⟩ := reserve_packs inside nonempty
  have packed := placeAt_packs takes
  have long := encodePostings_length_ge taken
  have count := List.length_pos_of_ne_nil some_
  unfold placePostings at placed
  rw [reserved] at placed
  dsimp only at placed
  rw [if_neg (by omega)] at placed
  obtain ⟨rfl, placementEq⟩ := Prod.mk.inj placed
  obtain rfl := Option.some.inj placementEq
  rw [packList, ← position]
  exact packed

/-- Every page that is finished takes a byte of the list, a few apart. -/
theorem placePostings_seq (writer : BlockWriter) (bytes : Bytes) :
    (writer.placePostings bytes).1.seq ≤ writer.seq + bytes.length + 3 := by
  have flushed : ∀ writer : BlockWriter, writer.flush.seq = writer.seq + 1 := by
    intro writer
    show (writer.indexBlocks ++ [_]).length = _
    rw [List.length_append, List.length_singleton]
    rfl
  have loop : ∀ turns (writer : BlockWriter) (rest : Bytes),
      (writeContinuations turns writer rest).1.seq ≤ writer.seq + rest.length := by
    intro turns
    induction turns with
    | zero => exact fun writer rest => Nat.le_add_right _ _
    | succ turns inductionHypothesis =>
        intro writer rest
        rw [writeContinuations]
        split
        · exact Nat.le_add_right _ _
        · dsimp only
          split
          · exact Nat.le_add_right _ _
          · rename_i nonempty some_
            have positive := List.length_pos_of_ne_nil nonempty
            refine (inductionHypothesis _ _).trans ?_
            rw [List.length_drop]
            split
            · rw [flushed]
              show writer.seq + 1 + _ ≤ _
              omega
            · show writer.seq + _ ≤ _
              omega
  have reserved : (writer.reserve bytes).1.seq ≤ writer.seq + 2 := by
    have next : ∀ opened : BlockWriter, opened.seq ≤ writer.seq + 1 →
        (if postingPrefixBytes bytes (pageSize - opened.wptr) = 0 then
          (opened.flush, postingPrefixBytes bytes pageSize)
        else (opened, postingPrefixBytes bytes (pageSize - opened.wptr))).1.seq ≤
          writer.seq + 2 := by
      intro opened few
      split
      · rw [flushed]
        omega
      · exact Nat.le_succ_of_le few
    unfold reserve
    split
    · exact next writer.flush (Nat.le_of_eq (flushed writer))
    · exact next writer (Nat.le_succ _)
  unfold placePostings
  generalize writer.reserve bytes = outcome at reserved
  obtain ⟨start, here⟩ := outcome
  dsimp only at reserved ⊢
  split
  · dsimp only
    omega
  · unfold placeAt
    dsimp only
    split
    · show start.seq ≤ _
      omega
    · refine (loop _ _ _).trans ?_
      rw [flushed, List.length_drop]
      show start.seq + 1 + _ ≤ _
      omega

/-- The first list starts in the first page. -/
theorem placePostings_new {bytes : Bytes} {placement : Placement}
    (placed : (BlockWriter.new.placePostings bytes).2 = some placement) :
    placement.blockId = 0 := by
  unfold placePostings reserve at placed
  rw [if_neg (show ¬ BlockWriter.new.wptr ≥ pageSize by decide)] at placed
  dsimp only at placed
  by_cases nothing : postingPrefixBytes bytes (pageSize - BlockWriter.new.wptr) = 0
  · have whole : postingPrefixBytes bytes pageSize = 0 := nothing
    rw [if_pos nothing, if_pos whole] at placed
    cases placed
  · rw [if_neg nothing] at placed
    dsimp only at placed
    rw [if_neg nothing] at placed
    obtain rfl := Option.some.inj placed
    unfold placeAt
    dsimp only
    split <;> rfl

end BlockWriter

/-! ## The loop packs -/

theorem positionAfter_append (float : FloatOps) (done : List (Str × PostingList))
    (term : Str × PostingList) :
    positionAfter float (done ++ [term]) =
      if Kept float term then
        (packList (positionAfter float done) (pairSizes (term.2.postings float))).2
      else positionAfter float done := by
  unfold positionAfter
  rw [List.filter_append, List.foldl_append]
  by_cases kept : Kept float term
  · rw [if_pos kept, List.filter_singleton, decide_eq_true kept]
    rfl
  · rw [if_neg kept, List.filter_singleton, decide_eq_false kept]
    rfl

/-- The write position after some terms is the one their sizes give. -/
theorem wptr_eq (float : FloatOps) (terms : List (Str × PostingList)) :
    (terms.foldl (addTerm float) .new).index.wptr = positionAfter float terms := by
  induction terms using List.reverseRecOn with
  | nil => rfl
  | append_singleton done term inductionHypothesis =>
      obtain ⟨emitted, built⟩ := built_all float done
      have inside := built.inside
      rw [positionAfter_append, List.foldl_append, List.foldl_cons, List.foldl_nil,
        ← inductionHypothesis]
      generalize done.foldl (addTerm float) .new = state at inside ⊢
      by_cases kept : Kept float term
      · have nonempty : term.2.postings float ≠ [] := by
          intro empty
          apply kept.2
          rw [PostingList.getBytes, empty, encodePostings_nil]
        obtain ⟨after, placement, first, chunks, placed, _⟩ :=
          BlockWriter.placePostings_spec inside nonempty
        have packed := BlockWriter.placePostings_packs inside nonempty placed
        have bytesEq : term.2.getBytes float = encodePostings (term.2.postings float) := rfl
        rw [if_pos kept, addTerm, if_neg (not_lt.mpr kept.1)]
        dsimp only
        rw [if_neg kept.2, bytesEq, placed]
        exact packed.2
      · rw [if_neg kept, addTerm]
        by_cases long : term.1.len > headTermKeyMax
        · rw [if_pos long]
        · have empty : term.2.getBytes float = [] := by
            by_contra bytes
            exact kept ⟨not_lt.mp long, bytes⟩
          rw [if_neg long]
          dsimp only
          rw [if_pos empty]

/-- The continuation pages of a list are what its sizes, behind those of the lists
before it, give. -/
theorem continuationBlockCount_eq (float : FloatOps) {before : List (Str × PostingList)}
    {list : PostingList} {placement : BlockWriter.Placement} (nonempty : list.postings float ≠ [])
    (placed : ((before.foldl (addTerm float) .new).index.placePostings
      (list.getBytes float)).2 = some placement) :
    placement.continuationBlockCount =
      (packList (positionAfter float before) (pairSizes (list.postings float))).1 := by
  obtain ⟨emitted, built⟩ := built_all float before
  rw [← wptr_eq]
  exact (BlockWriter.placePostings_packs built.inside nonempty (Prod.ext rfl placed)).1

end MoonShot.Serializer
