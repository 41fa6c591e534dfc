import MoonShot.Format.Pages

/-!
The posting decoder (`UnifiedDecoder.rs`).

Owns the decoder state, `DecodeNext` with its three malformed exits, and
`GoUntil`. A decoder stands on a window of one page; the invariant `Over` says
that the window holds the encoding of the postings still to come, and the two
step lemmas say what `DecodeNext` and `GoUntil` do under it.

Does not own how windows are found: see `MoonShot.Reader.Advanced`.
-/

namespace MoonShot.Reader

open MoonShot.Lib
open MoonShot.Postings
open MoonShot.Format

/-- `UnifiedDecoder` -/
structure UnifiedDecoder where
  block : Option Page
  currentPtr : Nat
  blockEnd : Nat
  currentDoc : UInt64
  currentTf8 : UInt8
  hasCurrent : Bool

namespace UnifiedDecoder

/-- `UnifiedDecoder::new` -/
def new : UnifiedDecoder := ⟨none, 0, 0, 0, 0, false⟩

/-- `OpenRaw`: a range that leaves the page counts as empty. -/
def openRaw (page : Page) (offset len : Nat) : UnifiedDecoder :=
  let blockEnd := if offset + len ≤ page.data.length then offset + len else 0
  ⟨some page, min offset blockEnd, blockEnd, 0, 0, false⟩

/-- `TakeBlock`, the taken handle dropped. -/
def takeBlock (decoder : UnifiedDecoder) : UnifiedDecoder := { decoder with block := none }

/-- `Close` -/
def close (decoder : UnifiedDecoder) : UnifiedDecoder :=
  { decoder with block := none, currentPtr := 0, blockEnd := 0, hasCurrent := false }

/-- `IsEnd` -/
def isEnd (decoder : UnifiedDecoder) : Bool := !decoder.hasCurrent

/-- The document id loop of `DecodeNext`. `rest` is the window behind `byte`;
the result is the number of bytes of it that were read and the id, `none` when
the value is cut off or does not fit 64 bits. The guard on the tenth byte keeps
the id below `2 ^ 64`. -/
def decodeTail : (rest : Bytes) → (byte : UInt8) → (shift docId : Nat) → Nat × Option Nat
  | [], byte, _, docId => (0, if byte &&& 0x80 = 0 then some docId else none)
  | next :: rest, byte, shift, docId =>
      if byte &&& 0x80 = 0 then (0, some docId)
      else if shift ≥ 64 then (0, none)
      else if shift = 63 ∧ next &&& 0x7e ≠ 0 then (1, none)
      else
        let (count, result) :=
          decodeTail rest next (shift + 7) (docId ||| ((next &&& 0x7f).toNat <<< shift))
        (count + 1, result)

/-- `DecodeNext` -/
def decodeNext (decoder : UnifiedDecoder) : UnifiedDecoder :=
  if decoder.currentPtr < decoder.blockEnd then
    match decoder.block with
    | none => { decoder with hasCurrent := false }
    | some page =>
        match slice page.data decoder.currentPtr (decoder.blockEnd - decoder.currentPtr) with
        | [] => { decoder with hasCurrent := false }
        | byte :: rest =>
            match decodeTail rest byte 7 (byte &&& 0x7f).toNat with
            | (count, none) =>
                { decoder with currentPtr := decoder.currentPtr + 1 + count, hasCurrent := false }
            | (count, some docId) =>
                match rest.drop count with
                | [] =>
                    { decoder with
                      currentPtr := decoder.currentPtr + 1 + count
                      currentDoc := UInt64.ofNat docId
                      hasCurrent := false }
                | tf :: _ =>
                    { decoder with
                      currentPtr := decoder.currentPtr + 1 + count + 1
                      currentDoc := UInt64.ofNat docId
                      currentTf8 := tf
                      hasCurrent := true }
  else { decoder with hasCurrent := false }

/-- The loop of `GoUntil`. -/
def goUntilLoop : (turns : Nat) → UnifiedDecoder → (target : UInt64) → UnifiedDecoder
  | 0, decoder, _ => decoder
  | turns + 1, decoder, target =>
      let next := decoder.decodeNext
      if next.hasCurrent = false ∨ target ≤ next.currentDoc then next
      else goUntilLoop turns next target

/-- `GoUntil`. A decoded posting moves the pointer, so the bytes left bound the
turns. -/
def goUntil (decoder : UnifiedDecoder) (target : UInt64) : UnifiedDecoder :=
  if decoder.hasCurrent = true ∧ target ≤ decoder.currentDoc then decoder
  else goUntilLoop (decoder.blockEnd - decoder.currentPtr + 1) decoder target

/-! ## Decoding what was encoded -/

theorem decodeTail_of_low {byte : UInt8} (low : byte &&& 0x80 = 0) (rest : Bytes)
    (shift docId : Nat) : decodeTail rest byte shift docId = (0, some docId) := by
  cases rest <;> simp [decodeTail, low]

/-- The guard on the tenth byte passes: what is left of a 64-bit value there is
at most one. -/
private theorem lastByte_allowed {byte : UInt8} {written : Nat} (small : written ≤ 1)
    (digit : (byte &&& 0x7f).toNat = written % 128) : byte &&& 0x7e = 0 := by
  have table : ∀ value : Fin 256, (UInt8.ofNat value &&& 0x7f).toNat ≤ 1 →
      UInt8.ofNat value &&& 0x7e = 0 := by
    decide +kernel
  have := table ⟨byte.toNat, byte.toNat_lt⟩
  simp only [UInt8.ofNat_toNat] at this
  exact this (by omega)

/-- The loop reads back a written value whose first byte is `byte`. -/
theorem decodeTail_vbWriteLoop {turns written shift value : Nat} {byte : UInt8} {rest : Bytes}
    (fits : written < 128 ^ (turns + 1)) (bound : written * 2 ^ shift < 2 ^ 64)
    (below : value < 2 ^ shift) (shape : vbWriteLoop (turns + 1) written = byte :: rest)
    (tail : Bytes) :
    decodeTail (rest ++ tail) byte (shift + 7) (value + written % 128 * 2 ^ shift) =
      (rest.length, some (value + written * 2 ^ shift)) := by
  induction turns generalizing written shift value byte rest with
  | zero =>
      obtain ⟨digit, ⟨small, low, rfl⟩ | ⟨large, _, restFits, _⟩⟩ := vbWriteLoop_head fits shape
      · rw [decodeTail_of_low low, Nat.mod_eq_of_lt small]
        rfl
      · rw [Nat.pow_zero] at restFits
        omega
  | succ turns inductionHypothesis =>
      obtain ⟨digit, ⟨small, low, rfl⟩ | ⟨large, high, restFits, restEq⟩⟩ :=
        vbWriteLoop_head fits shape
      · rw [decodeTail_of_low low, Nat.mod_eq_of_lt small]
        rfl
      · have restLong : 0 < rest.length := by
          rw [restEq]
          exact vbWriteLoop_length_pos
        obtain ⟨next, rest, rfl⟩ := List.exists_cons_of_length_pos restLong
        have nextBound := digits_bound bound
        have nextBelow := digits_below below written
        have room : shift + 7 < 64 := digits_room (by omega) nextBound
        have nextDigit := (vbWriteLoop_head restFits restEq.symm).1
        have allowed : ¬ (shift + 7 = 63 ∧ next &&& 0x7e ≠ 0) := by
          rintro ⟨atEnd, refused⟩
          rw [atEnd] at nextBound
          exact refused (lastByte_allowed (by omega) nextDigit)
        rw [List.cons_append, decodeTail, if_neg high, if_neg (by omega), if_neg allowed,
          or_shiftLeft_eq_add nextBelow, nextDigit,
          inductionHypothesis restFits nextBound nextBelow restEq.symm]
        refine Prod.ext rfl ?_
        exact congrArg some (digits_sum value written shift)

/-- The window of the decoder holds the encoding of `rest`. -/
structure Over (decoder : UnifiedDecoder) (rest : List Posting) : Prop where
  page : ∃ page, decoder.block = some page ∧
    slice page.data decoder.currentPtr (decoder.blockEnd - decoder.currentPtr) =
      encodePostings rest
  ordered : decoder.currentPtr ≤ decoder.blockEnd
  inside : decoder.blockEnd ≤ pageSize

/-- The decoder stands on `posting`, with `rest` still in its window. -/
structure On (decoder : UnifiedDecoder) (posting : Posting) (rest : List Posting) : Prop where
  current : decoder.hasCurrent = true
  doc : decoder.currentDoc = posting.docId
  tf : decoder.currentTf8 = posting.tf8
  ahead : Over decoder rest

theorem Over.window_length {decoder : UnifiedDecoder} {rest : List Posting}
    (stands : Over decoder rest) :
    (encodePostings rest).length = decoder.blockEnd - decoder.currentPtr := by
  obtain ⟨page, _, window⟩ := stands.page
  have ordered := stands.ordered
  have inside := stands.inside
  rw [← window, slice_length_of_le]
  rw [page.size]
  omega

theorem openRaw_over {page : Page} {offset len : Nat} {postings : List Posting}
    (inside : offset + len ≤ pageSize)
    (stored : slice page.data offset len = encodePostings postings) :
    Over (openRaw page offset len) postings := by
  have fits : offset + len ≤ page.data.length := by rwa [page.size]
  have start : min offset (offset + len) = offset := by omega
  refine ⟨⟨page, rfl, ?_⟩, ?_, ?_⟩
  · simp only [openRaw, if_pos fits, start, Nat.add_sub_cancel_left]
    exact stored
  · simp only [openRaw, if_pos fits, start]
    omega
  · simp only [openRaw, if_pos fits]
    exact inside

/-- At the end of its window the decoder only loses its current posting. -/
theorem decodeNext_nil {decoder : UnifiedDecoder} (stands : Over decoder []) :
    decoder.decodeNext = { decoder with hasCurrent := false } := by
  have length := stands.window_length
  have ordered := stands.ordered
  rw [decodeNext, if_neg]
  simp only [encodePostings_nil, List.length_nil] at length
  omega

/-- Without a block the decoder only loses its current posting. -/
theorem decodeNext_released {decoder : UnifiedDecoder} (released : decoder.block = none) :
    decoder.decodeNext = { decoder with hasCurrent := false } := by
  rw [decodeNext]
  split
  · simp [released]
  · rfl

/-- The next posting of the window becomes the current one. -/
theorem decodeNext_cons {decoder : UnifiedDecoder} {posting : Posting} {rest : List Posting}
    (stands : Over decoder (posting :: rest)) : On decoder.decodeNext posting rest := by
  obtain ⟨⟨page, hasPage, window⟩, ordered, inside⟩ := stands
  have length := Over.window_length ⟨⟨page, hasPage, window⟩, ordered, inside⟩
  have docLong : 0 < (vbWriteLoop 10 posting.docId.toNat).length := vbWriteLoop_length_pos
  obtain ⟨byte, docTail, shape⟩ := List.exists_cons_of_length_pos docLong
  have encoded : encodePosting posting = byte :: docTail ++ [posting.tf8] := by
    rw [encodePosting, vbWrite, shape]
  have postingLength : (encodePosting posting).length = docTail.length + 2 := by
    simp [encoded]
  rw [encodePostings_cons, List.length_append] at length
  -- The written value decodes to the document id, and the byte behind it is the frequency.
  have stepped : decoder.decodeNext =
      { decoder with
        currentPtr := decoder.currentPtr + (encodePosting posting).length
        currentDoc := posting.docId
        currentTf8 := posting.tf8
        hasCurrent := true } := by
    have bound : posting.docId.toNat * 2 ^ 0 < 2 ^ 64 := by simpa using posting.docId.toNat_lt
    have below : 0 < 2 ^ 0 := by decide
    have fits := docId_lt posting
    have digit := (vbWriteLoop_head fits shape).1
    have read := decodeTail_vbWriteLoop fits bound below shape
      (posting.tf8 :: encodePostings rest)
    simp only [Nat.zero_add, Nat.pow_zero, Nat.mul_one, ← digit] at read
    rw [decodeNext, if_pos (by omega), hasPage]
    simp only [window, encodePostings_cons, encoded, List.cons_append, List.append_assoc,
      List.nil_append, read, List.drop_left, UInt64.ofNat_toNat]
    have width : decoder.currentPtr + 1 + docTail.length + 1 =
        decoder.currentPtr + (byte :: (docTail ++ [posting.tf8])).length := by
      simp only [List.length_cons, List.length_append, List.length_nil]
      omega
    rw [width]
  rw [stepped]
  refine ⟨rfl, rfl, rfl, ⟨page, hasPage, ?_⟩, ?_, inside⟩
  · have split : decoder.blockEnd - decoder.currentPtr =
        (encodePosting posting).length +
          (decoder.blockEnd - (decoder.currentPtr + (encodePosting posting).length)) := by
      omega
    rw [split, slice_append, encodePostings_cons] at window
    refine (List.append_inj window ?_).2
    rw [slice_length_of_le]
    rw [page.size]
    omega
  · show decoder.currentPtr + (encodePosting posting).length ≤ decoder.blockEnd
    omega

/-! ## Skipping inside a window -/

/-- What a skip leaves behind: the first posting not below the target, or no
current posting. -/
def SkippedTo (decoder : UnifiedDecoder) : List Posting → Prop
  | [] => decoder.hasCurrent = false
  | posting :: later => On decoder posting later

private theorem goUntilLoop_over {turns : Nat} {decoder : UnifiedDecoder} {rest : List Posting}
    {target : UInt64} (stands : Over decoder rest) (enough : rest.length < turns) :
    SkippedTo (goUntilLoop turns decoder target)
      (rest.dropWhile fun posting => posting.docId < target) := by
  induction turns generalizing decoder rest with
  | zero => omega
  | succ turns inductionHypothesis =>
      cases rest with
      | nil =>
          simp [goUntilLoop, decodeNext_nil stands, SkippedTo]
      | cons posting rest =>
          have next := decodeNext_cons stands
          by_cases passed : posting.docId < target
          · have skipped : ¬ (decoder.decodeNext.hasCurrent = false ∨
                target ≤ decoder.decodeNext.currentDoc) := by
              rintro (ended | reached)
              · rw [next.current] at ended
                cases ended
              · rw [next.doc] at reached
                exact UInt64.not_lt.mpr reached passed
            rw [goUntilLoop, if_neg skipped, List.dropWhile_cons_of_pos (by simpa using passed)]
            exact inductionHypothesis next.ahead (by simpa using enough)
          · have reached : target ≤ decoder.decodeNext.currentDoc := by
              rw [next.doc]
              exact UInt64.not_lt.mp passed
            rw [goUntilLoop, if_pos (Or.inr reached),
              List.dropWhile_cons_of_neg (by simpa using passed)]
            exact next

theorem goUntil_on {decoder : UnifiedDecoder} {posting : Posting} {rest : List Posting}
    (stands : On decoder posting rest) (target : UInt64) :
    SkippedTo (decoder.goUntil target)
      ((posting :: rest).dropWhile fun posting => posting.docId < target) := by
  by_cases passed : posting.docId < target
  · have notYet : ¬ (decoder.hasCurrent = true ∧ target ≤ decoder.currentDoc) := by
      rintro ⟨_, reached⟩
      rw [stands.doc] at reached
      exact UInt64.not_lt.mpr reached passed
    have long := encodePostings_length_ge rest
    have length := stands.ahead.window_length
    rw [goUntil, if_neg notYet, List.dropWhile_cons_of_pos (by simpa using passed)]
    exact goUntilLoop_over stands.ahead (by omega)
  · have already : decoder.hasCurrent = true ∧ target ≤ decoder.currentDoc := by
      rw [stands.doc]
      exact ⟨stands.current, UInt64.not_lt.mp passed⟩
    rw [goUntil, if_pos already, List.dropWhile_cons_of_neg (by simpa using passed)]
    exact stands

private theorem goUntilLoop_last {turns : Nat} {decoder : UnifiedDecoder} {rest : List Posting}
    {target : UInt64} (stands : Over decoder rest) (enough : rest.length < turns)
    (beyond : ∀ posting ∈ rest, posting.docId < target) :
    (goUntilLoop turns decoder target).currentDoc =
      (rest.getLast?.map Posting.docId).getD decoder.currentDoc := by
  induction turns generalizing decoder rest with
  | zero => omega
  | succ turns inductionHypothesis =>
      cases rest with
      | nil => simp [goUntilLoop, decodeNext_nil stands]
      | cons posting rest =>
          have next := decodeNext_cons stands
          have passed := beyond posting List.mem_cons_self
          have skipped : ¬ (decoder.decodeNext.hasCurrent = false ∨
              target ≤ decoder.decodeNext.currentDoc) := by
            rintro (ended | reached)
            · rw [next.current] at ended
              cases ended
            · rw [next.doc] at reached
              exact UInt64.not_lt.mpr reached passed
          rw [goUntilLoop, if_neg skipped,
            inductionHypothesis next.ahead (by simpa using enough)
              fun other member => beyond other (List.mem_cons_of_mem _ member), next.doc]
          cases rest with
          | nil => rfl
          | cons second rest =>
              rw [List.getLast?_cons_cons, List.getLast?_cons]
              rfl

/-- A skip that passes the whole window ends with its last document. -/
theorem goUntil_last {decoder : UnifiedDecoder} {posting last : Posting} {rest : List Posting}
    {target : UInt64} (stands : On decoder posting rest)
    (beyond : ∀ other ∈ posting :: rest, other.docId < target)
    (ends : (posting :: rest).getLast? = some last) :
    (decoder.goUntil target).currentDoc = last.docId := by
  have notYet : ¬ (decoder.hasCurrent = true ∧ target ≤ decoder.currentDoc) := by
    rintro ⟨_, reached⟩
    rw [stands.doc] at reached
    exact UInt64.not_lt.mpr reached (beyond posting List.mem_cons_self)
  have long := encodePostings_length_ge rest
  have length := stands.ahead.window_length
  rw [goUntil, if_neg notYet, goUntilLoop_last stands.ahead (by omega)
    fun other member => beyond other (List.mem_cons_of_mem _ member), stands.doc]
  cases rest with
  | nil => exact congrArg Posting.docId (Option.some.inj ends)
  | cons second rest =>
      rw [List.getLast?_cons_cons] at ends
      rw [ends]
      rfl

/-- A decoder without a block stays at its end. -/
theorem goUntil_released {decoder : UnifiedDecoder} (released : decoder.block = none)
    (ended : decoder.hasCurrent = false) (target : UInt64) : decoder.goUntil target = decoder := by
  have same : { decoder with hasCurrent := false } = decoder := by
    rw [← ended]
  rw [goUntil, if_neg (by simp [ended]), goUntilLoop, decodeNext_released released, same]
  exact if_pos (Or.inl ended)

end UnifiedDecoder

end MoonShot.Reader
