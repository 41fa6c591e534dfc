import MoonShot.Reader.Advanced
import MoonShot.Untrusted.Averages
import MoonShot.Untrusted.Lookup

/-!
Readers over untrusted blocks (`UnifiedDecoder.rs`, `AdvancedIndexReader.rs`).

Owns the decoder and the leaf reader with every check, on pages with any bytes: the
arithmetic, the bounds of the page, the window that a leaf entry or a continuation
header declared for the postings, and a bound on the turns of each loop. A step never
faults once `Open` has returned, and is then the step without the checks.

The window and the turns are not in the source: a read outside the window and a loop
that needs more turns are faults here.
-/

namespace MoonShot.Untrusted

open MoonShot.Lib
open MoonShot.Postings
open MoonShot.Format
open MoonShot.Table
open MoonShot.Reader

/-! ## Decoder -/

/-- The declared range of a page. -/
structure Window where
  start : Nat
  stop : Nat

/-- A range that leaves the page is empty. -/
def Window.declared (offset len : Nat) : Window :=
  ⟨offset, if offset + len ≤ pageSize then offset + len else offset⟩

/-- `IB_Data[m_CurrentPtr]` -/
def readCurrent (window : Window) (page : Page) (decoder : UnifiedDecoder) : Checked UInt8 :=
  if window.start ≤ decoder.currentPtr ∧ decoder.currentPtr < window.stop then
    readByte page.data decoder.currentPtr
  else .error .undeclared

/-- `m_CurrentPtr += 1` -/
def stepPtr (decoder : UnifiedDecoder) : Checked UnifiedDecoder := do
  let currentPtr ← addUsize decoder.currentPtr 1
  return { decoder with currentPtr := currentPtr }

/-- The document id loop of `DecodeNext`; `none` for a malformed id. -/
def decodeId (window : Window) (page : Page) : (turns : Nat) → (decoder : UnifiedDecoder) →
    (byte : UInt8) → (shift : UInt32) → (docId : UInt64) →
      Checked (UnifiedDecoder × Option UInt64)
  | 0, _, _, _, _ => .error .unfinished
  | turns + 1, decoder, byte, shift, docId =>
      if byte &&& 0x80 = 0 then .ok (decoder, some docId)
      else if decoder.currentPtr ≥ decoder.blockEnd ∨ shift ≥ 64 then .ok (decoder, none)
      else do
        let byte ← readCurrent window page decoder
        let decoder ← stepPtr decoder
        if shift = 63 ∧ byte &&& 0x7e ≠ 0 then return (decoder, none)
        else
          let digit ← shlU64 (byte &&& 0x7f).toUInt64 shift.toNat
          let shift ← addU32 shift 7
          decodeId window page turns decoder byte shift (docId ||| digit)

/-- `DecodeNext`. An id of 64 bits has at most ten bytes. -/
def decodeNext (window : Window) (decoder : UnifiedDecoder) : Checked UnifiedDecoder :=
  if decoder.currentPtr < decoder.blockEnd then
    match decoder.block with
    | none => .ok { decoder with hasCurrent := false }
    | some page => do
        let byte ← readCurrent window page decoder
        let decoder ← stepPtr decoder
        match ← decodeId window page 10 decoder byte 7 (byte &&& 0x7f).toUInt64 with
        | (decoder, none) => return { decoder with hasCurrent := false }
        | (decoder, some docId) =>
            let decoder := { decoder with currentDoc := docId }
            if decoder.currentPtr ≥ decoder.blockEnd then
              return { decoder with hasCurrent := false }
            else
              let tf ← readCurrent window page decoder
              let decoder ← stepPtr decoder
              return { decoder with currentTf8 := tf, hasCurrent := true }
  else .ok { decoder with hasCurrent := false }

/-- The loop of `GoUntil`. -/
def goUntilTurns (window : Window) : (turns : Nat) → UnifiedDecoder → (target : UInt64) →
    Checked UnifiedDecoder
  | 0, _, _ => .error .unfinished
  | turns + 1, decoder, target => do
      let next ← decodeNext window decoder
      if next.hasCurrent = false ∨ target ≤ next.currentDoc then return next
      else goUntilTurns window turns next target

/-- `GoUntil` -/
def decoderGoUntil (window : Window) (decoder : UnifiedDecoder) (target : UInt64) :
    Checked UnifiedDecoder :=
  if decoder.hasCurrent = true ∧ target ≤ decoder.currentDoc then .ok decoder
  else goUntilTurns window (decoder.blockEnd - decoder.currentPtr + 1) decoder target

/-- The bytes left to a decoder are declared, and inside the page. -/
structure Inside (window : Window) (decoder : UnifiedDecoder) : Prop where
  page : decoder.blockEnd ≤ pageSize
  declared : decoder.currentPtr < decoder.blockEnd →
    window.start ≤ decoder.currentPtr ∧ decoder.blockEnd ≤ window.stop

section Decode

variable {window : Window} {page : Page} {decoder : UnifiedDecoder}

/-- A decoder moves on inside its window. -/
theorem Inside.ahead (inside : Inside window decoder) {next : UnifiedDecoder}
    (sameEnd : next.blockEnd = decoder.blockEnd) (later : decoder.currentPtr ≤ next.currentPtr) :
    Inside window next := by
  have page := inside.page
  refine ⟨by omega, ?_⟩
  intro more
  obtain ⟨start, stop⟩ := inside.declared (by omega)
  exact ⟨by omega, by omega⟩

theorem readCurrent_eq (inside : Inside window decoder)
    (more : decoder.currentPtr < decoder.blockEnd) :
    readCurrent window page decoder = .ok (page.data.getD decoder.currentPtr 0) := by
  obtain ⟨start, stop⟩ := inside.declared more
  have size := inside.page
  rw [readCurrent, if_pos ⟨start, by omega⟩, readByte_eq (by rw [page.size]; omega)]

theorem stepPtr_eq (inside : Inside window decoder)
    (more : decoder.currentPtr < decoder.blockEnd) :
    stepPtr decoder = .ok { decoder with currentPtr := decoder.currentPtr + 1 } := by
  have size := inside.page
  have bytes : pageSize = 4096 := rfl
  rw [stepPtr, addUsize_eq (by omega)]
  rfl

/-- The window behind a position, its first byte in front. -/
theorem slice_window (inside : Inside window decoder)
    (more : decoder.currentPtr < decoder.blockEnd) :
    slice page.data decoder.currentPtr (decoder.blockEnd - decoder.currentPtr) =
      page.data.getD decoder.currentPtr 0 ::
        slice page.data (decoder.currentPtr + 1) (decoder.blockEnd - (decoder.currentPtr + 1)) := by
  have size := inside.page
  have below : decoder.currentPtr < page.data.length := by
    rw [page.size]
    omega
  have count : decoder.blockEnd - decoder.currentPtr =
      decoder.blockEnd - (decoder.currentPtr + 1) + 1 := by omega
  rw [slice, List.drop_eq_getElem_cons below, count, List.take_succ_cons,
    List.getD_eq_getElem _ _ below]
  rfl

/-- The part of a slice behind its first bytes. -/
theorem slice_drop (data : Bytes) (offset length count : Nat) :
    (slice data offset length).drop count = slice data (offset + count) (length - count) := by
  rw [slice, List.drop_take, List.drop_drop]
  rfl

/-- The seven bits of a byte enter the id as they do in the natural number. -/
theorem ofNat_or_shift (docId : Nat) (byte : UInt8) {shift : Nat} (small : shift < 64) :
    UInt64.ofNat docId ||| ((byte &&& 0x7f).toUInt64 <<< UInt64.ofNat shift) =
      UInt64.ofNat (docId ||| ((byte &&& 0x7f).toNat <<< shift)) := by
  rw [UInt64.ofNat_or, UInt64.ofNat_shiftLeft _ _ small, UInt64.ofNat_uInt8ToNat]

/-- The id loop reads what `decodeTail` reads of the window, and ends inside it. -/
theorem decodeId_eq {turns docId count : Nat} {result : Option Nat} {byte : UInt8} {shift : UInt32}
    (inside : Inside window decoder) (inWindow : decoder.currentPtr ≤ decoder.blockEnd)
    (enough : 77 ≤ shift.toNat + 7 * turns) (small : shift.toNat ≤ 70)
    (read : UnifiedDecoder.decodeTail
      (slice page.data decoder.currentPtr (decoder.blockEnd - decoder.currentPtr)) byte
      shift.toNat docId = (count, result)) :
    decodeId window page turns decoder byte shift (UInt64.ofNat docId) =
        .ok ({ decoder with currentPtr := decoder.currentPtr + count },
          result.map UInt64.ofNat) ∧
      decoder.currentPtr + count ≤ decoder.blockEnd := by
  induction turns generalizing decoder byte shift docId count with
  | zero => omega
  | succ turns inductionHypothesis =>
      rw [decodeId]
      by_cases low : byte &&& 0x80 = 0
      · rw [UnifiedDecoder.decodeTail_of_low low] at read
        obtain ⟨rfl, rfl⟩ := Prod.mk.inj read
        rw [if_pos low]
        exact ⟨rfl, inWindow⟩
      · rw [if_neg low]
        by_cases more : decoder.currentPtr < decoder.blockEnd
        · have large : shift ≥ 64 ↔ shift.toNat ≥ 64 := UInt32.le_iff_toNat_le
          rw [slice_window inside more, UnifiedDecoder.decodeTail, if_neg low] at read
          by_cases long : shift.toNat ≥ 64
          · rw [if_pos long] at read
            obtain ⟨rfl, rfl⟩ := Prod.mk.inj read
            rw [if_pos (Or.inr (large.mpr long))]
            exact ⟨rfl, inWindow⟩
          · have last : shift = 63 ↔ shift.toNat = 63 := UInt32.toNat_inj.symm
            have seven : (7 : UInt32).toNat = 7 := rfl
            rw [if_neg long] at read
            rw [if_neg (not_or.mpr ⟨not_le.mpr more, fun atLeast => long (large.mp atLeast)⟩),
              readCurrent_eq inside more, ok_bind, stepPtr_eq inside more, ok_bind]
            by_cases refused : shift.toNat = 63 ∧
                page.data.getD decoder.currentPtr 0 &&& 0x7e ≠ 0
            · rw [if_pos refused] at read
              obtain ⟨rfl, rfl⟩ := Prod.mk.inj read
              rw [if_pos ⟨last.mpr refused.1, refused.2⟩]
              exact ⟨rfl, more⟩
            · have next : (shift + 7).toNat = shift.toNat + 7 := by
                rw [UInt32.toNat_add, seven]
                omega
              have ahead : Inside window { decoder with currentPtr := decoder.currentPtr + 1 } :=
                inside.ahead rfl (Nat.le_succ _)
              rw [if_neg refused, ← next] at read
              rw [if_neg fun both => refused ⟨last.mp both.1, both.2⟩, shlU64_eq (by omega), ok_bind,
                addU32_eq (by rw [seven]; omega), ok_bind, ofNat_or_shift _ _ (by omega)]
              obtain ⟨rfl, rfl⟩ := Prod.mk.inj read
              obtain ⟨ran, ends⟩ := inductionHypothesis ahead more (by omega) (by omega) rfl
              rw [ran]
              dsimp only at ends ⊢
              rw [Nat.add_assoc, Nat.add_comm 1] at ends ⊢
              exact ⟨rfl, ends⟩
        · have nothing : slice page.data decoder.currentPtr
              (decoder.blockEnd - decoder.currentPtr) = [] := by
            rw [Nat.sub_eq_zero_of_le (not_lt.mp more)]
            exact List.take_zero
          rw [nothing, UnifiedDecoder.decodeTail, if_neg low] at read
          obtain ⟨rfl, rfl⟩ := Prod.mk.inj read
          rw [if_pos (Or.inl (not_lt.mp more))]
          exact ⟨rfl, inWindow⟩

/-- One posting: the step without the checks. It moves on, by a byte at least where it
finds a posting. -/
theorem decodeNext_spec (inside : Inside window decoder) :
    decodeNext window decoder = .ok decoder.decodeNext ∧ Inside window decoder.decodeNext ∧
      (decoder.decodeNext.hasCurrent = true →
        decoder.decodeNext.blockEnd - decoder.decodeNext.currentPtr <
          decoder.blockEnd - decoder.currentPtr) := by
  obtain ⟨block, ptr, blockEnd, doc, tf8, has⟩ := decoder
  unfold decodeNext UnifiedDecoder.decodeNext
  dsimp only
  by_cases more : ptr < blockEnd
  · rw [if_pos more, if_pos more]
    cases block with
    | none => exact ⟨rfl, inside.ahead rfl le_rfl, fun absurdity => by cases absurdity⟩
    | some page =>
        have ahead : Inside window ⟨some page, ptr + 1, blockEnd, doc, tf8, has⟩ :=
          inside.ahead rfl (Nat.le_succ _)
        have first : (page.data.getD ptr 0 &&& 0x7f).toUInt64 =
            UInt64.ofNat (page.data.getD ptr 0 &&& 0x7f).toNat := (UInt64.ofNat_uInt8ToNat _).symm
        have window_ : slice page.data ptr (blockEnd - ptr) = page.data.getD ptr 0 ::
            slice page.data (ptr + 1) (blockEnd - (ptr + 1)) := slice_window inside more
        dsimp only
        rw [window_, readCurrent_eq inside more, ok_bind, stepPtr_eq inside more, ok_bind, first]
        dsimp only
        cases read : UnifiedDecoder.decodeTail (slice page.data (ptr + 1) (blockEnd - (ptr + 1)))
            (page.data.getD ptr 0) 7 (page.data.getD ptr 0 &&& 0x7f).toNat with
        | mk count result =>
            have id : decodeId window page 10 ⟨some page, ptr + 1, blockEnd, doc, tf8, has⟩
                (page.data.getD ptr 0) 7 (UInt64.ofNat (page.data.getD ptr 0 &&& 0x7f).toNat) =
                  .ok (⟨some page, ptr + 1 + count, blockEnd, doc, tf8, has⟩,
                    result.map UInt64.ofNat) ∧ ptr + 1 + count ≤ blockEnd :=
              decodeId_eq ahead more (by decide) (by decide) read
            rw [id.1, ok_bind]
            cases result with
            | none =>
                refine ⟨rfl, inside.ahead rfl ?_, fun absurdity => by cases absurdity⟩
                show ptr ≤ ptr + 1 + count
                omega
            | some docId =>
                have behind : Inside window
                    ⟨some page, ptr + 1 + count, blockEnd, UInt64.ofNat docId, tf8, has⟩ :=
                  ahead.ahead rfl (Nat.le_add_right _ _)
                dsimp only [Option.map_some]
                rw [slice_drop, Nat.sub_sub]
                by_cases left : ptr + 1 + count < blockEnd
                · have rest : slice page.data (ptr + 1 + count) (blockEnd - (ptr + 1 + count)) =
                      page.data.getD (ptr + 1 + count) 0 ::
                        slice page.data (ptr + 1 + count + 1)
                          (blockEnd - (ptr + 1 + count + 1)) := slice_window behind left
                  rw [if_neg (not_le.mpr left), readCurrent_eq behind left, ok_bind,
                    stepPtr_eq behind left, ok_bind, rest]
                  refine ⟨rfl, behind.ahead rfl (Nat.le_succ _), fun _ => ?_⟩
                  show blockEnd - (ptr + 1 + count + 1) < blockEnd - ptr
                  omega
                · have ended : slice page.data (ptr + 1 + count) (blockEnd - (ptr + 1 + count)) =
                      [] := by
                    rw [Nat.sub_eq_zero_of_le (not_lt.mp left)]
                    exact List.take_zero
                  rw [if_pos (not_lt.mp left), ended]
                  exact ⟨rfl, behind.ahead rfl le_rfl, fun absurdity => by cases absurdity⟩
  · rw [if_neg more, if_neg more]
    exact ⟨rfl, inside.ahead rfl le_rfl, fun absurdity => by cases absurdity⟩

/-- The turns of the loop are enough: each that goes on has passed a byte. -/
theorem goUntilTurns_spec {turns : Nat} (target : UInt64) (inside : Inside window decoder)
    (enough : decoder.blockEnd - decoder.currentPtr < turns) :
    goUntilTurns window turns decoder target =
        .ok (UnifiedDecoder.goUntilLoop turns decoder target) ∧
      Inside window (UnifiedDecoder.goUntilLoop turns decoder target) := by
  induction turns generalizing decoder with
  | zero => omega
  | succ turns inductionHypothesis =>
      obtain ⟨ran, next, shorter⟩ := decodeNext_spec inside
      rw [goUntilTurns, UnifiedDecoder.goUntilLoop, ran, ok_bind]
      by_cases stop : decoder.decodeNext.hasCurrent = false ∨ target ≤ decoder.decodeNext.currentDoc
      · rw [if_pos stop, if_pos stop]
        exact ⟨rfl, next⟩
      · have current := Bool.eq_true_of_not_eq_false (not_or.mp stop).1
        have fewer := shorter current
        rw [if_neg stop, if_neg stop]
        exact inductionHypothesis next (by omega)

theorem decoderGoUntil_spec (target : UInt64) (inside : Inside window decoder) :
    decoderGoUntil window decoder target = .ok (decoder.goUntil target) ∧
      Inside window (decoder.goUntil target) := by
  unfold decoderGoUntil UnifiedDecoder.goUntil
  split
  · exact ⟨rfl, inside⟩
  · exact goUntilTurns_spec target inside (Nat.lt_succ_self _)

/-- A decoder opened on a declared range stays inside it. -/
theorem inside_openRaw (page : Page) (offset len : Nat) :
    Inside (.declared offset len) (.openRaw page offset len) := by
  unfold UnifiedDecoder.openRaw Window.declared
  dsimp only
  rw [page.size]
  by_cases fits : offset + len ≤ pageSize
  · rw [if_pos fits, if_pos fits]
    exact ⟨fits, fun _ => ⟨(Nat.min_eq_left (Nat.le_add_right _ _)).ge, le_rfl⟩⟩
  · rw [if_neg fits, if_neg fits]
    exact ⟨Nat.zero_le _, fun more => absurd more (Nat.not_lt_zero _)⟩

theorem inside_new (window : Window) : Inside window .new :=
  ⟨Nat.zero_le _, fun more => absurd more (Nat.not_lt_zero _)⟩

theorem Inside.takeBlock (inside : Inside window decoder) : Inside window decoder.takeBlock :=
  ⟨inside.page, inside.declared⟩

theorem inside_close (window : Window) (decoder : UnifiedDecoder) : Inside window decoder.close :=
  ⟨Nat.zero_le _, fun more => absurd more (Nat.not_lt_zero _)⟩

end Decode

/-! ## Leaf reader -/

/-- A leaf reader, with the range declared for its decoder. -/
structure DeclaredReader extends AdvancedIndexReader where
  window : Window

/-- `IndexBlockContinuationHeader::from_bytes` of a page. -/
def continuationHeader (page : Page) : Checked (Option ContinuationHeader) :=
  if page.data.length < continuationHeaderSize then .ok none
  else do
    let maxDocId ← readU64 page.data 0
    let dataLength ← readU32 page.data 8
    return some ⟨maxDocId, dataLength⟩

/-- `OpenContinuation` -/
def openContinuation (page : Page) (reader : DeclaredReader) : Checked DeclaredReader := do
  match ← continuationHeader page with
  | some header =>
      let len := header.dataLength.toNat
      return { reader with
        decoder := .openRaw page continuationHeaderSize len
        window := .declared continuationHeaderSize len }
  | none => return { reader with decoder := .openRaw page 0 0, window := .declared 0 0 }

/-- `ReleaseCurrentBlock` -/
def releaseCurrentBlock (reader : DeclaredReader) : DeclaredReader :=
  { reader with decoder := reader.decoder.takeBlock }

section Blocks

variable (blocks : BlockSource)

/-- `LoadContinuation` -/
def loadContinuation (reader : DeclaredReader) : Checked (Bool × DeclaredReader) := do
  let nextSeq ← addU32 reader.blockSeqNumber 1
  let reader := releaseCurrentBlock reader
  match blocks nextSeq.toNat with
  | none => return (false, reader)
  | some page =>
      let reader ← openContinuation page { reader with blockSeqNumber := nextSeq }
      return (true,
        { reader with remainingContinuationBlocks := reader.remainingContinuationBlocks - 1 })

/-- `m_Decoder.GoNext()` -/
def decoderNext (reader : DeclaredReader) : Checked DeclaredReader := do
  let decoder ← decodeNext reader.window reader.decoder
  return { reader with decoder := decoder }

/-- `m_Decoder.GoUntil(target)` -/
def decoderSeek (target : UInt64) (reader : DeclaredReader) : Checked DeclaredReader := do
  let decoder ← decoderGoUntil reader.window reader.decoder target
  return { reader with decoder := decoder }

/-- The `while` loop of `GoNext`. -/
def goNextTurns : (turns : Nat) → DeclaredReader → Checked DeclaredReader
  | 0, reader =>
      if reader.isEnd && reader.remainingContinuationBlocks > 0 then .error .unfinished
      else .ok reader
  | turns + 1, reader =>
      if reader.isEnd && reader.remainingContinuationBlocks > 0 then do
        match ← loadContinuation blocks reader with
        | (false, reader) => return reader
        | (true, reader) =>
            let reader ← decoderNext reader
            goNextTurns turns reader
      else .ok reader

/-- The last statement of `GoNext` and `GoUntil`. -/
def finish (reader : DeclaredReader) : DeclaredReader :=
  if reader.isEnd && reader.remainingContinuationBlocks = 0 then
    { reader with decoder := reader.decoder.takeBlock.close }
  else reader

/-- `GoNext` -/
def goNext (reader : DeclaredReader) : Checked DeclaredReader := do
  let reader ← decoderNext reader
  let reader ← goNextTurns blocks reader.remainingContinuationBlocks reader
  return finish reader

/-- The `loop` of `GoUntil`. -/
def goUntilLoop (target : UInt64) : (turns : Nat) → DeclaredReader → Checked DeclaredReader
  | 0, _ => .error .unfinished
  | turns + 1, reader => do
      let reader ← decoderSeek target reader
      if reader.isEnd = false then return reader
      else if reader.remainingContinuationBlocks = 0 then return releaseCurrentBlock reader
      else
        let reader := releaseCurrentBlock reader
        let nextSeq ← addU32 reader.blockSeqNumber 1
        match blocks nextSeq.toNat with
        | none => return reader
        | some page =>
            match ← continuationHeader page with
            | none => return reader
            | some header =>
                let reader :=
                  { reader with
                    blockSeqNumber := nextSeq
                    remainingContinuationBlocks := reader.remainingContinuationBlocks - 1 }
                if header.maxDocId < target then goUntilLoop target turns reader
                else
                  let reader ← openContinuation page reader
                  let reader ← decoderNext reader
                  if reader.isEnd then return releaseCurrentBlock reader
                  else goUntilLoop target turns reader

/-- `GoUntil`. Every turn but the last uses up a continuation block. -/
def goUntil (reader : DeclaredReader) (target : UInt64) : Checked DeclaredReader := do
  let reader ← goUntilLoop blocks target (reader.remainingContinuationBlocks + 1) reader
  return finish reader

end Blocks

/-- The next block number is a 32-bit one, where it will be asked for, and what is left
to the decoder is declared. -/
structure Ready (reader : DeclaredReader) : Prop where
  inside : Inside reader.window reader.decoder
  next : 0 < reader.remainingContinuationBlocks → reader.blockSeqNumber.toNat + 1 < 2 ^ 32

/-- The blocks are counted in 32 bits. -/
def BlocksFit (blocks : BlockSource) : Prop :=
  ∀ blockId page, blocks blockId = some page → blockId + 1 < 2 ^ 32

theorem memoryBlocks_fit (pages : List Page) : BlocksFit (memoryBlocks pages) := by
  intro blockId page found
  have count : pages.length % 2 ^ 32 < 2 ^ 32 := Nat.mod_lt _ (by decide)
  unfold memoryBlocks at found
  split at found
  · omega
  · cases found

section Steps

variable {blocks : BlockSource} {reader : DeclaredReader}

theorem continuationHeader_eq (page : Page) :
    continuationHeader page = .ok (ContinuationHeader.fromBytes page.data) := by
  have sizes : continuationHeaderSize = 12 ∧ pageSize = 4096 := ⟨rfl, rfl⟩
  have size := page.size
  unfold continuationHeader ContinuationHeader.fromBytes
  rw [if_neg (by omega), if_neg (by omega), readU64_eq (by omega) (by decide), ok_bind,
    readU32_eq (by omega) (by decide)]
  rfl

/-- A continuation is opened as without the checks, on the range of its header. -/
theorem openContinuation_spec (page : Page) (reader : DeclaredReader) :
    ∃ window, openContinuation page reader = .ok
        { reader with decoder := AdvancedIndexReader.openContinuation page, window := window } ∧
      Inside window (AdvancedIndexReader.openContinuation page) := by
  unfold openContinuation AdvancedIndexReader.openContinuation
  rw [continuationHeader_eq, ok_bind]
  cases ContinuationHeader.fromBytes page.data with
  | none => exact ⟨_, rfl, inside_openRaw page 0 0⟩
  | some header => exact ⟨_, rfl, inside_openRaw page _ _⟩

theorem decoderNext_spec (ready : Ready reader) :
    decoderNext reader = .ok { reader with decoder := reader.decoder.decodeNext } ∧
      Ready { reader with decoder := reader.decoder.decodeNext } := by
  obtain ⟨ran, next, _⟩ := decodeNext_spec ready.inside
  rw [decoderNext, ran, ok_bind]
  exact ⟨rfl, next, ready.next⟩

theorem Ready.release (ready : Ready reader) : Ready (releaseCurrentBlock reader) :=
  ⟨ready.inside.takeBlock, ready.next⟩

theorem Ready.finish (ready : Ready reader) : Ready (finish reader) := by
  unfold Untrusted.finish
  split
  · exact ⟨inside_close _ _, ready.next⟩
  · exact ready

theorem finish_toAdvancedIndexReader (reader : DeclaredReader) :
    (Untrusted.finish reader).toAdvancedIndexReader =
      reader.toAdvancedIndexReader.finish := by
  unfold Untrusted.finish AdvancedIndexReader.finish
  split
  · rfl
  · rfl

/-- One turn of the loop of `GoNext`. -/
theorem loadContinuation_spec (fit : BlocksFit blocks) (ready : Ready reader)
    (more : 0 < reader.remainingContinuationBlocks) :
    ∃ opened after, loadContinuation blocks reader = .ok (opened, after) ∧
      AdvancedIndexReader.loadContinuation blocks reader.toAdvancedIndexReader =
        (opened, after.toAdvancedIndexReader) ∧ Ready after ∧
      (opened = true →
        after.remainingContinuationBlocks + 1 = reader.remainingContinuationBlocks) := by
  have one : (1 : UInt32).toNat = 1 := rfl
  have next := ready.next more
  have seq : (reader.blockSeqNumber + 1).toNat = reader.blockSeqNumber.toNat + 1 := by
    rw [UInt32.toNat_add, one]
    omega
  unfold loadContinuation AdvancedIndexReader.loadContinuation
  rw [addU32_eq (by rw [one]; omega), ok_bind]
  dsimp only
  cases found : blocks (reader.blockSeqNumber + 1).toNat with
  | none => exact ⟨false, releaseCurrentBlock reader, rfl, rfl, ready.release, by simp⟩
  | some page =>
      obtain ⟨window, opened, inside⟩ := openContinuation_spec page
        { releaseCurrentBlock reader with blockSeqNumber := reader.blockSeqNumber + 1 }
      have numbered := fit _ _ found
      dsimp only
      rw [opened, ok_bind]
      refine ⟨true, _, rfl, rfl, ⟨inside, fun _ => numbered⟩, fun _ => ?_⟩
      show reader.remainingContinuationBlocks - 1 + 1 = _
      omega

/-- The loop of `GoNext` uses up a continuation block with each turn. -/
theorem goNextTurns_spec (fit : BlocksFit blocks) {turns : Nat} (ready : Ready reader)
    (enough : reader.remainingContinuationBlocks ≤ turns) :
    ∃ after, goNextTurns blocks turns reader = .ok after ∧
      AdvancedIndexReader.goNextLoop blocks turns reader.toAdvancedIndexReader =
        after.toAdvancedIndexReader ∧ Ready after := by
  induction turns generalizing reader with
  | zero =>
      have none_ : reader.remainingContinuationBlocks = 0 := Nat.le_zero.mp enough
      rw [goNextTurns, if_neg (by simp [none_])]
      exact ⟨reader, rfl, rfl, ready⟩
  | succ turns inductionHypothesis =>
      rw [goNextTurns, AdvancedIndexReader.goNextLoop]
      by_cases more : (reader.isEnd && decide (reader.remainingContinuationBlocks > 0)) = true
      · have left : 0 < reader.remainingContinuationBlocks :=
          of_decide_eq_true (Bool.and_eq_true_iff.mp more).2
        obtain ⟨opened, after, ran, same, afterReady, fewer⟩ := loadContinuation_spec fit ready left
        rw [if_pos more, if_pos more, ran, ok_bind, same]
        cases opened with
        | false => exact ⟨after, rfl, rfl, afterReady⟩
        | true =>
            obtain ⟨moved, movedReady⟩ := decoderNext_spec afterReady
            have count := fewer rfl
            dsimp only
            rw [moved, ok_bind]
            exact inductionHypothesis movedReady (by
              show after.remainingContinuationBlocks ≤ turns
              omega)
      · rw [if_neg more, if_neg more]
        exact ⟨reader, rfl, rfl, ready⟩

/-- `GoNext` never faults, and is `GoNext` without the checks. -/
theorem goNext_spec (fit : BlocksFit blocks) (ready : Ready reader) :
    ∃ after, goNext blocks reader = .ok after ∧
      after.toAdvancedIndexReader = reader.toAdvancedIndexReader.goNext blocks ∧ Ready after := by
  obtain ⟨moved, movedReady⟩ := decoderNext_spec ready
  obtain ⟨after, ran, same, afterReady⟩ := goNextTurns_spec fit movedReady le_rfl
  refine ⟨finish after, ?_, ?_, afterReady.finish⟩
  · rw [goNext, moved, ok_bind, ran]
    rfl
  · rw [finish_toAdvancedIndexReader, ← same]
    rfl

theorem decoderSeek_spec (target : UInt64) (ready : Ready reader) :
    ∃ moved, decoderSeek target reader = .ok moved ∧
      { reader.toAdvancedIndexReader with decoder := reader.decoder.goUntil target } =
        moved.toAdvancedIndexReader ∧
      moved.remainingContinuationBlocks = reader.remainingContinuationBlocks ∧ Ready moved := by
  obtain ⟨ran, inside⟩ := decoderGoUntil_spec target ready.inside
  rw [decoderSeek, ran, ok_bind]
  exact ⟨_, rfl, rfl, rfl, inside, ready.next⟩

theorem release_spec (ready : Ready reader) :
    ∃ released, releaseCurrentBlock reader = released ∧
      reader.toAdvancedIndexReader.releaseCurrentBlock = released.toAdvancedIndexReader ∧
      released.remainingContinuationBlocks = reader.remainingContinuationBlocks ∧ Ready released :=
  ⟨_, rfl, rfl, rfl, ready.release⟩

/-- The loop of `GoUntil` uses up a continuation block with each turn but the last. -/
theorem goUntilLoop_spec (fit : BlocksFit blocks) (target : UInt64) {turns : Nat}
    (ready : Ready reader) (enough : reader.remainingContinuationBlocks < turns) :
    ∃ after, goUntilLoop blocks target turns reader = .ok after ∧
      AdvancedIndexReader.goUntilLoop blocks target turns reader.toAdvancedIndexReader =
        after.toAdvancedIndexReader ∧ Ready after := by
  induction turns generalizing reader with
  | zero => omega
  | succ turns inductionHypothesis =>
      obtain ⟨moved, ran, movedEq, remaining, movedReady⟩ := decoderSeek_spec target ready
      obtain ⟨released, releasedIs, releasedEq, kept, releasedReady⟩ := release_spec movedReady
      rw [goUntilLoop, AdvancedIndexReader.goUntilLoop, ran, ok_bind, movedEq]
      dsimp only
      rw [releasedIs, releasedEq]
      by_cases current : moved.isEnd = false
      · rw [if_pos current, if_pos current]
        exact ⟨moved, rfl, rfl, movedReady⟩
      · rw [if_neg current, if_neg current]
        by_cases none_ : moved.remainingContinuationBlocks = 0
        · rw [if_pos none_, if_pos none_]
          exact ⟨released, rfl, rfl, releasedReady⟩
        · have one : (1 : UInt32).toNat = 1 := rfl
          have next := releasedReady.next (by omega)
          rw [if_neg none_, if_neg none_, addU32_eq (by rw [one]; omega), ok_bind]
          cases found : blocks (released.blockSeqNumber + 1).toNat with
          | none => exact ⟨released, rfl, rfl, releasedReady⟩
          | some page =>
              have numbered := fit _ _ found
              dsimp only
              rw [continuationHeader_eq, ok_bind]
              cases ContinuationHeader.fromBytes page.data with
              | none => exact ⟨released, rfl, rfl, releasedReady⟩
              | some header =>
                  let counted : DeclaredReader :=
                    { released with
                      blockSeqNumber := released.blockSeqNumber + 1
                      remainingContinuationBlocks := released.remainingContinuationBlocks - 1 }
                  have countedReady : Ready counted := ⟨releasedReady.inside, fun _ => numbered⟩
                  have fewer : counted.remainingContinuationBlocks < turns := by
                    show released.remainingContinuationBlocks - 1 < turns
                    omega
                  dsimp only
                  by_cases behind : header.maxDocId < target
                  · rw [if_pos behind, if_pos behind]
                    exact inductionHypothesis countedReady fewer
                  · obtain ⟨window, opened, openedInside⟩ := openContinuation_spec page counted
                    let next : DeclaredReader :=
                      { counted with
                        decoder := AdvancedIndexReader.openContinuation page
                        window := window }
                    have nextReady : Ready next := ⟨openedInside, fun _ => numbered⟩
                    obtain ⟨stepped, steppedReady⟩ := decoderNext_spec nextReady
                    rw [if_neg behind, if_neg behind, opened, ok_bind, stepped, ok_bind]
                    let after : DeclaredReader :=
                      { next with decoder := (AdvancedIndexReader.openContinuation page).decodeNext }
                    by_cases ended : after.isEnd = true
                    · refine ⟨releaseCurrentBlock after, if_pos ended, ?_, steppedReady.release⟩
                      exact if_pos ended
                    · obtain ⟨last, lastRan, lastEq, lastReady⟩ :=
                        inductionHypothesis steppedReady fewer
                      refine ⟨last, (if_neg ended).trans lastRan, ?_, lastReady⟩
                      exact (if_neg ended).trans lastEq

/-- `GoUntil` never faults, and is `GoUntil` without the checks. -/
theorem goUntil_spec (fit : BlocksFit blocks) (target : UInt64) (ready : Ready reader) :
    ∃ after, goUntil blocks reader target = .ok after ∧
      after.toAdvancedIndexReader = reader.toAdvancedIndexReader.goUntil blocks target ∧
      Ready after := by
  obtain ⟨after, ran, same, afterReady⟩ := goUntilLoop_spec fit target ready (Nat.lt_succ_self _)
  refine ⟨finish after, ?_, ?_, afterReady.finish⟩
  · rw [goUntil, ran]
    rfl
  · rw [finish_toAdvancedIndexReader, ← same]
    rfl

end Steps

end MoonShot.Untrusted
