import MoonShot.Context.Saved
import MoonShot.Context.Search
import MoonShot.Untrusted.Reader

/-!
Readers of a loaded index (`OpenAdvancedReader`, `AdvancedIndexReader::Open`).

Owns opening a reader with every check, and the exact condition under which a reader
of loaded bytes never faults: where its key is found, the index counts documents, and
the last block number is not continued. Every call after that is safe.

Does not own scoring.
-/

namespace MoonShot.Untrusted

open MoonShot.Lib
open MoonShot.Postings
open MoonShot.Format
open MoonShot.Table
open MoonShot.Reader
open MoonShot.Serializer
open MoonShot.Index
open MoonShot.Context

/-! ## `Open` -/

section Open

variable (floats : LengthFloats) (point : PartitionPoint)

/-- The reader before the lookup of `Open`. -/
def unopened (key : Str) : DeclaredReader :=
  { AdvancedIndexReader.unopened key with window := .declared 0 0 }

/-- The reader `Open` has before its first `GoNext`. -/
def located (table : IndexBlockTable) (key : Str) (location : IndexLocation) : DeclaredReader :=
  let reader : DeclaredReader :=
    { unopened key with
      docFreq := location.docFreq
      blockSeqNumber := location.indexBlockId
      remainingContinuationBlocks := location.continuationBlockCount.toNat }
  match table.indexBlocks location.indexBlockId.toNat with
  | some page =>
      { reader with
        decoder := .openRaw page location.indexOffset location.indexLength
        window := .declared location.indexOffset location.indexLength }
  | none => reader

/-- `Open` -/
def openReader (table : IndexBlockTable) (key : Str) (numDocuments : UInt64)
    (averageStreamLength : F32) : Checked DeclaredReader := do
  match ← findTermData point table key with
  | none => goNext table.indexBlocks (unopened key)
  | some location => do
      assert (numDocuments > 0)
      assert (floats.positive averageStreamLength = true)
      goNext table.indexBlocks (located table key location)

/-- `OpenAdvancedReader` -/
def openAdvancedReader (index : LocalIndex) (key : Str) : Checked DeclaredReader := do
  let stream := key.bytes.getLast?.getD 0x42
  let numDocuments := index.queryContext.numDocuments
  let average ← getAverageStreamLength floats index.docData index.header stream
  openReader floats point index.table key numDocuments average

/-- One call on a reader. -/
def call (blocks : BlockSource) (reader : DeclaredReader) : Call → Checked DeclaredReader
  | .goNext => goNext blocks reader
  | .goUntil target => goUntil blocks reader target

/-- Calls one after another. -/
def readCalls (blocks : BlockSource) : DeclaredReader → List Call → Checked DeclaredReader
  | reader, [] => .ok reader
  | reader, next :: calls => do
      let reader ← call blocks reader next
      readCalls blocks reader calls

/-- `OpenAdvancedReader`, and then these calls. -/
def openAndRead (index : LocalIndex) (key : Str) (calls : List Call) : Checked DeclaredReader := do
  let reader ← openAdvancedReader floats point index key
  readCalls index.table.indexBlocks reader calls

end Open

/-- The reader of a key opens: where the key is found there are documents, and no
continuation is asked for behind the last 32-bit block number. -/
def OpensSafely (point : PartitionPoint) (index : LocalIndex) (key : Str) : Prop :=
  ∀ location, locate point index.table key = some location →
    0 < index.header.numDocuments ∧
      ¬ (location.indexBlockId = 0xFFFFFFFF ∧ 0 < location.continuationBlockCount)

/-! ## Loaded indexes -/

/-- What readers rely on in a loaded index. -/
structure LoadedIndexFit (index : LocalIndex) : Prop where
  ready : LookupReady index.table
  blocks : BlocksFit index.table.indexBlocks
  records : index.header.numDocuments.toNat * docRecSize < 2 ^ 64
  noStore : index.store = .new

theorem decode_records {data : Bytes} {decoded : DecodedIndexData} {header : IndexFileHeader}
    (ok : Serializer.decode data = .ok decoded) (parsed : IndexFileHeader.parse data = .ok header) :
    header.numDocuments.toNat * docRecSize < 2 ^ 64 := by
  rw [decode_eq_front_back] at ok
  obtain ⟨front, ok, _⟩ := bind_ok.mp ok
  obtain ⟨layout, _, _⟩ := frontOf_layout ok
  have same : front.header = header := Except.ok.inj ((frontOf_parse ok).symm.trans parsed)
  have ends := layout.index ▸ front.header.indexBlockOffset.toNat_lt
  rw [← same]
  omega

theorem loadBytes_records {data : Bytes} {loaded : LoadedIndex}
    (ok : Serializer.loadBytes data = .ok loaded) :
    loaded.header.numDocuments.toNat * docRecSize < 2 ^ 64 ∧
      BlocksFit loaded.table.indexBlocks := by
  obtain ⟨header, parsed, ok⟩ := bind_ok.mp ok
  obtain ⟨decoded, read, ok⟩ := bind_ok.mp ok
  obtain rfl := Except.ok.inj ok
  exact ⟨decode_records read parsed, memoryBlocks_fit _⟩

/-- Every index that `LoadFromBytes` accepts is fit to be read. -/
theorem loadFromBytes_fit {context after : IndexContext} {data : Bytes}
    (accepted : context.loadFromBytes data = (after, .ok ())) : LoadedIndexFit after.base := by
  unfold IndexContext.loadFromBytes at accepted
  cases ran : Serializer.loadBytes data with
  | error failure =>
      rw [ran] at accepted
      cases accepted
  | ok loaded =>
      rw [ran] at accepted
      obtain rfl := (Prod.mk.inj accepted).1
      obtain ⟨records, blocks⟩ := loadBytes_records ran
      exact ⟨loadBytes_ready ran, blocks, records, rfl⟩

section Fit

variable {floats : LengthFloats} {point : PartitionPoint} {index : LocalIndex} {key : Str}

/-- Without documents in the header there are none in the store either. -/
theorem LoadedIndexFit.numDocuments_pos (fit : LoadedIndexFit index) :
    index.queryContext.numDocuments > 0 ↔ 0 < index.header.numDocuments := by
  show (if index.header.numDocuments > 0 then _
    else UInt64.ofNat index.store.docStats.keys.length) > 0 ↔ _
  by_cases some_ : index.header.numDocuments > 0
  · rw [if_pos some_]
    exact Iff.rfl
  · rw [if_neg some_, fit.noStore]
    exact iff_of_false (by decide) some_

/-- The opened reader, up to the lookup and the first step. -/
theorem openAdvancedReader_eq (fit : LoadedIndexFit index) :
    openAdvancedReader floats point index key =
      match locate point index.table key with
      | none => goNext index.table.indexBlocks (unopened key)
      | some location =>
          if 0 < index.header.numDocuments then
            goNext index.table.indexBlocks (located index.table key location)
          else .error .assertion := by
  obtain ⟨average, ran, positive⟩ := getAverageStreamLength_positive index.docData
    fit.records (key.bytes.getLast?.getD 0x42)
  unfold openAdvancedReader openReader
  dsimp only
  rw [ran, ok_bind, findTermData_eq point fit.ready, ok_bind]
  cases locate point index.table key with
  | none => rfl
  | some location =>
      dsimp only
      by_cases documents : 0 < index.header.numDocuments
      · rw [if_pos documents, assert_eq (fit.numDocuments_pos.mpr documents), ok_bind,
          assert_eq positive, ok_bind]
      · rw [if_neg documents, assert, if_neg (fun some_ => documents (fit.numDocuments_pos.mp some_))]
        rfl

theorem ready_unopened (key : Str) : Ready (unopened key) :=
  ⟨inside_new _, fun more => absurd more (Nat.lt_irrefl _)⟩

/-- The reader of a location is ready, where a continuation has a number. -/
theorem ready_located (table : IndexBlockTable) (key : Str) {location : IndexLocation}
    (numbered : ¬ (location.indexBlockId = 0xFFFFFFFF ∧ 0 < location.continuationBlockCount)) :
    Ready (located table key location) := by
  have next : 0 < location.continuationBlockCount.toNat →
      location.indexBlockId.toNat + 1 < 2 ^ 32 := by
    intro more
    have largest : (0xFFFFFFFF : UInt32).toNat = 2 ^ 32 - 1 := rfl
    have bound := location.indexBlockId.toNat_lt
    have different : location.indexBlockId.toNat ≠ (0xFFFFFFFF : UInt32).toNat := fun same =>
      numbered ⟨UInt32.toNat_inj.mp same, UInt32.lt_iff_toNat_lt.mpr more⟩
    omega
  unfold located
  dsimp only
  cases table.indexBlocks location.indexBlockId.toNat with
  | none => exact ⟨inside_new _, next⟩
  | some page => exact ⟨inside_openRaw page _ _, next⟩

/-- There is no number behind the last one. -/
theorem loadContinuation_overflow (blocks : BlockSource) {reader : DeclaredReader}
    (last : reader.blockSeqNumber = 0xFFFFFFFF) :
    loadContinuation blocks reader = .error .overflow := by
  rw [loadContinuation, last]
  rfl

/-- A continuation behind the last block number overflows in the first step. -/
theorem goNext_overflow (blocks : BlockSource) {reader : DeclaredReader}
    (empty : reader.decoder = .new) (last : reader.blockSeqNumber = 0xFFFFFFFF)
    (more : 0 < reader.remainingContinuationBlocks) :
    goNext blocks reader = .error .overflow := by
  obtain ⟨count, counted⟩ := Nat.exists_eq_succ_of_ne_zero more.ne'
  have ended : decoderNext reader = .ok { reader with decoder := .new } := by
    unfold decoderNext
    rw [empty]
    rfl
  rw [goNext, ended, ok_bind]
  dsimp only
  rw [counted, goNextTurns, if_pos (by simp [AdvancedIndexReader.isEnd, UnifiedDecoder.isEnd,
    UnifiedDecoder.new]), loadContinuation_overflow]
  · rfl
  · exact last

end Fit

/-! ## Calls -/

section Calls

variable {blocks : BlockSource}

theorem call_spec (fit : BlocksFit blocks) {reader : DeclaredReader} (ready : Ready reader)
    (next : Call) : ∃ after, call blocks reader next = .ok after ∧ Ready after := by
  cases next with
  | goNext =>
      obtain ⟨after, ran, _, afterReady⟩ := goNext_spec fit ready
      exact ⟨after, ran, afterReady⟩
  | goUntil target =>
      obtain ⟨after, ran, _, afterReady⟩ := goUntil_spec fit target ready
      exact ⟨after, ran, afterReady⟩

/-- Any calls on a reader that is ready return, and leave it ready. -/
theorem readCalls_spec (fit : BlocksFit blocks) {reader : DeclaredReader} (ready : Ready reader)
    (calls : List Call) : ∃ after, readCalls blocks reader calls = .ok after ∧ Ready after := by
  induction calls generalizing reader with
  | nil => exact ⟨reader, rfl, ready⟩
  | cons next calls inductionHypothesis =>
      obtain ⟨moved, ran, movedReady⟩ := call_spec fit ready next
      obtain ⟨after, rest, afterReady⟩ := inductionHypothesis movedReady
      refine ⟨after, ?_, afterReady⟩
      rw [readCalls, ran, ok_bind]
      exact rest

end Calls

section Fit

variable {floats : LengthFloats} {point : PartitionPoint} {index : LocalIndex} {key : Str}

/-- A key that opens safely is opened, and ready for any calls. -/
theorem openAdvancedReader_ready (fit : LoadedIndexFit index) (safe : OpensSafely point index key) :
    ∃ reader, openAdvancedReader floats point index key = .ok reader ∧ Ready reader := by
  rw [openAdvancedReader_eq fit]
  cases found : locate point index.table key with
  | none =>
      obtain ⟨after, ran, _, ready⟩ := goNext_spec fit.blocks (ready_unopened key)
      exact ⟨after, ran, ready⟩
  | some location =>
      obtain ⟨documents, numbered⟩ := safe location found
      obtain ⟨after, ran, _, ready⟩ :=
        goNext_spec fit.blocks (ready_located index.table key numbered)
      dsimp only
      rw [if_pos documents]
      exact ⟨after, ran, ready⟩

/-- Where a key does not open safely, `Open` itself stops. -/
theorem openAdvancedReader_faults (fit : LoadedIndexFit index)
    (notSafe : ¬ OpensSafely point index key) :
    ∃ fault, openAdvancedReader floats point index key = .error fault := by
  simp only [OpensSafely, not_forall] at notSafe
  obtain ⟨location, found, fails⟩ := notSafe
  rw [openAdvancedReader_eq fit, found]
  dsimp only
  by_cases documents : 0 < index.header.numDocuments
  · obtain ⟨last, more⟩ := not_not.mp fun numbered => fails ⟨documents, numbered⟩
    have absent : index.table.indexBlocks location.indexBlockId.toNat = none := by
      rw [last]
      cases block : index.table.indexBlocks (0xFFFFFFFF : UInt32).toNat with
      | none => rfl
      | some page => exact absurd (fit.blocks _ _ block) (by decide)
    have empty : (located index.table key location).decoder = .new := by
      unfold located
      rw [absent]
      rfl
    have sameSeq : (located index.table key location).blockSeqNumber = 0xFFFFFFFF := by
      unfold located
      rw [absent]
      exact last
    have sameCount : (located index.table key location).remainingContinuationBlocks =
        location.continuationBlockCount.toNat := by
      unfold located
      rw [absent]
    rw [if_pos documents]
    refine ⟨.overflow, goNext_overflow index.table.indexBlocks empty sameSeq ?_⟩
    rw [sameCount]
    exact UInt32.lt_iff_toNat_lt.mp more
  · rw [if_neg documents]
    exact ⟨.assertion, rfl⟩

end Fit

/-- Over every accepted file, the reader of a key runs without a fault whatever the calls
exactly if the key opens safely. -/
theorem reading_never_faults_iff (floats : LengthFloats) (point : PartitionPoint)
    {context after : IndexContext} {data : Bytes}
    (accepted : context.loadFromBytes data = (after, .ok ())) (key : Str) :
    (∀ calls, ∃ reader, openAndRead floats point after.base key calls = .ok reader) ↔
      OpensSafely point after.base key := by
  have fit := loadFromBytes_fit accepted
  constructor
  · intro runs
    by_contra notSafe
    obtain ⟨fault, stops⟩ := openAdvancedReader_faults fit notSafe
    obtain ⟨reader, ran⟩ := runs []
    rw [openAndRead, stops] at ran
    cases ran
  · intro safe calls
    obtain ⟨opened, opens, ready⟩ := openAdvancedReader_ready fit safe
    obtain ⟨reader, ran, _⟩ := readCalls_spec fit.blocks ready calls
    refine ⟨reader, ?_⟩
    rw [openAndRead, opens, ok_bind]
    exact ran

/-! ### Two files -/

section Files

variable {parts : FileParts} {prefixes : List Str}

/-- What is installed of parts that agree. -/
theorem loadFromBytes_bytes (agrees : parts.Agrees prefixes) (context : IndexContext) :
    ∃ after, context.loadFromBytes parts.bytes = (after, .ok ()) ∧
      after.base.table = (parts.loaded prefixes).table ∧ after.base.header = parts.header := by
  rw [IndexContext.loadFromBytes, agrees.loadBytes_bytes]
  exact ⟨_, rfl, rfl, rfl⟩

theorem builtParts_table (float : FloatOps) (store : PostingStore) (prefixes : List Str) :
    ((builtParts float store).loaded prefixes).table = (buildBlocks float store).table := rfl

end Files

/-- The key `aB` -/
theorem wordKey_valid : validUtf8 [0x61, 0x42] = true := rfl

def wordKey : Str := ⟨[0x61, 0x42], wordKey_valid⟩

/-- Averages of lengths of one. -/
def unitFloats : LengthFloats where
  Wide := Nat
  zero := 0
  add total length := total + length.toNat
  mean _ _ := 0x3F800000
  one := 0x3F800000
  maxOne value := if 0x3F800000 < value ∧ value ≤ 0x7F800000 then value else 0x3F800000
  positive value := decide (0 < value ∧ value ≤ 0x7F800000)
  one_positive := rfl
  maxOne_positive value := by
    split
    · rename_i large
      have least : (0 : UInt32) < 0x3F800000 := by decide
      exact decide_eq_true ⟨UInt32.lt_trans least large.1, large.2⟩
    · rfl
  mean_positive _ _ _ _ := rfl

/-- The file of a document with the body `a`. Its head entries ascend, so every `partition_point`
finds the same. -/
theorem reading_never_faults_word :
    ∃ after, IndexContext.new.loadFromBytes (builtParts default (wordStore 0)).bytes =
        (after, .ok ()) ∧
      ∀ point, ∃ reader, openAndRead unitFloats point after.base wordKey [.goNext, .goUntil 3] =
        .ok reader := by
  obtain ⟨after, accepted, table, header⟩ :=
    loadFromBytes_bytes (builtParts_agrees (wordStore_storable (.inl rfl))) .new
  have ascending : (buildBlocks default (wordStore 0)).table.headTermEntries.Pairwise
      fun left right => left.firstTermStr ≤ right.firstTermStr := by decide +kernel
  have stored : ((buildBlocks default (wordStore 0)).table.findTermData wordKey).all
      (fun location => location.indexBlockId != 0xFFFFFFFF) = true := by decide +kernel
  have documents : 0 < (builtParts default (wordStore 0)).header.numDocuments := by decide +kernel
  refine ⟨after, accepted, fun point => ?_⟩
  refine (reading_never_faults_iff unitFloats point accepted wordKey).mpr ?_ _
  intro location found
  rw [table, builtParts_table, locate_eq_of_ascending _ _ ascending] at found
  rw [found] at stored
  rw [header]
  exact ⟨documents, fun last => absurd last.1 (bne_iff_ne.mp stored)⟩

/-- A file with the key `aB`, but with no documents in its header. -/
theorem documentless_agrees :
    (builtParts default (PostingStore.addPostings oneCall)).Agrees
      (encodeDocData default (PostingStore.addPostings oneCall)).2.2 :=
  have wellFormed := buildBlocks_wellFormed default (PostingStore.addPostings oneCall)
  have noDocuments : (PostingStore.addPostings oneCall).docStats.entries = [] := by decide +kernel
  have fits := encodeRecords_fits default fun document member => by
    rw [noDocuments] at member
    exact absurd member List.not_mem_nil
  { builtParts_described ⟨by decide +kernel, by decide +kernel⟩ (by decide +kernel) with
    decodes := decode_encodePathPrefixSidecar fits.sidecar
    headsFit := wellFormed.2.1
    leafValid := wellFormed.2.2 }

/-- The reader of its key fails the first assertion. -/
theorem openAndRead_documentless :
    ∃ after, IndexContext.new.loadFromBytes
        (builtParts default (PostingStore.addPostings oneCall)).bytes = (after, .ok ()) ∧
      ¬ ∃ reader, openAndRead unitFloats .leading after.base wordKey [] = .ok reader := by
  obtain ⟨after, accepted, table, header⟩ := loadFromBytes_bytes documentless_agrees .new
  have stored : (locate .leading
      (buildBlocks default (PostingStore.addPostings oneCall)).table wordKey).isSome = true := by
    decide +kernel
  have noDocuments : (builtParts default
      (PostingStore.addPostings oneCall)).header.numDocuments = 0 := by decide +kernel
  obtain ⟨location, found⟩ := Option.isSome_iff_exists.mp stored
  refine ⟨after, accepted, fun ran => ?_⟩
  obtain ⟨reader, ran⟩ := ran
  have notSafe : ¬ OpensSafely .leading after.base wordKey := by
    intro safe
    rw [OpensSafely, table, builtParts_table, header, noDocuments] at safe
    exact absurd (safe location found).1 (lt_irrefl 0)
  obtain ⟨fault, stops⟩ :=
    openAdvancedReader_faults (loadFromBytes_fit accepted) notSafe
  rw [openAndRead, stops] at ran
  cases ran

end MoonShot.Untrusted
