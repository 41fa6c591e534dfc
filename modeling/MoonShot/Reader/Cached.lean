import MoonShot.Cache.Alone
import MoonShot.Reader.Advanced

/-!
Lookup and reading through the block caches, by one caller.

Owns `FindTermData` and the leaf reader with the pools they take their blocks from and the
handles they hold, and what both give: the answers of the table without caches. A reader has at
most one handle, and gives it back before it asks for the next block.

Does not own the caches with several callers: see `MoonShot.Cache.Safety`.
-/

namespace MoonShot.Reader

open MoonShot.Lib
open MoonShot.Postings
open MoonShot.Format
open MoonShot.Table
open MoonShot.Cache

/-- `IndexBlockTable` over a file, with its two pools. -/
structure CachedTable where
  headTermEntries : List HeadTermEntry
  leafPool : FilePool
  indexPool : FilePool
  mphf : TermMphf

namespace CachedTable

/-- The table without caches. -/
def plain (table : CachedTable) : IndexBlockTable where
  headTermEntries := table.headTermEntries
  leafBlocks := table.leafPool.blocks
  indexBlocks := table.indexPool.blocks
  mphf := table.mphf

/-- No handle is alive. -/
structure Idle (table : CachedTable) : Prop where
  leaf : table.leafPool.Idle
  index : table.indexPool.Idle

/-- `FindTermDataHeadLeaf`. The handle of the leaf block is dropped at the end. -/
def findTermDataHeadLeaf (table : CachedTable) (term : Str) : CachedTable × Option IndexLocation :=
  let entries := table.headTermEntries.take (2 ^ 32 - 1)
  if entries = [] ∨ term.len > headTermKeyMax then (table, none)
  else
    let pos := (entries.takeWhile fun entry => entry.firstTermStr ≤ term).length
    if pos = 0 then (table, none)
    else
      match entries[pos - 1]? with
      | none => (table, none)
      | some entry =>
          match table.leafPool.getBlock entry.leafTermBlockId.toNat with
          | (pool, none) => ({ table with leafPool := pool }, none)
          | (pool, some (slot, page)) =>
              ({ table with leafPool := pool.drop slot }, IndexBlockTable.findInLeaf page term)

/-- `FindTermData` -/
def findTermData (table : CachedTable) (key : Str) : CachedTable × Option IndexLocation :=
  let term := key.beforeNul
  if table.plain.hasTermMphf then
    match table.plain.findTermDataMphf term.bytes with
    | some location => (table, some location)
    | none => table.findTermDataHeadLeaf term
  else table.findTermDataHeadLeaf term

/-- What a call leaves: an idle table over the same blocks. -/
structure Left (before after : CachedTable) : Prop where
  idle : after.Idle
  plain : after.plain = before.plain

theorem Idle.left {table : CachedTable} (idle : table.Idle) : Left table table := ⟨idle, rfl⟩

theorem Idle.findTermDataHeadLeaf {table : CachedTable} (idle : table.Idle) (term : Str) :
    (table.findTermDataHeadLeaf term).2 = table.plain.findTermDataHeadLeaf term ∧
      Left table (table.findTermDataHeadLeaf term).1 := by
  unfold CachedTable.findTermDataHeadLeaf IndexBlockTable.findTermDataHeadLeaf
  dsimp only [plain]
  split
  · exact ⟨rfl, idle.left⟩
  · split
    · exact ⟨rfl, idle.left⟩
    · cases (table.headTermEntries.take (2 ^ 32 - 1))[((table.headTermEntries.take
        (2 ^ 32 - 1)).takeWhile fun entry => entry.firstTermStr ≤ term).length - 1]? with
      | none => exact ⟨rfl, idle.left⟩
      | some entry =>
          dsimp only
          cases held : table.leafPool.blocks entry.leafTermBlockId.toNat with
          | none =>
              rw [FilePool.getBlock_none held]
              exact ⟨rfl, idle.left⟩
          | some page =>
              obtain ⟨after, slot, found, left, same⟩ := idle.leaf.getBlock held
              rw [found]
              refine ⟨rfl, ⟨left, idle.index⟩, ?_⟩
              unfold plain
              dsimp only
              rw [same]

/-- The cached lookup finds what the plain one finds. -/
theorem Idle.findTermData {table : CachedTable} (idle : table.Idle) (key : Str) :
    (table.findTermData key).2 = table.plain.findTermData key ∧
      Left table (table.findTermData key).1 := by
  unfold CachedTable.findTermData IndexBlockTable.findTermData
  dsimp only
  split
  · cases table.plain.findTermDataMphf key.beforeNul.bytes with
    | some location => exact ⟨rfl, idle.left⟩
    | none => exact idle.findTermDataHeadLeaf _
  · exact idle.findTermDataHeadLeaf _

end CachedTable

/-! ## The reader with its handle -/

/-- A leaf reader with its table and the slot of its handle. The decoder has the page by value:
no page changes under a handle. -/
structure CachedReader where
  table : CachedTable
  reader : AdvancedIndexReader
  slot : Option Nat

namespace CachedReader

def setReader (state : CachedReader) (reader : AdvancedIndexReader) : CachedReader :=
  { state with reader := reader }

/-- `Drop` of a handle on an index block. -/
def dropBlock (state : CachedReader) (slot : Nat) : CachedReader :=
  { state with table := { state.table with indexPool := state.table.indexPool.drop slot } }

/-- `ReleaseCurrentBlock` -/
def release (state : CachedReader) : CachedReader :=
  match state.slot with
  | none => state.setReader state.reader.releaseCurrentBlock
  | some slot =>
      { (state.dropBlock slot).setReader state.reader.releaseCurrentBlock with slot := none }

/-- `GetBlock` of an index block. -/
def getIndexBlock (state : CachedReader) (block : Nat) : CachedReader × Option (Nat × Page) :=
  let (pool, found) := state.table.indexPool.getBlock block
  ({ state with table := { state.table with indexPool := pool } }, found)

/-- The decoder takes over a handle. -/
def hold (state : CachedReader) (slot : Nat) (reader : AdvancedIndexReader) : CachedReader :=
  { state with slot := some slot, reader := reader }

/-- `LoadContinuation` -/
def loadContinuation (state : CachedReader) : Bool × CachedReader :=
  let nextSeq := state.reader.blockSeqNumber + 1
  let state := state.release
  match state.getIndexBlock nextSeq.toNat with
  | (state, none) => (false, state)
  | (state, some (slot, page)) =>
      (true, state.hold slot
        { state.reader with
          blockSeqNumber := nextSeq
          remainingContinuationBlocks := state.reader.remainingContinuationBlocks - 1
          decoder := AdvancedIndexReader.openContinuation page })

/-- The `while` loop of `GoNext`. -/
def goNextLoop : (turns : Nat) → CachedReader → CachedReader
  | 0, state => state
  | turns + 1, state =>
      if state.reader.isEnd && state.reader.remainingContinuationBlocks > 0 then
        match state.loadContinuation with
        | (false, state) => state
        | (true, state) =>
            goNextLoop turns
              (state.setReader { state.reader with decoder := state.reader.decoder.decodeNext })
      else state

/-- The last statement of `GoNext` and `GoUntil`. -/
def finish (state : CachedReader) : CachedReader :=
  if state.reader.isEnd && state.reader.remainingContinuationBlocks = 0 then
    let state := state.release
    state.setReader { state.reader with decoder := state.reader.decoder.close }
  else state

/-- `GoNext` -/
def goNext (state : CachedReader) : CachedReader :=
  let state := state.setReader { state.reader with decoder := state.reader.decoder.decodeNext }
  (goNextLoop state.reader.remainingContinuationBlocks state).finish

/-- The `loop` of `GoUntil`. A handle that the decoder does not take over is dropped. -/
def goUntilLoop (target : UInt64) : (turns : Nat) → CachedReader → CachedReader
  | 0, state => state
  | turns + 1, state =>
      let state :=
        state.setReader { state.reader with decoder := state.reader.decoder.goUntil target }
      if state.reader.isEnd = false then state
      else if state.reader.remainingContinuationBlocks = 0 then state.release
      else
        let state := state.release
        match state.getIndexBlock (state.reader.blockSeqNumber + 1).toNat with
        | (state, none) => state
        | (state, some (slot, page)) =>
            match ContinuationHeader.fromBytes page.data with
            | none => state.dropBlock slot
            | some header =>
                let reader :=
                  { state.reader with
                    blockSeqNumber := state.reader.blockSeqNumber + 1
                    remainingContinuationBlocks := state.reader.remainingContinuationBlocks - 1 }
                if header.maxDocId < target then
                  goUntilLoop target turns ((state.setReader reader).dropBlock slot)
                else
                  let state := state.hold slot
                    { reader with
                      decoder := (AdvancedIndexReader.openContinuation page).decodeNext }
                  if state.reader.isEnd then state.release else goUntilLoop target turns state

/-- `GoUntil` -/
def goUntil (state : CachedReader) (target : UInt64) : CachedReader :=
  (goUntilLoop target (state.reader.remainingContinuationBlocks + 1) state).finish

/-- `Open` -/
def openReader (table : CachedTable) (key : Str) (numDocuments : UInt64) (averagePositive : Bool) :
    Option CachedReader :=
  match table.findTermData key with
  | (table, none) => some (goNext ⟨table, .unopened key, none⟩)
  | (table, some location) =>
      if numDocuments = 0 ∨ averagePositive = false then none
      else
        let reader :=
          { AdvancedIndexReader.unopened key with
            docFreq := location.docFreq
            blockSeqNumber := location.indexBlockId
            remainingContinuationBlocks := location.continuationBlockCount.toNat }
        let state : CachedReader := ⟨table, reader, none⟩
        let state :=
          match state.getIndexBlock location.indexBlockId.toNat with
          | (state, some (slot, page)) =>
              state.hold slot
                { reader with
                  decoder := .openRaw page location.indexOffset location.indexLength }
          | (state, none) => state
        some state.goNext

/-! ## Following the plain reader -/

/-- The cached reader is where the plain one is, and its table is idle but for its handle. -/
structure Follows (plain : IndexBlockTable) (state : CachedReader) (reader : AdvancedIndexReader) :
    Prop where
  reader : state.reader = reader
  idle : state.release.table.Idle
  plain : state.release.table.plain = plain

section Follows

variable {plain : IndexBlockTable} {state : CachedReader} {reader : AdvancedIndexReader}

@[simp] theorem release_slot (state : CachedReader) : state.release.slot = none := by
  unfold release
  cases held : state.slot with
  | none => exact held
  | some slot => rfl

theorem release_reader (state : CachedReader) :
    state.release.reader = state.reader.releaseCurrentBlock := by
  unfold release
  split <;> rfl

theorem release_table (released : state.slot = none) : state.release.table = state.table := by
  unfold release
  rw [released]
  rfl

theorem setReader_release_table (state : CachedReader) (reader : AdvancedIndexReader) :
    (state.setReader reader).release.table = state.release.table := by
  unfold release setReader
  dsimp only
  split <;> rfl

theorem Follows.setReader (follows : Follows plain state reader) (other : AdvancedIndexReader) :
    Follows plain (state.setReader other) other := by
  have table := setReader_release_table state other
  exact ⟨rfl, by rw [table]; exact follows.idle, by rw [table]; exact follows.plain⟩

theorem Follows.release (follows : Follows plain state reader) :
    Follows plain state.release reader.releaseCurrentBlock := by
  have table := release_table state.release_slot
  refine ⟨?_, by rw [table]; exact follows.idle, by rw [table]; exact follows.plain⟩
  rw [release_reader, follows.reader]

/-- A block that is not there: nothing changes. -/
theorem Follows.getIndexBlock_none (follows : Follows plain state reader)
    (released : state.slot = none) {block : Nat} (absent : plain.indexBlocks block = none) :
    state.getIndexBlock block = (state, none) := by
  have table := release_table released
  have held : state.table.indexPool.blocks block = none := by
    rw [← absent, ← follows.plain, table]
    rfl
  unfold getIndexBlock
  rw [FilePool.getBlock_none held]

/-- A block that is there: its handle is taken over, or dropped. -/
theorem Follows.getIndexBlock (follows : Follows plain state reader)
    (released : state.slot = none) {block : Nat} {page : Page}
    (present : plain.indexBlocks block = some page) :
    ∃ after slot, state.getIndexBlock block = (after, some (slot, page)) ∧
      after.reader = reader ∧
      (∀ other, Follows plain (after.hold slot other) other) ∧
      ∀ other, Follows plain ((after.setReader other).dropBlock slot) other := by
  have table := release_table released
  have idle := follows.idle
  have same := follows.plain
  rw [table] at idle same
  have held : state.table.indexPool.blocks block = some page := by
    rw [← present, ← same]
    rfl
  obtain ⟨pool, slot, found, left, blocks⟩ := idle.index.getBlock held
  have plainLeft : ({ state.table with indexPool := pool.drop slot } : CachedTable).plain =
      plain := by
    rw [← same]
    unfold CachedTable.plain
    dsimp only
    rw [blocks]
  refine ⟨{ state with table := { state.table with indexPool := pool } }, slot, ?_,
    follows.reader, ?_, ?_⟩
  · unfold CachedReader.getIndexBlock
    rw [found]
  · intro other
    exact ⟨rfl, ⟨idle.leaf, left⟩, plainLeft⟩
  · intro other
    have dropped := @release_table ((({ state with
      table := { state.table with indexPool := pool } } : CachedReader).setReader other).dropBlock
        slot) released
    refine ⟨rfl, ?_, ?_⟩
    · rw [dropped]
      exact ⟨idle.leaf, left⟩
    · rw [dropped]
      exact plainLeft

theorem Follows.loadContinuation (follows : Follows plain state reader) :
    state.loadContinuation.1 = (reader.loadContinuation plain.indexBlocks).1 ∧
      Follows plain state.loadContinuation.2 (reader.loadContinuation plain.indexBlocks).2 := by
  have released := follows.release
  have free := state.release_slot
  unfold CachedReader.loadContinuation AdvancedIndexReader.loadContinuation
  dsimp only
  rw [follows.reader]
  cases held : plain.indexBlocks (reader.blockSeqNumber + 1).toNat with
  | none =>
      rw [released.getIndexBlock_none free held]
      exact ⟨rfl, released⟩
  | some page =>
      obtain ⟨after, slot, found, afterReader, taken, _⟩ := released.getIndexBlock free held
      rw [found]
      dsimp only
      rw [afterReader]
      exact ⟨rfl, taken _⟩

theorem Follows.goNextLoop (turns : Nat) (follows : Follows plain state reader) :
    Follows plain (CachedReader.goNextLoop turns state)
      (AdvancedIndexReader.goNextLoop plain.indexBlocks turns reader) := by
  induction turns generalizing state reader with
  | zero => exact follows
  | succ turns inductionHypothesis =>
      have loaded := follows.loadContinuation
      unfold CachedReader.goNextLoop AdvancedIndexReader.goNextLoop
      rw [follows.reader]
      split
      · generalize state.loadContinuation = result at loaded ⊢
        generalize reader.loadContinuation plain.indexBlocks = plainResult at loaded ⊢
        obtain ⟨opened, next⟩ := result
        obtain ⟨plainOpened, plainNext⟩ := plainResult
        obtain ⟨same, nextFollows⟩ := loaded
        dsimp only at same nextFollows
        subst same
        cases opened with
        | false => exact nextFollows
        | true =>
            dsimp only
            rw [nextFollows.reader]
            exact inductionHypothesis (nextFollows.setReader _)
      · exact follows

theorem Follows.finish (follows : Follows plain state reader) :
    Follows plain state.finish reader.finish := by
  unfold CachedReader.finish AdvancedIndexReader.finish
  rw [follows.reader]
  split
  · dsimp only
    rw [follows.release.reader]
    exact follows.release.setReader _
  · exact follows

theorem Follows.goNext (follows : Follows plain state reader) :
    Follows plain state.goNext (reader.goNext plain.indexBlocks) := by
  unfold CachedReader.goNext AdvancedIndexReader.goNext
  dsimp only
  rw [follows.reader]
  exact ((follows.setReader _).goNextLoop _).finish

theorem Follows.goUntilLoop (target : UInt64) (turns : Nat) (follows : Follows plain state reader) :
    Follows plain (CachedReader.goUntilLoop target turns state)
      (AdvancedIndexReader.goUntilLoop plain.indexBlocks target turns reader) := by
  induction turns generalizing state reader with
  | zero => exact follows
  | succ turns inductionHypothesis =>
      unfold CachedReader.goUntilLoop AdvancedIndexReader.goUntilLoop
      dsimp only
      rw [follows.reader]
      generalize reader.decoder.goUntil target = decoder
      have moved := follows.setReader { reader with decoder := decoder }
      generalize state.setReader { reader with decoder := decoder } = state at moved ⊢
      rw [moved.reader]
      dsimp only
      split
      · exact moved
      · split
        · exact moved.release
        · have released := moved.release
          have free := state.release_slot
          generalize state.release = state at released free ⊢
          generalize AdvancedIndexReader.releaseCurrentBlock { reader with decoder := decoder } =
            reader at released ⊢
          rw [released.reader]
          cases held : plain.indexBlocks (reader.blockSeqNumber + 1).toNat with
          | none =>
              rw [released.getIndexBlock_none free held]
              exact released
          | some page =>
              obtain ⟨after, slot, found, afterReader, taken, dropped⟩ :=
                released.getIndexBlock free held
              rw [found]
              dsimp only
              rw [afterReader]
              cases ContinuationHeader.fromBytes page.data with
              | none =>
                  have unchanged : after.setReader reader = after := by rw [← afterReader]; rfl
                  have left := dropped reader
                  rw [unchanged] at left
                  exact left
              | some header =>
                  dsimp only
                  split
                  · exact inductionHypothesis (dropped _)
                  · have entered := taken
                      { reader with
                        blockSeqNumber := reader.blockSeqNumber + 1
                        remainingContinuationBlocks := reader.remainingContinuationBlocks - 1
                        decoder := (AdvancedIndexReader.openContinuation page).decodeNext }
                    rw [entered.reader]
                    split
                    · exact entered.release
                    · exact inductionHypothesis entered

theorem Follows.goUntil (follows : Follows plain state reader) (target : UInt64) :
    Follows plain (state.goUntil target) (reader.goUntil plain.indexBlocks target) := by
  unfold CachedReader.goUntil AdvancedIndexReader.goUntil
  rw [follows.reader]
  exact (follows.goUntilLoop target _).finish

/-- A reader that has just been made, without a handle. -/
theorem follows_new {table : CachedTable} (idle : table.Idle) (reader : AdvancedIndexReader) :
    Follows table.plain ⟨table, reader, none⟩ reader := ⟨rfl, idle, rfl⟩

end Follows

/-- `Open` through the caches follows the plain `Open`, and fails where it fails. -/
theorem openReader_follows {table : CachedTable} (idle : table.Idle) (key : Str)
    (numDocuments : UInt64) (averagePositive : Bool) :
    (openReader table key numDocuments averagePositive = none ∧
        AdvancedIndexReader.openReader table.plain key numDocuments averagePositive = none) ∨
      ∃ state reader, openReader table key numDocuments averagePositive = some state ∧
        AdvancedIndexReader.openReader table.plain key numDocuments averagePositive =
          some reader ∧ Follows table.plain state reader := by
  obtain ⟨found, left⟩ := idle.findTermData key
  unfold openReader AdvancedIndexReader.openReader
  rw [← found]
  generalize table.findTermData key = result at left ⊢
  obtain ⟨after, location⟩ := result
  dsimp only at left ⊢
  rw [← left.plain]
  cases location with
  | none => exact Or.inr ⟨_, _, rfl, rfl, (follows_new left.idle _).goNext⟩
  | some location =>
      dsimp only
      by_cases refused : numDocuments = 0 ∨ averagePositive = false
      · rw [if_pos refused, if_pos refused]
        exact Or.inl ⟨rfl, rfl⟩
      · rw [if_neg refused, if_neg refused]
        refine Or.inr ⟨_, _, rfl, rfl, Follows.goNext ?_⟩
        have opened := follows_new left.idle
          { AdvancedIndexReader.unopened key with
            docFreq := location.docFreq
            blockSeqNumber := location.indexBlockId
            remainingContinuationBlocks := location.continuationBlockCount.toNat }
        dsimp only at opened
        cases held : after.plain.indexBlocks location.indexBlockId.toNat with
        | none =>
            rw [opened.getIndexBlock_none rfl held]
            exact opened
        | some page =>
            obtain ⟨next, slot, got, _, taken, _⟩ := opened.getIndexBlock rfl held
            rw [got]
            exact taken _

end CachedReader

/-! ## One caller after the other -/

/-- The calls on a leaf reader. -/
inductive WalkCall where
  | goNext
  | goUntil (target : UInt64)

/-- What a caller does: a lookup, or a reader that is opened, moved and dropped. -/
inductive Access where
  | findTermData (key : Str)
  | walk (key : Str) (calls : List WalkCall)

/-- What a reader shows where it stands. -/
structure Shown where
  docFreq : UInt32
  sourceMask : UInt8
  isEnd : Bool
  docId : UInt64
  termFreq : UInt8

def AdvancedIndexReader.visible (reader : AdvancedIndexReader) : Shown :=
  ⟨reader.docFreq, reader.sourceMask, reader.isEnd, reader.getDocumentId, reader.getTermFreq⟩

inductive Answer where
  | location (found : Option IndexLocation)
  | walk (shown : List Shown)

def AdvancedIndexReader.call (blocks : BlockSource) (reader : AdvancedIndexReader) :
    WalkCall → AdvancedIndexReader
  | .goNext => reader.goNext blocks
  | .goUntil target => reader.goUntil blocks target

/-- What the reader shows at first and behind each call. -/
def AdvancedIndexReader.walk (blocks : BlockSource) (reader : AdvancedIndexReader) :
    List WalkCall → List Shown
  | [] => [reader.visible]
  | call :: calls => reader.visible :: (reader.call blocks call).walk blocks calls

def CachedReader.call (state : CachedReader) : WalkCall → CachedReader
  | .goNext => state.goNext
  | .goUntil target => state.goUntil target

/-- The same through the caches, with the state the last call leaves. -/
def CachedReader.walk (state : CachedReader) : List WalkCall → CachedReader × List Shown
  | [] => (state, [state.reader.visible])
  | call :: calls =>
      let (final, shown) := (state.call call).walk calls
      (final, state.reader.visible :: shown)

section Runs

variable (numDocuments : UInt64) (averagePositive : Bool)

/-- `none`: an assertion of `Open` has failed. -/
def plainAccess (table : IndexBlockTable) : Access → Option Answer
  | .findTermData key => some (.location (table.findTermData key))
  | .walk key calls =>
      (AdvancedIndexReader.openReader table key numDocuments averagePositive).map fun reader =>
        .walk (reader.walk table.indexBlocks calls)

/-- The same through the caches. The reader is dropped at the end. -/
def cachedAccess (table : CachedTable) : Access → Option (CachedTable × Answer)
  | .findTermData key =>
      let (table, found) := table.findTermData key
      some (table, .location found)
  | .walk key calls =>
      (CachedReader.openReader table key numDocuments averagePositive).map fun state =>
        let (final, shown) := state.walk calls
        (final.release.table, .walk shown)

/-- The answers, up to the first failed assertion. -/
def plainAnswers (table : IndexBlockTable) : List Access → List Answer
  | [] => []
  | access :: rest =>
      match plainAccess numDocuments averagePositive table access with
      | none => []
      | some answer => answer :: plainAnswers table rest

def cachedAnswers (table : CachedTable) : List Access → List Answer
  | [] => []
  | access :: rest =>
      match cachedAccess numDocuments averagePositive table access with
      | none => []
      | some (table, answer) => answer :: cachedAnswers table rest

variable {numDocuments averagePositive}

theorem CachedReader.Follows.call {plain : IndexBlockTable} {state : CachedReader}
    {reader : AdvancedIndexReader} (follows : Follows plain state reader) (call : WalkCall) :
    Follows plain (state.call call) (reader.call plain.indexBlocks call) := by
  cases call with
  | goNext => exact follows.goNext
  | goUntil target => exact follows.goUntil target

theorem CachedReader.Follows.walk {plain : IndexBlockTable} {state : CachedReader}
    {reader : AdvancedIndexReader} (follows : Follows plain state reader) (calls : List WalkCall) :
    (state.walk calls).2 = reader.walk plain.indexBlocks calls ∧
      ∃ last, Follows plain (state.walk calls).1 last := by
  induction calls generalizing state reader with
  | nil =>
      refine ⟨?_, reader, follows⟩
      show [state.reader.visible] = [reader.visible]
      rw [follows.reader]
  | cons call calls inductionHypothesis =>
      have later := inductionHypothesis (follows.call call)
      refine ⟨?_, later.2⟩
      show state.reader.visible :: ((state.call call).walk calls).2 = _
      rw [later.1, follows.reader]
      rfl

/-- One access: the same answer, and the table is idle again. -/
theorem CachedTable.Idle.access {table : CachedTable} (idle : table.Idle) (access : Access) :
    (cachedAccess numDocuments averagePositive table access = none ∧
        plainAccess numDocuments averagePositive table.plain access = none) ∨
      ∃ after answer,
        cachedAccess numDocuments averagePositive table access = some (after, answer) ∧
          plainAccess numDocuments averagePositive table.plain access = some answer ∧
          table.Left after := by
  cases access with
  | findTermData key =>
      have found := idle.findTermData key
      refine Or.inr ⟨(table.findTermData key).1, .location (table.findTermData key).2, rfl, ?_,
        found.2⟩
      rw [found.1]
      rfl
  | walk key calls =>
      rcases CachedReader.openReader_follows idle key numDocuments averagePositive with
        failed | ⟨state, reader, opened, plainOpened, follows⟩
      · unfold cachedAccess plainAccess
        dsimp only
        rw [failed.1, failed.2]
        exact Or.inl ⟨rfl, rfl⟩
      · obtain ⟨shown, last, final⟩ := follows.walk calls
        unfold cachedAccess plainAccess
        dsimp only
        rw [opened, plainOpened]
        refine Or.inr ⟨(state.walk calls).1.release.table, .walk (state.walk calls).2, rfl, ?_,
          ⟨final.idle, final.plain⟩⟩
        rw [shown]
        rfl

/-- Whatever one caller does after the other, the caches give the answers of the file. -/
theorem CachedTable.Idle.answers {table : CachedTable} (idle : table.Idle)
    (accesses : List Access) :
    cachedAnswers numDocuments averagePositive table accesses =
      plainAnswers numDocuments averagePositive table.plain accesses := by
  induction accesses generalizing table with
  | nil => rfl
  | cons access rest inductionHypothesis =>
      unfold cachedAnswers plainAnswers
      rcases idle.access access with failed | ⟨after, answer, ran, plainRan, left⟩
      · rw [failed.1, failed.2]
      · rw [ran, plainRan]
        dsimp only
        rw [inductionHypothesis left.idle, left.plain]

end Runs

end MoonShot.Reader
