import MoonShot.Context.FailedLoad
import MoonShot.Context.Merge
import MoonShot.Context.Saved

/-!
The cached averages of the streams (`GetAverageStreamLength`).

Owns the pass over the records, the cache in front of it, and the runs of a context in which the
buffers of the records have addresses: the cache is keyed by the address and the number of
documents, and it answers with the averages of the records as long as no new buffer takes that
key.

Does not own what the averages are used for.
-/

namespace MoonShot.Context

open MoonShot.Lib
open MoonShot.Postings
open MoonShot.Format
open MoonShot.Serializer

/-! ## The pass over the records -/

/-- The floating-point computations of the averages. -/
structure AverageFloats where
  /-- `f64` -/
  Wide : Type
  empty : Wide
  /-- `total + length as f64` -/
  add : Wide → UInt32 → Wide
  /-- `(total / count as f64) as f32` -/
  mean : Wide → UInt64 → F32
  one : F32
  /-- `max(1.0)` -/
  maxOne : F32 → F32

section Pass

variable (floats : AverageFloats)

/-- `lengths` of a record, in the order of `averages`. -/
def recordLengths (entry : DocDataEntry) : List UInt32 :=
  [entry.streamLength .title, entry.streamLength .body, entry.streamLength .url,
    entry.streamLength .anchor, entry.streamLength .metadata]

/-- `totals[index]` and `counts[index]` behind one length. -/
def addLength (total : floats.Wide × UInt64) (length : UInt32) : floats.Wide × UInt64 :=
  if length > 0 then (floats.add total.1 length, total.2 + 1) else total

/-- The loop over the records, from a slot on. -/
def addRecords (docData : Bytes) (firstDocId : UInt64) :
    (slots slot : Nat) → List (floats.Wide × UInt64) → List (floats.Wide × UInt64)
  | 0, _, totals => totals
  | slots + 1, slot, totals =>
      let offset := slot * docRecSize
      if offset + docRecSize > docData.length then totals
      else
        let entry : DocDataEntry := slice docData offset docRecSize
        if entry.docId.toUInt64 ≠ firstDocId + UInt64.ofNat slot then
          addRecords docData firstDocId slots (slot + 1) totals
        else
          addRecords docData firstDocId slots (slot + 1)
            (List.zipWith (addLength floats) totals (recordLengths entry))

/-- The averages that the pass leaves. -/
def measuredAverages (docData : Bytes) (header : IndexFileHeader) : List F32 :=
  let fallback := floats.maxOne header.avgDocLength
  let totals := addRecords floats docData (docDataFirstDocId docData header)
    header.numDocuments.toNat 0 (List.replicate 5 (floats.empty, 0))
  List.zipWith (fun total initial => if total.2 > 0 then floats.mean total.1 total.2 else initial)
    totals [floats.one, fallback, fallback, fallback, fallback]

/-- The average of a stream. -/
def averageOf (averages : List F32) (header : IndexFileHeader) (stream : Char) : F32 :=
  if stream = 'T' then averages.getD 0 0
  else if stream = 'B' then averages.getD 1 0
  else if stream = 'U' then averages.getD 2 0
  else if stream = 'A' then averages.getD 3 0
  else if stream = 'M' then averages.getD 4 0
  else floats.maxOne header.avgDocLength

end Pass

/-! ## Contexts with addresses -/

/-- The address of a live buffer. -/
abbrev Address := { address : Nat // address ≠ 0 }

/-- `StreamLengthStats` -/
structure StreamLengthStats where
  docData : Nat
  docCount : UInt64
  averages : List F32

/-- `StreamLengthStats::default` -/
def StreamLengthStats.cleared : StreamLengthStats := ⟨0, 0, List.replicate 5 0⟩

/-- A context with the address of `m_DocData` and the cache. `measured` is no field of the
source: the records and the header that the cached averages were computed from. -/
structure AddressedContext where
  context : IndexContext
  docDataAt : Address
  stats : StreamLengthStats
  measured : Option (Bytes × IndexFileHeader)

/-- The calls of a run. -/
inductive ContextCall where
  | addDocument (document : Document) (buildVector : Bool)
  | build
  | load (call : LoadCall)
  | saveIndex (path : Str)
  | merge
  | getAverageStreamLength (stream : Char)

/-- A call with what it depends on: the files, the turns a merge may take, and the address that
a new buffer for `m_DocData` gets. -/
structure CallInput where
  call : ContextCall
  files : FileSystem
  turns : Nat
  docDataAt : Address

/-- The context behind a call, whether `m_DocData` is a new buffer, and whether the cache is
cleared. -/
structure Outcome where
  context : IndexContext
  replaces : Bool
  clears : Bool

/-- `SaveIndex` overwrites the file that was loaded. -/
def overwritesLoaded (context : IndexContext) (path : Str) : Bool :=
  !context.savesDelta path && context.base.loadedFromDisk && context.base.indexPath = some path

/-- What a call does with the context. -/
def callOutcome (float : FloatOps) (text : TextOps) (context : IndexContext) (input : CallInput) :
    Option Outcome :=
  match input.call with
  | .addDocument document buildVector =>
      some ⟨context.addDocument float text document buildVector, false, false⟩
  | .build =>
      some ⟨context.build float,
        !context.base.built && !context.base.store.docStats.keys.isEmpty, false⟩
  | .load call =>
      let loaded := context.load input.files call
      some ⟨loaded.1, loaded.2.isOk, false⟩
  | .saveIndex path =>
      some ⟨(context.saveIndex float input.files path).2.1, overwritesLoaded context path, false⟩
  | .merge =>
      (context.merge float input.turns).map fun merged =>
        ⟨merged.1, merged.2.isOk, merged.2.isOk⟩
  | .getAverageStreamLength _ => some ⟨context, false, false⟩

namespace AddressedContext

/-- A new context, which holds an empty buffer. -/
def new (docDataAt : Address) : AddressedContext := ⟨.new, docDataAt, .cleared, none⟩

variable (floats : AverageFloats) (float : FloatOps) (text : TextOps)

def docData (state : AddressedContext) : Bytes := state.context.base.docData

def header (state : AddressedContext) : IndexFileHeader := state.context.base.header

/-- The cached averages are not the ones of this buffer. -/
def isMiss (state : AddressedContext) : Bool :=
  state.stats.docData != state.docDataAt.1 || state.stats.docCount != state.header.numDocuments

/-- The pass of `GetAverageStreamLength`, when the cache misses. -/
def refresh (state : AddressedContext) : AddressedContext :=
  if state.isMiss then
    { state with
      stats := ⟨state.docDataAt.1, state.header.numDocuments,
        measuredAverages floats state.docData state.header⟩
      measured := some (state.docData, state.header) }
  else state

/-- The answer of `GetAverageStreamLength`. -/
def getAverageStreamLength (state : AddressedContext) (stream : Char) : F32 :=
  averageOf floats (state.refresh floats).stats.averages state.header stream

/-- The average of the records as they are. -/
def recomputedAverage (state : AddressedContext) (stream : Char) : F32 :=
  averageOf floats (measuredAverages floats state.docData state.header) state.header stream

/-- The state behind a call. The old buffer is alive while the new one is allocated, so that
the address of the new one is another. -/
def step (state : AddressedContext) (input : CallInput) : Option AddressedContext :=
  match input.call with
  | .getAverageStreamLength _ => some (state.refresh floats)
  | _ =>
      match callOutcome float text state.context input with
      | none => none
      | some outcome =>
          if outcome.replaces = true ∧ input.docDataAt = state.docDataAt then none
          else
            some
              { context := outcome.context
                docDataAt := if outcome.replaces then input.docDataAt else state.docDataAt
                stats := if outcome.clears then .cleared else state.stats
                measured := if outcome.clears then none else state.measured }

/-- A run of calls. -/
def run (state : AddressedContext) (inputs : List CallInput) : Option AddressedContext :=
  inputs.foldlM (step floats float text) state

/-- The call puts its new buffer where the cached averages were computed, with the same number
of documents, and other records or another header in it. -/
def Reuses (state : AddressedContext) (input : CallInput) : Prop :=
  ∃ outcome, callOutcome float text state.context input = some outcome ∧
    outcome.replaces = true ∧ outcome.clears = false ∧
    state.stats.docData = input.docDataAt.1 ∧
    state.stats.docCount = outcome.context.base.header.numDocuments ∧
    state.measured ≠ some (outcome.context.base.docData, outcome.context.base.header)

/-- No call of the run reuses the key of the cached averages. -/
def NeverReuses : AddressedContext → List CallInput → Prop
  | _, [] => True
  | state, input :: rest =>
      ¬state.Reuses float text input ∧
        ∀ after, state.step floats float text input = some after → NeverReuses after rest

/-! ## What a call keeps -/

variable {floats float text}

/-- A save that does not overwrite the loaded file keeps the buffer. -/
theorem prepareSave_keeps (float : FloatOps) {context : IndexContext} {path : Str}
    (kept : overwritesLoaded context path = false) :
    (context.prepareSave float path).docData = context.base.docData ∧
      (context.prepareSave float path).header = context.base.header := by
  unfold overwritesLoaded at kept
  unfold IndexContext.prepareSave
  dsimp only
  rw [kept, if_neg Bool.false_ne_true]
  split <;> exact ⟨rfl, rfl⟩

/-- The buffer of a context behind `SaveIndex` is the one of the prepared base. -/
theorem saveIndex_base (float : FloatOps) (files : FileSystem) (context : IndexContext)
    (path : Str) :
    (context.saveIndex float files path).2.1.base.docData =
        (context.prepareSave float path).docData ∧
      (context.saveIndex float files path).2.1.base.header =
        (context.prepareSave float path).header := by
  unfold IndexContext.saveIndex
  dsimp only
  split
  · exact ⟨rfl, rfl⟩
  · split <;> exact ⟨rfl, rfl⟩

/-- A merge that fails leaves the context. -/
theorem merge_failed {context : IndexContext} {turns : Nat}
    {merged : IndexContext × Except RustBladeError FileParts}
    (ran : context.merge float turns = some merged) (failed : merged.2.isOk = false) :
    merged.1 = context := by
  unfold IndexContext.merge at ran
  split at ran
  · cases ran
    rfl
  · cases held : context.delta with
    | none =>
        rw [held] at ran
        cases ran
        rfl
    | some delta =>
        rw [held] at ran
        dsimp only at ran
        split at ran
        · cases ran
          rfl
        · obtain ⟨outcome, _, same⟩ := Option.map_eq_some_iff.mp ran
          cases outcome with
          | error failure =>
              cases same
              rfl
          | ok parts =>
              cases same
              cases failed

/-- A call that keeps the buffer keeps the records, the header and the cache. -/
theorem callOutcome_keeps {context : IndexContext} {input : CallInput} {outcome : Outcome}
    (called : callOutcome float text context input = some outcome)
    (kept : outcome.replaces = false) :
    outcome.context.base.docData = context.base.docData ∧
      outcome.context.base.header = context.base.header ∧ outcome.clears = false := by
  obtain ⟨call, files, turns, docDataAt⟩ := input
  cases call with
  | addDocument document buildVector =>
      cases called
      exact ⟨rfl, rfl, rfl⟩
  | build =>
      cases called
      change (!context.base.built && !context.base.store.docStats.keys.isEmpty) = false at kept
      show (context.build float).base.docData = _ ∧ (context.build float).base.header = _ ∧ _
      unfold IndexContext.build
      dsimp only
      by_cases built : context.base.built = true
      · rw [if_pos built]
        unfold LocalIndex.buildVectorRuntime
        split <;> exact ⟨rfl, rfl, rfl⟩
      · rw [if_neg built]
        have noDocument : context.base.store.docStats.keys = [] := by
          simpa [built] using kept
        rw [if_pos noDocument]
        exact ⟨rfl, rfl, rfl⟩
  | load call =>
      cases called
      change (context.load files call).2.isOk = false at kept
      cases loaded : (context.load files call).2 with
      | ok done =>
          rw [loaded] at kept
          cases kept
      | error failure =>
          show (context.load files call).1.base.docData = _ ∧
            (context.load files call).1.base.header = _ ∧ _
          rw [IndexContext.load_failed loaded]
          exact ⟨rfl, rfl, rfl⟩
  | saveIndex path =>
      cases called
      change overwritesLoaded context path = false at kept
      have base := prepareSave_keeps float kept
      have saved := saveIndex_base float files context path
      exact ⟨saved.1.trans base.1, saved.2.trans base.2, rfl⟩
  | merge =>
      obtain ⟨merged, ran, rfl⟩ := Option.map_eq_some_iff.mp called
      change merged.2.isOk = false at kept
      rw [merge_failed ran kept]
      exact ⟨rfl, rfl, kept⟩
  | getAverageStreamLength stream =>
      cases called
      exact ⟨rfl, rfl, rfl⟩

/-! ## Runs -/

/-- The cache answers for the records it was computed from, and these are the current ones when
it hits. -/
structure Cached (floats : AverageFloats) (state : AddressedContext) : Prop where
  hit : state.isMiss = false → state.measured = some (state.docData, state.header)
  averages : ∀ docData header, state.measured = some (docData, header) →
    state.stats.averages = measuredAverages floats docData header

theorem isMiss_eq_false {state : AddressedContext} :
    state.isMiss = false ↔ state.stats.docData = state.docDataAt.1 ∧
      state.stats.docCount = state.header.numDocuments := by
  simp [isMiss]

theorem isMiss_of_cleared {state : AddressedContext} (cleared : state.stats = .cleared) :
    state.isMiss = true := by
  have live := state.docDataAt.2
  unfold isMiss
  rw [cleared]
  have other : (StreamLengthStats.cleared.docData != state.docDataAt.1) = true := by
    simpa [StreamLengthStats.cleared] using live.symm
  rw [other]
  rfl

theorem cached_new (docDataAt : Address) : Cached floats (new docDataAt) where
  hit := by
    intro hit
    rw [isMiss_of_cleared rfl] at hit
    cases hit
  averages := fun docData header measured => by cases measured

theorem Cached.refresh {state : AddressedContext} (cached : Cached floats state) :
    Cached floats (state.refresh floats) := by
  unfold AddressedContext.refresh
  by_cases miss : state.isMiss = true
  · rw [if_pos miss]
    exact
      { hit := fun _ => rfl
        averages := by
          intro docData header measured
          cases measured
          rfl }
  · rw [if_neg miss]
    exact cached

/-- A call that does not reuse the key leaves a cache that answers for its records. -/
theorem Cached.call {state after : AddressedContext} {input : CallInput}
    (cached : Cached floats state) (fresh : ¬state.Reuses float text input)
    {outcome : Outcome} (called : callOutcome float text state.context input = some outcome)
    (left : after =
      { context := outcome.context
        docDataAt := if outcome.replaces then input.docDataAt else state.docDataAt
        stats := if outcome.clears then .cleared else state.stats
        measured := if outcome.clears then none else state.measured }) :
    Cached floats after := by
  by_cases clears : outcome.clears = true
  · have cleared : after.stats = .cleared := by simp [left, clears]
    have unmeasured : after.measured = none := by simp [left, clears]
    constructor
    · intro hit
      rw [isMiss_of_cleared cleared] at hit
      cases hit
    · intro docData header measured
      rw [unmeasured] at measured
      cases measured
  · have stats : after.stats = state.stats := by simp [left, clears]
    have measured : after.measured = state.measured := by simp [left, clears]
    constructor
    · intro hit
      obtain ⟨address, count⟩ := isMiss_eq_false.mp hit
      rw [stats] at address count
      rw [measured]
      by_cases replaces : outcome.replaces = true
      · have docDataAt : after.docDataAt = input.docDataAt := by simp [left, replaces]
        have header : after.header = outcome.context.base.header := by rw [left]; rfl
        have docData : after.docData = outcome.context.base.docData := by rw [left]; rfl
        rw [docDataAt] at address
        rw [header] at count
        by_contra other
        rw [docData, header] at other
        exact fresh ⟨outcome, called, replaces, by simpa using clears, address, count, other⟩
      · have same := callOutcome_keeps called (by simpa using replaces)
        have docDataAt : after.docDataAt = state.docDataAt := by simp [left, replaces]
        have header : after.header = state.header := by rw [left]; exact same.2.1
        have docData : after.docData = state.docData := by rw [left]; exact same.1
        rw [docDataAt] at address
        rw [header] at count
        rw [docData, header]
        exact cached.hit (isMiss_eq_false.mpr ⟨address, count⟩)
    · intro docData header held
      rw [stats]
      exact cached.averages docData header (measured ▸ held)

theorem Cached.step {state after : AddressedContext} {input : CallInput}
    (cached : Cached floats state) (fresh : ¬state.Reuses float text input)
    (stepped : state.step floats float text input = some after) : Cached floats after := by
  unfold AddressedContext.step at stepped
  split at stepped
  · cases stepped
    exact cached.refresh
  · cases called : callOutcome float text state.context input with
    | none =>
        rw [called] at stepped
        cases stepped
    | some outcome =>
        rw [called] at stepped
        dsimp only at stepped
        split at stepped
        · cases stepped
        · cases stepped
          exact cached.call fresh called rfl

theorem Cached.run {state final : AddressedContext} {inputs : List CallInput}
    (cached : Cached floats state) (fresh : state.NeverReuses floats float text inputs)
    (ran : state.run floats float text inputs = some final) : Cached floats final := by
  induction inputs generalizing state with
  | nil =>
      cases ran
      exact cached
  | cons input rest inductionHypothesis =>
      unfold AddressedContext.run at ran
      rw [List.foldlM_cons] at ran
      obtain ⟨next, stepped, ran⟩ := Option.bind_eq_some_iff.mp ran
      exact inductionHypothesis (cached.step fresh.1 stepped) (fresh.2 next stepped) ran

/-- The cached averages are the ones of the current records. -/
theorem Cached.average {state : AddressedContext} (cached : Cached floats state) (stream : Char) :
    state.getAverageStreamLength floats stream = state.recomputedAverage floats stream := by
  have refreshed := cached.refresh
  have hit : (state.refresh floats).isMiss = false := by
    unfold AddressedContext.refresh
    by_cases miss : state.isMiss = true
    · rw [if_pos miss]
      exact isMiss_eq_false.mpr ⟨rfl, rfl⟩
    · rw [if_neg miss]
      simpa using miss
  have same : (state.refresh floats).docData = state.docData ∧
      (state.refresh floats).header = state.header := by
    unfold AddressedContext.refresh
    split <;> exact ⟨rfl, rfl⟩
  have averages := refreshed.averages _ _ (refreshed.hit hit)
  unfold AddressedContext.getAverageStreamLength AddressedContext.recomputedAverage
  rw [averages, same.1, same.2]

/-- In every run of a new context whose calls never reuse the key of the cached averages, every
answer is the average of the records as they are. -/
theorem cached_averages_current {start : Address} {inputs : List CallInput}
    {final : AddressedContext} (fresh : (new start).NeverReuses floats float text inputs)
    (ran : (new start).run floats float text inputs = some final) (stream : Char) :
    final.getAverageStreamLength floats stream = final.recomputedAverage floats stream :=
  ((cached_new start).run fresh ran).average stream

/-! ## A reused buffer -/

/-- The averages of lengths of one and of two. -/
def smallFloats : AverageFloats where
  Wide := Nat
  empty := 0
  add total length := total + length.toNat
  mean total count := if total = count.toNat then 0x3F800000 else 0x40000000
  one := 0x3F800000
  maxOne value := if value = 0 then 0x3F800000 else value

/-- The record of the document 0 with a title of this length. -/
def titleRecord (length : UInt32) : Bytes :=
  List.replicate 26 0 ++ u32Bytes length ++ List.replicate (docRecSize - 30) 0

/-- The tables with that record alone. -/
def titleTables (length : UInt32) : LoadedIndex where
  header :=
    { IndexFileHeader.zeroed with
      magic := indexFileMagic
      magicSize := indexFileMagic_length
      version := indexFormatVersion
      numDocuments := 1 }
  table := MemoryTable.new.table
  leafTermBlockCount := 0
  docData := titleRecord length
  sidecar := encodePathPrefixSidecar []
  prefixes := []

/-- `LoadVectorTables` of that record, into a buffer at this address. -/
def loadTitle (length : UInt32) (docDataAt : Address) : CallInput :=
  ⟨.load (.vectorTables (titleRecord length) (encodePathPrefixSidecar [])), fun _ => none, 0,
    docDataAt⟩

def averageTitle (docDataAt : Address) : CallInput :=
  ⟨.getAverageStreamLength 'T', fun _ => none, 0, docDataAt⟩

theorem titleRecord_length (length : UInt32) : (titleRecord length).length = docRecSize := by
  unfold titleRecord
  rw [List.length_append, List.length_append, List.length_replicate, u32Bytes_length,
    List.length_replicate]
  decide

theorem vectorTables_title (length : UInt32) :
    IndexContext.vectorTables (titleRecord length) (encodePathPrefixSidecar []) =
      .ok (titleTables length) := by
  have decoded : decodePathPrefixSidecar (encodePathPrefixSidecar []) = .ok [] :=
    decode_encodePathPrefixSidecar ⟨by decide, fun _ member => by cases member⟩
  have count : UInt64.ofNat (docRecSize / docRecSize) = 1 := by decide
  have sized : (titleRecord length).length % docRecSize = 0 ∧
      (encodePathPrefixSidecar []).length = pathPrefixSidecarBytes :=
    ⟨by rw [titleRecord_length, Nat.mod_self], encodePathPrefixSidecar_length (by decide)⟩
  unfold IndexContext.vectorTables
  rw [require, if_pos sized, decoded, titleRecord_length, count]
  rfl

/-- A context with these tables. -/
def titleContext (context : IndexContext) (length : UInt32) : IndexContext :=
  let loaded := titleTables length
  ⟨context.base.install loaded (docDataFirstDocId loaded.docData loaded.header), none⟩

theorem load_title (files : FileSystem) (context : IndexContext) (length : UInt32) :
    context.load files (.vectorTables (titleRecord length) (encodePathPrefixSidecar [])) =
      (titleContext context length, .ok ()) := by
  have read := vectorTables_title length
  unfold titleContext
  generalize titleRecord length = docData at read ⊢
  generalize titleTables length = loaded at read ⊢
  generalize encodePathPrefixSidecar [] = sidecar at read ⊢
  unfold IndexContext.load IndexContext.loadVectorTables
  dsimp only
  rw [read]

theorem callOutcome_title (context : IndexContext) (length : UInt32) (docDataAt : Address) :
    callOutcome float text context (loadTitle length docDataAt) =
      some ⟨titleContext context length, true, false⟩ := by
  unfold callOutcome loadTitle
  dsimp only
  rw [load_title]
  rfl

theorem step_loadTitle {state : AddressedContext} {length : UInt32} {docDataAt : Address}
    (other : docDataAt ≠ state.docDataAt) :
    state.step floats float text (loadTitle length docDataAt) =
      some ⟨titleContext state.context length, docDataAt, state.stats, state.measured⟩ := by
  have called : callOutcome float text state.context (loadTitle length docDataAt) =
      some ⟨titleContext state.context length, true, false⟩ :=
    callOutcome_title state.context length docDataAt
  unfold AddressedContext.step
  dsimp only [loadTitle] at called ⊢
  rw [called]
  simp [other]

/-- The cache does not belong to the address the call puts its buffer at. -/
theorem not_reuses {state : AddressedContext} {input : CallInput}
    (apart : state.stats.docData ≠ input.docDataAt.1) : ¬state.Reuses float text input :=
  fun ⟨_, _, _, _, same, _⟩ => apart same

theorem run_cons {state next final : AddressedContext} {input : CallInput}
    {rest : List CallInput} (stepped : state.step floats float text input = some next)
    (ran : next.run floats float text rest = some final) :
    state.run floats float text (input :: rest) = some final := by
  unfold AddressedContext.run at ran ⊢
  rw [List.foldlM_cons, stepped]
  exact ran

theorem neverReuses_cons {state next : AddressedContext} {input : CallInput}
    {rest : List CallInput} (apart : state.stats.docData ≠ input.docDataAt.1)
    (stepped : state.step floats float text input = some next)
    (fresh : next.NeverReuses floats float text rest) :
    state.NeverReuses floats float text (input :: rest) := by
  refine ⟨not_reuses apart, fun after other => ?_⟩
  rw [stepped] at other
  cases other
  exact fresh

theorem refresh_of_miss {state : AddressedContext} (miss : state.isMiss = true) :
    state.refresh floats =
      { state with
        stats := ⟨state.docDataAt.1, state.header.numDocuments,
          measuredAverages floats state.docData state.header⟩
        measured := some (state.docData, state.header) } := if_pos miss

/-- Three addresses. -/
def addressAt (number : Fin 3) : Address := ⟨number.val + 1, Nat.succ_ne_zero _⟩

theorem addressAt_injective {left right : Fin 3} (apart : left ≠ right) :
    addressAt left ≠ addressAt right := fun same =>
  apart (Fin.ext (Nat.succ.inj (congrArg Subtype.val same)))

/-- The cache behind the pass over a title of length one. -/
def titleStats : StreamLengthStats :=
  ⟨(addressAt 1).1, 1, measuredAverages smallFloats (titleRecord 1) (titleTables 1).header⟩

/-- A title of length one is loaded and measured. -/
theorem measure_title :
    ∃ context measured,
      (new (addressAt 0)).step smallFloats float text (loadTitle 1 (addressAt 1)) =
          some ⟨context, addressAt 1, .cleared, none⟩ ∧
        (⟨context, addressAt 1, .cleared, none⟩ : AddressedContext).step smallFloats float text
            (averageTitle (addressAt 0)) =
          some ⟨context, addressAt 1, titleStats, measured⟩ := by
  refine ⟨titleContext .new 1, some (titleRecord 1, (titleTables 1).header),
    step_loadTitle (addressAt_injective (by decide)), ?_⟩
  show some (AddressedContext.refresh smallFloats _) = _
  rw [refresh_of_miss (isMiss_of_cleared rfl)]
  rfl

/-- The title is loaded, measured, and replaced by another at another address. -/
def measuredRun : List CallInput :=
  [loadTitle 1 (addressAt 1), averageTitle (addressAt 0), loadTitle 2 (addressAt 2)]

/-- The same, with the other title at the address of the first. -/
def reusedRun : List CallInput :=
  [loadTitle 1 (addressAt 1), averageTitle (addressAt 0), loadTitle 1 (addressAt 2),
    loadTitle 2 (addressAt 1)]

theorem measured_run :
    (new (addressAt 0)).NeverReuses smallFloats float text measuredRun ∧
      ∃ final, (new (addressAt 0)).run smallFloats float text measuredRun = some final := by
  obtain ⟨context, measured, first, second⟩ := @measure_title float text
  have third := @step_loadTitle smallFloats float text
    ⟨context, addressAt 1, titleStats, measured⟩ 2 (addressAt 2)
    (addressAt_injective (by decide))
  exact ⟨neverReuses_cons (show (0 : Nat) ≠ 2 by decide) first
      (neverReuses_cons (show (0 : Nat) ≠ 1 by decide) second
        (neverReuses_cons (show (2 : Nat) ≠ 3 by decide) third trivial)),
    _, run_cons first (run_cons second (run_cons third rfl))⟩

theorem reused_run :
    ∃ context measured, (new (addressAt 0)).run smallFloats float text reusedRun =
      some ⟨titleContext context 2, addressAt 1, titleStats, measured⟩ := by
  obtain ⟨context, measured, first, second⟩ := @measure_title float text
  have third := @step_loadTitle smallFloats float text
    ⟨context, addressAt 1, titleStats, measured⟩ 1 (addressAt 2)
    (addressAt_injective (by decide))
  have fourth := @step_loadTitle smallFloats float text
    ⟨titleContext context 1, addressAt 2, titleStats, measured⟩ 2 (addressAt 1)
    (addressAt_injective (by decide))
  exact ⟨_, _, run_cons first (run_cons second (run_cons third (run_cons fourth rfl)))⟩

theorem cached_averages_current_measured :
    ∃ final, (new (addressAt 0)).run smallFloats default wordText measuredRun = some final ∧
      final.getAverageStreamLength smallFloats 'T' = final.recomputedAverage smallFloats 'T' := by
  obtain ⟨fresh, final, ran⟩ := @measured_run default wordText
  exact ⟨final, ran, cached_averages_current fresh ran 'T'⟩

theorem title_averages_differ :
    averageOf smallFloats titleStats.averages (titleTables 2).header 'T' ≠
      averageOf smallFloats (measuredAverages smallFloats (titleTables 2).docData
        (titleTables 2).header) (titleTables 2).header 'T' := by
  decide +kernel

/-- The new buffer lies where the cached averages were computed, with as many documents: the
answer is the average of the records that are gone. -/
theorem reused_buffer_keeps_average :
    ∃ final, (new (addressAt 0)).run smallFloats default wordText reusedRun = some final ∧
      final.getAverageStreamLength smallFloats 'T' ≠ final.recomputedAverage smallFloats 'T' := by
  obtain ⟨context, measured, ran⟩ := @reused_run default wordText
  refine ⟨_, ran, ?_⟩
  have hit : (⟨titleContext context 2, addressAt 1, titleStats, measured⟩ :
      AddressedContext).isMiss = false := isMiss_eq_false.mpr ⟨rfl, rfl⟩
  have kept : (⟨titleContext context 2, addressAt 1, titleStats, measured⟩ :
      AddressedContext).refresh smallFloats =
        ⟨titleContext context 2, addressAt 1, titleStats, measured⟩ :=
    if_neg (by rw [hit]; exact Bool.false_ne_true)
  unfold AddressedContext.getAverageStreamLength AddressedContext.recomputedAverage
  rw [kept]
  exact title_averages_differ

end AddressedContext

end MoonShot.Context
