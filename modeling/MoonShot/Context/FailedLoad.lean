import MoonShot.Context.Search

/-!
Loads that fail.

Owns the four loaders as one call, what a caller can observe of a context, and
which failed loads leave it as it was. Every loader reads its input before it
replaces a runtime field, but it drops the delta first, and `LoadIndex` also takes
the new path first: a failed load is unseen exactly when there was no delta with
documents and the path was the same.
-/

namespace MoonShot.Context

open MoonShot.Lib
open MoonShot.Postings
open MoonShot.Format
open MoonShot.Serializer
open MoonShot.Query

/-- The loaders of a context with their inputs. -/
inductive LoadCall where
  | index (path : Str)
  | bytes (data : Bytes)
  | vectorBytes (data : Bytes)
  | vectorTables (docData sidecar : Bytes)

namespace IndexContext

def load (files : FileSystem) (context : IndexContext) :
    LoadCall → IndexContext × Except RustBladeError Unit
  | .index path => context.loadIndex files path
  | .bytes data => context.loadFromBytes data
  | .vectorBytes data => context.loadVectorFromBytes data
  | .vectorTables docData sidecar => context.loadVectorTables docData sidecar

/-- Callers observe the same of both contexts. -/
structure SameObservations (graph : GraphSearch) (before after : IndexContext) : Prop where
  search : ∀ fuel tree calls, observed fuel (after.getReader graph fuel tree) calls =
    observed fuel (before.getReader graph fuel tree) calls
  docPath : ∀ docId, after.getDocPath docId = before.getDocPath docId
  docData : ∀ docId, after.getDocDataEntry docId = before.getDocDataEntry docId
  hasDelta : after.hasDelta = before.hasDelta
  indexPath : after.base.indexPath = before.base.indexPath
  allocated : after.allocateDocumentId = before.allocateDocumentId

/-- The path a failed load leaves behind. -/
def pathAfter (context : IndexContext) : LoadCall → Option Str
  | .index path => some path
  | _ => context.base.indexPath

/-- A failed load drops the delta and takes the path. -/
theorem load_failed {files : FileSystem} {context : IndexContext} {call : LoadCall}
    {failure : RustBladeError} (failed : (context.load files call).2 = .error failure) :
    (context.load files call).1 =
      ⟨{ context.base with indexPath := context.pathAfter call }, none⟩ := by
  cases call with
  | index path =>
      change (context.loadIndex files path).2 = _ at failed
      show (context.loadIndex files path).1 = _
      unfold loadIndex LocalIndex.loadIndex at failed ⊢
      dsimp only at failed ⊢
      cases read : loadFile files path context.base.leafTermCacheBytes with
      | error cause => rfl
      | ok loaded =>
          rw [read] at failed
          cases failed
  | bytes data =>
      change (context.loadFromBytes data).2 = _ at failed
      show (context.loadFromBytes data).1 = _
      unfold loadFromBytes at failed ⊢
      cases read : loadBytes data with
      | error cause => rfl
      | ok loaded =>
          rw [read] at failed
          cases failed
  | vectorBytes data =>
      change (context.loadVectorFromBytes data).2 = _ at failed
      show (context.loadVectorFromBytes data).1 = _
      unfold loadVectorFromBytes at failed ⊢
      cases read : vectorBytes data with
      | error cause => rfl
      | ok loaded =>
          rw [read] at failed
          cases failed
  | vectorTables docData sidecar =>
      change (context.loadVectorTables docData sidecar).2 = _ at failed
      show (context.loadVectorTables docData sidecar).1 = _
      unfold loadVectorTables at failed ⊢
      cases read : vectorTables docData sidecar with
      | error cause => rfl
      | ok loaded =>
          rw [read] at failed
          cases failed

/-! ## A delta without documents -/

section EmptyDelta

variable {delta : AttachedDelta} (empty : ¬ delta.index.documentCount > 0)

include empty

theorem emptyDelta_count : delta.index.header.numDocuments = 0 :=
  UInt64.le_zero_iff.mp (not_lt.mp empty)

theorem emptyDelta_findRecord (docId : UInt64) : delta.index.findRecord docId = none := by
  have noRecords := delta.records
  rw [emptyDelta_count empty] at noRecords
  have nothing : delta.index.docData.length = 0 := noRecords
  have positive : 0 < docRecSize := by decide
  unfold LocalIndex.findRecord findDocRecord
  by_cases behind : docId ≥ delta.index.firstDocId
  · rw [if_pos behind]
    dsimp only
    rw [nothing, if_neg]
    intro inside
    omega
  · rw [if_neg behind]

theorem emptyDelta_findPath (docId : UInt64) : delta.index.findPath docId = none := by
  unfold LocalIndex.findPath
  rw [emptyDelta_findRecord empty]

theorem emptyDelta_endDocId : endDocId delta.index = 0 := by
  unfold endDocId LocalIndex.firstDocId docDataFirstDocId
  rw [emptyDelta_count empty, if_neg]
  · rfl
  · intro both
    exact lt_irrefl _ both.1

end EmptyDelta

/-- Dropping a delta without documents is unseen. -/
theorem sameObservations_of_dropped (graph : GraphSearch) {context : IndexContext}
    (noDelta : context.hasDelta = false) : SameObservations graph context ⟨context.base, none⟩ := by
  cases attached : context.delta with
  | none =>
      have same : context = ⟨context.base, none⟩ := by
        rw [← attached]
      rw [← same]
      exact ⟨fun _ _ _ => rfl, fun _ => rfl, fun _ => rfl, rfl, rfl, rfl⟩
  | some delta =>
      have empty : ¬ delta.index.documentCount > 0 := by
        unfold hasDelta at noDelta
        rw [attached] at noDelta
        exact of_decide_eq_false noDelta
      constructor
      · intro fuel tree calls
        have skipped : ¬ (delta.index.documentCount > 0 ∧
            (tree.root.isSome ∨ tree.vectorQuery ≠ [])) := fun both => empty both.1
        unfold getReader
        rw [attached]
        simp only [if_neg skipped]
      · intro docId
        unfold getDocPath
        rw [attached]
        dsimp only
        rw [emptyDelta_findPath empty]
        rfl
      · intro docId
        unfold getDocDataEntry
        rw [attached]
        dsimp only
        rw [emptyDelta_findRecord empty]
      · exact noDelta.symm
      · rfl
      · unfold allocateDocumentId
        rw [attached]
        dsimp only
        rw [emptyDelta_endDocId empty, max_eq_left UInt64.zero_le]

/-- A failed load leaves everything a caller observes exactly when there was no delta
with documents, and `LoadIndex` was given the path the context already had. -/
theorem failed_load_unseen_iff (graph : GraphSearch) (files : FileSystem) (context : IndexContext)
    (call : LoadCall) (failure : RustBladeError)
    (failed : (context.load files call).2 = .error failure) :
    SameObservations graph context (context.load files call).1 ↔
      context.hasDelta = false ∧ ∀ path, call = .index path →
        context.base.indexPath = some path := by
  rw [load_failed failed]
  constructor
  · intro same
    refine ⟨same.hasDelta.symm, ?_⟩
    rintro path rfl
    exact same.indexPath.symm
  · intro unseen
    have path : context.pathAfter call = context.base.indexPath := by
      cases call with
      | index path => exact (unseen.2 path rfl).symm
      | bytes data => rfl
      | vectorBytes data => rfl
      | vectorTables docData sidecar => rfl
    rw [path]
    exact sameObservations_of_dropped graph unseen.1

/-- The small index is loaded and its file goes: `LoadIndex` of the same path fails, and nobody
sees it. -/
theorem failed_load_unseen_reload : ∃ opened, new.loadIndex wordFiles wordPath = (opened, .ok ()) ∧
    opened.base.BuiltFrom default (wordStore 0) ∧
    (opened.load (fun _ => none) (.index wordPath)).2 = .error .io ∧
    SameObservations firstNodes opened (opened.load (fun _ => none) (.index wordPath)).1 := by
  obtain ⟨base, read, built, _, indexPath⟩ := wordFiles_opened
  have missing : ((⟨base, none⟩ : IndexContext).load (fun _ => none) (.index wordPath)).2 =
      .error .io := rfl
  refine ⟨_, read, built, missing, ?_⟩
  apply (failed_load_unseen_iff firstNodes (fun _ => none) ⟨base, none⟩ (.index wordPath) .io
    missing).mpr
  refine ⟨rfl, ?_⟩
  intro path same
  rw [← LoadCall.index.inj same]
  exact indexPath

/-- There is no index in an empty input. -/
theorem load_nothing (context : IndexContext) :
    (context.load (fun _ => none) (.bytes [])).2 = .error .invalidFormat := rfl

/-- A failed load is seen where there is a delta with documents. -/
theorem failed_load_seen {graph : GraphSearch} {files : FileSystem} {context : IndexContext}
    {call : LoadCall} {failure : RustBladeError}
    (failed : (context.load files call).2 = .error failure) (delta : context.hasDelta = true) :
    ¬ SameObservations graph context (context.load files call).1 := by
  rw [load_failed failed]
  intro same
  have dropped := same.hasDelta
  rw [delta] at dropped
  cases dropped

theorem hasDelta_of_counted {context : IndexContext} {delta : AttachedDelta}
    (attached : context.delta = some delta) (counted : delta.index.header.numDocuments > 0) :
    context.hasDelta = true := by
  unfold hasDelta
  rw [attached]
  exact decide_eq_true counted

theorem pendingContext_hasDelta : pendingContext.hasDelta = true := by
  obtain ⟨_, delta, attached, built, _⟩ := pendingContext_delta
  have counted : (builtHeader default (wordStore 1)).numDocuments > 0 := by decide +kernel
  apply hasDelta_of_counted attached
  rw [built.header]
  exact counted

/-- A failed `LoadFromBytes` drops the delta. -/
theorem failed_load_drops_delta :
    (pendingContext.load (fun _ => none) (.bytes [])).2 = .error .invalidFormat ∧
      ¬ SameObservations firstNodes pendingContext
        (pendingContext.load (fun _ => none) (.bytes [])).1 :=
  ⟨load_nothing _, failed_load_seen (load_nothing _) pendingContext_hasDelta⟩

end IndexContext

end MoonShot.Context
