import MoonShot.Context.State
import MoonShot.Lib.Cursor
import MoonShot.Lib.TopK

/-!
The search executor (`IndexSearchExecutor.rs`): from a reader to ranked results.

Owns both scans over a reader, the bounded heap they collect results in, the
final sort, and the theorem that a limited run returns a largest selection of
what the unlimited run returns, and a bounded run what the other scan returns
on a prefix.

Floating point is not modelled: scores are values of any linear order, and the
parts of a score that do not come from the reader are fields of `Scoring`. The
heap is any heap that keeps the contract of a min-heap, so ties fall as they may.
-/

namespace MoonShot.Search

open MoonShot.Lib
open MoonShot.Postings
open MoonShot.Format
open MoonShot.Context
open MoonShot.Context.IndexContext (readerDocumentIdValue)

/-- `MakeReaderDocumentID` -/
def makeReaderDocumentId (docId : UInt64) (sourceMask : UInt8) : UInt64 :=
  (sourceMask.toUInt64 <<< 59) ||| (docId &&& 0x07FFFFFFFFFFFFFF)

/-- The document of a result is read back from its id. -/
theorem readerDocumentIdValue_make {docId : UInt64} (small : docId.toNat < 2 ^ 59)
    (sourceMask : UInt8) : readerDocumentIdValue (makeReaderDocumentId docId sourceMask) = docId := by
  apply UInt64.toNat_inj.mp
  have mask : (0x07FFFFFFFFFFFFFF : UInt64).toNat = 2 ^ 59 - 1 := by decide
  have shift : (59 : UInt64).toNat % 64 = 59 := by decide
  have source : (sourceMask.toUInt64 <<< 59).toNat % 2 ^ 59 = 0 := by
    rw [UInt64.toNat_shiftLeft, shift, Nat.shiftLeft_eq]
    omega
  rw [readerDocumentIdValue, makeReaderDocumentId, UInt64.toNat_and, UInt64.toNat_or,
    UInt64.toNat_and, mask, Nat.and_two_pow_sub_one_eq_mod, Nat.and_two_pow_sub_one_eq_mod,
    Nat.or_mod_two_pow, source, Nat.zero_or, Nat.mod_mod, Nat.mod_eq_of_lt small]

/-- `SearchResult`; the executor leaves every snippet empty. -/
structure SearchResult (S : Type) where
  docId : UInt64
  score : S
  snippet : Str := Str.empty

/-- The floating-point part of a score: `DocDataScore` and `VectorScoreFeature`
under the scoring parameters in force, and the sum. -/
structure Scoring (S : Type) where
  docDataScore : DocDataEntry → S
  vectorScoreFeature : DocDataEntry → Option (List F32) → S
  add : S → S → S

/-- `IndexReader` with the calls a search makes. -/
structure ScoredReader (ρ S : Type) where
  cursor : Cursor ρ UInt64
  getScore : ρ → DocDataEntry → Option (S × ρ)
  getSourceMask : ρ → Option (UInt8 × ρ)

/-- `HeapEntry`: a result under its own score. -/
structure HeapEntry (S : Type) where
  score : S
  result : SearchResult S
  own : score = result.score

/-- `TopKLimit` -/
def topKLimit (topK : Int32) : Option Nat :=
  if 0 < topK.toInt then some topK.toInt.toNat else none

section Executor

variable {ρ S : Type} [LinearOrder S]

/-- `BinaryHeap<Reverse<HeapEntry>>` -/
abbrev ResultHeap (S : Type) [LinearOrder S] := MinHeap (HeapEntry.score (S := S))

variable (heap : ResultHeap S) (reader : ScoredReader ρ S)
  (getDocDataEntry : UInt64 → Option DocDataEntry) (scoring : Scoring S)
  (vectorQuery : Option (List F32))

/-- `results` and `heap` -/
structure Collector where
  results : List (SearchResult S)
  entries : heap.Carrier

def Collector.new : Collector heap := ⟨[], heap.empty⟩

/-- What both loops do with a result. -/
def Collector.offer {heap : ResultHeap S} (limit : Option Nat) (collector : Collector heap)
    (result : SearchResult S) : Option (Collector heap) :=
  let entry : HeapEntry S := ⟨result.score, result, rfl⟩
  match limit with
  | none => some { collector with results := collector.results ++ [result] }
  | some limit =>
      if (heap.items collector.entries).length < limit then
        some { collector with entries := heap.push collector.entries entry }
      else
        match heap.peek collector.entries with
        | none => none
        | some least =>
            if result.score > least.result.score then
              some { collector with entries := heap.push (heap.pop collector.entries) entry }
            else some collector

/-- `SortAndTruncate` -/
def sortAndTruncate (results : List (SearchResult S)) (limit : Option Nat) :
    List (SearchResult S) :=
  let sorted := sortDescending SearchResult.score results
  match limit with
  | some limit => if sorted.length > limit then sorted.take limit else sorted
  | none => sorted

/-- What follows the loops. -/
def Collector.finish {heap : ResultHeap S} (limit : Option Nat) (collector : Collector heap) :
    List (SearchResult S) :=
  sortAndTruncate
    (if limit.isSome then
      collector.results ++ (heap.items collector.entries).map HeapEntry.result
    else collector.results) limit

/-- The result of the document the reader stands on. A document without an entry
panics. -/
def resultHere (state : ρ) : Option (SearchResult S × ρ) := do
  let docId := reader.cursor.docId state
  let entry ← getDocDataEntry docId
  let (readerScore, state) ← reader.getScore state entry
  let score := scoring.add (scoring.add readerScore (scoring.docDataScore entry))
    (scoring.vectorScoreFeature entry vectorQuery)
  let (sourceMask, state) ← reader.getSourceMask state
  pure ({ docId := makeReaderDocumentId docId sourceMask, score := score }, state)

/-- The loop of `ExecuteWithVector` -/
def scanAll (limit : Option Nat) : (fuel : Nat) → ρ → Collector heap → Option (Collector heap)
  | 0, _, _ => none
  | fuel + 1, state, collector =>
      if reader.cursor.isEnd state then some collector
      else do
        let (result, state) ← resultHere reader getDocDataEntry scoring vectorQuery state
        let collector ← collector.offer limit result
        let state ← reader.cursor.goNext state
        scanAll limit fuel state collector

/-- The loop of `ExecuteBounded` -/
def scanBounded (limit : Option Nat) (maxVisitedDocs : UInt64) :
    (fuel : Nat) → ρ → Collector heap → (visited : UInt64) → Option (Collector heap)
  | 0, _, _, _ => none
  | fuel + 1, state, collector, visited =>
      if reader.cursor.isEnd state = false ∧ visited < maxVisitedDocs then do
        let (result, state) ← resultHere reader getDocDataEntry scoring vectorQuery state
        let collector ← collector.offer limit result
        let visited := visited + 1
        let state ← reader.cursor.goNext state
        scanBounded limit maxVisitedDocs fuel state collector visited
      else some collector

/-- `ExecuteWithVector` -/
def executeWithVector (fuel : Nat) (state : ρ) (topK : Int32) : Option (List (SearchResult S)) :=
  if reader.cursor.isEnd state then some []
  else
    let limit := topKLimit topK
    (scanAll heap reader getDocDataEntry scoring vectorQuery limit fuel state (.new heap)).map
      (Collector.finish limit)

/-- `ExecuteBounded` -/
def executeBounded (fuel : Nat) (state : ρ) (topK : Int32) (maxVisitedDocs : UInt64) :
    Option (List (SearchResult S)) :=
  if reader.cursor.isEnd state ∨ maxVisitedDocs = 0 then some []
  else
    let limit := topKLimit topK
    (scanBounded heap reader getDocDataEntry scoring vectorQuery limit maxVisitedDocs fuel state
      (.new heap) 0).map (Collector.finish limit)

end Executor

/-! ## Sequences of documents -/

/-- A document a reader yields, with its entry, its score and its source. -/
structure Visit (S : Type) where
  docId : UInt64
  entry : DocDataEntry
  readerScore : S
  sourceMask : UInt8

section Sequences

variable {ρ S : Type}

/-- The result of the visit. -/
def Visit.result (scoring : Scoring S) (vectorQuery : Option (List F32)) (visit : Visit S) :
    SearchResult S where
  docId := makeReaderDocumentId visit.docId visit.sourceMask
  score := scoring.add (scoring.add visit.readerScore (scoring.docDataScore visit.entry))
    (scoring.vectorScoreFeature visit.entry vectorQuery)

/-- Stepping with `GoNext`, and asking for the score and the source in between,
the reader yields the documents in order and then ends. -/
def Yields (reader : ScoredReader ρ S) (getDocDataEntry : UInt64 → Option DocDataEntry) :
    ρ → List (Visit S) → Prop
  | state, [] => reader.cursor.isEnd state = true
  | state, visit :: rest =>
      reader.cursor.isEnd state = false ∧ reader.cursor.docId state = visit.docId ∧
      getDocDataEntry visit.docId = some visit.entry ∧
      ∃ scored masked next, reader.getScore state visit.entry = some (visit.readerScore, scored) ∧
        reader.getSourceMask scored = some (visit.sourceMask, masked) ∧
        reader.cursor.goNext masked = some next ∧ Yields reader getDocDataEntry next rest

/-- One turn on a reader that yields a visit. -/
theorem resultHere_eq {reader : ScoredReader ρ S} {getDocDataEntry : UInt64 → Option DocDataEntry}
    {scoring : Scoring S} {vectorQuery : Option (List F32)} {state scored masked : ρ}
    {visit : Visit S} (here : reader.cursor.docId state = visit.docId)
    (entry : getDocDataEntry visit.docId = some visit.entry)
    (score : reader.getScore state visit.entry = some (visit.readerScore, scored))
    (source : reader.getSourceMask scored = some (visit.sourceMask, masked)) :
    resultHere reader getDocDataEntry scoring vectorQuery state =
      some (visit.result scoring vectorQuery, masked) := by
  unfold resultHere
  simp only [here, entry, score, source, Option.bind_eq_bind, Option.bind_some]
  rfl

theorem isEnd_iff_of_yields {reader : ScoredReader ρ S}
    {getDocDataEntry : UInt64 → Option DocDataEntry} {state : ρ} {visits : List (Visit S)}
    (yields : Yields reader getDocDataEntry state visits) :
    reader.cursor.isEnd state = true ↔ visits = [] := by
  cases visits with
  | nil => exact iff_of_true yields rfl
  | cons visit rest => exact iff_of_false (by simp [yields.1]) (List.cons_ne_nil _ _)

end Sequences

/-! ## The heap -/

section Collect

variable {S : Type} [LinearOrder S] {heap : ResultHeap S}

/-- The collector holds all results so far, or a largest selection of them. -/
def Collected (limit : Option Nat) (collector : Collector heap)
    (results : List (SearchResult S)) : Prop :=
  match limit with
  | none => collector.results = results
  | some limit =>
      collector.results = [] ∧ Selects SearchResult.score limit
        ((heap.items collector.entries).map HeapEntry.result) results

theorem collected_new (heap : ResultHeap S) (limit : Option Nat) : Collected limit (Collector.new heap) [] := by
  cases limit with
  | none => rfl
  | some limit =>
      refine ⟨rfl, ?_⟩
      rw [Collector.new, heap.items_empty]
      exact selects_nil limit

/-- The replacement test is strict: a result as good as the worst kept one is
dropped. -/
theorem Collected.offer {limit : Option Nat} (positive : ∀ bound, limit = some bound → 0 < bound)
    {collector : Collector heap} {results : List (SearchResult S)}
    (collected : Collected limit collector results) (result : SearchResult S) :
    ∃ next, collector.offer limit result = some next ∧
      Collected limit next (results ++ [result]) := by
  cases limit with
  | none => exact ⟨_, rfl, congrArg (· ++ [result]) collected⟩
  | some limit =>
      obtain ⟨nothing, selects⟩ := collected
      let entry : HeapEntry S := ⟨result.score, result, rfl⟩
      have pushed : ∀ entries,
          ((heap.items (heap.push entries entry)).map HeapEntry.result).Perm
            (result :: (heap.items entries).map HeapEntry.result) :=
        fun entries => (heap.items_push entries entry).map HeapEntry.result
      unfold Collector.offer
      dsimp only
      by_cases room : (heap.items collector.entries).length < limit
      · rw [if_pos room]
        refine ⟨_, rfl, nothing, (selects.add ?_ result).perm (pushed _)⟩
        rw [List.length_map]
        exact room
      · rw [if_neg room]
        cases front : heap.peek collector.entries with
        | none =>
            have empty := (heap.peek_eq_none _).mp front
            have bound := positive limit rfl
            rw [empty] at room
            exact absurd bound room
        | some least =>
            have full : ((heap.items collector.entries).map HeapEntry.result).length = limit := by
              obtain ⟨_, _, length, _⟩ := selects
              rw [List.length_map] at length ⊢
              omega
            have isLeast : ∀ other ∈ (heap.items collector.entries).map HeapEntry.result,
                least.result.score ≤ other.score := by
              intro other member
              obtain ⟨kept, keptMember, rfl⟩ := List.mem_map.mp member
              rw [← least.own, ← kept.own]
              exact heap.peek_le _ least front kept keptMember
            dsimp only
            by_cases larger : result.score > least.result.score
            · rw [if_pos larger]
              have popped := (heap.items_pop _ least front).map HeapEntry.result
              exact ⟨_, rfl, nothing,
                (selects.replace popped full isLeast larger).perm (pushed _)⟩
            · rw [if_neg larger]
              exact ⟨_, rfl, nothing, selects.drop full isLeast (not_lt.mp larger)⟩

theorem Collected.offers {limit : Option Nat} (positive : ∀ bound, limit = some bound → 0 < bound)
    {collector : Collector heap} {results : List (SearchResult S)}
    (collected : Collected limit collector results) (offered : List (SearchResult S)) :
    ∃ final, offered.foldlM (Collector.offer limit) collector = some final ∧
      Collected limit final (results ++ offered) := by
  induction offered generalizing collector results with
  | nil => exact ⟨collector, rfl, by rwa [List.append_nil]⟩
  | cons result rest inductionHypothesis =>
      obtain ⟨next, nextEq, nextCollected⟩ := collected.offer positive result
      obtain ⟨final, finalEq, finalCollected⟩ := inductionHypothesis nextCollected
      refine ⟨final, ?_, ?_⟩
      · rw [List.foldlM_cons, nextEq]
        exact finalEq
      · rwa [List.append_assoc] at finalCollected

end Collect

/-! ## The loops -/

section Loops

variable {ρ S : Type} [LinearOrder S] {heap : ResultHeap S} {reader : ScoredReader ρ S}
  {getDocDataEntry : UInt64 → Option DocDataEntry} {scoring : Scoring S}
  {vectorQuery : Option (List F32)} {state : ρ} {visits : List (Visit S)} {fuel : Nat}

theorem scanAll_eq (yields : Yields reader getDocDataEntry state visits)
    (enough : visits.length < fuel) (limit : Option Nat) (collector : Collector heap) :
    scanAll heap reader getDocDataEntry scoring vectorQuery limit fuel state collector =
      (visits.map (Visit.result scoring vectorQuery)).foldlM (Collector.offer limit) collector := by
  induction visits generalizing state fuel collector with
  | nil =>
      obtain ⟨fuel, rfl⟩ := Nat.exists_eq_succ_of_ne_zero (by omega : fuel ≠ 0)
      have ended : reader.cursor.isEnd state = true := yields
      rw [scanAll, if_pos ended]
      rfl
  | cons visit rest inductionHypothesis =>
      obtain ⟨notEnd, here, entry, scored, masked, next, score, source, moved, later⟩ := yields
      rw [List.length_cons] at enough
      obtain ⟨fuel, rfl⟩ := Nat.exists_eq_succ_of_ne_zero (by omega : fuel ≠ 0)
      rw [scanAll, if_neg (by simp [notEnd]), resultHere_eq here entry score source, List.map_cons,
        List.foldlM_cons]
      simp only [Option.bind_eq_bind, Option.bind_some, moved]
      congr 1
      funext collected
      exact inductionHypothesis later (by omega) collected

theorem scanBounded_eq (yields : Yields reader getDocDataEntry state visits)
    (enough : visits.length < fuel) (limit : Option Nat) (collector : Collector heap)
    {maxVisitedDocs visited : UInt64} :
    scanBounded heap reader getDocDataEntry scoring vectorQuery limit maxVisitedDocs fuel state
        collector visited =
      ((visits.take (maxVisitedDocs.toNat - visited.toNat)).map
        (Visit.result scoring vectorQuery)).foldlM (Collector.offer limit) collector := by
  induction visits generalizing state fuel collector visited with
  | nil =>
      obtain ⟨fuel, rfl⟩ := Nat.exists_eq_succ_of_ne_zero (by omega : fuel ≠ 0)
      have ended : reader.cursor.isEnd state = true := yields
      rw [scanBounded, if_neg (by simp [ended]), List.take_nil]
      rfl
  | cons visit rest inductionHypothesis =>
      obtain ⟨notEnd, here, entry, scored, masked, next, score, source, moved, later⟩ := yields
      rw [List.length_cons] at enough
      obtain ⟨fuel, rfl⟩ := Nat.exists_eq_succ_of_ne_zero (by omega : fuel ≠ 0)
      rw [scanBounded]
      by_cases more : visited < maxVisitedDocs
      · have below : visited.toNat < maxVisitedDocs.toNat := UInt64.lt_iff_toNat_lt.mp more
        have counted : (visited + 1).toNat = visited.toNat + 1 := by
          have bound := maxVisitedDocs.toNat_lt
          rw [UInt64.toNat_add, UInt64.toNat_one, Nat.mod_eq_of_lt (by omega)]
        have remaining : maxVisitedDocs.toNat - visited.toNat =
            (maxVisitedDocs.toNat - (visited + 1).toNat) + 1 := by omega
        rw [if_pos ⟨notEnd, more⟩, resultHere_eq here entry score source, remaining,
          List.take_succ_cons, List.map_cons, List.foldlM_cons]
        simp only [Option.bind_eq_bind, Option.bind_some, moved]
        congr 1
        funext collected
        exact inductionHypothesis later (by omega) collected
      · have spent : maxVisitedDocs.toNat - visited.toNat = 0 := by
          rw [UInt64.lt_iff_toNat_lt] at more
          omega
        rw [if_neg (fun both => more both.2), spent, List.take_zero]
        rfl

/-- The results of a scan over a sequence of visits. -/
def ranked (heap : ResultHeap S) (scoring : Scoring S) (vectorQuery : Option (List F32))
    (topK : Int32) (visits : List (Visit S)) : Option (List (SearchResult S)) :=
  ((visits.map (Visit.result scoring vectorQuery)).foldlM (Collector.offer (topKLimit topK))
    (Collector.new heap)).map (Collector.finish (topKLimit topK))

theorem ranked_nil (topK : Int32) : ranked heap scoring vectorQuery topK [] = some [] := by
  have nothing : ((heap.items (Collector.new heap).entries).map HeapEntry.result) = [] := by
    rw [Collector.new, heap.items_empty]
    rfl
  show some (Collector.finish (topKLimit topK) (Collector.new heap)) = some []
  unfold Collector.finish
  rw [nothing]
  cases topKLimit topK <;> simp [sortAndTruncate, Collector.new, sortDescending]

theorem executeWithVector_eq (yields : Yields reader getDocDataEntry state visits)
    (enough : visits.length < fuel) (topK : Int32) :
    executeWithVector heap reader getDocDataEntry scoring vectorQuery fuel state topK =
      ranked heap scoring vectorQuery topK visits := by
  unfold executeWithVector
  by_cases ended : reader.cursor.isEnd state = true
  · rw [if_pos ended, (isEnd_iff_of_yields yields).mp ended, ranked_nil]
  · rw [if_neg ended]
    dsimp only
    rw [scanAll_eq yields enough]
    rfl

theorem executeBounded_eq (yields : Yields reader getDocDataEntry state visits)
    (enough : visits.length < fuel) (topK : Int32) (maxVisitedDocs : UInt64) :
    executeBounded heap reader getDocDataEntry scoring vectorQuery fuel state topK
        maxVisitedDocs =
      ranked heap scoring vectorQuery topK (visits.take maxVisitedDocs.toNat) := by
  unfold executeBounded
  by_cases nothing : reader.cursor.isEnd state = true ∨ maxVisitedDocs = 0
  · have none_ : visits.take maxVisitedDocs.toNat = [] := by
      rcases nothing with ended | zero
      · rw [(isEnd_iff_of_yields yields).mp ended, List.take_nil]
      · rw [zero, UInt64.toNat_zero, List.take_zero]
    rw [if_pos nothing, none_, ranked_nil]
  · rw [if_neg nothing]
    dsimp only
    rw [scanBounded_eq yields enough, UInt64.toNat_zero, Nat.sub_zero]
    rfl

end Loops

/-! ## Ranked results -/

/-- What is a rearrangement of images is the image of a rearrangement. -/
theorem exists_visits {α β : Type} {image : α → β} {front back : List β} {items : List α}
    (perm : (front ++ back).Perm (items.map image)) :
    ∃ chosen : List α, chosen.Subperm items ∧ front = chosen.map image := by
  have rearranged : Relation.Comp (fun images items => images = List.map image items) List.Perm
      (front ++ back) items := by
    rw [List.eq_map_comp_perm]
    exact perm
  obtain ⟨arranged, images, same⟩ := rearranged
  refine ⟨arranged.take front.length, (List.take_sublist _ _).subperm.trans same.subperm, ?_⟩
  rw [List.map_take, ← images, List.take_left]

section Ranked

variable {S : Type} [LinearOrder S] {heap : ResultHeap S} {scoring : Scoring S}
  {vectorQuery : Option (List F32)}

theorem topKLimit_pos {topK : Int32} (positive : 0 < topK.toInt) :
    topKLimit topK = some topK.toInt.toNat := by
  rw [topKLimit, if_pos positive]

theorem topKLimit_nonpos {topK : Int32} (nonpositive : topK.toInt ≤ 0) :
    topKLimit topK = none := by
  rw [topKLimit, if_neg (by omega)]

theorem ranked_unlimited {topK : Int32} (nonpositive : topK.toInt ≤ 0) (visits : List (Visit S)) :
    ranked heap scoring vectorQuery topK visits =
      some (sortDescending SearchResult.score (visits.map (Visit.result scoring vectorQuery))) := by
  obtain ⟨final, finalEq, collected⟩ := (collected_new heap none).offers
    (by simp) (visits.map (Visit.result scoring vectorQuery))
  have results : final.results = visits.map (Visit.result scoring vectorQuery) := collected
  rw [ranked, topKLimit_nonpos nonpositive, finalEq]
  show some (sortAndTruncate final.results none) = _
  rw [results]
  rfl

theorem ranked_limited (heap : ResultHeap S) (scoring : Scoring S)
    (vectorQuery : Option (List F32)) {topK : Int32} (positive : 0 < topK.toInt) (visits : List (Visit S)) :
    ∃ kept, Selects SearchResult.score topK.toInt.toNat kept
        (visits.map (Visit.result scoring vectorQuery)) ∧
      ranked heap scoring vectorQuery topK visits =
        some (sortDescending SearchResult.score kept) := by
  have bound : ∀ limit, some topK.toInt.toNat = some limit → 0 < limit := by
    intro limit same
    rw [← Option.some.inj same]
    omega
  obtain ⟨final, finalEq, nothing, selects⟩ :=
    (collected_new heap (some topK.toInt.toNat)).offers bound
      (visits.map (Visit.result scoring vectorQuery))
  refine ⟨_, selects, ?_⟩
  rw [ranked, topKLimit_pos positive, finalEq]
  show some (sortAndTruncate (final.results ++ _) (some topK.toInt.toNat)) = _
  obtain ⟨_, _, length, _⟩ := selects
  have short : ¬ (sortDescending SearchResult.score
      ((heap.items final.entries).map HeapEntry.result)).length > topK.toInt.toNat := by
    rw [(sortDescending_perm _).length_eq]
    omega
  rw [nothing, List.nil_append]
  exact congrArg some (if_neg short)

end Ranked

/-- For a reader that yields a sequence of distinct documents with entries, with
enough fuel: an unlimited run returns every document once, best first; a run
limited to `K` returns `min(K, n)` results of distinct documents of the sequence
with their own scores, best first, and the scores are the first `K` of the
unlimited run; a bounded run returns what the other returns on the prefix. -/
theorem top_k_selection {ρ S : Type} [LinearOrder S] (heap : ResultHeap S)
    (reader : ScoredReader ρ S) (getDocDataEntry : UInt64 → Option DocDataEntry)
    (scoring : Scoring S) (vectorQuery : Option (List F32)) {state : ρ} {visits : List (Visit S)}
    (yields : Yields reader getDocDataEntry state visits)
    (distinct : (visits.map Visit.docId).Nodup) :
    ∃ enough all,
      all.Perm (visits.map (Visit.result scoring vectorQuery)) ∧
      (all.Pairwise fun first second => second.score ≤ first.score) ∧
      ∀ fuel, enough ≤ fuel →
        (∀ topK : Int32, topK.toInt ≤ 0 →
          executeWithVector heap reader getDocDataEntry scoring vectorQuery fuel state topK =
            some all) ∧
        (∀ topK : Int32, 0 < topK.toInt → ∃ results,
          executeWithVector heap reader getDocDataEntry scoring vectorQuery fuel state topK =
            some results ∧
          results.length = min topK.toInt.toNat visits.length ∧
          (∃ chosen : List (Visit S), chosen.Subperm visits ∧ (chosen.map Visit.docId).Nodup ∧
            results = chosen.map (Visit.result scoring vectorQuery) ∧
            ((∀ visit ∈ visits, (DocDataEntry.docId visit.entry).toUInt64 = visit.docId) →
              results.map (fun result => readerDocumentIdValue result.docId) =
                chosen.map Visit.docId)) ∧
          (results.Pairwise fun first second => second.score ≤ first.score) ∧
          results.map SearchResult.score =
            (all.map SearchResult.score).take topK.toInt.toNat) ∧
        ∀ (topK : Int32) (maxVisitedDocs : UInt64) (other : Type) (otherReader : ScoredReader other S)
          (prefixState : other),
          Yields otherReader getDocDataEntry prefixState (visits.take maxVisitedDocs.toNat) →
          executeBounded heap reader getDocDataEntry scoring vectorQuery fuel state topK
              maxVisitedDocs =
            executeWithVector heap otherReader getDocDataEntry scoring vectorQuery fuel prefixState
              topK := by
  refine ⟨visits.length + 1,
    sortDescending SearchResult.score (visits.map (Visit.result scoring vectorQuery)),
    sortDescending_perm _, sortDescending_ordered _, ?_⟩
  intro fuel enough
  refine ⟨?_, ?_, ?_⟩
  · intro topK nonpositive
    rw [executeWithVector_eq yields (by omega), ranked_unlimited nonpositive]
  · intro topK positive
    obtain ⟨kept, selects, rankedEq⟩ := ranked_limited heap scoring vectorQuery positive visits
    refine ⟨_, (executeWithVector_eq yields (by omega) topK).trans rankedEq, ?_, ?_,
      sortDescending_ordered kept, selects.map_key_sortDescending⟩
    · obtain ⟨_, _, length, _⟩ := selects
      rw [(sortDescending_perm kept).length_eq, length, List.length_map]
    · obtain ⟨dropped, split, _, _⟩ := selects
      have rearranged : (sortDescending SearchResult.score kept ++ dropped).Perm
          (visits.map (Visit.result scoring vectorQuery)) :=
        ((sortDescending_perm kept).append_right dropped).trans split
      obtain ⟨chosen, part, results⟩ := exists_visits rearranged
      have separate : (chosen.map Visit.docId).Nodup := by
        obtain ⟨ordered, arranged, sub⟩ := part
        exact (arranged.map Visit.docId).nodup_iff.mp (distinct.sublist (sub.map Visit.docId))
      refine ⟨chosen, part, separate, results, ?_⟩
      intro own
      rw [results, List.map_map]
      apply List.map_congr_left
      intro visit member
      apply readerDocumentIdValue_make
      rw [← own visit (part.subset member), UInt32.toNat_toUInt64]
      have bound := (DocDataEntry.docId visit.entry).toNat_lt
      omega
  · intro topK maxVisitedDocs other otherReader prefixState prefixYields
    have shorter : (visits.take maxVisitedDocs.toNat).length < fuel := by
      rw [List.length_take]
      omega
    rw [executeBounded_eq yields (by omega), executeWithVector_eq prefixYields shorter]

/-- A reader over a list of documents and their scores. -/
def listReader : ScoredReader (List (UInt64 × Nat)) Nat where
  cursor :=
    { isEnd := List.isEmpty
      docId := fun rest => (rest.head?.map Prod.fst).getD 0xFFFFFFFFFFFFFFFF
      goNext := fun rest => some rest.tail
      goUntil := fun rest target => some (rest.dropWhile fun visit => visit.1 < target) }
  getScore := fun rest _ => rest.head?.map fun visit => (visit.2, rest)
  getSourceMask := fun rest => some (1, rest)

theorem listReader_yields (getDocDataEntry : UInt64 → Option DocDataEntry) {entry : DocDataEntry}
    (rest : List (UInt64 × Nat))
    (stored : ∀ visit ∈ rest, getDocDataEntry visit.1 = some entry) :
    Yields listReader getDocDataEntry rest (rest.map fun visit => ⟨visit.1, entry, visit.2, 1⟩) := by
  induction rest with
  | nil => rfl
  | cons visit rest inductionHypothesis =>
      refine ⟨rfl, rfl, stored visit List.mem_cons_self, _, _, _, rfl, rfl, rfl, ?_⟩
      exact inductionHypothesis fun other member => stored other (List.mem_cons_of_mem _ member)

/-- Two of three documents, two of which tie. -/
theorem top_k_selection_tie :
    ∃ fuel results,
      executeWithVector (MinHeap.sorted HeapEntry.score) listReader
        (fun _ => some (List.replicate docRecSize 0)) ⟨fun _ => 0, fun _ _ => 0, (· + ·)⟩ none fuel
        [(3, 7), (5, 9), (8, 7)] 2 = some results ∧
      results.length = 2 ∧ results.Pairwise fun first second => second.score ≤ first.score := by
  have yields := listReader_yields (fun _ => some (List.replicate docRecSize 0))
    [(3, 7), (5, 9), (8, 7)] fun _ _ => rfl
  obtain ⟨enough, _, _, _, runs⟩ := top_k_selection (MinHeap.sorted HeapEntry.score) listReader
    (fun _ => some (List.replicate docRecSize 0)) ⟨fun _ => 0, fun _ _ => 0, (· + ·)⟩ none yields
    (by decide)
  obtain ⟨_, limited, _⟩ := runs enough le_rfl
  obtain ⟨results, run, length, _, ordered, _⟩ := limited 2 (by decide)
  exact ⟨enough, results, run, length, ordered⟩

end MoonShot.Search
