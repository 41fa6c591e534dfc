import MoonShot.Cache.Invariant

/-!
Safety of the block cache under every interleaving.

Owns the step and run lemmas of `Consistent` and what follows for every run:
the tables are a partial bijection, pin counts are exact, loads do not overlap,
pinned and loading slots stay with their block, and handles see the contents
they asked for. All of it holds while no pin count wraps. The sequential branch
of `GetBlock` does not look at `Loading`, so runs with sequential calls keep it
only while no such call hits a block whose load is in flight.
-/

namespace MoonShot.Cache

open MoonShot.Format
open MoonShot.Lib

section Sections

variable {contents : Nat → Page} {system : System}

theorem examine_ready {pool : Pool} {block slot : Nat} (ready : pool.examine block = .ready slot) :
    pool.logicTable block = some slot ∧ slot < pool.slotCount ∧
      (pool.slotTable slot).loading = false ∧ (pool.slotTable slot).blockId = some block := by
  unfold Pool.examine at ready
  cases lookup : pool.logicTable block with
  | none =>
      rw [lookup] at ready
      cases ready
  | some found =>
      rw [lookup] at ready
      dsimp only at ready
      split at ready
      · cases ready
      · rename_i inside
        split at ready
        · cases ready
        · rename_i notLoading
          split at ready
          · rename_i stored
            obtain rfl := Pool.Examined.ready.inj ready
            exact ⟨rfl, not_le.mp inside, by simpa using notLoading, stored⟩
          · cases ready

theorem Consistent.examine_missing (consistent : Consistent contents system) {block : Nat}
    (missing : system.pool.examine block = .missing) : system.pool.logicTable block = none := by
  cases lookup : system.pool.logicTable block with
  | none => rfl
  | some slot =>
      obtain ⟨inside, _, stored⟩ := consistent.logic block slot lookup
      simp only [Pool.examine, lookup, not_le.mpr inside, stored, if_false, if_true] at missing
      split at missing <;> cases missing

/-- The eviction loop only moves the cursor, and what it finds is free. -/
theorem findVictim_spec (turns : Nat) (pool : Pool) (slots : 0 < pool.slotCount) :
    ∃ cursor, (Pool.findVictim turns pool).1 = { pool with evictSlot := cursor } ∧
      ∀ slot, (Pool.findVictim turns pool).2 = some slot →
        slot < pool.slotCount ∧ (pool.slotTable slot).ref = 0 ∧
          (pool.slotTable slot).loading = false := by
  induction turns generalizing pool with
  | zero => exact ⟨pool.evictSlot, rfl, by simp [Pool.findVictim]⟩
  | succ turns inductionHypothesis =>
      rw [Pool.findVictim]
      split
      · rename_i free
        refine ⟨pool.evictSlot + 1, rfl, ?_⟩
        intro slot found
        obtain rfl := Option.some.inj found
        exact ⟨Nat.mod_lt _ slots, free⟩
      · exact inductionHypothesis { pool with evictSlot := pool.evictSlot + 1 } slots

end Sections

/-- The pin count of the slot that holds the block an action looks up can be raised. -/
def RefFits (system : System) (action : Action) : Prop :=
  ∀ slot ∈ (system.lookedUp action).bind system.pool.logicTable,
    (system.pool.slotTable slot).ref.toNat + 1 < 2 ^ 32

instance (system : System) (action : Action) : Decidable (RefFits system action) :=
  inferInstanceAs (Decidable (∀ slot ∈ (system.lookedUp action).bind system.pool.logicTable, _))

/-- An action without a lookup raises no pin count. -/
theorem refFits_of_none {system : System} {action : Action}
    (nothing : system.lookedUp action = none) : RefFits system action := by
  intro slot member
  rw [nothing] at member
  cases member

/-- Neither does the lookup of a block that is not there. -/
theorem refFits_of_absent {system : System} {action : Action} {block : Nat}
    (looks : system.lookedUp action = some block)
    (absent : system.pool.logicTable block = none) : RefFits system action := by
  intro slot member
  rw [looks, Option.bind_some, absent] at member
  cases member

/-! ## One step -/

section Step

variable {contents : Nat → Page} {system : System} {index : Nat} {request : Request}

/-- The block the request looks up. -/
theorem RefFits.of_request {action : Action} (fits : RefFits system action)
    (found : system.requests[index]? = some request)
    (looks : system.lookedUp action = system.requests[index]?.map Request.block) {slot : Nat}
    (lookup : system.pool.logicTable request.block = some slot) :
    (system.pool.slotTable slot).ref.toNat + 1 < 2 ^ 32 := by
  apply fits slot
  rw [looks, found]
  exact lookup

theorem Consistent.tryPin (consistent : Consistent contents system)
    (fits : RefFits system (.tryPin index))
    (found : system.requests[index]? = some request) (phase : request.phase = .tryPin) :
    Consistent contents (system.tryPin index request) := by
  have idle : request.phase.idle = true := by rw [phase]; rfl
  have submitted : Consistent contents (system.setPhase index request .submit) :=
    consistent.idleChange found idle rfl system.pool.evictSlot
  unfold System.tryPin
  split
  · exact submitted
  · split
    · exact submitted
    · exact consistent
    · rename_i slot ready
      obtain ⟨lookup, inside, notLoading, stored⟩ := examine_ready ready
      exact consistent.pin found idle inside stored notLoading (fits.of_request found rfl lookup)

theorem Consistent.process (consistent : Consistent contents system)
    (fits : RefFits system (.process index))
    (found : system.requests[index]? = some request) (phase : request.phase = .process) :
    Consistent contents (system.process index request) := by
  have idle : request.phase.idle = true := by rw [phase]; rfl
  have failed : ∀ cursor, Consistent contents
      ({ system with pool := { system.pool with evictSlot := cursor } }.setPhase index request
        .failed) := consistent.idleChange found idle rfl
  unfold System.process Pool.processGetBlock
  by_cases refused : request.block ≥ system.pool.totalBlockCount ∨ system.pool.slotCount = 0
  · rw [if_pos refused]
    exact failed system.pool.evictSlot
  · rw [if_neg refused]
    have blockInside : request.block < system.pool.totalBlockCount := by omega
    have slots : 0 < system.pool.slotCount := by omega
    cases examined : system.pool.examine request.block with
    | ready slot =>
        obtain ⟨lookup, inside, notLoading, stored⟩ := examine_ready examined
        exact consistent.pin found idle inside stored notLoading (fits.of_request found rfl lookup)
    | loading => exact consistent
    | missing =>
        have absent := consistent.examine_missing examined
        obtain ⟨cursor, moved, free⟩ := findVictim_spec system.pool.slotCount system.pool slots
        dsimp only
        generalize Pool.findVictim system.pool.slotCount system.pool = result at moved free
        obtain ⟨pool, victim⟩ := result
        obtain rfl : pool = { system.pool with evictSlot := cursor } := moved
        cases victim with
        | none => exact failed cursor
        | some slot =>
            obtain ⟨inside, unpinned, _⟩ := free slot rfl
            -- The cursor is not part of what the invariant says.
            have movedConsistent : Consistent contents
                { system with pool := { system.pool with evictSlot := cursor } } :=
              ⟨consistent.logic, consistent.resident, consistent.refs, consistent.single,
                consistent.owner, consistent.ready, consistent.page, consistent.loaded⟩
            exact movedConsistent.reserve found idle blockInside absent inside unpinned

/-- The number of blocks in a sequential window. -/
private def windowCount (pool : Pool) (block : Nat) : Nat :=
  min pool.slotCount (pool.totalBlockCount - block)

/-- The window is refused, dropped without a replacement, or replaced as a
whole, and the last two only while no slot is pinned. -/
private theorem loadSequentialWindow_cases (contents : Nat → Page) (pool : Pool) (block : Nat)
    (outcome : Pool.ReadOutcome) :
    pool.loadSequentialWindow contents block outcome = (pool, false) ∨
      (block < pool.totalBlockCount ∧ 0 < pool.slotCount) ∧
      (∀ slot, slot < pool.slotCount → (pool.slotTable slot).ref = 0) ∧
      ((∃ pages, pool.loadSequentialWindow contents block outcome =
          ({ pool.clearWindow with pages := pages }, false)) ∨
        pool.loadSequentialWindow contents block outcome =
          (pool.clearWindow.fillWindow contents block (windowCount pool block), true)) := by
  unfold Pool.loadSequentialWindow
  by_cases unusable :
      pool.hasFile = false ∨ block ≥ pool.totalBlockCount ∨ pool.slotCount = 0
  · left
    rw [if_pos unusable]
  · rw [if_neg unusable]
    by_cases anyPinned :
        ((List.range pool.slotCount).any fun slot => (pool.slotTable slot).ref > 0) = true
    · left
      rw [if_pos anyPinned]
    · rw [if_neg anyPinned]
      right
      refine ⟨⟨by omega, by omega⟩, ?_, ?_⟩
      · intro slot inside
        by_contra pinned
        apply anyPinned
        exact List.any_eq_true.mpr
          ⟨slot, List.mem_range.mpr inside, by simpa using UInt32.pos_iff_ne_zero.mpr pinned⟩
      · dsimp only
        by_cases large : min pool.clearWindow.slotCount (pool.clearWindow.totalBlockCount - block) *
            pageSize > 2 ^ 31 - 1
        · rw [if_pos large]
          exact Or.inl ⟨pool.pages, rfl⟩
        · rw [if_neg large]
          cases outcome with
          | failed garbage => exact Or.inl ⟨_, rfl⟩
          | ok => exact Or.inr rfl

/-- While no slot is pinned no request uses one. -/
private theorem Consistent.nobody (consistent : Consistent contents system)
    (unpinned : ∀ slot, slot < system.pool.slotCount → (system.pool.slotTable slot).ref = 0) :
    ∀ request ∈ system.requests, ∀ slot,
      request.phase.holds slot = false ∧ request.phase.loads slot = false := by
  intro request member slot
  by_cases uses : request.phase.holds slot = true ∨ request.phase.loads slot = true
  · have inside := (consistent.owner request member slot uses).1
    have refs := consistent.refs slot inside
    rw [unpinned slot inside, UInt32.toNat_zero] at refs
    rcases uses with holds | loads
    · have := handles_pos member holds
      omega
    · have := inFlight_pos member loads
      omega
  · simpa using uses

/-- A sequential call is made for a block whose load is not in flight. -/
def SequentialClear (system : System) : Action → Prop
  | .sequential block _ => system.pool.examine block ≠ .loading
  | _ => True

/-- A handle for a sequential call: a new request that is pinned at once. -/
private theorem Consistent.appendPinned (consistent : Consistent contents system) {block slot : Nat}
    (inside : slot < system.pool.slotCount)
    (stored : (system.pool.slotTable slot).blockId = some block)
    (notLoading : (system.pool.slotTable slot).loading = false)
    (room : (system.pool.slotTable slot).ref.toNat + 1 < 2 ^ 32) :
    Consistent contents
      { system with
        pool := system.pool.pin slot
        requests := system.requests ++ [⟨block, .sequential, .pinned slot⟩] } := by
  have appended : Consistent contents
      { system with requests := system.requests ++ [⟨block, .sequential, .failed⟩] } :=
    consistent.append rfl
  have found : (system.requests ++ [(⟨block, .sequential, .failed⟩ : Request)])[
      system.requests.length]? = some ⟨block, .sequential, .failed⟩ :=
    List.getElem?_concat_length
  have pinned := appended.pin found rfl inside stored notLoading room
  have requests : (system.requests ++ [(⟨block, .sequential, .failed⟩ : Request)]).set
      system.requests.length ⟨block, .sequential, .pinned slot⟩ =
        system.requests ++ [⟨block, .sequential, .pinned slot⟩] := by
    simp
  unfold System.setPhase at pinned
  rwa [requests] at pinned

theorem Consistent.sequential (consistent : Consistent contents system) {block : Nat}
    (clear : system.pool.examine block ≠ .loading) {outcome : Pool.ReadOutcome}
    (fits : RefFits system (.sequential block outcome)) :
    Consistent contents (system.sequential contents block outcome) := by
  have logic : ∀ block slot, system.pool.logicTable block = some slot →
      slot < system.pool.slotCount ∧ (system.pool.slotTable slot).blockId = some block := by
    intro block slot lookup
    obtain ⟨inside, _, stored⟩ := consistent.logic block slot lookup
    exact ⟨inside, stored⟩
  have failedHere : Consistent contents
      { system with requests := system.requests ++ [⟨block, .sequential, .failed⟩] } :=
    consistent.append rfl
  unfold System.sequential Pool.getSequential
  by_cases resident : ∃ slot, system.pool.logicTable block = some slot
  · -- A resident block: by the guard its slot is not loading.
    obtain ⟨slot, lookup⟩ := resident
    obtain ⟨inside, blockInside, stored⟩ := consistent.logic block slot lookup
    have notLoading : (system.pool.slotTable slot).loading = false := by
      by_contra loading
      exact clear (by simp [Pool.examine, lookup, not_le.mpr inside, loading])
    rw [if_pos blockInside, lookup, Option.filter_some_pos (by simpa using inside)]
    exact consistent.appendPinned inside stored notLoading (fits slot lookup)
  · have absent : system.pool.logicTable block = none := by
      cases lookup : system.pool.logicTable block with
      | none => rfl
      | some slot => exact absurd ⟨slot, lookup⟩ resident
    rw [absent, Option.filter_none, ite_self]
    dsimp only
    rcases loadSequentialWindow_cases contents system.pool block outcome with
      refused | ⟨usable, unpinned, ⟨pages, dropped⟩ | loaded⟩
    · rw [refused]
      exact failedHere
    · rw [dropped]
      have cleared : Consistent contents
          { system with pool := { system.pool.clearWindow with pages := pages } } :=
        Quiet.consistent (quiet_clearWindow contents logic pages) (consistent.nobody unpinned)
      exact cleared.append rfl
    · rw [loaded]
      have slotBound : windowCount system.pool block ≤ system.pool.slotCount := Nat.min_le_left _ _
      have blockBound : block + windowCount system.pool block ≤ system.pool.totalBlockCount := by
        have : windowCount system.pool block ≤ system.pool.totalBlockCount - block :=
          Nat.min_le_right _ _
        omega
      have positive : 0 < windowCount system.pool block :=
        Nat.lt_min.mpr ⟨usable.2, Nat.sub_pos_of_lt usable.1⟩
      have filled : Consistent contents
          { system with
            pool := system.pool.clearWindow.fillWindow contents block
              (windowCount system.pool block) } :=
        Quiet.consistent (quiet_fillWindow contents logic slotBound blockBound)
          (consistent.nobody unpinned)
      have lookup : (system.pool.clearWindow.fillWindow contents block
          (windowCount system.pool block)).logicTable block = some 0 := by
        simp [Pool.fillWindow, positive]
      have entry : (system.pool.clearWindow.fillWindow contents block
          (windowCount system.pool block)).slotTable 0 = ⟨some block, 0, false⟩ := by
        simp [Pool.fillWindow, positive]
      dsimp only
      rw [lookup]
      refine filled.appendPinned usable.2 ?_ ?_ ?_
      · show (Pool.slotTable _ 0).blockId = some block
        rw [entry]
      · show (Pool.slotTable _ 0).loading = false
        rw [entry]
      · show (Pool.slotTable _ 0).ref.toNat + 1 < 2 ^ 32
        rw [entry]
        show 0 + 1 < 2 ^ 32
        decide

/-- Everything a step can do, with what enables it. -/
inductive Stepped (contents : Nat → Page) (system : System) : Action → System → Prop
  | call {block : Nat} {direct : Bool} (request : Request) (idle : request.phase.idle = true) :
      Stepped contents system (.call block direct)
        { system with requests := system.requests ++ [request] }
  | tryPin {index : Nat} {request : Request} (found : system.requests[index]? = some request)
      (phase : request.phase = .tryPin) :
      Stepped contents system (.tryPin index) (system.tryPin index request)
  | submit {index : Nat} {request : Request} (found : system.requests[index]? = some request)
      (phase : request.phase = .submit) :
      Stepped contents system (.submit index)
        { system.setPhase index request .queued with queue := system.queue ++ [index] }
  | pop {index : Nat} {rest : List Nat} {request : Request}
      (found : system.requests[index]? = some request) (phase : request.phase = .queued) :
      Stepped contents system .pop
        { system.setPhase index request .process with queue := rest, worker := some index }
  | process {index : Nat} {request : Request} (found : system.requests[index]? = some request)
      (phase : request.phase = .process) :
      Stepped contents system (.process index) (system.process index request)
  | read {index slot : Nat} {request : Request} (outcome : Pool.ReadOutcome)
      (found : system.requests[index]? = some request) (phase : request.phase = .loading slot) :
      Stepped contents system (.read index outcome)
        ({ system with
          pool := (system.pool.readBlock contents request.block slot outcome).1 }.setPhase index
            request (.loaded slot (system.pool.readBlock contents request.block slot outcome).2))
  | publish {index slot : Nat} {ok : Bool} {request : Request}
      (found : system.requests[index]? = some request) (phase : request.phase = .loaded slot ok) :
      Stepped contents system (.publish index)
        ({ system with pool := system.pool.publish request.block slot ok }.setPhase index request
          (if ok then .pinned slot else .failed))
  | complete : Stepped contents system .complete { system with worker := none }
  | drop {index slot : Nat} {request : Request} (found : system.requests[index]? = some request)
      (phase : request.phase = .pinned slot) :
      Stepped contents system (.drop index)
        ({ system with pool := system.pool.unpin slot }.setPhase index request .dropped)
  | sequential (block : Nat) (outcome : Pool.ReadOutcome) :
      Stepped contents system (.sequential block outcome)
        (system.sequential contents block outcome)

theorem stepped {action : Action} {next : System}
    (taken : system.step contents action = some next) : Stepped contents system action next := by
  cases action with
  | call block direct =>
      obtain rfl := Option.some.inj taken
      refine .call _ ?_
      cases direct <;> rfl
  | tryPin index =>
      dsimp only [System.step] at taken
      split at taken
      · rename_i request found
        split at taken
        · rename_i phase
          obtain rfl := Option.some.inj taken
          exact .tryPin found phase
        · cases taken
      · cases taken
  | submit index =>
      dsimp only [System.step] at taken
      split at taken
      · rename_i request found
        split at taken
        · rename_i enabled
          obtain rfl := Option.some.inj taken
          exact .submit found enabled.1
        · cases taken
      · cases taken
  | pop =>
      dsimp only [System.step] at taken
      split at taken
      · split at taken
        · rename_i request found
          split at taken
          · rename_i phase
            obtain rfl := Option.some.inj taken
            exact .pop found phase
          · cases taken
        · cases taken
      · cases taken
  | process index =>
      dsimp only [System.step] at taken
      split at taken
      · rename_i request found
        split at taken
        · rename_i phase
          obtain rfl := Option.some.inj taken
          exact .process found phase
        · cases taken
      · cases taken
  | read index outcome =>
      dsimp only [System.step] at taken
      split at taken
      · rename_i request found
        split at taken
        · rename_i slot phase
          obtain rfl := Option.some.inj taken
          exact .read outcome found phase
        · cases taken
      · cases taken
  | publish index =>
      dsimp only [System.step] at taken
      split at taken
      · rename_i request found
        split at taken
        · rename_i slot ok phase
          obtain rfl := Option.some.inj taken
          exact .publish found phase
        · cases taken
      · cases taken
  | complete =>
      dsimp only [System.step] at taken
      split at taken
      · split at taken
        · split at taken
          · obtain rfl := Option.some.inj taken
            exact .complete
          · cases taken
        · cases taken
      · cases taken
  | drop index =>
      dsimp only [System.step] at taken
      split at taken
      · rename_i request found
        split at taken
        · rename_i slot phase
          split at taken
          · cases taken
          · obtain rfl := Option.some.inj taken
            exact .drop found phase
        · cases taken
      · cases taken
  | sequential block outcome =>
      obtain rfl := Option.some.inj taken
      exact .sequential block outcome

/-- Every step keeps the invariant under its guards. -/
theorem Consistent.step (consistent : Consistent contents system) {action : Action} {next : System}
    (clear : SequentialClear system action) (fits : RefFits system action)
    (taken : system.step contents action = some next) : Consistent contents next := by
  cases stepped taken with
  | call request idle => exact consistent.append idle
  | tryPin found phase => exact consistent.tryPin fits found phase
  | @submit index request found phase =>
      have moved : Consistent contents (system.setPhase index request .queued) :=
        consistent.idleChange found (by rw [phase]; rfl) rfl system.pool.evictSlot
      exact moved.congr _ _
  | @pop index rest request found phase =>
      have moved : Consistent contents (system.setPhase index request .process) :=
        consistent.idleChange found (by rw [phase]; rfl) rfl system.pool.evictSlot
      exact moved.congr _ _
  | process found phase => exact consistent.process fits found phase
  | read outcome found phase => exact consistent.read found phase outcome
  | @publish _ _ ok _ found phase =>
      cases ok with
      | true => exact consistent.publishOk found phase
      | false => exact consistent.publishFailed found phase
  | complete => exact consistent.congr _ _
  | drop found phase => exact consistent.unpin found phase
  | sequential block outcome => exact consistent.sequential clear fits

end Step

/-! ## No slot in use is given away -/

section Reassignment

variable {contents : Nat → Page} {system : System}

@[simp] theorem pin_blockId (pool : Pool) (slot other : Nat) :
    ((pool.pin slot).slotTable other).blockId = (pool.slotTable other).blockId := by
  rw [Pool.pin]
  by_cases same : other = slot
  · rw [same, Pool.setSlot_self]
  · rw [Pool.setSlot_of_ne pool same]

@[simp] theorem unpin_blockId (pool : Pool) (slot other : Nat) :
    ((pool.unpin slot).slotTable other).blockId = (pool.slotTable other).blockId := by
  rw [Pool.unpin]
  split
  · by_cases same : other = slot
    · rw [same, Pool.setSlot_self]
    · rw [Pool.setSlot_of_ne pool same]
  · rfl

/-- A slot that is pinned or loading keeps its block. The one exception is the
slot of a failed load, which nobody has a handle on: it is emptied. -/
def NotReassigned (system next : System) : Prop :=
  ∀ slot, slot < system.pool.slotCount →
    0 < (system.pool.slotTable slot).ref ∨ (system.pool.slotTable slot).loading = true →
    (next.pool.slotTable slot).blockId = (system.pool.slotTable slot).blockId ∨
      (system.pool.slotTable slot).loading = true ∧ system.handles slot = 0 ∧
        next.pool.slotTable slot = .empty

theorem notReassigned_of_blockId {next : System}
    (same : ∀ slot, (next.pool.slotTable slot).blockId = (system.pool.slotTable slot).blockId) :
    NotReassigned system next :=
  fun slot _ _ => Or.inl (same slot)

theorem notReassigned_tryPin (system : System) (index : Nat) (request : Request) :
    NotReassigned system (system.tryPin index request) := by
  apply notReassigned_of_blockId
  intro slot
  unfold System.tryPin
  split
  · rfl
  · split
    · rfl
    · rfl
    · exact pin_blockId ..

theorem notReassigned_process (system : System) (index : Nat) (request : Request) :
    NotReassigned system (system.process index request) := by
  unfold System.process Pool.processGetBlock
  by_cases refused : request.block ≥ system.pool.totalBlockCount ∨ system.pool.slotCount = 0
  · rw [if_pos refused]
    exact notReassigned_of_blockId fun _ => rfl
  · rw [if_neg refused]
    have slots : 0 < system.pool.slotCount := by omega
    cases examined : system.pool.examine request.block with
    | ready slot => exact notReassigned_of_blockId fun other => pin_blockId ..
    | loading => exact notReassigned_of_blockId fun _ => rfl
    | missing =>
        obtain ⟨cursor, moved, free⟩ := findVictim_spec system.pool.slotCount system.pool slots
        dsimp only
        generalize Pool.findVictim system.pool.slotCount system.pool = result at moved free
        obtain ⟨pool, victim⟩ := result
        obtain rfl : pool = { system.pool with evictSlot := cursor } := moved
        cases victim with
        | none => exact notReassigned_of_blockId fun _ => rfl
        | some victim =>
            -- The victim is neither pinned nor loading, so it is not the slot.
            obtain ⟨_, unpinned, notLoading⟩ := free victim rfl
            intro slot _ used
            left
            have apart : slot ≠ victim := by
              rintro rfl
              rw [unpinned, notLoading] at used
              simp at used
            show (Function.update system.pool.slotTable victim _ slot).blockId = _
            rw [Function.update_of_ne apart]

theorem Consistent.notReassigned_publish (consistent : Consistent contents system)
    {index slot : Nat} {ok : Bool} {request : Request} (phase : Phase)
    (found : system.requests[index]? = some request) (loaded : request.phase = .loaded slot ok) :
    NotReassigned system
      ({ system with pool := system.pool.publish request.block slot ok }.setPhase index request
        phase) := by
  have loads : request.phase.loads slot = true := by
    rw [loaded]
    simp
  have member := List.mem_of_getElem? found
  have inside := (consistent.owner request member slot (Or.inr loads)).1
  obtain ⟨isLoading, _, noHandles⟩ := consistent.loading_of_loads member loads
  intro other _ _
  by_cases same : other = slot
  · subst same
    cases ok with
    | true =>
        left
        show ((system.pool.publish request.block other true).slotTable other).blockId = _
        rw [Pool.publish, if_pos rfl, if_pos inside, Pool.setSlot_self]
    | false =>
        right
        refine ⟨isLoading, noHandles, ?_⟩
        show (system.pool.publish request.block other false).slotTable other = .empty
        rw [Pool.publish, if_neg Bool.false_ne_true]
        split <;> rw [if_pos inside, Pool.setSlot_self]
  · left
    show ((system.pool.publish request.block slot ok).slotTable other).blockId = _
    cases ok with
    | true => rw [Pool.publish, if_pos rfl, if_pos inside, Pool.setSlot_of_ne _ same]
    | false =>
        rw [Pool.publish, if_neg Bool.false_ne_true]
        split <;> rw [if_pos inside, Pool.setSlot_of_ne _ same]

theorem Consistent.notReassigned_sequential (consistent : Consistent contents system) (block : Nat)
    (outcome : Pool.ReadOutcome) :
    NotReassigned system (system.sequential contents block outcome) := by
  unfold System.sequential Pool.getSequential
  dsimp only
  cases (if block < system.pool.totalBlockCount then
      (system.pool.logicTable block).filter fun slot => slot < system.pool.slotCount
    else none) with
  | some slot => exact notReassigned_of_blockId fun other => pin_blockId ..
  | none =>
      rcases loadSequentialWindow_cases contents system.pool block outcome with
        refused | ⟨_, unpinned, _⟩
      · rw [refused]
        exact notReassigned_of_blockId fun _ => rfl
      · -- The window is replaced while no slot is used.
        intro slot inside used
        exfalso
        have refs := consistent.refs slot inside
        have single := consistent.single slot inside
        have free := unpinned slot inside
        rw [free, UInt32.toNat_zero] at refs
        rcases used with pinned | isLoading
        · rw [free] at pinned
          exact absurd pinned (by decide)
        · rw [isLoading] at single
          simp only [Bool.toNat_true] at single
          omega

theorem Consistent.notReassigned (consistent : Consistent contents system) {action : Action}
    {next : System} (taken : system.step contents action = some next) :
    NotReassigned system next := by
  cases stepped taken with
  | call request idle => exact notReassigned_of_blockId fun _ => rfl
  | @tryPin index request found phase => exact notReassigned_tryPin system index request
  | submit found phase => exact notReassigned_of_blockId fun _ => rfl
  | pop found phase => exact notReassigned_of_blockId fun _ => rfl
  | @process index request found phase => exact notReassigned_process system index request
  | @read index slot request outcome found phase =>
      apply notReassigned_of_blockId
      intro other
      obtain ⟨pages, ok, spec, _⟩ :=
        Pool.readBlock_spec contents system.pool request.block slot outcome
      rw [spec]
      rfl
  | publish found phase => exact consistent.notReassigned_publish _ found phase
  | complete => exact notReassigned_of_blockId fun _ => rfl
  | drop found phase => exact notReassigned_of_blockId fun other => unpin_blockId ..
  | sequential block outcome => exact consistent.notReassigned_sequential block outcome

end Reassignment

end MoonShot.Cache
