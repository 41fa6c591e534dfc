import MoonShot.Cache.Safety

/-!
Runs of the block cache.

Owns the states a pool can start from and what holds in every state a run
reaches while no pin count wraps: runs without sequential calls are safe as they
are, runs with sequential calls are safe while no such call hits a block whose
load is in flight. With `2 ^ 32` live handles on a slot its pin count is 0, and
the slot is given away. The sequential branch of `GetBlock` does not look at
`Loading`, and the last section shows the handle it then hands out and how its
pin is lost.
-/

namespace MoonShot.Cache

open MoonShot.Format
open MoonShot.Lib

/-- A pool right after `Init` or `SetPoolMemory`, before any call. -/
inductive Started (contents : Nat → Page) : System → Prop
  | init (blockCount slotCount : Nat) :
      Started contents (.start (Pool.init contents blockCount slotCount))
  | memory (blocks : List Page)
      (agree : ∀ block page, blocks[block]? = some page → contents block = page) :
      Started contents (.start (Pool.setPoolMemory blocks))

theorem Started.consistent {contents : Nat → Page} {system : System}
    (started : Started contents system) : Consistent contents system := by
  cases started with
  | init blockCount slotCount =>
      exact Quiet.consistent (quiet_init contents blockCount slotCount)
        fun request member => absurd member List.not_mem_nil
  | memory blocks agree =>
      exact Quiet.consistent (quiet_setPoolMemory agree)
        fun request member => absurd member List.not_mem_nil

/-! ## Runs without sequential calls -/

/-- The call is not a sequential one. -/
def NonSequential (_ : System) (action : Action) : Prop := action.isSequential = false

/-- The call is not a sequential one and raises no pin count past its width. -/
def NonSequentialFits (system : System) (action : Action) : Prop :=
  NonSequential system action ∧ RefFits system action

/-- A sequential call is made for a block whose load is not in flight, and no
pin count is raised past its width. -/
def SequentialFits (system : System) (action : Action) : Prop :=
  SequentialClear system action ∧ RefFits system action

/-- Loads of a block in flight. -/
def System.loadsOf (system : System) (block : Nat) : Nat :=
  system.requests.countP fun request =>
    request.block = block &&
      match request.phase with
      | .loading _ => true
      | .loaded _ _ => true
      | _ => false

/-- What callers of the pool rely on. -/
structure Safe (contents : Nat → Page) (system : System) : Prop where
  logicToSlot : ∀ block slot, system.pool.logicTable block = some slot →
    slot < system.pool.slotCount ∧ (system.pool.slotTable slot).blockId = some block
  slotToLogic : ∀ slot block, slot < system.pool.slotCount →
    (system.pool.slotTable slot).blockId = some block → system.pool.logicTable block = some slot
  refs : ∀ slot, slot < system.pool.slotCount →
    (system.pool.slotTable slot).ref.toNat = system.handles slot + system.inFlight slot
  oneLoadPerSlot : ∀ slot, slot < system.pool.slotCount → system.inFlight slot ≤ 1
  oneLoadPerBlock : ∀ block, system.loadsOf block ≤ 1
  page : ∀ request ∈ system.requests, ∀ slot, request.phase = .pinned slot →
    slot < system.pool.slotCount ∧ system.pool.pages slot = contents request.block

section Runs

variable {contents : Nat → Page} {system start final : System} {actions : List Action}

/-- Loads of one block are loads of the one slot the block has. -/
theorem Consistent.loadsOf_le (consistent : Consistent contents system) (block : Nat) :
    system.loadsOf block ≤ 1 := by
  by_cases none_ : system.loadsOf block = 0
  · omega
  · obtain ⟨request, member, loads⟩ := List.countP_pos_iff.mp (Nat.pos_of_ne_zero none_)
    simp only [Bool.and_eq_true, decide_eq_true_eq] at loads
    -- The slot some load of the block goes to.
    have slotOf : ∀ other ∈ system.requests, (other.block = block ∧
        (match other.phase with
          | .loading _ => true
          | .loaded _ _ => true
          | _ => false) = true) →
        ∃ slot, other.phase.loads slot = true ∧ slot < system.pool.slotCount ∧
          system.pool.logicTable block = some slot := by
      intro other otherMember otherLoads
      have loadsSome : ∃ slot, other.phase.loads slot = true := by
        cases phase : other.phase with
        | loading slot => exact ⟨slot, by simp⟩
        | loaded slot ok => exact ⟨slot, by simp⟩
        | _ => simp [phase] at otherLoads
      obtain ⟨slot, slotLoads⟩ := loadsSome
      obtain ⟨inside, stored⟩ := consistent.owner other otherMember slot (Or.inr slotLoads)
      refine ⟨slot, slotLoads, inside, ?_⟩
      rw [← otherLoads.1]
      exact consistent.resident slot other.block inside stored
    obtain ⟨slot, _, inside, lookup⟩ := slotOf request member loads
    have bounded : system.loadsOf block ≤ system.inFlight slot := by
      apply List.countP_mono_left
      intro other otherMember otherLoads
      simp only [Bool.and_eq_true, decide_eq_true_eq] at otherLoads
      obtain ⟨otherSlot, slotLoads, _, otherLookup⟩ := slotOf other otherMember otherLoads
      rw [lookup] at otherLookup
      rw [Option.some.inj otherLookup]
      exact slotLoads
    have single := consistent.single slot inside
    have atMost : (system.pool.slotTable slot).loading.toNat ≤ 1 := Bool.toNat_le _
    omega

theorem Consistent.safe (consistent : Consistent contents system) : Safe contents system := by
  refine ⟨?_, consistent.resident, consistent.refs, ?_, consistent.loadsOf_le, ?_⟩
  · intro block slot lookup
    obtain ⟨inside, _, stored⟩ := consistent.logic block slot lookup
    exact ⟨inside, stored⟩
  · intro slot inside
    rw [consistent.single slot inside]
    exact Bool.toNat_le _
  · intro request member slot pinned
    have holds : request.phase.holds slot = true := by simp [pinned]
    obtain ⟨inside, stored⟩ := consistent.owner request member slot (Or.inl holds)
    refine ⟨inside, ?_⟩
    exact consistent.page slot request.block inside stored
      (consistent.ready request member slot holds)

/-- The run lemma: guarded steps keep the invariant. -/
theorem Started.run_consistent (started : Started contents start)
    (run : GuardedRun (System.step contents) SequentialFits start actions final) :
    Consistent contents final :=
  run.invariant (fun _ _ _ consistent fits taken => consistent.step fits.1 fits.2 taken)
    started.consistent

theorem sequentialClear_of_nonSequential (system : System) (action : Action)
    (direct : NonSequential system action) : SequentialClear system action := by
  cases action with
  | sequential block outcome => cases direct
  | _ => trivial

theorem sequentialFits_of_nonSequentialFits (system : System) (action : Action)
    (fits : NonSequentialFits system action) : SequentialFits system action :=
  ⟨sequentialClear_of_nonSequential system action fits.1, fits.2⟩

/-- Every interleaving of calls, reads and drops without a sequential call in
which no pin count wraps is safe in every state it reaches, and no next step
gives a used slot away. -/
theorem cache_safety (started : Started contents start)
    (run : GuardedRun (System.step contents) NonSequentialFits start actions final) :
    Safe contents final ∧
      ∀ action next, NonSequential final action → final.step contents action = some next →
        NotReassigned final next := by
  have consistent := started.run_consistent (run.mono sequentialFits_of_nonSequentialFits)
  refine ⟨consistent.safe, ?_⟩
  intro action next _ taken
  exact consistent.notReassigned taken

/-- A file of two blocks behind one slot, which holds block 0 at first. -/
def oneSlot : System := .start (Pool.init (fun _ => Page.zero) 2 1)

/-- A direct call loads block 1 into the only slot, and a second one finds it there. -/
theorem cache_safety_oneSlot : ∃ final,
    GuardedRun (System.step fun _ => Page.zero) NonSequentialFits oneSlot
      [.call 1 true, .process 0, .read 0 .ok, .publish 0, .call 1 true, .process 1] final ∧
    final.requests = [⟨1, .direct, .pinned 0⟩, ⟨1, .direct, .pinned 0⟩] ∧
    Safe (fun _ => Page.zero) final := by
  have run : GuardedRun (System.step fun _ => Page.zero) NonSequentialFits oneSlot
      [.call 1 true, .process 0, .read 0 .ok, .publish 0, .call 1 true, .process 1] _ :=
    .cons ⟨rfl, by decide⟩ rfl (.cons ⟨rfl, by decide⟩ rfl (.cons ⟨rfl, by decide⟩ rfl
      (.cons ⟨rfl, by decide⟩ rfl (.cons ⟨rfl, by decide⟩ rfl
        (.cons ⟨rfl, by decide⟩ rfl (.nil _))))))
  exact ⟨_, run, rfl, (cache_safety (.init 2 1) run).1⟩

/-- The last request moves on. -/
theorem set_last (system : System) (block : Nat) (phase next : Phase) :
    (system.requests ++ [(⟨block, .direct, phase⟩ : Request)]).set system.requests.length
      ⟨block, .direct, next⟩ = system.requests ++ [⟨block, .direct, next⟩] := by
  rw [List.set_append_right _ _ (Nat.le_refl _), Nat.sub_self, List.set_cons_zero]

/-- The first section of a direct call that was just made. -/
theorem process_last (contents : Nat → Page) (system : System) (block : Nat) :
    System.step contents
        { system with requests := system.requests ++ [⟨block, .direct, .process⟩] }
        (.process system.requests.length) =
      some (System.process
        { system with requests := system.requests ++ [⟨block, .direct, .process⟩] }
        system.requests.length ⟨block, .direct, .process⟩) := by
  have found : (system.requests ++ [(⟨block, .direct, .process⟩ : Request)])[
      system.requests.length]? = some ⟨block, .direct, .process⟩ := List.getElem?_concat_length
  unfold System.step
  dsimp only
  rw [found]
  dsimp only
  rw [if_pos rfl]

/-- A direct call for a block that a slot holds pins the slot and nothing else. -/
theorem pin_held {block slot : Nat} (inside : block < system.pool.totalBlockCount)
    (lookup : system.pool.logicTable block = some slot) (below : slot < system.pool.slotCount)
    (stored : (system.pool.slotTable slot).blockId = some block)
    (ready : (system.pool.slotTable slot).loading = false) :
    GuardedRun (System.step contents) NonSequential system
      [.call block true, .process system.requests.length]
      { system with
        pool := system.pool.pin slot
        requests := system.requests ++ [⟨block, .direct, .pinned slot⟩] } := by
  have examined : system.pool.examine block = .ready slot := by
    rw [Pool.examine, lookup]
    dsimp only
    rw [if_neg (Nat.not_le_of_lt below), ready, if_neg (by decide), if_pos stored]
  have processed : system.pool.processGetBlock block = (system.pool.pin slot, .pinned slot) := by
    rw [Pool.processGetBlock, if_neg (by omega), examined]
  have taken := process_last contents system block
  rw [System.process] at taken
  dsimp only at taken
  rw [processed] at taken
  dsimp only at taken
  rw [System.setPhase] at taken
  dsimp only at taken
  rw [set_last] at taken
  exact .cons rfl rfl (.cons rfl taken (.nil _))

/-- A direct call for a block that is not there reserves the slot the scan finds. -/
theorem miss_reserves {after : Pool} {block slot : Nat}
    (processed : system.pool.processGetBlock block = (after, .reserved slot)) :
    GuardedRun (System.step contents) NonSequential system
      [.call block true, .process system.requests.length]
      { system with
        pool := after
        requests := system.requests ++ [⟨block, .direct, .loading slot⟩] } := by
  have taken := process_last contents system block
  rw [System.process] at taken
  dsimp only at taken
  rw [processed] at taken
  dsimp only at taken
  rw [System.setPhase] at taken
  dsimp only at taken
  rw [set_last] at taken
  exact .cons rfl rfl (.cons rfl taken (.nil _))

/-- Any number of such calls, one after the other. -/
theorem pins_held {block slot : Nat} (inside : block < system.pool.totalBlockCount)
    (lookup : system.pool.logicTable block = some slot) (below : slot < system.pool.slotCount)
    (stored : (system.pool.slotTable slot).blockId = some block)
    (ready : (system.pool.slotTable slot).loading = false) (count : Nat) :
    ∃ actions, GuardedRun (System.step contents) NonSequential system actions
      { system with
        pool := system.pool.setSlot slot
          { system.pool.slotTable slot with
            ref := (system.pool.slotTable slot).ref + UInt32.ofNat count }
        requests := system.requests ++ List.replicate count ⟨block, .direct, .pinned slot⟩ } := by
  induction count with
  | zero =>
      have same : system.pool.setSlot slot
          { system.pool.slotTable slot with
            ref := (system.pool.slotTable slot).ref + UInt32.ofNat 0 } = system.pool := by
        have noPins : (system.pool.slotTable slot).ref + UInt32.ofNat 0 =
            (system.pool.slotTable slot).ref := UInt32.add_zero _
        rw [noPins, Pool.setSlot, Function.update_eq_self]
      rw [same, List.replicate_zero, List.append_nil]
      exact ⟨[], .nil _⟩
  | succ count inductionHypothesis =>
      obtain ⟨actions, run⟩ := inductionHypothesis
      have atSlot := Pool.setSlot_self system.pool slot
        { system.pool.slotTable slot with
          ref := (system.pool.slotTable slot).ref + UInt32.ofNat count }
      have one := @pin_held contents
        { system with
          pool := system.pool.setSlot slot
            { system.pool.slotTable slot with
              ref := (system.pool.slotTable slot).ref + UInt32.ofNat count }
          requests := system.requests ++ List.replicate count ⟨block, .direct, .pinned slot⟩ }
        block slot inside lookup below ((congrArg SlotEntry.blockId atSlot).trans stored)
        ((congrArg SlotEntry.loading atSlot).trans ready)
      have raised : (system.pool.slotTable slot).ref + UInt32.ofNat count + 1 =
          (system.pool.slotTable slot).ref + UInt32.ofNat (count + 1) := by
        rw [UInt32.add_assoc, UInt32.ofNat_add]
        rfl
      dsimp only at one
      rw [Pool.pin_setSlot, List.append_assoc, ← List.replicate_succ'] at one
      dsimp only at one
      rw [raised] at one
      exact ⟨_, run.append one⟩

/-- Direct calls for the block in the only slot, as many as the pin count wraps at: the pin
count is 0 with that many live handles on the slot, and a call for the other block is given
the slot. -/
theorem wrapped_ref {count : Nat} (wraps : UInt32.ofNat count = 0) : ∃ actions final next,
    GuardedRun (System.step fun _ => Page.zero) NonSequential oneSlot actions final ∧
    final.handles 0 = count ∧ final.pool.slotTable 0 = ⟨some 0, 0, false⟩ ∧
    0 < final.pool.slotCount ∧
    GuardedRun (System.step fun _ => Page.zero) NonSequential final
      [.call 1 true, .process final.requests.length] next ∧
    next.handles 0 = count ∧ (next.pool.slotTable 0).blockId = some 1 := by
  obtain ⟨actions, run⟩ := @pins_held (fun _ => Page.zero) oneSlot 0 0 (by decide) rfl (by decide)
    rfl rfl count
  have noPins : (oneSlot.pool.slotTable 0).ref + UInt32.ofNat count = 0 := by
    rw [wraps]
    rfl
  rw [noPins] at run
  have held : (oneSlot.requests ++ List.replicate count
      (⟨0, .direct, .pinned 0⟩ : Request)).countP (fun request => request.phase.holds 0) =
        count := by
    have none_ : oneSlot.requests = [] := rfl
    rw [none_, List.nil_append, List.countP_replicate, if_pos (by simp)]
  have processed : (oneSlot.pool.setSlot 0 ⟨some 0, 0, false⟩).processGetBlock 1 =
      (({ oneSlot.pool.setSlot 0 ⟨some 0, 0, false⟩ with
        evictSlot := oneSlot.pool.evictSlot + 1 } : Pool).reserve 1 0, .reserved 0) := rfl
  have slots : 0 < oneSlot.pool.slotCount := by decide
  refine ⟨actions, _, _, run, held, Pool.setSlot_self .., slots, miss_reserves processed, ?_,
    congrArg SlotEntry.blockId (Pool.setSlot_self ..)⟩
  unfold System.handles
  rw [List.countP_append, held]
  rfl

/-- With `2 ^ 32` live handles on a slot its pin count is 0, and the slot is given away. -/
theorem ref_wraps_under_handles : ∃ actions final next,
    Started (fun _ => Page.zero) oneSlot ∧
    GuardedRun (System.step fun _ => Page.zero) NonSequential oneSlot actions final ∧
    final.handles 0 = 2 ^ 32 ∧ final.pool.slotTable 0 = ⟨some 0, 0, false⟩ ∧
    ¬Safe (fun _ => Page.zero) final ∧
    GuardedRun (System.step fun _ => Page.zero) NonSequential final
      [.call 1 true, .process final.requests.length] next ∧
    next.handles 0 = 2 ^ 32 ∧ (next.pool.slotTable 0).blockId = some 1 := by
  have wraps : UInt32.ofNat (2 ^ 32) = 0 := by decide
  obtain ⟨actions, final, next, run, held, entry, inside, given, still, block⟩ := wrapped_ref wraps
  refine ⟨actions, final, next, .init 2 1, run, held, entry, ?_, given, still, block⟩
  intro safe
  have counted := safe.refs 0 inside
  have none_ : UInt32.toNat 0 = 0 := rfl
  rw [held, entry, none_] at counted
  omega

/-! ## Runs with sequential calls -/

/-- Every live handle of a sequential call is on a slot that is not loading, is
pinned and holds the block of the call. -/
def SequentialHandlesPinned (system : System) : Prop :=
  ∀ request ∈ system.requests, request.mode = .sequential →
    ∀ slot, request.phase = .pinned slot →
      (system.pool.slotTable slot).loading = false ∧ 0 < (system.pool.slotTable slot).ref ∧
        (system.pool.slotTable slot).blockId = some request.block

theorem Consistent.sequentialHandlesPinned (consistent : Consistent contents system) :
    SequentialHandlesPinned system := by
  intro request member _ slot pinned
  have holds : request.phase.holds slot = true := by simp [pinned]
  obtain ⟨inside, stored⟩ := consistent.owner request member slot (Or.inl holds)
  have refs := consistent.refs slot inside
  have alive := handles_pos member holds
  have positive : 0 < (system.pool.slotTable slot).ref :=
    UInt32.lt_iff_toNat_lt.mpr (by rw [UInt32.toNat_zero]; omega)
  exact ⟨consistent.ready request member slot holds, positive, stored⟩

/-- A live handle stays as it is until it is dropped. -/
theorem handle_until_drop {action : Action} {next : System}
    (taken : system.step contents action = some next) {index slot : Nat} {request : Request}
    (found : system.requests[index]? = some request) (pinned : request.phase = .pinned slot) :
    next.requests[index]? = some request ∨ action = .drop index := by
  -- A step on one request leaves the others alone, and only `drop` starts at a handle.
  have elsewhere : ∀ other before phase, system.requests[other]? = some before →
      before.phase ≠ .pinned slot →
      (system.requests.set other { before with phase := phase })[index]? = some request := by
    intro other before phase foundOther different
    rw [List.getElem?_set_ne, found]
    rintro rfl
    rw [found] at foundOther
    rw [← Option.some.inj foundOther] at different
    exact different pinned
  have appended : ∀ added, (system.requests ++ [added])[index]? = some request := by
    intro added
    rw [List.getElem?_append_left (List.getElem?_eq_some_iff.mp found).1, found]
  cases stepped taken with
  | call added idle => exact Or.inl (appended added)
  | tryPin foundOther phase =>
      left
      have moved := fun next => elsewhere _ _ next foundOther (by rw [phase]; nofun)
      unfold System.tryPin
      split
      · exact moved .submit
      · split
        · exact moved .submit
        · exact found
        · exact moved (.pinned _)
  | submit foundOther phase => exact Or.inl (elsewhere _ _ _ foundOther (by rw [phase]; nofun))
  | pop foundOther phase => exact Or.inl (elsewhere _ _ _ foundOther (by rw [phase]; nofun))
  | process foundOther phase =>
      left
      have moved := fun next => elsewhere _ _ next foundOther (by rw [phase]; nofun)
      unfold System.process
      split
      · exact moved (.pinned _)
      · exact moved (.loading _)
      · exact found
      · exact moved .failed
  | read outcome foundOther phase =>
      exact Or.inl (elsewhere _ _ _ foundOther (by rw [phase]; nofun))
  | publish foundOther phase =>
      exact Or.inl (elsewhere _ _ _ foundOther (by rw [phase]; nofun))
  | complete => exact Or.inl found
  | @drop other held before foundOther phase =>
      by_cases same : other = index
      · exact Or.inr (by rw [same])
      · left
        show (system.requests.set other _)[index]? = some request
        rw [List.getElem?_set_ne same, found]
  | sequential block outcome =>
      left
      unfold System.sequential
      split
      · exact appended _
      · exact appended _

/-- A block whose load is in flight has a slot that is loading. -/
theorem examine_loading {pool : Pool} {block : Nat} (loading : pool.examine block = .loading) :
    ∃ slot, pool.logicTable block = some slot ∧ (pool.slotTable slot).loading = true := by
  unfold Pool.examine at loading
  cases lookup : pool.logicTable block with
  | none =>
      rw [lookup] at loading
      cases loading
  | some slot =>
      rw [lookup] at loading
      dsimp only at loading
      split at loading
      · cases loading
      · split at loading
        · exact ⟨slot, rfl, ‹_›⟩
        · split at loading <;> cases loading

/-- A sequential call for a block that has a slot takes that slot, in whatever state it is. -/
theorem Consistent.sequential_resident (consistent : Consistent contents system)
    {block slot : Nat} (lookup : system.pool.logicTable block = some slot)
    (outcome : Pool.ReadOutcome) :
    system.sequential contents block outcome =
      { system with
        pool := system.pool.pin slot
        requests := system.requests ++ [⟨block, .sequential, .pinned slot⟩] } := by
  obtain ⟨slotInside, inside, _⟩ := consistent.logic block slot lookup
  unfold System.sequential Pool.getSequential
  dsimp only
  rw [if_pos inside, lookup, Option.filter_some_pos (by simpa using slotInside)]

/-- A slot that is loading, or whose pin count is at its last value, holds no new handle. -/
theorem Consistent.takes_unfit (consistent : Consistent contents system) {block slot : Nat}
    (lookup : system.pool.logicTable block = some slot)
    (unfit : (system.pool.slotTable slot).loading = true ∨
      ¬(system.pool.slotTable slot).ref.toNat + 1 < 2 ^ 32) (outcome : Pool.ReadOutcome) :
    ¬SequentialHandlesPinned (system.sequential contents block outcome) := by
  rw [consistent.sequential_resident lookup outcome]
  intro allPinned
  obtain ⟨unset, positive, _⟩ :=
    allPinned ⟨block, .sequential, .pinned slot⟩ (by simp) rfl slot rfl
  have atSlot : (system.pool.pin slot).slotTable slot =
      { system.pool.slotTable slot with ref := (system.pool.slotTable slot).ref + 1 } :=
    Pool.setSlot_self ..
  rw [atSlot] at unset positive
  dsimp only at unset positive
  rcases unfit with loading | full
  · rw [loading] at unset
    cases unset
  · have below := (system.pool.slotTable slot).ref.toNat_lt
    have wrapped : (system.pool.slotTable slot).ref.toNat + 1 = 2 ^ 32 := by omega
    rw [UInt32.lt_iff_toNat_lt, UInt32.toNat_add, UInt32.toNat_one, wrapped,
      Nat.mod_self] at positive
    exact Nat.lt_irrefl 0 positive

/-- While every sequential call is made for a block whose load is not in flight
and no pin count wraps, its handles are never on a loading slot and keep their
pin until they are dropped. A sequential call outside the condition breaks this
at once. -/
theorem sequential_handles_pinned (started : Started contents start)
    (run : GuardedRun (System.step contents) SequentialFits start actions final) :
    SequentialHandlesPinned final ∧
      (∀ action next index slot request, final.step contents action = some next →
        final.requests[index]? = some request → request.phase = .pinned slot →
        next.requests[index]? = some request ∨ action = .drop index) ∧
      ∀ block outcome, ¬SequentialFits final (.sequential block outcome) →
        ∃ next, final.step contents (.sequential block outcome) = some next ∧
          ¬SequentialHandlesPinned next := by
  have consistent := started.run_consistent run
  refine ⟨consistent.sequentialHandlesPinned, ?_, ?_⟩
  · intro action next index slot request taken found pinned
    exact handle_until_drop taken found pinned
  · intro block outcome hit
    refine ⟨_, rfl, ?_⟩
    by_cases clear : final.pool.examine block = .loading
    · obtain ⟨slot, lookup, loading⟩ := examine_loading clear
      exact consistent.takes_unfit lookup (Or.inl loading) outcome
    · have full : ¬RefFits final (.sequential block outcome) := fun fits => hit ⟨clear, fits⟩
      have wraps : ∃ slot, final.pool.logicTable block = some slot ∧
          ¬(final.pool.slotTable slot).ref.toNat + 1 < 2 ^ 32 := by
        by_contra allFit
        apply full
        intro slot lookup
        by_contra wrapped
        exact allFit ⟨slot, lookup, wrapped⟩
      obtain ⟨slot, lookup, wrapped⟩ := wraps
      exact consistent.takes_unfit lookup (Or.inr wrapped) outcome

/-- A sequential call pins block 1 after its load into the only slot is done. -/
theorem sequential_handles_pinned_oneSlot : ∃ final,
    GuardedRun (System.step fun _ => Page.zero) SequentialFits oneSlot
      [.call 1 true, .process 0, .read 0 .ok, .publish 0, .sequential 1 .ok] final ∧
    final.requests = [⟨1, .direct, .pinned 0⟩, ⟨1, .sequential, .pinned 0⟩] ∧
    SequentialHandlesPinned final := by
  have run : GuardedRun (System.step fun _ => Page.zero) SequentialFits oneSlot
      [.call 1 true, .process 0, .read 0 .ok, .publish 0, .sequential 1 .ok] _ :=
    .cons ⟨trivial, by decide⟩ rfl (.cons ⟨trivial, by decide⟩ rfl
      (.cons ⟨trivial, by decide⟩ rfl (.cons ⟨trivial, by decide⟩ rfl
        (.cons ⟨show Pool.examine _ 1 ≠ .loading by decide, by decide⟩ rfl (.nil _)))))
  exact ⟨_, run, rfl, (sequential_handles_pinned (.init 2 1) run).1⟩

/-- A direct call has reserved the slot for block 1 and its read is in flight
when a sequential call for block 1 takes a handle on that slot; the read then
fails and the slot is emptied under the live handle. -/
theorem sequential_handle_loses_pin : ∃ middle final,
    GuardedRun (System.step fun _ => Page.zero) (fun _ _ => True) oneSlot
      [.call 1 true, .process 0, .sequential 1 .ok] middle ∧
    middle.requests = [⟨1, .direct, .loading 0⟩, ⟨1, .sequential, .pinned 0⟩] ∧
    (middle.pool.slotTable 0).loading = true ∧
    GuardedRun (System.step fun _ => Page.zero) (fun _ _ => True) middle
      [.read 0 (.failed fun _ => Page.zero), .publish 0] final ∧
    final.requests = [⟨1, .direct, .failed⟩, ⟨1, .sequential, .pinned 0⟩] ∧
    final.pool.slotTable 0 = .empty ∧
    ¬SequentialHandlesPinned middle ∧ ¬SequentialHandlesPinned final := by
  have first : GuardedRun (System.step fun _ => Page.zero) (fun _ _ => True) oneSlot
      [.call 1 true, .process 0, .sequential 1 .ok] _ :=
    .cons trivial rfl (.cons trivial rfl (.cons trivial rfl (.nil _)))
  refine ⟨_, _, first, rfl, by decide, .cons trivial rfl (.cons trivial rfl (.nil _)), rfl, rfl,
    ?_, ?_⟩
  · intro allPinned
    have unset := (allPinned ⟨1, .sequential, .pinned 0⟩ (by decide) rfl 0 rfl).1
    exact absurd unset (by decide)
  · intro allPinned
    have positive := (allPinned ⟨1, .sequential, .pinned 0⟩ (by decide) rfl 0 rfl).2.1
    exact absurd positive (by decide)

end Runs

end MoonShot.Cache
