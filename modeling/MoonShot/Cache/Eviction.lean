import MoonShot.Cache.Runs
import MoonShot.Lib.WrappedScan

/-!
The eviction scan of `ProcessGetBlockLocked`.

Owns when the scan finds a free slot: the cursor is a `u32` that wraps, so with a
number of slots that does not divide `2 ^ 32` the scan passes over some slots when
the wrap falls into it. Owns a run that ends in such a state.
-/

namespace MoonShot.Cache

open MoonShot.Format
open MoonShot.Lib

/-- The slot is neither pinned nor loading. -/
def SlotFree (pool : Pool) (slot : Nat) : Prop :=
  slot < pool.slotCount ∧ (pool.slotTable slot).ref = 0 ∧ (pool.slotTable slot).loading = false

/-- The scan of the pool comes to the slot. -/
def Pool.Scans (pool : Pool) (slot : Nat) : Prop :=
  ScanReaches (2 ^ 32) pool.slotCount pool.evictSlot.toNat slot

/-- The slot of a later turn is the slot of the turn before it, one step on. -/
private theorem scanned_next (pool : Pool) (turn : Nat) :
    scanned (2 ^ 32) pool.slotCount (pool.evictSlot + 1).toNat turn =
      scanned (2 ^ 32) pool.slotCount pool.evictSlot.toNat (turn + 1) := by
  have one : (1 : UInt32).toNat = 1 := rfl
  unfold scanned
  rw [UInt32.toNat_add, one, Nat.mod_add_mod, Nat.add_assoc, Nat.add_comm 1]

theorem findVictim_isSome_iff (turns : Nat) (pool : Pool) (slots : 0 < pool.slotCount) :
    (Pool.findVictim turns pool).2 ≠ none ↔
      ∃ turn, turn < turns ∧
        SlotFree pool (scanned (2 ^ 32) pool.slotCount pool.evictSlot.toNat turn) := by
  induction turns generalizing pool with
  | zero => simp [Pool.findVictim]
  | succ turns inductionHypothesis =>
      have first : scanned (2 ^ 32) pool.slotCount pool.evictSlot.toNat 0 =
          pool.evictSlot.toNat % pool.slotCount := by
        unfold scanned
        rw [Nat.add_zero, Nat.mod_eq_of_lt pool.evictSlot.toNat_lt]
      rw [Pool.findVictim]
      split
      · rename_i free
        rw [← first] at free
        exact ⟨fun _ => ⟨0, Nat.succ_pos _, by rw [first]; exact Nat.mod_lt _ slots, free⟩,
          fun _ => Option.some_ne_none _⟩
      · rename_i taken
        rw [← first] at taken
        rw [inductionHypothesis { pool with evictSlot := pool.evictSlot + 1 } slots]
        constructor
        · rintro ⟨turn, below, free⟩
          change SlotFree pool (scanned _ pool.slotCount (pool.evictSlot + 1).toNat turn) at free
          rw [scanned_next] at free
          exact ⟨turn + 1, Nat.succ_lt_succ below, free⟩
        · rintro ⟨turn, below, free⟩
          cases turn with
          | zero => exact absurd free.2 taken
          | succ turn =>
              refine ⟨turn, Nat.lt_of_succ_lt_succ below, ?_⟩
              change SlotFree pool (scanned _ pool.slotCount (pool.evictSlot + 1).toNat turn)
              rw [scanned_next]
              exact free

/-- A whole scan finds a slot exactly when it comes to a free one. -/
theorem findVictim_isSome_iff_scans (pool : Pool) (slots : 0 < pool.slotCount)
    (word : pool.slotCount ≤ 2 ^ 32) :
    (Pool.findVictim pool.slotCount pool).2 ≠ none ↔
      ∃ slot, SlotFree pool slot ∧ pool.Scans slot := by
  rw [findVictim_isSome_iff pool.slotCount pool slots]
  constructor
  · rintro ⟨turn, below, free⟩
    exact ⟨_, free, (scan_reaches_iff pool.evictSlot.toNat_lt word free.1).mp ⟨turn, below, rfl⟩⟩
  · rintro ⟨slot, free, scans⟩
    obtain ⟨turn, below, rfl⟩ := (scan_reaches_iff pool.evictSlot.toNat_lt word free.1).mpr scans
    exact ⟨turn, below, free⟩

/-- A miss reserves the slot the scan finds, and fails when it finds none. -/
theorem processGetBlock_missing {pool : Pool} {block : Nat} (inside : block < pool.totalBlockCount)
    (slots : 0 < pool.slotCount) (missing : pool.examine block = .missing) :
    (pool.processGetBlock block).2 =
      match (Pool.findVictim pool.slotCount pool).2 with
      | none => .fails
      | some slot => .reserved slot := by
  unfold Pool.processGetBlock
  rw [if_neg (by omega), missing]
  dsimp only
  generalize Pool.findVictim pool.slotCount pool = result
  obtain ⟨moved, victim⟩ := result
  cases victim <;> rfl

/-! ## The number of slots stays -/

theorem Pool.unpin_slotCount (pool : Pool) (slot : Nat) :
    (pool.unpin slot).slotCount = pool.slotCount := by
  unfold Pool.unpin
  split <;> rfl

theorem Pool.publish_slotCount (pool : Pool) (block slot : Nat) (ok : Bool) :
    (pool.publish block slot ok).slotCount = pool.slotCount := by
  unfold Pool.publish
  split
  · split <;> rfl
  · dsimp only
    split <;> split <;> rfl

theorem Pool.processGetBlock_slotCount (pool : Pool) (block : Nat) :
    (pool.processGetBlock block).1.slotCount = pool.slotCount := by
  unfold Pool.processGetBlock
  split
  · rfl
  · rename_i admitted
    cases pool.examine block with
    | ready slot => rfl
    | loading => rfl
    | missing =>
        obtain ⟨cursor, moved, _⟩ := findVictim_spec pool.slotCount pool (by omega)
        dsimp only
        generalize Pool.findVictim pool.slotCount pool = result at moved
        obtain ⟨after, victim⟩ := result
        obtain rfl : after = { pool with evictSlot := cursor } := moved
        cases victim <;> rfl

theorem Pool.loadSequentialWindow_slotCount (contents : Nat → Page) (pool : Pool) (block : Nat)
    (outcome : Pool.ReadOutcome) :
    (pool.loadSequentialWindow contents block outcome).1.slotCount = pool.slotCount := by
  unfold Pool.loadSequentialWindow
  split
  · rfl
  · split
    · rfl
    · dsimp only
      split
      · rfl
      · cases outcome <;> rfl

theorem System.sequential_slotCount (contents : Nat → Page) (system : System) (block : Nat)
    (outcome : Pool.ReadOutcome) :
    (system.sequential contents block outcome).pool.slotCount = system.pool.slotCount := by
  have window := system.pool.loadSequentialWindow_slotCount contents block outcome
  have same : (system.pool.getSequential contents block outcome).1.slotCount =
      system.pool.slotCount := by
    unfold Pool.getSequential
    dsimp only
    split
    · rfl
    · generalize system.pool.loadSequentialWindow contents block outcome = loaded at window
      obtain ⟨pool, ok⟩ := loaded
      cases ok with
      | false => exact window
      | true =>
          dsimp only
          split <;> exact window
  unfold System.sequential
  generalize system.pool.getSequential contents block outcome = result at same
  obtain ⟨pool, handle⟩ := result
  cases handle <;> exact same

theorem step_slotCount {contents : Nat → Page} {system next : System} {action : Action}
    (taken : system.step contents action = some next) :
    next.pool.slotCount = system.pool.slotCount := by
  cases stepped taken with
  | call request idle => rfl
  | @tryPin index request found phase =>
      unfold System.tryPin
      split
      · rfl
      · split <;> rfl
  | submit found phase => rfl
  | pop found phase => rfl
  | @process index request found phase =>
      have same := system.pool.processGetBlock_slotCount request.block
      unfold System.process
      generalize system.pool.processGetBlock request.block = result at same
      obtain ⟨pool, processed⟩ := result
      cases processed <;> exact same
  | @read index slot request outcome found phase =>
      obtain ⟨pages, ok, result, _⟩ :=
        system.pool.readBlock_spec contents request.block slot outcome
      rw [result]
      rfl
  | publish found phase => exact Pool.publish_slotCount _ _ _ _
  | complete => rfl
  | drop found phase => exact Pool.unpin_slotCount _ _
  | sequential block outcome => exact system.sequential_slotCount contents block outcome

section Runs

variable {contents : Nat → Page} {start final : System} {actions : List Action}

/-- In every state that any run reaches: when a slot is free, a miss reserves a free slot
exactly when the scan comes to a free slot, and otherwise it fails. -/
theorem eviction_finds_free_iff (word : start.pool.slotCount < 2 ^ 32)
    (run : GuardedRun (System.step contents) (fun _ _ => True) start actions final) {block : Nat}
    (inside : block < final.pool.totalBlockCount) (missing : final.pool.examine block = .missing)
    (free : ∃ slot, SlotFree final.pool slot) :
    ((∃ slot, SlotFree final.pool slot ∧ (final.pool.processGetBlock block).2 = .reserved slot) ↔
      ∃ slot, SlotFree final.pool slot ∧ final.pool.Scans slot) ∧
    ((¬∃ slot, SlotFree final.pool slot ∧ final.pool.Scans slot) →
      (final.pool.processGetBlock block).2 = .fails) := by
  have count : final.pool.slotCount = start.pool.slotCount :=
    run.invariant (fun _ _ _ before _ taken => (step_slotCount taken).trans before) rfl
  obtain ⟨someSlot, someFree⟩ := free
  have slots : 0 < final.pool.slotCount := Nat.zero_lt_of_lt someFree.1
  have found := findVictim_isSome_iff_scans final.pool slots (by omega)
  obtain ⟨_, _, whatItFinds⟩ := findVictim_spec final.pool.slotCount final.pool slots
  rw [processGetBlock_missing inside slots missing, ← found]
  cases victim : (Pool.findVictim final.pool.slotCount final.pool).2 with
  | none => simp
  | some slot =>
      have isFree : SlotFree final.pool slot := whatItFinds slot victim
      simp [isFree]

end Runs

/-- A file of four blocks behind three slots. -/
def threeSlots : System := .start (Pool.init (fun _ => Page.zero) 4 3)

/-- A direct call for block 3 evicts block 0 from the first slot and keeps its handle; when
block 0 is asked for again, it gets the second slot, to which the scan comes. -/
theorem eviction_finds_free_evicted : ∃ final,
    GuardedRun (System.step fun _ => Page.zero) (fun _ _ => True) threeSlots
      [.call 3 true, .process 0, .read 0 .ok, .publish 0] final ∧
    final.requests = [⟨3, .direct, .pinned 0⟩] ∧
    SlotFree final.pool 1 ∧ (final.pool.processGetBlock 0).2 = .reserved 1 ∧
    ∃ slot, SlotFree final.pool slot ∧ final.pool.Scans slot := by
  have run : GuardedRun (System.step fun _ => Page.zero) (fun _ _ => True) threeSlots
      [.call 3 true, .process 0, .read 0 .ok, .publish 0] _ :=
    .cons trivial rfl (.cons trivial rfl (.cons trivial rfl (.cons trivial rfl (.nil _))))
  have slots : threeSlots.pool.slotCount < 2 ^ 32 := by decide
  have found := (eviction_finds_free_iff slots run (by decide)
    (show Pool.examine _ 0 = .missing from rfl) ⟨1, by decide, rfl, rfl⟩).1
  refine ⟨_, run, rfl, ⟨?_, rfl, rfl⟩, rfl, found.mp ⟨1, ⟨?_, rfl, rfl⟩, rfl⟩⟩
  · decide
  · decide

/-! ## A run that ends in a scan that passes over a free slot -/

/-- A pool of three slots and four blocks at rest: every slot holds a block and is free. -/
structure AtRest (system : System) : Prop where
  slots : system.pool.slotCount = 3
  blocks : system.pool.totalBlockCount = 4
  file : system.pool.hasFile = true
  worker : system.worker = none
  free : ∀ slot, slot < 3 → SlotFree system.pool slot
  filled : ∀ slot, slot < 3 → ∃ block, block < 4 ∧ system.pool.logicTable block = some slot ∧
    (system.pool.slotTable slot).blockId = some block
  consistent : Consistent (fun _ => Page.zero) system

theorem threeSlots_atRest : AtRest threeSlots where
  slots := rfl
  blocks := rfl
  file := rfl
  worker := rfl
  free := by
    intro slot below
    have cases : slot = 0 ∨ slot = 1 ∨ slot = 2 := by omega
    rcases cases with rfl | rfl | rfl <;> exact ⟨by decide, rfl, rfl⟩
  filled := by
    intro slot below
    have cases : slot = 0 ∨ slot = 1 ∨ slot = 2 := by omega
    rcases cases with rfl | rfl | rfl
    · exact ⟨0, by decide, rfl, rfl⟩
    · exact ⟨1, by decide, rfl, rfl⟩
    · exact ⟨2, by decide, rfl, rfl⟩
  consistent := (Started.init 4 3).consistent

/-- Three slots cannot hold four blocks. -/
theorem AtRest.missing {system : System} (rest : AtRest system) :
    ∃ block, block < 4 ∧ system.pool.logicTable block = none := by
  by_contra allHeld
  have held : ∀ block, block < 4 → ∃ slot, system.pool.logicTable block = some slot := by
    intro block below
    cases lookup : system.pool.logicTable block with
    | none => exact absurd ⟨block, below, lookup⟩ allHeld
    | some slot => exact ⟨slot, rfl⟩
  choose! slotOf lookup using held
  have within : ∀ block ∈ Finset.range 4, slotOf block ∈ Finset.range 3 := by
    intro block member
    have inside := (rest.consistent.logic block _ (lookup block (Finset.mem_range.mp member))).1
    rw [rest.slots] at inside
    exact Finset.mem_range.mpr inside
  obtain ⟨first, firstMember, second, secondMember, different, same⟩ :=
    Finset.exists_ne_map_eq_of_card_lt_of_maps_to (by decide) within
  have firstHeld := lookup first (Finset.mem_range.mp firstMember)
  have secondHeld := lookup second (Finset.mem_range.mp secondMember)
  rw [same] at firstHeld
  have firstStored := (rest.consistent.logic first _ firstHeld).2.2
  have secondStored := (rest.consistent.logic second _ secondHeld).2.2
  exact different (Option.some.inj (firstStored.symm.trans secondStored))

/-- A system while a direct call gives the slot of another block to its own: the entry of
the slot, the pages and the phase of the call are those of the moment. -/
private def during (system : System) (block old slot : Nat) (entry : SlotEntry)
    (pages : Nat → Page) (phase : Phase) : System :=
  { system with
    pool :=
      { system.pool with
        evictSlot := system.pool.evictSlot + 1
        logicTable := Function.update (Function.update system.pool.logicTable old none) block
          (some slot)
        slotTable := Function.update system.pool.slotTable slot entry
        pages := pages }
    requests := system.requests ++ [⟨block, .direct, phase⟩] }

section Evict

variable {system : System} {block old slot : Nat} {entry : SlotEntry} {pages : Nat → Page}

private theorem during_request (phase : Phase) :
    (during system block old slot entry pages phase).requests[system.requests.length]? =
      some ⟨block, .direct, phase⟩ :=
  List.getElem?_concat_length

private theorem during_process (rest : AtRest system) (below : block < 4)
    (absent : system.pool.logicTable block = none)
    (candidate : system.pool.evictSlot.toNat % system.pool.slotCount = slot)
    (free : SlotFree system.pool slot) (stored : (system.pool.slotTable slot).blockId = some old) :
    System.step (fun _ => Page.zero)
        { system with requests := system.requests ++ [⟨block, .direct, .process⟩] }
        (.process system.requests.length) =
      some (during system block old slot ⟨some block, 1, true⟩ system.pool.pages
        (.loading slot)) := by
  have missing : system.pool.examine block = .missing := by rw [Pool.examine, absent]
  have victim : Pool.findVictim system.pool.slotCount system.pool =
      ({ system.pool with evictSlot := system.pool.evictSlot + 1 }, some slot) := by
    have three := rest.slots
    generalize turns : system.pool.slotCount = count at three
    subst three
    rw [Pool.findVictim, candidate, if_pos free.2]
  have processed : system.pool.processGetBlock block =
      ((during system block old slot ⟨some block, 1, true⟩ system.pool.pages
        (.loading slot)).pool, .reserved slot) := by
    unfold Pool.processGetBlock
    rw [if_neg (by rw [rest.slots, rest.blocks]; omega), missing, victim]
    dsimp only
    rw [Pool.reserve]
    dsimp only
    rw [stored]
    rfl
  rw [process_last, System.process]
  dsimp only
  rw [processed]
  dsimp only
  rw [System.setPhase]
  dsimp only
  rw [set_last]
  rfl

private theorem during_read (file : system.pool.hasFile = true) :
    System.step (fun _ => Page.zero)
        (during system block old slot entry system.pool.pages (.loading slot))
        (.read system.requests.length .ok) =
      some (during system block old slot entry
        (Function.update system.pool.pages slot Page.zero) (.loaded slot true)) := by
  unfold System.step
  dsimp only
  rw [during_request]
  dsimp only
  rw [Pool.readBlock, if_pos (show (during system block old slot entry system.pool.pages
    (.loading slot)).pool.hasFile = true from file)]
  dsimp only
  rw [System.setPhase]
  unfold during
  dsimp only
  rw [set_last]

private theorem during_publish (slotBelow : slot < system.pool.slotCount) :
    System.step (fun _ => Page.zero)
        (during system block old slot ⟨some block, 1, true⟩ pages (.loaded slot true))
        (.publish system.requests.length) =
      some (during system block old slot ⟨some block, 1, false⟩ pages (.pinned slot)) := by
  unfold System.step
  dsimp only
  rw [during_request]
  dsimp only
  rw [if_pos rfl, Pool.publish, if_pos rfl, if_pos (show slot < (during system block old slot
    ⟨some block, 1, true⟩ pages (.loaded slot true)).pool.slotCount from slotBelow),
    Pool.setSlot, System.setPhase]
  unfold during
  dsimp only
  rw [set_last, Function.update_idem, Function.update_self]

private theorem during_drop (worker : system.worker = none)
    (slotBelow : slot < system.pool.slotCount) :
    System.step (fun _ => Page.zero)
        (during system block old slot ⟨some block, 1, false⟩ pages (.pinned slot))
        (.drop system.requests.length) =
      some (during system block old slot ⟨some block, 0, false⟩ pages .dropped) := by
  have idle : (during system block old slot ⟨some block, 1, false⟩ pages
      (.pinned slot)).worker ≠ some system.requests.length := by
    show system.worker ≠ _
    rw [worker]
    exact (Option.some_ne_none _).symm
  have entryIs : (during system block old slot ⟨some block, 1, false⟩ pages
      (.pinned slot)).pool.slotTable slot = ⟨some block, 1, false⟩ := Function.update_self ..
  unfold System.step
  dsimp only
  rw [during_request]
  dsimp only
  rw [if_neg idle, Pool.unpin, entryIs, if_pos ⟨slotBelow, Nat.one_pos⟩, Pool.setSlot,
    System.setPhase]
  unfold during
  dsimp only
  rw [set_last, Function.update_idem]
  rfl

end Evict

/-- One direct call for a block that is not resident, read, published and dropped. -/
theorem AtRest.evict {system : System} (rest : AtRest system) :
    ∃ actions next,
      GuardedRun (System.step fun _ => Page.zero) NonSequential system actions next ∧
        AtRest next ∧ next.pool.evictSlot = system.pool.evictSlot + 1 := by
  obtain ⟨block, below, absent⟩ := rest.missing
  have three := rest.slots
  have slotBelow : system.pool.evictSlot.toNat % system.pool.slotCount < 3 := by
    rw [three]
    exact Nat.mod_lt _ (by decide)
  obtain ⟨old, oldBelow, oldHeld, oldStored⟩ := rest.filled _ slotBelow
  have slotFree := rest.free _ slotBelow
  generalize candidate : system.pool.evictSlot.toNat % system.pool.slotCount = slot
    at slotBelow oldHeld oldStored slotFree
  let written := Function.update system.pool.pages slot Page.zero
  have looks : System.lookedUp
      { system with requests := system.requests ++ [⟨block, .direct, .process⟩] }
      (.process system.requests.length) = some block :=
    congrArg (Option.map Request.block) List.getElem?_concat_length
  have run : GuardedRun (System.step fun _ => Page.zero) NonSequentialFits system
      [.call block true, .process system.requests.length, .read system.requests.length .ok,
        .publish system.requests.length, .drop system.requests.length]
      (during system block old slot ⟨some block, 0, false⟩ written .dropped) :=
    .cons ⟨rfl, refFits_of_none rfl⟩ rfl (.cons ⟨rfl, refFits_of_absent looks absent⟩
      (during_process rest below absent candidate slotFree oldStored)
      (.cons ⟨rfl, refFits_of_none rfl⟩ (during_read rest.file)
        (.cons ⟨rfl, refFits_of_none rfl⟩ (during_publish slotFree.1)
          (.cons ⟨rfl, refFits_of_none rfl⟩ (during_drop rest.worker slotFree.1) (.nil _)))))
  refine ⟨_, _, run.mono fun _ _ fits => fits.1, ?_, rfl⟩
  have consistent : Consistent (fun _ => Page.zero)
      (during system block old slot ⟨some block, 0, false⟩ written .dropped) :=
    (run.mono sequentialFits_of_nonSequentialFits).invariant
      (fun _ _ _ before fits taken => before.step fits.1 fits.2 taken) rest.consistent
  have apart : old ≠ block := by
    rintro rfl
    rw [absent] at oldHeld
    cases oldHeld
  refine ⟨three, rest.blocks, rest.file, rest.worker, ?_, ?_, consistent⟩
  · intro other otherBelow
    refine ⟨by rw [← three] at otherBelow; exact otherBelow, ?_⟩
    show (Function.update system.pool.slotTable slot _ other).ref = 0 ∧
      (Function.update system.pool.slotTable slot _ other).loading = false
    by_cases same : other = slot
    · rw [same, Function.update_self]
      exact ⟨rfl, rfl⟩
    · rw [Function.update_of_ne same]
      exact (rest.free other otherBelow).2
  · intro other otherBelow
    show ∃ held, held < 4 ∧
      Function.update (Function.update system.pool.logicTable old none) block (some slot) held =
        some other ∧
      (Function.update system.pool.slotTable slot _ other).blockId = some held
    by_cases same : other = slot
    · refine ⟨block, below, ?_, ?_⟩
      · rw [same, Function.update_self]
      · rw [same, Function.update_self]
    · obtain ⟨held, heldBelow, lookup, stored⟩ := rest.filled other otherBelow
      have notNew : held ≠ block := by
        rintro rfl
        rw [absent] at lookup
        cases lookup
      have notOld : held ≠ old := by
        rintro rfl
        rw [oldHeld] at lookup
        exact same (Option.some.inj lookup).symm
      refine ⟨held, heldBelow, ?_, ?_⟩
      · rw [Function.update_of_ne notNew, Function.update_of_ne notOld]
        exact lookup
      · rw [Function.update_of_ne same]
        exact stored

/-- The cursor can be brought anywhere. -/
theorem AtRest.evictions {system : System} (rest : AtRest system) (count : Nat) :
    ∃ actions next,
      GuardedRun (System.step fun _ => Page.zero) NonSequential system actions next ∧
        AtRest next ∧ next.pool.evictSlot = system.pool.evictSlot + UInt32.ofNat count := by
  induction count with
  | zero => exact ⟨[], system, .nil _, rest, (UInt32.add_zero _).symm⟩
  | succ count inductionHypothesis =>
      obtain ⟨first, middle, front, middleRest, middleCursor⟩ := inductionHypothesis
      obtain ⟨second, final, back, finalRest, finalCursor⟩ := middleRest.evict
      refine ⟨first ++ second, final, front.append back, finalRest, ?_⟩
      rw [finalCursor, middleCursor, UInt32.add_assoc, UInt32.ofNat_add]
      rfl

/-- After `2 ^ 32 - 4` evictions the cursor stands in front of its wrap. With the first two
slots pinned, the scan looks at slot 0, wraps, and looks at the slots 0 and 1: it never
comes to slot 2, which is free, and the call for a missing block fails. -/
theorem eviction_misses_free_slot : ∃ actions final block slot,
    GuardedRun (System.step fun _ => Page.zero) (fun _ _ => True) threeSlots actions final ∧
      block < final.pool.totalBlockCount ∧ final.pool.examine block = .missing ∧
      SlotFree final.pool slot ∧ (final.pool.processGetBlock block).2 = .fails := by
  obtain ⟨calls, middle, front, rest, cursor⟩ := threeSlots_atRest.evictions (2 ^ 32 - 4)
  obtain ⟨firstBlock, firstBelow, firstLookup, firstStored⟩ := rest.filled 0 (by decide)
  obtain ⟨secondBlock, secondBelow, secondLookup, secondStored⟩ := rest.filled 1 (by decide)
  have firstFree := rest.free 0 (by decide)
  have secondFree := rest.free 1 (by decide)
  have twoFree := rest.free 2 (by decide)
  obtain ⟨once, pinFirst, onceIs⟩ : ∃ next,
      GuardedRun (System.step fun _ => Page.zero) NonSequential middle
        [.call firstBlock true, .process middle.requests.length] next ∧
      next.pool = middle.pool.pin 0 :=
    ⟨_, pin_held (by rw [rest.blocks]; exact firstBelow) firstLookup firstFree.1 firstStored
      firstFree.2.2, rfl⟩
  have secondApart : once.pool.slotTable 1 = middle.pool.slotTable 1 := by
    rw [onceIs]
    exact Pool.setSlot_of_ne _ (by decide) _
  obtain ⟨twice, pinSecond, twiceIs⟩ : ∃ next,
      GuardedRun (System.step fun _ => Page.zero) NonSequential once
        [.call secondBlock true, .process once.requests.length] next ∧
      next.pool = once.pool.pin 1 := by
    refine ⟨_, pin_held ?_ ?_ ?_ ?_ ?_, rfl⟩
    · rw [onceIs]
      exact rest.blocks.symm ▸ secondBelow
    · rw [onceIs]
      exact secondLookup
    · rw [onceIs]
      exact secondFree.1
    · rw [secondApart]
      exact secondStored
    · rw [secondApart]
      exact secondFree.2.2
  obtain ⟨block, below, absent⟩ := rest.missing
  have run : GuardedRun (System.step fun _ => Page.zero) (fun _ _ => True) threeSlots _ twice :=
    (front.append (pinFirst.append pinSecond)).mono fun _ _ _ => trivial
  have pool : twice.pool = (middle.pool.pin 0).pin 1 := by rw [twiceIs, onceIs]
  have inside : block < twice.pool.totalBlockCount := by
    rw [pool]
    exact rest.blocks.symm ▸ below
  have three : twice.pool.slotCount = 3 := by
    rw [pool]
    exact rest.slots
  have position : twice.pool.evictSlot.toNat = 2 ^ 32 - 1 := by
    rw [pool]
    exact congrArg UInt32.toNat cursor
  have missing : twice.pool.examine block = .missing := by
    have lookup : twice.pool.logicTable block = none := by
      rw [pool]
      exact absent
    rw [Pool.examine, lookup]
  have free : SlotFree twice.pool 2 := by
    have same : twice.pool.slotTable 2 = middle.pool.slotTable 2 := by
      rw [pool, Pool.pin, Pool.setSlot_of_ne _ (by decide), Pool.pin,
        Pool.setSlot_of_ne _ (by decide)]
    refine ⟨by omega, ?_⟩
    rw [same]
    exact twoFree.2
  have pinned : ∀ slot, SlotFree twice.pool slot → slot = 2 := by
    intro slot isFree
    have slotBelow := isFree.1
    have atZero : (twice.pool.slotTable 0).ref ≠ 0 := by
      rw [pool, Pool.pin, Pool.setSlot_of_ne _ (by decide), Pool.pin, Pool.setSlot_self]
      rw [firstFree.2.1]
      show (0 : UInt32) + 1 ≠ 0
      decide
    have atOne : (twice.pool.slotTable 1).ref ≠ 0 := by
      rw [pool, Pool.pin, Pool.setSlot_self]
      show (middle.pool.pin 0 |>.slotTable 1).ref + 1 ≠ 0
      rw [Pool.pin, Pool.setSlot_of_ne _ (by decide), secondFree.2.1]
      decide
    have notZero : slot ≠ 0 := fun same => atZero (same ▸ isFree.2.1)
    have notOne : slot ≠ 1 := fun same => atOne (same ▸ isFree.2.1)
    omega
  refine ⟨_, twice, block, 2, run, inside, missing, free, ?_⟩
  rw [processGetBlock_missing inside (by omega) missing]
  have none_ : (Pool.findVictim twice.pool.slotCount twice.pool).2 = none := by
    by_contra found
    obtain ⟨slot, isFree, scans⟩ :=
      (findVictim_isSome_iff_scans twice.pool (by omega) (by omega)).mp found
    rw [pinned slot isFree, Pool.Scans, three, position] at scans
    revert scans
    decide
  rw [none_]

end MoonShot.Cache
