import MoonShot.Cache.System

/-!
The invariant of the block cache.

Owns `Consistent`, which ties the two tables to each other, to the requests and
to the file, and one lemma for each kind of change a step can make: a request
moves on without a slot, a new request comes, a slot is pinned, reserved, read
into, published, given up or released, and the whole window is replaced while
nobody uses it.

Does not own the steps themselves: see `MoonShot.Cache.Safety`.
-/

namespace MoonShot.Cache

open MoonShot.Format
open MoonShot.Lib

/-- The tables agree with each other, with the requests and with the file. -/
structure Consistent (contents : Nat → Page) (system : System) : Prop where
  logic : ∀ block slot, system.pool.logicTable block = some slot →
    slot < system.pool.slotCount ∧ block < system.pool.totalBlockCount ∧
      (system.pool.slotTable slot).blockId = some block
  resident : ∀ slot block, slot < system.pool.slotCount →
    (system.pool.slotTable slot).blockId = some block → system.pool.logicTable block = some slot
  refs : ∀ slot, slot < system.pool.slotCount →
    (system.pool.slotTable slot).ref.toNat = system.handles slot + system.inFlight slot
  single : ∀ slot, slot < system.pool.slotCount →
    system.inFlight slot = (system.pool.slotTable slot).loading.toNat
  owner : ∀ request ∈ system.requests, ∀ slot,
    request.phase.holds slot = true ∨ request.phase.loads slot = true →
    slot < system.pool.slotCount ∧ (system.pool.slotTable slot).blockId = some request.block
  ready : ∀ request ∈ system.requests, ∀ slot, request.phase.holds slot = true →
    (system.pool.slotTable slot).loading = false
  page : ∀ slot block, slot < system.pool.slotCount →
    (system.pool.slotTable slot).blockId = some block →
    (system.pool.slotTable slot).loading = false → system.pool.pages slot = contents block
  loaded : ∀ request ∈ system.requests, ∀ slot, request.phase = .loaded slot true →
    system.pool.pages slot = contents request.block

/-! ## Counting after a change of one request -/

section Counting

variable {system : System} {index : Nat} {request : Request}

theorem handles_setPhase (found : system.requests[index]? = some request) (phase : Phase)
    (slot : Nat) :
    (system.setPhase index request phase).handles slot + (request.phase.holds slot).toNat =
      system.handles slot + (phase.holds slot).toNat :=
  countP_set_add system.requests (fun request => request.phase.holds slot) found _

theorem inFlight_setPhase (found : system.requests[index]? = some request) (phase : Phase)
    (slot : Nat) :
    (system.setPhase index request phase).inFlight slot + (request.phase.loads slot).toNat =
      system.inFlight slot + (phase.loads slot).toNat :=
  countP_set_add system.requests (fun request => request.phase.loads slot) found _

theorem mem_setPhase {phase : Phase} {other : Request}
    (member : other ∈ (system.setPhase index request phase).requests) :
    other = { request with phase := phase } ∨ other ∈ system.requests :=
  (List.mem_or_eq_of_mem_set member).symm

theorem handles_pos {other : Request} {slot : Nat} (member : other ∈ system.requests)
    (holds : other.phase.holds slot = true) : 0 < system.handles slot :=
  List.countP_pos_iff.mpr ⟨other, member, holds⟩

theorem inFlight_pos {other : Request} {slot : Nat} (member : other ∈ system.requests)
    (loads : other.phase.loads slot = true) : 0 < system.inFlight slot :=
  List.countP_pos_iff.mpr ⟨other, member, loads⟩

end Counting

/-! ## The two tables -/

/-- What the two tables say of each other. -/
structure TablesAgree (pool : Pool) : Prop where
  logic : ∀ block slot, pool.logicTable block = some slot →
    slot < pool.slotCount ∧ block < pool.totalBlockCount ∧
      (pool.slotTable slot).blockId = some block
  resident : ∀ slot block, slot < pool.slotCount →
    (pool.slotTable slot).blockId = some block → pool.logicTable block = some slot

section Tables

variable {contents : Nat → Page} {system : System} {pool : Pool} {block slot : Nat}

theorem Consistent.tables (consistent : Consistent contents system) : TablesAgree system.pool :=
  ⟨consistent.logic, consistent.resident⟩

theorem reserve_self (pool : Pool) (block slot : Nat) :
    (pool.reserve block slot).slotTable slot = ⟨some block, 1, true⟩ := Function.update_self ..

theorem reserve_of_ne (pool : Pool) (block : Nat) {other : Nat} (apart : other ≠ slot) :
    (pool.reserve block slot).slotTable other = pool.slotTable other :=
  Function.update_of_ne apart ..

theorem reserve_logic_self (pool : Pool) (block slot : Nat) :
    (pool.reserve block slot).logicTable block = some slot := Function.update_self ..

/-- The block the slot held before is forgotten. -/
theorem reserve_logic_of_ne (pool : Pool) (slot : Nat) {other : Nat} (apart : other ≠ block) :
    (pool.reserve block slot).logicTable other =
      if (pool.slotTable slot).blockId = some other then none else pool.logicTable other := by
  simp only [Pool.reserve]
  rw [Function.update_of_ne apart]
  cases occupied : (pool.slotTable slot).blockId with
  | none => simp
  | some old =>
      by_cases same : other = old
      · simp [same]
      · simp [Function.update_of_ne same, Ne.symm same]

theorem TablesAgree.reserve (agree : TablesAgree pool) (blockInside : block < pool.totalBlockCount)
    (absent : pool.logicTable block = none) (inside : slot < pool.slotCount) :
    TablesAgree (pool.reserve block slot) := by
  constructor
  · intro other target lookup
    show target < pool.slotCount ∧ other < pool.totalBlockCount ∧ _
    by_cases own : other = block
    · rw [own, reserve_logic_self] at lookup
      obtain rfl := Option.some.inj lookup
      rw [own, reserve_self]
      exact ⟨inside, blockInside, rfl⟩
    · rw [reserve_logic_of_ne pool slot own] at lookup
      split at lookup
      · cases lookup
      · rename_i notOld
        obtain ⟨targetInside, lookupInside, stored⟩ := agree.logic other target lookup
        have different : target ≠ slot := by
          rintro rfl
          exact notOld stored
        rw [reserve_of_ne pool block different]
        exact ⟨targetInside, lookupInside, stored⟩
  · intro target other targetInside stored
    by_cases same : target = slot
    · subst same
      rw [reserve_self] at stored
      rw [← Option.some.inj stored, reserve_logic_self]
    · rw [reserve_of_ne pool block same] at stored
      have lookup := agree.resident target other targetInside stored
      have notOwn : other ≠ block := by
        rintro rfl
        rw [absent] at lookup
        cases lookup
      have notOld : (pool.slotTable slot).blockId ≠ some other := by
        intro old
        have held := agree.resident slot other inside old
        rw [lookup] at held
        exact same (Option.some.inj held)
      rw [reserve_logic_of_ne pool slot notOwn, if_neg notOld]
      exact lookup

/-- Both tables forget a block. -/
theorem TablesAgree.forget (agree : TablesAgree pool) (inside : slot < pool.slotCount)
    (held : (pool.slotTable slot).blockId = some block) :
    TablesAgree
      { pool with
        logicTable := Function.update pool.logicTable block none
        slotTable := Function.update pool.slotTable slot .empty } := by
  have lookup := agree.resident slot block inside held
  constructor
  · intro other target found
    change Function.update pool.logicTable block none other = some target at found
    by_cases own : other = block
    · rw [own, Function.update_self] at found
      cases found
    · rw [Function.update_of_ne own] at found
      obtain ⟨targetInside, otherInside, stored⟩ := agree.logic other target found
      have different : target ≠ slot := by
        rintro rfl
        rw [held] at stored
        exact own (Option.some.inj stored).symm
      refine ⟨targetInside, otherInside, ?_⟩
      show (Function.update pool.slotTable slot .empty target).blockId = some other
      rw [Function.update_of_ne different]
      exact stored
  · intro target other targetInside stored
    change (Function.update pool.slotTable slot .empty target).blockId = some other at stored
    show Function.update pool.logicTable block none other = some target
    by_cases same : target = slot
    · rw [same, Function.update_self] at stored
      cases stored
    · rw [Function.update_of_ne same] at stored
      have old := agree.resident target other targetInside stored
      have notOwn : other ≠ block := by
        rintro rfl
        rw [lookup] at old
        exact same (Option.some.inj old).symm
      rw [Function.update_of_ne notOwn]
      exact old

end Tables

/-! ## One lemma for each kind of change -/

section Changes

variable {contents : Nat → Page} {system : System} {index : Nat} {request : Request}

/-- The queue and the block thread are not part of what the invariant says. -/
theorem Consistent.congr (consistent : Consistent contents system) (queue : List Nat)
    (worker : Option Nat) : Consistent contents ⟨system.pool, system.requests, queue, worker⟩ :=
  ⟨consistent.logic, consistent.resident, consistent.refs, consistent.single, consistent.owner,
    consistent.ready, consistent.page, consistent.loaded⟩

/-- A request that holds and loads nothing goes to another such phase; the
eviction cursor may move. -/
theorem Consistent.idleChange (consistent : Consistent contents system)
    (found : system.requests[index]? = some request) (before : request.phase.idle = true)
    {phase : Phase} (after : phase.idle = true) (cursor : UInt32) :
    Consistent contents
      ({ system with pool := { system.pool with evictSlot := cursor } }.setPhase index request
        phase) := by
  have handles : ∀ slot, (system.setPhase index request phase).handles slot =
      system.handles slot := by
    intro slot
    have count := handles_setPhase found phase slot
    rw [Phase.holds_of_idle before, Phase.holds_of_idle after] at count
    exact count
  have inFlight : ∀ slot, (system.setPhase index request phase).inFlight slot =
      system.inFlight slot := by
    intro slot
    have count := inFlight_setPhase found phase slot
    rw [Phase.loads_of_idle before, Phase.loads_of_idle after] at count
    exact count
  refine ⟨consistent.logic, consistent.resident, ?_, ?_, ?_, ?_, consistent.page, ?_⟩
  · intro slot inside
    show _ = (system.setPhase index request phase).handles slot +
      (system.setPhase index request phase).inFlight slot
    rw [handles, inFlight]
    exact consistent.refs slot inside
  · intro slot inside
    show (system.setPhase index request phase).inFlight slot = _
    rw [inFlight]
    exact consistent.single slot inside
  · intro other member slot uses
    rcases mem_setPhase member with rfl | old
    · simp [Phase.holds_of_idle after, Phase.loads_of_idle after] at uses
    · exact consistent.owner other old slot uses
  · intro other member slot holds
    rcases mem_setPhase member with rfl | old
    · simp [Phase.holds_of_idle after] at holds
    · exact consistent.ready other old slot holds
  · intro other member slot isLoaded
    rcases mem_setPhase member with rfl | old
    · have phaseEq : phase = .loaded slot true := isLoaded
      rw [phaseEq] at after
      cases after
    · exact consistent.loaded other old slot isLoaded

/-- A new request that holds and loads nothing. -/
theorem Consistent.append (consistent : Consistent contents system) {added : Request}
    (idle : added.phase.idle = true) :
    Consistent contents { system with requests := system.requests ++ [added] } := by
  have handles : ∀ slot, System.handles { system with requests := system.requests ++ [added] } slot =
      system.handles slot := by
    intro slot
    simp [System.handles, List.countP_append, Phase.holds_of_idle idle]
  have inFlight : ∀ slot,
      System.inFlight { system with requests := system.requests ++ [added] } slot =
        system.inFlight slot := by
    intro slot
    simp [System.inFlight, List.countP_append, Phase.loads_of_idle idle]
  have members : ∀ other ∈ system.requests ++ [added], other ∈ system.requests ∨ other = added := by
    intro other member
    rcases List.mem_append.mp member with old | new
    · exact Or.inl old
    · exact Or.inr (List.mem_singleton.mp new)
  refine ⟨consistent.logic, consistent.resident, ?_, ?_, ?_, ?_, consistent.page, ?_⟩
  · intro slot inside
    rw [handles, inFlight]
    exact consistent.refs slot inside
  · intro slot inside
    rw [inFlight]
    exact consistent.single slot inside
  · intro other member slot uses
    rcases members other member with old | rfl
    · exact consistent.owner other old slot uses
    · simp [Phase.holds_of_idle idle, Phase.loads_of_idle idle] at uses
  · intro other member slot holds
    rcases members other member with old | rfl
    · exact consistent.ready other old slot holds
    · simp [Phase.holds_of_idle idle] at holds
  · intro other member slot isLoaded
    rcases members other member with old | rfl
    · exact consistent.loaded other old slot isLoaded
    · rw [isLoaded] at idle
      cases idle

/-- One request changes its use of one slot and the entry of the slot follows.
The slot keeps its block, so the logic table does not change. -/
private theorem Consistent.slotChange (consistent : Consistent contents system)
    (found : system.requests[index]? = some request) {slot : Nat}
    (inside : slot < system.pool.slotCount) {entry : SlotEntry} {phase : Phase}
    (block : entry.blockId = (system.pool.slotTable slot).blockId)
    (ref : entry.ref.toNat + (request.phase.holds slot).toNat +
        (request.phase.loads slot).toNat =
      (system.pool.slotTable slot).ref.toNat + (phase.holds slot).toNat +
        (phase.loads slot).toNat)
    (loading : entry.loading.toNat + (request.phase.loads slot).toNat =
      (system.pool.slotTable slot).loading.toNat + (phase.loads slot).toNat)
    (elsewhere : ∀ other, other ≠ slot → request.phase.holds other = false ∧
      request.phase.loads other = false ∧ phase.holds other = false ∧ phase.loads other = false)
    (owned : entry.blockId = some request.block)
    (stillReady : entry.loading = true →
      (system.pool.slotTable slot).loading = true ∧ phase.holds slot = false)
    (content : entry.loading = false → system.pool.pages slot = contents request.block)
    (notLoaded : ∀ target, phase ≠ .loaded target true) :
    Consistent contents
      ({ system with pool := system.pool.setSlot slot entry }.setPhase index request phase) := by
  have atSlot : (system.pool.setSlot slot entry).slotTable slot = entry :=
    Function.update_self ..
  have atOther : ∀ other, other ≠ slot →
      (system.pool.setSlot slot entry).slotTable other = system.pool.slotTable other := by
    intro other different
    exact Function.update_of_ne different ..
  have blockEq : ∀ other, ((system.pool.setSlot slot entry).slotTable other).blockId =
      (system.pool.slotTable other).blockId := by
    intro other
    by_cases same : other = slot
    · rw [same, atSlot, block]
    · rw [atOther other same]
  have countHandles := handles_setPhase found phase
  have countLoads := inFlight_setPhase found phase
  refine ⟨?_, ?_, ?_, ?_, ?_, ?_, ?_, ?_⟩
  · intro someBlock someSlot lookup
    obtain ⟨slotInside, blockInside, stored⟩ := consistent.logic someBlock someSlot lookup
    exact ⟨slotInside, blockInside, (blockEq someSlot).trans stored⟩
  · intro other someBlock otherInside stored
    exact consistent.resident other someBlock otherInside ((blockEq other).symm.trans stored)
  · intro other otherInside
    have oldRef := consistent.refs other otherInside
    have handles := countHandles other
    have loads := countLoads other
    show ((system.pool.setSlot slot entry).slotTable other).ref.toNat =
      (system.setPhase index request phase).handles other +
        (system.setPhase index request phase).inFlight other
    by_cases same : other = slot
    · subst same
      rw [atSlot]
      omega
    · obtain ⟨oldHolds, oldLoads, newHolds, newLoads⟩ := elsewhere other same
      rw [oldHolds, newHolds] at handles
      rw [oldLoads, newLoads] at loads
      rw [atOther other same]
      omega
  · intro other otherInside
    have oldSingle := consistent.single other otherInside
    have loads := countLoads other
    show (system.setPhase index request phase).inFlight other =
      ((system.pool.setSlot slot entry).slotTable other).loading.toNat
    by_cases same : other = slot
    · subst same
      rw [atSlot]
      omega
    · obtain ⟨_, oldLoads, _, newLoads⟩ := elsewhere other same
      rw [oldLoads, newLoads] at loads
      rw [atOther other same]
      omega
  · intro other member target uses
    show target < system.pool.slotCount ∧
      ((system.pool.setSlot slot entry).slotTable target).blockId = some other.block
    rw [blockEq]
    rcases mem_setPhase member with rfl | old
    · by_cases same : target = slot
      · rw [same, ← block]
        exact ⟨inside, owned⟩
      · obtain ⟨_, _, newHolds, newLoads⟩ := elsewhere target same
        simp [newHolds, newLoads] at uses
    · exact consistent.owner other old target uses
  · intro other member target holds
    show ((system.pool.setSlot slot entry).slotTable target).loading = false
    rcases mem_setPhase member with rfl | old
    · by_cases same : target = slot
      · subst same
        rw [atSlot, Bool.eq_false_iff]
        intro stillLoading
        have := (stillReady stillLoading).2
        rw [this] at holds
        cases holds
      · obtain ⟨_, _, newHolds, _⟩ := elsewhere target same
        rw [newHolds] at holds
        cases holds
    · have oldReady := consistent.ready other old target holds
      by_cases same : target = slot
      · subst same
        rw [atSlot, Bool.eq_false_iff]
        intro stillLoading
        have := (stillReady stillLoading).1
        rw [this] at oldReady
        cases oldReady
      · rw [atOther target same]
        exact oldReady
  · intro other someBlock otherInside stored notLoading
    show system.pool.pages other = contents someBlock
    have storedOld := (blockEq other).symm.trans stored
    change ((system.pool.setSlot slot entry).slotTable other).loading = false at notLoading
    by_cases same : other = slot
    · subst same
      rw [atSlot] at notLoading
      rw [block, storedOld] at owned
      rw [Option.some.inj owned]
      exact content notLoading
    · rw [atOther other same] at notLoading
      exact consistent.page other someBlock otherInside storedOld notLoading
  · intro other member target isLoaded
    rcases mem_setPhase member with rfl | old
    · exact absurd isLoaded (notLoaded target)
    · exact consistent.loaded other old target isLoaded

/-- A hit: the request gets a handle on a slot that holds its block. -/
theorem Consistent.pin (consistent : Consistent contents system)
    (found : system.requests[index]? = some request) (idle : request.phase.idle = true)
    {slot : Nat} (inside : slot < system.pool.slotCount)
    (block : (system.pool.slotTable slot).blockId = some request.block)
    (notLoading : (system.pool.slotTable slot).loading = false)
    (room : (system.pool.slotTable slot).ref.toNat + 1 < 2 ^ 32) :
    Consistent contents
      ({ system with pool := system.pool.pin slot }.setPhase index request (.pinned slot)) := by
  have raised : ((system.pool.slotTable slot).ref + 1).toNat =
      (system.pool.slotTable slot).ref.toNat + 1 := by
    rw [UInt32.toNat_add]
    exact Nat.mod_eq_of_lt room
  refine consistent.slotChange found inside rfl ?_ ?_ ?_ block ?_ ?_ (by simp)
  · simp [Phase.holds_of_idle idle, Phase.loads_of_idle idle, raised]
  · simp [Phase.loads_of_idle idle]
  · intro other different
    simp [Phase.holds_of_idle idle, Phase.loads_of_idle idle, Ne.symm different]
  · intro loading
    rw [notLoading] at loading
    cases loading
  · intro _
    exact consistent.page slot request.block inside block notLoading

/-- A load that succeeded is published as a handle. -/
theorem Consistent.publishOk (consistent : Consistent contents system)
    (found : system.requests[index]? = some request) {slot : Nat}
    (phase : request.phase = .loaded slot true) :
    Consistent contents
      ({ system with pool := system.pool.publish request.block slot true }.setPhase index request
        (.pinned slot)) := by
  have member := List.mem_of_getElem? found
  obtain ⟨inside, block⟩ := consistent.owner request member slot
    (Or.inr (by simp [phase]))
  have isLoading : (system.pool.slotTable slot).loading = true := by
    have positive := inFlight_pos member (by simp [phase] : request.phase.loads slot = true)
    rw [consistent.single slot inside] at positive
    cases loading : (system.pool.slotTable slot).loading with
    | true => rfl
    | false =>
        rw [loading] at positive
        cases positive
  have published : system.pool.publish request.block slot true =
      system.pool.setSlot slot { system.pool.slotTable slot with loading := false } := by
    simp [Pool.publish, inside]
  rw [published]
  refine consistent.slotChange found inside rfl ?_ ?_ ?_ block (by simp) ?_ (by simp)
  · simp [phase]
  · simp [phase, isLoading]
  · intro other different
    simp [phase, Ne.symm different]
  · intro _
    exact consistent.loaded request member slot phase

/-- The drop of a handle. -/
theorem Consistent.unpin (consistent : Consistent contents system)
    (found : system.requests[index]? = some request) {slot : Nat}
    (phase : request.phase = .pinned slot) :
    Consistent contents
      ({ system with pool := system.pool.unpin slot }.setPhase index request .dropped) := by
  have member := List.mem_of_getElem? found
  have holds : request.phase.holds slot = true := by simp [phase]
  obtain ⟨inside, block⟩ := consistent.owner request member slot (Or.inl holds)
  have counted := consistent.refs slot inside
  have alive := handles_pos member holds
  have positive : 0 < (system.pool.slotTable slot).ref :=
    UInt32.lt_iff_toNat_lt.mpr (by rw [UInt32.toNat_zero]; omega)
  have lowered : ((system.pool.slotTable slot).ref - 1).toNat =
      (system.pool.slotTable slot).ref.toNat - 1 :=
    UInt32.toNat_sub_of_le _ _ (UInt32.le_iff_toNat_le.mpr (by rw [UInt32.toNat_one]; omega))
  have dropped : system.pool.unpin slot = system.pool.setSlot slot
      { system.pool.slotTable slot with ref := (system.pool.slotTable slot).ref - 1 } := by
    rw [Pool.unpin, if_pos ⟨inside, positive⟩]
  have notLoading := consistent.ready request member slot holds
  rw [dropped]
  refine consistent.slotChange found inside rfl ?_ ?_ ?_ block ?_ ?_ (by simp)
  · have idle := Phase.holds_of_idle (rfl : Phase.dropped.idle = true) slot
    have idleLoads := Phase.loads_of_idle (rfl : Phase.dropped.idle = true) slot
    simp only [phase, idle, idleLoads, Phase.holds_pinned, Phase.loads_pinned, decide_true,
      Bool.toNat_true, Bool.toNat_false, lowered]
    omega
  · simp [phase, Phase.loads_of_idle (rfl : Phase.dropped.idle = true)]
  · intro other different
    simp [phase, Ne.symm different, Phase.loads_of_idle (rfl : Phase.dropped.idle = true),
      Phase.holds_of_idle (rfl : Phase.dropped.idle = true)]
  · intro loading
    rw [notLoading] at loading
    cases loading
  · intro _
    exact consistent.page slot request.block inside block notLoading

/-- Nobody uses a slot without pins and without a load. -/
private theorem Consistent.unused (consistent : Consistent contents system) {slot : Nat}
    (inside : slot < system.pool.slotCount) (free : (system.pool.slotTable slot).ref = 0) :
    system.handles slot = 0 ∧ system.inFlight slot = 0 := by
  have refs := consistent.refs slot inside
  rw [free, UInt32.toNat_zero] at refs
  omega

theorem Consistent.loading_of_loads (consistent : Consistent contents system)
    (member : request ∈ system.requests) {slot : Nat} (loads : request.phase.loads slot = true) :
    (system.pool.slotTable slot).loading = true ∧ system.inFlight slot = 1 ∧
      system.handles slot = 0 := by
  obtain ⟨inside, _⟩ := consistent.owner request member slot (Or.inr loads)
  have positive := inFlight_pos member loads
  have single := consistent.single slot inside
  have isLoading : (system.pool.slotTable slot).loading = true := by
    cases loading : (system.pool.slotTable slot).loading with
    | true => rfl
    | false =>
        rw [single, loading] at positive
        cases positive
  refine ⟨isLoading, by rw [single, isLoading]; rfl, ?_⟩
  by_contra some_
  obtain ⟨holder, holderMember, holds⟩ := List.countP_pos_iff.mp (Nat.pos_of_ne_zero some_)
  have notLoading := consistent.ready holder holderMember slot holds
  rw [isLoading] at notLoading
  cases notLoading

/-- Two requests cannot load one slot. -/
private theorem Consistent.sole_load (consistent : Consistent contents system)
    (found : system.requests[index]? = some request) {slot : Nat}
    (loads : request.phase.loads slot = true) {other : Request} (member : other ∈ system.requests)
    (otherLoads : other.phase.loads slot = true) : other = request := by
  by_contra different
  have one := (consistent.loading_of_loads (List.mem_of_getElem? found) loads).2.1
  have count := inFlight_setPhase found .failed slot
  have failedLoads := Phase.loads_of_idle (rfl : Phase.failed.idle = true) slot
  rw [loads, failedLoads, one] at count
  -- The other request stays behind when this one goes, so the count is too small.
  have still : other ∈ (system.setPhase index request .failed).requests := by
    obtain ⟨position, at_⟩ := List.getElem?_of_mem member
    have apart : index ≠ position := by
      rintro rfl
      rw [found] at at_
      exact different (Option.some.inj at_).symm
    apply List.mem_of_getElem?
    show (system.requests.set index _)[position]? = some other
    rw [List.getElem?_set_ne apart]
    exact at_
  have positive := inFlight_pos still otherLoads
  simp only [Bool.toNat_true, Bool.toNat_false] at count
  omega

/-- The read into a reserved slot ends. -/
theorem Consistent.read (consistent : Consistent contents system)
    (found : system.requests[index]? = some request) {slot : Nat}
    (phase : request.phase = .loading slot) (outcome : Pool.ReadOutcome) :
    Consistent contents
      ({ system with pool := (system.pool.readBlock contents request.block slot outcome).1 }.setPhase
        index request
        (.loaded slot (system.pool.readBlock contents request.block slot outcome).2)) := by
  have member := List.mem_of_getElem? found
  have loads : request.phase.loads slot = true := by simp [phase]
  obtain ⟨isLoading, _, _⟩ := consistent.loading_of_loads member loads
  obtain ⟨slotInside, slotBlock⟩ := consistent.owner request member slot (Or.inr loads)
  obtain ⟨pages, ok, readEq, frame, content⟩ :=
    Pool.readBlock_spec contents system.pool request.block slot outcome
  rw [readEq]
  dsimp only
  have handles : ∀ target, (system.setPhase index request (.loaded slot ok)).handles target =
      system.handles target := by
    intro target
    have count := handles_setPhase found (.loaded slot ok) target
    simpa [phase] using count
  have inFlight : ∀ target, (system.setPhase index request (.loaded slot ok)).inFlight target =
      system.inFlight target := by
    intro target
    have count := inFlight_setPhase found (.loaded slot ok) target
    simpa [phase] using count
  refine ⟨consistent.logic, consistent.resident, ?_, ?_, ?_, ?_, ?_, ?_⟩
  · intro target inside
    show _ = (system.setPhase index request (.loaded slot ok)).handles target +
      (system.setPhase index request (.loaded slot ok)).inFlight target
    rw [handles, inFlight]
    exact consistent.refs target inside
  · intro target inside
    show (system.setPhase index request (.loaded slot ok)).inFlight target = _
    rw [inFlight]
    exact consistent.single target inside
  · intro other otherMember target uses
    rcases mem_setPhase otherMember with rfl | old
    · have same : slot = target := by simpa using uses
      rw [← same]
      exact ⟨slotInside, slotBlock⟩
    · exact consistent.owner other old target uses
  · intro other otherMember target holds
    rcases mem_setPhase otherMember with rfl | old
    · simp at holds
    · exact consistent.ready other old target holds
  · intro target block inside stored notLoading
    change (system.pool.slotTable target).loading = false at notLoading
    have different : target ≠ slot := by
      rintro rfl
      rw [isLoading] at notLoading
      cases notLoading
    show pages target = contents block
    rw [frame target different]
    exact consistent.page target block inside stored notLoading
  · intro other otherMember target isLoaded
    show pages target = contents other.block
    rcases mem_setPhase otherMember with rfl | old
    · obtain ⟨rfl, okTrue⟩ : slot = target ∧ ok = true := by simpa using isLoaded
      exact content okTrue
    · by_cases same : target = slot
      · subst same
        have isRequest := consistent.sole_load found loads old (by simp [isLoaded])
        rw [isRequest, phase] at isLoaded
        cases isLoaded
      · rw [frame target same]
        exact consistent.loaded other old target isLoaded

/-- A miss: a free slot is given to the block of the request. -/
theorem Consistent.reserve (consistent : Consistent contents system)
    (found : system.requests[index]? = some request) (idle : request.phase.idle = true)
    (blockInside : request.block < system.pool.totalBlockCount)
    (absent : system.pool.logicTable request.block = none) {slot : Nat}
    (inside : slot < system.pool.slotCount) (free : (system.pool.slotTable slot).ref = 0) :
    Consistent contents
      ({ system with pool := system.pool.reserve request.block slot }.setPhase index request
        (.loading slot)) := by
  obtain ⟨noHandles, noLoads⟩ := consistent.unused inside free
  have agree := consistent.tables.reserve blockInside absent inside
  have atSlot := reserve_self system.pool request.block slot
  have atOther : ∀ other, other ≠ slot →
      (system.pool.reserve request.block slot).slotTable other = system.pool.slotTable other :=
    fun _ different => reserve_of_ne system.pool request.block different
  have countHandles := handles_setPhase found (.loading slot)
  have countLoads := inFlight_setPhase found (.loading slot)
  have unusedSlot : ∀ other ∈ system.requests, other.phase.holds slot = false ∧
      other.phase.loads slot = false := by
    intro other member
    constructor
    · rw [Bool.eq_false_iff]
      intro holds
      have := handles_pos member holds
      omega
    · rw [Bool.eq_false_iff]
      intro loads
      have := inFlight_pos member loads
      omega
  refine ⟨agree.logic, agree.resident, ?_, ?_, ?_, ?_, ?_, ?_⟩
  · intro target targetInside
    have oldRef := consistent.refs target targetInside
    have handles := countHandles target
    have loads := countLoads target
    rw [Phase.holds_of_idle idle, Phase.holds_loading] at handles
    rw [Phase.loads_of_idle idle, Phase.loads_loading] at loads
    show ((system.pool.reserve request.block slot).slotTable target).ref.toNat =
      (system.setPhase index request (.loading slot)).handles target +
        (system.setPhase index request (.loading slot)).inFlight target
    by_cases same : target = slot
    · subst same
      rw [atSlot]
      simp only [decide_true, Bool.toNat_true, Bool.toNat_false] at handles loads
      rw [UInt32.toNat_one]
      omega
    · rw [atOther target same]
      simp only [Ne.symm same, decide_false, Bool.toNat_false] at handles loads
      omega
  · intro target targetInside
    have oldSingle := consistent.single target targetInside
    have loads := countLoads target
    rw [Phase.loads_of_idle idle, Phase.loads_loading] at loads
    show (system.setPhase index request (.loading slot)).inFlight target =
      ((system.pool.reserve request.block slot).slotTable target).loading.toNat
    by_cases same : target = slot
    · subst same
      rw [atSlot]
      simp only [decide_true, Bool.toNat_true, Bool.toNat_false] at loads
      show _ = 1
      omega
    · rw [atOther target same]
      simp only [Ne.symm same, decide_false, Bool.toNat_false] at loads
      omega
  · intro other member target uses
    show target < system.pool.slotCount ∧
      ((system.pool.reserve request.block slot).slotTable target).blockId = some other.block
    rcases mem_setPhase member with rfl | old
    · obtain rfl : slot = target := by simpa using uses
      rw [atSlot]
      exact ⟨inside, rfl⟩
    · have different : target ≠ slot := by
        rintro rfl
        obtain ⟨notHolds, notLoads⟩ := unusedSlot other old
        simp [notHolds, notLoads] at uses
      rw [atOther target different]
      exact consistent.owner other old target uses
  · intro other member target holds
    show ((system.pool.reserve request.block slot).slotTable target).loading = false
    rcases mem_setPhase member with rfl | old
    · simp at holds
    · have different : target ≠ slot := by
        rintro rfl
        rw [(unusedSlot other old).1] at holds
        cases holds
      rw [atOther target different]
      exact consistent.ready other old target holds
  · intro target block targetInside stored notLoading
    change ((system.pool.reserve request.block slot).slotTable target).blockId = some block at stored
    change ((system.pool.reserve request.block slot).slotTable target).loading = false at notLoading
    have different : target ≠ slot := by
      rintro rfl
      rw [atSlot] at notLoading
      cases notLoading
    rw [atOther target different] at stored notLoading
    exact consistent.page target block targetInside stored notLoading
  · intro other member target isLoaded
    rcases mem_setPhase member with rfl | old
    · cases isLoaded
    · exact consistent.loaded other old target isLoaded

/-- A load that failed: both tables forget the block. -/
theorem Consistent.publishFailed (consistent : Consistent contents system)
    (found : system.requests[index]? = some request) {slot : Nat}
    (phase : request.phase = .loaded slot false) :
    Consistent contents
      ({ system with pool := system.pool.publish request.block slot false }.setPhase index request
        .failed) := by
  have member := List.mem_of_getElem? found
  have loads : request.phase.loads slot = true := by simp [phase]
  obtain ⟨inside, slotBlock⟩ := consistent.owner request member slot (Or.inr loads)
  obtain ⟨_, oneLoad, noHandles⟩ := consistent.loading_of_loads member loads
  have lookup := consistent.resident slot request.block inside slotBlock
  have blockInside := (consistent.logic request.block slot lookup).2.1
  have published : system.pool.publish request.block slot false =
      { system.pool with
        logicTable := Function.update system.pool.logicTable request.block none
        slotTable := Function.update system.pool.slotTable slot .empty } := by
    simp [Pool.publish, blockInside, lookup, inside, Pool.setSlot]
  rw [published]
  have failedIdle : Phase.failed.idle = true := rfl
  have countHandles : ∀ target, (system.setPhase index request .failed).handles target =
      system.handles target := by
    intro target
    have count := handles_setPhase found .failed target
    rw [Phase.holds_of_idle failedIdle, phase, Phase.holds_loaded] at count
    simpa using count
  have countLoads := inFlight_setPhase found .failed
  have atOther : ∀ target, target ≠ slot →
      Function.update system.pool.slotTable slot .empty target = system.pool.slotTable target :=
    fun target different => Function.update_of_ne different ..
  have atSlot : Function.update system.pool.slotTable slot .empty slot = .empty :=
    Function.update_self ..
  have slotGone : (system.setPhase index request .failed).inFlight slot = 0 := by
    have count := countLoads slot
    rw [Phase.loads_of_idle failedIdle, loads, oneLoad] at count
    simpa using count
  have agree := consistent.tables.forget inside slotBlock
  refine ⟨agree.logic, agree.resident, ?_, ?_, ?_, ?_, ?_, ?_⟩
  · intro target targetInside
    have oldRef := consistent.refs target targetInside
    show (Function.update system.pool.slotTable slot .empty target).ref.toNat =
      (system.setPhase index request .failed).handles target +
        (system.setPhase index request .failed).inFlight target
    rw [countHandles]
    by_cases same : target = slot
    · rw [same, atSlot, slotGone, noHandles]
      rfl
    · have count := countLoads target
      rw [Phase.loads_of_idle failedIdle, phase, Phase.loads_loaded] at count
      simp only [Ne.symm same, decide_false, Bool.toNat_false] at count
      rw [atOther target same]
      omega
  · intro target targetInside
    have oldSingle := consistent.single target targetInside
    show (system.setPhase index request .failed).inFlight target =
      (Function.update system.pool.slotTable slot .empty target).loading.toNat
    by_cases same : target = slot
    · rw [same, atSlot, slotGone]
      rfl
    · have count := countLoads target
      rw [Phase.loads_of_idle failedIdle, phase, Phase.loads_loaded] at count
      simp only [Ne.symm same, decide_false, Bool.toNat_false] at count
      rw [atOther target same]
      omega
  · intro other otherMember target uses
    have different : target ≠ slot := by
      rintro rfl
      rcases uses with holds | otherLoads
      · have := handles_pos otherMember holds
        have none_ := countHandles target
        change 0 < (system.setPhase index request .failed).handles target at this
        omega
      · have := inFlight_pos otherMember otherLoads
        change 0 < (system.setPhase index request .failed).inFlight target at this
        omega
    show target < system.pool.slotCount ∧
      (Function.update system.pool.slotTable slot .empty target).blockId = some other.block
    rw [atOther target different]
    rcases mem_setPhase otherMember with rfl | old
    · simp [Phase.holds_of_idle failedIdle, Phase.loads_of_idle failedIdle] at uses
    · exact consistent.owner other old target uses
  · intro other otherMember target holds
    show (Function.update system.pool.slotTable slot .empty target).loading = false
    by_cases same : target = slot
    · rw [same, atSlot]
      rfl
    · rw [atOther target same]
      rcases mem_setPhase otherMember with rfl | old
      · simp [Phase.holds_of_idle failedIdle] at holds
      · exact consistent.ready other old target holds
  · intro target block targetInside stored notLoading
    change (Function.update system.pool.slotTable slot .empty target).blockId = some block at stored
    change (Function.update system.pool.slotTable slot .empty target).loading = false at notLoading
    have different : target ≠ slot := by
      rintro rfl
      rw [atSlot] at stored
      cases stored
    rw [atOther target different] at stored notLoading
    exact consistent.page target block targetInside stored notLoading
  · intro other otherMember target isLoaded
    rcases mem_setPhase otherMember with rfl | old
    · cases isLoaded
    · exact consistent.loaded other old target isLoaded

end Changes

/-! ## Pools nobody uses -/

/-- The tables agree and no slot is pinned or loading. -/
structure Quiet (contents : Nat → Page) (pool : Pool) : Prop where
  logic : ∀ block slot, pool.logicTable block = some slot →
    slot < pool.slotCount ∧ block < pool.totalBlockCount ∧
      (pool.slotTable slot).blockId = some block
  resident : ∀ slot block, slot < pool.slotCount →
    (pool.slotTable slot).blockId = some block → pool.logicTable block = some slot
  free : ∀ slot, slot < pool.slotCount →
    (pool.slotTable slot).ref = 0 ∧ (pool.slotTable slot).loading = false
  page : ∀ slot block, slot < pool.slotCount →
    (pool.slotTable slot).blockId = some block → pool.pages slot = contents block

/-- Requests that use no slot fit any quiet pool. -/
theorem Quiet.consistent {contents : Nat → Page} {system : System}
    (quiet : Quiet contents system.pool)
    (unused : ∀ request ∈ system.requests, ∀ slot,
      request.phase.holds slot = false ∧ request.phase.loads slot = false) :
    Consistent contents system := by
  have noHandles : ∀ slot, system.handles slot = 0 := by
    intro slot
    refine List.countP_eq_zero.mpr ?_
    intro request member
    simp [(unused request member slot).1]
  have noLoads : ∀ slot, system.inFlight slot = 0 := by
    intro slot
    refine List.countP_eq_zero.mpr ?_
    intro request member
    simp [(unused request member slot).2]
  refine ⟨quiet.logic, quiet.resident, ?_, ?_, ?_, ?_, ?_, ?_⟩
  · intro slot inside
    rw [(quiet.free slot inside).1, noHandles, noLoads]
    rfl
  · intro slot inside
    rw [(quiet.free slot inside).2, noLoads]
    rfl
  · intro request member slot uses
    simp [unused request member slot] at uses
  · intro request member slot holds
    simp [unused request member slot] at holds
  · intro slot block inside stored _
    exact quiet.page slot block inside stored
  · intro request member slot isLoaded
    have := (unused request member slot).2
    rw [isLoaded] at this
    simp at this

theorem quiet_init (contents : Nat → Page) (blockCount slotCount : Nat) :
    Quiet contents (Pool.init contents blockCount slotCount) := by
  refine ⟨?_, ?_, ?_, ?_⟩
  · intro block slot lookup
    simp only [Pool.init] at lookup ⊢
    split at lookup
    · rename_i inside
      obtain rfl := Option.some.inj lookup
      rw [if_pos inside]
      exact ⟨inside, by omega, rfl⟩
    · cases lookup
  · intro slot block inside stored
    simp only [Pool.init] at inside stored ⊢
    rw [if_pos inside] at stored
    obtain rfl := Option.some.inj stored
    rw [if_pos inside]
  · intro slot inside
    simp only [Pool.init] at inside ⊢
    rw [if_pos inside]
    exact ⟨rfl, rfl⟩
  · intro slot block inside stored
    simp only [Pool.init] at inside stored ⊢
    rw [if_pos inside] at stored ⊢
    rw [Option.some.inj stored]

theorem quiet_setPoolMemory {contents : Nat → Page} {blocks : List Page}
    (agree : ∀ block page, blocks[block]? = some page → contents block = page) :
    Quiet contents (Pool.setPoolMemory blocks) := by
  refine ⟨?_, ?_, ?_, ?_⟩
  · intro block slot lookup
    simp only [Pool.setPoolMemory] at lookup ⊢
    split at lookup
    · rename_i inside
      obtain rfl := Option.some.inj lookup
      rw [if_pos inside]
      exact ⟨inside, inside, rfl⟩
    · cases lookup
  · intro slot block inside stored
    simp only [Pool.setPoolMemory] at inside stored ⊢
    rw [if_pos inside] at stored
    obtain rfl := Option.some.inj stored
    rw [if_pos inside]
  · intro slot inside
    simp only [Pool.setPoolMemory] at inside ⊢
    rw [if_pos inside]
    exact ⟨rfl, rfl⟩
  · intro slot block inside stored
    simp only [Pool.setPoolMemory] at inside stored ⊢
    rw [if_pos inside] at stored
    obtain rfl := Option.some.inj stored
    have below : slot < blocks.length := lt_of_lt_of_le inside (Nat.mod_le _ _)
    rw [List.getD_eq_getElem?_getD, List.getElem?_eq_getElem below, Option.getD_some]
    exact (agree slot _ (List.getElem?_eq_getElem below)).symm

/-- Dropping every resident block leaves the logic table empty. -/
theorem clearWindow_logic {pool : Pool}
    (logic : ∀ block slot, pool.logicTable block = some slot →
      slot < pool.slotCount ∧ (pool.slotTable slot).blockId = some block) (block : Nat) :
    pool.clearWindow.logicTable block = none := by
  simp only [Pool.clearWindow]
  split
  · rfl
  · rename_i notResident
    cases lookup : pool.logicTable block with
    | none => rfl
    | some slot =>
        obtain ⟨inside, stored⟩ := logic block slot lookup
        exact absurd (List.any_eq_true.mpr ⟨slot, List.mem_range.mpr inside, by simp [stored]⟩)
          notResident

theorem quiet_clearWindow (contents : Nat → Page) {pool : Pool}
    (logic : ∀ block slot, pool.logicTable block = some slot →
      slot < pool.slotCount ∧ (pool.slotTable slot).blockId = some block)
    (pages : Nat → Page) : Quiet contents { pool.clearWindow with pages := pages } := by
  have emptied : ∀ slot, slot < pool.slotCount → pool.clearWindow.slotTable slot = .empty := by
    intro slot inside
    exact if_pos inside
  refine ⟨?_, ?_, ?_, ?_⟩
  · intro block slot lookup
    change pool.clearWindow.logicTable block = some slot at lookup
    rw [clearWindow_logic logic] at lookup
    cases lookup
  · intro slot block inside stored
    change (pool.clearWindow.slotTable slot).blockId = some block at stored
    rw [emptied slot inside] at stored
    cases stored
  · intro slot inside
    show (pool.clearWindow.slotTable slot).ref = 0 ∧
      (pool.clearWindow.slotTable slot).loading = false
    rw [emptied slot inside]
    exact ⟨rfl, rfl⟩
  · intro slot block inside stored
    change (pool.clearWindow.slotTable slot).blockId = some block at stored
    rw [emptied slot inside] at stored
    cases stored

/-- The filled window holds the blocks from its start on. -/
theorem quiet_fillWindow (contents : Nat → Page) {pool : Pool}
    (logic : ∀ block slot, pool.logicTable block = some slot →
      slot < pool.slotCount ∧ (pool.slotTable slot).blockId = some block)
    {startBlock blockCount : Nat} (slots : blockCount ≤ pool.slotCount)
    (blocks : startBlock + blockCount ≤ pool.totalBlockCount) :
    Quiet contents (pool.clearWindow.fillWindow contents startBlock blockCount) := by
  have emptied : ∀ slot, slot < pool.slotCount → pool.clearWindow.slotTable slot = .empty := by
    intro slot inside
    exact if_pos inside
  refine ⟨?_, ?_, ?_, ?_⟩
  · intro block slot lookup
    simp only [Pool.fillWindow] at lookup ⊢
    split at lookup
    · rename_i inside
      obtain rfl := Option.some.inj lookup
      rw [if_pos (by omega)]
      refine ⟨?_, ?_, by simp; omega⟩
      · show block - startBlock < pool.slotCount
        omega
      · show block < pool.totalBlockCount
        omega
    · rw [clearWindow_logic logic] at lookup
      cases lookup
  · intro slot block inside stored
    simp only [Pool.fillWindow] at inside stored ⊢
    split at stored
    · obtain rfl := Option.some.inj stored
      rw [if_pos (by omega), Nat.add_sub_cancel_left]
    · rw [emptied slot inside] at stored
      cases stored
  · intro slot inside
    simp only [Pool.fillWindow] at inside ⊢
    split
    · exact ⟨rfl, rfl⟩
    · rw [emptied slot inside]
      exact ⟨rfl, rfl⟩
  · intro slot block inside stored
    simp only [Pool.fillWindow] at inside stored ⊢
    split at stored
    · rename_i filled
      rw [if_pos filled, Option.some.inj stored]
    · rw [emptied slot inside] at stored
      cases stored

end MoonShot.Cache
