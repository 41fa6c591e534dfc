import MoonShot.Cache.Safety

/-!
One caller of the block cache, with nobody else at it.

Owns `GetBlock` of such a caller, its three sections in a row, and what it gives: behind any
number of slots, the page of the file. A pool whose pins are all released is `Quiet`, and so is
the pool behind each call once its handle is dropped.

Does not own what the pages are read for.
-/

namespace MoonShot.Cache

open MoonShot.Format
open MoonShot.Lib

/-- `GetBlock` with `sequential = false`, in direct mode: the sections of
`ProcessGetBlockLocked` in a row. The file is read without failures. -/
def Pool.getBlock (contents : Nat → Page) (pool : Pool) (block : Nat) : Pool × Option Nat :=
  match pool.processGetBlock block with
  | (pool, .pinned slot) => (pool, some slot)
  | (pool, .reserved slot) =>
      let (pool, ok) := pool.readBlock contents block slot .ok
      (pool.publish block slot ok, if ok then some slot else none)
  | (pool, .waits) => (pool, none)
  | (pool, .fails) => (pool, none)

section Alone

variable {contents : Nat → Page} {pool : Pool} {block : Nat}

/-- The tables stay those of one file. -/
structure SameFile (before after : Pool) : Prop where
  blocks : after.totalBlockCount = before.totalBlockCount
  slots : after.slotCount = before.slotCount
  file : after.hasFile = before.hasFile

theorem SameFile.trans {first second third : Pool} (left : SameFile first second)
    (right : SameFile second third) : SameFile first third :=
  ⟨right.blocks.trans left.blocks, right.slots.trans left.slots, right.file.trans left.file⟩

theorem Pool.unpin_sameFile (pool : Pool) (slot : Nat) : SameFile pool (pool.unpin slot) := by
  unfold Pool.unpin
  split <;> exact ⟨rfl, rfl, rfl⟩

/-- Tables that nobody uses any more are quiet. -/
theorem Consistent.quiet {system : System} (consistent : Consistent contents system)
    (unused : ∀ request ∈ system.requests, ∀ slot,
      request.phase.holds slot = false ∧ request.phase.loads slot = false) :
    Quiet contents system.pool := by
  have noHandles : ∀ slot, system.handles slot = 0 := by
    intro slot
    apply List.countP_eq_zero.mpr
    intro request member
    simp [(unused request member slot).1]
  have noLoads : ∀ slot, system.inFlight slot = 0 := by
    intro slot
    apply List.countP_eq_zero.mpr
    intro request member
    simp [(unused request member slot).2]
  have free : ∀ slot, slot < system.pool.slotCount →
      (system.pool.slotTable slot).ref = 0 ∧ (system.pool.slotTable slot).loading = false := by
    intro slot inside
    have refs := consistent.refs slot inside
    have single := consistent.single slot inside
    rw [noHandles, noLoads] at refs
    rw [noLoads] at single
    refine ⟨UInt32.toNat_inj.mp refs, ?_⟩
    cases loading : (system.pool.slotTable slot).loading with
    | false => rfl
    | true =>
        rw [loading] at single
        cases single
  exact
    { logic := consistent.logic
      resident := consistent.resident
      free := free
      page := fun slot block inside stored =>
        consistent.page slot block inside stored (free slot inside).2 }

/-- The only request, which is done. -/
private theorem quiet_of_dropped {queue : List Nat} {worker : Option Nat}
    (consistent : Consistent contents ⟨pool, [⟨block, .direct, .dropped⟩], queue, worker⟩) :
    Quiet contents pool := by
  apply consistent.quiet
  intro request member slot
  rw [List.mem_singleton.mp member]
  exact ⟨rfl, rfl⟩

/-- The only request holds a slot, whose page is the one of its block. -/
private theorem pinned_spec {slot : Nat}
    (consistent : Consistent contents ⟨pool, [⟨block, .direct, .pinned slot⟩], [], none⟩) :
    pool.pages slot = contents block ∧ Quiet contents (pool.unpin slot) := by
  have member : (⟨block, .direct, .pinned slot⟩ : Request) ∈
      [(⟨block, .direct, .pinned slot⟩ : Request)] := List.mem_singleton_self _
  have holds : (Phase.pinned slot).holds slot = true := by simp
  have owned := consistent.owner _ member slot (Or.inl holds)
  have ready := consistent.ready _ member slot holds
  exact ⟨consistent.page slot block owned.1 owned.2 ready,
    quiet_of_dropped (consistent.unpin (List.getElem?_cons_zero) rfl)⟩

/-- In a quiet pool the first slot the scan looks at is free. -/
theorem Quiet.findVictim (quiet : Quiet contents pool) (slots : 0 < pool.slotCount) :
    Pool.findVictim pool.slotCount pool =
      ({ pool with evictSlot := pool.evictSlot + 1 },
        some (pool.evictSlot.toNat % pool.slotCount)) := by
  have free := quiet.free (pool.evictSlot.toNat % pool.slotCount) (Nat.mod_lt _ slots)
  obtain ⟨turns, count⟩ := Nat.exists_eq_succ_of_ne_zero slots.ne'
  generalize looks : pool.slotCount = total at count free ⊢
  subst count
  rw [Pool.findVictim, looks, if_pos free]

theorem Quiet.examine (quiet : Quiet contents pool) (block : Nat) :
    pool.examine block ≠ .loading := by
  unfold Pool.examine
  cases lookup : pool.logicTable block with
  | none => simp
  | some slot =>
      have inside := (quiet.logic block slot lookup).1
      dsimp only
      rw [if_neg (by omega), (quiet.free slot inside).2, if_neg Bool.false_ne_true]
      split <;> simp

/-- A block outside the file, or a pool without slots. -/
theorem Pool.getBlock_refused (refused : block ≥ pool.totalBlockCount ∨ pool.slotCount = 0) :
    pool.getBlock contents block = (pool, none) := by
  unfold Pool.getBlock Pool.processGetBlock
  rw [if_pos refused]

/-- Any other block is found, whether it was resident or not. -/
theorem Quiet.getBlock (quiet : Quiet contents pool) (file : pool.hasFile = true)
    (inside : block < pool.totalBlockCount) (slots : 0 < pool.slotCount) :
    ∃ after slot, pool.getBlock contents block = (after, some slot) ∧
      after.pages slot = contents block ∧ Quiet contents (after.unpin slot) ∧
      SameFile pool after := by
  -- The call as the only request of a system.
  have asked : Consistent contents ⟨pool, [⟨block, .direct, .process⟩], [], none⟩ := by
    apply quiet.consistent
    intro request member slot
    rw [List.mem_singleton.mp member]
    exact ⟨rfl, rfl⟩
  have fits : RefFits ⟨pool, [⟨block, .direct, .process⟩], [], none⟩ (.process 0) := by
    intro slot lookup
    rw [(quiet.free slot (quiet.logic block slot lookup).1).1]
    show 0 + 1 < 2 ^ 32
    decide
  have processed := asked.process fits List.getElem?_cons_zero rfl
  have notLoading := quiet.examine block
  unfold System.process at processed
  dsimp only at processed
  unfold Pool.getBlock
  cases examined : pool.examine block with
  | loading => exact absurd examined notLoading
  | ready slot =>
      have result : pool.processGetBlock block = (pool.pin slot, .pinned slot) := by
        unfold Pool.processGetBlock
        rw [if_neg (by omega), examined]
      rw [result] at processed ⊢
      have spec := pinned_spec processed
      exact ⟨_, slot, rfl, spec.1, spec.2, ⟨rfl, rfl, rfl⟩⟩
  | missing =>
      generalize victim : pool.evictSlot.toNat % pool.slotCount = slot
      have result : pool.processGetBlock block =
          ({ pool with evictSlot := pool.evictSlot + 1 }.reserve block slot, .reserved slot) := by
        unfold Pool.processGetBlock
        rw [if_neg (by omega), examined]
        dsimp only
        rw [quiet.findVictim slots, victim]
      rw [result] at processed ⊢
      dsimp only at processed ⊢
      have sameFile : SameFile pool
          ({ pool with evictSlot := pool.evictSlot + 1 }.reserve block slot) := ⟨rfl, rfl, rfl⟩
      generalize { pool with evictSlot := pool.evictSlot + 1 }.reserve block slot = reserved
        at processed sameFile ⊢
      change Consistent contents ⟨reserved, [⟨block, .direct, .loading slot⟩], [], none⟩ at processed
      have read := processed.read List.getElem?_cons_zero rfl .ok
      change Consistent contents ⟨(reserved.readBlock contents block slot .ok).1,
        [⟨block, .direct, .loaded slot (reserved.readBlock contents block slot .ok).2⟩], [],
        none⟩ at read
      have readIs : reserved.readBlock contents block slot .ok =
          ({ reserved with pages := Function.update reserved.pages slot (contents block) }, true) :=
        if_pos (sameFile.file.trans file)
      rw [readIs] at read ⊢
      have published := read.publishOk List.getElem?_cons_zero rfl
      have spec := pinned_spec published
      refine ⟨_, slot, rfl, spec.1, spec.2, sameFile.trans ?_⟩
      unfold Pool.publish
      rw [if_pos rfl]
      split <;> exact ⟨rfl, rfl, rfl⟩

end Alone

/-! ## A pool over a file -/

/-- A pool with the pages of the file behind it. -/
structure FilePool where
  contents : Nat → Page
  pool : Pool

namespace FilePool

/-- `Init` once its eager read has succeeded. -/
def init (contents : Nat → Page) (blockCount slotCount : Nat) : FilePool :=
  ⟨contents, .init contents blockCount slotCount⟩

/-- The blocks of the file, when the pool has a slot for them. -/
def blocks (file : FilePool) : BlockSource := fun block =>
  if block < file.pool.totalBlockCount ∧ 0 < file.pool.slotCount then some (file.contents block)
  else none

/-- `GetBlock`: the slot of the handle, and the page in it. -/
def getBlock (file : FilePool) (block : Nat) : FilePool × Option (Nat × Page) :=
  let (pool, slot) := file.pool.getBlock file.contents block
  ({ file with pool := pool }, slot.map fun slot => (slot, pool.pages slot))

/-- `Drop` of a handle. -/
def drop (file : FilePool) (slot : Nat) : FilePool :=
  { file with pool := file.pool.unpin slot }

/-- No handle is alive. -/
structure Idle (file : FilePool) : Prop where
  quiet : Quiet file.contents file.pool
  hasFile : file.pool.hasFile = true

theorem idle_init (contents : Nat → Page) (blockCount slotCount : Nat) :
    (init contents blockCount slotCount).Idle := ⟨quiet_init contents blockCount slotCount, rfl⟩

/-- A block that is not there is refused, and nothing changes. -/
theorem getBlock_none {file : FilePool} {block : Nat} (absent : file.blocks block = none) :
    file.getBlock block = (file, none) := by
  have refused : block ≥ file.pool.totalBlockCount ∨ file.pool.slotCount = 0 := by
    unfold blocks at absent
    split at absent
    · cases absent
    · omega
  unfold getBlock
  rw [Pool.getBlock_refused refused]
  rfl

/-- A block that is there is found, and the pool is idle again when its handle is dropped. -/
theorem Idle.getBlock {file : FilePool} (idle : file.Idle) {block : Nat} {page : Page}
    (present : file.blocks block = some page) :
    ∃ after slot, file.getBlock block = (after, some (slot, page)) ∧ (after.drop slot).Idle ∧
      (after.drop slot).blocks = file.blocks := by
  unfold blocks at present
  split at present
  · rename_i inside
    cases present
    obtain ⟨pool, slot, found, content, quiet, same⟩ :=
      idle.quiet.getBlock idle.hasFile inside.1 inside.2
    have released := same.trans (pool.unpin_sameFile slot)
    refine ⟨{ file with pool := pool }, slot, ?_, ⟨quiet, released.file.trans idle.hasFile⟩, ?_⟩
    · unfold FilePool.getBlock
      rw [found]
      exact congrArg (fun page => (_, some (slot, page))) content
    · unfold blocks FilePool.drop
      dsimp only
      rw [released.blocks, released.slots]
  · cases present

end FilePool

end MoonShot.Cache
