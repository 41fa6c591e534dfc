import MoonShot.Format.Pages

/-!
The block cache pool (`BlockCachePool`, the locked sections of `GetBlock`).

Owns the pool state (logic table, slot table, pages, eviction cursor) and every
section of the source that runs under its lock, as functions on that state: the
examination of a block, the search for a victim, the reservation of a slot, the
publication of a load, the release of a pin and the sequential window.

`u32::MAX` marks an absent block or slot in both tables. It is no block id,
since ids are below a 32-bit count, so the tables hold options here. A pin count
is a `u32`, and `Ref += 1` wraps.
-/

namespace MoonShot.Cache

open MoonShot.Format

/-- `IndexSlotEntry` -/
structure SlotEntry where
  blockId : Option Nat
  ref : UInt32
  loading : Bool
deriving DecidableEq

/-- `IndexSlotEntry::default` -/
def SlotEntry.empty : SlotEntry := ⟨none, 0, false⟩

/-- `BlockCacheState` of a pool whose tables exist. -/
structure Pool where
  totalBlockCount : Nat
  slotCount : Nat
  evictSlot : UInt32
  logicTable : Nat → Option Nat
  slotTable : Nat → SlotEntry
  pages : Nat → Page
  hasFile : Bool

namespace Pool

/-! ## Fresh pools -/

/-- `Init` once its eager read of the first `slotCount` blocks has succeeded. -/
def init (contents : Nat → Page) (blockCount slotCount : Nat) : Pool :=
  let slots := min slotCount blockCount
  { totalBlockCount := blockCount
    slotCount := slots
    evictSlot := UInt32.ofNat slots
    logicTable := fun block => if block < slots then some block else none
    slotTable := fun slot => if slot < slots then ⟨some slot, 0, false⟩ else .empty
    pages := fun slot => if slot < slots then contents slot else Page.zero
    hasFile := true }

/-- `SetPoolMemory`: as many slots as blocks, and no file. -/
def setPoolMemory (blocks : List Page) : Pool :=
  let count := blocks.length % 2 ^ 32
  { totalBlockCount := count
    slotCount := count
    evictSlot := UInt32.ofNat count
    logicTable := fun block => if block < count then some block else none
    slotTable := fun slot => if slot < count then ⟨some slot, 0, false⟩ else .empty
    pages := fun slot => blocks.getD slot Page.zero
    hasFile := false }

/-! ## Locked sections -/

/-- What one look at the tables finds for a block. -/
inductive Examined where
  | ready (slot : Nat)
  | loading
  | missing
deriving DecidableEq

/-- The body of the loop in `TryPinReadyOrWait` and in `ProcessGetBlockLocked`. -/
def examine (pool : Pool) (block : Nat) : Examined :=
  match pool.logicTable block with
  | none => .missing
  | some slot =>
      if slot ≥ pool.slotCount then .missing
      else if (pool.slotTable slot).loading then .loading
      else if (pool.slotTable slot).blockId = some block then .ready slot
      else .missing

def setSlot (pool : Pool) (slot : Nat) (entry : SlotEntry) : Pool :=
  { pool with slotTable := Function.update pool.slotTable slot entry }

theorem setSlot_self (pool : Pool) (slot : Nat) (entry : SlotEntry) :
    (pool.setSlot slot entry).slotTable slot = entry := Function.update_self ..

theorem setSlot_of_ne (pool : Pool) {slot other : Nat} (apart : other ≠ slot) (entry : SlotEntry) :
    (pool.setSlot slot entry).slotTable other = pool.slotTable other :=
  Function.update_of_ne apart ..

/-- `SlotTable[slot].Ref += 1` -/
def pin (pool : Pool) (slot : Nat) : Pool :=
  pool.setSlot slot { pool.slotTable slot with ref := (pool.slotTable slot).ref + 1 }

theorem pin_setSlot (pool : Pool) (slot : Nat) (entry : SlotEntry) :
    (pool.setSlot slot entry).pin slot = pool.setSlot slot { entry with ref := entry.ref + 1 } := by
  rw [pin, setSlot_self]
  unfold setSlot
  rw [Function.update_idem]

/-- `Drop` of a handle. -/
def unpin (pool : Pool) (slot : Nat) : Pool :=
  if slot < pool.slotCount ∧ (pool.slotTable slot).ref > 0 then
    pool.setSlot slot { pool.slotTable slot with ref := (pool.slotTable slot).ref - 1 }
  else pool

/-- The eviction loop: the cursor moves on at every look and wraps at 32 bits. -/
def findVictim : (turns : Nat) → Pool → Pool × Option Nat
  | 0, pool => (pool, none)
  | turns + 1, pool =>
      let candidate := pool.evictSlot.toNat % pool.slotCount
      let moved := { pool with evictSlot := pool.evictSlot + 1 }
      if (pool.slotTable candidate).ref = 0 ∧ (pool.slotTable candidate).loading = false then
        (moved, some candidate)
      else findVictim turns moved

/-- Give the slot to the block and mark it as loading. -/
def reserve (pool : Pool) (block slot : Nat) : Pool :=
  let logic :=
    match (pool.slotTable slot).blockId with
    | some old => Function.update pool.logicTable old none
    | none => pool.logicTable
  { pool.setSlot slot ⟨some block, 1, true⟩ with
    logicTable := Function.update logic block (some slot) }

/-- How the first locked section of `ProcessGetBlockLocked` ends. -/
inductive Processed where
  | pinned (slot : Nat)
  | reserved (slot : Nat)
  | waits
  | fails
deriving DecidableEq

/-- The first locked section of `ProcessGetBlockLocked`, up to its next wait. -/
def processGetBlock (pool : Pool) (block : Nat) : Pool × Processed :=
  if block ≥ pool.totalBlockCount ∨ pool.slotCount = 0 then (pool, .fails)
  else
    match pool.examine block with
    | .ready slot => (pool.pin slot, .pinned slot)
    | .loading => (pool, .waits)
    | .missing =>
        match findVictim pool.slotCount pool with
        | (pool, none) => (pool, .fails)
        | (pool, some slot) => (pool.reserve block slot, .reserved slot)

/-- How a read from the file ends. A failed read may leave anything in the
pages it was to fill. -/
inductive ReadOutcome where
  | ok
  | failed (garbage : Nat → Page)

/-- The read of one block into a reserved slot, made without the lock. -/
def readBlock (contents : Nat → Page) (pool : Pool) (block slot : Nat) :
    ReadOutcome → Pool × Bool
  | .ok =>
      if pool.hasFile then
        ({ pool with pages := Function.update pool.pages slot (contents block) }, true)
      else (pool, false)
  | .failed garbage =>
      if pool.hasFile then
        ({ pool with pages := Function.update pool.pages slot (garbage slot) }, false)
      else (pool, false)

/-- The read only writes the page of the slot, and it writes what was asked for
when it succeeds. -/
theorem readBlock_spec (contents : Nat → Page) (pool : Pool) (block slot : Nat)
    (outcome : ReadOutcome) :
    ∃ pages ok, pool.readBlock contents block slot outcome = ({ pool with pages := pages }, ok) ∧
      (∀ other, other ≠ slot → pages other = pool.pages other) ∧
      (ok = true → pages slot = contents block) := by
  by_cases file : pool.hasFile = true
  · cases outcome with
    | ok =>
        refine ⟨Function.update pool.pages slot (contents block), true, ?_, ?_, ?_⟩
        · rw [readBlock, if_pos file]
        · intro other different
          exact Function.update_of_ne different ..
        · intro _
          exact Function.update_self ..
    | failed garbage =>
        refine ⟨Function.update pool.pages slot (garbage slot), false, ?_, ?_, by simp⟩
        · rw [readBlock, if_pos file]
        · intro other different
          exact Function.update_of_ne different ..
  · refine ⟨pool.pages, false, ?_, fun _ _ => rfl, by simp⟩
    cases outcome <;> rw [readBlock, if_neg file]

/-- The last locked section of `ProcessGetBlockLocked`. -/
def publish (pool : Pool) (block slot : Nat) (ok : Bool) : Pool :=
  if ok then
    if slot < pool.slotCount then
      pool.setSlot slot { pool.slotTable slot with loading := false }
    else pool
  else
    let pool :=
      if block < pool.totalBlockCount ∧ pool.logicTable block = some slot then
        { pool with logicTable := Function.update pool.logicTable block none }
      else pool
    if slot < pool.slotCount then pool.setSlot slot .empty else pool

/-! ## Sequential access -/

/-- The tables after `LoadSequentialWindow` has dropped every resident block. -/
def clearWindow (pool : Pool) : Pool :=
  { pool with
    logicTable := fun block =>
      if (List.range pool.slotCount).any fun slot => (pool.slotTable slot).blockId = some block then
        none
      else pool.logicTable block
    slotTable := fun slot => if slot < pool.slotCount then .empty else pool.slotTable slot }

/-- The tables with the blocks from `startBlock` on in the first slots. -/
def fillWindow (contents : Nat → Page) (pool : Pool) (startBlock blockCount : Nat) : Pool :=
  { pool with
    pages := fun slot => if slot < blockCount then contents (startBlock + slot) else pool.pages slot
    slotTable := fun slot =>
      if slot < blockCount then ⟨some (startBlock + slot), 0, false⟩ else pool.slotTable slot
    logicTable := fun block =>
      if startBlock ≤ block ∧ block < startBlock + blockCount then some (block - startBlock)
      else pool.logicTable block
    evictSlot := UInt32.ofNat blockCount }

/-- `LoadSequentialWindow`, with its result. -/
def loadSequentialWindow (contents : Nat → Page) (pool : Pool) (startBlock : Nat)
    (outcome : ReadOutcome) : Pool × Bool :=
  if pool.hasFile = false ∨ startBlock ≥ pool.totalBlockCount ∨ pool.slotCount = 0 then
    (pool, false)
  else if (List.range pool.slotCount).any fun slot => (pool.slotTable slot).ref > 0 then
    (pool, false)
  else
    let pool := pool.clearWindow
    let blockCount := min pool.slotCount (pool.totalBlockCount - startBlock)
    if blockCount * pageSize > 2 ^ 31 - 1 then (pool, false)
    else
      match outcome with
      | .failed garbage =>
          ({ pool with
            pages := fun slot => if slot < blockCount then garbage slot else pool.pages slot },
            false)
      | .ok => (pool.fillWindow contents startBlock blockCount, true)

/-- The sequential branch of `GetBlock`: the pool and the slot of the handle. -/
def getSequential (contents : Nat → Page) (pool : Pool) (block : Nat) (outcome : ReadOutcome) :
    Pool × Option Nat :=
  let resident :=
    if block < pool.totalBlockCount then
      (pool.logicTable block).filter fun slot => slot < pool.slotCount
    else none
  match resident with
  | some slot => (pool.pin slot, some slot)
  | none =>
      match pool.loadSequentialWindow contents block outcome with
      | (pool, false) => (pool, none)
      | (pool, true) =>
          match pool.logicTable block with
          | some slot => (pool.pin slot, some slot)
          | none => (pool, none)

end Pool

end MoonShot.Cache
