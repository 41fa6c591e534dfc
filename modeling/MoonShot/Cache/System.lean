import MoonShot.Cache.Pool
import MoonShot.Lib.Machine

/-!
Callers of one block cache pool.

Owns the requests in flight with the phase each has reached, the request queue
and the block thread, and the step function: one action is one locked section,
one disk read or the drop of one handle, so a list of actions is an
interleaving. The invariant `Consistent` ties the tables to the requests.

A request in phase `pinned` is a live handle. A wait on the condition variable
is a step that changes nothing: the request looks again later.
-/

namespace MoonShot.Cache

open MoonShot.Format
open MoonShot.Lib

/-- How a caller asks for its block. -/
inductive Mode where
  | direct
  | worker
  | sequential
deriving DecidableEq

inductive Phase where
  /-- In `TryPinReadyOrWait`. -/
  | tryPin
  /-- About to submit its request. -/
  | submit
  /-- In the queue of the block thread. -/
  | queued
  /-- In the first locked section of `ProcessGetBlockLocked`. -/
  | process
  /-- A slot is reserved, the read has not ended. -/
  | loading (slot : Nat)
  /-- The read has ended. -/
  | loaded (slot : Nat) (ok : Bool)
  | pinned (slot : Nat)
  | failed
  | dropped
deriving DecidableEq

namespace Phase

/-- The phase is a live handle on the slot. -/
def holds (slot : Nat) : Phase → Bool
  | .pinned held => held = slot
  | _ => false

/-- The phase is a load of the slot in flight. -/
def loads (slot : Nat) : Phase → Bool
  | .loading target => target = slot
  | .loaded target _ => target = slot
  | _ => false

@[simp] theorem holds_pinned (held slot : Nat) :
    (pinned held).holds slot = decide (held = slot) := rfl

@[simp] theorem holds_loading (target slot : Nat) : (loading target).holds slot = false := rfl

@[simp] theorem holds_loaded (target slot : Nat) (ok : Bool) :
    (loaded target ok).holds slot = false := rfl

@[simp] theorem loads_pinned (held slot : Nat) : (pinned held).loads slot = false := rfl

@[simp] theorem loads_loading (target slot : Nat) :
    (loading target).loads slot = decide (target = slot) := rfl

@[simp] theorem loads_loaded (target slot : Nat) (ok : Bool) :
    (loaded target ok).loads slot = decide (target = slot) := rfl

/-- The phase neither holds nor loads a slot. -/
def idle : Phase → Bool
  | .pinned _ => false
  | .loading _ => false
  | .loaded _ _ => false
  | _ => true

theorem holds_of_idle {phase : Phase} (idle : phase.idle = true) (slot : Nat) :
    phase.holds slot = false := by
  cases phase <;> simp_all [Phase.idle, holds]

theorem loads_of_idle {phase : Phase} (idle : phase.idle = true) (slot : Nat) :
    phase.loads slot = false := by
  cases phase <;> simp_all [Phase.idle, loads]

end Phase

structure Request where
  block : Nat
  mode : Mode
  phase : Phase
deriving DecidableEq

structure System where
  pool : Pool
  requests : List Request
  queue : List Nat
  worker : Option Nat

/-- `BLOCK_REQUEST_RING_SIZE` -/
def requestRingSize : Nat := 2 ^ 16

inductive Action where
  /-- A call of `GetBlock(block, sequential = false)` begins. -/
  | call (block : Nat) (direct : Bool)
  | tryPin (request : Nat)
  | submit (request : Nat)
  /-- The block thread takes the first request of the queue. -/
  | pop
  | process (request : Nat)
  | read (request : Nat) (outcome : Pool.ReadOutcome)
  | publish (request : Nat)
  /-- The block thread completes its request. -/
  | complete
  | drop (request : Nat)
  /-- A call of `GetBlock(block, sequential = true)`, all under the lock. -/
  | sequential (block : Nat) (outcome : Pool.ReadOutcome)

def Action.isSequential : Action → Bool
  | .sequential _ _ => true
  | _ => false

namespace System

def start (pool : Pool) : System := ⟨pool, [], [], none⟩

/-- The block an action looks up in the tables. -/
def lookedUp (system : System) : Action → Option Nat
  | .tryPin index => system.requests[index]?.map Request.block
  | .process index => system.requests[index]?.map Request.block
  | .sequential block _ => some block
  | _ => none

/-- Put a request into another phase. -/
def setPhase (system : System) (index : Nat) (request : Request) (phase : Phase) : System :=
  { system with requests := system.requests.set index { request with phase := phase } }

/-- `TryPinReadyOrWait`, one look. -/
def tryPin (system : System) (index : Nat) (request : Request) : System :=
  if request.block ≥ system.pool.totalBlockCount then system.setPhase index request .submit
  else
    match system.pool.examine request.block with
    | .missing => system.setPhase index request .submit
    | .loading => system
    | .ready slot =>
        { system with pool := system.pool.pin slot }.setPhase index request (.pinned slot)

/-- The first locked section of `ProcessGetBlockLocked` for a request. -/
def process (system : System) (index : Nat) (request : Request) : System :=
  match system.pool.processGetBlock request.block with
  | (pool, .pinned slot) => { system with pool := pool }.setPhase index request (.pinned slot)
  | (pool, .reserved slot) => { system with pool := pool }.setPhase index request (.loading slot)
  | (pool, .waits) => { system with pool := pool }
  | (pool, .fails) => { system with pool := pool }.setPhase index request .failed

/-- The block thread is done with the request it took. -/
def finished (request : Request) : Bool :=
  match request.phase with
  | .pinned _ => true
  | .failed => true
  | _ => false

def sequential (contents : Nat → Page) (system : System) (block : Nat)
    (outcome : Pool.ReadOutcome) : System :=
  match system.pool.getSequential contents block outcome with
  | (pool, some slot) =>
      { system with
        pool := pool
        requests := system.requests ++ [⟨block, .sequential, .pinned slot⟩] }
  | (pool, none) =>
      { system with pool := pool, requests := system.requests ++ [⟨block, .sequential, .failed⟩] }

/-- One step. `none`: the action is not enabled. -/
def step (contents : Nat → Page) (system : System) : Action → Option System
  | .call block direct =>
      let request : Request :=
        if direct then ⟨block, .direct, .process⟩ else ⟨block, .worker, .tryPin⟩
      some { system with requests := system.requests ++ [request] }
  | .tryPin index =>
      match system.requests[index]? with
      | some request => if request.phase = .tryPin then some (system.tryPin index request) else none
      | none => none
  | .submit index =>
      match system.requests[index]? with
      | some request =>
          if request.phase = .submit ∧ system.queue.length < requestRingSize then
            some { system.setPhase index request .queued with queue := system.queue ++ [index] }
          else none
      | none => none
  | .pop =>
      match system.worker, system.queue with
      | none, index :: rest =>
          match system.requests[index]? with
          | some request =>
              if request.phase = .queued then
                some { system.setPhase index request .process with
                  queue := rest, worker := some index }
              else none
          | none => none
      | _, _ => none
  | .process index =>
      match system.requests[index]? with
      | some request =>
          if request.phase = .process then some (system.process index request) else none
      | none => none
  | .read index outcome =>
      match system.requests[index]? with
      | some request =>
          match request.phase with
          | .loading slot =>
              let (pool, ok) := system.pool.readBlock contents request.block slot outcome
              some ({ system with pool := pool }.setPhase index request (.loaded slot ok))
          | _ => none
      | none => none
  | .publish index =>
      match system.requests[index]? with
      | some request =>
          match request.phase with
          | .loaded slot ok =>
              let pool := system.pool.publish request.block slot ok
              let phase := if ok then .pinned slot else .failed
              some ({ system with pool := pool }.setPhase index request phase)
          | _ => none
      | none => none
  | .complete =>
      match system.worker with
      | some index =>
          match system.requests[index]? with
          | some request => if finished request then some { system with worker := none } else none
          | none => none
      | none => none
  | .drop index =>
      match system.requests[index]? with
      | some request =>
          match request.phase with
          | .pinned slot =>
              if system.worker = some index then none
              else
                some ({ system with pool := system.pool.unpin slot }.setPhase index request
                  .dropped)
          | _ => none
      | none => none
  | .sequential block outcome => some (system.sequential contents block outcome)

/-! ## Counting requests -/

/-- Live handles on a slot. -/
def handles (system : System) (slot : Nat) : Nat :=
  system.requests.countP fun request => request.phase.holds slot

/-- Loads of a slot in flight. -/
def inFlight (system : System) (slot : Nat) : Nat :=
  system.requests.countP fun request => request.phase.loads slot

end System

end MoonShot.Cache
