import MoonShot.Lib.Machine

/-!
The block thread of one pool and the calls that start, stop and use it
(`StartBlockThread`, `ExitBlockThread`, `BlockThreadMain`, `SubmitBlockRequest`,
the dispatch of `GetBlock` and `SetDirectBlockAccessEnabled`).

Owns the request queue with its condition variable, the exit flag that is
stored outside the queue's lock, the mode flag that is read before a request is
submitted, and the step function. A block thread keeps the queue's lock from
its look at the flag until it waits, so that look and the wait are two steps.
Owns also the runs in which nobody gets stuck.

Does not own the cache tables: serving a request is one step here.
-/

namespace MoonShot.Cache.Worker

open MoonShot.Lib

/-- Where a block thread stands in `BlockThreadMain`. -/
inductive Thread where
  /-- About to take the queue's lock. -/
  | entering
  /-- Has the lock, found the flag unset and the queue empty, will wait. -/
  | checked
  /-- Waiting on `BCP_RequestCv`, with no wake-up pending. -/
  | parked
  | woken
  /-- Has the lock, found the flag set and the queue empty. -/
  | leaving
  | serving (caller : Nat)
  | ended
deriving DecidableEq

namespace Thread

def live : Thread → Bool
  | .ended => false
  | _ => true

/-- The thread keeps the queue's lock between two steps. -/
def locks : Thread → Bool
  | .checked => true
  | .leaving => true
  | _ => false

end Thread

/-- Where a call of `GetBlock` stands. -/
inductive Caller where
  /-- Has not read the mode flag. -/
  | entering
  /-- About to submit its request. -/
  | submitting
  /-- Waiting on `BCP_RequestCv` for room in the ring. -/
  | parked
  | woken
  /-- Waiting for the completion of its request. -/
  | waiting
  | done
deriving DecidableEq

/-- Where a call that starts or stops the block thread stands. -/
inductive Control where
  /-- `SetDirectBlockAccessEnabled` has found the flag to be different. -/
  | setting (enabled : Bool)
  /-- `ExitBlockThread`, about to take the thread handle. -/
  | exiting
  /-- Has the handle of the thread, about to set the exit flag. -/
  | flagging (thread : Nat)
  /-- Has set the exit flag, `notify_one` is still to come. -/
  | notifying (thread : Nat)
  | joining (thread : Nat)
  /-- `StartBlockThread`, about to read the mode flag. -/
  | starting
  /-- Has passed the checks before the handle's lock. -/
  | spawning
  | done
deriving DecidableEq

/-- Somebody who waits on `BCP_RequestCv`. -/
inductive Waiter where
  | thread (index : Nat)
  | caller (index : Nat)
deriving DecidableEq

structure State where
  /-- `BCP_Pages` is there and `BCP_SlotCount > 0`. -/
  ready : Bool
  direct : Bool
  exitThread : Bool
  /-- `BCP_Thread` -/
  handle : Option Nat
  threads : List Thread
  callers : List Caller
  controls : List Control
  queue : List Nat

inductive Action where
  | call
  /-- Reads the mode flag; in worker mode `TryPinReadyOrWait` may find the block. -/
  | dispatch (caller : Nat) (found : Bool)
  /-- The locked section of `SubmitBlockRequest`, up to its wait or its notification. -/
  | submit (caller : Nat) (wakes : Option Waiter)
  /-- `SetDirectBlockAccessEnabled` begins. -/
  | setDirect (enabled : Bool)
  /-- `ExitBlockThread` begins. -/
  | exit
  /-- `StartBlockThread` begins. -/
  | start
  /-- The next step of a call that starts or stops the thread. -/
  | control (index : Nat) (wakes : Option Waiter)
  /-- The next step of a block thread. -/
  | thread (index : Nat)
  /-- A wake-up without a notification. -/
  | spurious (waiter : Waiter)
deriving DecidableEq

namespace State

/-- `BLOCK_REQUEST_RING_SIZE` -/
def ringSize : Nat := 2 ^ 16

/-- A fresh table in direct mode; `ready` says whether the pool has slots. -/
def initial (ready : Bool) : State := ⟨ready, true, false, none, [], [], [], []⟩

/-- Nobody has the queue's lock. -/
def unlocked (state : State) : Bool := state.threads.all fun thread => !thread.locks

def setThread (state : State) (index : Nat) (thread : Thread) : State :=
  { state with threads := state.threads.set index thread }

def setCaller (state : State) (index : Nat) (caller : Caller) : State :=
  { state with callers := state.callers.set index caller }

def setControl (state : State) (index : Nat) (control : Control) : State :=
  { state with controls := state.controls.set index control }

def parked (state : State) : Waiter → Bool
  | .thread index => state.threads[index]? == some .parked
  | .caller index => state.callers[index]? == some .parked

def wake (state : State) : Waiter → State
  | .thread index => state.setThread index .woken
  | .caller index => state.setCaller index .woken

/-- Nobody waits on `BCP_RequestCv`. -/
def nobodyWaits (state : State) : Bool :=
  !state.threads.contains .parked && !state.callers.contains .parked

/-- `notify_one`: one of those who wait, or nobody when nobody waits. -/
def notifyOne (state : State) : Option Waiter → Option State
  | none => if state.nobodyWaits then some state else none
  | some waiter => if state.parked waiter then some (state.wake waiter) else none

/-- `notify_all` -/
def notifyAll (state : State) : State :=
  { state with
    threads := state.threads.map fun thread => if thread = .parked then .woken else thread
    callers := state.callers.map fun caller => if caller = .parked then .woken else caller }

/-- `SubmitBlockRequest`: waits while the ring is full. -/
def submit (state : State) (index : Nat) (wakes : Option Waiter) : Option State :=
  if state.queue.length = ringSize then some (state.setCaller index .parked)
  else { state.setCaller index .waiting with queue := state.queue ++ [index] }.notifyOne wakes

/-- One step of `BlockThreadMain`. -/
def stepThread (state : State) (index : Nat) : Thread → Option State
  | .checked => some (state.setThread index .parked)
  | .leaving =>
      -- The flag is read once more; if it was cleared the empty queue is popped.
      if state.exitThread then some (state.setThread index .ended)
      else some (state.setThread index .entering).notifyAll
  | .serving caller => some ((state.setThread index .entering).setCaller caller .done)
  | .parked => none
  | .ended => none
  | _ =>
      if state.unlocked = false then none
      else
        match state.queue with
        | [] => some (state.setThread index (if state.exitThread then .leaving else .checked))
        | caller :: rest => some { state.setThread index (.serving caller) with queue := rest }.notifyAll

/-- One step of a call that starts or stops the thread. -/
def stepControl (state : State) (index : Nat) (wakes : Option Waiter) : Control → Option State
  | .setting enabled =>
      some { state.setControl index (if enabled then .exiting else .starting) with
        direct := enabled }
  | .exiting =>
      match state.handle with
      | none => some (state.setControl index .done)
      | some thread => some { state.setControl index (.flagging thread) with handle := none }
  | .flagging thread =>
      some { state.setControl index (.notifying thread) with exitThread := true }
  | .notifying thread => (state.setControl index (.joining thread)).notifyOne wakes
  | .joining thread =>
      if state.threads[thread]? = some .ended then some (state.setControl index .done) else none
  | .starting =>
      some (state.setControl index (if state.direct || !state.ready then .done else .spawning))
  | .spawning =>
      match state.handle with
      | some _ => some (state.setControl index .done)
      | none =>
          some { state.setControl index .done with
            exitThread := false
            threads := state.threads ++ [.entering]
            handle := some state.threads.length }
  | .done => none

/-- One step. `none`: the action is not enabled. -/
def step (state : State) : Action → Option State
  | .call => some { state with callers := state.callers ++ [.entering] }
  | .dispatch index found =>
      if state.callers[index]? = some .entering then
        some (state.setCaller index (if state.direct || found then .done else .submitting))
      else none
  | .submit index wakes =>
      if state.callers[index]? = some .submitting ∨ state.callers[index]? = some .woken then
        if state.unlocked then state.submit index wakes else none
      else none
  | .setDirect enabled =>
      if state.direct = enabled then some state
      else some { state with controls := state.controls ++ [.setting enabled] }
  | .exit => some { state with controls := state.controls ++ [.exiting] }
  | .start => some { state with controls := state.controls ++ [.starting] }
  | .control index wakes =>
      match state.controls[index]? with
      | some control => state.stepControl index wakes control
      | none => none
  | .thread index =>
      match state.threads[index]? with
      | some thread => state.stepThread index thread
      | none => none
  | .spurious waiter => if state.parked waiter then some (state.wake waiter) else none

/-! ## Nobody is stuck -/

/-- The exit flag is set while a block thread waits with no wake-up pending, and
no notification is still to be sent. -/
def ExitMissed (state : State) : Prop :=
  state.exitThread = true ∧ .parked ∈ state.threads ∧
    ∀ thread, .notifying thread ∉ state.controls

/-- A caller waits for a queued request, and every block thread has ended or
waits with no wake-up pending. -/
def Orphaned (state : State) : Prop :=
  ∃ caller ∈ state.queue, ∀ thread ∈ state.threads, thread = .ended ∨ thread = .parked

/-- What a run has to avoid: setting the exit flag between a thread's look at it
and the thread's wait, starting a thread before the last one has ended, and
submitting a request while no thread is live. -/
def Careful (state : State) : Action → Prop
  | .control index _ =>
      match state.controls[index]? with
      | some (.flagging _) => .checked ∉ state.threads
      | some .spawning => state.handle = none → ∀ thread ∈ state.threads, thread = .ended
      | _ => True
  | .submit _ _ => ∃ thread ∈ state.threads, thread.live = true
  | _ => True

/-- The threads, the queue and the waiting callers agree. -/
structure Sound (state : State) : Prop where
  single : state.threads.countP Thread.live ≤ 1
  full : .parked ∈ state.callers → state.queue.length = ringSize
  idle : .parked ∈ state.threads → state.queue = []
  locked : ∀ thread ∈ state.threads, thread.locks = true → state.queue = []
  live : state.queue ≠ [] → ∃ thread ∈ state.threads, thread.live = true
  seen : .checked ∈ state.threads → state.exitThread = false

/-- A thread that waits although the exit flag is set will be notified. -/
def Told (state : State) : Prop :=
  state.exitThread = true → .parked ∈ state.threads → ∃ thread, .notifying thread ∈ state.controls

theorem sound_initial (ready : Bool) : Sound (initial ready) :=
  ⟨Nat.zero_le _, nofun, nofun, nofun, nofun, nofun⟩

variable {state next : State}

/-- The only live thread. -/
private theorem Sound.unique (sound : Sound state) {index : Nat} {thread other changed : Thread}
    (found : state.threads[index]? = some thread) (threadLive : thread.live = true)
    (member : other ∈ state.threads.set index changed) (otherLive : other.live = true) :
    other = changed := by
  by_contra different
  have counts := countP_set_add state.threads Thread.live found .ended
  have single := sound.single
  have gone : (state.threads.set index .ended).countP Thread.live = 0 := by
    rw [threadLive] at counts
    change _ + 1 = _ + 0 at counts
    omega
  obtain ⟨position, at_⟩ := List.getElem?_of_mem member
  have elsewhere : index ≠ position := by
    rintro rfl
    rw [List.getElem?_set_self (List.getElem?_eq_some_iff.mp found).1] at at_
    exact different (Option.some.inj at_).symm
  rw [List.getElem?_set_ne elsewhere] at at_
  have stays : other ∈ state.threads.set index .ended := by
    apply List.mem_of_getElem? (i := position)
    rw [List.getElem?_set_ne elsewhere, at_]
  exact List.countP_eq_zero.mp gone other stays otherLive

/-- Callers only wait for room in a full ring, threads only at an empty queue. -/
private theorem Sound.notBoth (sound : Sound state) (threadParked : .parked ∈ state.threads) :
    .parked ∉ state.callers := by
  intro callerParked
  have full := sound.full callerParked
  rw [sound.idle threadParked] at full
  cases full

theorem Sound.setCaller (sound : Sound state) {index : Nat} {caller : Caller}
    (awake : caller ≠ .parked) : Sound (state.setCaller index caller) := by
  refine ⟨sound.single, ?_, sound.idle, sound.locked, sound.live, sound.seen⟩
  intro member
  apply sound.full
  exact (List.mem_or_eq_of_mem_set member).resolve_right awake.symm

/-- A live thread moves on while the queue and the flag stay. -/
theorem Sound.setThread (sound : Sound state) {index : Nat} {thread changed : Thread}
    (found : state.threads[index]? = some thread) (threadLive : thread.live = true)
    (parks : changed = .parked → state.queue = [])
    (locks : changed.locks = true → state.queue = [])
    (lives : changed.live = false → state.queue = [])
    (checks : changed = .checked → state.exitThread = false) :
    Sound (state.setThread index changed) := by
  have counts := countP_set_add state.threads Thread.live found changed
  have single := sound.single
  have cases_ : ∀ other ∈ state.threads.set index changed,
      other ∈ state.threads ∨ other = changed := fun other member =>
    List.mem_or_eq_of_mem_set member
  refine ⟨?_, sound.full, ?_, ?_, ?_, ?_⟩
  · show (state.threads.set index changed).countP Thread.live ≤ 1
    rw [threadLive] at counts
    have bound : changed.live.toNat ≤ 1 := Bool.toNat_le changed.live
    change _ + 1 = _ at counts
    omega
  · intro member
    rcases cases_ _ member with old | same
    · exact sound.idle old
    · exact parks same.symm
  · intro other member isLocking
    rcases cases_ other member with old | same
    · exact sound.locked other old isLocking
    · rw [same] at isLocking
      exact locks isLocking
  · intro nonempty
    refine ⟨changed, mem_set_self found changed, ?_⟩
    cases alive : changed.live with
    | true => rfl
    | false => exact absurd (lives alive) nonempty
  · intro member
    rcases cases_ _ member with old | same
    · exact sound.seen old
    · exact checks same.symm

theorem Sound.wake (sound : Sound state) {waiter : Waiter}
    (parked : state.parked waiter = true) : Sound (state.wake waiter) := by
  cases waiter with
  | thread index =>
      have found : state.threads[index]? = some .parked := by simpa [State.parked] using parked
      exact sound.setThread found rfl nofun nofun nofun nofun
  | caller index => exact sound.setCaller nofun

/-- After `notify_one` no thread is left waiting. -/
theorem Sound.notifyOne_unparks (sound : Sound state) {wakes : Option Waiter}
    (notified : state.notifyOne wakes = some next) : .parked ∉ next.threads := by
  cases wakes with
  | none =>
      dsimp only [notifyOne] at notified
      split at notified
      · rename_i nobody
        obtain rfl := Option.some.inj notified
        simp only [nobodyWaits, Bool.and_eq_true, Bool.not_eq_true', List.contains_eq_mem,
          decide_eq_false_iff_not] at nobody
        exact nobody.1
      · cases notified
  | some waiter =>
      dsimp only [notifyOne] at notified
      split at notified
      · rename_i parked
        obtain rfl := Option.some.inj notified
        cases waiter with
        | thread index =>
            have found : state.threads[index]? = some .parked := by
              simpa [State.parked] using parked
            intro member
            cases sound.unique found rfl member rfl
        | caller index =>
            have found : state.callers[index]? = some .parked := by
              simpa [State.parked] using parked
            intro member
            exact sound.notBoth member (List.mem_of_getElem? found)
      · cases notified

theorem Sound.notifyOne (sound : Sound state) {wakes : Option Waiter}
    (notified : state.notifyOne wakes = some next) : Sound next := by
  cases wakes with
  | none =>
      dsimp only [State.notifyOne] at notified
      split at notified
      · obtain rfl := Option.some.inj notified
        exact sound
      · cases notified
  | some waiter =>
      dsimp only [State.notifyOne] at notified
      split at notified
      · rename_i parked
        obtain rfl := Option.some.inj notified
        exact sound.wake parked
      · cases notified

/-- `notify_all` leaves nobody waiting, so it restores what only waiting can break. -/
private theorem sound_notifyAll (single : state.threads.countP Thread.live ≤ 1)
    (locked : ∀ thread ∈ state.threads, thread.locks = true → state.queue = [])
    (live : state.queue ≠ [] → ∃ thread ∈ state.threads, thread.live = true)
    (seen : .checked ∈ state.threads → state.exitThread = false) : Sound state.notifyAll := by
  have image : ∀ thread ∈ state.notifyAll.threads, thread ≠ .woken → thread ∈ state.threads := by
    intro thread member notWoken
    obtain ⟨before, old, result⟩ := List.mem_map.mp member
    by_cases parked : before = .parked
    · rw [if_pos parked] at result
      exact absurd result.symm notWoken
    · rw [if_neg parked] at result
      rw [← result]
      exact old
  refine ⟨?_, ?_, ?_, ?_, ?_, ?_⟩
  · have sameCount : state.notifyAll.threads.countP Thread.live =
        state.threads.countP Thread.live := by
      unfold notifyAll
      rw [List.countP_map]
      apply List.countP_congr
      intro thread _
      cases thread <;> simp [Thread.live]
    rw [sameCount]
    exact single
  · intro member
    obtain ⟨before, _, result⟩ := List.mem_map.mp member
    split at result
    · cases result
    · exact absurd result ‹_›
  · intro member
    obtain ⟨before, _, result⟩ := List.mem_map.mp member
    split at result
    · cases result
    · exact absurd result ‹_›
  · intro thread member isLocking
    apply locked thread (image thread member _) isLocking
    rintro rfl
    cases isLocking
  · intro nonempty
    obtain ⟨thread, member, alive⟩ := live nonempty
    refine ⟨_, List.mem_map_of_mem member, ?_⟩
    split
    · rfl
    · exact alive
  · intro member
    exact seen (image .checked member nofun)

private theorem notifyAll_unparks : .parked ∉ state.notifyAll.threads := by
  intro member
  obtain ⟨before, _, result⟩ := List.mem_map.mp member
  split at result
  · cases result
  · exact absurd result ‹_›

private theorem unlocked_iff (unlocked : state.unlocked = true) :
    ∀ thread ∈ state.threads, thread.locks = false := by
  simpa [State.unlocked] using unlocked

/-- Submitting a request to a live thread. -/
theorem Sound.submit (sound : Sound state) {index : Nat} {wakes : Option Waiter}
    (unlocked : state.unlocked = true) (alive : ∃ thread ∈ state.threads, thread.live = true)
    (taken : state.submit index wakes = some next) :
    Sound next ∧ (.parked ∈ next.threads → .parked ∈ state.threads) ∧
      next.exitThread = state.exitThread ∧ next.controls = state.controls := by
  unfold State.submit at taken
  by_cases full : state.queue.length = ringSize
  · rw [if_pos full] at taken
    obtain rfl := Option.some.inj taken
    exact ⟨⟨sound.single, fun _ => full, sound.idle, sound.locked, sound.live, sound.seen⟩,
      id, rfl, rfl⟩
  · rw [if_neg full] at taken
    -- Whoever the notification reaches, no thread and no caller waits afterwards.
    have notFull : .parked ∉ state.callers := fun member => full (sound.full member)
    have stillNone : .parked ∉ state.callers.set index .waiting := by
      intro member
      rcases List.mem_or_eq_of_mem_set member with old | same
      · exact notFull old
      · cases same
    have noLock : ∀ thread ∈ state.threads, thread.locks = true → False := by
      intro thread member locks
      rw [unlocked_iff unlocked thread member] at locks
      cases locks
    cases wakes with
    | none =>
        dsimp only [State.notifyOne] at taken
        split at taken
        · rename_i nobody
          obtain rfl := Option.some.inj taken
          simp only [nobodyWaits, Bool.and_eq_true, Bool.not_eq_true', List.contains_eq_mem,
            decide_eq_false_iff_not] at nobody
          have noThread : .parked ∉ state.threads := nobody.1
          exact ⟨⟨sound.single, fun member => absurd member stillNone,
            fun member => absurd member noThread,
            fun thread member locks => (noLock thread member locks).elim, fun _ => alive,
            sound.seen⟩, id, rfl, rfl⟩
        · cases taken
    | some waiter =>
        dsimp only [State.notifyOne] at taken
        split at taken
        · rename_i parked
          obtain rfl := Option.some.inj taken
          cases waiter with
          | thread position =>
              have found : state.threads[position]? = some .parked := by
                simpa [State.parked, State.setCaller] using parked
              have woken : Sound (state.setThread position .woken) :=
                sound.setThread found rfl nofun nofun nofun nofun
              have unparked : .parked ∉ state.threads.set position .woken := by
                intro member
                cases sound.unique found rfl member rfl
              refine ⟨⟨woken.single, fun member => absurd member stillNone,
                fun member => absurd member unparked, ?_, ?_, woken.seen⟩,
                fun member => absurd member unparked, rfl, rfl⟩
              · intro thread member locks
                rcases List.mem_or_eq_of_mem_set member with old | same
                · exact (noLock thread old locks).elim
                · rw [same] at locks
                  cases locks
              · intro _
                exact ⟨.woken, mem_set_self found .woken, rfl⟩
          | caller position =>
              have found : (state.callers.set index .waiting)[position]? = some .parked := by
                simpa [State.parked, State.setCaller] using parked
              exact absurd (List.mem_of_getElem? found) stillNone
        · cases taken

/-- One step of a block thread. -/
theorem Sound.stepThread (sound : Sound state) (told : Told state) {index : Nat}
    {thread : Thread} (found : state.threads[index]? = some thread)
    (taken : state.stepThread index thread = some next) : Sound next ∧ Told next := by
  have member := List.mem_of_getElem? found
  -- A change of a thread that does not park keeps the promise to those who wait.
  have toldSet : ∀ changed, changed ≠ .parked → Told (state.setThread index changed) := by
    intro changed notParked exitSet parked
    exact told exitSet ((List.mem_or_eq_of_mem_set parked).resolve_right notParked.symm)
  have looks : thread.live = true → thread.locks = false →
      (if state.unlocked = false then none
      else
        match state.queue with
        | [] => some (state.setThread index (if state.exitThread then .leaving else .checked))
        | caller :: rest =>
            some { state.setThread index (.serving caller) with queue := rest }.notifyAll) =
        some next → Sound next ∧ Told next := by
    intro threadLive _ looked
    split at looked
    · cases looked
    · rename_i unlockedEq
      have unlocked : state.unlocked = true := by simpa using unlockedEq
      split at looked
      · rename_i empty
        obtain rfl := Option.some.inj looked
        refine ⟨sound.setThread found threadLive (fun _ => empty) (fun _ => empty)
          (fun _ => empty) ?_, toldSet _ (by split <;> nofun)⟩
        intro checks
        cases flag : state.exitThread with
        | false => rfl
        | true =>
            rw [flag] at checks
            cases checks
      · rename_i caller rest _
        obtain rfl := Option.some.inj looked
        have served : Sound (state.setThread index (.serving caller)) :=
          sound.setThread found threadLive nofun nofun nofun nofun
        refine ⟨sound_notifyAll served.single ?_ ?_ served.seen,
          fun _ parked => absurd parked notifyAll_unparks⟩
        · intro other otherMember locks
          rcases List.mem_or_eq_of_mem_set otherMember with old | same
          · rw [unlocked_iff unlocked other old] at locks
            cases locks
          · rw [same] at locks
            cases locks
        · intro _
          exact ⟨_, mem_set_self found (.serving caller), rfl⟩
  cases thread with
  | entering => exact looks rfl rfl taken
  | woken => exact looks rfl rfl taken
  | parked => cases taken
  | ended => cases taken
  | checked =>
      obtain rfl := Option.some.inj taken
      have empty := sound.locked .checked member rfl
      have unset := sound.seen member
      refine ⟨sound.setThread found rfl (fun _ => empty) nofun nofun nofun, ?_⟩
      intro exitSet
      have flag : state.exitThread = true := exitSet
      rw [unset] at flag
      cases flag
  | leaving =>
      have empty := sound.locked .leaving member rfl
      dsimp only [State.stepThread] at taken
      split at taken
      · obtain rfl := Option.some.inj taken
        exact ⟨sound.setThread found rfl nofun nofun (fun _ => empty) nofun, toldSet _ nofun⟩
      · obtain rfl := Option.some.inj taken
        have entered : Sound (state.setThread index .entering) :=
          sound.setThread found rfl nofun nofun nofun nofun
        exact ⟨sound_notifyAll entered.single entered.locked entered.live entered.seen,
          fun _ parked => absurd parked notifyAll_unparks⟩
  | serving caller =>
      obtain rfl := Option.some.inj taken
      have entered : Sound (state.setThread index .entering) :=
        sound.setThread found rfl nofun nofun nofun nofun
      exact ⟨entered.setCaller nofun, toldSet _ nofun⟩

/-- A call that starts or stops the thread changes nothing but itself, the mode
and the handle. -/
private theorem keeps_controls (sound : Sound state) (told : Told state) {index : Nat}
    {control : Control} (found : state.controls[index]? = some control)
    (notNotifying : ∀ thread, control ≠ .notifying thread) (changed : Control) (direct : Bool)
    (handle : Option Nat) :
    Sound { state.setControl index changed with direct := direct, handle := handle } ∧
      Told { state.setControl index changed with direct := direct, handle := handle } := by
  refine ⟨⟨sound.single, sound.full, sound.idle, sound.locked, sound.live, sound.seen⟩, ?_⟩
  intro exitSet parked
  obtain ⟨thread, member⟩ := told exitSet parked
  exact ⟨thread, mem_set_of_ne found changed member (notNotifying thread).symm⟩

theorem Sound.stepControl (sound : Sound state) (told : Told state) {index : Nat}
    {wakes : Option Waiter} {control : Control} (found : state.controls[index]? = some control)
    (careful : Careful state (.control index wakes))
    (taken : state.stepControl index wakes control = some next) : Sound next ∧ Told next := by
  dsimp only [Careful] at careful
  rw [found] at careful
  cases control with
  | setting enabled =>
      obtain rfl := Option.some.inj taken
      exact keeps_controls sound told found nofun _ enabled state.handle
  | exiting =>
      dsimp only [State.stepControl] at taken
      split at taken
      · obtain rfl := Option.some.inj taken
        exact keeps_controls sound told found nofun _ state.direct state.handle
      · obtain rfl := Option.some.inj taken
        exact keeps_controls sound told found nofun _ state.direct none
  | flagging thread =>
      obtain rfl := Option.some.inj taken
      refine ⟨⟨sound.single, sound.full, sound.idle, sound.locked, sound.live,
        fun checked => absurd checked careful⟩, ?_⟩
      intro _ _
      exact ⟨thread, mem_set_self found (.notifying thread)⟩
  | notifying thread =>
      dsimp only [State.stepControl] at taken
      have joined : Sound (state.setControl index (.joining thread)) :=
        ⟨sound.single, sound.full, sound.idle, sound.locked, sound.live, sound.seen⟩
      exact ⟨joined.notifyOne taken,
        fun _ parked => absurd parked (joined.notifyOne_unparks taken)⟩
  | joining thread =>
      dsimp only [State.stepControl] at taken
      split at taken
      · obtain rfl := Option.some.inj taken
        exact keeps_controls sound told found nofun _ state.direct state.handle
      · cases taken
  | starting =>
      obtain rfl := Option.some.inj taken
      exact keeps_controls sound told found nofun _ state.direct state.handle
  | spawning =>
      dsimp only [State.stepControl] at taken
      split at taken
      · obtain rfl := Option.some.inj taken
        exact keeps_controls sound told found nofun _ state.direct state.handle
      · rename_i noHandle
        obtain rfl := Option.some.inj taken
        have ended := careful noHandle
        have only : ∀ thread ∈ state.threads ++ [Thread.entering], thread.live = true →
            thread = .entering := by
          intro thread member alive
          rcases List.mem_append.mp member with old | new
          · rw [ended thread old] at alive
            cases alive
          · exact List.mem_singleton.mp new
        refine ⟨⟨?_, sound.full, ?_, ?_, ?_, fun _ => rfl⟩, nofun⟩
        · show (state.threads ++ [Thread.entering]).countP Thread.live ≤ 1
          have none_ : state.threads.countP Thread.live = 0 := by
            apply List.countP_eq_zero.mpr
            intro thread member
            rw [ended thread member]
            nofun
          rw [List.countP_append, none_]
          exact Nat.le_refl _
        · intro parked
          cases only .parked parked rfl
        · intro thread member locks
          have alive : thread.live = true := by
            cases thread <;> first | rfl | cases locks
          rw [only thread member alive] at locks
          cases locks
        · intro _
          exact ⟨.entering, by simp, rfl⟩
  | done => cases taken

theorem Sound.step (sound : Sound state) (told : Told state) {action : Action}
    (careful : Careful state action) (taken : state.step action = some next) :
    Sound next ∧ Told next := by
  cases action with
  | call =>
      obtain rfl := Option.some.inj taken
      refine ⟨⟨sound.single, ?_, sound.idle, sound.locked, sound.live, sound.seen⟩, told⟩
      intro parked
      rcases List.mem_append.mp parked with old | new
      · exact sound.full old
      · cases List.mem_singleton.mp new
  | dispatch index found =>
      dsimp only [State.step] at taken
      split at taken
      · obtain rfl := Option.some.inj taken
        exact ⟨sound.setCaller (by split <;> nofun), told⟩
      · cases taken
  | submit index wakes =>
      dsimp only [State.step] at taken
      split at taken
      · split at taken
        · rename_i unlocked
          obtain ⟨after, parks, flag, controls⟩ := sound.submit unlocked careful taken
          refine ⟨after, ?_⟩
          intro exitSet parked
          rw [controls]
          exact told (by rw [← flag]; exact exitSet) (parks parked)
        · cases taken
      · cases taken
  | setDirect enabled =>
      dsimp only [State.step] at taken
      split at taken
      · obtain rfl := Option.some.inj taken
        exact ⟨sound, told⟩
      · obtain rfl := Option.some.inj taken
        exact ⟨⟨sound.single, sound.full, sound.idle, sound.locked, sound.live, sound.seen⟩,
          fun exitSet parked => (told exitSet parked).imp fun _ => List.mem_append_left _⟩
  | exit =>
      obtain rfl := Option.some.inj taken
      exact ⟨⟨sound.single, sound.full, sound.idle, sound.locked, sound.live, sound.seen⟩,
        fun exitSet parked => (told exitSet parked).imp fun _ => List.mem_append_left _⟩
  | start =>
      obtain rfl := Option.some.inj taken
      exact ⟨⟨sound.single, sound.full, sound.idle, sound.locked, sound.live, sound.seen⟩,
        fun exitSet parked => (told exitSet parked).imp fun _ => List.mem_append_left _⟩
  | control index wakes =>
      dsimp only [State.step] at taken
      split at taken
      · rename_i control found
        exact sound.stepControl told found careful taken
      · cases taken
  | thread index =>
      dsimp only [State.step] at taken
      split at taken
      · rename_i thread found
        exact sound.stepThread told found taken
      · cases taken
  | spurious waiter =>
      dsimp only [State.step] at taken
      split at taken
      · rename_i parked
        obtain rfl := Option.some.inj taken
        refine ⟨sound.wake parked, ?_⟩
        cases waiter with
        | thread index =>
            intro exitSet stillParked
            exact told exitSet ((List.mem_or_eq_of_mem_set stillParked).resolve_right nofun)
        | caller index => exact told
      · cases taken

/-- In every careful run nobody gets stuck. -/
theorem careful_runs_never_stuck {ready : Bool} {actions : List Action} {final : State}
    (run : GuardedRun State.step Careful (initial ready) actions final) :
    ¬ExitMissed final ∧ ¬Orphaned final := by
  have kept : ∀ state action next, Sound state ∧ Told state → Careful state action →
      State.step state action = some next → Sound next ∧ Told next := by
    intro state action next both careful taken
    exact both.1.step both.2 careful taken
  have both : Sound final ∧ Told final :=
    run.invariant kept ⟨sound_initial ready, nofun⟩
  constructor
  · intro missed
    obtain ⟨thread, member⟩ := both.2 missed.1 missed.2.1
    exact missed.2.2 thread member
  · intro orphaned
    obtain ⟨caller, queued, stuck⟩ := orphaned
    have nonempty : final.queue ≠ [] := List.ne_nil_of_mem queued
    obtain ⟨thread, member, alive⟩ := both.1.live nonempty
    rcases stuck thread member with ended | parked
    · rw [ended] at alive
      cases alive
    · rw [parked] at member
      exact nonempty (both.1.idle member)

/-- A request is served in worker mode and the thread is stopped while it waits. -/
theorem careful_runs_never_stuck_oneRequest : ∃ final,
    GuardedRun State.step Careful (initial true)
      [.setDirect false, .control 0 none, .control 0 none, .control 0 none, .thread 0, .thread 0,
        .call, .dispatch 0 false, .submit 0 (some (.thread 0)), .thread 0, .thread 0, .thread 0,
        .thread 0, .setDirect true, .control 1 none, .control 1 none, .control 1 none,
        .control 1 (some (.thread 0)), .thread 0, .thread 0, .control 1 none] final ∧
    final.threads = [.ended] ∧ final.callers = [.done] ∧ ¬ExitMissed final ∧
    ¬Orphaned final := by
  have run : GuardedRun State.step Careful (initial true)
      [.setDirect false, .control 0 none, .control 0 none, .control 0 none, .thread 0, .thread 0,
        .call, .dispatch 0 false, .submit 0 (some (.thread 0)), .thread 0, .thread 0, .thread 0,
        .thread 0, .setDirect true, .control 1 none, .control 1 none, .control 1 none,
        .control 1 (some (.thread 0)), .thread 0, .thread 0, .control 1 none] _ :=
    .cons trivial rfl (.cons trivial rfl (.cons trivial rfl (.cons nofun rfl (.cons trivial rfl
      (.cons trivial rfl (.cons trivial rfl (.cons trivial rfl
        (.cons ⟨.parked, by decide, rfl⟩ rfl (.cons trivial rfl (.cons trivial rfl
          (.cons trivial rfl (.cons trivial rfl (.cons trivial rfl (.cons trivial rfl
            (.cons trivial rfl (.cons (by decide : Thread.checked ∉ [Thread.parked]) rfl
              (.cons trivial rfl (.cons trivial rfl (.cons trivial rfl (.cons trivial rfl
                (.nil _)))))))))))))))))))))
  exact ⟨_, run, rfl, rfl, (careful_runs_never_stuck run).1, (careful_runs_never_stuck run).2⟩

/-- The exit flag is set and notified between the thread's look at it and its
wait: the thread waits for good. In the other run a caller has read the mode
before the thread is stopped and submits its request afterwards. -/
theorem block_worker_gets_stuck :
    (∃ final, GuardedRun State.step (fun _ _ => True) (initial true)
      [.setDirect false, .control 0 none, .control 0 none, .control 0 none, .thread 0,
        .setDirect true, .control 1 none, .control 1 none, .control 1 none, .control 1 none,
        .thread 0] final ∧ ExitMissed final) ∧
    ∃ final, GuardedRun State.step (fun _ _ => True) (initial true)
      [.setDirect false, .control 0 none, .control 0 none, .control 0 none, .call,
        .dispatch 0 false, .setDirect true, .control 1 none, .control 1 none, .control 1 none,
        .control 1 none, .thread 0, .thread 0, .submit 0 none] final ∧ Orphaned final := by
  constructor
  · refine ⟨_, .cons trivial rfl (.cons trivial rfl (.cons trivial rfl (.cons trivial rfl
      (.cons trivial rfl (.cons trivial rfl (.cons trivial rfl (.cons trivial rfl
        (.cons trivial rfl (.cons trivial rfl (.cons trivial rfl (.nil _))))))))))), rfl,
      by decide, ?_⟩
    intro thread member
    simp [initial, setControl, setThread] at member
  · exact ⟨_, .cons trivial rfl (.cons trivial rfl (.cons trivial rfl (.cons trivial rfl
      (.cons trivial rfl (.cons trivial rfl (.cons trivial rfl (.cons trivial rfl
        (.cons trivial rfl (.cons trivial rfl (.cons trivial rfl (.cons trivial rfl
          (.cons trivial rfl (.cons trivial rfl (.nil _)))))))))))))), 0, by decide, by decide⟩

end State

end MoonShot.Cache.Worker
