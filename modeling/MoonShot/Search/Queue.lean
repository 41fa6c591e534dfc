import MoonShot.Lib.Machine

/-!
The search queue (`EnqueueWithMode`, `StopSearchWorkers`, `SearchWorkerLoop`).

Owns the queue with its stop flag, the phases of the workers and of the owner,
and the step function: one action is one locked section, one notification, one
spawn, one join or one unlocked step of a worker, so a list of actions is an
interleaving. Owns also what holds in every reachable state: where each task
is, that nobody sleeps through a notification, and what is true when
`StopSearchWorkers` returns.

Does not own what a task computes. Tasks are numbered in the order in which
they are enqueued.
-/

namespace MoonShot.Search

open MoonShot.Lib

/-- Where a worker stands in `SearchWorkerLoop`. -/
inductive Worker where
  /-- About to take the lock. -/
  | entering
  /-- Waiting on the condition variable, with no wake-up pending. -/
  | parked
  /-- Woken, about to take the lock again. -/
  | woken
  /-- Has popped the task. -/
  | holding (task : Nat)
  /-- Has executed the task. -/
  | executed (task : Nat)
  | exited
deriving DecidableEq

namespace Worker

def holds (task : Nat) : Worker → Bool
  | .holding held => held = task
  | .executed held => held = task
  | _ => false

/-- The worker will look at the queue again without being notified. -/
def awake : Worker → Bool
  | .parked => false
  | .exited => false
  | _ => true

end Worker

/-- Where the owner of the context stands. -/
inductive Owner where
  | idle
  /-- `StopSearchWorkers` has returned. -/
  | stopped
  /-- In `EnsureSearchWorkersStarted`, with this many threads to spawn. -/
  | spawning (left : Nat)
  /-- About to push the new task. -/
  | pushing
  /-- Has pushed, `notify_one` is still to come. -/
  | notifying
  /-- Has set `stop`, `notify_all` is still to come. -/
  | flagged
  | joining
deriving DecidableEq

structure SearchQueue where
  queue : List Nat
  stop : Bool
  workers : List Worker
  owner : Owner
  enqueued : Nat
  replied : List Nat

inductive Action where
  /-- `EnqueueWithMode` begins. -/
  | enqueue
  | spawn
  | push
  /-- `notify_one` reaches this worker, or nobody waits. -/
  | notifyOne (worker : Option Nat)
  /-- `StopSearchWorkers` begins. -/
  | stop
  | notifyAll
  | join
  /-- A worker's locked section, up to its wait, its return or its pop. -/
  | look (worker : Nat)
  /-- A wake-up without a notification. -/
  | spurious (worker : Nat)
  | execute (worker : Nat)
  | reply (worker : Nat)
deriving DecidableEq

namespace SearchQueue

def start : SearchQueue := ⟨[], false, [], .idle, 0, []⟩

def setWorker (state : SearchQueue) (index : Nat) (worker : Worker) : SearchQueue :=
  { state with workers := state.workers.set index worker }

/-- The owner has no call in progress. -/
def ownerFree (state : SearchQueue) : Bool := state.owner = .idle || state.owner = .stopped

/-- The locked section of a worker. -/
def look (state : SearchQueue) (index : Nat) : SearchQueue :=
  match state.queue with
  | [] => state.setWorker index (if state.stop then .exited else .parked)
  | task :: rest => { state.setWorker index (.holding task) with queue := rest }

/-- One step; `workerCount` is what `EnqueueWithMode` asks for. `none`: the
action is not enabled. -/
def step (workerCount : Nat) (state : SearchQueue) : Action → Option SearchQueue
  | .enqueue =>
      if state.ownerFree = false then none
      else if state.workers ≠ [] then some { state with owner := .pushing }
      else some { state with stop := false, owner := .spawning (max workerCount 1) }
  | .spawn =>
      match state.owner with
      | .spawning (left + 1) =>
          some { state with
            workers := state.workers ++ [.entering]
            owner := if left = 0 then .pushing else .spawning left }
      | _ => none
  | .push =>
      if state.owner = .pushing then
        some { state with
          queue := state.queue ++ [state.enqueued]
          enqueued := state.enqueued + 1
          owner := .notifying }
      else none
  | .notifyOne target =>
      if state.owner = .notifying then
        match target with
        | none => if .parked ∈ state.workers then none else some { state with owner := .idle }
        | some index =>
            if state.workers[index]? = some .parked then
              some { state.setWorker index .woken with owner := .idle }
            else none
      else none
  | .stop =>
      if state.ownerFree = false then none
      else if state.workers = [] then some { state with owner := .stopped }
      else some { state with stop := true, owner := .flagged }
  | .notifyAll =>
      if state.owner = .flagged then
        some { state with
          workers := state.workers.map fun worker => if worker = .parked then .woken else worker
          owner := .joining }
      else none
  | .join =>
      if state.owner = .joining then
        match state.workers with
        | [] => some { state with owner := .stopped }
        | .exited :: rest => some { state with workers := rest }
        | _ => none
      else none
  | .look index =>
      if state.workers[index]? = some .entering ∨ state.workers[index]? = some .woken then
        some (state.look index)
      else none
  | .spurious index =>
      if state.workers[index]? = some .parked then some (state.setWorker index .woken) else none
  | .execute index =>
      match state.workers[index]? with
      | some (.holding task) => some (state.setWorker index (.executed task))
      | _ => none
  | .reply index =>
      match state.workers[index]? with
      | some (.executed task) =>
          some { state.setWorker index .entering with replied := state.replied ++ [task] }
      | _ => none

/-- Workers that hold the task. -/
def held (state : SearchQueue) (task : Nat) : Nat := state.workers.countP (Worker.holds task)

/-! ## The invariant -/

/-- The owner is inside `EnqueueWithMode` or has come out of it. -/
def serving (state : SearchQueue) : Bool :=
  match state.owner with
  | .idle => true
  | .spawning _ => true
  | .pushing => true
  | .notifying => true
  | _ => false

structure Consistent (state : SearchQueue) : Prop where
  accounted : ∀ task, state.queue.count task + state.held task + state.replied.count task =
    if task < state.enqueued then 1 else 0
  exited : .exited ∈ state.workers → state.queue = []
  staffed : state.workers = [] → state.queue = []
  awake : state.owner ≠ .notifying → state.queue ≠ [] →
    ∃ worker ∈ state.workers, worker.awake = true
  flagged : state.stop = true → state.owner ≠ .flagged → .parked ∉ state.workers
  serving : state.serving = true → state.stop = false ∧ .exited ∉ state.workers
  manned : state.owner = .pushing ∨ state.owner = .notifying → state.workers ≠ []
  spawning : ∀ left, state.owner = .spawning left → left ≠ 0 ∧ state.queue = []
  returned : state.owner = .stopped → state.workers = []

theorem consistent_start : Consistent start where
  accounted := by simp [start, held]
  exited := by simp [start]
  staffed := by simp [start]
  awake := by simp [start]
  flagged := by simp [start]
  serving := by simp [start]
  manned := by simp [start]
  spawning := by simp [start]
  returned := by simp [start]

variable {workerCount : Nat} {state next : SearchQueue}

/-- A worker moves on without touching the queue or the replies. -/
theorem Consistent.setWorker (consistent : Consistent state) {index : Nat} {before after : Worker}
    (found : state.workers[index]? = some before)
    (sameTask : ∀ task, after.holds task = before.holds task) (awake : after.awake = true) :
    Consistent (state.setWorker index after) := by
  have new := mem_set_self found after
  have old : ∀ worker ∈ state.workers.set index after, worker ∈ state.workers ∨ worker = after :=
    fun worker member => List.mem_or_eq_of_mem_set member
  have gone : ∀ worker, worker.awake = false → worker ∈ state.workers.set index after →
      worker ∈ state.workers := by
    intro worker asleep member
    rcases old worker member with stays | changed
    · exact stays
    · rw [changed, awake] at asleep
      cases asleep
  have manned : state.workers.set index after ≠ [] := List.ne_nil_of_mem new
  constructor
  · intro task
    have counts := countP_set_add state.workers (Worker.holds task) found after
    rw [sameTask task] at counts
    have sameHeld : (state.setWorker index after).held task = state.held task :=
      Nat.add_right_cancel counts
    rw [sameHeld]
    exact consistent.accounted task
  · intro member
    exact consistent.exited (gone .exited rfl member)
  · intro none_
    exact absurd none_ manned
  · intro _ _
    exact ⟨after, new, awake⟩
  · intro stop owner member
    exact consistent.flagged stop owner (gone .parked rfl member)
  · intro serving
    exact ⟨(consistent.serving serving).1,
      fun member => (consistent.serving serving).2 (gone .exited rfl member)⟩
  · intro _
    exact manned
  · exact consistent.spawning
  · intro stopped
    have none_ := consistent.returned stopped
    rw [none_] at found
    cases found

/-- The locked section of a worker. -/
theorem Consistent.look (consistent : Consistent state) {index : Nat} {before : Worker}
    (found : state.workers[index]? = some before)
    (free : ∀ task, before.holds task = false) : Consistent (state.look index) := by
  unfold SearchQueue.look
  cases queueEq : state.queue with
  | cons task rest =>
      -- The popped task changes its place, and its holder is awake.
      have moved : ∀ other, (state.workers.set index (.holding task)).countP (Worker.holds other) =
          state.held other + (decide (task = other)).toNat := by
        intro other
        have counts := countP_set_add state.workers (Worker.holds other) found (.holding task)
        rw [free other] at counts
        exact counts
      have new := mem_set_self found (.holding task)
      have notExited : .exited ∉ state.workers := by
        intro member
        rw [consistent.exited member] at queueEq
        cases queueEq
      have stays : ∀ worker, worker ≠ .holding task →
          worker ∈ state.workers.set index (.holding task) → worker ∈ state.workers := by
        intro worker different member
        exact (List.mem_or_eq_of_mem_set member).resolve_right different
      constructor
      · intro other
        have before := consistent.accounted other
        rw [queueEq, List.count_cons] at before
        show rest.count other + (state.workers.set index (.holding task)).countP _ +
          state.replied.count other = if other < state.enqueued then 1 else 0
        rw [moved other, ← before]
        by_cases same : task = other
        · simp [same]
          omega
        · simp [same]
      · intro member
        exact absurd (stays .exited (by nofun) member) notExited
      · intro none_
        exact absurd none_ (List.ne_nil_of_mem new)
      · intro _ _
        exact ⟨_, new, rfl⟩
      · intro stop owner member
        exact consistent.flagged stop owner (stays .parked (by nofun) member)
      · intro serving
        exact ⟨(consistent.serving serving).1, fun member =>
          (consistent.serving serving).2 (stays .exited (by nofun) member)⟩
      · intro _
        exact List.ne_nil_of_mem new
      · intro left spawning
        have empty := (consistent.spawning left spawning).2
        rw [queueEq] at empty
        cases empty
      · intro stopped
        have none_ := consistent.returned stopped
        rw [none_] at found
        cases found
  | nil =>
      have unheld : ∀ task, (if state.stop then Worker.exited else Worker.parked).holds task =
          false := by
        intro task
        split <;> rfl
      have new := mem_set_self found (if state.stop then Worker.exited else Worker.parked)
      constructor
      · intro task
        have counts := countP_set_add state.workers (Worker.holds task) found
          (if state.stop then Worker.exited else Worker.parked)
        rw [free task, unheld task] at counts
        have sameHeld : (state.setWorker index
            (if state.stop then Worker.exited else Worker.parked)).held task = state.held task :=
          Nat.add_right_cancel counts
        rw [sameHeld]
        exact consistent.accounted task
      · intro _
        exact queueEq
      · intro _
        exact queueEq
      · intro _ nonempty
        exact absurd queueEq nonempty
      · intro stop owner member
        have stopped : state.stop = true := stop
        rw [if_pos stopped] at member
        rcases List.mem_or_eq_of_mem_set member with old | same
        · exact consistent.flagged stop owner old
        · cases same
      · intro serving
        have running := (consistent.serving serving).1
        refine ⟨running, ?_⟩
        intro member
        rw [if_neg (by rw [running]; nofun)] at member
        rcases List.mem_or_eq_of_mem_set member with old | same
        · exact (consistent.serving serving).2 old
        · cases same
      · intro _
        exact List.ne_nil_of_mem new
      · exact consistent.spawning
      · intro stopped
        have none_ := consistent.returned stopped
        rw [none_] at found
        cases found

/-- A worker sends the result of the task it has executed. -/
theorem Consistent.reply (consistent : Consistent state) {index task : Nat}
    (found : state.workers[index]? = some (.executed task)) :
    Consistent { state.setWorker index .entering with replied := state.replied ++ [task] } := by
  have new := mem_set_self found .entering
  have stays : ∀ worker, worker ≠ .entering →
      worker ∈ state.workers.set index .entering → worker ∈ state.workers := by
    intro worker different member
    exact (List.mem_or_eq_of_mem_set member).resolve_right different
  constructor
  · intro other
    have before := consistent.accounted other
    have counts : (state.workers.set index .entering).countP (Worker.holds other) +
        (decide (task = other)).toNat = state.held other :=
      countP_set_add state.workers (Worker.holds other) found .entering
    show state.queue.count other + (state.workers.set index .entering).countP _ +
      (state.replied ++ [task]).count other = if other < state.enqueued then 1 else 0
    rw [List.count_append, List.count_singleton, ← before, ← counts]
    by_cases same : task = other
    · simp [same]
      omega
    · simp [same]
  · intro member
    exact consistent.exited (stays .exited (by nofun) member)
  · intro none_
    exact absurd none_ (List.ne_nil_of_mem new)
  · intro _ _
    exact ⟨_, new, rfl⟩
  · intro stop owner member
    exact consistent.flagged stop owner (stays .parked (by nofun) member)
  · intro serving
    exact ⟨(consistent.serving serving).1, fun member =>
      (consistent.serving serving).2 (stays .exited (by nofun) member)⟩
  · intro _
    exact List.ne_nil_of_mem new
  · exact consistent.spawning
  · intro stopped
    have none_ := consistent.returned stopped
    rw [none_] at found
    cases found

/-- The owner is between two calls. -/
private theorem ownerFree_cases (free : ¬state.ownerFree = false) :
    state.owner = .idle ∨ state.owner = .stopped := by
  simpa only [ownerFree, Bool.not_eq_false, Bool.or_eq_true, decide_eq_true_eq] using free

private theorem Consistent.running (consistent : Consistent state)
    (serving : state.serving = true) : ¬state.stop = true := by
  rw [(consistent.serving serving).1]
  nofun

theorem Consistent.enqueue (consistent : Consistent state)
    (taken : state.step workerCount .enqueue = some next) : Consistent next := by
  dsimp only [step] at taken
  by_cases busy : state.ownerFree = false
  · rw [if_pos busy] at taken
    cases taken
  · rw [if_neg busy] at taken
    by_cases manned : state.workers ≠ []
    · rw [if_pos manned] at taken
      obtain rfl := Option.some.inj taken
      have idle : state.owner = .idle := by
        rcases ownerFree_cases busy with idle | stopped
        · exact idle
        · exact absurd (consistent.returned stopped) manned
      have isServing : state.serving = true := by rw [SearchQueue.serving, idle]
      have running := consistent.running isServing
      exact ⟨consistent.accounted, consistent.exited, consistent.staffed,
        fun _ => consistent.awake (by rw [idle]; nofun), fun stop => absurd stop running,
        fun _ => consistent.serving isServing, fun _ => manned, nofun, nofun⟩
    · rw [if_neg manned] at taken
      obtain rfl := Option.some.inj taken
      have none_ : state.workers = [] := not_not.mp manned
      have empty := consistent.staffed none_
      refine ⟨consistent.accounted, consistent.exited, consistent.staffed,
        fun _ nonempty => absurd empty nonempty, nofun, fun _ => ⟨rfl, ?_⟩, nofun, ?_, nofun⟩
      · show Worker.exited ∉ state.workers
        rw [none_]
        nofun
      · intro left spawning
        obtain rfl : max workerCount 1 = left := Owner.spawning.inj spawning
        exact ⟨by omega, empty⟩

theorem Consistent.spawn (consistent : Consistent state)
    (taken : state.step workerCount .spawn = some next) : Consistent next := by
  dsimp only [step] at taken
  split at taken
  · rename_i left ownerEq
    obtain rfl := Option.some.inj taken
    have empty := (consistent.spawning _ ownerEq).2
    have serving := consistent.serving (by rw [SearchQueue.serving, ownerEq])
    constructor
    · intro task
      have sameHeld : (state.workers ++ [Worker.entering]).countP (Worker.holds task) =
          state.held task := by
        rw [List.countP_append]
        rfl
      show state.queue.count task + (state.workers ++ [Worker.entering]).countP _ + _ = _
      rw [sameHeld]
      exact consistent.accounted task
    · intro _
      exact empty
    · intro _
      exact empty
    · intro _ nonempty
      exact absurd empty nonempty
    · intro stop
      rw [serving.1] at stop
      cases stop
    · intro _
      refine ⟨serving.1, ?_⟩
      intro member
      rcases List.mem_append.mp member with old | new
      · exact serving.2 old
      · cases List.mem_singleton.mp new
    · intro _
      simp
    · intro later spawning
      change (if left = 0 then Owner.pushing else .spawning left) = _ at spawning
      by_cases last : left = 0
      · rw [if_pos last] at spawning
        cases spawning
      · rw [if_neg last] at spawning
        cases spawning
        exact ⟨last, empty⟩
    · intro stopped
      change (if left = 0 then Owner.pushing else .spawning left) = _ at stopped
      split at stopped <;> cases stopped
  · cases taken

theorem Consistent.push (consistent : Consistent state)
    (taken : state.step workerCount .push = some next) : Consistent next := by
  dsimp only [step] at taken
  by_cases pushing : state.owner = .pushing
  · rw [if_pos pushing] at taken
    obtain rfl := Option.some.inj taken
    have serving := consistent.serving (by rw [SearchQueue.serving, pushing])
    have manned := consistent.manned (Or.inl pushing)
    constructor
    · intro task
      have before := consistent.accounted task
      show (state.queue ++ [state.enqueued]).count task + state.held task +
        state.replied.count task = if task < state.enqueued + 1 then 1 else 0
      rw [List.count_append, List.count_singleton]
      by_cases same : state.enqueued = task
      · rw [if_neg (by omega)] at before
        rw [if_pos (by simpa using same), if_pos (by omega)]
        omega
      · rw [if_neg (by simpa using same)]
        by_cases earlier : task < state.enqueued
        · rw [if_pos earlier] at before
          rw [if_pos (by omega)]
          omega
        · rw [if_neg earlier] at before
          rw [if_neg (by omega)]
          omega
    · intro member
      exact absurd member serving.2
    · intro none_
      exact absurd none_ manned
    · intro notNotifying
      exact absurd rfl notNotifying
    · intro stop
      rw [serving.1] at stop
      cases stop
    · intro _
      exact serving
    · intro _
      exact manned
    · nofun
    · nofun
  · rw [if_neg pushing] at taken
    cases taken

theorem Consistent.notifyOne (consistent : Consistent state) {target : Option Nat}
    (taken : state.step workerCount (.notifyOne target) = some next) : Consistent next := by
  dsimp only [step] at taken
  by_cases notifying : state.owner = .notifying
  · rw [if_pos notifying] at taken
    have isServing : state.serving = true := by rw [SearchQueue.serving, notifying]
    have serving := consistent.serving isServing
    have running := consistent.running isServing
    have manned := consistent.manned (Or.inr notifying)
    cases target with
    | none =>
        -- Nobody is parked and nobody has left, so every worker is awake.
        dsimp only at taken
        by_cases parked : .parked ∈ state.workers
        · rw [if_pos parked] at taken
          cases taken
        · rw [if_neg parked] at taken
          obtain rfl := Option.some.inj taken
          refine ⟨consistent.accounted, consistent.exited, consistent.staffed, ?_,
            fun stop => absurd stop running, fun _ => serving, nofun, nofun, nofun⟩
          intro _ _
          obtain ⟨worker, member⟩ := List.exists_mem_of_ne_nil _ manned
          refine ⟨worker, member, ?_⟩
          cases worker with
          | parked => exact absurd member parked
          | exited => exact absurd member serving.2
          | entering => rfl
          | woken => rfl
          | holding _ => rfl
          | executed _ => rfl
    | some index =>
        dsimp only at taken
        by_cases found : state.workers[index]? = some .parked
        · rw [if_pos found] at taken
          obtain rfl := Option.some.inj taken
          have woken : Consistent (state.setWorker index .woken) :=
            consistent.setWorker found (fun _ => rfl) rfl
          refine ⟨woken.accounted, woken.exited, woken.staffed, ?_,
            fun stop => absurd stop running, fun _ => woken.serving isServing, nofun, nofun, nofun⟩
          intro _ _
          exact ⟨.woken, mem_set_self found .woken, rfl⟩
        · rw [if_neg found] at taken
          cases taken
  · rw [if_neg notifying] at taken
    cases taken

theorem Consistent.stop (consistent : Consistent state)
    (taken : state.step workerCount .stop = some next) : Consistent next := by
  dsimp only [step] at taken
  by_cases busy : state.ownerFree = false
  · rw [if_pos busy] at taken
    cases taken
  · rw [if_neg busy] at taken
    have notNotifying : state.owner ≠ .notifying := by
      rcases ownerFree_cases busy with idle | stopped
      · rw [idle]
        nofun
      · rw [stopped]
        nofun
    by_cases none_ : state.workers = []
    · rw [if_pos none_] at taken
      obtain rfl := Option.some.inj taken
      have nobody : ∀ worker, worker ∉ state.workers := by
        rw [none_]
        nofun
      exact ⟨consistent.accounted, consistent.exited, consistent.staffed,
        fun _ => consistent.awake notNotifying, fun _ _ => nobody _, nofun, nofun, nofun,
        fun _ => none_⟩
    · rw [if_neg none_] at taken
      obtain rfl := Option.some.inj taken
      exact ⟨consistent.accounted, consistent.exited, consistent.staffed,
        fun _ => consistent.awake notNotifying, fun _ notFlagged => absurd rfl notFlagged, nofun,
        nofun, nofun, nofun⟩

/-- What `notify_all` makes of a worker. -/
private def notified (worker : Worker) : Worker := if worker = .parked then .woken else worker

private theorem notified_holds (task : Nat) (worker : Worker) :
    (notified worker).holds task = worker.holds task := by
  cases worker <;> rfl

private theorem notified_eq_exited {worker : Worker} (exited : notified worker = .exited) :
    worker = .exited := by
  cases worker <;> first | rfl | cases exited

theorem Consistent.notifyAll (consistent : Consistent state)
    (taken : state.step workerCount .notifyAll = some next) : Consistent next := by
  dsimp only [step] at taken
  by_cases flagged : state.owner = .flagged
  · rw [if_pos flagged] at taken
    obtain rfl := Option.some.inj taken
    constructor
    · intro task
      have sameHeld : (state.workers.map notified).countP (Worker.holds task) =
          state.held task := by
        rw [List.countP_map]
        apply List.countP_congr
        intro worker _
        rw [Function.comp_apply, notified_holds]
      show state.queue.count task + (state.workers.map notified).countP _ + _ = _
      rw [sameHeld]
      exact consistent.accounted task
    · intro member
      obtain ⟨worker, old, exited⟩ := List.mem_map.mp member
      apply consistent.exited
      rw [← notified_eq_exited exited]
      exact old
    · intro none_
      exact consistent.staffed (List.map_eq_nil_iff.mp none_)
    · intro _ nonempty
      obtain ⟨worker, member, awake⟩ := consistent.awake (by rw [flagged]; nofun) nonempty
      refine ⟨notified worker, List.mem_map_of_mem member, ?_⟩
      cases worker <;> first | exact awake | rfl
    · intro _ _ member
      obtain ⟨worker, _, parked⟩ := List.mem_map.mp member
      cases worker <;> cases parked
    · nofun
    · nofun
    · nofun
    · nofun
  · rw [if_neg flagged] at taken
    cases taken

theorem Consistent.join (consistent : Consistent state)
    (taken : state.step workerCount .join = some next) : Consistent next := by
  dsimp only [step] at taken
  by_cases joining : state.owner = .joining
  · rw [if_pos joining] at taken
    have notNotifying : state.owner ≠ .notifying := by
      rw [joining]
      nofun
    split at taken
    · rename_i none_
      obtain rfl := Option.some.inj taken
      have nobody : ∀ worker, worker ∉ state.workers := by
        rw [none_]
        nofun
      exact ⟨consistent.accounted, consistent.exited, consistent.staffed,
        fun _ => consistent.awake notNotifying, fun _ _ => nobody _, nofun, nofun, nofun,
        fun _ => none_⟩
    · rename_i rest workersEq
      obtain rfl := Option.some.inj taken
      have kept : ∀ worker ∈ rest, worker ∈ state.workers := by
        intro worker member
        rw [workersEq]
        exact List.mem_cons_of_mem _ member
      -- The first worker has left, so the queue was empty and stays so.
      have empty : state.queue = [] := by
        apply consistent.exited
        rw [workersEq]
        exact List.mem_cons_self
      refine ⟨?_, fun _ => empty, fun _ => empty, fun _ nonempty => absurd empty nonempty, ?_, ?_,
        ?_, ?_, ?_⟩
      · intro task
        have sameHeld : rest.countP (Worker.holds task) = state.held task := by
          rw [held, workersEq, List.countP_cons]
          rfl
        show state.queue.count task + rest.countP _ + _ = _
        rw [sameHeld]
        exact consistent.accounted task
      · intro stop owner member
        exact consistent.flagged stop owner (kept _ member)
      · intro serving
        rw [SearchQueue.serving] at serving
        simp only [joining] at serving
        cases serving
      · intro owner
        change state.owner = _ ∨ state.owner = _ at owner
        rw [joining] at owner
        rcases owner with owner | owner <;> cases owner
      · intro left owner
        change state.owner = _ at owner
        rw [joining] at owner
        cases owner
      · intro owner
        change state.owner = _ at owner
        rw [joining] at owner
        cases owner
    · cases taken
  · rw [if_neg joining] at taken
    cases taken

theorem Consistent.step (consistent : Consistent state) {action : Action}
    (taken : state.step workerCount action = some next) : Consistent next := by
  cases action with
  | enqueue => exact consistent.enqueue taken
  | spawn => exact consistent.spawn taken
  | push => exact consistent.push taken
  | notifyOne target => exact consistent.notifyOne taken
  | stop => exact consistent.stop taken
  | notifyAll => exact consistent.notifyAll taken
  | join => exact consistent.join taken
  | look index =>
      dsimp only [SearchQueue.step] at taken
      split at taken
      · rename_i at_
        obtain rfl := Option.some.inj taken
        rcases at_ with entering | woken
        · exact consistent.look entering fun _ => rfl
        · exact consistent.look woken fun _ => rfl
      · cases taken
  | spurious index =>
      dsimp only [SearchQueue.step] at taken
      split at taken
      · rename_i parked
        obtain rfl := Option.some.inj taken
        exact consistent.setWorker parked (fun _ => rfl) rfl
      · cases taken
  | execute index =>
      dsimp only [SearchQueue.step] at taken
      split at taken
      · rename_i task holding
        obtain rfl := Option.some.inj taken
        exact consistent.setWorker holding (fun _ => rfl) rfl
      · cases taken
  | reply index =>
      dsimp only [SearchQueue.step] at taken
      split at taken
      · rename_i task executed
        obtain rfl := Option.some.inj taken
        exact consistent.reply executed
      · cases taken

/-! ## Runs -/

/-- Every enqueued task is in exactly one place: in the queue, with one worker,
or among the replies. -/
def ExactlyOnce (state : SearchQueue) : Prop :=
  ∀ task, task < state.enqueued →
    state.queue.count task + state.held task + state.replied.count task = 1

/-- Once the notification after a change is out, nobody sleeps through it. -/
structure NoLostWakeUp (state : SearchQueue) : Prop where
  queued : state.owner ≠ .notifying → state.queue ≠ [] →
    ∃ worker ∈ state.workers, worker.awake = true
  stopped : state.owner ≠ .flagged → state.stop = true → .parked ∉ state.workers

/-- When `StopSearchWorkers` returns, every task so far has its reply and no
worker is left. -/
def StopDrains (state : SearchQueue) : Prop :=
  state.owner = .stopped →
    state.workers = [] ∧ ∀ task, task < state.enqueued → state.replied.count task = 1

/-- In every interleaving of the owner with any number of workers. -/
theorem search_queue_delivers_once {actions : List Action} {final : SearchQueue}
    (run : GuardedRun (SearchQueue.step workerCount) (fun _ _ => True) start actions final) :
    ExactlyOnce final ∧ (∀ task, final.replied.count task ≤ 1) ∧ NoLostWakeUp final ∧
      StopDrains final := by
  have kept : ∀ state action next, Consistent state → True →
      SearchQueue.step workerCount state action = some next → Consistent next := by
    intro state action next before _ taken
    exact before.step taken
  have consistent : Consistent final := run.invariant kept consistent_start
  refine ⟨?_, ?_, ⟨consistent.awake, fun owner stop => consistent.flagged stop owner⟩, ?_⟩
  · intro task below
    have total := consistent.accounted task
    rw [if_pos below] at total
    exact total
  · intro task
    have total := consistent.accounted task
    split at total <;> omega
  · intro stopped
    have none_ := consistent.returned stopped
    refine ⟨none_, ?_⟩
    intro task below
    have total := consistent.accounted task
    rw [if_pos below, consistent.staffed none_, held, none_] at total
    simpa using total

/-- One worker serves one task and is stopped. -/
theorem search_queue_delivers_once_oneTask : ∃ final,
    GuardedRun (SearchQueue.step 1) (fun _ _ => True) start
      [.enqueue, .spawn, .look 0, .push, .notifyOne (some 0), .look 0, .stop, .notifyAll,
        .execute 0, .reply 0, .look 0, .join, .join] final ∧
    final.enqueued = 1 ∧ final.replied = [0] ∧ ExactlyOnce final ∧ NoLostWakeUp final ∧
    StopDrains final := by
  have run : GuardedRun (SearchQueue.step 1) (fun _ _ => True) start
      [.enqueue, .spawn, .look 0, .push, .notifyOne (some 0), .look 0, .stop, .notifyAll,
        .execute 0, .reply 0, .look 0, .join, .join] _ :=
    .cons trivial rfl (.cons trivial rfl (.cons trivial rfl (.cons trivial rfl (.cons trivial rfl
      (.cons trivial rfl (.cons trivial rfl (.cons trivial rfl (.cons trivial rfl
        (.cons trivial rfl (.cons trivial rfl (.cons trivial rfl (.cons trivial rfl
          (.nil _)))))))))))))
  have safe := search_queue_delivers_once run
  exact ⟨_, run, rfl, rfl, safe.1, safe.2.2.1, safe.2.2.2⟩

end SearchQueue

end MoonShot.Search
