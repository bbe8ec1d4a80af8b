import Sunshine.Tasks.TaskPool

/-! The thread pool (`thread_pool.h`): workers that run the tasks of a task pool.

`_lock` and its condition variable stand between the callers and the workers, `_task_mutex` only around the single
operations of the task pool. A worker tests, asks for the next due time and waits in steps of its own, and `delay` and
`cancel`, which are the task pool's, do not take `_lock`. -/
namespace Sunshine.Tasks.ThreadPool
open Transitions
set_option autoImplicit false

inductive Notification where
  | one
  | all
  deriving DecidableEq, Repr

/-- Who has `_lock`; a caller has its notification still to give. -/
inductive Held where
  | free
  | worker (i : ℕ)
  | caller (notification : Notification)
  deriving DecidableEq, Repr

/-- Where a worker is in `_main`, by what it does next. -/
inductive Worker (Time : Type) where
  | atLoop
  | popping
  | running (task : Option ℕ)
  | locking
  | testing
  | checking
  | asking
  | decided (tp : Option Time)
  | waiting (tp : Option Time)
  | woken
  | draining
  | drainRunning (task : Option ℕ)
  | exited
  deriving DecidableEq, Repr

structure Shared (Time : Type) where
  pool : TaskPool Time := {}
  held : Held := .free
  continues : Bool := true
  /-- The tasks there have been, those that `push` was given before `stop`, and those that were run. -/
  created : List ℕ := []
  pushed : List ℕ := []
  ran : List ℕ := []
  deriving DecidableEq, Repr

structure State (Time : Type) where
  workers : List (Worker Time)
  shared : Shared Time := {}
  deriving DecidableEq, Repr

section Model

variable {Time : Type}

def start (threads : ℕ) : State Time := { workers := List.replicate threads .atLoop }

def Worker.isWaiting : Worker Time → Bool
  | .waiting _ => true
  | _ => false

/-- Until when the worker waits or is about to, `none` for ever. -/
def Worker.deadline : Worker Time → Option (Option Time)
  | .decided tp | .waiting tp => some tp
  | _ => none

/-- A worker that waits takes no step of its own; one that needs `_lock` has to find it free. -/
def Worker.able (shared : Shared Time) : Worker Time → Bool
  | .waiting _ | .exited => false
  | .locking | .woken => shared.held = .free
  | _ => true

def Worker.wake : Worker Time → Worker Time
  | .waiting _ => .woken
  | w => w

variable [LinearOrder Time]

/-- The next step of worker `i` in `_main`, by the clock `now`. -/
def Worker.advance (i : ℕ) (now : Time) (shared : Shared Time) : Worker Time → Worker Time × Shared Time
  | .atLoop => (if shared.continues then .popping else .draining, shared)
  | .popping =>
    let (popped, pool) := shared.pool.pop now
    (match popped with | some task => .running task | none => .locking, { shared with pool })
  | .running task => (.atLoop, { shared with ran := shared.ran ++ task.toList })
  | .locking => (.testing, { shared with held := .worker i })
  | .testing => if shared.pool.ready now then (.atLoop, { shared with held := .free }) else (.checking, shared)
  | .checking => if shared.continues then (.asking, shared) else (.draining, { shared with held := .free })
  | .asking => (.decided shared.pool.nextTime, shared)
  | .decided tp => (.waiting tp, { shared with held := .free })
  -- `_lock` is taken again and let go at the end of the block
  | .woken => (.atLoop, shared)
  | .draining =>
    let (popped, pool) := shared.pool.pop now
    (match popped with | some task => .drainRunning task | none => .exited, { shared with pool })
  | .drainRunning task => (.draining, { shared with ran := shared.ran ++ task.toList })
  | w => (w, shared)

/-- A due time is the clock of the call and a duration. -/
inductive Event (Time : Type) where
  | push (task : ℕ)
  | pushDelayed (time : Time) (task : ℕ)
  | pushDelayedPair (time : Time) (task : ℕ)
  | delay (taskId : ℕ) (time : Time)
  | cancel (taskId : ℕ)
  | stop
  /-- The caller notifies and lets `_lock` go; of one that is notified, worker `i` is it. -/
  | notify (i : ℕ)
  | worker (i : ℕ) (now : Time)
  /-- The wait of worker `i` ends by its deadline, or for no reason. -/
  | wake (i : ℕ)
  deriving DecidableEq, Repr

def Shared.insert (shared : Shared Time) (task : ℕ) (pool : TaskPool Time) (held : Held) : Shared Time :=
  { shared with pool, held, created := task :: shared.created }

def notify (i : ℕ) (workers : List (Worker Time)) : Held → List (Worker Time)
  | .caller .one => workers.modify i Worker.wake
  | .caller .all => workers.map Worker.wake
  | _ => workers

def next (s : State Time) : Event Time → State Time
  | .push task =>
    let shared := s.shared.insert task (s.shared.pool.push task) (.caller .one)
    { s with shared := { shared with pushed := shared.pushed ++ if shared.continues then [task] else [] } }
  | .pushDelayed time task =>
    { s with shared := s.shared.insert task (s.shared.pool.pushDelayed time task) (.caller .all) }
  -- this form notifies no one
  | .pushDelayedPair time task =>
    { s with shared := s.shared.insert task (s.shared.pool.pushDelayed time task) .free }
  | .delay taskId time => { s with shared := { s.shared with pool := s.shared.pool.delay taskId time } }
  | .cancel taskId => { s with shared := { s.shared with pool := (s.shared.pool.cancel taskId).2 } }
  | .stop => { s with shared := { s.shared with continues := false, held := .caller .all } }
  | .notify i => { workers := notify i s.workers s.shared.held, shared := { s.shared with held := .free } }
  | .worker i now =>
    match s.workers[i]? with
    | none => s
    | some w =>
      { workers := s.workers.set i (w.advance i now s.shared).1, shared := (w.advance i now s.shared).2 }
  | .wake i => { s with workers := s.workers.modify i Worker.wake }

/-- A call that takes `_lock` finds it free, and a new task is an object of its own. `notify_one` wakes a worker if
one waits. -/
def Enabled (s : State Time) : Event Time → Prop
  | .push task | .pushDelayed _ task | .pushDelayedPair _ task => s.shared.held = .free ∧ task ∉ s.shared.created
  | .delay _ _ | .cancel _ => True
  | .stop => s.shared.held = .free
  | .notify i =>
    match s.shared.held with
    | .caller .one => s.workers.any Worker.isWaiting → s.workers[i]?.any Worker.isWaiting
    | .caller .all => True
    | _ => False
  | .worker i _ => s.workers[i]?.any (Worker.able s.shared)
  | .wake i => s.workers[i]?.any Worker.isWaiting

instance (s : State Time) : DecidablePred (Enabled s)
  | .push task | .pushDelayed _ task | .pushDelayedPair _ task =>
    inferInstanceAs (Decidable (s.shared.held = .free ∧ task ∉ s.shared.created))
  | .delay _ _ | .cancel _ => inferInstanceAs (Decidable True)
  | .stop => inferInstanceAs (Decidable (s.shared.held = .free))
  | .notify i =>
    match h : s.shared.held with
    | .caller .one =>
      decidable_of_iff (s.workers.any Worker.isWaiting → s.workers[i]?.any Worker.isWaiting) (by simp only [Enabled, h])
    | .caller .all => isTrue (by simp only [Enabled, h])
    | .free | .worker _ => isFalse (by simp [Enabled, h])
  | .worker i _ => inferInstanceAs (Decidable (s.workers[i]?.any (Worker.able s.shared) = true))
  | .wake i => inferInstanceAs (Decidable (s.workers[i]?.any Worker.isWaiting = true))

/-! ## What should hold -/

/-- A worker that waits until `tp` is up when the timer tasks are due. -/
def Covers (tp : Option Time) (entries : List (TimerTask Time)) : Prop :=
  ∀ entry ∈ entries, ∃ time, tp = some time ∧ time ≤ entry.time

/-- All workers wait, and no call is between its change and its notification. -/
def Quiet (s : State Time) : Prop := s.shared.held = .free ∧ ∀ w ∈ s.workers, w.isWaiting

/-- A step of a worker, or the notification of a call. -/
def Event.own : Event Time → Bool
  | .worker _ _ | .notify _ => true
  | _ => false

structure Good (s : State Time) : Prop where
  emptied : s.shared.continues → Quiet s → s.shared.pool.tasks = []
  inTime : s.shared.continues → Quiet s → ∀ w ∈ s.workers, ∀ tp ∈ w.deadline, Covers tp s.shared.pool.timerTasks
  /-- No task is run twice, and one that was pushed before `stop` was run when all workers wait, or have ended. -/
  atMostOnce : ∀ task, s.shared.ran.count task ≤ 1
  once : (s.shared.continues ∧ Quiet s ∨ ∀ w ∈ s.workers, w = .exited) → ∀ task ∈ s.shared.pushed,
    s.shared.ran.count task = 1
  /-- Behind `stop` the workers take finitely many steps, and come to no halt before they have ended. -/
  bounded : s.shared.continues = false → ∃ bound, ∀ steps,
    Runs (fun s e => Enabled s e ∧ e.own) next s steps → steps.length ≤ bound
  ended : s.shared.continues = false → (∀ e : Event Time, e.own → ¬Enabled s e) → ∀ w ∈ s.workers, w = .exited

/-- No worker waits, or is about to wait, for longer than until `time`. -/
def AllUpBy (s : State Time) (time : Time) : Prop :=
  ∀ w ∈ s.workers, ∀ tp ∈ w.deadline, ∃ deadline, tp = some deadline ∧ deadline ≤ time

/-- A timer task that comes without a notification comes behind the deadlines of the workers, and `delay` keeps the
timer tasks in order. -/
def InTime (s : State Time) : Event Time → Prop
  | .pushDelayedPair time _ => AllUpBy s time
  | .delay taskId time => (∃ entry ∈ s.shared.pool.timerTasks, entry.task = some taskId) →
      InOrder s.shared.pool (.delay taskId time) ∧ (s.shared.held ≠ .caller .all → AllUpBy s time)
  | _ => True

instance (s : State Time) (time : Time) : Decidable (AllUpBy s time) :=
  inferInstanceAs (Decidable (∀ w ∈ s.workers, ∀ tp ∈ w.deadline, ∃ deadline, tp = some deadline ∧ deadline ≤ time))

instance (s : State Time) : DecidablePred (InTime s)
  | .pushDelayedPair time _ => inferInstanceAs (Decidable (AllUpBy s time))
  | .delay taskId time => inferInstanceAs (Decidable ((∃ entry ∈ s.shared.pool.timerTasks, entry.task = some taskId) →
      InOrder s.shared.pool (.delay taskId time) ∧ (s.shared.held ≠ .caller .all → AllUpBy s time)))
  | .push _ | .pushDelayed _ _ | .cancel _ | .stop | .notify _ | .worker _ _ | .wake _ =>
    inferInstanceAs (Decidable True)

end Model

end Sunshine.Tasks.ThreadPool
