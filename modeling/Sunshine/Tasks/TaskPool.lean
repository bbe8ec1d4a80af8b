import Mathlib.Data.List.Nodup
import Sunshine.Lib.Agenda
import Sunshine.Lib.Transitions

/-! The task pool (`task_pool.h`): tasks that are run as they come, and tasks with a due time.

The timer tasks stand in a list, the one that is due first at its end, where `pop` takes it. `delay` only moves a
task towards the front, and `pop` of an id leaves the entry without its task. `Orderly` says what the list should
be, `InOrder` which calls keep it so. -/
namespace Sunshine.Tasks
open Agenda
set_option autoImplicit false

/-- An entry of `_timer_tasks`; a task that was moved out of its entry leaves none. A task is its id, the address. -/
structure TimerTask (Time : Type) where
  time : Time
  task : Option ℕ
  deriving DecidableEq, Repr

structure TaskPool (Time : Type) where
  tasks : List ℕ := []
  timerTasks : List (TimerTask Time) := []
  deriving DecidableEq, Repr

section Model

variable {Time : Type} [LinearOrder Time]

def TaskPool.push (p : TaskPool Time) (task : ℕ) : TaskPool Time := { p with tasks := p.tasks ++ [task] }

def TaskPool.pushDelayed (p : TaskPool Time) (time : Time) (task : ℕ) : TaskPool Time :=
  { p with timerTasks := place TimerTask.time ⟨time, some task⟩ p.timerTasks }

/-- The entries in front of the iterator are in reverse. -/
def delayLoop (taskId : ℕ) (time : Time) : List (TimerTask Time) → List (TimerTask Time) → List (TimerTask Time)
  | front, [] => front.reverse
  | front, entry :: rest =>
    if entry.task = some taskId then sift TimerTask.time { entry with time } front rest
    else delayLoop taskId time (entry :: front) rest

def TaskPool.delay (p : TaskPool Time) (taskId : ℕ) (time : Time) : TaskPool Time :=
  { p with timerTasks := delayLoop taskId time [] p.timerTasks }

def cancelLoop (taskId : ℕ) : List (TimerTask Time) → Bool × List (TimerTask Time)
  | [] => (false, [])
  | entry :: rest =>
    if entry.task = some taskId then (true, rest)
    else ((cancelLoop taskId rest).1, entry :: (cancelLoop taskId rest).2)

def TaskPool.cancel (p : TaskPool Time) (taskId : ℕ) : Bool × TaskPool Time :=
  ((cancelLoop taskId p.timerTasks).1, { p with timerTasks := (cancelLoop taskId p.timerTasks).2 })

/-- The entry that is found is moved out of the list, and stays in it. -/
def popIdLoop (taskId : ℕ) : List (TimerTask Time) → Option (TimerTask Time) × List (TimerTask Time)
  | [] => (none, [])
  | entry :: rest =>
    if entry.task = some taskId then (some entry, { entry with task := none } :: rest)
    else ((popIdLoop taskId rest).1, entry :: (popIdLoop taskId rest).2)

def TaskPool.popId (p : TaskPool Time) (taskId : ℕ) : Option (TimerTask Time) × TaskPool Time :=
  ((popIdLoop taskId p.timerTasks).1, { p with timerTasks := (popIdLoop taskId p.timerTasks).2 })

/-- A task that is run at once, or the last timer task if it is due by the clock `now`. -/
def TaskPool.pop (p : TaskPool Time) (now : Time) : Option (Option ℕ) × TaskPool Time :=
  match p.tasks with
  | task :: tasks => (some (some task), { p with tasks })
  | [] =>
    match p.timerTasks.getLast? with
    | some entry =>
      if entry.time ≤ now then (some entry.task, { p with timerTasks := p.timerTasks.dropLast }) else (none, p)
    | none => (none, p)

def TaskPool.ready (p : TaskPool Time) (now : Time) : Bool :=
  !p.tasks.isEmpty || p.timerTasks.getLast?.any (·.time ≤ now)

def TaskPool.nextTime (p : TaskPool Time) : Option Time := p.timerTasks.getLast?.map TimerTask.time

/-- The calls; a due time is the clock of the call and a duration. -/
inductive Event (Time : Type) where
  | push (task : ℕ)
  | pushDelayed (time : Time) (task : ℕ)
  | delay (taskId : ℕ) (time : Time)
  | cancel (taskId : ℕ)
  | popId (taskId : ℕ)
  | pop (now : Time)
  deriving DecidableEq, Repr

def next (p : TaskPool Time) : Event Time → TaskPool Time
  | .push task => p.push task
  | .pushDelayed time task => p.pushDelayed time task
  | .delay taskId time => p.delay taskId time
  | .cancel taskId => (p.cancel taskId).2
  | .popId taskId => (p.popId taskId).2
  | .pop now => (p.pop now).2

/-- A new task has an address of its own. -/
def Enabled (p : TaskPool Time) : Event Time → Prop
  | .pushDelayed _ task => ∀ entry ∈ p.timerTasks, entry.task ≠ some task
  | _ => True

instance (p : TaskPool Time) : DecidablePred (Enabled p)
  | .pushDelayed _ task => inferInstanceAs (Decidable (∀ entry ∈ p.timerTasks, entry.task ≠ some task))
  | .push _ | .delay _ _ | .cancel _ | .popId _ | .pop _ => inferInstanceAs (Decidable True)

/-! ## What should hold -/

/-- The due times of the timer tasks that come out when `pop` is called at the clocks. -/
def poppedTimes : List Time → TaskPool Time → List Time
  | [], _ => []
  | now :: clocks, p =>
    (if p.tasks = [] then (p.timerTasks.getLast?.filter (·.time ≤ now)).toList.map TimerTask.time else []) ++
      poppedTimes clocks (p.pop now).2

structure Orderly (p : TaskPool Time) : Prop where
  sorted : p.timerTasks.Pairwise fun a b => b.time ≤ a.time
  full : ∀ entry ∈ p.timerTasks, entry.task ≠ none
  /-- Where a task is to be run, one comes out. -/
  pops : ∀ now, (p.tasks ≠ [] ∨ ∃ entry ∈ p.timerTasks, entry.time ≤ now) → ∃ task, (p.pop now).1 = some (some task)
  /-- A timer task that comes out is due, and none is due before it. -/
  first : p.tasks = [] → ∀ now task, (p.pop now).1 = some (some task) →
    ∃ entry ∈ p.timerTasks, entry.task = some task ∧ entry.time ≤ now ∧ ∀ other ∈ p.timerTasks, entry.time ≤ other.time
  inTurn : ∀ clocks, (poppedTimes clocks p).Pairwise (· ≤ ·)

/-- The other entries stay as they are, in their order. -/
def OthersKept (taskId : ℕ) (p p' : TaskPool Time) : Prop :=
  p'.tasks = p.tasks ∧
    p'.timerTasks.filter (·.task ≠ some taskId) = p.timerTasks.filter (·.task ≠ some taskId)

/-- What `cancel` and `delay` do to the task with the id. -/
def Exact (p : TaskPool Time) : Event Time → Prop
  | .cancel taskId => OthersKept taskId p (p.cancel taskId).2 ∧
      (∀ entry ∈ (p.cancel taskId).2.timerTasks, entry.task ≠ some taskId) ∧
      ((p.cancel taskId).1 = true ↔ ∃ entry ∈ p.timerTasks, entry.task = some taskId)
  | .delay taskId time => OthersKept taskId p (p.delay taskId time) ∧
      (p.delay taskId time).timerTasks.filter (·.task = some taskId) =
        (p.timerTasks.filter (·.task = some taskId)).map fun entry => { entry with time }
  | _ => True

/-- Every state of the run is orderly, and every call there is exact. -/
def KeepsOrder (events : List (Event Time)) : Prop :=
  ∀ before, before <+: events →
    Orderly (before.foldl next {}) ∧ ∀ e, Exact (before.foldl next {}) e

/-- The entries behind the one with the id. -/
def behind (taskId : ℕ) (entries : List (TimerTask Time)) : List (TimerTask Time) :=
  (entries.dropWhile (·.task ≠ some taskId)).tail

/-- A task is not set before one behind it, and no task is popped by its id. -/
def InOrder (p : TaskPool Time) : Event Time → Prop
  | .delay taskId time => ∀ entry ∈ behind taskId p.timerTasks, entry.time ≤ time
  | .popId taskId => ∀ entry ∈ p.timerTasks, entry.task ≠ some taskId
  | _ => True

instance (p : TaskPool Time) : DecidablePred (InOrder p)
  | .delay taskId time => inferInstanceAs (Decidable (∀ entry ∈ behind taskId p.timerTasks, entry.time ≤ time))
  | .popId taskId => inferInstanceAs (Decidable (∀ entry ∈ p.timerTasks, entry.task ≠ some taskId))
  | .push _ | .pushDelayed _ _ | .cancel _ | .pop _ => inferInstanceAs (Decidable True)

end Model

end Sunshine.Tasks
