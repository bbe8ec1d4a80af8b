import Sunshine.Lib.Threads
import Sunshine.Tasks.ThreadPool
import Sunshine.Tasks.TimerOrder

/-! One step of a worker of the thread pool: who holds the lock, what stays of the tasks, and what a deadline covers.

`WorkerOk` says what holds of a worker by where it is; its own step keeps it, and so do the steps of the others. -/
namespace Sunshine.Tasks.ThreadPool
open Agenda Transitions
set_option autoImplicit false

section Cancel

variable {Time : Type} (p : TaskPool Time) {taskId : ℕ} {entry : TimerTask Time}

def timed (p : TaskPool Time) (task : ℕ) : ℕ := (p.timerTasks.filterMap TimerTask.task).count task

theorem mem_cancel (h : entry ∈ (p.cancel taskId).2.timerTasks) : entry ∈ p.timerTasks := by
  have hentry : entry ∈ (cancelLoop taskId p.timerTasks).2 := h
  rcases absent_or_split taskId p.timerTasks with habsent | ⟨front, found, back, hsplit⟩
  · rw [cancelLoop_absent habsent] at hentry
    exact hentry
  · rw [cancelLoop_split hsplit] at hentry
    rw [hsplit.eq]
    exact (List.Sublist.append_left (List.sublist_cons_self found back) front).subset hentry

theorem timed_cancel (t : ℕ) : timed (p.cancel taskId).2 t ≤ timed p t := by
  show ((cancelLoop taskId p.timerTasks).2.filterMap TimerTask.task).count t ≤ _
  rcases absent_or_split taskId p.timerTasks with habsent | ⟨front, found, back, hsplit⟩
  · rw [cancelLoop_absent habsent]
    exact le_rfl
  · rw [cancelLoop_split hsplit, timed, hsplit.eq]
    exact ((List.Sublist.append_left (List.sublist_cons_self found back) front).filterMap _).count_le t

end Cancel

section Pool

variable {Time : Type} [LinearOrder Time] (p : TaskPool Time) (now : Time) {taskId : ℕ} {time : Time}
  {entry : TimerTask Time}

/-! ## The task pool -/

theorem pop_cases : (∃ task tasks, p.tasks = task :: tasks ∧ p.pop now = (some (some task), { p with tasks })) ∨
    p.tasks = [] ∧ ((∃ front entry, p.timerTasks = front ++ [entry] ∧
      p.pop now = (some entry.task, { p with timerTasks := front })) ∨ p.pop now = (none, p)) := by
  by_cases htasks : p.tasks = []
  · refine .inr ⟨htasks, ?_⟩
    rcases List.eq_nil_or_concat p.timerTasks with hempty | ⟨front, entry, hlast⟩
    · exact .inr (pop_nothing htasks hempty now)
    · rw [List.concat_eq_append] at hlast
      rw [pop_timer htasks hlast]
      split
      · exact .inl ⟨front, entry, hlast, rfl⟩
      · exact .inr rfl
  · obtain ⟨task, tasks, hcons⟩ := List.exists_cons_of_ne_nil htasks
    exact .inl ⟨task, tasks, hcons, pop_tasks hcons now⟩

theorem ready_of_tasks (h : p.ready now = false) : p.tasks = [] := by
  unfold TaskPool.ready at h
  simpa using (Bool.or_eq_false_iff.mp h).1

theorem covers_nextTime (h : TimersOk p.timerTasks) : Covers p.nextTime p.timerTasks := by
  intro entry hentry
  rcases List.eq_nil_or_concat p.timerTasks with hempty | ⟨front, last, hlast⟩
  · rw [hempty] at hentry
    cases hentry
  · rw [List.concat_eq_append] at hlast
    have hsorted := h.sorted
    rw [hlast] at hentry hsorted
    refine ⟨last.time, ?_, hsorted.last_le hentry⟩
    rw [TaskPool.nextTime, hlast, List.getLast?_concat]
    rfl

theorem mem_pushDelayed (task : ℕ) (h : entry ∈ (p.pushDelayed time task).timerTasks) :
    entry ∈ p.timerTasks ∨ entry.time = time := by
  rcases List.mem_cons.mp ((place_perm _ _).mem_iff.mp h) with rfl | h
  · exact .inr rfl
  · exact .inl h

/-- The entry with the id has the new time, and the others are as they were. -/
theorem delay_perm (time : Time) (hsplit : ∃ front found back, Split taskId p.timerTasks front found back) :
    ∃ found rest, found.task = some taskId ∧ p.timerTasks.Perm (found :: rest) ∧
      (p.delay taskId time).timerTasks.Perm ({ found with time } :: rest) := by
  obtain ⟨front, found, back, hsplit⟩ := hsplit
  refine ⟨found, front ++ back, hsplit.found, hsplit.eq ▸ List.perm_middle, ?_⟩
  show (delayLoop taskId time [] p.timerTasks).Perm _
  rw [delayLoop_split hsplit, List.append_nil]
  exact (sift_perm _ _ _).trans (List.Perm.cons _ (List.Perm.append_right back (List.reverse_perm front)))

theorem delay_absent (habsent : Absent taskId p.timerTasks) : p.delay taskId time = p := by
  unfold TaskPool.delay
  rw [delayLoop_absent habsent]
  rfl

theorem mem_delay (h : entry ∈ (p.delay taskId time).timerTasks) :
    entry ∈ p.timerTasks ∨ entry.time = time ∧ ∃ found ∈ p.timerTasks, found.task = some taskId := by
  rcases absent_or_split taskId p.timerTasks with habsent | hsplit
  · rw [delay_absent p habsent] at h
    exact .inl h
  · obtain ⟨found, rest, htask, hbefore, hafter⟩ := delay_perm p time hsplit
    rcases List.mem_cons.mp (hafter.mem_iff.mp h) with rfl | hrest
    · exact .inr ⟨rfl, found, hbefore.mem_iff.mpr List.mem_cons_self, htask⟩
    · exact .inl (hbefore.mem_iff.mpr (List.mem_cons_of_mem found hrest))

/-! ## Counting tasks -/

theorem timed_pushDelayed (time : Time) (task t : ℕ) : timed (p.pushDelayed time task) t = timed p t + if task = t then 1 else 0 := by
  have hperm : ((p.pushDelayed time task).timerTasks.filterMap TimerTask.task).Perm
      (task :: p.timerTasks.filterMap TimerTask.task) := by
    have hplace : (place TimerTask.time ⟨time, some task⟩ p.timerTasks).Perm (⟨time, some task⟩ :: p.timerTasks) :=
      place_perm _ _
    exact hplace.filterMap TimerTask.task
  rw [timed, hperm.count_eq, List.count_cons]
  simp [timed]

theorem timed_delay (t : ℕ) : timed (p.delay taskId time) t = timed p t := by
  rcases absent_or_split taskId p.timerTasks with habsent | hsplit
  · rw [delay_absent p habsent]
  · obtain ⟨found, rest, -, hbefore, hafter⟩ := delay_perm p time hsplit
    rw [timed, (hafter.filterMap TimerTask.task).count_eq, timed, (hbefore.filterMap TimerTask.task).count_eq]
    rfl

end Pool

section Workers

variable {Time : Type}

/-! ## Workers -/

/-- The worker has the lock. -/
def Worker.inside : Worker Time → Bool
  | .testing | .checking | .asking | .decided _ => true
  | _ => false

/-- The worker has found nothing to run, under the lock. -/
def Worker.pastReady : Worker Time → Bool
  | .checking | .asking | .decided _ => true
  | _ => false

/-- The worker has found the pool not stopped, under the lock. -/
def Worker.staying : Worker Time → Bool
  | .asking | .decided _ | .waiting _ => true
  | _ => false

def Worker.leaving : Worker Time → Bool
  | .draining | .drainRunning _ | .exited => true
  | _ => false

/-- The worker is still to test whether there is something to run. -/
def Worker.awake : Worker Time → Bool
  | .atLoop | .popping | .running _ | .locking | .testing | .woken => true
  | _ => false

def Worker.hand : Worker Time → List ℕ
  | .running task | .drainRunning task => task.toList
  | _ => []

theorem Worker.cases_of_state (w : Worker Time) :
    w.awake = true ∨ w.pastReady = true ∨ w.isWaiting = true ∨ w.leaving = true := by
  cases w <;> simp [Worker.awake, Worker.pastReady, Worker.isWaiting, Worker.leaving]

theorem Worker.inside_of_pastReady {w : Worker Time} (h : w.pastReady = true) : w.inside = true := by
  cases w <;> first | rfl | cases h

/-- What holds of worker `i` over the shared state. -/
structure WorkerOk [LinearOrder Time] (shared : Shared Time) (i : ℕ) (w : Worker Time) : Prop where
  inside : w.inside → shared.held = .worker i
  pastReady : w.pastReady → shared.pool.tasks = []
  staying : w.staying → shared.continues = true ∨ shared.held = .caller .all
  leaving : w.leaving → shared.continues = false
  covers : shared.held ≠ .caller .all → ∀ tp ∈ w.deadline, Covers tp shared.pool.timerTasks
  emptied : w = .exited → ∀ task ∈ shared.pushed, task ∉ shared.pool.tasks

/-- What a step of a worker does to the shared state, the mutex apart. -/
structure Kept (shared shared' : Shared Time) : Prop where
  continues : shared'.continues = shared.continues
  created : shared'.created = shared.created
  pushed : shared'.pushed = shared.pushed
  tasks : shared'.pool.tasks.Sublist shared.pool.tasks
  timerTasks : shared'.pool.timerTasks.Sublist shared.pool.timerTasks

theorem Kept.of_pool {shared shared' : Shared Time} (h : shared'.pool = shared.pool) (hcontinues : shared'.continues = shared.continues)
    (hcreated : shared'.created = shared.created) (hpushed : shared'.pushed = shared.pushed) : Kept shared shared' :=
  ⟨hcontinues, hcreated, hpushed, h ▸ List.Sublist.refl _, h ▸ List.Sublist.refl _⟩

end Workers

section Steps

variable {Time : Type} [LinearOrder Time] {w u : Worker Time} {shared : Shared Time} {i j : ℕ} {now : Time}

theorem kept_pop (shared : Shared Time) (now : Time) : Kept shared { shared with pool := (shared.pool.pop now).2 } where
  continues := rfl
  created := rfl
  pushed := rfl
  tasks := by
    rcases pop_cases shared.pool now with ⟨task, tasks, htasks, hpop⟩ | ⟨-, ⟨front, entry, -, hpop⟩ | hpop⟩
    · rw [hpop, htasks]
      exact List.sublist_cons_self task tasks
    · rw [hpop]
    · rw [hpop]
  timerTasks := pop_sublist shared.pool now

theorem advance_atLoop : Worker.atLoop.advance i now shared =
    (if shared.continues then .popping else .draining, shared) := rfl

theorem advance_testing : Worker.testing.advance i now shared =
    if shared.pool.ready now then (.atLoop, { shared with held := .free }) else (.checking, shared) := rfl

theorem advance_checking : Worker.checking.advance i now shared =
    if shared.continues then (.asking, shared) else (.draining, { shared with held := .free }) := rfl

theorem advance_popping : Worker.popping.advance i now shared =
    ((shared.pool.pop now).1.elim .locking .running, { shared with pool := (shared.pool.pop now).2 }) := by
  cases hpopped : (shared.pool.pop now).1 <;> simp only [Worker.advance, hpopped] <;> rfl

theorem advance_draining : Worker.draining.advance i now shared =
    ((shared.pool.pop now).1.elim .exited .drainRunning, { shared with pool := (shared.pool.pop now).2 }) := by
  cases hpopped : (shared.pool.pop now).1 <;> simp only [Worker.advance, hpopped] <;> rfl

theorem advance_kept (w : Worker Time) (i : ℕ) (now : Time) (shared : Shared Time) :
    Kept shared (w.advance i now shared).2 := by
  cases w with
  | popping =>
    rw [advance_popping]
    exact kept_pop shared now
  | draining =>
    rw [advance_draining]
    exact kept_pop shared now
  | testing =>
    rw [advance_testing]
    split <;> exact Kept.of_pool rfl rfl rfl rfl
  | checking =>
    rw [advance_checking]
    split <;> exact Kept.of_pool rfl rfl rfl rfl
  | _ => exact Kept.of_pool rfl rfl rfl rfl

/-- The lock is taken where it is free, let go by the worker that has it, and left alone otherwise. -/
theorem advance_held (now : Time) (hinside : w.inside → shared.held = .worker i) (hable : w.able shared = true) :
    ((w.advance i now shared).2.held = shared.held ∧ (w.advance i now shared).1.inside = w.inside) ∨
    (shared.held = .free ∧ (w.advance i now shared).2.held = .worker i ∧ (w.advance i now shared).1.inside) ∨
    (shared.held = .worker i ∧ (w.advance i now shared).2.held = .free ∧
      (w.advance i now shared).1.inside = false) := by
  cases w with
  | popping =>
    rw [advance_popping]
    refine .inl ⟨rfl, ?_⟩
    cases (shared.pool.pop now).1 <;> rfl
  | draining =>
    rw [advance_draining]
    refine .inl ⟨rfl, ?_⟩
    cases (shared.pool.pop now).1 <;> rfl
  | locking => exact .inr (.inl ⟨by simpa [Worker.able] using hable, rfl, rfl⟩)
  | testing =>
    rw [advance_testing]
    split
    · exact .inr (.inr ⟨hinside rfl, rfl, rfl⟩)
    · exact .inl ⟨rfl, rfl⟩
  | checking =>
    rw [advance_checking]
    split
    · exact .inl ⟨rfl, rfl⟩
    · exact .inr (.inr ⟨hinside rfl, rfl, rfl⟩)
  | decided tp => exact .inr (.inr ⟨hinside rfl, rfl, rfl⟩)
  | atLoop =>
    rw [advance_atLoop]
    split <;> exact .inl ⟨rfl, rfl⟩
  | waiting tp => cases hable
  | exited => cases hable
  | _ => exact .inl ⟨rfl, rfl⟩

/-- A worker that is still to test goes on to, or has found no task. -/
theorem advance_awake (i : ℕ) (now : Time) (hawake : w.awake = true) (hcontinues : shared.continues = true) :
    (w.advance i now shared).1.awake = true ∨ (w.advance i now shared).2.pool.tasks = [] := by
  cases w with
  | popping =>
    rw [advance_popping]
    left
    cases (shared.pool.pop now).1 <;> rfl
  | testing =>
    rw [advance_testing]
    split
    · exact .inl rfl
    · rename_i hready
      exact .inr (ready_of_tasks shared.pool now (by simpa using hready))
  | atLoop =>
    left
    rw [advance_atLoop]
    rw [if_pos hcontinues]
    rfl
  | running task => exact .inl rfl
  | locking => exact .inl rfl
  | woken => exact .inl rfl
  | _ => cases hawake

theorem WorkerOk.of_awake (hawake : w.awake = true) (hinside : w.inside → shared.held = .worker i) :
    WorkerOk shared i w := by
  cases w with
  | atLoop | popping | running task | locking | testing | woken =>
    exact ⟨hinside, fun h => (by cases h), fun h => (by cases h), fun h => (by cases h), fun _ tp h => (by cases h),
      fun h => (by cases h)⟩
  | _ => cases hawake

theorem WorkerOk.of_leaving (hleaving : w.leaving = true) (hstopped : shared.continues = false)
    (hemptied : w = .exited → shared.pool.tasks = []) : WorkerOk shared i w := by
  cases w with
  | draining | drainRunning task | exited =>
    exact ⟨fun h => (by cases h), fun h => (by cases h), fun h => (by cases h), fun _ => hstopped, fun _ tp h => (by cases h),
      fun h task _ hmem => (by rw [hemptied h] at hmem; cases hmem)⟩
  | _ => cases hleaving

/-- The worker that takes a step. -/
theorem WorkerOk.advance (h : WorkerOk shared i w) (htimers : TimersOk shared.pool.timerTasks)
    (hable : w.able shared = true) :
    WorkerOk (w.advance i now shared).2 i (w.advance i now shared).1 := by
  cases w with
  | atLoop =>
    rw [advance_atLoop]
    split
    · exact .of_awake rfl fun h => by cases h
    · rename_i hstopped
      exact .of_leaving rfl (by simpa using hstopped) fun h => by cases h
  | popping =>
    rw [advance_popping]
    cases (shared.pool.pop now).1 <;> exact .of_awake rfl fun h => by cases h
  | running task => exact .of_awake rfl fun h => by cases h
  | locking => exact .of_awake rfl fun _ => rfl
  | testing =>
    rw [advance_testing]
    split
    · exact .of_awake rfl fun h => by cases h
    · rename_i hready
      have hnothing := ready_of_tasks shared.pool now (by simpa using hready)
      exact ⟨fun _ => h.inside rfl, fun _ => hnothing, fun h => (by cases h), fun h => (by cases h),
        fun _ tp h => (by cases h), fun h => (by cases h)⟩
  | checking =>
    rw [advance_checking]
    split
    · rename_i hcontinues
      exact ⟨fun _ => h.inside rfl, fun _ => h.pastReady rfl, fun _ => .inl hcontinues, fun h => (by cases h),
        fun _ tp h => (by cases h), fun h => (by cases h)⟩
    · rename_i hstopped
      exact .of_leaving rfl (by simpa using hstopped) fun h => by cases h
  | asking =>
    refine ⟨fun _ => h.inside rfl, fun _ => h.pastReady rfl, fun _ => h.staying rfl, fun h => (by cases h), ?_,
      fun h => (by cases h)⟩
    intro _ tp htp
    rw [← Option.some.inj htp]
    exact covers_nextTime shared.pool htimers
  | decided tp =>
    -- the worker has the lock, so no notification is to come
    have hheld : shared.held ≠ .caller .all := by
      rw [h.inside rfl]
      exact Held.noConfusion
    exact ⟨fun h => (by cases h), fun h => (by cases h), fun _ => .inl ((h.staying rfl).resolve_right hheld),
      fun h => (by cases h), fun _ => h.covers hheld, fun h => (by cases h)⟩
  | waiting tp => cases hable
  | woken => exact .of_awake rfl fun h => by cases h
  | draining =>
    have hstopped := h.leaving rfl
    rw [advance_draining]
    rcases pop_cases shared.pool now with ⟨task, tasks, -, hpop⟩ | ⟨hnothing, ⟨front, entry, -, hpop⟩ | hpop⟩
    · rw [hpop]
      exact .of_leaving rfl hstopped fun h => by cases h
    · rw [hpop]
      cases entry.task with
      | none => exact .of_leaving rfl hstopped fun _ => hnothing
      | some task => exact .of_leaving rfl hstopped fun _ => hnothing
    · rw [hpop]
      exact .of_leaving rfl hstopped fun _ => hnothing
  | drainRunning task => exact .of_leaving rfl (h.leaving rfl) fun h => by cases h
  | exited => cases hable

/-- The other workers. -/
theorem WorkerOk.other (h : WorkerOk shared i w) (hable : w.able shared = true) (hne : i ≠ j)
    (hu : WorkerOk shared j u) : WorkerOk (w.advance i now shared).2 j u := by
  have hkept := advance_kept w i now shared
  have hheld := advance_held now h.inside hable
  -- a notification that is to come stays so
  have hall : (w.advance i now shared).2.held ≠ .caller .all → shared.held ≠ .caller .all := by
    intro hafter hbefore
    rcases hheld with ⟨hsame, -⟩ | ⟨hfree, -⟩ | ⟨hmine, -⟩
    · exact hafter (hsame.trans hbefore)
    · rw [hfree] at hbefore
      cases hbefore
    · rw [hmine] at hbefore
      cases hbefore
  refine ⟨fun hinside => ?_, fun hpast => ?_, fun hstaying => ?_, fun hleaving => ?_, fun hafter tp htp => ?_,
    fun hexited task htask hmem => ?_⟩
  · have hother := hu.inside hinside
    rcases hheld with ⟨hsame, -⟩ | ⟨hfree, -⟩ | ⟨hmine, -⟩
    · exact hsame.trans hother
    · rw [hfree] at hother
      cases hother
    · rw [hmine] at hother
      exact absurd (Held.worker.inj hother) hne
  · exact List.eq_nil_of_sublist_nil (hu.pastReady hpast ▸ hkept.tasks)
  · by_cases hafter : (w.advance i now shared).2.held = .caller .all
    · exact .inr hafter
    · rw [hkept.continues]
      exact .inl ((hu.staying hstaying).resolve_right (hall hafter))
  · rw [hkept.continues]
    exact hu.leaving hleaving
  · exact fun entry hentry => hu.covers (hall hafter) tp htp entry (hkept.timerTasks.subset hentry)
  · rw [hkept.pushed] at htask
    exact hu.emptied hexited task htask (hkept.tasks.subset hmem)

/-! ## Counting tasks over a step -/

/-- A task in the list, in the hands of the worker, or run. -/
def activeIn (w : Worker Time) (shared : Shared Time) (t : ℕ) : ℕ :=
  shared.pool.tasks.count t + w.hand.count t + shared.ran.count t

theorem pop_counts (p : TaskPool Time) (now : Time) (t : ℕ) :
    p.tasks.count t ≤ (p.pop now).2.tasks.count t + ((p.pop now).1.elim [] Option.toList).count t ∧
    (p.pop now).2.tasks.count t + ((p.pop now).1.elim [] Option.toList).count t + timed (p.pop now).2 t =
      p.tasks.count t + timed p t := by
  rcases pop_cases p now with ⟨task, tasks, htasks, hpop⟩ | ⟨hnothing, ⟨front, entry, hlast, hpop⟩ | hpop⟩
  · rw [hpop, htasks, List.count_cons]
    simp only [Option.elim_some, Option.toList_some, List.count_cons, List.count_nil, timed]
    omega
  · have hlasts : [entry].filterMap TimerTask.task = entry.task.toList := by
      cases htask : entry.task <;> simp [htask]
    rw [hpop, hnothing, timed, timed, hlast, List.filterMap_append, List.count_append, hlasts]
    simp only [Option.elim_some, List.count_nil]
    omega
  · rw [hpop]
    simp

theorem advance_counts (w : Worker Time) (i : ℕ) (now : Time) (shared : Shared Time) (t : ℕ) :
    activeIn w shared t ≤ activeIn (w.advance i now shared).1 (w.advance i now shared).2 t ∧
    activeIn (w.advance i now shared).1 (w.advance i now shared).2 t + timed (w.advance i now shared).2.pool t =
      activeIn w shared t + timed shared.pool t := by
  cases w with
  | popping =>
    have hpop := pop_counts shared.pool now t
    rw [advance_popping]
    cases hpopped : (shared.pool.pop now).1 <;>
      simp only [hpopped, activeIn, Worker.hand, Option.elim_some, Option.elim_none, List.count_nil] at hpop ⊢ <;> omega
  | draining =>
    have hpop := pop_counts shared.pool now t
    rw [advance_draining]
    cases hpopped : (shared.pool.pop now).1 <;>
      simp only [hpopped, activeIn, Worker.hand, Option.elim_some, Option.elim_none, List.count_nil] at hpop ⊢ <;> omega
  | running task =>
    have hran : (shared.ran ++ task.toList).count t = shared.ran.count t + task.toList.count t := List.count_append
    simp only [Worker.advance, activeIn, Worker.hand, hran, List.count_nil]
    omega
  | drainRunning task =>
    have hran : (shared.ran ++ task.toList).count t = shared.ran.count t + task.toList.count t := List.count_append
    simp only [Worker.advance, activeIn, Worker.hand, hran, List.count_nil]
    omega
  | atLoop =>
    rw [advance_atLoop]
    split <;> exact ⟨le_rfl, rfl⟩
  | testing =>
    rw [advance_testing]
    split <;> exact ⟨le_rfl, rfl⟩
  | checking =>
    rw [advance_checking]
    split <;> exact ⟨le_rfl, rfl⟩
  | _ => exact ⟨le_rfl, rfl⟩

end Steps

end Sunshine.Tasks.ThreadPool
