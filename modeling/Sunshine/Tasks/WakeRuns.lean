import Sunshine.Tasks.WakeUps

/-! In which runs the workers of the thread pool wake up in time, and how they end. -/
namespace Sunshine.Tasks.ThreadPool
open Transitions
set_option autoImplicit false

section Ends

variable {Time : Type} {workers : List (Worker Time)} {i : ℕ} {w : Worker Time}

/-! ## Behind `stop` -/

/-- How many steps a worker is away from its end, one that waits to be notified included. -/
def Worker.rank : Worker Time → ℕ
  | .exited => 0
  | .draining => 1
  | .drainRunning _ | .atLoop | .checking => 2
  | .running _ | .testing | .woken => 3
  | .locking | .waiting _ => 4
  | .popping | .decided _ => 5
  | .asking => 6

def Held.pending : Held → ℕ
  | .caller _ => 1
  | _ => 0

/-- A task that is taken costs its worker up to three steps. -/
def workIn (shared : Shared Time) : ℕ :=
  3 * (shared.pool.tasks.length + shared.pool.timerTasks.length) + shared.held.pending

def ranks (workers : List (Worker Time)) : ℕ := (workers.map Worker.rank).sum

def workLeft (s : State Time) : ℕ := workIn s.shared + ranks s.workers

theorem ranks_set (hget : workers[i]? = some w) (w' : Worker Time) :
    ranks (workers.set i w') + w.rank = ranks workers + w'.rank := by
  obtain ⟨front, back, rfl, rfl⟩ := Threads.split_of_getElem hget
  rw [List.set_append_right _ _ le_rfl, Nat.sub_self, List.set_cons_zero]
  simp only [ranks, List.map_append, List.map_cons, List.sum_append, List.sum_cons]
  omega

theorem rank_wake (w : Worker Time) : w.wake.rank ≤ w.rank := by
  cases w with
  | waiting tp => exact Nat.le_succ 3
  | _ => exact le_rfl

theorem ranks_notify (i : ℕ) (workers : List (Worker Time)) (held : Held) :
    ranks (notify i workers held) ≤ ranks workers := by
  have hmap : ∀ l : List (Worker Time), ranks (l.map Worker.wake) ≤ ranks l := by
    intro l
    induction l with
    | nil => exact le_rfl
    | cons w l ih => exact Nat.add_le_add (rank_wake w) ih
  have hmodify : ∀ (l : List (Worker Time)) (i : ℕ), ranks (l.modify i Worker.wake) ≤ ranks l := by
    intro l
    induction l with
    | nil => simp
    | cons w l ih =>
      intro i
      cases i with
      | zero => exact Nat.add_le_add_right (rank_wake w) _
      | succ i => exact Nat.add_le_add_left (ih i) _
  cases held with
  | caller notification =>
    cases notification with
    | one => exact hmodify workers i
    | all => exact hmap workers
  | _ => exact le_rfl

end Ends

section Runs

variable {Time : Type} [LinearOrder Time] {s : State Time} {shared : Shared Time} {w : Worker Time} {i : ℕ} {now : Time}

theorem advance_rank (i : ℕ) (now : Time) (hstopped : shared.continues = false) (hable : w.able shared = true) :
    workIn (w.advance i now shared).2 + (w.advance i now shared).1.rank < workIn shared + w.rank := by
  have hpop : ∀ p : TaskPool Time, (p.pop now).1 = none ∧ (p.pop now).2 = p ∨ (∃ task, (p.pop now).1 = some task) ∧
      (p.pop now).2.tasks.length + (p.pop now).2.timerTasks.length + 1 = p.tasks.length + p.timerTasks.length := by
    intro p
    rcases pop_cases p now with ⟨task, tasks, htasks, hpop⟩ | ⟨-, ⟨front, entry, hlast, hpop⟩ | hpop⟩
    · refine .inr ⟨⟨_, by rw [hpop]⟩, ?_⟩
      rw [hpop, htasks, List.length_cons]
      dsimp only
      omega
    · refine .inr ⟨⟨_, by rw [hpop]⟩, ?_⟩
      rw [hpop, hlast, List.length_append, List.length_singleton]
      dsimp only
      omega
    · rw [hpop]
      exact .inl ⟨rfl, rfl⟩
  cases w with
  | popping =>
    rw [advance_popping]
    rcases hpop shared.pool with ⟨hnone, hsame⟩ | ⟨⟨task, hsome⟩, hless⟩
    · rw [hnone, hsame]
      exact Nat.lt_succ_self _
    · rw [hsome]
      simp only [workIn, Worker.rank, Option.elim_some]
      omega
  | draining =>
    rw [advance_draining]
    rcases hpop shared.pool with ⟨hnone, hsame⟩ | ⟨⟨task, hsome⟩, hless⟩
    · rw [hnone, hsame]
      exact Nat.lt_succ_self _
    · rw [hsome]
      simp only [workIn, Worker.rank, Option.elim_some]
      omega
  | atLoop =>
    rw [advance_atLoop, hstopped]
    exact Nat.lt_succ_self _
  | testing =>
    rw [advance_testing]
    split
    · simp only [workIn, Worker.rank, Held.pending]
      omega
    · exact Nat.lt_succ_self _
  | checking =>
    rw [advance_checking, hstopped]
    simp only [workIn, Worker.rank, Held.pending, Bool.false_eq_true, if_false]
    omega
  | decided tp =>
    simp only [Worker.advance, workIn, Worker.rank, Held.pending]
    omega
  | locking =>
    simp only [Worker.advance, workIn, Worker.rank, Held.pending]
    omega
  | waiting tp => cases hable
  | exited => cases hable
  | _ => exact Nat.lt_succ_self _

/-- A step of the workers' own takes them nearer to their end. -/
theorem workLeft_lt (hstopped : s.shared.continues = false) {e : Event Time} (he : Enabled s e) (hown : e.own = true) :
    (next s e).shared.continues = false ∧ workLeft (next s e) < workLeft s := by
  cases e with
  | worker i now =>
    have henabled : s.workers[i]?.any (Worker.able s.shared) = true := he
    obtain ⟨w, hget, hable⟩ := (Option.any_eq_true _ _).mp henabled
    have hrank := advance_rank i now hstopped hable
    have hranks := ranks_set hget (w.advance i now s.shared).1
    have hnext : next s (.worker i now) =
        { workers := s.workers.set i (w.advance i now s.shared).1, shared := (w.advance i now s.shared).2 } := by
      simp only [next, hget]
    rw [hnext]
    refine ⟨(advance_kept w i now s.shared).continues.trans hstopped, ?_⟩
    unfold workLeft
    dsimp only
    omega
  | notify i =>
    refine ⟨hstopped, ?_⟩
    have hranks := ranks_notify i s.workers s.shared.held
    have hpending : s.shared.held.pending = 1 := by
      cases hheld : s.shared.held with
      | caller notification => rfl
      | _ => simp only [Enabled, hheld] at he
    have hwork : workIn (next s (.notify i)).shared + 1 = workIn s.shared := by
      unfold workIn
      rw [hpending]
      rfl
    have hworkers : (next s (.notify i)).workers = notify i s.workers s.shared.held := rfl
    unfold workLeft
    rw [hworkers]
    omega
  | _ => cases hown

/-- Where no worker can take a step and no caller is to notify, all workers have ended. -/
theorem Inv.ended (h : Inv s) [Inhabited Time] (hstopped : s.shared.continues = false)
    (hnone : ∀ e : Event Time, e.own → ¬Enabled s e) : ∀ w ∈ s.workers, w = .exited := by
  have hunable : ∀ (i : ℕ) (w : Worker Time), s.workers[i]? = some w → w.able s.shared = false := by
    intro i w hget
    by_contra hable
    refine hnone (.worker i default) rfl ?_
    show s.workers[i]?.any (Worker.able s.shared) = true
    rw [hget]
    simpa using hable
  have hfree : s.shared.held = .free := by
    cases hheld : s.shared.held with
    | free => rfl
    | worker i =>
      obtain ⟨w, hget, hinside⟩ := h.owner i hheld
      have hstuck := hunable i w hget
      cases w with
      | testing | checking | asking | decided tp => cases hstuck
      | _ => cases hinside
    | caller notification =>
      exfalso
      cases notification with
      | all => exact hnone (.notify 0) rfl (by simp only [Enabled, hheld])
      | one =>
        cases hany : s.workers.any Worker.isWaiting with
        | false => exact hnone (.notify 0) rfl (by simp [Enabled, hheld, hany])
        | true =>
          obtain ⟨w, hw, hwaiting⟩ := List.any_eq_true.mp hany
          obtain ⟨i, hget⟩ := List.mem_iff_getElem?.mp hw
          exact hnone (.notify i) rfl (by simp [Enabled, hheld, hget, hwaiting])
  intro w hw
  obtain ⟨i, hget, hok⟩ := h.mem hw
  have hstuck := hunable i w hget
  cases w with
  | exited => rfl
  | waiting tp =>
    rcases hok.staying rfl with hcontinues | hall
    · rw [hstopped] at hcontinues
      cases hcontinues
    · rw [hfree] at hall
      cases hall
  | locking | woken => simp [Worker.able, hfree] at hstuck
  | _ => cases hstuck

/-! ## All runs -/

theorem Inv.emptied (h : Inv s) (hcontinues : s.shared.continues = true) (hquiet : Quiet s) :
    s.shared.pool.tasks = [] := by
  by_contra htasks
  rcases h.alarm hcontinues htasks with hone | ⟨w, hw, hawake⟩
  · rw [hquiet.1] at hone
    cases hone
  · have hwaiting := hquiet.2 w hw
    cases w with
    | waiting tp => cases hawake
    | _ => cases hwaiting

/-- A task that is neither to be run nor in any hands was run, once. -/
theorem Inv.ran_once (h : Inv s) (hhands : ∀ w ∈ s.workers, w.hand = []) {task : ℕ} (htask : task ∈ s.shared.pushed)
    (hgone : task ∉ s.shared.pool.tasks) : s.shared.ran.count task = 1 := by
  have hnone : hands s.workers = [] := List.flatten_eq_nil_iff.mpr (List.forall_mem_map.mpr hhands)
  have hplaced := h.counted.placed task htask
  have honce := h.counted.atMostOne task
  have hactive : active s task = s.shared.ran.count task := by
    rw [active, hnone, List.count_eq_zero_of_not_mem hgone]
    simp
  omega

theorem Inv.good [Inhabited Time] (h : Inv s) : Good s where
  emptied := h.emptied
  inTime hcontinues hquiet w hw tp htp := by
    obtain ⟨i, -, hok⟩ := h.mem hw
    refine hok.covers ?_ tp htp
    rw [hquiet.1]
    exact Held.noConfusion
  atMostOnce task := by
    have honce := h.counted.atMostOne task
    unfold active at honce
    omega
  once hdone task htask := by
    rcases hdone with ⟨hcontinues, hquiet⟩ | hexited
    · refine h.ran_once (fun w hw => ?_) htask ?_
      · have hwaiting := hquiet.2 w hw
        cases w with
        | waiting tp => rfl
        | _ => cases hwaiting
      · rw [h.emptied hcontinues hquiet]
        exact List.not_mem_nil
    · refine h.ran_once (fun w hw => by rw [hexited w hw]; rfl) htask ?_
      obtain ⟨w, rest, hworkers⟩ := List.exists_cons_of_ne_nil h.populated
      have hw : w ∈ s.workers := hworkers ▸ List.mem_cons_self
      obtain ⟨i, -, hok⟩ := h.mem hw
      exact hok.emptied (hexited w hw) task htask
  bounded hstopped := ⟨workLeft s, fun steps hsteps =>
    hsteps.length_le (fun s => s.shared.continues = false) workLeft hstopped fun s e hs he => workLeft_lt hs he.1 he.2⟩
  ended := h.ended

/-- In a run of the calls in time, with a worker at least, the workers wake up in time and run every task once. -/
theorem workers_wake_in_time [Inhabited Time] (threads : ℕ) (hthreads : 0 < threads) (events : List (Event Time))
    (hruns : Runs (fun s e => Enabled s e ∧ InTime s e) next (start threads) events) :
    Good (events.foldl next (start threads)) :=
  (hruns.invariant Inv (inv_start hthreads) fun _ _ hinv he => hinv.next he.1 he.2).good

/-- One worker runs a task, goes to sleep until the only timer task is due, and ends behind `stop`. -/
def quietRun : List (Event ℕ) :=
  [.push 7, .notify 0, .worker 0 0, .worker 0 0, .worker 0 0, .pushDelayed 5 8, .notify 0] ++
    List.replicate 7 (.worker 0 0) ++ [.pushDelayedPair 9 10, .delay 8 6, .stop, .notify 0] ++
    List.replicate 3 (.worker 0 0)

theorem workers_wake_in_time_once : Good (quietRun.foldl next (start 1)) :=
  workers_wake_in_time 1 (by decide) quietRun (by decide)

/-- A worker that sleeps for ever is not told of a timer task. -/
theorem wake_up_missed : ¬∀ (threads : ℕ) (events : List (Event ℕ)), Runs Enabled next (start threads) events →
    Good (events.foldl next (start threads)) := by
  intro h
  have hgood := h 1 (List.replicate 7 (.worker 0 0) ++ [.pushDelayedPair 5 7]) (by decide)
  obtain ⟨time, htime, -⟩ := hgood.inTime rfl ⟨rfl, by decide⟩ (.waiting none) (by decide) none rfl
    ⟨5, some 7⟩ List.mem_cons_self
  cases htime

end Runs

end Sunshine.Tasks.ThreadPool
