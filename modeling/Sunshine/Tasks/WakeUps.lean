import Sunshine.Lib.Threads
import Sunshine.Tasks.WorkerSteps

/-! Runs of the thread pool, and when its workers wake up in time.

A worker tests and waits under the lock, so a task that `push` adds has a worker that is still to test. A timer task
that comes without a notification has only the deadlines that the workers went to sleep with. -/
namespace Sunshine.Tasks.ThreadPool
open Transitions
set_option autoImplicit false

section Counts

variable {Time : Type} {s : State Time} {shared : Shared Time} {workers : List (Worker Time)} {i : ℕ} {w : Worker Time}

/-! ## Where the tasks are -/

def hands (workers : List (Worker Time)) : List ℕ := (workers.map Worker.hand).flatten

/-- A task that is to be run at once, is in a worker's hands, or was run. -/
def active (s : State Time) (t : ℕ) : ℕ :=
  s.shared.pool.tasks.count t + (hands s.workers).count t + s.shared.ran.count t

structure Counted (s : State Time) : Prop where
  atMostOne : ∀ t, active s t + timed s.shared.pool t ≤ 1
  known : ∀ t, t ∉ s.shared.created → active s t + timed s.shared.pool t = 0
  placed : ∀ t ∈ s.shared.pushed, 1 ≤ active s t

theorem Counted.created_of_pushed (h : Counted s) {t : ℕ} (ht : t ∈ s.shared.pushed) : t ∈ s.shared.created := by
  by_contra hnew
  have hnone := h.known t hnew
  have hplaced := h.placed t ht
  omega

theorem hands_set (hget : workers[i]? = some w) (w' : Worker Time) (t : ℕ) :
    (hands (workers.set i w')).count t + w.hand.count t = (hands workers).count t + w'.hand.count t := by
  obtain ⟨front, back, rfl, rfl⟩ := Threads.split_of_getElem hget
  rw [List.set_append_right _ _ le_rfl, Nat.sub_self, List.set_cons_zero]
  simp only [hands, List.map_append, List.map_cons, List.flatten_append, List.flatten_cons, List.count_append]
  omega

theorem hand_wake (w : Worker Time) : w.wake.hand = w.hand := by
  cases w <;> rfl

theorem hands_map_wake (workers : List (Worker Time)) : hands (workers.map Worker.wake) = hands workers := by
  unfold hands
  rw [List.map_map]
  exact congrArg List.flatten (List.map_congr_left fun w _ => hand_wake w)

theorem hands_modify_wake (workers : List (Worker Time)) (i : ℕ) : hands (workers.modify i Worker.wake) = hands workers := by
  unfold hands
  induction workers generalizing i with
  | nil => simp
  | cons w workers ih =>
    cases i with
    | zero => simp [hand_wake]
    | succ i => simp [ih i]

theorem hands_notify (i : ℕ) (workers : List (Worker Time)) (held : Held) : hands (notify i workers held) = hands workers := by
  cases held with
  | caller notification =>
    cases notification with
    | one => exact hands_modify_wake workers i
    | all => exact hands_map_wake workers
  | _ => rfl

/-- What the counts say behind a new task. -/
theorem Counted.insert (h : Counted s) {task : ℕ} (hnew : task ∉ s.shared.created) {s' : State Time}
    (hcreated : s'.shared.created = task :: s.shared.created)
    (hcount : ∀ t, active s' t + timed s'.shared.pool t = active s t + timed s.shared.pool t + if task = t then 1 else 0)
    (hplaced : ∀ t ∈ s'.shared.pushed, 1 ≤ active s' t) : Counted s' := by
  refine ⟨fun t => ?_, fun t ht => ?_, hplaced⟩
  · rw [hcount t]
    split
    · rename_i heq
      rw [h.known t (heq ▸ hnew)]
    · exact h.atMostOne t
  · rw [hcreated, List.mem_cons, not_or] at ht
    rw [hcount t, h.known t ht.2, if_neg (Ne.symm ht.1)]

/-- A step that loses no task but a timer task. -/
theorem Counted.step (h : Counted s) {s' : State Time} (hcreated : s'.shared.created = s.shared.created)
    (hpushed : s'.shared.pushed = s.shared.pushed)
    (hcount : ∀ t, active s t ≤ active s' t ∧
      active s' t + timed s'.shared.pool t ≤ active s t + timed s.shared.pool t) : Counted s' := by
  refine ⟨fun t => (hcount t).2.trans (h.atMostOne t), fun t ht => ?_, fun t ht => ?_⟩
  · rw [hcreated] at ht
    have hle := (hcount t).2
    rw [h.known t ht] at hle
    omega
  · rw [hpushed] at ht
    exact (h.placed t ht).trans (hcount t).1

end Counts

section Wake

variable {Time : Type} {workers workers' : List (Worker Time)} {i : ℕ} {w u : Worker Time}

/-! ## Who is woken -/

/-- Only a worker that waits is woken. -/
theorem Worker.wake_cases (w : Worker Time) :
    w.isWaiting = false ∧ w.wake = w ∨ w.isWaiting = true ∧ w.wake = .woken := by
  cases w with
  | waiting tp => exact .inr ⟨rfl, rfl⟩
  | _ => exact .inl ⟨rfl, rfl⟩

/-- Some of the workers are woken, and the others stay as they are. -/
def Woken (workers workers' : List (Worker Time)) : Prop :=
  ∀ i : ℕ, workers'[i]? = workers[i]? ∨ workers'[i]? = workers[i]?.map Worker.wake

theorem woken_modify (workers : List (Worker Time)) (i : ℕ) : Woken workers (workers.modify i Worker.wake) := by
  intro j
  by_cases hsame : i = j
  · right
    rw [hsame, List.getElem?_modify_eq]
    rfl
  · left
    rw [List.getElem?_modify_ne _ _ hsame]

theorem woken_map (workers : List (Worker Time)) : Woken workers (workers.map Worker.wake) :=
  fun _ => .inr List.getElem?_map

theorem woken_notify (i : ℕ) (workers : List (Worker Time)) (held : Held) : Woken workers (notify i workers held) := by
  cases held with
  | caller notification =>
    cases notification with
    | one => exact woken_modify workers i
    | all => exact woken_map workers
  | _ => exact fun _ => .inl rfl

theorem Woken.source (h : Woken workers workers') (hu : workers'[i]? = some u) :
    ∃ w, workers[i]? = some w ∧ (u = w ∨ u = w.wake) := by
  rcases h i with hsame | hwoken
  · exact ⟨u, hsame.symm.trans hu, .inl rfl⟩
  · obtain ⟨w, hw, rfl⟩ := Option.map_eq_some_iff.mp (hwoken.symm.trans hu)
    exact ⟨w, hw, .inr rfl⟩

/-- A worker that does not wait is still where it was. -/
theorem Woken.target (h : Woken workers workers') (hw : workers[i]? = some w) (hwaiting : w.isWaiting = false) :
    workers'[i]? = some w := by
  rcases h i with hsame | hwoken
  · exact hsame.trans hw
  · rw [hwoken, hw]
    rcases w.wake_cases with ⟨-, hsame⟩ | ⟨hw, -⟩
    · exact congrArg some hsame
    · exact absurd hw (by simp [hwaiting])

theorem Woken.mem_awake (h : Woken workers workers') (hawake : ∃ w ∈ workers, w.awake) : ∃ w ∈ workers', w.awake := by
  obtain ⟨w, hw, hawake⟩ := hawake
  obtain ⟨i, hget⟩ := List.mem_iff_getElem?.mp hw
  refine ⟨w, List.mem_of_getElem? (h.target hget ?_), hawake⟩
  cases w with
  | waiting tp => cases hawake
  | _ => rfl

theorem Woken.mem_inside (h : Woken workers workers') (hinside : ∃ w, workers[i]? = some w ∧ w.inside) :
    ∃ w, workers'[i]? = some w ∧ w.inside := by
  obtain ⟨w, hw, hinside⟩ := hinside
  refine ⟨w, h.target hw ?_, hinside⟩
  cases w with
  | waiting tp => cases hinside
  | _ => rfl

theorem Woken.ne_nil (h : Woken workers workers') (hne : workers ≠ []) : workers' ≠ [] := by
  obtain ⟨w, rest, rfl⟩ := List.exists_cons_of_ne_nil hne
  rintro rfl
  rcases h 0 with hsame | hwoken
  · cases hsame
  · cases hwoken

end Wake

section Invariant

variable {Time : Type} [LinearOrder Time] {s : State Time} {shared shared' : Shared Time} {w u : Worker Time} {i j : ℕ}

/-! ## The invariant -/

structure Inv (s : State Time) : Prop where
  workers : ∀ i w, s.workers[i]? = some w → WorkerOk s.shared i w
  owner : ∀ i, s.shared.held = .worker i → ∃ w, s.workers[i]? = some w ∧ w.inside
  /-- Where there is something to run, a worker is still to test, or to be notified. -/
  alarm : s.shared.continues → s.shared.pool.tasks ≠ [] → s.shared.held = .caller .one ∨ ∃ w ∈ s.workers, w.awake
  timers : TimersOk s.shared.pool.timerTasks
  counted : Counted s
  populated : s.workers ≠ []

theorem Inv.mem (h : Inv s) (hw : w ∈ s.workers) : ∃ i, s.workers[i]? = some w ∧ WorkerOk s.shared i w := by
  obtain ⟨i, hget⟩ := List.mem_iff_getElem?.mp hw
  exact ⟨i, hget, h.workers i w hget⟩

theorem inv_start {threads : ℕ} (h : 0 < threads) : Inv (start threads : State Time) where
  workers i w hget := by
    rw [List.eq_of_mem_replicate (List.mem_of_getElem? hget)]
    exact .of_awake rfl fun hinside => by cases hinside
  owner i hheld := by cases hheld
  alarm _ htasks := absurd rfl htasks
  timers := ⟨List.Pairwise.nil, fun entry hentry => by cases hentry⟩
  counted := by
    have hnone : ∀ t, active (start threads : State Time) t = 0 := by
      intro t
      simp [active, hands, start, Worker.hand]
    exact ⟨fun t => by rw [hnone]; exact Nat.zero_le 1, fun t _ => by rw [hnone]; rfl, fun t ht => by cases ht⟩
  populated := by
    obtain ⟨threads, rfl⟩ := Nat.exists_eq_succ_of_ne_zero h.ne'
    exact List.cons_ne_nil _ _

/-! ## Steps of the workers -/

theorem Inv.worker (h : Inv s) (now : Time) (he : Enabled s (.worker i now)) : Inv (next s (.worker i now)) := by
  have henabled : s.workers[i]?.any (Worker.able s.shared) = true := he
  obtain ⟨w, hget, hable⟩ := (Option.any_eq_true _ _).mp henabled
  have hnext : next s (.worker i now) =
      { workers := s.workers.set i (w.advance i now s.shared).1, shared := (w.advance i now s.shared).2 } := by
    simp only [next, hget]
  have hok := h.workers i w hget
  have hkept := advance_kept w i now s.shared
  have hheld := advance_held now hok.inside hable
  have hself : (s.workers.set i (w.advance i now s.shared).1)[i]? = some (w.advance i now s.shared).1 :=
    List.getElem?_set_self (List.getElem?_eq_some_iff.mp hget).1
  rw [hnext]
  refine ⟨fun j u hu => ?_, fun j howner => ?_, fun hcontinues htasks => ?_, h.timers.sublist hkept.timerTasks, ?_, ?_⟩
  · by_cases hsame : i = j
    · subst hsame
      obtain rfl : (w.advance i now s.shared).1 = u := Option.some.inj (hself.symm.trans hu)
      exact hok.advance h.timers hable
    · have hu' : s.workers[j]? = some u := by rwa [List.getElem?_set_ne hsame] at hu
      exact hok.other hable hsame (h.workers j u hu')
  · have howner' : (w.advance i now s.shared).2.held = .worker j := howner
    rcases hheld with ⟨hsame, hinside⟩ | ⟨-, hmine, hinside⟩ | ⟨-, hfree, -⟩
    · rw [hsame] at howner'
      obtain ⟨u, hu, huinside⟩ := h.owner j howner'
      by_cases hij : i = j
      · subst hij
        obtain rfl : w = u := Option.some.inj (hget.symm.trans hu)
        exact ⟨_, hself, hinside.trans huinside⟩
      · exact ⟨u, by rw [List.getElem?_set_ne hij]; exact hu, huinside⟩
    · obtain rfl : i = j := Held.worker.inj (hmine.symm.trans howner')
      exact ⟨_, hself, hinside⟩
    · rw [hfree] at howner'
      cases howner'
  · have hcontinues' : s.shared.continues = true := hkept.continues.symm.trans hcontinues
    have htasks' : s.shared.pool.tasks ≠ [] := fun hnil => htasks (List.eq_nil_of_sublist_nil (hnil ▸ hkept.tasks))
    rcases h.alarm hcontinues' htasks' with hone | ⟨u, hu, hawake⟩
    · rcases hheld with ⟨hsame, -⟩ | ⟨hfree, -⟩ | ⟨hmine, -⟩
      · exact .inl (hsame.trans hone)
      · rw [hfree] at hone
        cases hone
      · rw [hmine] at hone
        cases hone
    · obtain ⟨j, hj⟩ := List.mem_iff_getElem?.mp hu
      by_cases hij : i = j
      · subst hij
        obtain rfl : w = u := Option.some.inj (hget.symm.trans hj)
        rcases advance_awake i now hawake hcontinues' with hstill | hnothing
        · exact .inr ⟨_, List.mem_of_getElem? hself, hstill⟩
        · exact absurd hnothing htasks
      · refine .inr ⟨u, List.mem_of_getElem? (i := j) ?_, hawake⟩
        rw [List.getElem?_set_ne hij]
        exact hj
  · refine h.counted.step hkept.created hkept.pushed fun t => ?_
    have hcount := advance_counts w i now s.shared t
    have hhands := hands_set hget (w.advance i now s.shared).1 t
    unfold activeIn at hcount
    unfold active
    dsimp only at hhands ⊢
    omega
  · exact fun hnil => h.populated (List.eq_nil_of_length_eq_zero (by simpa using congrArg List.length hnil))

/-! ## Waking -/

theorem WorkerOk.wake (h : WorkerOk shared i w) : WorkerOk shared i w.wake := by
  rcases w.wake_cases with ⟨-, hsame⟩ | ⟨-, hwoken⟩
  · rw [hsame]
    exact h
  · rw [hwoken]
    exact .of_awake rfl fun hinside => by cases hinside

theorem Inv.wake (h : Inv s) (i : ℕ) : Inv (next s (.wake i)) := by
  have hwoken := woken_modify s.workers i
  refine ⟨fun j u hu => ?_, fun j howner => hwoken.mem_inside (h.owner j howner), fun hcontinues htasks => ?_,
    h.timers, ?_, hwoken.ne_nil h.populated⟩
  · obtain ⟨w, hw, rfl | rfl⟩ := hwoken.source hu
    · exact h.workers j u hw
    · exact (h.workers j w hw).wake
  · exact (h.alarm hcontinues htasks).imp id fun hawake => hwoken.mem_awake hawake
  · refine h.counted.step rfl rfl fun t => ?_
    have hsame : active (next s (.wake i)) t = active s t :=
      congrArg (fun l => _ + l.count t + _) (hands_modify_wake s.workers i)
    rw [hsame]
    exact ⟨le_rfl, le_rfl⟩

/-! ## The notification -/

theorem WorkerOk.release (h : WorkerOk shared i w) (hcaller : ∀ j, shared.held ≠ .worker j)
    (hall : shared.held = .caller .all → w.isWaiting = false) : WorkerOk { shared with held := .free } i w := by
  have houtside : w.inside = true → False := fun hinside => hcaller i (h.inside hinside)
  refine ⟨fun hinside => (houtside hinside).elim, h.pastReady, fun hstaying => ?_, h.leaving, fun _ tp htp => ?_,
    h.emptied⟩
  · rcases h.staying hstaying with hcontinues | hheld
    · exact .inl hcontinues
    · have hawake := hall hheld
      cases w with
      | waiting tp => cases hawake
      | asking => exact (houtside rfl).elim
      | decided tp => exact (houtside rfl).elim
      | _ => cases hstaying
  · by_cases hheld : shared.held = .caller .all
    · have hawake := hall hheld
      cases w with
      | waiting tp => cases hawake
      | decided tp => exact (houtside rfl).elim
      | _ => cases htp
    · exact h.covers hheld tp htp

/-- Where no worker has the lock and none waits, a worker of a pool that is not stopped is still to test. -/
theorem Inv.awake_of_none_waits (h : Inv s) (hcaller : ∀ j, s.shared.held ≠ .worker j)
    (hcontinues : s.shared.continues = true) (hnone : s.workers.any Worker.isWaiting = false) :
    ∃ w ∈ s.workers, w.awake := by
  obtain ⟨w, rest, hworkers⟩ := List.exists_cons_of_ne_nil h.populated
  have hw : w ∈ s.workers := hworkers ▸ List.mem_cons_self
  obtain ⟨i, -, hok⟩ := h.mem hw
  rcases w.cases_of_state with hawake | hpast | hwaiting | hleaving
  · exact ⟨w, hw, hawake⟩
  · exact absurd (hok.inside (Worker.inside_of_pastReady hpast)) (hcaller i)
  · exact absurd (List.any_eq_true.mpr ⟨w, hw, hwaiting⟩) (by simp [hnone])
  · exact absurd (hok.leaving hleaving) (by simp [hcontinues])

theorem Inv.notify (h : Inv s) (he : Enabled s (.notify i)) : Inv (next s (.notify i)) := by
  have hwoken := woken_notify i s.workers s.shared.held
  have hcaller : ∀ j, s.shared.held ≠ .worker j := by
    intro j hheld
    simp only [Enabled, hheld] at he
  refine ⟨fun j u hu => ?_, fun j howner => (by cases howner), fun hcontinues htasks => .inr ?_, h.timers, ?_,
    hwoken.ne_nil h.populated⟩
  · obtain ⟨w, hw, huw⟩ := hwoken.source hu
    have hok := h.workers j w hw
    by_cases hall : s.shared.held = .caller .all
    · -- all that wait are woken
      have hu' : (s.workers.map Worker.wake)[j]? = some u := by
        rw [← hu]
        show _ = (ThreadPool.notify i s.workers s.shared.held)[j]?
        rw [hall]
        rfl
      rw [List.getElem?_map, hw] at hu'
      obtain rfl : w.wake = u := Option.some.inj hu'
      refine hok.wake.release hcaller fun _ => ?_
      cases w <;> rfl
    · have hkept := hok.release hcaller fun hheld => absurd hheld hall
      rcases huw with rfl | rfl
      · exact hkept
      · exact hkept.wake
  · rcases h.alarm hcontinues htasks with hone | hawake
    · have hpick : s.workers.any Worker.isWaiting = true → s.workers[i]?.any Worker.isWaiting = true := by
        simpa only [Enabled, hone] using he
      cases hany : s.workers.any Worker.isWaiting with
      | false => exact hwoken.mem_awake (h.awake_of_none_waits hcaller hcontinues hany)
      | true =>
        obtain ⟨w, hget, hwaiting⟩ := (Option.any_eq_true _ _).mp (hpick hany)
        refine ⟨w.wake, List.mem_of_getElem? (i := i) ?_, ?_⟩
        · show (ThreadPool.notify i s.workers s.shared.held)[i]? = _
          rw [hone]
          show (s.workers.modify i Worker.wake)[i]? = _
          rw [List.getElem?_modify_eq, hget]
          rfl
        · rcases w.wake_cases with ⟨hnot, -⟩ | ⟨-, hawake⟩
          · exact absurd hwaiting (by simp [hnot])
          · rw [hawake]
            rfl
    · exact hwoken.mem_awake hawake
  · refine h.counted.step rfl rfl fun t => ?_
    have hsame : active (next s (.notify i)) t = active s t :=
      congrArg (fun l => _ + l.count t + _) (hands_notify i s.workers s.shared.held)
    rw [hsame]
    exact ⟨le_rfl, le_rfl⟩

/-! ## Calls -/

/-- A call that finds the lock free finds no worker inside. -/
theorem WorkerOk.call (h : WorkerOk shared i w) (hfree : shared.held = .free)
    (hcontinues : shared'.continues = shared.continues ∨ shared'.continues = false ∧ shared'.held = .caller .all)
    (hcovers : shared'.held ≠ .caller .all → ∀ tp ∈ w.deadline, Covers tp shared'.pool.timerTasks)
    (hemptied : w = .exited → ∀ task ∈ shared'.pushed, task ∉ shared'.pool.tasks) : WorkerOk shared' i w := by
  have houtside : w.inside = true → False := by
    intro hinside
    have hheld := h.inside hinside
    rw [hfree] at hheld
    cases hheld
  refine ⟨fun hinside => (houtside hinside).elim, fun hpast => (houtside (Worker.inside_of_pastReady hpast)).elim,
    fun hstaying => ?_, fun hleaving => ?_, hcovers, hemptied⟩
  · rcases hcontinues with hsame | ⟨-, hall⟩
    · refine .inl (hsame.trans ((h.staying hstaying).resolve_right ?_))
      rw [hfree]
      exact Held.noConfusion
    · exact .inr hall
  · rcases hcontinues with hsame | ⟨hstopped, -⟩
    · exact hsame.trans (h.leaving hleaving)
    · exact hstopped

theorem Inv.push (h : Inv s) {task : ℕ} (he : Enabled s (.push task)) : Inv (next s (.push task)) := by
  obtain ⟨hfree, hnew⟩ := he
  have hactive : ∀ t, active (next s (.push task)) t = active s t + if task = t then 1 else 0 := by
    intro t
    show (s.shared.pool.tasks ++ [task]).count t + (hands s.workers).count t + s.shared.ran.count t = _
    rw [List.count_append, List.count_singleton]
    simp only [active, beq_iff_eq]
    omega
  refine ⟨fun i w hw => ?_, fun i howner => (by cases howner), fun _ _ => .inl rfl, h.timers, ?_, h.populated⟩
  · have hok := h.workers i w hw
    refine hok.call hfree (.inl rfl) (fun _ => hok.covers (by rw [hfree]; exact Held.noConfusion)) fun hexited t ht => ?_
    have hstopped : s.shared.continues = false := hok.leaving (by rw [hexited]; rfl)
    have hpushed : t ∈ s.shared.pushed := by simpa [next, Shared.insert, hstopped] using ht
    intro hmem
    rcases List.mem_append.mp hmem with hmem | hmem
    · exact hok.emptied hexited t hpushed hmem
    · rw [List.mem_singleton.mp hmem] at hpushed
      exact hnew (h.counted.created_of_pushed hpushed)
  · refine h.counted.insert hnew rfl (fun t => ?_) fun t ht => ?_
    · rw [hactive t]
      show _ + timed s.shared.pool t = _
      omega
    · rw [hactive t]
      rcases List.mem_append.mp ht with hold | hlast
      · exact Nat.le_add_right_of_le (h.counted.placed t hold)
      · have heq : t = task := by
          cases hcontinues : s.shared.continues with
          | true => simpa [Shared.insert, hcontinues] using hlast
          | false => simp [Shared.insert, hcontinues] at hlast
        rw [if_pos heq.symm]
        exact Nat.le_add_left 1 _

/-- Both forms of `pushDelayed`. -/
theorem Inv.insert (h : Inv s) {time : Time} {task : ℕ} {held : Held} (hfree : s.shared.held = .free)
    (hnew : task ∉ s.shared.created) (hheld : ∀ i, held ≠ .worker i) (hup : held ≠ .caller .all → AllUpBy s time) :
    Inv { s with shared := s.shared.insert task (s.shared.pool.pushDelayed time task) held } := by
  refine ⟨fun i w hw => ?_, fun i howner => absurd howner (hheld i), fun hcontinues htasks => ?_, ?_, ?_, h.populated⟩
  · have hok := h.workers i w hw
    refine hok.call hfree (.inl rfl) (fun hnotified tp htp entry hentry => ?_) hok.emptied
    rcases mem_pushDelayed s.shared.pool task hentry with hold | hnewtime
    · exact hok.covers (by rw [hfree]; exact Held.noConfusion) tp htp entry hold
    · rw [hnewtime]
      exact hup hnotified w (List.mem_of_getElem? hw) tp htp
  · refine .inr ((h.alarm hcontinues htasks).resolve_left ?_)
    rw [hfree]
    exact Held.noConfusion
  · exact (timersOk_next_iff h.timers (.pushDelayed time task)).mpr trivial
  · refine h.counted.insert hnew rfl (fun t => ?_) h.counted.placed
    have htimed := timed_pushDelayed s.shared.pool time task t
    show active s t + timed (s.shared.pool.pushDelayed time task) t = _
    omega

theorem Inv.stop (h : Inv s) (he : Enabled s .stop) : Inv (next s .stop) := by
  have hfree : s.shared.held = .free := he
  refine ⟨fun i w hw => ?_, fun i howner => (by cases howner), fun hcontinues => (by cases hcontinues), h.timers,
    h.counted.step rfl rfl fun t => ⟨le_rfl, le_rfl⟩, h.populated⟩
  have hok := h.workers i w hw
  exact hok.call hfree (.inr ⟨rfl, rfl⟩) (fun hall => absurd rfl hall) hok.emptied

/-- `delay` and `cancel` change the timer tasks, whoever has the lock. -/
theorem Inv.timers_step (h : Inv s) {pool : TaskPool Time} (htasks : pool.tasks = s.shared.pool.tasks)
    (htimers : TimersOk pool.timerTasks) (htimed : ∀ t, timed pool t ≤ timed s.shared.pool t)
    (hcovers : s.shared.held ≠ .caller .all → ∀ w ∈ s.workers, ∀ tp ∈ w.deadline, Covers tp s.shared.pool.timerTasks →
      Covers tp pool.timerTasks) : Inv { s with shared := { s.shared with pool } } := by
  refine ⟨fun i w hw => ?_, h.owner, fun hcontinues hne => h.alarm hcontinues (htasks ▸ hne), htimers, ?_, h.populated⟩
  · have hok := h.workers i w hw
    exact ⟨hok.inside, fun hpast => htasks.trans (hok.pastReady hpast), hok.staying, hok.leaving,
      fun hall tp htp => hcovers hall w (List.mem_of_getElem? hw) tp htp (hok.covers hall tp htp),
      fun hexited task htask => htasks ▸ hok.emptied hexited task htask⟩
  · refine h.counted.step rfl rfl fun t => ?_
    have hsame : active { s with shared := { s.shared with pool } } t = active s t := by
      unfold active
      rw [htasks]
    rw [hsame]
    exact ⟨le_rfl, Nat.add_le_add_left (htimed t) _⟩

theorem Inv.cancel (h : Inv s) (taskId : ℕ) : Inv (next s (.cancel taskId)) :=
  h.timers_step rfl ((timersOk_next_iff h.timers (.cancel taskId)).mpr trivial) (timed_cancel s.shared.pool)
    fun _ _ _ _ _ hcovers entry hentry => hcovers entry (mem_cancel s.shared.pool hentry)

theorem Inv.delay (h : Inv s) {taskId : ℕ} {time : Time} (htime : InTime s (.delay taskId time)) :
    Inv (next s (.delay taskId time)) := by
  by_cases hfound : ∃ entry ∈ s.shared.pool.timerTasks, entry.task = some taskId
  · obtain ⟨horder, hup⟩ := htime hfound
    refine h.timers_step rfl ((timersOk_next_iff h.timers (.delay taskId time)).mpr horder)
      (fun t => (timed_delay s.shared.pool t).le) fun hall w hw tp htp hcovers entry hentry => ?_
    rcases mem_delay s.shared.pool hentry with hold | ⟨hnewtime, -⟩
    · exact hcovers entry hold
    · rw [hnewtime]
      exact hup hall w hw tp htp
  · have habsent : Absent taskId s.shared.pool.timerTasks :=
      fun entry hentry htask => hfound ⟨entry, hentry, htask⟩
    have hsame : next s (.delay taskId time) = s := by
      show { s with shared := { s.shared with pool := s.shared.pool.delay taskId time } } = s
      rw [delay_absent s.shared.pool habsent]
    rw [hsame]
    exact h

theorem Inv.next (h : Inv s) {e : Event Time} (he : Enabled s e) (htime : InTime s e) : Inv (next s e) := by
  cases e with
  | push task => exact h.push he
  | pushDelayed time task =>
    exact h.insert he.1 he.2 (fun i => Held.noConfusion) fun hall => absurd rfl hall
  | pushDelayedPair time task => exact h.insert he.1 he.2 (fun i => Held.noConfusion) fun _ => htime
  | delay taskId time => exact h.delay htime
  | cancel taskId => exact h.cancel taskId
  | stop => exact h.stop he
  | notify i => exact h.notify he
  | worker i now => exact h.worker now he
  | wake i => exact h.wake i

end Invariant

end Sunshine.Tasks.ThreadPool
