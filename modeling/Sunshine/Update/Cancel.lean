import Sunshine.Update.Phases

/-! What a cancellation that succeeded is worth.

The worker that waits for the streams to end looks at `apply_when_idle` under the mutex before it installs. The
worker of an `apply` that found no stream does not, and until it has set the phase `applying` a cancellation succeeds
that it never sees (`cancel_notHonoured`). Where none comes then, `cancel_orderly` holds. -/
namespace Sunshine.Updater
open Threads Transitions
set_option autoImplicit false

/-! ## Cancelled and not accepted since -/

/-- Between a cancellation and an installation an `apply` or a `start` is accepted. -/
def Honoured (history : List Entry) : Prop :=
  ∀ front between back, history = front ++ .cancelled :: between ++ .installs :: back → .accepted ∈ between

def Entry.pending : Entry → Bool → Bool
  | .accepted, _ => false
  | .cancelled, _ => true
  | .installs, before => before

/-- There was a cancellation, and nothing has been accepted since. -/
def pending (history : List Entry) : Bool := history.foldl (fun before entry => entry.pending before) false

theorem pending_append (history : List Entry) (entry : Entry) :
    pending (history ++ [entry]) = entry.pending (pending history) := by
  rw [pending, List.foldl_append, List.foldl_cons, List.foldl_nil, pending]

theorem pending_of_cancelled (front between : List Entry) (h : .accepted ∉ between) :
    pending (front ++ .cancelled :: between) = true := by
  induction between using List.reverseRecOn with
  | nil => rw [pending_append, Entry.pending]
  | append_singleton between entry ih =>
    have hnot : .accepted ∉ between ∧ .accepted ≠ entry := by simpa using h
    rw [← List.cons_append, ← List.append_assoc, pending_append, ih hnot.1]
    cases entry with
    | accepted => exact absurd rfl hnot.2
    | cancelled => rfl
    | installs => rfl

theorem Honoured.append {history : List Entry} (h : Honoured history) {entry : Entry}
    (hpending : entry = .installs → pending history = false) : Honoured (history ++ [entry]) := by
  intro front between back hsplit
  rcases List.eq_nil_or_concat back with rfl | ⟨shorter, last, rfl⟩
  · obtain ⟨rfl, hentry⟩ := List.append_inj' hsplit rfl
    by_contra hnot
    have htrue := pending_of_cancelled front between hnot
    rw [hpending (List.singleton_inj.mp hentry)] at htrue
    cases htrue
  · rw [List.concat_eq_append, ← List.cons_append, ← List.append_assoc] at hsplit
    exact h front between shorter (List.append_inj' hsplit rfl).1

/-! ## Workers that a cancellation reaches -/

/-- The worker of an `apply` that did not wait, before it has set the phase `applying`. -/
def direct : Thread → Bool
  | .applyNow (.enter false) | .applyNow (.look false _) | .applyNow .phase => true
  | _ => false

/-- The worker that waited and goes on. -/
def claimed : Thread → Bool
  | .applyNow .claim | .applyNow (.look true _) | .applyNow .begin => true
  | _ => false

def waiting : Thread → Bool
  | .wait _ | .applyNow (.enter true) => true
  | _ => false

theorem running_of_waiting {u : Thread} (h : waiting u = true) : running u = true := by
  cases u with
  | wait place | applyNow place => rfl
  | _ => cases h

theorem quiet_of_direct {u : Thread} {phase : Phase} (hdirect : direct u = true) (h : shows phase u = true) :
    phase.quiet = true := by
  unfold direct at hdirect
  split at hdirect
  · exact h
  · exact h
  · exact h
  · cases hdirect

theorem applying_of_claimed {u : Thread} {phase : Phase} (hclaimed : claimed u = true) (hinside : inside u = false)
    (h : shows phase u = true) : phase = .applying := by
  unfold claimed at hclaimed
  split at hclaimed
  · cases hinside
  · exact of_decide_eq_true h
  · exact of_decide_eq_true h
  · cases hclaimed

section Cancellation

variable {Tarball : Type} {sha256 : Tarball → Text}

/-- No cancellation succeeds while the worker of an `apply` that did not wait is on its way. -/
def Clear (s : System Tarball) : Event Tarball → Prop
  | .run i _ =>
    s.threads[i]? = some (.cancel .enter) → s.shared.status.phase = .ready → ∀ t ∈ s.threads, direct t = false
  | _ => True

instance decidableClear : ∀ (s : System Tarball) (e : Event Tarball), Decidable (Clear s e)
  | _, .call _ => isTrue trivial
  | s, .run i _ =>
    inferInstanceAs (Decidable (s.threads[i]? = some (.cancel .enter) → s.shared.status.phase = .ready →
      ∀ t ∈ s.threads, direct t = false))
  | _, .sessions _ => isTrue trivial

/-- What a worker does not do once it is cancelled. -/
def Obeys (t : Thread) (g : Shared Tarball) : Prop :=
  pending g.history = true →
    direct t = false ∧ claimed t = false ∧ (waiting t = true → g.applyWhenIdle = false)

/-! ## One step -/

/-- What a step puts down in the history and does to `apply_when_idle`. -/
inductive Records (t : Thread) (g : Shared Tarball) (move : Step Tarball) : Prop where
  | nothing (history : move.shared.history = g.history)
      (idle : move.shared.applyWhenIdle = true → g.applyWhenIdle = true ∨ calling t = true)
  | accepted (history : move.shared.history = g.history ++ [.accepted])
  | cancelled (place : t = .cancel .enter) (phase : g.status.phase = .ready ∨ g.status.phase = .waitingIdle)
      (history : move.shared.history = g.history ++ [.cancelled]) (idle : move.shared.applyWhenIdle = false)
  | installs (place : t = .applyNow .begin) (history : move.shared.history = g.history ++ [.installs])
      (idle : move.shared.applyWhenIdle = g.applyWhenIdle)

theorem records_start (g : Shared Tarball) (place : StartAt) : Records (.start place) g (start g place) := by
  cases place with
  | take =>
    rw [start]
    split_ifs <;> exact .nothing rfl .inl
  | reset => exact .nothing rfl .inl
  | spawn => exact .accepted rfl

theorem records_apply (g : Shared Tarball) (whenIdle : Bool) (place : ApplyAt) :
    Records (.apply whenIdle place) g (apply whenIdle g place) := by
  cases place with
  | check | take | sessions =>
    rw [apply]
    split_ifs <;> exact .nothing rfl .inl
  | refuse => exact .nothing rfl .inl
  | arm => exact .nothing rfl fun _ => .inr rfl
  | spawnWait | spawn => exact .accepted rfl

theorem records_cancel (g : Shared Tarball) (place : CancelAt) : Records (.cancel place) g (cancel g place) := by
  cases place with
  | enter =>
    rw [cancel]
    split_ifs with hphase hwaiting
    · exact .nothing rfl .inl
    · exact .cancelled rfl (.inr hwaiting) rfl rfl
    · refine .cancelled rfl (.inl ?_) rfl rfl
      by_contra hnot
      exact hphase ⟨hnot, hwaiting⟩
  | look =>
    rw [cancel]
    split_ifs <;> exact .nothing rfl .inl
  | complete => exact .nothing rfl .inl

theorem records_wait (g : Shared Tarball) (place : WaitAt) : Records (.wait place) g (waitIdleThenApply g place) := by
  cases place with
  | begin | cancelled => exact .nothing rfl .inl
  | loop | sessions | recheck =>
    rw [waitIdleThenApply]
    split_ifs <;> exact .nothing rfl .inl

theorem records_applyNow (o : Outcome Tarball) (g : Shared Tarball) (place : ApplyNowAt) :
    Records (.applyNow place) g (applyNow o g place) := by
  cases place with
  | enter fromWaitingIdle =>
    rw [applyNow]
    split_ifs <;> exact .nothing rfl .inl
  | look claimed payload =>
    rw [applyNow]
    split_ifs <;> exact .nothing rfl .inl
  | claim => exact .nothing rfl fun h => by cases h
  | begin => exact .installs rfl rfl rfl
  | installing =>
    rw [applyNow]
    split <;> exact .nothing rfl .inl
  | giveUp | missing | phase | failed | restarting | free => exact .nothing rfl .inl

/-- The download worker leaves the history and `apply_when_idle` alone and creates no worker. -/
theorem downloadWorker_idle (sha256 : Tarball → Text) (o : Outcome Tarball) (g : Shared Tarball) (place : DownloadAt) :
    (downloadWorker sha256 o g place).shared.history = g.history ∧
      (downloadWorker sha256 o g place).shared.applyWhenIdle = g.applyWhenIdle ∧
      (downloadWorker sha256 o g place).child = none := by
  refine downloadWorker_cases (P := fun move => move.shared.history = g.history ∧
    move.shared.applyWhenIdle = g.applyWhenIdle ∧ move.child = none) o g place ?_ fun _ => ⟨rfl, rfl, rfl⟩
  cases place <;> simp only [downloadTry] <;> (repeat' split) <;> simp [setPhase, free]

theorem records_downloadWorker (o : Outcome Tarball) (g : Shared Tarball) (place : DownloadAt) :
    Records (.download place) g (downloadWorker sha256 o g place) := by
  obtain ⟨hhistory, hidle, -⟩ := downloadWorker_idle sha256 o g place
  exact .nothing hhistory fun h => .inl (hidle ▸ h)

theorem records_advance (sha256 : Tarball → Text) (o : Outcome Tarball) (t : Thread) (g : Shared Tarball) :
    Records t g (advance sha256 o t g) := by
  cases t with
  | start place => exact records_start g place
  | apply whenIdle place => exact records_apply g whenIdle place
  | cancel place => exact records_cancel g place
  | download place => exact records_downloadWorker o g place
  | wait place => exact records_wait g place
  | applyNow place => exact records_applyNow o g place
  | ended result => exact .nothing rfl .inl

theorem obeys_of_idle {t : Thread} {g : Shared Tarball} (hdirect : direct t = false) (hclaimed : claimed t = false)
    (hwaiting : waiting t = false) : Obeys t g :=
  fun _ => ⟨hdirect, hclaimed, by simp [hwaiting]⟩

theorem obeys_of_accepted {t : Thread} {g : Shared Tarball} {history : List Entry}
    (h : g.history = history ++ [.accepted]) : Obeys t g := by
  intro hpending
  rw [h, pending_append] at hpending
  cases hpending

theorem obeys_downloadWorker (o : Outcome Tarball) (g : Shared Tarball) (place : DownloadAt) :
    Obeys (downloadWorker sha256 o g place).thread (downloadWorker sha256 o g place).shared := by
  refine downloadWorker_cases (P := fun move => Obeys move.thread move.shared) o g place ?_
    fun _ => obeys_of_idle rfl rfl rfl
  cases place <;> simp only [downloadTry] <;> (repeat' split) <;> exact obeys_of_idle rfl rfl rfl

theorem obeys_wait {g : Shared Tarball} {place : WaitAt} (h : Obeys (.wait place) g) :
    Obeys (waitIdleThenApply g place).thread (waitIdleThenApply g place).shared := by
  cases place with
  | begin => exact fun hpending => ⟨rfl, rfl, (h hpending).2.2⟩
  | cancelled => exact obeys_of_idle rfl rfl rfl
  | loop | sessions | recheck =>
    rw [waitIdleThenApply]
    split_ifs <;> exact fun hpending => ⟨rfl, rfl, (h hpending).2.2⟩

theorem obeys_applyNow {o : Outcome Tarball} {g : Shared Tarball} {place : ApplyNowAt} (h : Obeys (.applyNow place) g) :
    Obeys (applyNow o g place).thread (applyNow o g place).shared := by
  cases place with
  | enter fromWaitingIdle =>
    cases fromWaitingIdle with
    | false =>
      intro hpending
      cases (h hpending).1
    | true =>
      intro hpending
      cases hidle : g.applyWhenIdle with
      | false => simp [applyNow, hidle, direct, claimed, waiting]
      | true =>
        rw [applyNow, if_pos rfl, if_pos hidle] at hpending
        rw [(h hpending).2.2 rfl] at hidle
        cases hidle
  | giveUp => exact obeys_of_idle rfl rfl rfl
  | claim =>
    intro hpending
    cases (h hpending).2.1
  | look claimed payload =>
    rw [applyNow]
    split_ifs with hmissing hclaimed
    · exact obeys_of_idle rfl rfl rfl
    · subst hclaimed
      intro hpending
      cases (h hpending).2.1
    · rw [Bool.not_eq_true] at hclaimed
      subst hclaimed
      intro hpending
      cases (h hpending).1
  | phase =>
    intro hpending
    cases (h hpending).1
  | installing =>
    rw [applyNow]
    split <;> exact obeys_of_idle rfl rfl rfl
  | missing | begin | failed | restarting | free => exact obeys_of_idle rfl rfl rfl

theorem obeys_thread {o : Outcome Tarball} {t : Thread} {g : Shared Tarball} (h : Obeys t g) :
    Obeys (advance sha256 o t g).thread (advance sha256 o t g).shared := by
  cases t with
  | start place =>
    cases place <;> simp only [advance, start] <;> (repeat' split) <;> exact obeys_of_idle rfl rfl rfl
  | apply whenIdle place =>
    cases place <;> simp only [advance, apply] <;> (repeat' split) <;> exact obeys_of_idle rfl rfl rfl
  | cancel place =>
    cases place <;> simp only [advance, cancel] <;> (repeat' split) <;> exact obeys_of_idle rfl rfl rfl
  | download place => exact obeys_downloadWorker o g place
  | wait place => exact obeys_wait h
  | applyNow place => exact obeys_applyNow h
  | ended result => exact obeys_of_idle rfl rfl rfl

/-- A worker is created where it is accepted. -/
theorem accepted_of_child {o : Outcome Tarball} {t c : Thread} {g : Shared Tarball}
    (hc : c ∈ (advance sha256 o t g).child) :
    (advance sha256 o t g).shared.history = g.history ++ [.accepted] := by
  cases t with
  | start place =>
    cases place with
    | take =>
      simp only [advance, start] at hc
      split_ifs at hc <;> cases hc
    | reset => cases hc
    | spawn => rfl
  | apply whenIdle place =>
    cases place with
    | spawnWait | spawn => rfl
    | refuse | arm => cases hc
    | check | take | sessions =>
      simp only [advance, apply] at hc
      (repeat' split at hc) <;> cases hc
  | cancel place =>
    cases place <;> simp only [advance, cancel] at hc <;> (repeat' split at hc) <;> cases hc
  | download place =>
    have hnone := (downloadWorker_idle sha256 o g place).2.2
    rw [advance, hnone] at hc
    cases hc
  | wait place =>
    cases place <;> simp only [advance, waitIdleThenApply] at hc <;> (repeat' split at hc) <;> cases hc
  | applyNow place =>
    cases place <;> simp only [advance, applyNow] at hc <;> (repeat' split at hc) <;> cases hc
  | ended result => cases hc

/-- A worker goes on to obey whatever another thread does. -/
theorem obeys_other {o : Outcome Tarball} {t u : Thread} {g : Shared Tarball} (h : Obeys u g)
    (hshows : shows g.status.phase u = true) (hholds : holds t = true → holds u = false)
    (hlocks : locks t = true → inside u = false)
    (hclear : t = .cancel .enter → g.status.phase = .ready → direct u = false) :
    Obeys u (advance sha256 o t g).shared := by
  cases records_advance sha256 o t g with
  | nothing hhistory hidle =>
    intro hpending
    rw [hhistory] at hpending
    obtain ⟨hdirect, hclaimed, hwaiting⟩ := h hpending
    refine ⟨hdirect, hclaimed, fun hu => ?_⟩
    by_contra hnot
    rcases hidle (by simpa using hnot) with hset | hcalling
    · rw [hwaiting hu] at hset
      cases hset
    · -- the flag is set by the thread that has the token
      have hholding : holds t = true := Bool.or_eq_true_iff.mpr (.inr hcalling)
      have hother : holds u = true := Bool.or_eq_true_iff.mpr (.inl (running_of_waiting hu))
      rw [hholds hholding] at hother
      cases hother
  | accepted hhistory => exact obeys_of_accepted hhistory
  | cancelled hplace hphase _ hidle =>
    subst hplace
    intro _
    have hinside := hlocks rfl
    refine ⟨?_, ?_, fun _ => hidle⟩
    · rcases hphase with hready | hwaits
      · exact hclear rfl hready
      · by_contra hdirect
        have hquiet := quiet_of_direct (by simpa using hdirect) hshows
        rw [hwaits] at hquiet
        cases hquiet
    · by_contra hclaimed
      have happlying := applying_of_claimed (by simpa using hclaimed) hinside hshows
      rcases hphase with hready | hwaits
      · rw [hready] at happlying
        cases happlying
      · rw [hwaits] at happlying
        cases happlying
  | installs _ hhistory hidle =>
    intro hpending
    rw [hhistory, pending_append] at hpending
    rw [hidle]
    exact h hpending

/-! ## Runs -/

structure Cancels (s : System Tarball) : Prop where
  honoured : Honoured s.shared.history
  each : ∀ t ∈ s.threads, Obeys t s.shared

theorem cancels_initial (work : Work Tarball) : Cancels (initial work) := by
  constructor
  · intro front between back hsplit
    simp [initial] at hsplit
  · simp [initial]

theorem cancels_next {s : System Tarball} {e : Event Tarball} (hinv : Inv sha256 s) (h : Cancels s)
    (henabled : Enabled sha256 s e) (hclear : Clear s e) : Cancels (next sha256 s e) := by
  cases e with
  | call c =>
    refine ⟨h.honoured, List.forall_mem_append.mpr ⟨h.each, List.forall_mem_singleton.mpr ?_⟩⟩
    cases c <;> exact obeys_of_idle rfl rfl rfl
  | sessions count => exact ⟨h.honoured, h.each⟩
  | run i o =>
    obtain ⟨front, t, back, hsplit, rfl, hfree⟩ := henabled.split
    have ht : t ∈ s.threads := by simp [hsplit]
    constructor
    · rw [next, run_split o hsplit]
      show Honoured (advance sha256 o t s.shared).shared.history
      cases records_advance sha256 o t s.shared with
      | nothing hhistory => exact hhistory ▸ h.honoured
      | accepted hhistory => exact hhistory ▸ h.honoured.append (by simp)
      | cancelled _ _ hhistory => exact hhistory ▸ h.honoured.append (by simp)
      | installs hplace hhistory =>
        refine hhistory ▸ h.honoured.append fun _ => ?_
        by_contra hpending
        have hclaimed := (h.each t ht (by simpa using hpending)).2.1
        rw [hplace] at hclaimed
        cases hclaimed
    · refine hinv.counted.each_run hsplit hfree o Obeys h.each (obeys_thread (h.each t ht)) ?_ ?_
      · exact fun c hc => obeys_of_accepted (accepted_of_child hc)
      · intro u hmem hu hholds hlocks
        refine obeys_other hu (hinv.each u hmem) hholds hlocks fun hplace hready => ?_
        exact hclear ((getElem_of_split hsplit).trans (congrArg some hplace)) hready u hmem

/-! ## Without a worker -/

/-- The steps that a call with the flag still makes. -/
def callsLeft : Thread → ℕ
  | .start .reset => 2
  | .start .spawn => 1
  | .apply _ .sessions => 3
  | .apply _ .arm => 2
  | .apply _ .refuse | .apply _ .spawnWait | .apply _ .spawn => 1
  | _ => 0

theorem callsLeft_advance {t : Thread} (h : calling t = true) (o : Outcome Tarball) (g : Shared Tarball) :
    callsLeft (advance sha256 o t g).thread < callsLeft t := by
  cases t with
  | start place =>
    cases place with
    | take => cases h
    | reset | spawn => simp [advance, start, callsLeft]
  | apply whenIdle place =>
    cases place with
    | check | take => cases h
    | sessions =>
      simp only [advance, apply]
      (repeat' split) <;> simp [callsLeft]
    | refuse | arm | spawnWait | spawn => simp [advance, apply, callsLeft]
  | _ => cases h

/-- A call of `start` and its steps. -/
def startEvents (s : System Tarball) (o : Outcome Tarball) : List (Event Tarball) :=
  [.call .start, .run s.threads.length o, .run s.threads.length o, .run s.threads.length o]

/-- The updater is at rest, and a `start` is accepted. -/
structure Rests (sha256 : Tarball → Text) (s : System Tarball) : Prop where
  quiet : s.shared.status.phase.quiet = true
  busy : (status s.shared).busy = true → s.shared.status.phase = .restarting
  starts : ∀ o, Runs (Enabled sha256) (next sha256) s (startEvents s o) ∧
    ((startEvents s o).foldl (next sha256) s).shared.history = s.shared.history ++ [.accepted]

theorem not_locked {s : System Tarball} (h : Inv sha256 s) (hfree : s.shared.workerRunning = false) :
    s.locked = false := by
  have hnone : s.threads.countP inside = 0 := by
    rw [List.countP_eq_zero]
    intro t ht hinside
    have hshows := h.each t ht
    have hholds := h.counted.not_holds ht hfree
    have hquiet := h.quiet hfree
    cases t with
    | cancel place =>
      cases place with
      | enter => cases hinside
      | look =>
        rw [of_decide_eq_true hshows] at hquiet
        cases hquiet
      | complete => cases hshows
    | applyNow place => cases hholds
    | _ => cases hinside
  have hinsider := h.counted.insider
  rw [show s.threads.countP (program sha256).inside = 0 from hnone] at hinsider
  cases hlocked : s.locked with
  | false => rfl
  | true => simp [hlocked] at hinsider

theorem run_last (sha256 : Tarball → Text) {s : System Tarball} {l : List Thread} {t : Thread} (hthreads : s.threads = l ++ [t])
    (hlocked : s.locked = false) (o : Outcome Tarball) :
    Enabled sha256 s (.run l.length o) ∧
      next sha256 s (.run l.length o) =
        { threads := l ++ [(advance sha256 o t s.shared).thread] ++ (advance sha256 o t s.shared).child.toList
          locked := if locks t then inside (advance sha256 o t s.shared).thread else false
          shared := (advance sha256 o t s.shared).shared } := by
  constructor
  · exact ⟨t, getElem_of_split hthreads, fun _ => .inr hlocked⟩
  · rw [next, run_split o hthreads, hlocked]
    rfl

theorem starts {s : System Tarball} (hfree : s.shared.workerRunning = false) (hlocked : s.locked = false)
    (o : Outcome Tarball) :
    Runs (Enabled sha256) (next sha256) s (startEvents s o) ∧
      ((startEvents s o).foldl (next sha256) s).shared.history = s.shared.history ++ [.accepted] := by
  let called := next sha256 s (.call .start)
  let taken := next sha256 called (.run s.threads.length o)
  let reset := next sha256 taken (.run s.threads.length o)
  have htake := run_last sha256 (s := called) rfl hlocked o
  have htaken : taken = ⟨s.threads ++ [.start .reset], false, { s.shared with workerRunning := true }⟩ := by
    rw [show taken = _ from htake.2]
    simp [called, next, Call.thread, advance, start, hfree, locks]
  have hreset := run_last sha256 (s := taken) (congrArg State.threads htaken) (congrArg State.locked htaken) o
  have hafter : reset.threads = s.threads ++ [.start .spawn] ∧ reset.locked = false ∧
      reset.shared.history = s.shared.history := by
    rw [show reset = _ from hreset.2, htaken]
    simp [advance, start, locks, inside]
  have hspawn := run_last sha256 (s := reset) hafter.1 hafter.2.1 o
  refine ⟨⟨trivial, htake.1, hreset.1, hspawn.1, trivial⟩, ?_⟩
  show (next sha256 reset (.run s.threads.length o)).shared.history = _
  rw [hspawn.2, ← hafter.2.2]
  rfl

theorem rests {s : System Tarball} (h : Inv sha256 s) (hfree : s.shared.workerRunning = false) : Rests sha256 s := by
  have hquiet := h.quiet hfree
  refine ⟨hquiet, fun hbusy => ?_, starts hfree (not_locked h hfree)⟩
  rw [status, hfree, Bool.false_or, h.status.busy] at hbusy
  cases hphase : s.shared.status.phase <;> simp_all [Phase.quiet, Phase.isBusy]

/-- What the updater owes in every order of its steps. -/
structure Orderly (sha256 : Tarball → Text) (s : System Tarball) : Prop where
  honoured : Honoured s.shared.history
  oneWorker : s.threads.countP running ≤ 1
  rests : (∀ t ∈ s.threads, running t = false) → (∃ t ∈ s.threads, calling t = true) ∨ Rests sha256 s
  /-- A call with the flag goes through. -/
  passes : ∀ t ∈ s.threads, calling t = true →
    ∀ o, callsLeft (advance sha256 o t s.shared).thread < callsLeft t

theorem orderly {s : System Tarball} (h : Inv sha256 s) (hhonoured : Honoured s.shared.history) : Orderly sha256 s := by
  refine ⟨hhonoured, ?_, fun hnone => ?_, fun t _ hcalling o => callsLeft_advance hcalling o s.shared⟩
  · have hholds := h.counted.countP_le_one
    have hworkers := List.countP_mono_left (l := s.threads) (p := running) (q := (program sha256).holds)
      fun t _ hrunning => Bool.or_eq_true_iff.mpr (.inl hrunning)
    exact hworkers.trans hholds
  · by_cases hcalls : ∃ t ∈ s.threads, calling t = true
    · exact .inl hcalls
    · refine .inr (Updater.rests h ?_)
      push Not at hcalls
      have hholder := h.counted.holder
      have hzero : s.threads.countP (program sha256).holds = 0 := by
        rw [List.countP_eq_zero]
        intro t ht
        show ¬holds t = true
        simp [holds, hnone t ht, hcalls t ht]
      rw [hzero] at hholder
      cases hrunning : s.shared.workerRunning with
      | false => rfl
      | true => simp [program, hrunning] at hholder

theorem cancel_orderly (sha256 : Tarball → Text) (work : Work Tarball) (l : List (Event Tarball))
    (h : Runs (fun s e => Enabled sha256 s e ∧ Clear s e) (next sha256) (initial work) l) :
    Orderly sha256 (l.foldl (next sha256) (initial work)) := by
  have hkept := h.invariant (fun s => Inv sha256 s ∧ Cancels s) ⟨inv_initial work, cancels_initial work⟩ ?_
  · exact orderly hkept.1 hkept.2.honoured
  · rintro s e ⟨hinv, hcancels⟩ ⟨henabled, hclear⟩
    exact ⟨inv_next hinv henabled, cancels_next hinv hcancels henabled hclear⟩

end Cancellation

/-- A stream is there while the download ends, and the cancellation comes while its worker waits. -/
def cancelledInTime : List (Event ℕ) :=
  .sessions 1 :: downloads ++ List.replicate 5 (.run 1 fine) ++
    [.run 2 fine, .call .cancel, .run 3 fine, .run 3 fine, .run 2 fine, .run 2 fine]

theorem cancel_orderly_inTime :
    Runs (fun s e => Enabled digestOf s e ∧ Clear s e) (next digestOf) (initial nothing) cancelledInTime ∧
      Orderly digestOf (cancelledInTime.foldl (next digestOf) (initial nothing)) :=
  have h : Runs (fun s e => Enabled digestOf s e ∧ Clear s e) (next digestOf) (initial nothing) cancelledInTime := by
    decide +kernel
  ⟨h, cancel_orderly digestOf nothing cancelledInTime h⟩

/-- There is no stream, and the cancellation comes before the worker of the `apply` has set the phase. -/
def cancelledOnTheWay : List (Event ℕ) :=
  downloads ++ List.replicate 4 (.run 1 fine) ++ [.call .cancel, .run 3 fine] ++ List.replicate 4 (.run 2 fine)

theorem cancel_notHonoured :
    Runs (Enabled digestOf) (next digestOf) (initial nothing) cancelledOnTheWay ∧
      (cancelledOnTheWay.foldl (next digestOf) (initial nothing)).shared.history =
        [.accepted, .accepted, .cancelled, .installs] ∧
      ¬Honoured (cancelledOnTheWay.foldl (next digestOf) (initial nothing)).shared.history := by
  have hhistory : (cancelledOnTheWay.foldl (next digestOf) (initial nothing)).shared.history =
      [.accepted, .accepted, .cancelled, .installs] := by decide +kernel
  refine ⟨by decide +kernel, hhistory, fun h => ?_⟩
  rw [hhistory] at h
  cases h [.accepted, .accepted] [] [] rfl

end Sunshine.Updater
