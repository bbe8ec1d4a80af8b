import Sunshine.Update.Worker

/-! What holds of the updater in every order of its steps (`inv_next`): the flag `worker_running` is a token that at
most one thread has, the phase shows where that thread is, and without one it is a phase at rest.

Every step is of one of a few kinds, and what a kind does is said once. -/
namespace Sunshine.Updater
open Threads
set_option autoImplicit false

/-! ## Phases -/

/-- The phases in which no worker is at work. -/
def Phase.quiet : Phase → Bool
  | .idle | .ready | .restarting | .error | .unsupported => true
  | _ => false

def DownloadAt.shows (phase : Phase) : DownloadAt → Bool
  | .checking | .remove | .fetchRelease | .readRelease | .phaseSums => phase = .checking
  | .fetchSums | .phaseTarball | .fetchTarball | .phaseVerify => phase = .downloading
  | .readSums | .hash _ | .extract | .inspect | .stage | .ready => phase = .verifying
  | .free => phase = .ready
  | .fail _ => true
  | .failed => phase = .error

def ApplyNowAt.shows (phase : Phase) : ApplyNowAt → Bool
  | .enter fromWaitingIdle => if fromWaitingIdle then phase = .waitingIdle else phase.quiet
  | .giveUp | .claim => phase = .waitingIdle
  | .look claimed _ => if claimed then phase = .applying else phase.quiet
  | .missing => phase = .applying || phase.quiet
  | .phase => phase.quiet
  | .begin | .installing | .failed _ | .restarting => phase = .applying
  | .free => phase = .error || phase = .restarting

def StartAt.shows (phase : Phase) : StartAt → Bool
  | .take => true
  | .reset => phase.quiet
  | .spawn => phase = .checking

def ApplyAt.shows (phase : Phase) : ApplyAt → Bool
  | .check | .take => true
  | .sessions | .refuse | .arm | .spawnWait | .spawn => phase.quiet

def CancelAt.shows (phase : Phase) : CancelAt → Bool
  | .enter => true
  | .look => phase = .waitingIdle
  | .complete => false

def WaitAt.shows (phase : Phase) : WaitAt → Bool
  | .begin => phase.quiet
  | .loop | .sessions | .recheck | .cancelled => phase = .waitingIdle

/-- The phases there are while a thread is at its place. -/
def shows (phase : Phase) : Thread → Bool
  | .start place => place.shows phase
  | .apply _ place => place.shows phase
  | .cancel place => place.shows phase
  | .download place => place.shows phase
  | .wait place => place.shows phase
  | .applyNow place => place.shows phase
  | .ended _ => true

section Invariant

variable {Tarball : Type} {sha256 : Tarball → Text}

/-- The flags of the status that its phase decides. -/
structure Status.Consistent (status : Status) : Prop where
  busy : status.busy = status.phase.isBusy
  canApply : status.canApply = decide (status.phase = .ready)

/-! ## One step -/

theorem locks_of_inside {t : Thread} (h : inside t = true) : locks t = true := by
  cases t with
  | cancel place => rfl
  | applyNow place => cases place <;> first | rfl | cases h
  | _ => cases h

/-- What a step of a thread does to the phase and to the token. -/
structure Sound (t : Thread) (g : Shared Tarball) (move : Step Tarball) : Prop where
  thread : shows move.shared.status.phase move.thread = true
  child : ∀ c ∈ move.child, shows move.shared.status.phase c = true ∧ inside c = false
  outside : (locks t || !inside move.thread) = true
  token : (holds t).toNat + move.shared.workerRunning.toNat =
    (holds move.thread).toNat + (move.child.elim false holds).toNat + g.workerRunning.toNat
  quiet : move.shared.workerRunning = false → move.shared.status.phase.quiet = true
  status : g.status.Consistent → move.shared.status.Consistent
  /-- The phase is changed under the mutex and by the thread that has the token. -/
  phase : move.shared.status.phase = g.status.phase ∨ holds t = true ∧ locks t = true

theorem Sound.accounts {t : Thread} {g : Shared Tarball} {move : Step Tarball} (h : Sound t g move) :
    (program sha256).Accounts t g move := by
  refine ⟨locks_of_inside, fun hlocks => ?_, fun c hc => (h.child c hc).2, h.token⟩
  have hout := h.outside
  rw [show locks t = false from hlocks, Bool.false_or, Bool.not_eq_true'] at hout
  exact hout

/-- What is known where a thread makes a step. -/
structure Ready (t : Thread) (g : Shared Tarball) : Prop where
  shows : shows g.status.phase t = true
  taken : holds t = true → g.workerRunning = true
  quiet : g.workerRunning = false → g.status.phase.quiet = true

section Kinds

variable {t u c : Thread} {g g' : Shared Tarball}

/-- A step that leaves the phase and the token alone. -/
theorem sound_same (h : Ready t g) (hshows : shows g.status.phase u = true) (hholds : holds u = holds t)
    (hout : (locks t || !inside u) = true) (hstatus : g'.status = g.status)
    (hrunning : g'.workerRunning = g.workerRunning) : Sound t g ⟨u, g', none⟩ := by
  constructor
  · rw [hstatus]
    exact hshows
  · simp
  · exact hout
  · rw [hholds, hrunning]
    rfl
  · rw [hstatus, hrunning]
    exact h.quiet
  · rw [hstatus]
    exact id
  · exact .inl (by rw [hstatus])

/-- A step that sets the phase. -/
theorem sound_phase (h : Ready t g) (hshows : shows g'.status.phase u = true) (ht : holds t = true)
    (hu : holds u = true) (hlocks : locks t = true) (hconsistent : g'.status.Consistent)
    (hrunning : g'.workerRunning = g.workerRunning) : Sound t g ⟨u, g', none⟩ := by
  constructor
  · exact hshows
  · simp
  · rw [hlocks]
    rfl
  · rw [ht, hu, hrunning]
    rfl
  · intro hfree
    rw [hrunning, h.taken ht] at hfree
    cases hfree
  · exact fun _ => hconsistent
  · exact .inr ⟨ht, hlocks⟩

theorem sound_take (hfree : g.workerRunning = false) (hquiet : g.status.phase.quiet = true)
    (hshows : shows g.status.phase u = true) (ht : holds t = false) (hu : holds u = true)
    (hout : (locks t || !inside u) = true) : Sound t g ⟨u, { g with workerRunning := true }, none⟩ := by
  constructor
  · exact hshows
  · simp
  · exact hout
  · rw [ht, hu, hfree]
    rfl
  · exact fun _ => hquiet
  · exact id
  · exact .inl rfl

theorem sound_free (h : Ready t g) (hquiet : g.status.phase.quiet = true) (hshows : shows g.status.phase u = true)
    (ht : holds t = true) (hu : holds u = false) (hout : (locks t || !inside u) = true) :
    Sound t g ⟨u, free g, none⟩ := by
  constructor
  · exact hshows
  · simp
  · exact hout
  · rw [ht, hu, h.taken ht]
    rfl
  · exact fun _ => hquiet
  · exact id
  · exact .inl rfl

theorem sound_complete (h : Ready t g) (ht : holds t = true) (hlocks : locks t = true) :
    Sound t g ⟨.ended none, completeIdleCancelUnlocked g, none⟩ := by
  constructor
  · rfl
  · simp
  · rw [hlocks]
    rfl
  · rw [ht, h.taken ht]
    rfl
  · exact fun _ => rfl
  · exact fun _ => ⟨rfl, rfl⟩
  · exact .inr ⟨ht, hlocks⟩

theorem sound_spawn (h : Ready t g) (hshows : shows g.status.phase c = true) (ht : holds t = true)
    (hc : holds c = true) (hinside : inside c = false) (hstatus : g'.status = g.status)
    (hrunning : g'.workerRunning = g.workerRunning) : Sound t g ⟨.ended none, g', some c⟩ := by
  constructor
  · rfl
  · intro d hd
    cases hd
    rw [hstatus]
    exact ⟨hshows, hinside⟩
  · simp [inside]
  · rw [ht, Option.elim_some, hc, hrunning, Nat.add_comm]
    simp [holds, running, calling, Nat.add_comm]
  · rw [hstatus, hrunning]
    exact h.quiet
  · rw [hstatus]
    exact id
  · exact .inl (by rw [hstatus])

end Kinds

/-- While the phase is `waiting_idle` the flag is taken. -/
theorem taken_of_waitingIdle {g : Shared Tarball} (hquiet : g.workerRunning = false → g.status.phase.quiet = true)
    (hphase : g.status.phase = .waitingIdle) : g.workerRunning = true := by
  by_contra hnot
  have hrests := hquiet (by simpa using hnot)
  rw [hphase] at hrests
  cases hrests

theorem sound_start {g : Shared Tarball} {place : StartAt} (h : Ready (.start place) g) :
    Sound (.start place) g (start g place) := by
  cases place with
  | take =>
    rw [start]
    split_ifs with hrunning
    · exact sound_same h rfl rfl rfl rfl rfl
    · rw [Bool.not_eq_true] at hrunning
      exact sound_take hrunning (h.quiet hrunning) (h.quiet hrunning) rfl rfl rfl
  | reset => exact sound_phase h rfl rfl rfl rfl ⟨rfl, rfl⟩ rfl
  | spawn => exact sound_spawn h h.shows rfl rfl rfl rfl rfl

theorem sound_apply {g : Shared Tarball} {whenIdle : Bool} {place : ApplyAt} (h : Ready (.apply whenIdle place) g) :
    Sound (.apply whenIdle place) g (apply whenIdle g place) := by
  cases place with
  | check =>
    rw [apply]
    split_ifs
    · exact sound_same h rfl rfl rfl rfl rfl
    · exact sound_same h rfl rfl rfl rfl rfl
  | take =>
    rw [apply]
    split_ifs with hrunning
    · exact sound_same h rfl rfl rfl rfl rfl
    · rw [Bool.not_eq_true] at hrunning
      exact sound_take hrunning (h.quiet hrunning) (h.quiet hrunning) rfl rfl rfl
  | sessions =>
    rw [apply]
    split_ifs
    · exact sound_same h h.shows rfl rfl rfl rfl
    · exact sound_same h h.shows rfl rfl rfl rfl
    · exact sound_same h h.shows rfl rfl rfl rfl
  | refuse => exact sound_free h h.shows rfl rfl rfl rfl
  | arm => exact sound_same h h.shows rfl rfl rfl rfl
  | spawnWait => exact sound_spawn h h.shows rfl rfl rfl rfl rfl
  | spawn => exact sound_spawn h h.shows rfl rfl rfl rfl rfl

/-- The part of `cancel` that gives the flag back is not reached. -/
theorem sound_cancel {g : Shared Tarball} {place : CancelAt} (h : Ready (.cancel place) g) :
    Sound (.cancel place) g (cancel g place) := by
  cases place with
  | enter =>
    rw [cancel]
    split_ifs with hphase hwaiting
    · exact sound_same h rfl rfl rfl rfl rfl
    · exact sound_same h (decide_eq_true hwaiting) rfl rfl rfl rfl
    · exact sound_same h rfl rfl rfl rfl rfl
  | look =>
    rw [cancel, if_pos (taken_of_waitingIdle h.quiet (of_decide_eq_true h.shows))]
    exact sound_same h rfl rfl rfl rfl rfl
  | complete => cases h.shows

theorem sound_wait {g : Shared Tarball} {place : WaitAt} (h : Ready (.wait place) g) :
    Sound (.wait place) g (waitIdleThenApply g place) := by
  cases place with
  | begin => exact sound_phase h rfl rfl rfl rfl ⟨rfl, rfl⟩ rfl
  | loop | sessions | recheck =>
    rw [waitIdleThenApply]
    split_ifs
    · exact sound_same h h.shows rfl rfl rfl rfl
    · exact sound_same h h.shows rfl rfl rfl rfl
  | cancelled => exact sound_complete h rfl rfl

theorem sound_applyNow {o : Outcome Tarball} {g : Shared Tarball} {place : ApplyNowAt} (h : Ready (.applyNow place) g) :
    Sound (.applyNow place) g (applyNow o g place) := by
  cases place with
  | enter fromWaitingIdle =>
    cases fromWaitingIdle with
    | false => exact sound_same h h.shows rfl rfl rfl rfl
    | true =>
      rw [applyNow, if_pos rfl]
      split_ifs
      · exact sound_same h h.shows rfl rfl rfl rfl
      · exact sound_same h h.shows rfl rfl rfl rfl
  | giveUp => exact sound_complete h rfl rfl
  | claim => exact sound_phase h rfl rfl rfl rfl ⟨rfl, rfl⟩ rfl
  | look claimed payload =>
    rw [applyNow]
    split_ifs with hmissing hclaimed
    · refine sound_same h (Bool.or_eq_true_iff.mpr ?_) rfl rfl rfl rfl
      cases claimed with
      | false => exact .inr h.shows
      | true => exact .inl h.shows
    · subst hclaimed
      exact sound_same h h.shows rfl rfl rfl rfl
    · rw [Bool.not_eq_true] at hclaimed
      subst hclaimed
      exact sound_same h h.shows rfl rfl rfl rfl
  | missing | phase | failed | restarting => exact sound_phase h rfl rfl rfl rfl ⟨rfl, rfl⟩ rfl
  | begin => exact sound_same h h.shows rfl rfl rfl rfl
  | installing =>
    rw [applyNow]
    split
    · exact sound_same h h.shows rfl rfl rfl rfl
    · exact sound_same h h.shows rfl rfl rfl rfl
  | free =>
    refine sound_free h ?_ rfl rfl rfl rfl
    rcases Bool.or_eq_true_iff.mp h.shows with hphase | hphase
    · rw [of_decide_eq_true hphase]
      rfl
    · rw [of_decide_eq_true hphase]
      rfl

theorem sound_downloadTry {o : Outcome Tarball} {g : Shared Tarball} {place : DownloadAt}
    (h : Ready (.download place) g) : Sound (.download place) g (downloadTry sha256 o g place) := by
  cases place with
  | checking | phaseSums | phaseTarball | phaseVerify | ready | fail =>
    exact sound_phase h rfl rfl rfl rfl ⟨rfl, rfl⟩ rfl
  | remove =>
    rw [downloadTry]
    split_ifs
    · exact sound_same h h.shows rfl rfl rfl rfl
    · exact sound_same h h.shows rfl rfl rfl rfl
  | fetchRelease | readRelease | fetchSums | fetchTarball | extract =>
    rw [downloadTry]
    split_ifs
    · exact sound_same h h.shows rfl rfl rfl rfl
    · exact sound_same h rfl rfl rfl rfl rfl
  | readSums =>
    rw [downloadTry]
    split
    · exact sound_same h rfl rfl rfl rfl rfl
    · exact sound_same h h.shows rfl rfl rfl rfl
  | hash expected =>
    rw [downloadTry]
    split
    · exact sound_same h rfl rfl rfl rfl rfl
    · split_ifs
      · exact sound_same h h.shows rfl rfl rfl rfl
      · exact sound_same h rfl rfl rfl rfl rfl
  | inspect =>
    rw [downloadTry]
    split_ifs
    · exact sound_same h rfl rfl rfl rfl rfl
    · exact sound_same h h.shows rfl rfl rfl rfl
  | stage => exact sound_same h h.shows rfl rfl rfl rfl
  | free =>
    refine sound_free h ?_ rfl rfl rfl rfl
    rw [of_decide_eq_true h.shows]
    rfl
  | failed =>
    refine sound_free h ?_ rfl rfl rfl rfl
    rw [of_decide_eq_true h.shows]
    rfl

theorem downloadWorker_cases {P : Step Tarball → Prop} (o : Outcome Tarball) (g : Shared Tarball) (place : DownloadAt)
    (htry : P (downloadTry sha256 o g place)) (hthrown : ∀ message, P ⟨.download (.fail message), g, none⟩) :
    P (downloadWorker sha256 o g place) := by
  unfold downloadWorker
  split
  · exact htry
  · exact htry
  · exact htry
  · exact hthrown _
  · exact htry

theorem sound_advance (sha256 : Tarball → Text) {o : Outcome Tarball} {t : Thread} {g : Shared Tarball} (h : Ready t g) :
    Sound t g (advance sha256 o t g) := by
  cases t with
  | start place => exact sound_start h
  | apply whenIdle place => exact sound_apply h
  | cancel place => exact sound_cancel h
  | download place =>
    exact downloadWorker_cases o g place (sound_downloadTry h)
      fun _ => sound_same h rfl rfl (Bool.or_true _) rfl rfl
  | wait place => exact sound_wait h
  | applyNow place => exact sound_applyNow h
  | ended result => exact sound_same h rfl rfl rfl rfl rfl

/-! ## Runs -/

/-- A phase stands by a thread that has neither the flag nor the mutex. -/
theorem shows_of_not_holds {t : Thread} (hholds : (program sha256).holds t = false) (hinside : inside t = false)
    (phase : Phase) : shows phase t = true := by
  cases t with
  | start place => cases place <;> first | rfl | cases hholds
  | apply whenIdle place => cases place <;> first | rfl | cases hholds
  | cancel place => cases place <;> first | rfl | cases hinside
  | ended result => rfl
  | _ => cases hholds

structure Inv (sha256 : Tarball → Text) (s : System Tarball) : Prop where
  counted : (program sha256).Counted s
  each : ∀ t ∈ s.threads, shows s.shared.status.phase t = true
  quiet : s.shared.workerRunning = false → s.shared.status.phase.quiet = true
  status : s.shared.status.Consistent

variable {s : System Tarball}

theorem Inv.ready (h : Inv sha256 s) {t : Thread} (ht : t ∈ s.threads) : Ready t s.shared :=
  ⟨h.each t ht, h.counted.taken_of_holds ht, h.quiet⟩

theorem inv_initial (work : Work Tarball) : Inv sha256 (initial work) := by
  constructor
  · exact ⟨rfl, rfl⟩
  · simp [initial]
  · exact fun _ => rfl
  · exact ⟨rfl, rfl⟩

/-- The thread whose step it is. -/
theorem Enabled.split {i : ℕ} {o : Outcome Tarball} (h : Enabled sha256 s (.run i o)) :
    ∃ front t back, s.threads = front ++ t :: back ∧ front.length = i ∧ (program sha256).Free t s := by
  obtain ⟨t, hget, hfree⟩ := h
  obtain ⟨front, back, hsplit, hlength⟩ := split_of_getElem hget
  exact ⟨front, t, back, hsplit, hlength, hfree⟩

theorem inv_next {e : Event Tarball} (h : Inv sha256 s) (henabled : Enabled sha256 s e) : Inv sha256 (next sha256 s e) := by
  cases e with
  | call c =>
    refine ⟨h.counted.call ?_ ?_, List.forall_mem_append.mpr ⟨h.each, List.forall_mem_singleton.mpr ?_⟩, h.quiet,
      h.status⟩
    · cases c <;> rfl
    · cases c <;> rfl
    · cases c <;> rfl
  | sessions count => exact ⟨⟨h.counted.holder, h.counted.insider⟩, h.each, h.quiet, h.status⟩
  | run i o =>
    obtain ⟨front, t, back, hsplit, rfl, hfree⟩ := henabled.split
    have ht : t ∈ s.threads := by simp [hsplit]
    have hsound := sound_advance sha256 (o := o) (h.ready ht)
    refine ⟨h.counted.run hsplit hfree o hsound.accounts, ?_, ?_, ?_⟩
    · refine h.counted.each_run hsplit hfree o (fun u g => shows g.status.phase u = true) h.each hsound.thread
        (fun c hc => (hsound.child c hc).1) fun u _ hu hholds hinside => ?_
      rcases hsound.phase with hsame | ⟨hholding, hlocks⟩
      · exact (congrArg (shows · u) hsame).trans hu
      · exact shows_of_not_holds (hholds hholding) (hinside hlocks) _
    · show ((program sha256).run front.length o s).shared.workerRunning = false → _
      rw [next, run_split o hsplit]
      exact hsound.quiet
    · rw [next, run_split o hsplit]
      exact hsound.status h.status

end Invariant
end Sunshine.Updater
