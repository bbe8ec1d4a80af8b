import Mathlib.Algebra.Group.Nat.Defs
import Mathlib.Algebra.Ring.Int.Defs
import Mathlib.Data.List.Perm.Subperm
import Mathlib.Logic.Function.Basic
import Sunshine.Lib.Transitions

/-! The lifecycle of streaming sessions (`session::start`, `stop` and `join`, `cmd_announce`, and the
session set of `rtsp_server_t`).

A session is inserted into the set before it is started, `stop` only moves it from `RUNNING`, and
`clear` joins what it finds in the set while it holds the set's lock; the counter of running sessions
and the platform callbacks are outside that lock. `lifecycle_safe` holds of every run in which nothing
is stopped or cleared before its `start` is through with it, and no session is counted between the
last one's leaving and `streaming_will_stop`. -/
namespace Sunshine.Session
open Transitions
set_option autoImplicit false

/-! ## States -/

inductive StateE where
  | stopped
  | stopping
  | starting
  | running
  deriving DecidableEq, Repr

/-- How far `start` has come with a session; `counted` remembers whether it was the first one. -/
inductive StartStep where
  | unallocated
  | allocated
  | threadsCreated
  | runningStored
  | counted (first : Bool)
  | returned
  | failed
  deriving DecidableEq, Repr

def StartStep.hasThreads : StartStep → Bool
  | .threadsCreated | .runningStored | .counted _ | .returned => true
  | .unallocated | .allocated | .failed => false

def StartStep.isCounted : StartStep → Bool
  | .counted _ | .returned => true
  | _ => false

structure StreamStatus where
  state : StateE := .stopped
  clientCert : String := ""
  start : StartStep := .unallocated
  stopRequested : Bool := false
  deriving DecidableEq, Repr

/-- `stop`: the exchange from `RUNNING` to `STOPPING`; a session in any other state is left alone. -/
def StreamStatus.stop (s : StreamStatus) : StreamStatus :=
  { s with state := if s.state = .running then .stopping else s.state, stopRequested := true }

inductive ClearMode where
  | all
  | stoppingOnly
  | byCert (cert : String)
  deriving DecidableEq, Repr

def ClearMode.selects (mode : ClearMode) (s : StreamStatus) : Bool :=
  match mode with
  | .all => true
  | .stoppingOnly => s.state = .stopping
  | .byCert cert => s.clientCert = cert

/-- Where a `clear` is: at the next slot, or on the way through `stop`, `join` and `erase` of one. -/
inductive ClearStep where
  | next
  | stop (i : ℕ)
  | joinThreads (i : ℕ)
  | leave (i : ℕ)
  | willStop (i : ℕ)
  | erase (i : ℕ)
  deriving DecidableEq, Repr

structure Clearing where
  mode : ClearMode
  todo : List ℕ
  step : ClearStep
  deriving DecidableEq, Repr

inductive Callback where
  | streamingWillStart
  | streamingWillStop
  deriving DecidableEq, Repr

/-- The server; `clearing` is the holder of the lock on `slots`. The last three lists are the history
of the sessions counted by `start`, those whose threads a `join` went for, and those it counted off. -/
structure RtspServer where
  sessions : ℕ → StreamStatus := fun _ => {}
  allocated : ℕ := 0
  slots : List ℕ := []
  clearing : Option Clearing := none
  runningSessions : ℕ := 0
  callbacks : List Callback := []
  started : List ℕ := []
  entered : List ℕ := []
  joined : List ℕ := []

def RtspServer.setStatus (s : RtspServer) (i : ℕ) (status : StreamStatus) : RtspServer :=
  { s with sessions := Function.update s.sessions i status }

def RtspServer.setStart (s : RtspServer) (i : ℕ) (start : StartStep) : RtspServer :=
  s.setStatus i { s.sessions i with start }

def RtspServer.setClearStep (s : RtspServer) (c : Clearing) (step : ClearStep) : RtspServer :=
  { s with clearing := some { c with step } }

/-! ## Steps -/

/-- `pos` is where the set puts the new pointer. -/
inductive LifecycleEvent where
  | announce (clientCert : String) (pos : ℕ)
  | startThreads (i : ℕ)
  | startFails (i : ℕ)
  | storeRunning (i : ℕ)
  | countStart (i : ℕ)
  | startReturns (i : ℕ)
  | remove (i : ℕ)
  | stop (i : ℕ)
  | clear (mode : ClearMode)
  | clearStep
  deriving DecidableEq, Repr

/-- One step of the `clear` that holds the lock. -/
def nextClear (s : RtspServer) (c : Clearing) : RtspServer :=
  match c.step with
  | .next =>
    match c.todo with
    | [] => { s with clearing := none }
    | i :: rest =>
      let step := if c.mode.selects (s.sessions i) then .stop i else .next
      { s with clearing := some { c with todo := rest, step } }
  | .stop i => (s.setStatus i (s.sessions i).stop).setClearStep c (.joinThreads i)
  | .joinThreads i =>
    -- joining a thread that was never started throws
    if (s.sessions i).start.hasThreads then
      { s with entered := s.entered ++ [i] }.setClearStep c (.leave i)
    else { s with entered := s.entered ++ [i], clearing := none }
  | .leave i =>
    let running := (s.runningSessions + (2 ^ 32 - 1)) % 2 ^ 32
    { s with runningSessions := running, joined := s.joined ++ [i] }.setClearStep c
      (if running = 0 then .willStop i else .erase i)
  | .willStop i =>
    let callbacks := s.callbacks ++ [Callback.streamingWillStop]
    { s with callbacks }.setClearStep c (.erase i)
  | .erase i => { s with slots := s.slots.erase i }.setClearStep c .next

def nextLifecycle (s : RtspServer) : LifecycleEvent → RtspServer
  | .announce clientCert pos =>
    { s.setStatus s.allocated { clientCert, start := .allocated } with
      allocated := s.allocated + 1
      slots := s.slots.take pos ++ s.allocated :: s.slots.drop pos }
  | .startThreads i => s.setStart i .threadsCreated
  | .startFails i => s.setStart i .failed
  | .storeRunning i => s.setStatus i { s.sessions i with start := .runningStored, state := .running }
  | .countStart i =>
    let running := (s.runningSessions + 1) % 2 ^ 32
    { s.setStart i (.counted (running = 1)) with
      runningSessions := running, started := s.started ++ [i] }
  | .startReturns i =>
    let due := if (s.sessions i).start = .counted true then [Callback.streamingWillStart] else []
    { s.setStart i .returned with callbacks := s.callbacks ++ due }
  | .remove i => { s with slots := s.slots.erase i }
  | .stop i => s.setStatus i (s.sessions i).stop
  | .clear mode => { s with clearing := some { mode, todo := s.slots, step := .next } }
  | .clearStep =>
    match s.clearing with
    | none => s
    | some c => nextClear s c

/-- What the threads and the lock allow; `stop` waits out `STARTING`. -/
def Enabled (s : RtspServer) : LifecycleEvent → Prop
  | .announce _ _ | .clear _ => s.clearing = none
  | .startThreads i | .startFails i => (s.sessions i).start = .allocated
  | .storeRunning i => (s.sessions i).start = .threadsCreated
  | .countStart i => (s.sessions i).start = .runningStored
  | .startReturns i => (s.sessions i).start = .counted true ∨ (s.sessions i).start = .counted false
  | .remove i => (s.sessions i).start = .failed ∧ s.clearing = none
  | .stop i => i < s.allocated ∧ (s.sessions i).state ≠ .starting
  | .clearStep => s.clearing.isSome = true

/-- A `join` has counted the last session off and is about to call `streaming_will_stop`. -/
def RtspServer.willStopDue (s : RtspServer) : Bool :=
  match s.clearing with
  | some ⟨_, _, .willStop _⟩ => true
  | _ => false

/-- A session is stopped after `start` has stored `RUNNING`, joined after `start` has returned, and
counted when no `streaming_will_stop` is due and the counter has room. -/
def StepSafe (s : RtspServer) : LifecycleEvent → Prop
  | .stop i => (s.sessions i).start ≠ .allocated ∧ (s.sessions i).start ≠ .threadsCreated
  | .countStart _ => s.willStopDue = false ∧ s.runningSessions + 1 < 2 ^ 32
  | .clearStep =>
    match s.clearing with
    | some ⟨mode, i :: _, .next⟩ =>
      mode.selects (s.sessions i) = true → (s.sessions i).start = .returned
    | _ => True
  | _ => True

/-! ## Safety -/

def callbackAt (k : ℕ) : Callback :=
  if k % 2 = 0 then .streamingWillStart else .streamingWillStop

/-- What holds in every state: stop requests are not lost, only started sessions are joined and only
once, the counter counts, and the callbacks alternate, `streaming_will_stop` being the last one
exactly when nothing runs (while none of them is due). -/
structure LifecycleSafe (s : RtspServer) : Prop where
  stops : ∀ i, (s.sessions i).stopRequested = true →
    (s.sessions i).state = .stopping ∨ (s.sessions i).state = .stopped
  joins : s.entered.Nodup ∧ ∀ i ∈ s.entered, (s.sessions i).start.hasThreads = true
  counter : (s.runningSessions : ℤ) = s.started.length - s.joined.length
  alternates : s.callbacks = (List.range s.callbacks.length).map callbackAt
  lastCallback : (∀ i, (s.sessions i).start ≠ .counted true) → s.willStopDue = false →
    (0 < s.runningSessions ↔ s.callbacks.getLast? = some .streamingWillStart)

/-! ## One session -/

/-- A session's state follows the progress of its `start`. -/
def StatusOk (s : StreamStatus) : Prop :=
  match s.start with
  | .allocated | .threadsCreated => s.state = .stopped ∧ s.stopRequested = false
  | .unallocated | .failed => s.state = .stopped
  | .runningStored | .counted _ | .returned =>
    (s.state = .running ∨ s.state = .stopping) ∧ (s.stopRequested = true → s.state = .stopping)

theorem StatusOk.stops {s : StreamStatus} (h : StatusOk s) (hreq : s.stopRequested = true) :
    s.state = .stopping ∨ s.state = .stopped := by
  unfold StatusOk at h
  cases hstart : s.start <;> simp only [hstart] at h
  case unallocated | failed => exact Or.inr h
  case allocated | threadsCreated => exact Or.inr h.1
  all_goals exact Or.inl (h.2 hreq)

/-- From `RUNNING` on, a stop takes effect. -/
theorem StatusOk.stop {s : StreamStatus} (h : StatusOk s) (halloc : s.start ≠ .allocated)
    (hthreads : s.start ≠ .threadsCreated) : StatusOk s.stop := by
  unfold StatusOk at h ⊢
  unfold StreamStatus.stop
  cases hstart : s.start <;> simp only [hstart] at h ⊢
  case allocated => exact absurd hstart halloc
  case threadsCreated => exact absurd hstart hthreads
  case unallocated | failed => simp [h]
  all_goals
    rcases h.1 with hrun | hstop
    · simp [hrun]
    · simp [hstop]

/-! ## The invariant -/

def ClearStep.current : ClearStep → List ℕ
  | .next => []
  | .stop i | .joinThreads i | .leave i | .willStop i | .erase i => [i]

/-- The session whose threads are joined but which is still counted. -/
def RtspServer.leaving (s : RtspServer) : List ℕ :=
  match s.clearing with
  | some ⟨_, _, .leave i⟩ => [i]
  | _ => []

/-- What a `clear` knows of the slots before it: it has joined the current one, or not yet. -/
structure ClearingOk (s : RtspServer) (c : Clearing) : Prop where
  nodup : (c.step.current ++ c.todo).Nodup
  slots : ∀ i ∈ c.step.current ++ c.todo, i ∈ s.slots
  fresh : ∀ i, c.step = .stop i ∨ c.step = .joinThreads i →
    (s.sessions i).start = .returned ∧ i ∉ s.entered

/-- The slot that stays in the set until its `erase`. -/
def RtspServer.leftInSlots (s : RtspServer) : List ℕ :=
  match s.clearing with
  | some ⟨_, _, .leave i⟩ | some ⟨_, _, .willStop i⟩ | some ⟨_, _, .erase i⟩ => [i]
  | _ => []

structure JoinInv (s : RtspServer) : Prop where
  started_iff : ∀ i, i ∈ s.started ↔ (s.sessions i).start.isCounted = true
  startedNodup : s.started.Nodup
  enteredNodup : s.entered.Nodup
  entered : ∀ i ∈ s.entered, (s.sessions i).start = .returned
  leaving : s.entered = s.joined ++ s.leaving
  counter : s.runningSessions + s.joined.length = s.started.length
  bound : s.runningSessions < 2 ^ 32
  slotsNodup : s.slots.Nodup
  slotsAllocated : ∀ i ∈ s.slots, i < s.allocated
  slots : ∀ i ∈ s.slots, i ∈ s.entered → i ∈ s.leftInSlots
  clearing : ∀ c, s.clearing = some c → ClearingOk s c

structure CallbackInv (s : RtspServer) : Prop where
  alternates : s.callbacks = (List.range s.callbacks.length).map callbackAt
  firstOnly : ∀ i j, (s.sessions i).start = .counted true → (s.sessions j).start = .counted true →
    i = j
  startDue : ∀ i, (s.sessions i).start = .counted true →
    s.willStopDue = false ∧ s.callbacks.length % 2 = 0
  stopDue : s.willStopDue = true → s.runningSessions = 0 ∧ s.callbacks.length % 2 = 1
  quiet : (∀ i, (s.sessions i).start ≠ .counted true) → s.willStopDue = false →
    (0 < s.runningSessions ↔ s.callbacks.length % 2 = 1)

structure LifecycleInv (s : RtspServer) : Prop where
  status : ∀ i, StatusOk (s.sessions i)
  unallocated : ∀ i, s.allocated ≤ i → (s.sessions i).start = .unallocated
  join : JoinInv s
  callback : CallbackInv s

theorem JoinInv.length_le {s : RtspServer} (h : JoinInv s) (l : List ℕ)
    (hcounted : ∀ i ∈ l, (s.sessions i).start.isCounted = true) (hnodup : (l ++ s.joined).Nodup) :
    l.length ≤ s.runningSessions := by
  have hsub : l ++ s.joined ⊆ s.started := by
    intro i hi
    rcases List.mem_append.mp hi with hi | hi
    · exact (h.started_iff i).mpr (hcounted i hi)
    · have hret := h.entered i (by rw [h.leaving]; exact List.mem_append_left _ hi)
      rw [h.started_iff, hret]
      rfl
  have hle := (hnodup.subperm hsub).length_le
  have hcounter := h.counter
  rw [List.length_append] at hle
  omega

theorem JoinInv.joined_nodup {s : RtspServer} (h : JoinInv s) : s.joined.Nodup := by
  have hn := h.enteredNodup
  rw [h.leaving] at hn
  exact (List.nodup_append.mp hn).1

theorem JoinInv.joined_returned {s : RtspServer} (h : JoinInv s) (i : ℕ) (hi : i ∈ s.joined) :
    (s.sessions i).start = .returned :=
  h.entered i (by rw [h.leaving]; exact List.mem_append_left _ hi)

theorem JoinInv.running_pos {s : RtspServer} (h : JoinInv s) (i : ℕ)
    (hi : (s.sessions i).start = .counted true) : 0 < s.runningSessions := by
  have hnot : i ∉ s.joined := fun hm => by
    have hret := h.joined_returned i hm
    rw [hi] at hret
    cases hret
  exact h.length_le [i] (by simp [hi, StartStep.isCounted]) (by simp [hnot, h.joined_nodup])

/-! ## Changes of one session -/

@[simp] theorem setStatus_sessions (s : RtspServer) (i j : ℕ) (status : StreamStatus) :
    (s.setStatus i status).sessions j = if j = i then status else s.sessions j := by
  unfold RtspServer.setStatus
  exact Function.update_apply ..

theorem JoinInv.withSessions {s : RtspServer} (h : JoinInv s) (sessions : ℕ → StreamStatus)
    (callbacks : List Callback)
    (hcounted : ∀ j, (sessions j).start.isCounted = (s.sessions j).start.isCounted)
    (hreturned : ∀ j, (s.sessions j).start = .returned → (sessions j).start = .returned) :
    JoinInv { s with sessions, callbacks } where
  started_iff := fun j => by
    show j ∈ s.started ↔ (sessions j).start.isCounted = true
    rw [hcounted]
    exact h.started_iff j
  startedNodup := h.startedNodup
  enteredNodup := h.enteredNodup
  entered := fun j hj => hreturned j (h.entered j hj)
  leaving := h.leaving
  counter := h.counter
  bound := h.bound
  slotsNodup := h.slotsNodup
  slotsAllocated := h.slotsAllocated
  slots := h.slots
  clearing := fun c hc =>
    have hok := h.clearing c hc
    ⟨hok.nodup, hok.slots, fun j hj => ⟨hreturned j (hok.fresh j hj).1, (hok.fresh j hj).2⟩⟩

theorem CallbackInv.congr {s t : RtspServer} (h : CallbackInv s) (hcallbacks : t.callbacks = s.callbacks)
    (hrunning : t.runningSessions = s.runningSessions) (hdue : t.willStopDue = s.willStopDue)
    (hfirst : ∀ j, (t.sessions j).start = .counted true ↔ (s.sessions j).start = .counted true) :
    CallbackInv t where
  alternates := by
    rw [hcallbacks]
    exact h.alternates
  firstOnly := fun j k hj hk => h.firstOnly j k ((hfirst j).mp hj) ((hfirst k).mp hk)
  startDue := fun j hj => by
    rw [hdue, hcallbacks]
    exact h.startDue j ((hfirst j).mp hj)
  stopDue := by
    rw [hdue, hcallbacks, hrunning]
    exact h.stopDue
  quiet := fun hnone => by
    rw [hdue, hcallbacks, hrunning]
    exact h.quiet fun j hj => hnone j ((hfirst j).mpr hj)

theorem forall_update {s : RtspServer} {i : ℕ} {status : StreamStatus}
    (P : StreamStatus → StreamStatus → Prop) (hi : P status (s.sessions i)) (hrefl : ∀ t, P t t)
    (j : ℕ) : P (Function.update s.sessions i status j) (s.sessions j) := by
  rw [Function.update_apply]
  split_ifs with hji
  · rw [hji]
    exact hi
  · exact hrefl _

theorem LifecycleInv.setStatus {s : RtspServer} (h : LifecycleInv s) (i : ℕ) (hi : i < s.allocated)
    (status : StreamStatus) (hok : StatusOk status)
    (hcounted : status.start.isCounted = (s.sessions i).start.isCounted)
    (hreturned : (s.sessions i).start = .returned → status.start = .returned)
    (hfirst : status.start = .counted true ↔ (s.sessions i).start = .counted true) :
    LifecycleInv (s.setStatus i status) := by
  refine ⟨fun j => ?_, fun j hj => ?_, h.join.withSessions _ s.callbacks ?_ ?_,
    h.callback.congr rfl rfl rfl ?_⟩
  · rw [setStatus_sessions]
    split_ifs
    · exact hok
    · exact h.status j
  · change s.allocated ≤ j at hj
    rw [setStatus_sessions, if_neg (by omega)]
    exact h.unallocated j hj
  · exact forall_update (fun new old => new.start.isCounted = old.start.isCounted) hcounted
      fun _ => rfl
  · exact forall_update (fun new old => old.start = .returned → new.start = .returned) hreturned
      fun _ => id
  · exact forall_update (fun new old => new.start = .counted true ↔ old.start = .counted true) hfirst
      fun _ => Iff.rfl

theorem LifecycleInv.allocated_of {s : RtspServer} (h : LifecycleInv s) (i : ℕ)
    (hi : (s.sessions i).start ≠ .unallocated) : i < s.allocated := by
  by_contra hlen
  exact hi (h.unallocated i (by omega))

theorem LifecycleInv.progress {s : RtspServer} (h : LifecycleInv s) (i : ℕ) (status : StreamStatus)
    (hok : StatusOk status) (hnew : status.start.isCounted = false)
    (hold : (s.sessions i).start = .allocated ∨ (s.sessions i).start = .threadsCreated) :
    LifecycleInv (s.setStatus i status) := by
  have halloc : i < s.allocated := h.allocated_of i (by rcases hold with h | h <;> simp [h])
  have hcounted : (s.sessions i).start.isCounted = false := by rcases hold with h | h <;> rw [h] <;> rfl
  refine h.setStatus i halloc status hok (hnew.trans hcounted.symm) ?_ ?_
  · intro hret
    rw [hret] at hcounted
    cases hcounted
  · constructor
    · intro hcount
      rw [hcount] at hnew
      cases hnew
    · intro hcount
      rw [hcount] at hcounted
      cases hcounted

theorem LifecycleInv.stop {s : RtspServer} (h : LifecycleInv s) (i : ℕ) (hi : i < s.allocated)
    (halloc : (s.sessions i).start ≠ .allocated)
    (hthreads : (s.sessions i).start ≠ .threadsCreated) :
    LifecycleInv (s.setStatus i (s.sessions i).stop) :=
  h.setStatus i hi _ ((h.status i).stop halloc hthreads) rfl id Iff.rfl

/-! ## Slots -/

theorem JoinInv.insertSlot {s : RtspServer} (h : JoinInv s) (hlock : s.clearing = none) (pos : ℕ)
    (hnew : (s.sessions s.allocated).start = .unallocated) :
    JoinInv { s with
      allocated := s.allocated + 1
      slots := s.slots.take pos ++ s.allocated :: s.slots.drop pos } := by
  have hperm : (s.slots.take pos ++ s.allocated :: s.slots.drop pos).Perm
      (s.allocated :: (s.slots.take pos ++ s.slots.drop pos)) := List.perm_middle
  rw [List.take_append_drop] at hperm
  have hmem : ∀ i, i ∈ s.slots.take pos ++ s.allocated :: s.slots.drop pos →
      i = s.allocated ∨ i ∈ s.slots :=
    fun i hi => List.mem_cons.mp (hperm.mem_iff.mp hi)
  have hfresh : s.allocated ∉ s.slots := fun hm => Nat.lt_irrefl _ (h.slotsAllocated _ hm)
  exact {
    started_iff := h.started_iff
    startedNodup := h.startedNodup
    enteredNodup := h.enteredNodup
    entered := h.entered
    leaving := h.leaving
    counter := h.counter
    bound := h.bound
    slotsNodup := hperm.nodup_iff.mpr (List.nodup_cons.mpr ⟨hfresh, h.slotsNodup⟩)
    slotsAllocated := fun i hi => by
      rcases hmem i hi with rfl | hi
      · exact Nat.lt_succ_self _
      · exact Nat.lt_succ_of_lt (h.slotsAllocated i hi)
    slots := fun i hi hentered => by
      rcases hmem i hi with rfl | hi
      · -- a session not allocated before has not been joined
        have hret := h.entered _ hentered
        rw [hnew] at hret
        cases hret
      · exact h.slots i hi hentered
    clearing := fun c hc => by
      rw [hlock] at hc
      cases hc }

theorem announce_inv {s : RtspServer} (h : LifecycleInv s) (clientCert : String) (pos : ℕ)
    (hlock : s.clearing = none) : LifecycleInv (nextLifecycle s (.announce clientCert pos)) := by
  have hnew := h.unallocated s.allocated (Nat.le_refl _)
  have hinsert := h.join.insertSlot hlock pos hnew
  refine ⟨fun j => ?_, fun j hj => ?_, hinsert.withSessions _ s.callbacks ?_ ?_,
    h.callback.congr rfl rfl rfl ?_⟩
  · show StatusOk (Function.update s.sessions s.allocated _ j)
    rw [Function.update_apply]
    split_ifs
    · exact ⟨rfl, rfl⟩
    · exact h.status j
  · change s.allocated + 1 ≤ j at hj
    show (Function.update s.sessions s.allocated _ j).start = _
    rw [Function.update_apply, if_neg (by omega)]
    exact h.unallocated j (by omega)
  · refine forall_update (fun new old => new.start.isCounted = old.start.isCounted) ?_ fun _ => rfl
    rw [hnew]
    rfl
  · refine forall_update (fun new old => old.start = .returned → new.start = .returned) ?_ fun _ => id
    rw [hnew]
    nofun
  · refine forall_update (fun new old => new.start = .counted true ↔ old.start = .counted true) ?_
      fun _ => Iff.rfl
    rw [hnew]
    exact ⟨nofun, nofun⟩

theorem JoinInv.eraseSlot {s : RtspServer} (h : JoinInv s) (i : ℕ) (clearing : Option Clearing)
    (hleaving : ({ s with clearing } : RtspServer).leaving = s.leaving)
    (hslots : ∀ j ∈ s.leftInSlots, j = i)
    (hclear : ∀ c, clearing = some c → ClearingOk { s with slots := s.slots.erase i } c) :
    JoinInv { s with slots := s.slots.erase i, clearing } where
  started_iff := h.started_iff
  startedNodup := h.startedNodup
  enteredNodup := h.enteredNodup
  entered := h.entered
  leaving := h.leaving.trans (congrArg (s.joined ++ ·) hleaving.symm)
  counter := h.counter
  bound := h.bound
  slotsNodup := h.slotsNodup.erase i
  slotsAllocated := fun j hj => h.slotsAllocated j (List.mem_of_mem_erase hj)
  slots := fun j hj hentered => by
    have hji := (h.slotsNodup.mem_erase_iff.mp hj)
    exact absurd (hslots j (h.slots j hji.2 hentered)) hji.1
  clearing := fun c hc => ⟨(hclear c hc).nodup, (hclear c hc).slots, (hclear c hc).fresh⟩

theorem remove_inv {s : RtspServer} (h : LifecycleInv s) (i : ℕ) (hlock : s.clearing = none) :
    LifecycleInv (nextLifecycle s (.remove i)) := by
  refine ⟨h.status, h.unallocated, h.join.eraseSlot i s.clearing rfl ?_ ?_,
    h.callback.congr rfl rfl rfl fun _ => Iff.rfl⟩
  · simp [RtspServer.leftInSlots, hlock]
  · simp [hlock]

/-! ## Counting -/

theorem callbacks_append (s : RtspServer) (h : s.callbacks =
    (List.range s.callbacks.length).map callbackAt) (callback : Callback)
    (hnext : callback = callbackAt s.callbacks.length) :
    s.callbacks ++ [callback] =
      (List.range (s.callbacks ++ [callback]).length).map callbackAt := by
  rw [List.length_append, List.length_singleton, List.range_succ, List.map_append, ← h, hnext]
  rfl

theorem JoinInv.countStart {s : RtspServer} (h : JoinInv s) (i : ℕ) (first : Bool)
    (hstart : (s.sessions i).start = .runningStored) (hroom : s.runningSessions + 1 < 2 ^ 32) :
    JoinInv { s.setStart i (.counted first) with
      runningSessions := s.runningSessions + 1, started := s.started ++ [i] } := by
  have hnew : i ∉ s.started := by
    rw [h.started_iff, hstart]
    nofun
  have hsessions : ∀ j, ((s.setStart i (.counted first)).sessions j).start =
      if j = i then .counted first else (s.sessions j).start := by
    intro j
    unfold RtspServer.setStart
    rw [setStatus_sessions]
    split_ifs <;> rfl
  have hreturned : ∀ j, (s.sessions j).start = .returned →
      ((s.setStart i (.counted first)).sessions j).start = .returned := by
    intro j hj
    have hji : j ≠ i := by
      rintro rfl
      rw [hstart] at hj
      cases hj
    rw [hsessions, if_neg hji, hj]
  exact {
    started_iff := fun j => by
      show j ∈ s.started ++ [i] ↔ _
      rw [hsessions, List.mem_append, List.mem_singleton, h.started_iff]
      by_cases hji : j = i
      · simp [hji, StartStep.isCounted]
      · simp [hji]
    startedNodup := (List.perm_append_singleton i s.started).nodup_iff.mpr
      (List.nodup_cons.mpr ⟨hnew, h.startedNodup⟩)
    enteredNodup := h.enteredNodup
    entered := fun j hj => hreturned j (h.entered j hj)
    leaving := h.leaving
    counter := by
      have hcounter := h.counter
      show s.runningSessions + 1 + s.joined.length = (s.started ++ [i]).length
      rw [List.length_append, List.length_singleton]
      omega
    bound := hroom
    slotsNodup := h.slotsNodup
    slotsAllocated := h.slotsAllocated
    slots := h.slots
    clearing := fun c hc =>
      have hok := h.clearing c hc
      ⟨hok.nodup, hok.slots, fun j hj => ⟨hreturned j (hok.fresh j hj).1, (hok.fresh j hj).2⟩⟩ }

theorem CallbackInv.countStart {s : RtspServer} (h : CallbackInv s)
    (hpos : ∀ i, (s.sessions i).start = .counted true → 0 < s.runningSessions) (i : ℕ)
    (hstart : (s.sessions i).start = .runningStored) (hdue : s.willStopDue = false) :
    CallbackInv { s.setStart i (.counted (s.runningSessions + 1 = 1)) with
      runningSessions := s.runningSessions + 1, started := s.started ++ [i] } := by
  have hfirst : ∀ j, ((s.setStart i (.counted (s.runningSessions + 1 = 1))).sessions j).start =
      .counted true ↔ (j = i ∧ s.runningSessions = 0) ∨ (s.sessions j).start = .counted true := by
    intro j
    unfold RtspServer.setStart
    rw [setStatus_sessions]
    by_cases hji : j = i
    · subst hji
      simp [hstart]
    · simp [hji]
  have hidle : s.runningSessions = 0 →
      (∀ j, (s.sessions j).start ≠ .counted true) ∧ s.callbacks.length % 2 = 0 := by
    intro hzero
    have hnone : ∀ j, (s.sessions j).start ≠ .counted true := fun j hj => by
      have := hpos j hj
      omega
    have hquiet := h.quiet hnone hdue
    exact ⟨hnone, by omega⟩
  exact {
    alternates := h.alternates
    firstOnly := fun j k hj hk => by
      rcases (hfirst j).mp hj with ⟨hji, hzero⟩ | hjold
      · rcases (hfirst k).mp hk with ⟨hki, -⟩ | hkold
        · rw [hji, hki]
        · exact absurd hkold ((hidle hzero).1 k)
      · rcases (hfirst k).mp hk with ⟨-, hzero⟩ | hkold
        · exact absurd hjold ((hidle hzero).1 j)
        · exact h.firstOnly j k hjold hkold
    startDue := fun j hj => by
      rcases (hfirst j).mp hj with ⟨-, hzero⟩ | hjold
      · exact ⟨hdue, (hidle hzero).2⟩
      · exact h.startDue j hjold
    stopDue := fun hstop => by
      have hsame : s.willStopDue = true := hstop
      rw [hdue] at hsame
      cases hsame
    quiet := fun hnone _ => by
      have hrunning : s.runningSessions ≠ 0 := fun hzero =>
        hnone i ((hfirst i).mpr (Or.inl ⟨rfl, hzero⟩))
      have hquiet := h.quiet (fun j hj => hnone j ((hfirst j).mpr (Or.inr hj))) hdue
      show 0 < s.runningSessions + 1 ↔ s.callbacks.length % 2 = 1
      omega }

theorem countStart_inv {s : RtspServer} (h : LifecycleInv s) (i : ℕ)
    (hstart : (s.sessions i).start = .runningStored) (hdue : s.willStopDue = false)
    (hroom : s.runningSessions + 1 < 2 ^ 32) :
    LifecycleInv (nextLifecycle s (.countStart i)) := by
  have hnext : nextLifecycle s (.countStart i) =
      { s.setStart i (.counted (s.runningSessions + 1 = 1)) with
        runningSessions := s.runningSessions + 1, started := s.started ++ [i] } := by
    simp only [nextLifecycle, Nat.mod_eq_of_lt hroom]
  have halloc := h.allocated_of i (by rw [hstart]; nofun)
  rw [hnext]
  refine ⟨fun j => ?_, fun j hj => ?_, h.join.countStart i _ hstart hroom,
    h.callback.countStart h.join.running_pos i hstart hdue⟩
  · show StatusOk ((s.setStart i _).sessions j)
    unfold RtspServer.setStart
    rw [setStatus_sessions]
    split_ifs with hji
    · have hok := h.status i
      unfold StatusOk at hok ⊢
      rw [hstart] at hok
      exact hok
    · exact h.status j
  · change s.allocated ≤ j at hj
    show ((s.setStart i _).sessions j).start = _
    unfold RtspServer.setStart
    rw [setStatus_sessions, if_neg (by omega)]
    exact h.unallocated j hj

theorem startReturns_first (s : RtspServer) (i j : ℕ) :
    ((nextLifecycle s (.startReturns i)).sessions j).start = .counted true ↔
      j ≠ i ∧ (s.sessions j).start = .counted true := by
  have hsessions : (nextLifecycle s (.startReturns i)).sessions j =
      if j = i then { s.sessions i with start := .returned } else s.sessions j :=
    setStatus_sessions s i j _
  rw [hsessions]
  split_ifs with hji <;> simp [hji]

/-- The first session calls `streaming_will_start` before it returns. -/
theorem CallbackInv.returnFirst {s : RtspServer} (h : CallbackInv s) (i : ℕ)
    (hstart : (s.sessions i).start = .counted true) (hpos : 0 < s.runningSessions) :
    CallbackInv (nextLifecycle s (.startReturns i)) := by
  have hcallbacks : (nextLifecycle s (.startReturns i)).callbacks =
      s.callbacks ++ [.streamingWillStart] := by
    simp [nextLifecycle, hstart]
  have hnone : ∀ j, ((nextLifecycle s (.startReturns i)).sessions j).start ≠ .counted true := by
    intro j hj
    obtain ⟨hji, hjold⟩ := (startReturns_first s i j).mp hj
    exact hji (h.firstOnly j i hjold hstart)
  obtain ⟨hdue, heven⟩ := h.startDue i hstart
  exact {
    alternates := by
      rw [hcallbacks]
      refine callbacks_append s h.alternates _ ?_
      unfold callbackAt
      rw [if_pos heven]
    firstOnly := fun j k hj => absurd hj (hnone j)
    startDue := fun j hj => absurd hj (hnone j)
    stopDue := fun hstop => by
      have hsame : s.willStopDue = true := hstop
      rw [hdue] at hsame
      cases hsame
    quiet := fun _ _ => by
      rw [hcallbacks, List.length_append, List.length_singleton]
      show 0 < s.runningSessions ↔ _
      omega }

theorem CallbackInv.returnLater {s : RtspServer} (h : CallbackInv s) (i : ℕ)
    (hstart : (s.sessions i).start = .counted false) :
    CallbackInv (nextLifecycle s (.startReturns i)) := by
  have hcallbacks : (nextLifecycle s (.startReturns i)).callbacks = s.callbacks := by
    simp [nextLifecycle, hstart]
  refine h.congr hcallbacks rfl rfl fun j => ?_
  rw [startReturns_first]
  refine ⟨And.right, fun hj => ⟨?_, hj⟩⟩
  rintro rfl
  rw [hstart] at hj
  cases hj

theorem startReturns_inv {s : RtspServer} (h : LifecycleInv s) (i : ℕ) (first : Bool)
    (hstart : (s.sessions i).start = .counted first) :
    LifecycleInv (nextLifecycle s (.startReturns i)) := by
  have halloc := h.allocated_of i (by rw [hstart]; nofun)
  have hsessions : ∀ j, ((nextLifecycle s (.startReturns i)).sessions j) =
      if j = i then { s.sessions i with start := .returned } else s.sessions j := by
    intro j
    exact setStatus_sessions s i j _
  refine ⟨fun j => ?_, fun j hj => ?_, h.join.withSessions _ _ ?_ ?_, ?_⟩
  · rw [hsessions]
    split_ifs
    · have hok := h.status i
      unfold StatusOk at hok ⊢
      rw [hstart] at hok
      exact hok
    · exact h.status j
  · change s.allocated ≤ j at hj
    rw [hsessions, if_neg (by omega)]
    exact h.unallocated j hj
  · refine forall_update (fun new old => new.start.isCounted = old.start.isCounted) ?_ fun _ => rfl
    rw [hstart]
    rfl
  · exact forall_update (fun new old => old.start = .returned → new.start = .returned) (fun _ => rfl)
      fun _ => id
  · cases first with
    | false => exact h.callback.returnLater i hstart
    | true => exact h.callback.returnFirst i hstart (h.join.running_pos i hstart)

/-! ## Clearing -/

theorem JoinInv.setClearing {s : RtspServer} (h : JoinInv s) (clearing : Option Clearing)
    (hleaving : ({ s with clearing } : RtspServer).leaving = s.leaving)
    (hleft : ∀ i ∈ s.leftInSlots, i ∈ ({ s with clearing } : RtspServer).leftInSlots)
    (hclear : ∀ c, clearing = some c → ClearingOk s c) : JoinInv { s with clearing } where
  started_iff := h.started_iff
  startedNodup := h.startedNodup
  enteredNodup := h.enteredNodup
  entered := h.entered
  leaving := h.leaving.trans (congrArg (s.joined ++ ·) hleaving.symm)
  counter := h.counter
  bound := h.bound
  slotsNodup := h.slotsNodup
  slotsAllocated := h.slotsAllocated
  slots := fun i hi hentered => hleft i (h.slots i hi hentered)
  clearing := fun c hc => ⟨(hclear c hc).nodup, (hclear c hc).slots, (hclear c hc).fresh⟩

theorem clear_inv {s : RtspServer} (h : LifecycleInv s) (mode : ClearMode)
    (hlock : s.clearing = none) : LifecycleInv (nextLifecycle s (.clear mode)) := by
  have hdue : s.willStopDue = false := by simp [RtspServer.willStopDue, hlock]
  refine ⟨h.status, h.unallocated, h.join.setClearing _ ?_ ?_ ?_,
    h.callback.congr rfl rfl hdue.symm fun _ => Iff.rfl⟩
  · simp [RtspServer.leaving, hlock]
  · simp [RtspServer.leftInSlots, hlock]
  · rintro c ⟨rfl⟩
    exact ⟨h.join.slotsNodup, fun i hi => hi, by simp⟩

section ClearSteps

variable {s : RtspServer} {mode : ClearMode} {todo : List ℕ} {i : ℕ}

theorem clearNext_inv (h : LifecycleInv s) (hc : s.clearing = some ⟨mode, todo, .next⟩)
    (hsafe : StepSafe s .clearStep) : LifecycleInv (nextClear s ⟨mode, todo, .next⟩) := by
  have hok := h.join.clearing _ hc
  have hdue : s.willStopDue = false := by simp [RtspServer.willStopDue, hc]
  have hleaving : s.leaving = [] := by simp [RtspServer.leaving, hc]
  have hleft : s.leftInSlots = [] := by simp [RtspServer.leftInSlots, hc]
  unfold StepSafe at hsafe
  rw [hc] at hsafe
  cases todo with
  | nil =>
    refine ⟨h.status, h.unallocated, h.join.setClearing none hleaving.symm ?_ nofun,
      h.callback.congr rfl rfl hdue.symm fun _ => Iff.rfl⟩
    simp [hleft]
  | cons i rest =>
    have hnodup : i ∉ rest ∧ rest.Nodup := List.nodup_cons.mp hok.nodup
    by_cases hselect : mode.selects (s.sessions i) = true
    · have hnext : nextClear s ⟨mode, i :: rest, .next⟩ =
          { s with clearing := some ⟨mode, rest, .stop i⟩ } := by
        simp [nextClear, hselect]
      rw [hnext]
      refine ⟨h.status, h.unallocated, h.join.setClearing _ hleaving.symm ?_ ?_,
        h.callback.congr rfl rfl hdue.symm fun _ => Iff.rfl⟩
      · simp [hleft]
      · rintro c ⟨rfl⟩
        refine ⟨hok.nodup, hok.slots, ?_⟩
        rintro j (hj | hj) <;> cases hj
        refine ⟨hsafe hselect, fun hentered => ?_⟩
        -- a slot that was joined is gone before the next one is looked at
        have hgone := h.join.slots i (hok.slots i (by simp [ClearStep.current])) hentered
        rw [hleft] at hgone
        cases hgone
    · have hnext : nextClear s ⟨mode, i :: rest, .next⟩ =
          { s with clearing := some ⟨mode, rest, .next⟩ } := by
        simp [nextClear, hselect]
      rw [hnext]
      refine ⟨h.status, h.unallocated, h.join.setClearing _ hleaving.symm ?_ ?_,
        h.callback.congr rfl rfl hdue.symm fun _ => Iff.rfl⟩
      · simp [hleft]
      · rintro c ⟨rfl⟩
        exact ⟨hnodup.2, fun j hj => hok.slots j (List.mem_cons_of_mem _ hj), by simp⟩

theorem clearStop_inv (h : LifecycleInv s) (hc : s.clearing = some ⟨mode, todo, .stop i⟩) :
    LifecycleInv (nextClear s ⟨mode, todo, .stop i⟩) := by
  have hok := h.join.clearing _ hc
  have hreturned := (hok.fresh i (Or.inl rfl)).1
  have halloc : i < s.allocated := h.allocated_of i (by rw [hreturned]; nofun)
  have hstopped := h.stop i halloc (by rw [hreturned]; nofun) (by rw [hreturned]; nofun)
  have hc' : (s.setStatus i (s.sessions i).stop).clearing = some ⟨mode, todo, .stop i⟩ := hc
  have hok' := hstopped.join.clearing _ hc'
  refine ⟨hstopped.status, hstopped.unallocated, hstopped.join.setClearing _ ?_ ?_ ?_,
    hstopped.callback.congr rfl rfl ?_ fun _ => Iff.rfl⟩
  · simp [RtspServer.leaving, hc']
  · simp [RtspServer.leftInSlots, hc']
  · rintro c ⟨rfl⟩
    refine ⟨hok'.nodup, hok'.slots, ?_⟩
    rintro j (hj | hj) <;> cases hj
    exact hok'.fresh i (Or.inl rfl)
  · simp [RtspServer.willStopDue, nextClear, RtspServer.setClearStep, hc']

theorem clearJoin_inv (h : LifecycleInv s) (hc : s.clearing = some ⟨mode, todo, .joinThreads i⟩) :
    LifecycleInv (nextClear s ⟨mode, todo, .joinThreads i⟩) := by
  have hjoin := h.join
  have hok := hjoin.clearing _ hc
  obtain ⟨hreturned, hfresh⟩ := hok.fresh i (Or.inr rfl)
  have hleft : s.leftInSlots = [] := by simp [RtspServer.leftInSlots, hc]
  have hnext : nextClear s ⟨mode, todo, .joinThreads i⟩ =
      { s with entered := s.entered ++ [i], clearing := some ⟨mode, todo, .leave i⟩ } := by
    simp [nextClear, hreturned, StartStep.hasThreads, RtspServer.setClearStep]
  have hentered : ∀ j ∈ s.entered ++ [i], j ∈ s.entered ∨ j = i := by simp
  rw [hnext]
  refine ⟨h.status, h.unallocated, ?_, h.callback.congr rfl rfl ?_ fun _ => Iff.rfl⟩
  · exact {
      started_iff := hjoin.started_iff
      startedNodup := hjoin.startedNodup
      enteredNodup := (List.perm_append_singleton i s.entered).nodup_iff.mpr
        (List.nodup_cons.mpr ⟨hfresh, hjoin.enteredNodup⟩)
      entered := fun j hj => by
        rcases hentered j hj with hj | rfl
        · exact hjoin.entered j hj
        · exact hreturned
      leaving := by
        have hold := hjoin.leaving
        simp only [RtspServer.leaving, hc, List.append_nil] at hold
        simp only [RtspServer.leaving, hold]
      counter := hjoin.counter
      bound := hjoin.bound
      slotsNodup := hjoin.slotsNodup
      slotsAllocated := hjoin.slotsAllocated
      slots := fun j hj hmem => by
        rcases hentered j hmem with hmem | rfl
        · have hgone := hjoin.slots j hj hmem
          rw [hleft] at hgone
          cases hgone
        · exact List.mem_singleton.mpr rfl
      clearing := by
        rintro c ⟨rfl⟩
        exact ⟨hok.nodup, hok.slots, by simp⟩ }
  · simp [RtspServer.willStopDue, hc]

theorem JoinInv.leaving_of (h : JoinInv s) (hc : s.clearing = some ⟨mode, todo, .leave i⟩) :
    s.entered = s.joined ++ [i] := by
  have hleaving := h.leaving
  simpa only [RtspServer.leaving, hc] using hleaving

theorem JoinInv.not_joined (h : JoinInv s) (hc : s.clearing = some ⟨mode, todo, .leave i⟩) :
    i ∉ s.joined := by
  have hnodup := h.enteredNodup
  rw [h.leaving_of hc] at hnodup
  exact (List.nodup_cons.mp ((List.perm_append_singleton i s.joined).nodup_iff.mp hnodup)).1

theorem JoinInv.leaving_pos (h : JoinInv s) (hc : s.clearing = some ⟨mode, todo, .leave i⟩) :
    0 < s.runningSessions := by
  have hreturned := h.entered i (by simp [h.leaving_of hc])
  exact h.length_le [i] (by simp [hreturned, StartStep.isCounted])
    (by simp [h.not_joined hc, h.joined_nodup])

/-- A first session whose callback is due is not the one that leaves. -/
theorem JoinInv.leaving_and_first (h : JoinInv s) (hc : s.clearing = some ⟨mode, todo, .leave i⟩)
    (j : ℕ) (hj : (s.sessions j).start = .counted true) : 2 ≤ s.runningSessions := by
  have hreturned := h.entered i (by simp [h.leaving_of hc])
  have hji : j ≠ i := by
    rintro rfl
    rw [hreturned] at hj
    cases hj
  have hjoined : j ∉ s.joined := fun hm => by
    have hret := h.joined_returned j hm
    rw [hj] at hret
    cases hret
  exact h.length_le [i, j] (by simp [hreturned, hj, StartStep.isCounted])
    (by simp [h.not_joined hc, hjoined, Ne.symm hji, h.joined_nodup])

theorem JoinInv.leave (h : JoinInv s) (hc : s.clearing = some ⟨mode, todo, .leave i⟩) :
    JoinInv { s with
      runningSessions := s.runningSessions - 1, joined := s.joined ++ [i],
      clearing := some ⟨mode, todo,
        if s.runningSessions - 1 = 0 then .willStop i else .erase i⟩ } := by
  have hok := h.clearing _ hc
  have hpos := h.leaving_pos hc
  exact {
    started_iff := h.started_iff
    startedNodup := h.startedNodup
    enteredNodup := h.enteredNodup
    entered := h.entered
    leaving := by
      rw [h.leaving_of hc]
      simp only [RtspServer.leaving]
      split_ifs <;> simp
    counter := by
      have hcounter := h.counter
      show s.runningSessions - 1 + (s.joined ++ [i]).length = s.started.length
      rw [List.length_append, List.length_singleton]
      omega
    bound := by
      have hbound := h.bound
      show s.runningSessions - 1 < 2 ^ 32
      omega
    slotsNodup := h.slotsNodup
    slotsAllocated := h.slotsAllocated
    slots := fun j hj hmem => by
      have hcurrent := h.slots j hj hmem
      simp only [RtspServer.leftInSlots, hc] at hcurrent
      simp only [RtspServer.leftInSlots]
      split_ifs <;> exact hcurrent
    clearing := by
      rintro c ⟨rfl⟩
      refine ⟨?_, ?_, ?_⟩
      · split_ifs <;> exact hok.nodup
      · split_ifs <;> exact hok.slots
      · split_ifs <;> simp }

theorem CallbackInv.leave (h : CallbackInv s) (hjoin : JoinInv s)
    (hc : s.clearing = some ⟨mode, todo, .leave i⟩) :
    CallbackInv { s with
      runningSessions := s.runningSessions - 1, joined := s.joined ++ [i],
      clearing := some ⟨mode, todo,
        if s.runningSessions - 1 = 0 then .willStop i else .erase i⟩ } := by
  have hpos := hjoin.leaving_pos hc
  have hdue : s.willStopDue = false := by simp [RtspServer.willStopDue, hc]
  by_cases hlast : s.runningSessions - 1 = 0
  · rw [if_pos hlast]
    have hnone : ∀ j, (s.sessions j).start ≠ .counted true := fun j hj => by
      have := hjoin.leaving_and_first hc j hj
      omega
    have hquiet := h.quiet hnone hdue
    exact {
      alternates := h.alternates
      firstOnly := h.firstOnly
      startDue := fun j hj => absurd hj (hnone j)
      stopDue := fun _ => ⟨hlast, hquiet.mp hpos⟩
      quiet := fun _ hno => by cases hno }
  · rw [if_neg hlast]
    exact {
      alternates := h.alternates
      firstOnly := h.firstOnly
      startDue := fun j hj => ⟨rfl, (h.startDue j hj).2⟩
      stopDue := fun hstop => by cases hstop
      quiet := fun hnone _ => by
        have hquiet := h.quiet hnone hdue
        show 0 < s.runningSessions - 1 ↔ s.callbacks.length % 2 = 1
        omega }

/-- The session is counted off; with the last one `streaming_will_stop` is due. -/
theorem clearLeave_inv (h : LifecycleInv s) (hc : s.clearing = some ⟨mode, todo, .leave i⟩) :
    LifecycleInv (nextClear s ⟨mode, todo, .leave i⟩) := by
  have hpos := h.join.leaving_pos hc
  have hbound := h.join.bound
  have hrunning : (s.runningSessions + (2 ^ 32 - 1)) % 2 ^ 32 = s.runningSessions - 1 := by omega
  have hnext : nextClear s ⟨mode, todo, .leave i⟩ =
      { s with runningSessions := s.runningSessions - 1, joined := s.joined ++ [i],
               clearing := some ⟨mode, todo,
                 if s.runningSessions - 1 = 0 then .willStop i else .erase i⟩ } := by
    simp only [nextClear, hrunning, RtspServer.setClearStep]
  rw [hnext]
  exact ⟨h.status, h.unallocated, h.join.leave hc, h.callback.leave h.join hc⟩

theorem clearWillStop_inv (h : LifecycleInv s) (hc : s.clearing = some ⟨mode, todo, .willStop i⟩) :
    LifecycleInv (nextClear s ⟨mode, todo, .willStop i⟩) := by
  have hok := h.join.clearing _ hc
  have hcall := h.callback
  obtain ⟨hzero, hodd⟩ := hcall.stopDue (by simp [RtspServer.willStopDue, hc])
  have hnone : ∀ j, (s.sessions j).start ≠ .counted true := fun j hj => by
    have := h.join.running_pos j hj
    omega
  have hcleared := (h.join.setClearing (some ⟨mode, todo, .erase i⟩)
    (by simp [RtspServer.leaving, hc]) (by simp [RtspServer.leftInSlots, hc])
    (by rintro c ⟨rfl⟩; exact ⟨hok.nodup, hok.slots, by simp⟩))
  refine ⟨h.status, h.unallocated, hcleared.withSessions s.sessions _ (fun _ => rfl) fun _ => id, ?_⟩
  exact {
    alternates := by
      refine callbacks_append s hcall.alternates .streamingWillStop ?_
      unfold callbackAt
      rw [if_neg (by omega)]
    firstOnly := hcall.firstOnly
    startDue := fun j hj => absurd hj (hnone j)
    stopDue := fun hstop => by cases hstop
    quiet := fun _ _ => by
      show 0 < s.runningSessions ↔ (s.callbacks ++ [Callback.streamingWillStop]).length % 2 = 1
      rw [List.length_append, List.length_singleton]
      omega }

theorem clearErase_inv (h : LifecycleInv s) (hc : s.clearing = some ⟨mode, todo, .erase i⟩) :
    LifecycleInv (nextClear s ⟨mode, todo, .erase i⟩) := by
  have hok := h.join.clearing _ hc
  have hnodup : i ∉ todo ∧ todo.Nodup := List.nodup_cons.mp hok.nodup
  refine ⟨h.status, h.unallocated, h.join.eraseSlot i _ ?_ ?_ ?_,
    h.callback.congr rfl rfl ?_ fun _ => Iff.rfl⟩
  · simp [RtspServer.leaving, hc]
  · simp [RtspServer.leftInSlots, hc]
  · rintro c ⟨rfl⟩
    refine ⟨hnodup.2, fun j hj => ?_, by simp⟩
    have hji : j ≠ i := fun e => hnodup.1 (e ▸ hj)
    exact (List.mem_erase_of_ne hji).mpr (hok.slots j (List.mem_cons_of_mem _ hj))
  · simp [RtspServer.willStopDue, nextClear, RtspServer.setClearStep, hc]

end ClearSteps

theorem clearStep_inv {s : RtspServer} (h : LifecycleInv s) (c : Clearing) (hc : s.clearing = some c)
    (hsafe : StepSafe s .clearStep) : LifecycleInv (nextClear s c) := by
  obtain ⟨mode, todo, step⟩ := c
  cases step with
  | next => exact clearNext_inv h hc hsafe
  | stop i => exact clearStop_inv h hc
  | joinThreads i => exact clearJoin_inv h hc
  | leave i => exact clearLeave_inv h hc
  | willStop i => exact clearWillStop_inv h hc
  | erase i => exact clearErase_inv h hc

/-! ## Runs -/

theorem nextLifecycle_inv (s : RtspServer) (e : LifecycleEvent) (h : LifecycleInv s)
    (henabled : Enabled s e) (hsafe : StepSafe s e) : LifecycleInv (nextLifecycle s e) := by
  cases e with
  | announce clientCert pos => exact announce_inv h clientCert pos henabled
  | startThreads i =>
    have hok := h.status i
    refine h.progress i _ ?_ rfl (Or.inl henabled)
    unfold StatusOk at hok ⊢
    rw [show (s.sessions i).start = .allocated from henabled] at hok
    exact hok
  | startFails i =>
    have hok := h.status i
    refine h.progress i _ ?_ rfl (Or.inl henabled)
    unfold StatusOk at hok ⊢
    rw [show (s.sessions i).start = .allocated from henabled] at hok
    exact hok.1
  | storeRunning i =>
    have hok := h.status i
    refine h.progress i _ ?_ rfl (Or.inr henabled)
    unfold StatusOk at hok ⊢
    rw [show (s.sessions i).start = .threadsCreated from henabled] at hok
    exact ⟨Or.inl rfl, fun hreq => absurd hreq (by simp [hok.2])⟩
  | countStart i => exact countStart_inv h i henabled hsafe.1 hsafe.2
  | startReturns i =>
    rcases henabled with hfirst | hlater
    · exact startReturns_inv h i true hfirst
    · exact startReturns_inv h i false hlater
  | remove i => exact remove_inv h i henabled.2
  | stop i => exact h.stop i henabled.1 hsafe.1 hsafe.2
  | clear mode => exact clear_inv h mode henabled
  | clearStep =>
    cases hc : s.clearing with
    | none =>
      have hnext : nextLifecycle s .clearStep = s := by simp only [nextLifecycle, hc]
      rw [hnext]
      exact h
    | some c =>
      have hnext : nextLifecycle s .clearStep = nextClear s c := by simp only [nextLifecycle, hc]
      rw [hnext]
      exact clearStep_inv h c hc hsafe

theorem initial_inv : LifecycleInv {} where
  status := fun _ => rfl
  unallocated := fun _ _ => rfl
  join := {
    started_iff := fun _ => ⟨nofun, nofun⟩
    startedNodup := List.nodup_nil
    enteredNodup := List.nodup_nil
    entered := nofun
    leaving := rfl
    counter := rfl
    bound := by decide
    slotsNodup := List.nodup_nil
    slotsAllocated := nofun
    slots := nofun
    clearing := nofun }
  callback := {
    alternates := rfl
    firstOnly := nofun
    startDue := nofun
    stopDue := nofun
    quiet := fun _ _ => by decide }

theorem getLast_alternates (callbacks : List Callback)
    (h : callbacks = (List.range callbacks.length).map callbackAt) :
    callbacks.getLast? = some .streamingWillStart ↔ callbacks.length % 2 = 1 := by
  rw [h, List.length_map, List.length_range]
  generalize callbacks.length = n
  cases n with
  | zero => simp
  | succ n =>
    rw [List.range_succ, List.map_append, List.map_singleton, List.getLast?_concat, Option.some.injEq]
    unfold callbackAt
    split_ifs with heven
    · simp only [true_iff]
      omega
    · simp only [false_iff]
      omega

theorem LifecycleInv.safe {s : RtspServer} (h : LifecycleInv s) : LifecycleSafe s where
  stops := fun i => (h.status i).stops
  joins := ⟨h.join.enteredNodup, fun i hi => by rw [h.join.entered i hi]; rfl⟩
  counter := by
    have hcounter := h.join.counter
    omega
  alternates := h.callback.alternates
  lastCallback := fun hnone hdue => by
    rw [getLast_alternates _ h.callback.alternates]
    exact h.callback.quiet hnone hdue

/-- Every state of a run of safe steps is safe. -/
theorem lifecycle_safe (l : List LifecycleEvent)
    (h : Runs (fun s e => Enabled s e ∧ StepSafe s e) nextLifecycle {} l) :
    LifecycleSafe (l.foldl nextLifecycle {}) :=
  (h.invariant LifecycleInv initial_inv
    fun s e hs hstep => nextLifecycle_inv s e hs hstep.1 hstep.2).safe

instance (s : RtspServer) (e : LifecycleEvent) : Decidable (Enabled s e) := by
  cases e <;> dsimp only [Enabled] <;> infer_instance

instance (s : RtspServer) (e : LifecycleEvent) : Decidable (StepSafe s e) := by
  cases e <;> dsimp only [StepSafe]
  case clearStep => split <;> infer_instance
  all_goals infer_instance

/-- A session that starts, streams, is stopped and cleared while a second one is started. -/
theorem lifecycle_safe_two_sessions :
    LifecycleSafe ([.announce "tv" 0, .startThreads 0, .storeRunning 0, .countStart 0,
      .startReturns 0, .announce "phone" 0, .stop 0, .clear .stoppingOnly, .clearStep, .clearStep,
      .clearStep, .clearStep, .clearStep, .startThreads 1, .storeRunning 1, .clearStep, .clearStep,
      .clearStep, .countStart 1, .startReturns 1, .clear .all, .clearStep, .clearStep, .clearStep,
      .clearStep, .clearStep, .clearStep, .clearStep].foldl nextLifecycle {}) :=
  lifecycle_safe _ (by decide)

/-- A stop between the insertion and `RUNNING` is lost. -/
theorem early_stop_lost :
    ¬ ∀ l : List LifecycleEvent, Runs Enabled nextLifecycle {} l →
      LifecycleSafe (l.foldl nextLifecycle {}) := by
  intro hall
  have hrun := hall [.announce "tv" 0, .stop 0, .startThreads 0, .storeRunning 0] (by decide)
  exact absurd (hrun.stops 0 (by decide)) (by decide)

end Sunshine.Session
