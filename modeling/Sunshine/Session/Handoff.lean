import Sunshine.Lib.Transitions

/-! The pending launch session of `rtsp_server_t`: `session_raise`, `session_clear`, the expiry timer and
accepted connections, interleaved at their accesses to the event and the timer. Under what `Orderly` asks
of the interleaving, `handoff_safe` gives the promises of all of them. -/
namespace Sunshine.Handoff
open Transitions
set_option autoImplicit false

/-! ## The parties -/

structure Pending where
  id : ℕ
  raisedAt : ℕ
  deriving DecidableEq

/-- What a `session_raise` that found no pending session does next. -/
inductive RaiseStage where
  | raise
  | expiresAfter
  | asyncWait
  deriving DecidableEq

/-- `waiting` are the waits on `raised_timer` and `queued` those that have expired, each with the launch
session it was armed for; `clearing` tells whether the timer is cancelled already. -/
structure Server where
  now : ℕ
  launchEvent : Option Pending
  expiry : ℕ
  waiting : List ℕ
  queued : List ℕ
  counter : ℕ
  raising : List (ℕ × RaiseStage)
  clearing : List (ℕ × Bool)
  /-- The launch sessions of the accepted connections, the last one first. -/
  handed : List ℕ
  deriving DecidableEq

inductive Op where
  | raise
  | raiseStep (id : ℕ)
  | clear (id : ℕ)
  | clearStep (id : ℕ)
  | expire
  | handler
  | accept
  | tick
  deriving DecidableEq

section Steps

variable (pingTimeout : ℕ)

def setEntry {α : Type} (id : ℕ) (value : α) (entries : List (ℕ × α)) : List (ℕ × α) :=
  entries.map fun entry => if entry.1 = id then (id, value) else entry

/-- `view(0s)`: a launch event that is pending is not overwritten. -/
def sessionRaise (s : Server) : Server :=
  if s.launchEvent = none then { s with
    counter := s.counter + 1
    raising := (s.counter + 1, .raise) :: s.raising }
  else { s with counter := s.counter + 1 }

def raiseStep (id : ℕ) (s : Server) : Server :=
  match s.raising.lookup id with
  | none => s
  | some .raise => { s with
      launchEvent := some ⟨id, s.now⟩
      raising := setEntry id .expiresAfter s.raising }
  | some .expiresAfter => { s with
      -- a new expiry cancels the waits on the old one
      waiting := []
      expiry := s.now + pingTimeout
      raising := setEntry id .asyncWait s.raising }
  | some .asyncWait => { s with
      waiting := id :: s.waiting
      raising := s.raising.filter fun entry => entry.1 ≠ id }

/-- `view(0s)` and the comparison of the ids. -/
def sessionClear (id : ℕ) (s : Server) : Server :=
  match s.launchEvent with
  | none => s
  | some pending => if pending.id = id then { s with clearing := (id, false) :: s.clearing } else s

def clearStep (id : ℕ) (s : Server) : Server :=
  match s.clearing.lookup id with
  | none => s
  | some false => { s with waiting := [], clearing := setEntry id true s.clearing }
  | some true =>
    match s.launchEvent with
    -- `pop()` waits until there is a session
    | none => s
    | some _ => { s with
        launchEvent := none
        clearing := s.clearing.filter fun entry => entry.1 ≠ id }

/-- Waits that have expired can no longer be cancelled. -/
def expire (s : Server) : Server :=
  if s.expiry ≤ s.now then { s with queued := s.queued ++ s.waiting, waiting := [] } else s

def handler (s : Server) : Server :=
  match s.queued with
  | [] => s
  | _ :: queued => { s with queued := queued, launchEvent := none }

def handleAccept (s : Server) : Server :=
  match s.launchEvent with
  | none => s
  | some pending => { s with handed := pending.id :: s.handed }

def next (s : Server) : Op → Server
  | .raise => sessionRaise s
  | .raiseStep id => raiseStep pingTimeout id s
  | .clear id => sessionClear id s
  | .clearStep id => clearStep id s
  | .expire => expire s
  | .handler => handler s
  | .accept => handleAccept s
  | .tick => { s with now := s.now + 1 }

/-! ## Promises -/

/-- `session_clear` finds its own session to pop, the timer discards the session it was armed for, and a
session is handed to successive connections, none after its time. -/
def Safe (s : Server) : Op → Prop
  | .clearStep id => (id, true) ∈ s.clearing → ∃ pending, s.launchEvent = some pending ∧ pending.id = id
  | .handler => ∀ id ∈ s.queued.head?, ∀ pending, s.launchEvent = some pending → pending.id = id
  | .accept => ∀ pending, s.launchEvent = some pending → s.now ≤ pending.raisedAt + pingTimeout ∧
      (pending.id ∈ s.handed → s.handed.head? = some pending.id)
  | _ => True

/-- The raises do not overlap, and none passes an expiry that is still to be handled; no wait expires
between a raise and its own expiry; the expiry is not handled during a clear, and the clears do not
overlap; and no time passes under a pending session while its raise, a clear or its expiry is due. -/
def Orderly (s : Server) : Op → Prop
  | .raise => s.launchEvent = none → s.raising = []
  | .raiseStep id => (id, .raise) ∈ s.raising → s.queued = []
  | .clear id => (∃ pending, s.launchEvent = some pending ∧ pending.id = id) → s.clearing = []
  | .expire => s.expiry ≤ s.now → s.waiting = [] ∨ ∀ entry ∈ s.raising, entry.2 ≠ .expiresAfter
  | .handler => s.queued = [] ∨ s.clearing = []
  | .tick => s.launchEvent = none ∨ (∀ entry ∈ s.raising, entry.2 = .raise) ∧ s.clearing = [] ∧
      s.queued = [] ∧ (s.waiting = [] ∨ s.now < s.expiry)
  | _ => True

/-- How the expiry of a pending session is on its way. -/
inductive Armed (s : Server) (pending : Pending) : Prop where
  | raised (stage : (pending.id, .expiresAfter) ∈ s.raising) (time : s.now = pending.raisedAt)
  | expires (stage : (pending.id, .asyncWait) ∈ s.raising) (time : s.now = pending.raisedAt)
      (expiry : s.expiry = pending.raisedAt + pingTimeout)
  | waits (done : ∀ entry ∈ s.raising, entry.1 ≠ pending.id) (waits : pending.id ∈ s.waiting)
      (time : s.now ≤ s.expiry) (expiry : s.expiry = pending.raisedAt + pingTimeout)
  | queued (queued : pending.id ∈ s.queued) (time : s.now ≤ pending.raisedAt + pingTimeout)
  | cleared (clearing : s.clearing ≠ []) (time : s.now ≤ pending.raisedAt + pingTimeout)

structure Inv (s : Server) : Prop where
  single : s.raising = [] ∨ ∃ id stage, s.raising = [(id, stage)]
  viewed : ∀ id, (id, .raise) ∈ s.raising → s.launchEvent = none
  own : ∀ entry ∈ s.raising, ∀ pending, s.launchEvent = some pending → pending.id = entry.1
  clears : s.clearing = [] ∨ ∃ id cancelled pending, s.clearing = [(id, cancelled)] ∧
    s.launchEvent = some pending ∧ pending.id = id
  queued : ∀ id ∈ s.queued, ∀ pending, s.launchEvent = some pending → pending.id = id
  waiting : ∀ id ∈ s.waiting, ∀ pending, s.launchEvent = some pending →
    pending.id = id ∨ (pending.id, .expiresAfter) ∈ s.raising
  armed : ∀ pending, s.launchEvent = some pending → Armed pingTimeout s pending
  handed : ∀ pending, s.launchEvent = some pending → pending.id ∈ s.handed →
    s.handed.head? = some pending.id
  raising_le : ∀ entry ∈ s.raising, entry.1 ≤ s.counter
  raising_new : ∀ id, (id, .raise) ∈ s.raising → id ∉ s.handed
  pending_le : ∀ pending, s.launchEvent = some pending → pending.id ≤ s.counter
  handed_le : ∀ id ∈ s.handed, id ≤ s.counter

variable {pingTimeout}

/-! ## Raises -/

theorem Armed.congr {s t : Server} {pending : Pending} (h : Armed pingTimeout s pending)
    (hnow : t.now = s.now) (hexpiry : t.expiry = s.expiry) (hraising : t.raising = s.raising)
    (hwaiting : t.waiting = s.waiting) (hqueued : t.queued = s.queued)
    (hclearing : t.clearing = s.clearing) : Armed pingTimeout t pending := by
  cases h with
  | raised stage time => exact .raised (by rwa [hraising]) (by rwa [hnow])
  | expires stage time expiry => exact .expires (by rwa [hraising]) (by rwa [hnow]) (by rwa [hexpiry])
  | waits done waits time expiry =>
    exact .waits (by rwa [hraising]) (by rwa [hwaiting]) (by rwa [hnow, hexpiry]) (by rwa [hexpiry])
  | queued queued time => exact .queued (by rwa [hqueued]) (by rwa [hnow])
  | cleared clearing time => exact .cleared (by rwa [hclearing]) (by rwa [hnow])

/-- Its expiry is never overdue. -/
theorem Armed.in_time {s : Server} {pending : Pending} (h : Armed pingTimeout s pending) :
    s.now ≤ pending.raisedAt + pingTimeout := by
  cases h with
  | raised stage time => omega
  | expires stage time expiry => omega
  | waits done waits time expiry => omega
  | queued queued time => exact time
  | cleared clearing time => exact time

theorem inv_raise {s : Server} (h : Inv pingTimeout s) (horderly : Orderly s .raise) :
    Inv pingTimeout (sessionRaise s) := by
  have hle : ∀ n, n ≤ s.counter → n ≤ s.counter + 1 := fun n => Nat.le_succ_of_le
  unfold sessionRaise
  split_ifs with hevent
  · have hnone : s.raising = [] := horderly hevent
    have hno : ∀ pending, s.launchEvent ≠ some pending := by
      intro pending
      rw [hevent]
      exact nofun
    refine ⟨.inr ⟨_, _, by rw [hnone]⟩, fun _ _ => hevent, fun _ _ pending hp => absurd hp (hno pending),
      h.clears, h.queued, fun _ _ pending hp => absurd hp (hno pending),
      fun pending hp => absurd hp (hno pending), h.handed, ?_, ?_,
      fun pending hp => absurd hp (hno pending), fun id hid => hle id (h.handed_le id hid)⟩
    · exact List.forall_mem_cons.mpr ⟨Nat.le_refl _, fun entry hentry => hle _ (h.raising_le entry hentry)⟩
    · intro id hid hhanded
      rw [hnone] at hid
      obtain ⟨rfl, -⟩ := Prod.mk.inj (List.mem_singleton.mp hid)
      have hold := h.handed_le _ hhanded
      omega
  · refine ⟨h.single, h.viewed, h.own, h.clears, h.queued, h.waiting, fun pending hp => ?_, h.handed,
      fun entry hentry => hle _ (h.raising_le entry hentry), h.raising_new,
      fun pending hp => hle _ (h.pending_le pending hp), fun id hid => hle id (h.handed_le id hid)⟩
    exact (h.armed pending hp).congr rfl rfl rfl rfl rfl rfl

/-- The one raise in progress makes its next step. -/
theorem raiseStep_cases (s : Server) (h : Inv pingTimeout s) (id : ℕ) :
    raiseStep pingTimeout id s = s ∨
      (s.raising = [(id, .raise)] ∧ raiseStep pingTimeout id s =
        { s with launchEvent := some ⟨id, s.now⟩, raising := [(id, .expiresAfter)] }) ∨
      (s.raising = [(id, .expiresAfter)] ∧ raiseStep pingTimeout id s =
        { s with waiting := [], expiry := s.now + pingTimeout, raising := [(id, .asyncWait)] }) ∨
      s.raising = [(id, .asyncWait)] ∧ raiseStep pingTimeout id s =
        { s with waiting := id :: s.waiting, raising := [] } := by
  unfold raiseStep
  rcases h.single with hnil | ⟨i, stage, hraising⟩
  · rw [hnil]
    exact .inl rfl
  · by_cases hid : id = i
    · subst hid
      rw [hraising, List.lookup_cons_self]
      cases stage with
      | raise => exact .inr (.inl ⟨rfl, by simp [setEntry]⟩)
      | expiresAfter => exact .inr (.inr (.inl ⟨rfl, by simp [setEntry]⟩))
      | asyncWait => exact .inr (.inr (.inr ⟨rfl, by simp⟩))
    · rw [hraising, List.lookup_cons, beq_false_of_ne hid, List.lookup_nil]
      exact .inl (by rw [← hraising])

/-- The session is set: nothing is pending, queued or cleared. -/
theorem inv_raised {s : Server} (h : Inv pingTimeout s) {id : ℕ} (hraising : s.raising = [(id, .raise)])
    (hqueued : s.queued = []) :
    Inv pingTimeout { s with launchEvent := some ⟨id, s.now⟩, raising := [(id, .expiresAfter)] } := by
  have hmem : (id, RaiseStage.raise) ∈ s.raising := by
    rw [hraising]
    exact List.mem_cons_self
  have hnone : s.launchEvent = none := h.viewed id hmem
  have hclearing : s.clearing = [] := by
    rcases h.clears with hnil | ⟨i, cancelled, pending, -, hpending, -⟩
    · exact hnil
    · rw [hnone] at hpending
      cases hpending
  have hcounter : id ≤ s.counter := h.raising_le _ hmem
  refine ⟨.inr ⟨_, _, rfl⟩, ?_, ?_, .inl hclearing, ?_, ?_, ?_, ?_, ?_, ?_, ?_, h.handed_le⟩
  · intro i hi
    cases (Prod.mk.inj (List.mem_singleton.mp hi)).2
  · rintro entry hentry pending hp
    rw [List.mem_singleton.mp hentry]
    obtain rfl := Option.some.inj hp
    rfl
  · rw [hqueued]
    exact nofun
  · rintro i - pending hp
    obtain rfl := Option.some.inj hp
    exact .inr List.mem_cons_self
  · rintro pending hp
    obtain rfl := Option.some.inj hp
    exact .raised List.mem_cons_self rfl
  · rintro pending hp hhanded
    obtain rfl := Option.some.inj hp
    exact absurd hhanded (h.raising_new id hmem)
  · exact List.forall_mem_singleton.mpr hcounter
  · intro i hi
    cases (Prod.mk.inj (List.mem_singleton.mp hi)).2
  · rintro pending hp
    obtain rfl := Option.some.inj hp
    exact hcounter

/-- Setting the expiry of the timer drops what waits for it. -/
theorem inv_expiresAfter {s : Server} (h : Inv pingTimeout s) {id : ℕ}
    (hraising : s.raising = [(id, .expiresAfter)]) :
    Inv pingTimeout { s with waiting := [], expiry := s.now + pingTimeout, raising := [(id, .asyncWait)] } := by
  have hmem : (id, RaiseStage.expiresAfter) ∈ s.raising := by
    rw [hraising]
    exact List.mem_cons_self
  refine ⟨.inr ⟨_, _, rfl⟩, ?_, ?_, h.clears, h.queued, nofun, ?_, h.handed, ?_, ?_, h.pending_le,
    h.handed_le⟩
  · intro i hi
    cases (Prod.mk.inj (List.mem_singleton.mp hi)).2
  · rintro entry hentry pending hp
    rw [List.mem_singleton.mp hentry]
    exact h.own _ hmem pending hp
  · intro pending hp
    have hown : pending.id = id := h.own _ hmem pending hp
    cases h.armed pending hp with
    | raised stage time =>
      refine .expires ?_ time (by rw [time])
      rw [hown]
      exact List.mem_cons_self
    | expires stage time expiry =>
      rw [hraising] at stage
      cases (Prod.mk.inj (List.mem_singleton.mp stage)).2
    | waits done waits time expiry => exact absurd hown.symm (done _ hmem)
    | queued queued time => exact .queued queued time
    | cleared clearing time => exact .cleared clearing time
  · exact List.forall_mem_singleton.mpr (h.raising_le (id, .expiresAfter) hmem)
  · intro i hi
    cases (Prod.mk.inj (List.mem_singleton.mp hi)).2

/-- The raise waits for the timer, and is done. -/
theorem inv_asyncWait {s : Server} (h : Inv pingTimeout s) {id : ℕ}
    (hraising : s.raising = [(id, .asyncWait)]) :
    Inv pingTimeout { s with waiting := id :: s.waiting, raising := [] } := by
  have hmem : (id, RaiseStage.asyncWait) ∈ s.raising := by
    rw [hraising]
    exact List.mem_cons_self
  have hown : ∀ pending, s.launchEvent = some pending → pending.id = id := h.own _ hmem
  refine ⟨.inl rfl, nofun, nofun, h.clears, h.queued, ?_, ?_, h.handed, nofun, nofun, h.pending_le,
    h.handed_le⟩
  · refine List.forall_mem_cons.mpr ⟨fun pending hp => .inl (hown pending hp), fun i hi pending hp => ?_⟩
    rcases h.waiting i hi pending hp with hid | hstage
    · exact .inl hid
    · rw [hraising] at hstage
      cases (Prod.mk.inj (List.mem_singleton.mp hstage)).2
  · intro pending hp
    cases h.armed pending hp with
    | raised stage time =>
      rw [hraising] at stage
      cases (Prod.mk.inj (List.mem_singleton.mp stage)).2
    | expires stage time expiry =>
      refine .waits nofun ?_ ?_ expiry
      · rw [hown pending hp]
        exact List.mem_cons_self
      · change s.now ≤ s.expiry
        omega
    | waits done waits time expiry => exact absurd (hown pending hp).symm (done _ hmem)
    | queued queued time => exact .queued queued time
    | cleared clearing time => exact .cleared clearing time

theorem inv_raiseStep {s : Server} (h : Inv pingTimeout s) (id : ℕ)
    (horderly : Orderly s (.raiseStep id)) : Inv pingTimeout (raiseStep pingTimeout id s) := by
  rcases raiseStep_cases s h id with heq | ⟨hraising, heq⟩ | ⟨hraising, heq⟩ | ⟨hraising, heq⟩
  · rwa [heq]
  · rw [heq]
    exact inv_raised h hraising (horderly (by rw [hraising]; exact List.mem_cons_self))
  · rw [heq]
    exact inv_expiresAfter h hraising
  · rw [heq]
    exact inv_asyncWait h hraising

/-! ## Clears -/

theorem sessionClear_cases (s : Server) (id : ℕ) :
    sessionClear id s = s ∨ ∃ pending, s.launchEvent = some pending ∧ pending.id = id ∧
      sessionClear id s = { s with clearing := (id, false) :: s.clearing } := by
  unfold sessionClear
  cases hevent : s.launchEvent with
  | none => exact .inl rfl
  | some pending =>
    by_cases hid : pending.id = id
    · exact .inr ⟨pending, rfl, hid, if_pos hid⟩
    · exact .inl (if_neg hid)

theorem inv_clear {s : Server} (h : Inv pingTimeout s) (id : ℕ) (horderly : Orderly s (.clear id)) :
    Inv pingTimeout (sessionClear id s) := by
  rcases sessionClear_cases s id with heq | ⟨pending, hevent, hid, heq⟩
  · rwa [heq]
  · rw [heq]
    have hclearing : s.clearing = [] := horderly ⟨pending, hevent, hid⟩
    refine ⟨h.single, h.viewed, h.own, .inr ⟨id, false, pending, by rw [hclearing], hevent, hid⟩,
      h.queued, h.waiting, fun other hp => ?_, h.handed, h.raising_le, h.raising_new, h.pending_le,
      h.handed_le⟩
    exact .cleared (List.cons_ne_nil _ _) (h.armed other hp).in_time

/-- The one clear in progress makes its next step; it finds its session there. -/
theorem clearStep_cases (s : Server) (h : Inv pingTimeout s) (id : ℕ) :
    clearStep id s = s ∨
      (s.clearing = [(id, false)] ∧ clearStep id s = { s with waiting := [], clearing := [(id, true)] }) ∨
      s.clearing = [(id, true)] ∧ clearStep id s = { s with launchEvent := none, clearing := [] } := by
  unfold clearStep
  rcases h.clears with hnil | ⟨i, cancelled, pending, hclearing, hevent, -⟩
  · rw [hnil]
    exact .inl rfl
  · by_cases hid : id = i
    · subst hid
      rw [hclearing, List.lookup_cons_self]
      cases cancelled with
      | false => exact .inr (.inl ⟨rfl, by simp [setEntry]⟩)
      | true =>
        rw [hevent]
        exact .inr (.inr ⟨rfl, by simp⟩)
    · rw [hclearing, List.lookup_cons, beq_false_of_ne hid, List.lookup_nil]
      exact .inl (by rw [← hclearing])

/-- Without a pending session the promises about it are empty. -/
theorem inv_removed {s t : Server} (h : Inv pingTimeout s) (hevent : t.launchEvent = none)
    (hclearing : t.clearing = []) (hraising : t.raising = s.raising) (hcounter : t.counter = s.counter)
    (hhanded : t.handed = s.handed) : Inv pingTimeout t := by
  have hno : ∀ pending, t.launchEvent ≠ some pending := by
    intro pending
    rw [hevent]
    exact nofun
  refine ⟨?_, fun _ _ => hevent, fun _ _ pending hp => absurd hp (hno pending), .inl hclearing,
    fun _ _ pending hp => absurd hp (hno pending), fun _ _ pending hp => absurd hp (hno pending),
    fun pending hp => absurd hp (hno pending), fun pending hp => absurd hp (hno pending), ?_, ?_,
    fun pending hp => absurd hp (hno pending), ?_⟩
  · rw [hraising]
    exact h.single
  · rw [hraising, hcounter]
    exact h.raising_le
  · rw [hraising, hhanded]
    exact h.raising_new
  · rw [hhanded, hcounter]
    exact h.handed_le

theorem inv_clearStep {s : Server} (h : Inv pingTimeout s) (id : ℕ) :
    Inv pingTimeout (clearStep id s) := by
  rcases clearStep_cases s h id with heq | ⟨hclearing, heq⟩ | ⟨hclearing, heq⟩
  · rwa [heq]
  · rw [heq]
    obtain ⟨pending, hevent, hid⟩ : ∃ pending, s.launchEvent = some pending ∧ pending.id = id := by
      rcases h.clears with hnil | ⟨i, cancelled, pending, hsome, hevent, hid⟩
      · rw [hnil] at hclearing
        cases hclearing
      · rw [hclearing] at hsome
        obtain ⟨rfl, -⟩ := Prod.mk.inj (List.cons.inj hsome).1
        exact ⟨pending, hevent, hid⟩
    refine ⟨h.single, h.viewed, h.own, .inr ⟨id, true, pending, rfl, hevent, hid⟩, h.queued, nofun,
      fun other hp => ?_, h.handed, h.raising_le, h.raising_new, h.pending_le, h.handed_le⟩
    exact .cleared (List.cons_ne_nil _ _) (h.armed other hp).in_time
  · rw [heq]
    exact inv_removed h rfl rfl rfl rfl rfl

/-! ## Expiry, connections and time -/

theorem inv_expire {s : Server} (h : Inv pingTimeout s) (horderly : Orderly s .expire) :
    Inv pingTimeout (expire s) := by
  unfold expire
  split_ifs with hdue
  · have hqueued : ∀ id ∈ s.queued ++ s.waiting, ∀ pending, s.launchEvent = some pending →
        pending.id = id := by
      intro id hid pending hp
      rcases List.mem_append.mp hid with hin | hin
      · exact h.queued id hin pending hp
      · rcases h.waiting id hin pending hp with heq | hstage
        · exact heq
        · rcases horderly hdue with hnil | hlate
          · rw [hnil] at hin
            cases hin
          · exact absurd rfl (hlate _ hstage)
    refine ⟨h.single, h.viewed, h.own, h.clears, hqueued, nofun, fun pending hp => ?_, h.handed,
      h.raising_le, h.raising_new, h.pending_le, h.handed_le⟩
    cases h.armed pending hp with
    | raised stage time => exact .raised stage time
    | expires stage time expiry => exact .expires stage time expiry
    | waits done waits time expiry =>
      exact .queued (List.mem_append_right _ waits) (by rw [← expiry]; exact time)
    | queued queued time => exact .queued (List.mem_append_left _ queued) time
    | cleared clearing time => exact .cleared clearing time
  · exact h

theorem inv_handler {s : Server} (h : Inv pingTimeout s) (horderly : Orderly s .handler) :
    Inv pingTimeout (handler s) := by
  unfold handler
  cases hqueued : s.queued with
  | nil => exact h
  | cons id queued =>
    have hclearing : s.clearing = [] := by
      rcases horderly with hnil | hclear
      · rw [hqueued] at hnil
        cases hnil
      · exact hclear
    exact inv_removed h rfl hclearing rfl rfl rfl

theorem handleAccept_cases (s : Server) :
    handleAccept s = s ∨ ∃ pending, s.launchEvent = some pending ∧
      handleAccept s = { s with handed := pending.id :: s.handed } := by
  unfold handleAccept
  cases hevent : s.launchEvent with
  | none => exact .inl rfl
  | some pending => exact .inr ⟨pending, rfl, rfl⟩

theorem inv_accept {s : Server} (h : Inv pingTimeout s) : Inv pingTimeout (handleAccept s) := by
  rcases handleAccept_cases s with heq | ⟨pending, hevent, heq⟩
  · rwa [heq]
  · rw [heq]
    have hsame : ∀ other, s.launchEvent = some other → other = pending := by
      intro other hp
      rw [hevent] at hp
      exact (Option.some.inj hp).symm
    refine ⟨h.single, h.viewed, h.own, h.clears, h.queued, h.waiting, fun other hp => ?_,
      fun other hp _ => ?_, h.raising_le, fun id hid => ?_, h.pending_le, ?_⟩
    · exact (h.armed other hp).congr rfl rfl rfl rfl rfl rfl
    · rw [hsame other hp]
      rfl
    · -- a session that is about to be raised is not pending
      have hnone := h.viewed id hid
      rw [hevent] at hnone
      cases hnone
    · exact List.forall_mem_cons.mpr ⟨h.pending_le pending hevent, h.handed_le⟩

theorem inv_tick {s : Server} (h : Inv pingTimeout s) (horderly : Orderly s .tick) :
    Inv pingTimeout { s with now := s.now + 1 } := by
  refine ⟨h.single, h.viewed, h.own, h.clears, h.queued, h.waiting, fun pending hp => ?_, h.handed,
    h.raising_le, h.raising_new, h.pending_le, h.handed_le⟩
  rcases horderly with hnone | ⟨hraising, hclearing, hqueued, hwaiting⟩
  · rw [hnone] at hp
    cases hp
  · cases h.armed pending hp with
    | raised stage time => cases hraising _ stage
    | expires stage time expiry => cases hraising _ stage
    | waits done waits time expiry =>
      rcases hwaiting with hnil | hlater
      · rw [hnil] at waits
        cases waits
      · exact .waits done waits hlater expiry
    | queued queued time =>
      rw [hqueued] at queued
      cases queued
    | cleared clearing time => exact absurd hclearing clearing

/-! ## Runs -/

theorem inv_next {s : Server} (h : Inv pingTimeout s) (op : Op) (horderly : Orderly s op) :
    Inv pingTimeout (next pingTimeout s op) := by
  cases op with
  | raise => exact inv_raise h horderly
  | raiseStep id => exact inv_raiseStep h id horderly
  | clear id => exact inv_clear h id horderly
  | clearStep id => exact inv_clearStep h id
  | expire => exact inv_expire h horderly
  | handler => exact inv_handler h horderly
  | accept => exact inv_accept h
  | tick => exact inv_tick h horderly

theorem inv_safe {s : Server} (h : Inv pingTimeout s) (op : Op) : Safe pingTimeout s op := by
  cases op with
  | clearStep id =>
    intro hmem
    rcases h.clears with hnil | ⟨i, cancelled, pending, hsome, hevent, hid⟩
    · rw [hnil] at hmem
      cases hmem
    · rw [hsome] at hmem
      obtain ⟨rfl, -⟩ := Prod.mk.inj (List.mem_singleton.mp hmem)
      exact ⟨pending, hevent, hid⟩
  | handler =>
    intro id hid pending hp
    exact h.queued id (List.mem_of_mem_head? hid) pending hp
  | accept => exact fun pending hp => ⟨(h.armed pending hp).in_time, h.handed pending hp⟩
  | raise | raiseStep | clear | expire | tick => trivial

def initial : Server := ⟨0, none, 0, [], [], 0, [], [], []⟩

theorem inv_initial : Inv pingTimeout initial :=
  ⟨.inl rfl, nofun, nofun, .inl rfl, nofun, nofun, nofun, nofun, nofun, nofun, nofun, nofun⟩

/-- In an orderly interleaving every clear pops its own session, every expiry discards the session it was
armed for, and every session is handed to successive connections within its time. -/
theorem handoff_safe (ops : List Op) (h : Runs Orderly (next pingTimeout) initial ops) :
    Runs (Safe pingTimeout) (next pingTimeout) initial ops := by
  have hrun : ∀ s, Inv pingTimeout s → Runs Orderly (next pingTimeout) s ops →
      Runs (Safe pingTimeout) (next pingTimeout) s ops := by
    clear h
    induction ops with
    | nil => exact fun _ _ _ => trivial
    | cons op ops ih =>
      rintro s hinv ⟨hop, hrest⟩
      exact ⟨inv_safe hinv op, ih _ (inv_next hinv op hop) hrest⟩
  exact hrun initial inv_initial h

end Steps

/-- A raise, and a clear of it that its expiry overtakes. -/
def overtaken : List Op :=
  [.raise, .raiseStep 1, .raiseStep 1, .raiseStep 1, .tick, .clear 1, .expire, .handler, .clearStep 1,
    .clearStep 1]

theorem clear_blocks : ¬∀ ops, Runs (Safe 1) (next 1) initial ops := by
  intro h
  obtain ⟨-, -, -, -, -, -, -, -, -, hclear, -⟩ := h overtaken
  have hsome := Option.isSome_iff_exists.mpr ((hclear (by decide)).imp fun _ => And.left)
  exact absurd hsome (by decide)

/-- A session that is raised, handed over and cleared before its time. -/
def inTime : List Op :=
  [.raise, .raiseStep 1, .raiseStep 1, .raiseStep 1, .accept, .tick, .accept, .clear 1, .clearStep 1,
    .clearStep 1]

theorem handoff_safe_in_time : Runs (Safe 2) (next 2) initial inTime := by
  refine handoff_safe _ ⟨fun _ => rfl, fun _ => rfl, fun _ => rfl, fun _ => rfl, trivial, .inr ?_, trivial,
    fun _ => rfl, trivial, trivial, trivial⟩
  decide

end Sunshine.Handoff
