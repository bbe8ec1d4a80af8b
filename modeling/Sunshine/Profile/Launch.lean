import Sunshine.Profile.ClientProfiles

/-! `nvhttp::launch` and `resume` with the profile of the client: it is applied before the checks, the guard at
the handler's end may reset it, and so does every session that ends. `launch_keeps_profile` is about all
interleavings of handlers, sessions and reloads. -/
namespace Sunshine.Profiles
open Transitions
set_option autoImplicit false

/-! ## Launches -/

/-- A launch session with the profile its handler applied, which is none for `resume`. -/
structure LaunchSession where
  id : ℕ
  profile : Option Profile
  deriving DecidableEq

/-- What the checks of a handler find: the encoder probe, mandatory encryption, and the start of the app. -/
structure Checks where
  probeFails : Bool
  encryptionRefused : Bool
  appid : ℤ
  err : ℤ
  deriving DecidableEq

/-- A handler's end: whether it raised its launch session, and the live values it left. -/
structure Returned where
  session : LaunchSession
  raised : Bool
  config : Globals
  deriving DecidableEq

/-- `launching` are the handlers before their checks, `checked` those before their guard. A session is
listed with the launch session it consumed, if that was pending still. -/
structure Server where
  live : Live
  sessionIdCounter : ℕ
  launchEvent : Option LaunchSession
  consumed : List ℕ
  sessions : List (ℕ × Option LaunchSession)
  launching : List LaunchSession
  checked : List (LaunchSession × Bool)
  /-- The launch whose snapshot is in the undo record. -/
  owner : Option ℕ
  /-- The launches whose snapshots were put back. -/
  restored : List ℕ
  returned : List Returned
  deriving DecidableEq

inductive Event where
  | launch (argsMissing : Bool) (running : ℤ) (uniqueId : Text)
  | check (id : ℕ) (checks : Checks)
  | ret (id : ℕ)
  | resume (argsMissing : Bool) (running : ℤ) (checks : Checks)
  | start (session : ℕ) (late : Bool)
  | clear
  | join (session : ℕ)
  | reload (temp : Text)
  deriving DecidableEq

/-- A launch event that is still pending is not overwritten. -/
def sessionRaise (launchSession : LaunchSession) (s : Server) : Server :=
  { s with launchEvent := s.launchEvent.or (some launchSession) }

def resetProfile (s : Server) : Server :=
  { s with
    live := reset s.live
    restored := if s.live.undo = none then s.restored else s.owner.toList ++ s.restored
    owner := none }

/-- The checks that follow the profile, in their order; with a live session no encoder is probed. -/
def passes (s : Server) (checks : Checks) : Bool :=
  if s.sessions = [] ∧ checks.probeFails then false
  else if checks.encryptionRefused then false
  else if 0 < checks.appid ∧ checks.err ≠ 0 then false
  else true

section Handlers

variable (profiles : Text → Option Profile)

/-- From the arguments to the profile. -/
def launch (argsMissing : Bool) (running : ℤ) (uniqueId : Text) (s : Server) : Server :=
  if argsMissing ∨ 0 < running then s
  else
    let launchSession : LaunchSession := ⟨s.sessionIdCounter + 1, find profiles uniqueId⟩
    { s with
      sessionIdCounter := s.sessionIdCounter + 1
      live := apply profiles uniqueId s.live
      owner := if find profiles uniqueId = none then s.owner else some launchSession.id
      launching := launchSession :: s.launching }

def checkLaunch (launchSession : LaunchSession) (checks : Checks) (s : Server) : Server :=
  let raised := passes s checks
  let s := { s with
    launching := s.launching.erase launchSession
    checked := (launchSession, raised) :: s.checked }
  if raised then sessionRaise launchSession s else s

/-- `profile_guard`, which runs on success as well. -/
def returnLaunch (launchSession : LaunchSession) (raised : Bool) (s : Server) : Server :=
  let s := if s.sessions = [] then resetProfile s else s
  { s with
    checked := s.checked.erase (launchSession, raised)
    returned := ⟨launchSession, raised, s.live.config⟩ :: s.returned }

def resume (argsMissing : Bool) (running : ℤ) (checks : Checks) (s : Server) : Server :=
  if running = 0 ∨ argsMissing then s
  else
    let launchSession : LaunchSession := ⟨s.sessionIdCounter + 1, none⟩
    let s := { s with sessionIdCounter := s.sessionIdCounter + 1 }
    if passes s { checks with appid := 0 } then sessionRaise launchSession s else s

/-- A session starts. `late` is one whose connection was accepted before its launch session expired; the
first one of a launch session consumes it. -/
def startSession (session : ℕ) (late : Bool) (s : Server) : Server :=
  if late then { s with sessions := (session, none) :: s.sessions }
  else match s.launchEvent with
  | none => s
  | some launchSession => { s with
      sessions := (session, if launchSession.id ∈ s.consumed then none else some launchSession) :: s.sessions
      consumed := launchSession.id :: s.consumed }

def checkById (id : ℕ) (checks : Checks) (s : Server) : Server :=
  match s.launching.find? fun launchSession => launchSession.id = id with
  | none => s
  | some launchSession => checkLaunch launchSession checks s

def returnById (id : ℕ) (s : Server) : Server :=
  match s.checked.find? fun checked => checked.1.id = id with
  | none => s
  | some checked => returnLaunch checked.1 checked.2 s

def step (s : Server) : Event → Server
  | .launch argsMissing running uniqueId => launch profiles argsMissing running uniqueId s
  | .check id checks => checkById id checks s
  | .ret id => returnById id s
  | .resume argsMissing running checks => resume argsMissing running checks s
  | .start session late => startSession session late s
  | .clear => { s with launchEvent := none }
  | .join session =>
    { resetProfile s with sessions := s.sessions.filter fun other => other.1 ≠ session }
  | .reload temp => { s with live := reload temp s.live }

/-! ## Profiles in effect -/

/-- A launch session that was raised, until its handler returned and the session that consumes it ended. -/
def Protected (s : Server) (launchSession : LaunchSession) : Prop :=
  (launchSession, true) ∈ s.checked ∨
    (s.launchEvent = some launchSession ∧ launchSession.id ∉ s.consumed) ∨
    ∃ session, (session, some launchSession) ∈ s.sessions

/-- With these values all protected profiles are in effect. -/
def Spares (s : Server) (config : Globals) : Prop :=
  ∀ launchSession p, Protected s launchSession → launchSession.profile = some p → Holds p config

/-- What the handlers promise. -/
structure Kept (s : Server) : Prop where
  inEffect : Spares s s.live.config
  atReturn : ∀ r ∈ s.returned, r.raised = true → ∀ p, r.session.profile = some p → Holds p r.config
  undoneOnce : ∀ r ∈ s.returned, r.raised = false → r.session.profile ≠ none →
    s.restored.count r.session.id = 1

def withoutSession (s : Server) (session : ℕ) : Server :=
  { s with sessions := s.sessions.filter fun other => other.1 ≠ session }

/-- What an event must find. No values are written that a protected profile overrides with others; a
launch is raised with its profile in effect; and a failed one has its snapshot put back at its end. -/
def Allows (s : Server) : Event → Prop
  | .launch argsMissing running uniqueId => argsMissing = true ∨ 0 < running ∨
      ∀ q, find profiles uniqueId = some q → Spares s (override q s.live.config)
  | .check id checks => ∀ launchSession ∈ s.launching, launchSession.id = id → passes s checks = true →
      ∀ p, launchSession.profile = some p → Holds p s.live.config
  | .ret id => (s.sessions = [] → Spares s (reset s.live).config) ∧
      ∀ launchSession, (launchSession, false) ∈ s.checked → launchSession.id = id →
        launchSession.profile ≠ none →
          launchSession.id ∈ s.restored ∨ s.sessions = [] ∧ s.owner = some launchSession.id
  | .join session => Spares (withoutSession s session) (reset s.live).config
  | .reload temp => Spares s (reloadLatency temp s.live.config)
  | _ => True

/-- Snapshots are put back once: they carry the numbers of the launches that took them. -/
structure Snapshots (s : Server) : Prop where
  active : s.owner.isSome = s.live.undo.isSome
  nodup : s.restored.Nodup
  fresh : ∀ id, s.owner = some id → id ∉ s.restored
  owner_le : ∀ id, s.owner = some id → id ≤ s.sessionIdCounter
  restored_le : ∀ id ∈ s.restored, id ≤ s.sessionIdCounter

theorem Spares.mono {s t : Server} {config : Globals} (h : Spares s config)
    (hsub : ∀ launchSession, Protected t launchSession → Protected s launchSession) :
    Spares t config :=
  fun launchSession p hprotected => h launchSession p (hsub launchSession hprotected)

/-! ## What a handler does -/

variable {profiles}

theorem launch_cases (s : Server) (argsMissing : Bool) (running : ℤ) (uniqueId : Text) :
    launch profiles argsMissing running uniqueId s = s ∨
      (find profiles uniqueId = none ∧ launch profiles argsMissing running uniqueId s =
        { s with
          sessionIdCounter := s.sessionIdCounter + 1
          launching := ⟨s.sessionIdCounter + 1, none⟩ :: s.launching }) ∨
      ∃ p, find profiles uniqueId = some p ∧ ¬(argsMissing = true ∨ 0 < running) ∧
        launch profiles argsMissing running uniqueId s =
          { s with
            sessionIdCounter := s.sessionIdCounter + 1
            live := ⟨override p s.live.config, some s.live.config⟩
            owner := some (s.sessionIdCounter + 1)
            launching := ⟨s.sessionIdCounter + 1, some p⟩ :: s.launching } := by
  unfold launch
  by_cases hargs : argsMissing = true ∨ 0 < running
  · exact .inl (if_pos hargs)
  rw [if_neg hargs]
  cases hfind : find profiles uniqueId with
  | none =>
    rw [apply_none s.live hfind]
    exact .inr (.inl ⟨rfl, rfl⟩)
  | some p =>
    rw [apply_some s.live hfind]
    exact .inr (.inr ⟨p, rfl, hargs, rfl⟩)

theorem checkById_cases (s : Server) (id : ℕ) (checks : Checks) :
    checkById id checks s = s ∨ ∃ launchSession ∈ s.launching, launchSession.id = id ∧
      checkById id checks s = checkLaunch launchSession checks s := by
  unfold checkById
  cases hfind : s.launching.find? fun launchSession => launchSession.id = id with
  | none => exact .inl rfl
  | some launchSession =>
    exact .inr ⟨launchSession, List.mem_of_find?_eq_some hfind, by simpa using List.find?_some hfind, rfl⟩

theorem returnById_cases (s : Server) (id : ℕ) :
    returnById id s = s ∨ ∃ checked ∈ s.checked, checked.1.id = id ∧
      returnById id s = returnLaunch checked.1 checked.2 s := by
  unfold returnById
  cases hfind : s.checked.find? fun checked => checked.1.id = id with
  | none => exact .inl rfl
  | some checked =>
    exact .inr ⟨checked, List.mem_of_find?_eq_some hfind, by simpa using List.find?_some hfind, rfl⟩

theorem checkLaunch_eq (s : Server) (launchSession : LaunchSession) (checks : Checks) :
    checkLaunch launchSession checks s =
      { s with
        launching := s.launching.erase launchSession
        checked := (launchSession, passes s checks) :: s.checked
        launchEvent := if passes s checks then s.launchEvent.or (some launchSession) else s.launchEvent } := by
  unfold checkLaunch
  simp only
  split_ifs <;> rfl

theorem resume_cases (s : Server) (argsMissing : Bool) (running : ℤ) (checks : Checks) :
    resume argsMissing running checks s = s ∨ ∃ raised : Bool, resume argsMissing running checks s =
      { s with
        sessionIdCounter := s.sessionIdCounter + 1
        launchEvent := if raised then s.launchEvent.or (some ⟨s.sessionIdCounter + 1, none⟩)
          else s.launchEvent } := by
  unfold resume
  by_cases hargs : running = 0 ∨ argsMissing = true
  · exact .inl (if_pos hargs)
  · rw [if_neg hargs]
    refine .inr ⟨passes s { checks with appid := 0 }, ?_⟩
    simp only
    split_ifs with hpasses hpasses' hpasses'
    · rfl
    · exact absurd hpasses hpasses'
    · exact absurd hpasses' hpasses
    · rfl

theorem startSession_cases (s : Server) (session : ℕ) (late : Bool) :
    startSession session late s = s ∨
      startSession session late s = { s with sessions := (session, none) :: s.sessions } ∨
      ∃ launchSession, s.launchEvent = some launchSession ∧ startSession session late s =
        { s with
          sessions := (session, if launchSession.id ∈ s.consumed then none else some launchSession) ::
            s.sessions
          consumed := launchSession.id :: s.consumed } := by
  unfold startSession
  by_cases hlate : late = true
  · exact .inr (.inl (if_pos hlate))
  · rw [if_neg hlate]
    cases s.launchEvent with
    | none => exact .inl rfl
    | some launchSession => exact .inr (.inr ⟨launchSession, rfl, rfl⟩)

/-! ## Snapshots -/

theorem resetProfile_snapshots {s : Server} (h : Snapshots s) : Snapshots (resetProfile s) := by
  have hundo : (reset s.live).undo = none := by
    unfold reset
    cases hundo : s.live.undo with
    | none => exact hundo
    | some undo => rfl
  have hlist : (resetProfile s).restored = s.owner.toList ++ s.restored := by
    unfold resetProfile
    simp only
    split_ifs with hnone
    · have hactive := h.active
      rw [hnone, Option.isSome_none, Option.isSome_eq_false_iff, Option.isNone_iff_eq_none] at hactive
      rw [hactive]
      rfl
    · rfl
  refine ⟨?_, ?_, nofun, nofun, ?_⟩
  · change (none : Option ℕ).isSome = (reset s.live).undo.isSome
    rw [hundo]
    rfl
  · rw [hlist]
    cases howner : s.owner with
    | none => exact h.nodup
    | some id => exact List.nodup_cons.mpr ⟨h.fresh id howner, h.nodup⟩
  · rw [hlist]
    intro id hid
    rcases List.mem_append.mp hid with hid | hid
    · exact h.owner_le id (Option.mem_toList.mp hid)
    · exact h.restored_le id hid

/-- What was put back stays put back. -/
theorem resetProfile_restored (s : Server) : s.restored ⊆ (resetProfile s).restored := by
  unfold resetProfile
  simp only
  split_ifs
  · exact List.Subset.refl _
  · exact List.subset_append_right _ _

theorem resetProfile_owner {s : Server} (h : Snapshots s) {id : ℕ} (howner : s.owner = some id) :
    id ∈ (resetProfile s).restored := by
  have hactive := h.active
  rw [howner] at hactive
  have hsome : s.live.undo ≠ none := by
    intro hnone
    rw [hnone] at hactive
    cases hactive
  unfold resetProfile
  simp only
  rw [if_neg hsome, howner]
  exact List.mem_cons_self

theorem launch_snapshots {s : Server} (h : Snapshots s) (argsMissing : Bool) (running : ℤ)
    (uniqueId : Text) : Snapshots (launch profiles argsMissing running uniqueId s) := by
  have hgrow : ∀ id ∈ s.restored, id ≤ s.sessionIdCounter + 1 :=
    fun id hid => Nat.le_succ_of_le (h.restored_le id hid)
  rcases @launch_cases profiles s argsMissing running uniqueId with
    heq | ⟨-, heq⟩ | ⟨p, -, -, heq⟩
  · rwa [heq]
  · rw [heq]
    exact ⟨h.active, h.nodup, h.fresh, fun id hid => Nat.le_succ_of_le (h.owner_le id hid), hgrow⟩
  · rw [heq]
    refine ⟨rfl, h.nodup, fun id hid hmem => ?_, fun id hid => ?_, hgrow⟩
    · -- the number is a new one
      obtain rfl := Option.some.inj hid
      have hle := h.restored_le _ hmem
      omega
    · obtain rfl := Option.some.inj hid
      exact Nat.le_refl _

theorem returnLaunch_snapshots {s : Server} (h : Snapshots s) (launchSession : LaunchSession)
    (raised : Bool) : Snapshots (returnLaunch launchSession raised s) := by
  unfold returnLaunch
  simp only
  split_ifs
  · have hreset := resetProfile_snapshots h
    exact ⟨hreset.active, hreset.nodup, hreset.fresh, hreset.owner_le, hreset.restored_le⟩
  · exact ⟨h.active, h.nodup, h.fresh, h.owner_le, h.restored_le⟩

theorem step_snapshots {s : Server} (h : Snapshots s) (event : Event) :
    Snapshots (step profiles s event) := by
  cases event with
  | launch argsMissing running uniqueId => exact launch_snapshots h argsMissing running uniqueId
  | check id checks =>
    rcases checkById_cases s id checks with heq | ⟨launchSession, -, -, heq⟩
    · rwa [step, heq]
    · rw [step, heq, checkLaunch_eq]
      exact ⟨h.active, h.nodup, h.fresh, h.owner_le, h.restored_le⟩
  | ret id =>
    rcases returnById_cases s id with heq | ⟨checked, -, -, heq⟩
    · rwa [step, heq]
    · rw [step, heq]
      exact returnLaunch_snapshots h checked.1 checked.2
  | resume argsMissing running checks =>
    rcases resume_cases s argsMissing running checks with heq | ⟨raised, heq⟩
    · rwa [step, heq]
    · rw [step, heq]
      exact ⟨h.active, h.nodup, h.fresh, fun id hid => Nat.le_succ_of_le (h.owner_le id hid),
        fun id hid => Nat.le_succ_of_le (h.restored_le id hid)⟩
  | start session late =>
    rcases startSession_cases s session late with heq | heq | ⟨launchSession, -, heq⟩
    · rwa [step, heq]
    · rw [step, heq]
      exact ⟨h.active, h.nodup, h.fresh, h.owner_le, h.restored_le⟩
    · rw [step, heq]
      exact ⟨h.active, h.nodup, h.fresh, h.owner_le, h.restored_le⟩
  | clear => exact ⟨h.active, h.nodup, h.fresh, h.owner_le, h.restored_le⟩
  | join session =>
    have hreset := resetProfile_snapshots h
    exact ⟨hreset.active, hreset.nodup, hreset.fresh, hreset.owner_le, hreset.restored_le⟩
  | reload temp => exact ⟨h.active, h.nodup, h.fresh, h.owner_le, h.restored_le⟩

/-! ## Events -/

/-- The launches that returned without raising a session have their snapshots put back. -/
def Undone (s : Server) : Prop :=
  ∀ r ∈ s.returned, r.raised = false → r.session.profile ≠ none → r.session.id ∈ s.restored

def AtReturn (s : Server) : Prop :=
  ∀ r ∈ s.returned, r.raised = true → ∀ p, r.session.profile = some p → Holds p r.config

theorem kept_of_undone {s : Server} (h : Snapshots s) (heffect : Spares s s.live.config)
    (hreturn : AtReturn s) (hundone : Undone s) : Kept s :=
  ⟨heffect, hreturn, fun r hr hraised hprofile =>
    h.nodup.count.trans (if_pos (hundone r hr hraised hprofile))⟩

theorem Kept.undone {s : Server} (h : Kept s) : Undone s := by
  intro r hr hraised hprofile
  refine List.count_pos_iff.mp ?_
  rw [h.undoneOnce r hr hraised hprofile]
  exact Nat.one_pos

/-- A raise protects the session that is raised, and no other one. -/
theorem spares_raise {s t : Server} {launchSession : LaunchSession} {config : Globals}
    (h : Spares s config) (hown : ∀ p, launchSession.profile = some p → Holds p config)
    (hevent : t.launchEvent = s.launchEvent.or (some launchSession))
    (hchecked : ∀ other, (other, true) ∈ t.checked → other = launchSession ∨ (other, true) ∈ s.checked)
    (hconsumed : t.consumed = s.consumed) (hsessions : t.sessions = s.sessions) : Spares t config := by
  rintro other p (hother | ⟨hpending, hnew⟩ | hsession) hp
  · rcases hchecked other hother with rfl | hmem
    · exact hown p hp
    · exact h other p (.inl hmem) hp
  · rw [hevent] at hpending
    rw [hconsumed] at hnew
    cases hlaunch : s.launchEvent with
    | none =>
      rw [hlaunch] at hpending
      obtain rfl := Option.some.inj hpending
      exact hown p hp
    | some pending =>
      rw [hlaunch] at hpending
      exact h other p (.inr (.inl ⟨hlaunch.trans hpending, hnew⟩)) hp
  · rw [hsessions] at hsession
    exact h other p (.inr (.inr hsession)) hp

theorem kept_launch {s : Server} (h : Kept s) (argsMissing : Bool) (running : ℤ) (uniqueId : Text)
    (hallows : Allows profiles s (.launch argsMissing running uniqueId)) :
    Kept (launch profiles argsMissing running uniqueId s) := by
  rcases @launch_cases profiles s argsMissing running uniqueId with
    heq | ⟨-, heq⟩ | ⟨q, hfind, hargs, heq⟩
  · rwa [heq]
  · rw [heq]
    exact ⟨h.inEffect, h.atReturn, h.undoneOnce⟩
  · rw [heq]
    refine ⟨?_, h.atReturn, h.undoneOnce⟩
    rcases hallows with hmissing | hrunning | hfits
    · exact absurd (.inl hmissing) hargs
    · exact absurd (.inr hrunning) hargs
    · exact hfits q hfind

theorem kept_check {s : Server} (h : Kept s) (launchSession : LaunchSession) (checks : Checks)
    (hown : passes s checks = true → ∀ p, launchSession.profile = some p → Holds p s.live.config) :
    Kept (checkLaunch launchSession checks s) := by
  rw [checkLaunch_eq]
  refine ⟨?_, h.atReturn, h.undoneOnce⟩
  by_cases hraised : passes s checks = true
  · refine spares_raise h.inEffect (hown hraised) (if_pos hraised) (fun other hother => ?_) rfl rfl
    rcases List.mem_cons.mp hother with heq | hmem
    · exact .inl (Prod.mk.inj heq).1
    · exact .inr hmem
  · refine h.inEffect.mono ?_
    rintro other (hother | ⟨hpending, hnew⟩ | hsession)
    · rcases List.mem_cons.mp hother with heq | hmem
      · exact absurd (Prod.mk.inj heq).2.symm hraised
      · exact .inl hmem
    · exact .inr (.inl ⟨(if_neg hraised).symm.trans hpending, hnew⟩)
    · exact .inr (.inr hsession)

/-- What the guard leaves of the values and of the undo record. -/
def afterGuard (s : Server) : Server := if s.sessions = [] then resetProfile s else s

theorem returnLaunch_eq (s : Server) (launchSession : LaunchSession) (raised : Bool) :
    returnLaunch launchSession raised s =
      { s with
        live := (afterGuard s).live
        owner := (afterGuard s).owner
        restored := (afterGuard s).restored
        checked := s.checked.erase (launchSession, raised)
        returned := ⟨launchSession, raised, (afterGuard s).live.config⟩ :: s.returned } := by
  unfold returnLaunch afterGuard
  simp only
  split_ifs <;> rfl

theorem afterGuard_restored (s : Server) : s.restored ⊆ (afterGuard s).restored := by
  unfold afterGuard
  split_ifs
  · exact resetProfile_restored s
  · exact List.Subset.refl _

theorem kept_return {s : Server} (hsnap : Snapshots s) (h : Kept s) (launchSession : LaunchSession)
    (raised : Bool) (hmem : (launchSession, raised) ∈ s.checked)
    (hallows : Allows profiles s (.ret launchSession.id)) :
    Kept (returnLaunch launchSession raised s) := by
  have hafter := returnLaunch_snapshots hsnap launchSession raised
  obtain ⟨hreset, hfailed⟩ := hallows
  have hspares : Spares s (afterGuard s).live.config := by
    unfold afterGuard
    split_ifs with hsessions
    · exact hreset hsessions
    · exact h.inEffect
  rw [returnLaunch_eq] at hafter ⊢
  refine kept_of_undone hafter ?_ ?_ ?_
  · refine hspares.mono ?_
    rintro other (hother | hrest)
    · exact .inl (List.mem_of_mem_erase hother)
    · exact .inr hrest
  · refine List.forall_mem_cons.mpr ⟨fun hraised p hp => ?_, h.atReturn⟩
    obtain rfl : raised = true := hraised
    exact hspares launchSession p (.inl hmem) hp
  · refine List.forall_mem_cons.mpr ⟨fun hraised hprofile => ?_, fun r hr hraised hprofile => ?_⟩
    · obtain rfl : raised = false := hraised
      rcases hfailed launchSession hmem rfl hprofile with hdone | ⟨hsessions, howner⟩
      · exact afterGuard_restored s hdone
      · have hback := resetProfile_owner hsnap howner
        change launchSession.id ∈ (afterGuard s).restored
        unfold afterGuard
        rwa [if_pos hsessions]
    · exact afterGuard_restored s (h.undone r hr hraised hprofile)

theorem kept_start {s : Server} (h : Kept s) (session : ℕ) (late : Bool) :
    Kept (startSession session late s) := by
  rcases startSession_cases s session late with heq | heq | ⟨launchSession, hlaunch, heq⟩
  · rwa [heq]
  · rw [heq]
    refine ⟨h.inEffect.mono ?_, h.atReturn, h.undoneOnce⟩
    rintro other (hother | hpending | ⟨session', hsession⟩)
    · exact .inl hother
    · exact .inr (.inl hpending)
    · rcases List.mem_cons.mp hsession with hnew | hold
      · cases hnew
      · exact .inr (.inr ⟨session', hold⟩)
  · rw [heq]
    refine ⟨h.inEffect.mono ?_, h.atReturn, h.undoneOnce⟩
    rintro other (hother | ⟨hpending, hnew⟩ | ⟨session', hsession⟩)
    · exact .inl hother
    · exact .inr (.inl ⟨hpending, fun hmem => hnew (List.mem_cons_of_mem _ hmem)⟩)
    · rcases List.mem_cons.mp hsession with hnew | hold
      · have hsome := (Prod.mk.inj hnew).2
        split_ifs at hsome with hconsumed
        -- the first session of the launch session takes over its protection
        obtain rfl := Option.some.inj hsome
        exact .inr (.inl ⟨hlaunch, hconsumed⟩)
      · exact .inr (.inr ⟨session', hold⟩)

theorem step_kept {s : Server} (hsnap : Snapshots s) (h : Kept s) (event : Event)
    (hallows : Allows profiles s event) : Kept (step profiles s event) := by
  cases event with
  | launch argsMissing running uniqueId => exact kept_launch h argsMissing running uniqueId hallows
  | check id checks =>
    rcases checkById_cases s id checks with heq | ⟨launchSession, hmem, hid, heq⟩
    · rwa [step, heq]
    · rw [step, heq]
      exact kept_check h launchSession checks (hallows launchSession hmem hid)
  | ret id =>
    rcases returnById_cases s id with heq | ⟨⟨launchSession, raised⟩, hmem, rfl, heq⟩
    · rwa [step, heq]
    · rw [step, heq]
      exact kept_return hsnap h launchSession raised hmem hallows
  | resume argsMissing running checks =>
    rcases resume_cases s argsMissing running checks with heq | ⟨raised, heq⟩
    · rwa [step, heq]
    · rw [step, heq]
      refine ⟨?_, h.atReturn, h.undoneOnce⟩
      cases raised with
      | false => exact h.inEffect
      | true =>
        -- a resumed session has no profile of its own
        refine spares_raise h.inEffect (fun p hp => ?_) rfl (fun other hother => .inr hother) rfl rfl
        cases hp
  | start session late => exact kept_start h session late
  | clear =>
    refine ⟨h.inEffect.mono ?_, h.atReturn, h.undoneOnce⟩
    rintro other (hother | ⟨hpending, -⟩ | hsession)
    · exact .inl hother
    · cases hpending
    · exact .inr (.inr hsession)
  | join session =>
    have hafter := @step_snapshots profiles s hsnap (.join session)
    exact kept_of_undone hafter hallows h.atReturn fun r hr hraised hprofile =>
      resetProfile_restored s (h.undone r hr hraised hprofile)
  | reload temp => exact ⟨hallows, h.atReturn, h.undoneOnce⟩

/-- A server that has just started. -/
def initial (config : Globals) : Server := ⟨⟨config, none⟩, 0, none, [], [], [], [], none, [], []⟩

end Handlers

/-- Checks that all pass. -/
def passing : Checks := ⟨false, false, 1, 0⟩

theorem spares_of_lists (s : Server) (config : Globals)
    (hchecked : ∀ c ∈ s.checked, ∀ p ∈ c.1.profile, Holds p config)
    (hlaunch : ∀ l ∈ s.launchEvent, ∀ p ∈ l.profile, Holds p config)
    (hsessions : ∀ other ∈ s.sessions, ∀ l ∈ other.2, ∀ p ∈ l.profile, Holds p config) :
    Spares s config := by
  rintro launchSession p (hother | ⟨hpending, -⟩ | ⟨session, hsession⟩) hp
  · exact hchecked _ hother p hp
  · exact hlaunch launchSession hpending p hp
  · exact hsessions _ hsession launchSession rfl p hp

/-- A second client's launch beside a live session. -/
def besideSession : List Event :=
  [.resume false 1 passing, .start 7 false, .clear, .launch false 0 "tv".toList, .check 2 passing, .ret 2,
    .start 8 false, .reload safe]

end Sunshine.Profiles
