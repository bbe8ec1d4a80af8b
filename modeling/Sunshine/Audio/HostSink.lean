import Sunshine.Lib.Transitions
import Sunshine.Lib.Texts
import Sunshine.Lib.Entries
import Mathlib.Logic.Function.Basic

/-! The default sink of the host over the audio sessions: who switches it, and whether the last session gives it back.

`host_sink_given_back` says in which runs every role is again what it was when the audio context was created. -/
namespace Sunshine.HostSink
open Transitions
set_option autoImplicit false

abbrev Text := List Char

/-! ## The platforms -/

/-- The sinks of the host. `find` is what a name leads to: the sink with that id, or that is named so, or that a name of
a virtual sink holds. -/
structure Sinks (Sink : Type) where
  id : Sink → Text
  find : Text → Option Sink
  id_ne : ∀ sink, id sink ≠ []
  find_id : ∀ sink, find (id sink) = some sink

inductive ERole where
  | eConsole
  | eMultimedia
  | eCommunications
  deriving DecidableEq

inductive Platform where
  | windows
  | linux
  deriving DecidableEq

/-- PulseAudio has one default sink. -/
def Platform.has : Platform → ERole → Prop
  | .windows, _ => True
  | .linux, role => role = .eConsole

section Model
variable {Sink : Type} (sinks : Sinks Sink) (platform : Platform)

/-- The default of each role, and the name that the control remembers: `assigned_sink` or `requested_sink`. -/
structure Audio (Sink : Type) where
  roles : ERole → Sink
  assigned : Text

/-- What the calls of one `set_sink` come to: `set_format`, or the operation on Linux, and each role. -/
structure Answer where
  prepared : Bool
  failed : ERole → Bool

def failures (answer : Answer) : ℕ :=
  (if answer.failed .eConsole then 1 else 0) + (if answer.failed .eMultimedia then 1 else 0) +
    if answer.failed .eCommunications then 1 else 0

/-- The loop over the roles. -/
def setRoles (device : Sink) (answer : Answer) (roles : ERole → Sink) (role : ERole) : Sink :=
  if answer.failed role then roles role else device

def setSink (sink : Text) (answer : Answer) (audio : Audio Sink) : ℤ × Audio Sink :=
  match platform with
  | .windows =>
    if sink = [] ∨ answer.prepared = false then (-1, audio)
    else
      match sinks.find sink with
      | none => (-1, audio)
      | some device => (failures answer, {
          roles := setRoles device answer audio.roles
          assigned := if failures answer = 0 then sink else audio.assigned })
  | .linux =>
    if sink = [] then (0, audio)
    else if sink = audio.assigned then (0, audio)
    else if answer.prepared = false ∨ answer.failed .eConsole then (-1, audio)
    else
      match sinks.find sink with
      | none => (-1, audio)
      | some device => (0, { roles := Function.update audio.roles .eConsole device, assigned := sink })

/-- `extract_virtual_sink_info` finds one of the formats. -/
def isVirtual (sink : Text) : Bool :=
  ["Stereo".toList, "Surround 5.1".toList, "Surround 7.1".toList].any fun name =>
    ("virtual-".toList ++ name).isPrefixOf sink

/-! ## The context and its sessions -/

structure Null where
  stereo : Text
  surround51 : Text
  surround71 : Text

structure Config where
  sink : Text

/-- `audio_ctx_t`. -/
structure Context where
  control : Bool
  host : Text
  null : Option Null
  sinkFlag : Bool
  restoreSink : Bool

/-- The channel count and the flag of a session. -/
structure Request where
  channelCount : ℕ
  hostAudio : Bool

def virtualSink (null : Null) (channelCount : ℕ) : Text :=
  if channelCount = 2 then null.stereo
  else if channelCount = 6 then null.surround51
  else if channelCount = 8 then null.surround71
  else null.stereo

/-- The sink that `capture` selects. -/
def select (config : Config) (context : Context) (request : Request) : Text :=
  let sink := if config.sink ≠ [] then config.sink else context.host
  let sink :=
    match context.null with
    | some null =>
      if (¬request.hostAudio ∨ sink = []) ∧ virtualSink null request.channelCount ≠ [] then
        virtualSink null request.channelCount
      else sink
    | none => sink
  if sink = [] ∧ context.host ≠ [] then context.host else sink

inductive Phase where
  | entered
  /-- Behind the exchange, about to call `set_sink`. -/
  | claimed (sink : Text)
  | running

structure State (Sink : Type) where
  audio : Audio Sink
  context : Option Context
  holders : List (ℕ × Phase)
  /-- The roles when the context was created. -/
  origin : ERole → Sink
  /-- The session that found the flag unset. -/
  first : Option ℕ
  /-- The sessions that called `set_sink` to switch. -/
  switchers : List ℕ

/-- A reference to the context, with what its creation would find; the exchange of the flag; the switch; the callback of a
microphone when the default has changed; the release. -/
inductive Event where
  | enter (session : ℕ) (control sinkInfo : Bool) (null : Option Null)
  | claim (session : ℕ) (request : Request)
  | switch (session : ℕ) (answer : Answer)
  | reset (session : ℕ) (answer : Answer)
  | leave (session : ℕ) (answer : Answer)

def setPhase (holders : List (ℕ × Phase)) (session : ℕ) (phase : Phase) : List (ℕ × Phase) :=
  holders.map fun holder => if holder.1 = session then (session, phase) else holder

def without (holders : List (ℕ × Phase)) (session : ℕ) : List (ℕ × Phase) :=
  holders.filter fun holder => holder.1 ≠ session

/-- The sink that `stop_audio_control` goes back to. -/
def goBack (config : Config) (context : Context) : Text := if context.host = [] then config.sink else context.host

variable (config : Config)

/-- `start_audio_control`. -/
def startAudioControl (s : State Sink) (control sinkInfo : Bool) (null : Option Null) : State Sink :=
  { s with
    audio := { s.audio with assigned := [] }
    context := some {
      control := control
      host := if control ∧ sinkInfo then sinks.id (s.audio.roles .eConsole) else []
      null := if control ∧ sinkInfo then null else none
      sinkFlag := false
      restoreSink := false }
    origin := s.audio.roles
    first := none
    switchers := [] }

/-- `stop_audio_control`. -/
def stopAudioControl (context : Context) (answer : Answer) (audio : Audio Sink) : Audio Sink :=
  if ¬context.restoreSink ∨ ¬context.control ∨ goBack config context = [] then audio
  else (setSink sinks platform (goBack config context) answer audio).2

def enter (s : State Sink) (session : ℕ) : State Sink := { s with holders := (session, .entered) :: s.holders }

/-- Only the first session to exchange the flag goes on to a switch, and that only to another sink. -/
def claim (s : State Sink) (context : Context) (session : ℕ) (request : Request) : State Sink :=
  if context.sinkFlag then { s with holders := setPhase s.holders session .running }
  else
    let sink := select config context request
    let needSwitch : Bool := sink ≠ [] ∧ context.host ≠ sink
    { s with
      context := some { context with sinkFlag := true, restoreSink := needSwitch }
      holders := setPhase s.holders session (if needSwitch then .claimed sink else .running)
      first := some session }

def switch (s : State Sink) (context : Context) (sink : Text) (session : ℕ) (answer : Answer) : State Sink :=
  let (status, audio) := setSink sinks platform sink answer s.audio
  { s with
    audio := audio
    context := some { context with restoreSink := status = 0 }
    holders := setPhase s.holders session .running
    switchers := s.switchers ++ [session] }

def leave (s : State Sink) (context : Context) (session : ℕ) (answer : Answer) : State Sink :=
  if without s.holders session = [] then
    { s with
      audio := stopAudioControl sinks platform config context answer s.audio
      context := none
      holders := [] }
  else { s with holders := without s.holders session }

def next (s : State Sink) : Event → State Sink
  | .enter session control sinkInfo null =>
    enter (if s.context.isNone then startAudioControl sinks s control sinkInfo null else s) session
  | .claim session request => s.context.elim s fun context => claim config s context session request
  | .switch session answer =>
    match s.context, s.holders.lookup session with
    | some context, some (.claimed sink) => switch sinks platform s context sink session answer
    | _, _ => s
  | .reset _ answer => { s with audio := (setSink sinks platform s.audio.assigned answer s.audio).2 }
  | .leave session answer => s.context.elim s fun context => leave sinks platform config s context session answer

/-- Neither `set_format` nor a role fails. -/
def Answer.good (answer : Answer) : Prop := answer.prepared = true ∧ ∀ role, answer.failed role = false

/-- What threads can do, where the call that goes back succeeds. -/
def enabled (s : State Sink) : Event → Prop
  | .enter session _ _ _ => session ∉ s.holders.map Prod.fst
  | .claim session _ => (session, .entered) ∈ s.holders ∧ ∃ context ∈ s.context, context.control
  | .switch session _ => ∃ sink, (session, .claimed sink) ∈ s.holders
  | .reset session _ => (session, .running) ∈ s.holders ∧ platform = .windows ∧ isVirtual s.audio.assigned
  | .leave session answer => (∃ phase, (session, phase) ∈ s.holders ∧ ∀ sink, phase ≠ .claimed sink) ∧
      (without s.holders session = [] → answer.good)

/-- A switch that sets all roles is made from where `stop_audio_control` goes back to; one that sets only some of them
sets none to another sink. -/
def Clean (s : State Sink) : Event → Prop
  | .switch session answer => ∀ context ∈ s.context, ∀ sink, (session, .claimed sink) ∈ s.holders →
      ∀ device, sinks.find sink = some device → answer.prepared = true →
        ((∀ role, platform.has role → answer.failed role = false) →
            ∀ role, platform.has role → sinks.find (goBack config context) = some (s.audio.roles role)) ∧
          ∀ lost, platform.has lost → answer.failed lost = true →
            ∀ role, platform.has role → answer.failed role = false → s.audio.roles role = device
  | _ => True

def start (roles : ERole → Sink) : State Sink where
  audio := { roles := roles, assigned := [] }
  context := none
  holders := []
  origin := roles
  first := none
  switchers := []

/-- Without a context every role is what it was when the last one was created, and only the first session of a context
has switched the sink. -/
structure GivenBack (s : State Sink) : Prop where
  released : s.context = none → ∀ role, platform.has role → s.audio.roles role = s.origin role
  firstOnly : ∀ session ∈ s.switchers, s.first = some session

end Model

/-! ## One call of `set_sink` -/

section Calls
variable {Sink : Type} {sinks : Sinks Sink} {platform : Platform} {sink : Text} {answer : Answer} {audio : Audio Sink}

/-- Either all roles are set, or the name is not remembered and a role stays that failed. -/
theorem setSink_cases (hsink : sink ≠ []) (hnew : platform = .linux → sink ≠ audio.assigned) :
    ((setSink sinks platform sink answer audio).1 = 0 ∧ answer.prepared = true ∧
      (∀ role, platform.has role → answer.failed role = false) ∧
      (setSink sinks platform sink answer audio).2.assigned = sink ∧
      ∃ device, sinks.find sink = some device ∧
        ∀ role, platform.has role → (setSink sinks platform sink answer audio).2.roles role = device) ∨
    ((setSink sinks platform sink answer audio).1 ≠ 0 ∧
      (setSink sinks platform sink answer audio).2.assigned = audio.assigned ∧
      (answer.prepared = true → sinks.find sink ≠ none → ∃ lost, platform.has lost ∧ answer.failed lost = true) ∧
      ∀ role, platform.has role →
        (setSink sinks platform sink answer audio).2.roles role = audio.roles role ∨
        answer.prepared = true ∧ answer.failed role = false ∧
          sinks.find sink = some ((setSink sinks platform sink answer audio).2.roles role)) := by
  have hminus : (-1 : ℤ) ≠ 0 := by decide
  unfold setSink
  cases platform with
  | windows =>
    dsimp only
    by_cases hprepared : answer.prepared = false
    · rw [if_pos (.inr hprepared)]
      exact .inr ⟨hminus, rfl, fun h => absurd h (by simp [hprepared]), fun _ _ => .inl rfl⟩
    rw [if_neg (not_or.mpr ⟨hsink, hprepared⟩)]
    cases hfind : sinks.find sink with
    | none => exact .inr ⟨hminus, rfl, fun _ h => absurd rfl h, fun _ _ => .inl rfl⟩
    | some device =>
      dsimp only
      by_cases hfailed : ∀ role, answer.failed role = false
      · have hzero : failures answer = 0 := by
          unfold failures
          rw [hfailed, hfailed, hfailed]
          rfl
        refine .inl ⟨by rw [hzero]; rfl, Bool.not_eq_false _ ▸ hprepared, fun role _ => hfailed role,
          if_pos hzero, device, rfl, fun role _ => ?_⟩
        unfold setRoles
        rw [hfailed]
        rfl
      · obtain ⟨lost, hlost⟩ := not_forall.mp hfailed
        have hlost' : answer.failed lost = true := Bool.not_eq_false _ ▸ hlost
        have hsome : failures answer ≠ 0 := by
          unfold failures
          cases lost <;> simp [hlost']
        refine .inr ⟨by omega, if_neg hsome, fun _ _ => ⟨lost, trivial, hlost'⟩, fun role _ => ?_⟩
        unfold setRoles
        cases hrole : answer.failed role with
        | true => exact .inl rfl
        | false => exact .inr ⟨Bool.not_eq_false _ ▸ hprepared, rfl, rfl⟩
  | linux =>
    dsimp only
    rw [if_neg hsink, if_neg (hnew rfl)]
    by_cases hfails : answer.prepared = false ∨ answer.failed .eConsole = true
    · rw [if_pos hfails]
      refine .inr ⟨hminus, rfl, fun hprepared _ => ⟨.eConsole, rfl, ?_⟩, fun _ _ => .inl rfl⟩
      exact hfails.resolve_left (by simp [hprepared])
    rw [if_neg hfails]
    obtain ⟨hprepared, hconsole⟩ := not_or.mp hfails
    cases hfind : sinks.find sink with
    | none => exact .inr ⟨hminus, rfl, fun _ h => absurd rfl h, fun _ _ => .inl rfl⟩
    | some device =>
      refine .inl ⟨rfl, Bool.not_eq_false _ ▸ hprepared, ?_, rfl, device, rfl, ?_⟩
      · intro role hrole
        obtain rfl : role = .eConsole := hrole
        exact Bool.not_eq_true _ ▸ hconsole
      · intro role hrole
        obtain rfl : role = .eConsole := hrole
        exact Function.update_self ERole.eConsole device audio.roles

/-- A call that succeeds sets all roles, or leaves them on the sink that is remembered. -/
theorem setSink_good (hsink : sink ≠ []) (hgood : answer.good) {device : Sink} (hfind : sinks.find sink = some device)
    (hthere : sink = audio.assigned → ∀ role, platform.has role → audio.roles role = device) (role : ERole)
    (hrole : platform.has role) : (setSink sinks platform sink answer audio).2.roles role = device := by
  by_cases hskip : platform = .linux ∧ sink = audio.assigned
  · obtain ⟨rfl, hassigned⟩ := hskip
    unfold setSink
    dsimp only
    rw [if_neg hsink, if_pos hassigned]
    exact hthere hassigned role hrole
  · have hcases := @setSink_cases _ sinks platform sink answer audio hsink fun hlinux heq => hskip ⟨hlinux, heq⟩
    obtain ⟨-, -, -, -, device', hfind', hroles⟩ | ⟨-, -, hlost, -⟩ := hcases
    · rw [hroles role hrole]
      exact Option.some.inj (hfind'.symm.trans hfind)
    · obtain ⟨lost, -, hlost⟩ := hlost hgood.1 (by rw [hfind]; exact Option.some_ne_none device)
      exact absurd hlost (by simp [hgood.2 lost])

end Calls

section Invariant
variable {Sink : Type} {sinks : Sinks Sink} {platform : Platform} {config : Config}

/-! ## What a name selects -/

theorem select_nil {context : Context} (hhost : context.host = []) (hnull : context.null = none) (request : Request) :
    select config context request = config.sink := by
  unfold select
  rw [hhost, hnull]
  dsimp only
  rw [if_neg fun h => h.2 rfl]
  split_ifs with hsink
  · rfl
  · exact (not_not.mp hsink).symm

/-! ## Holders -/

theorem holders_setPhase (holders : List (ℕ × Phase)) (session : ℕ) (phase : Phase) :
    (setPhase holders session phase).map Prod.fst = holders.map Prod.fst := by
  unfold setPhase
  rw [List.map_map]
  refine List.map_congr_left fun holder _ => ?_
  rw [Function.comp_apply]
  split_ifs with h
  · exact h.symm
  · rfl

theorem mem_setPhase {holders : List (ℕ × Phase)} {session other : ℕ} {phase phase' : Phase}
    (h : (other, phase') ∈ setPhase holders session phase) :
    (other, phase') ∈ holders ∧ other ≠ session ∨ other = session ∧ phase' = phase := by
  obtain ⟨holder, hmem, heq⟩ := List.mem_map.mp h
  split_ifs at heq with hsession
  · obtain ⟨rfl, rfl⟩ := Prod.mk.inj heq
    exact .inr ⟨rfl, rfl⟩
  · subst heq
    exact .inl ⟨hmem, hsession⟩

theorem holders_without (holders : List (ℕ × Phase)) (session : ℕ) :
    ((without holders session).map Prod.fst).Sublist (holders.map Prod.fst) := List.filter_sublist.map Prod.fst

/-! ## The stages of a context -/

def NoneClaimed (s : State Sink) : Prop := ∀ session sink, (session, Phase.claimed sink) ∉ s.holders

/-- No role has another sink. -/
structure Unswitched (platform : Platform) (s : State Sink) (context : Context) : Prop where
  quiet : NoneClaimed s
  keep : context.restoreSink = false
  fresh : s.audio.assigned = []
  same : ∀ role, platform.has role → s.audio.roles role = s.origin role

/-- The sink that a session goes over to. -/
structure Aim (config : Config) (context : Context) (sink : Text) : Prop where
  flag : context.sinkFlag = true
  control : context.control = true
  some : sink ≠ []
  other : context.host ≠ sink
  fallback : context.host = [] → sink = config.sink

/-- The first session is about to switch. -/
structure Pending (platform : Platform) (config : Config) (s : State Sink) (context : Context) : Prop where
  claimed : ∃ session sink, s.first = some session ∧ Aim config context sink ∧
    (session, Phase.claimed sink) ∈ s.holders ∧
    ∀ session' sink', (session', Phase.claimed sink') ∈ s.holders → session' = session
  fresh : s.audio.assigned = []
  same : ∀ role, platform.has role → s.audio.roles role = s.origin role

/-- All roles have another sink, and the way back leads to where they were. -/
structure Switched (sinks : Sinks Sink) (platform : Platform) (config : Config) (s : State Sink) (context : Context) :
    Prop where
  quiet : NoneClaimed s
  restore : context.restoreSink = true
  aim : Aim config context s.audio.assigned
  there : ∃ device, sinks.find s.audio.assigned = some device ∧ ∀ role, platform.has role → s.audio.roles role = device
  back : ∀ role, platform.has role → sinks.find (goBack config context) = some (s.origin role)

structure Live (sinks : Sinks Sink) (platform : Platform) (config : Config) (s : State Sink) (context : Context) :
    Prop where
  null : context.host = [] → context.null = none
  unclaimed : context.sinkFlag = false → s.switchers = []
  stage : Unswitched platform s context ∨ Pending platform config s context ∨ Switched sinks platform config s context

structure Inv (sinks : Sinks Sink) (platform : Platform) (config : Config) (s : State Sink) : Prop where
  nodup : (s.holders.map Prod.fst).Nodup
  empty : s.context = none → s.holders = []
  live : ∀ context ∈ s.context, Live sinks platform config s context
  given : GivenBack platform s

variable {s s' : State Sink} {context : Context}

/-- A stage does not depend on the sessions that are not about to switch. -/
theorem Live.congr (h : Live sinks platform config s context) (haudio : s'.audio = s.audio)
    (horigin : s'.origin = s.origin) (hfirst : s'.first = s.first) (hswitchers : s'.switchers = s.switchers)
    (hholders : ∀ session sink, (session, Phase.claimed sink) ∈ s'.holders ↔ (session, Phase.claimed sink) ∈ s.holders) :
    Live sinks platform config s' context := by
  have hquiet : NoneClaimed s → NoneClaimed s' := fun hq session sink hmem => hq session sink ((hholders _ _).mp hmem)
  refine ⟨h.null, fun hflag => hswitchers.trans (h.unclaimed hflag), ?_⟩
  obtain hstage | hstage | hstage := h.stage
  · refine .inl ⟨hquiet hstage.quiet, hstage.keep, ?_, ?_⟩
    · rw [haudio]
      exact hstage.fresh
    · rw [haudio, horigin]
      exact hstage.same
  · obtain ⟨session, sink, hfirst', haim, hmem, hunique⟩ := hstage.claimed
    refine .inr (.inl ⟨⟨session, sink, hfirst.trans hfirst', haim, (hholders _ _).mpr hmem, ?_⟩, ?_, ?_⟩)
    · exact fun session' sink' hmem' => hunique session' sink' ((hholders _ _).mp hmem')
    · rw [haudio]
      exact hstage.fresh
    · rw [haudio, horigin]
      exact hstage.same
  · refine .inr (.inr ⟨hquiet hstage.quiet, hstage.restore, ?_, ?_, ?_⟩)
    · rw [haudio]
      exact hstage.aim
    · rw [haudio]
      exact hstage.there
    · rw [horigin]
      exact hstage.back

theorem phase_unique {holders : List (ℕ × Phase)} (hnodup : (holders.map Prod.fst).Nodup) {session : ℕ}
    {phase phase' : Phase} (h : (session, phase) ∈ holders) (h' : (session, phase') ∈ holders) : phase = phase' :=
  (Prod.mk.inj (List.inj_on_of_nodup_map hnodup h h' rfl)).2

theorem mem_setPhase_of_ne {holders : List (ℕ × Phase)} {session other : ℕ} {phase phase' : Phase}
    (h : (other, phase') ∈ holders) (hne : other ≠ session) : (other, phase') ∈ setPhase holders session phase :=
  List.mem_map.mpr ⟨(other, phase'), h, if_neg hne⟩

/-- A session that is not about to switch and is not told to leaves the others' claims as they are. -/
theorem claims_setPhase {holders : List (ℕ × Phase)} (hnodup : (holders.map Prod.fst).Nodup) {session : ℕ}
    {phase phase' : Phase} (h : (session, phase) ∈ holders) (hphase : ∀ sink, phase ≠ .claimed sink)
    (hphase' : ∀ sink, phase' ≠ .claimed sink) (other : ℕ) (sink : Text) :
    (other, Phase.claimed sink) ∈ setPhase holders session phase' ↔ (other, Phase.claimed sink) ∈ holders := by
  constructor
  · intro hmem
    obtain ⟨hmem, -⟩ | ⟨-, heq⟩ := mem_setPhase hmem
    · exact hmem
    · exact absurd heq.symm (hphase' sink)
  · intro hmem
    refine mem_setPhase_of_ne hmem fun heq => ?_
    subst heq
    exact hphase sink (phase_unique hnodup h hmem)

theorem inv_enter (h : Inv sinks platform config s) {session : ℕ} (henabled : session ∉ s.holders.map Prod.fst)
    (control sinkInfo : Bool) (null : Option Null) :
    Inv sinks platform config (next sinks platform config s (.enter session control sinkInfo null)) := by
  cases hcontext : s.context with
  | none =>
    have hnext : next sinks platform config s (.enter session control sinkInfo null) =
        enter (startAudioControl sinks s control sinkInfo null) session := by
      unfold next
      rw [hcontext]
      rfl
    have hempty := h.empty hcontext
    rw [hnext]
    refine ⟨?_, fun hnone => absurd hnone (Option.some_ne_none _), fun context hmem => ?_,
      ⟨fun hnone => absurd hnone (Option.some_ne_none _), fun _ hmem => (by cases hmem)⟩⟩
    · exact List.nodup_cons.mpr ⟨henabled, h.nodup⟩
    · obtain rfl := Option.some.inj hmem
      refine ⟨fun hhost => ?_, fun _ => rfl, .inl ⟨fun other sink hmem => ?_, rfl, rfl, fun _ _ => rfl⟩⟩
      · by_cases hinfo : control = true ∧ sinkInfo = true
        · exact absurd ((if_pos hinfo).symm.trans hhost) (sinks.id_ne _)
        · exact if_neg hinfo
      · cases List.mem_cons.mp hmem with
        | inl heq => exact Phase.noConfusion (Prod.mk.inj heq).2
        | inr hmem => exact absurd hmem (by simp [startAudioControl, hempty])
  | some context =>
    have hnext : next sinks platform config s (.enter session control sinkInfo null) = enter s session := by
      unfold next
      rw [hcontext]
      rfl
    rw [hnext]
    refine ⟨List.nodup_cons.mpr ⟨henabled, h.nodup⟩, fun hnone => ?_, fun context hmem => ?_,
      ⟨h.given.released, h.given.firstOnly⟩⟩
    · exact absurd (hcontext.symm.trans hnone) (by simp)
    · refine (h.live context hmem).congr rfl rfl rfl rfl fun other sink => ⟨fun hmem => ?_, List.mem_cons_of_mem _⟩
      refine (List.mem_cons.mp hmem).resolve_left fun heq => ?_
      exact Phase.noConfusion (Prod.mk.inj heq).2

theorem inv_claim (h : Inv sinks platform config s) {session : ℕ} (hentered : (session, .entered) ∈ s.holders)
    (hcontext : s.context = some context) (hcontrol : context.control = true) (request : Request) :
    Inv sinks platform config (claim config s context session request) := by
  have hlive := h.live context hcontext
  have hentered' : ∀ sink, Phase.entered ≠ .claimed sink := fun _ heq => Phase.noConfusion heq
  have hrunning : ∀ sink, Phase.running ≠ .claimed sink := fun _ heq => Phase.noConfusion heq
  have hsome : ∀ context' : Context, some context' ≠ none := fun _ => Option.some_ne_none _
  unfold claim
  cases hflag : context.sinkFlag with
  | true =>
    rw [if_pos rfl]
    refine ⟨(holders_setPhase _ _ _).symm ▸ h.nodup, fun hnone => absurd (hcontext.symm.trans hnone) (hsome _),
      fun context' hmem => ?_, ⟨h.given.released, h.given.firstOnly⟩⟩
    exact (h.live context' hmem).congr rfl rfl rfl rfl (claims_setPhase h.nodup hentered hentered' hrunning)
  | false =>
    rw [if_neg (by decide)]
    have hnone := hlive.unclaimed hflag
    have hstage : Unswitched platform s context := by
      obtain hstage | hstage | hstage := hlive.stage
      · exact hstage
      · obtain ⟨_, _, _, haim, _⟩ := hstage.claimed
        exact absurd (hflag.symm.trans haim.flag) (by decide)
      · exact absurd (hflag.symm.trans hstage.aim.flag) (by decide)
    refine ⟨(holders_setPhase _ _ _).symm ▸ h.nodup, fun hnone => absurd hnone (hsome _), fun context' hmem => ?_,
      ⟨fun hnone => absurd hnone (hsome _), fun other hmem => ?_⟩⟩
    · obtain rfl := Option.some.inj hmem
      refine ⟨hlive.null, fun hfalse => Bool.noConfusion hfalse, ?_⟩
      by_cases hneed : select config context request ≠ [] ∧ context.host ≠ select config context request
      · refine .inr (.inl ⟨⟨session, select config context request, rfl, ⟨rfl, hcontrol, hneed.1, hneed.2, fun hhost =>
          select_nil hhost (hlive.null hhost) request⟩, ?_, fun other sink hmem => ?_⟩, hstage.fresh, hstage.same⟩)
        · refine List.mem_map.mpr ⟨(session, .entered), hentered, ?_⟩
          simp [hneed.1, hneed.2]
        · obtain ⟨hmem, -⟩ | ⟨heq, -⟩ := mem_setPhase hmem
          · exact absurd hmem (hstage.quiet other sink)
          · exact heq
      · have hneed' : decide (select config context request ≠ [] ∧ context.host ≠ select config context request) =
            false := decide_eq_false hneed
        refine .inl ⟨fun other sink hmem => ?_, hneed', hstage.fresh, hstage.same⟩
        dsimp only at hmem
        rw [hneed', if_neg (by decide)] at hmem
        exact hstage.quiet other sink ((claims_setPhase h.nodup hentered hentered' hrunning other sink).mp hmem)
    · dsimp only at hmem
      rw [hnone] at hmem
      cases hmem

theorem inv_switch (h : Inv sinks platform config s) {session : ℕ} {sink : Text}
    (hclaimed : (session, .claimed sink) ∈ s.holders) (hcontext : s.context = some context) {answer : Answer}
    (hclean : Clean sinks platform config s (.switch session answer)) :
    Inv sinks platform config (switch sinks platform s context sink session answer) := by
  have hlive := h.live context hcontext
  have hsome : ∀ context' : Context, some context' ≠ none := fun _ => Option.some_ne_none _
  have hstage : Pending platform config s context := by
    obtain hstage | hstage | hstage := hlive.stage
    · exact absurd hclaimed (hstage.quiet session sink)
    · exact hstage
    · exact absurd hclaimed (hstage.quiet session sink)
  obtain ⟨session', sink', hfirst, haim, hmem', hunique⟩ := hstage.claimed
  obtain rfl := hunique session sink hclaimed
  obtain rfl : sink = sink' := Phase.claimed.inj (phase_unique h.nodup hclaimed hmem')
  have hquiet : ∀ other aim, (other, Phase.claimed aim) ∉ setPhase s.holders session .running := by
    intro other aim hmem
    obtain ⟨hmem, hne⟩ | ⟨-, heq⟩ := mem_setPhase hmem
    · exact hne (hunique other aim hmem)
    · exact Phase.noConfusion heq
  have hnew : sink ≠ s.audio.assigned := by
    rw [hstage.fresh]
    exact haim.some
  unfold switch
  dsimp only
  refine ⟨(holders_setPhase _ _ _).symm ▸ h.nodup, fun hnone => absurd hnone (hsome _), fun context' hmem => ?_,
    ⟨fun hnone => absurd hnone (hsome _), fun other hmem => ?_⟩⟩
  · obtain rfl := Option.some.inj hmem
    refine ⟨hlive.null, fun hfalse => absurd (haim.flag.symm.trans hfalse) (by decide), ?_⟩
    have hcases := @setSink_cases _ sinks platform sink answer s.audio haim.some fun _ => hnew
    obtain ⟨hstatus, hprepared, hfailed, hassigned, device, hfind, hroles⟩ | ⟨hstatus, hassigned, hlost, hroles⟩ := hcases
    · -- the way back leads to where all roles were
      have hback := (hclean context hcontext sink hclaimed device hfind hprepared).1 hfailed
      refine .inr (.inr ⟨hquiet, decide_eq_true hstatus, ?_, ?_, fun role hrole => ?_⟩)
      · dsimp only
        rw [hassigned]
        exact ⟨haim.flag, haim.control, haim.some, haim.other, haim.fallback⟩
      · dsimp only
        rw [hassigned]
        exact ⟨device, hfind, hroles⟩
      · exact (hback role hrole).trans (congrArg some (hstage.same role hrole))
    · refine .inl ⟨hquiet, decide_eq_false hstatus, hassigned.trans hstage.fresh, fun role hrole => ?_⟩
      obtain hsame | ⟨hprepared, hset, hfind⟩ := hroles role hrole
      · exact hsame.trans (hstage.same role hrole)
      · obtain ⟨lost, hhas, hfailed⟩ := hlost hprepared (by rw [hfind]; exact Option.some_ne_none _)
        have hclean' := (hclean context hcontext sink hclaimed _ hfind hprepared).2 lost hhas hfailed role hrole hset
        exact hclean'.symm.trans (hstage.same role hrole)
  · cases List.mem_append.mp hmem with
    | inl hmem => exact h.given.firstOnly other hmem
    | inr hmem =>
      rw [List.mem_singleton.mp hmem]
      exact hfirst

theorem inv_reset (h : Inv sinks platform config s) {session : ℕ} {answer : Answer}
    (henabled : enabled platform s (.reset session answer)) :
    Inv sinks platform config (next sinks platform config s (.reset session answer)) := by
  obtain ⟨hmem, rfl, hvirtual⟩ := henabled
  refine ⟨h.nodup, h.empty, fun context hcontext => ?_, ⟨fun hnone => ?_, h.given.firstOnly⟩⟩
  · have hlive := h.live context hcontext
    have hassigned : s.audio.assigned ≠ [] := fun heq => absurd hvirtual (by rw [heq]; decide)
    have hstage : Switched sinks .windows config s context := by
      obtain hstage | hstage | hstage := hlive.stage
      · exact absurd hstage.fresh hassigned
      · exact absurd hstage.fresh hassigned
      · exact hstage
    obtain ⟨device, hfind, hthere⟩ := hstage.there
    have hcases := @setSink_cases _ sinks .windows s.audio.assigned answer s.audio hassigned
      fun hlinux => Platform.noConfusion hlinux
    have hname : (setSink sinks .windows s.audio.assigned answer s.audio).2.assigned = s.audio.assigned := by
      obtain ⟨-, -, -, hname, -⟩ | ⟨-, hname, -⟩ := hcases
      · exact hname
      · exact hname
    refine ⟨hlive.null, hlive.unclaimed, .inr (.inr ⟨hstage.quiet, hstage.restore, ?_, ?_, hstage.back⟩)⟩
    · unfold next
      dsimp only
      rw [hname]
      exact hstage.aim
    · unfold next
      dsimp only
      rw [hname]
      refine ⟨device, hfind, fun role hrole => ?_⟩
      obtain ⟨-, -, -, -, device', hfind', hroles⟩ | ⟨-, -, -, hroles⟩ := hcases
      · rw [hroles role hrole]
        exact Option.some.inj (hfind'.symm.trans hfind)
      · obtain hsame | ⟨-, -, hfind'⟩ := hroles role hrole
        · exact hsame.trans (hthere role hrole)
        · exact Option.some.inj (hfind'.symm.trans hfind)
  · have hempty := h.empty hnone
    rw [hempty] at hmem
    cases hmem

theorem inv_leave (h : Inv sinks platform config s) {session : ℕ} {answer : Answer} (hcontext : s.context = some context)
    (henabled : enabled platform s (.leave session answer)) :
    Inv sinks platform config (leave sinks platform config s context session answer) := by
  obtain ⟨⟨phase, hmem, hphase⟩, hgood⟩ := henabled
  have hlive := h.live context hcontext
  have hsome : ∀ context' : Context, some context' ≠ none := fun _ => Option.some_ne_none _
  have hothers : ∀ other sink, (other, Phase.claimed sink) ∈ s.holders → other ≠ session := by
    intro other sink hmem' heq
    subst heq
    exact hphase sink (phase_unique h.nodup hmem hmem')
  unfold leave
  split_ifs with hlast
  · have halone : ∀ other other', (other, other') ∈ s.holders → other = session := by
      intro other other' hmem'
      by_contra hne
      have hin : (other, other') ∈ without s.holders session := List.mem_filter.mpr ⟨hmem', decide_eq_true hne⟩
      rw [hlast] at hin
      cases hin
    refine ⟨List.nodup_nil, fun _ => rfl, fun _ hmem => (by cases hmem), ⟨fun _ role hrole => ?_, h.given.firstOnly⟩⟩
    unfold stopAudioControl
    obtain hstage | hstage | hstage := hlive.stage
    · rw [if_pos (.inl (by simp [hstage.keep]))]
      exact hstage.same role hrole
    · obtain ⟨other, sink, -, -, hmem', -⟩ := hstage.claimed
      exact absurd (halone other _ hmem') (hothers other sink hmem')
    · have haim := hstage.aim
      have hback : goBack config context ≠ [] := by
        unfold goBack
        split_ifs with hhost
        · exact haim.fallback hhost ▸ haim.some
        · exact hhost
      rw [if_neg (by simp [hstage.restore, haim.control, hback])]
      refine setSink_good hback (hgood hlast) (hstage.back role hrole) (fun heq => ?_) role hrole
      -- the name to go back to is remembered already, so that all roles are there
      obtain ⟨device, hfind, hthere⟩ := hstage.there
      intro other hother
      rw [hthere other hother]
      rw [← heq] at hfind
      exact Option.some.inj (hfind.symm.trans (hstage.back role hrole))
  · refine ⟨h.nodup.sublist (holders_without _ _), fun hnone => absurd (hcontext.symm.trans hnone) (hsome _),
      fun context' hcontext' => ?_, ⟨h.given.released, h.given.firstOnly⟩⟩
    refine (h.live context' hcontext').congr rfl rfl rfl rfl fun other sink => ?_
    exact ⟨fun hmem' => (List.mem_filter.mp hmem').1, fun hmem' =>
      List.mem_filter.mpr ⟨hmem', decide_eq_true (hothers other sink hmem')⟩⟩

/-! ## Runs -/

theorem inv_start (roles : ERole → Sink) : Inv sinks platform config (start roles) :=
  ⟨List.nodup_nil, fun _ => rfl, fun _ hmem => (by cases hmem), ⟨fun _ _ _ => rfl, fun _ hmem => (by cases hmem)⟩⟩

theorem context_of_holder (h : Inv sinks platform config s) {holder : ℕ × Phase} (hmem : holder ∈ s.holders) :
    ∃ context, s.context = some context := by
  cases hcontext : s.context with
  | none =>
    rw [h.empty hcontext] at hmem
    cases hmem
  | some context => exact ⟨context, rfl⟩

theorem inv_next (h : Inv sinks platform config s) {event : Event} (henabled : enabled platform s event)
    (hclean : Clean sinks platform config s event) : Inv sinks platform config (next sinks platform config s event) := by
  cases event with
  | enter session control sinkInfo null => exact inv_enter h henabled control sinkInfo null
  | claim session request =>
    obtain ⟨hentered, context, hcontext, hcontrol⟩ := henabled
    unfold next
    rw [hcontext]
    exact inv_claim h hentered hcontext hcontrol request
  | switch session answer =>
    obtain ⟨sink, hclaimed⟩ := henabled
    obtain ⟨context, hcontext⟩ := context_of_holder h hclaimed
    have hlookup : s.holders.lookup session = some (.claimed sink) := Entries.lookup_of_nodup h.nodup hclaimed
    simp only [next, hcontext, hlookup]
    exact inv_switch h hclaimed hcontext hclean
  | reset session answer => exact inv_reset h henabled
  | leave session answer =>
    obtain ⟨context, hcontext⟩ := context_of_holder h henabled.1.choose_spec.1
    unfold next
    rw [hcontext]
    exact inv_leave h hcontext henabled

/-- In every run whose switches are clean, the host gets its sink back. -/
theorem host_sink_given_back (sinks : Sinks Sink) (platform : Platform) (config : Config) (roles : ERole → Sink)
    (events : List Event)
    (h : Runs (fun s event => enabled platform s event ∧ Clean sinks platform config s event)
      (next sinks platform config) (start roles) events) :
    GivenBack platform (events.foldl (next sinks platform config) (start roles)) :=
  (h.invariant (Inv sinks platform config) (inv_start roles) fun _ _ hs hstep => inv_next hs hstep.1 hstep.2).given

end Invariant

/-! ## A host with two sinks -/

section Host

/-- Speakers, and the virtual sink. -/
def pair : Sinks Bool where
  id := fun sink => if sink then ['s', 't', 'e', 'a', 'm'] else ['l', 'o', 'u', 'd']
  find := fun name =>
    if name = ['l', 'o', 'u', 'd'] then some false else if name = ['s', 't', 'e', 'a', 'm'] then some true else none
  id_ne := by decide
  find_id := by decide

def allGood : Answer where
  prepared := true
  failed := fun _ => false

/-- The communications role is not set. -/
def partlyFailed : Answer where
  prepared := true
  failed := fun role => role = .eCommunications

def steam : Null where
  stereo := ['s', 't', 'e', 'a', 'm']
  surround51 := ['s', 't', 'e', 'a', 'm']
  surround71 := ['s', 't', 'e', 'a', 'm']

/-- One session without host audio. -/
def session (answer : Answer) : List Event :=
  [.enter 0 true true (some steam), .claim 0 ⟨2, false⟩, .switch 0 answer, .leave 0 allGood]

theorem session_given_back : GivenBack .windows
    ((session allGood).foldl (next pair .windows ⟨[]⟩) (start fun _ => false)) := by
  refine host_sink_given_back pair .windows ⟨[]⟩ (fun _ => false) (session allGood) ?_
  refine ⟨⟨fun hmem => (by cases hmem), trivial⟩, ⟨⟨.head _, _, rfl, rfl⟩, trivial⟩,
    ⟨⟨['s', 't', 'e', 'a', 'm'], .head _⟩, ?_⟩, ⟨⟨⟨.running, .head _, fun _ heq => Phase.noConfusion heq⟩, ?_⟩, trivial⟩,
    trivial⟩
  · intro context hcontext sink hmem device hfind hprepared
    obtain rfl := Option.some.inj hcontext
    exact ⟨fun _ role _ => rfl, fun _ _ hfailed => Bool.noConfusion hfailed⟩
  · exact fun _ => ⟨rfl, fun _ => rfl⟩

/-- A switch that leaves one role where it was is not taken back for the others. -/
theorem switched_role_stays : ¬∀ events : List Event,
    Runs (enabled .windows) (next pair .windows ⟨[]⟩) (start fun _ => false) events →
      GivenBack .windows (events.foldl (next pair .windows ⟨[]⟩) (start fun _ => false)) := by
  intro hall
  have hruns : Runs (enabled .windows) (next pair .windows ⟨[]⟩) (start fun _ => false) (session partlyFailed) := by
    refine ⟨fun hmem => (by cases hmem), ⟨.head _, _, rfl, rfl⟩, ⟨['s', 't', 'e', 'a', 'm'], .head _⟩,
      ⟨⟨.running, .head _, fun _ heq => Phase.noConfusion heq⟩, fun _ => ⟨rfl, fun _ => rfl⟩⟩, trivial⟩
  have hconsole := (hall _ hruns).released rfl .eConsole trivial
  exact Bool.noConfusion hconsole

end Host

end Sunshine.HostSink
