import Sunshine.Platform.HeadlessCompositor
import Sunshine.Process.Commands

/-! `proc_t::execute` with the headless compositor it starts: what `Commands` takes as an answer comes from
`compositor_t::start` here, and what starts a command is recorded.

`executeHeadless_state` says that the process manager is the one of `Commands`. -/
namespace Sunshine.Process
open HeadlessCompositor (Compositor Host Backend Came Nested Idle Kept)
set_option autoImplicit false

/-- A command is started by the process manager, or by a compositor that was given it. -/
inductive Start where
  | ran (entry : Entry)
  | nested (cmd : Text)

/-- `config::video.linux_display`. -/
structure LinuxDisplay where
  compositorBackend : Text
  headlessWidth : ℤ
  headlessHeight : ℤ
  headlessRefresh : ℤ

/-- `g_headless_compositor` beside the process manager, the compositors that were let go while their process group
ran, whether the main command runs that the manager started, and what the last `execute` has started. -/
structure Machine (Nv : Type) where
  state : State Nv
  compositor : Option Compositor
  abandoned : List Compositor
  mainRuns : Bool
  starts : List Start

section

variable {Nv : Type}

def resolveConfigured (display : LinuxDisplay) : Backend :=
  if display.compositorBackend = "labwc".toList then .labwc
  else if display.compositorBackend = "krfb".toList then .krfb
  else if display.compositorBackend = "gamescope".toList then .gamescope
  else .autoDetect

/-- `g_headless_compositor.reset ()`: the destructor stops nothing. -/
def resetCompositor (m : Machine Nv) : Machine Nv :=
  { m with
    compositor := none
    abandoned := (m.compositor.filter (·.pid.isSome)).toList ++ m.abandoned }

def stopCompositor (m : Machine Nv) : Machine Nv :=
  match m.compositor with
  | none => m
  | some c => resetCompositor { m with compositor := some (HeadlessCompositor.stop c) }

/-- The process group of the main command is ended. -/
def terminateHeadless (groupRunning : Bool) (m : Machine Nv) : Machine Nv :=
  let m := stopCompositor m
  { m with state := terminate groupRunning m.state, mainRuns := false }

def runMainHeadless (answers : Answers) (m : Machine Nv) : Machine Nv × Bool :=
  let m := { m with starts := m.starts ++ [Start.ran (.main m.state.proc.app.cmd)] }
  match runMain answers m.state with
  | (state, true) => ({ m with state := state, mainRuns := true }, true)
  | (state, false) => (stopCompositor { m with state := state }, false)

def startCompositor (display : LinuxDisplay) (host : Host) (session : LaunchSession) (cmd : Text) : Compositor × Bool :=
  let c := Compositor.new (resolveConfigured display)
  let virtualWidth := if 0 < display.headlessWidth then display.headlessWidth else session.width
  let virtualHeight := if 0 < display.headlessHeight then display.headlessHeight else session.height
  HeadlessCompositor.start host virtualWidth virtualHeight (HeadlessCompositor.wrapCmd c cmd) c

def startMainHeadless (display : LinuxDisplay) (host : Host) (session : LaunchSession) (answers : Answers)
    (m : Machine Nv) : Machine Nv × Bool :=
  if m.state.proc.app.cmd = [] then
    ({ m with state := { m.state with proc := { m.state.proc with placebo := true } } }, true)
  else if m.state.config.headless then
    match startCompositor display host session m.state.proc.app.cmd with
    | (c, false) => (resetCompositor { m with compositor := some c }, false)
    | (c, true) =>
      runMainHeadless answers
        { m with
          state := injectSockets c.waylandSocket c.x11Display m.state
          compositor := some c
          starts := m.starts ++ c.commands.map Start.nested }
  else runMainHeadless answers m

def startAppHeadless (display : LinuxDisplay) (host : Host) (session : LaunchSession) (answers : Answers)
    (m : Machine Nv) : Machine Nv × ℤ :=
  let detached := m.state.proc.app.detached.map Entry.detached
  match startMainHeadless display host session answers
      { m with state := record detached m.state, starts := m.starts ++ detached.map Start.ran } with
  | (m, false) => (terminateHeadless answers.groupRunning m, -1)
  | (m, true) => ({ m with state.proc.appLaunchTime := answers.now }, 0)

variable (lib : Library) (tune : Nv → ℤ → Nv) (display : LinuxDisplay) (host : Host)

def launchAppHeadless (appId : ℤ) (app : Ctx) (session : LaunchSession) (answers : Answers) (m : Machine Nv) :
    Machine Nv × ℤ :=
  let outcome := prepLoop lib app answers.prep 0 app.prepCmds
  let m :=
    { m with
      state := prepare tune appId app session answers outcome.1 outcome.2.1 m.state
      starts := outcome.2.1.map Start.ran }
  if outcome.2.2 then startAppHeadless display host session answers m
  else (terminateHeadless answers.groupRunning m, -1)

def executeHeadless (appId : ℤ) (session : LaunchSession) (answers : Answers) (m : Machine Nv) : Machine Nv × ℤ :=
  let m := { terminateHeadless answers.groupRunning m with starts := [] }
  match m.state.proc.apps.find? fun app => app.id = toText appId with
  | none => (m, 404)
  | some app => launchAppHeadless lib tune display host appId app session answers m

/-! ## The process manager -/

/-- What the process manager sees of a compositor that was started. -/
def sockets (outcome : Compositor × Bool) : Option (Text × Text) :=
  if outcome.2 then some (outcome.1.waylandSocket, outcome.1.x11Display) else none

def withCompositor (display : LinuxDisplay) (host : Host) (session : LaunchSession) (cmd : Text) (answers : Answers) :
    Answers :=
  { answers with compositor := sockets (startCompositor display host session cmd) }

variable {lib tune display host} {m : Machine Nv} {answers : Answers} {session : LaunchSession}

theorem stopCompositor_state : (stopCompositor m).state = m.state := by
  unfold stopCompositor
  split <;> rfl

theorem terminateHeadless_state (groupRunning : Bool) :
    (terminateHeadless groupRunning m).state = terminate groupRunning m.state :=
  congrArg (terminate groupRunning) stopCompositor_state

theorem runMainHeadless_state (answers : Answers) (m : Machine Nv) :
    ((runMainHeadless answers m).1.state, (runMainHeadless answers m).2) = runMain answers m.state := by
  unfold runMainHeadless
  dsimp only
  generalize runMain answers m.state = ran
  obtain ⟨state, success⟩ := ran
  cases success with
  | true => rfl
  | false => exact congrArg (·, false) stopCompositor_state

theorem startMainHeadless_state (display : LinuxDisplay) (host : Host) (session : LaunchSession) (answers : Answers)
    (m : Machine Nv) :
    ((startMainHeadless display host session answers m).1.state,
        (startMainHeadless display host session answers m).2) =
      startMain (withCompositor display host session m.state.proc.app.cmd answers) m.state := by
  unfold startMainHeadless startMain withCompositor
  by_cases hcmd : m.state.proc.app.cmd = []
  · rw [if_pos hcmd, if_pos hcmd]
  · rw [if_neg hcmd, if_neg hcmd]
    by_cases hheadless : m.state.config.headless = true
    · rw [if_pos hheadless, if_pos hheadless]
      generalize startCompositor display host session m.state.proc.app.cmd = outcome
      obtain ⟨c, success⟩ := outcome
      cases success with
      | true => exact runMainHeadless_state answers _
      | false => rfl
    · rw [if_neg hheadless, if_neg hheadless]
      exact runMainHeadless_state answers m

theorem startAppHeadless_state (display : LinuxDisplay) (host : Host) (session : LaunchSession) (answers : Answers)
    (m : Machine Nv) :
    ((startAppHeadless display host session answers m).1.state,
        (startAppHeadless display host session answers m).2) =
      startApp (withCompositor display host session m.state.proc.app.cmd answers) m.state := by
  unfold startAppHeadless startApp
  dsimp only
  have hmain := startMainHeadless_state display host session answers
    { m with
      state := record (m.state.proc.app.detached.map Entry.detached) m.state
      starts := m.starts ++ (m.state.proc.app.detached.map Entry.detached).map Start.ran }
  have happ : (record (m.state.proc.app.detached.map Entry.detached) m.state).proc.app = m.state.proc.app := rfl
  dsimp only at hmain
  rw [happ] at hmain
  rw [← hmain]
  generalize startMainHeadless display host session answers _ = outcome
  obtain ⟨started, success⟩ := outcome
  cases success with
  | true => rfl
  | false => exact congrArg (·, -1) (terminateHeadless_state answers.groupRunning)

theorem launchAppHeadless_state (lib : Library) (tune : Nv → ℤ → Nv) (display : LinuxDisplay) (host : Host)
    (appId : ℤ) (app : Ctx) (session : LaunchSession) (answers : Answers) (m : Machine Nv) :
    ((launchAppHeadless lib tune display host appId app session answers m).1.state,
        (launchAppHeadless lib tune display host appId app session answers m).2) =
      launchApp lib tune appId app session (withCompositor display host session app.cmd answers) m.state := by
  unfold launchAppHeadless launchApp
  have hprep : (withCompositor display host session app.cmd answers).prep = answers.prep := rfl
  rw [hprep]
  dsimp only
  split_ifs with hends
  · exact startAppHeadless_state display host session answers
      { m with
        state := prepare tune appId app session answers (prepLoop lib app answers.prep 0 app.prepCmds).1
          (prepLoop lib app answers.prep 0 app.prepCmds).2.1 m.state
        starts := (prepLoop lib app answers.prep 0 app.prepCmds).2.1.map Start.ran }
  · exact congrArg (·, -1) (terminateHeadless_state answers.groupRunning)

/-- The process manager does what it does with the sockets of the compositor as an answer. -/
theorem executeHeadless_state (lib : Library) (tune : Nv → ℤ → Nv) (display : LinuxDisplay) (host : Host) (appId : ℤ)
    (session : LaunchSession) (answers : Answers) (m : Machine Nv) :
    ((executeHeadless lib tune display host appId session answers m).1.state,
        (executeHeadless lib tune display host appId session answers m).2) =
      execute lib tune appId session
        (withCompositor display host session
          ((m.state.proc.apps.find? fun app => app.id = toText appId).elim [] Ctx.cmd) answers) m.state := by
  have hclean : (terminateHeadless answers.groupRunning m).state = terminate answers.groupRunning m.state :=
    terminateHeadless_state answers.groupRunning
  have happs : (terminate answers.groupRunning m.state).proc.apps = m.state.proc.apps := rfl
  unfold executeHeadless execute launch
  have hgroup (cmd : Text) : (withCompositor display host session cmd answers).groupRunning = answers.groupRunning := rfl
  rw [hgroup]
  dsimp only
  rw [hclean, happs]
  cases m.state.proc.apps.find? fun app => app.id = toText appId with
  | none => rfl
  | some app => exact launchAppHeadless_state lib tune display host appId app session answers _

/-! ## What is claimed -/

/-- The do commands, the detached commands and the main command are started in this order, and each once; and where
the app is not executed, neither its main command nor a compositor is left running. -/
def LaunchesOnce (appId : ℤ) (answers : Answers) (m : Machine Nv) (outcome : Machine Nv × ℤ) : Prop :=
  (outcome.2 = 0 → ∃ app, m.state.proc.apps.find? (fun app => app.id = toText appId) = some app ∧ ∃ main,
    outcome.1.starts = (app.prepCmds.filter fun cmd => cmd.doCmd ≠ []).map (fun cmd => .ran (.doCmd cmd)) ++
      app.detached.map (fun cmd => .ran (.detached cmd)) ++ main ∧
    (∀ start ∈ main, start = .ran (.main app.cmd) ∨ start = .nested app.cmd) ∧
    main.length = if app.cmd = [] then 0 else 1) ∧
  (outcome.2 ≠ 0 → outcome.1.mainRuns = false ∧ outcome.1.compositor = none ∧
    outcome.1.abandoned = (terminateHeadless answers.groupRunning m).abandoned)

variable (lib display host) in
/-- The main command is run, and by a gamescope that has started it as well. -/
def Doubled (appId : ℤ) (answers : Answers) (m : Machine Nv) : Prop :=
  ∃ app, m.state.proc.apps.find? (fun app => app.id = toText appId) = some app ∧
    (∀ step ∈ app.prepCmds.zipIdx, step.1.doCmd = [] ∨ passes lib app (answers.prep step.2) = true) ∧
    app.cmd ≠ [] ∧ m.state.config.headless = true ∧ Nested host (resolveConfigured display) ∧
    answers.mainFails = false

/-! ## The main command -/

theorem stopCompositor_compositor : (stopCompositor m).compositor = none := by
  unfold stopCompositor
  split
  case _ hnone => exact hnone
  case _ => rfl

theorem resetCompositor_abandoned (h : ∀ c, m.compositor = some c → c.pid = none) :
    (resetCompositor m).abandoned = m.abandoned := by
  unfold resetCompositor
  cases hcompositor : m.compositor with
  | none => rfl
  | some c =>
    have hpid := h c hcompositor
    simp [hpid]

theorem stopCompositor_abandoned (h : ∀ c, m.compositor = some c → Kept c) :
    (stopCompositor m).abandoned = m.abandoned := by
  unfold stopCompositor
  split
  case _ => rfl
  case _ c hcompositor =>
    refine resetCompositor_abandoned fun c' hc' => ?_
    obtain rfl := Option.some.inj hc'
    exact (HeadlessCompositor.stop_idle (h c hcompositor)).1

theorem wrapCmd_new (backend : Backend) (cmd : Text) :
    HeadlessCompositor.wrapCmd (Compositor.new backend) cmd = cmd :=
  if_pos (.inr rfl)

theorem startCompositor_came (display : LinuxDisplay) (host : Host) (session : LaunchSession) (cmd : Text) :
    Came (Nested host (resolveConfigured display)) cmd (startCompositor display host session cmd) := by
  unfold startCompositor
  dsimp only
  rw [wrapCmd_new]
  exact HeadlessCompositor.start_came _

/-- The main command is started once, unless it is `doubled`; where it is not started, nothing is left. -/
structure StartedMain (doubled : Prop) (m : Machine Nv) (outcome : Machine Nv × Bool) : Prop where
  succeeds : outcome.2 = true → ∃ main, outcome.1.starts = m.starts ++ main ∧
    (∀ start ∈ main, start = .ran (.main m.state.proc.app.cmd) ∨ start = .nested m.state.proc.app.cmd) ∧
    (main.length = (if m.state.proc.app.cmd = [] then 0 else 1) ↔ ¬doubled)
  doubles : doubled → outcome.2 = true
  fails : outcome.2 = false → outcome.1.compositor = none ∧ outcome.1.abandoned = m.abandoned

theorem runMain_succeeds (answers : Answers) (s : State Nv) : (runMain answers s).2 = !answers.mainFails := by
  unfold runMain
  dsimp only
  split_ifs with hfails
  · rw [hfails]
    rfl
  · rw [eq_false_of_ne_true hfails]
    rfl

/-- With what has been started inside the compositor before. -/
theorem runMainHeadless_started {reason : Prop} {before : Machine Nv} (nested : List Text)
    (hcmd : before.state.proc.app.cmd ≠ []) (hsame : m.state.proc.app.cmd = before.state.proc.app.cmd)
    (hstarts : m.starts = before.starts ++ nested.map Start.nested)
    (hnested : ∀ cmd ∈ nested, cmd = before.state.proc.app.cmd) (hreason : nested = [] ↔ ¬reason)
    (habandoned : m.abandoned = before.abandoned) (hkept : ∀ c, m.compositor = some c → Kept c) :
    StartedMain (reason ∧ answers.mainFails = false) before (runMainHeadless answers m) := by
  have hsucceeds := runMain_succeeds answers m.state
  unfold runMainHeadless
  dsimp only
  generalize runMain answers m.state = ran at hsucceeds ⊢
  obtain ⟨state, success⟩ := ran
  cases success with
  | true =>
    have hruns : answers.mainFails = false := (Bool.not_eq_true' _).mp hsucceeds.symm
    refine ⟨fun _ => ⟨nested.map Start.nested ++ [.ran (.main m.state.proc.app.cmd)], ?_, ?_, ?_⟩, fun _ => rfl, nofun⟩
    · show m.starts ++ _ = _
      rw [hstarts, List.append_assoc]
    · intro start hstart
      cases List.mem_append.mp hstart with
      | inl hmem =>
        obtain ⟨cmd, hcmd, rfl⟩ := List.mem_map.mp hmem
        exact .inr (congrArg _ (hnested cmd hcmd))
      | inr hmem =>
        rw [List.mem_singleton.mp hmem, hsame]
        exact .inl rfl
    · rw [if_neg hcmd, and_iff_left hruns, ← hreason]
      simp
  | false =>
    refine ⟨nofun, fun hdoubled => ?_, fun _ => ⟨stopCompositor_compositor, ?_⟩⟩
    · rw [hdoubled.2] at hsucceeds
      cases hsucceeds
    · refine Eq.trans (stopCompositor_abandoned ?_) habandoned
      exact hkept

variable (display host session answers) in
theorem startMainHeadless_started (hnone : m.compositor = none) :
    StartedMain
      ((m.state.proc.app.cmd ≠ [] ∧ m.state.config.headless = true ∧ Nested host (resolveConfigured display)) ∧
        answers.mainFails = false)
      m (startMainHeadless display host session answers m) := by
  unfold startMainHeadless
  by_cases hcmd : m.state.proc.app.cmd = []
  · rw [if_pos hcmd]
    refine ⟨fun _ => ⟨[], (List.append_nil _).symm, nofun, ?_⟩, fun hdoubled => absurd hcmd hdoubled.1.1, nofun⟩
    simp [hcmd]
  · rw [if_neg hcmd]
    by_cases hheadless : m.state.config.headless = true
    · rw [if_pos hheadless]
      have hcame := startCompositor_came display host session m.state.proc.app.cmd
      generalize startCompositor display host session m.state.proc.app.cmd = outcome at hcame ⊢
      obtain ⟨c, success⟩ := outcome
      cases success with
      | true =>
        refine runMainHeadless_started c.commands hcmd rfl rfl ?_ ?_ rfl ?_
        · rw [hcame.commands rfl]
          intro cmd hmem
          split_ifs at hmem
          · exact List.mem_singleton.mp hmem
          · cases hmem
        · rw [hcame.commands rfl]
          simp [hcmd, hheadless]
        · intro c' hc'
          obtain rfl := Option.some.inj hc'
          exact hcame.kept
      | false =>
        refine ⟨nofun, fun hdoubled => ?_, fun _ => ⟨rfl, resetCompositor_abandoned fun c' hc' => ?_⟩⟩
        · exact hcame.comes hdoubled.1.2.2
        · obtain rfl := Option.some.inj hc'
          exact (hcame.idle rfl).1
    · rw [if_neg hheadless]
      refine runMainHeadless_started [] hcmd rfl (List.append_nil _).symm nofun ?_ rfl ?_
      · simp [hheadless]
      · intro c hc
        rw [hnone] at hc
        cases hc

/-! ## The whole launch -/

theorem stopCompositor_none (hnone : m.compositor = none) : stopCompositor m = m := by
  unfold stopCompositor
  rw [hnone]

theorem terminateHeadless_none (hnone : m.compositor = none) (groupRunning : Bool) :
    (terminateHeadless groupRunning m).compositor = none ∧
      (terminateHeadless groupRunning m).abandoned = m.abandoned := by
  unfold terminateHeadless
  rw [stopCompositor_none hnone]
  exact ⟨hnone, rfl⟩

variable (lib) in
theorem prepLoop_ends (app : Ctx) (answer : ℕ → Ran) (it : ℕ) (cmds : List PrepCmd) :
    (prepLoop lib app answer it cmds).2.2 = true ↔
      ∀ step ∈ cmds.zipIdx it, step.1.doCmd = [] ∨ passes lib app (answer step.2) = true := by
  induction cmds generalizing it with
  | nil => simp [prepLoop]
  | cons cmd rest ih =>
    rw [prepLoop, List.zipIdx_cons, List.forall_mem_cons, ← ih]
    by_cases hempty : cmd.doCmd = []
    · rw [if_pos hempty]
      exact ⟨fun hends => ⟨.inl hempty, hends⟩, fun hboth => hboth.2⟩
    · rw [if_neg hempty]
      by_cases hpasses : passes lib app (answer it) = true
      · rw [if_pos hpasses]
        exact ⟨fun hends => ⟨.inr hpasses, hends⟩, fun hboth => hboth.2⟩
      · rw [if_neg hpasses]
        exact ⟨fun hends => absurd hends Bool.false_ne_true, fun hboth => (hboth.1.elim hempty hpasses).elim⟩

variable (lib) in
theorem prepLoop_starts (app : Ctx) (answer : ℕ → Ran) (it : ℕ) (cmds : List PrepCmd)
    (hends : (prepLoop lib app answer it cmds).2.2 = true) :
    (prepLoop lib app answer it cmds).2.1 = (cmds.filter fun cmd => cmd.doCmd ≠ []).map .doCmd := by
  induction cmds generalizing it with
  | nil => rfl
  | cons cmd rest ih =>
    rw [prepLoop] at hends ⊢
    by_cases hempty : cmd.doCmd = []
    · rw [if_pos hempty] at hends ⊢
      rw [ih (it + 1) hends, List.filter_cons_of_neg (by simp [hempty])]
    · rw [if_neg hempty] at hends ⊢
      rw [List.filter_cons_of_pos (by simp [hempty]), List.map_cons]
      by_cases hpasses : passes lib app (answer it) = true
      · rw [if_pos hpasses] at hends ⊢
        exact congrArg _ (ih (it + 1) hends)
      · rw [if_neg hpasses] at hends
        cases hends

theorem terminate_headless (groupRunning : Bool) (s : State Nv) :
    (terminate groupRunning s).config.headless = s.config.headless := by
  unfold terminate restorePreset
  dsimp only
  split_ifs <;> rfl

theorem overridePreset_headless (app : Ctx) (config : Config Nv) :
    (overridePreset tune app config).headless = config.headless := by
  unfold overridePreset
  split_ifs <;> rfl

/-- The launch of an app with `cmd`, with `front` started before it. -/
structure Launched (doubled : Prop) (cmd : Text) (front : List Start) (abandoned : List Compositor)
    (outcome : Machine Nv × ℤ) : Prop where
  succeeds : outcome.2 = 0 → ∃ main, outcome.1.starts = front ++ main ∧
    (∀ start ∈ main, start = .ran (.main cmd) ∨ start = .nested cmd) ∧
    (main.length = (if cmd = [] then 0 else 1) ↔ ¬doubled)
  doubles : doubled → outcome.2 = 0
  fails : outcome.2 ≠ 0 → outcome.1.mainRuns = false ∧ outcome.1.compositor = none ∧
    outcome.1.abandoned = abandoned

variable (display host session answers) in
theorem startAppHeadless_launched (hnone : m.compositor = none) :
    Launched
      ((m.state.proc.app.cmd ≠ [] ∧ m.state.config.headless = true ∧ Nested host (resolveConfigured display)) ∧
        answers.mainFails = false)
      m.state.proc.app.cmd (m.starts ++ (m.state.proc.app.detached.map Entry.detached).map Start.ran) m.abandoned
      (startAppHeadless display host session answers m) := by
  unfold startAppHeadless
  dsimp only
  generalize hrecorded : ({ m with
    state := record (m.state.proc.app.detached.map Entry.detached) m.state
    starts := m.starts ++ (m.state.proc.app.detached.map Entry.detached).map Start.ran } : Machine Nv) = recorded
  have hstarts : recorded.starts = m.starts ++ (m.state.proc.app.detached.map Entry.detached).map Start.ran := by
    rw [← hrecorded]
  have happ : recorded.state.proc.app = m.state.proc.app := by
    rw [← hrecorded]
    rfl
  have hheadless : recorded.state.config.headless = m.state.config.headless := by
    rw [← hrecorded]
    rfl
  have habandoned : recorded.abandoned = m.abandoned := by rw [← hrecorded]
  have hmain := startMainHeadless_started display host answers session (m := recorded) (by rw [← hrecorded]; exact hnone)
  rw [happ, hheadless] at hmain
  generalize startMainHeadless display host session answers recorded = outcome at hmain ⊢
  obtain ⟨started, success⟩ := outcome
  cases success with
  | true =>
    obtain ⟨main, hmain', hall, hlength⟩ := hmain.succeeds rfl
    rw [happ] at hall hlength
    refine ⟨fun _ => ⟨main, ?_, hall, hlength⟩, fun _ => rfl, fun hne => absurd rfl hne⟩
    rw [← hstarts]
    exact hmain'
  | false =>
    obtain ⟨hcompositor, hleft⟩ := hmain.fails rfl
    have hclean := terminateHeadless_none hcompositor answers.groupRunning
    refine ⟨fun hzero => ?_, fun hdoubled => ?_, fun _ => ⟨rfl, hclean.1, ?_⟩⟩
    · cases hzero
    · exact absurd (hmain.doubles hdoubled) Bool.false_ne_true
    · rw [← habandoned, ← hleft]
      exact hclean.2

variable (lib tune display host session answers) in
theorem launchAppHeadless_launched (appId : ℤ) (app : Ctx) (hnone : m.compositor = none) :
    Launched
      ((∀ step ∈ app.prepCmds.zipIdx, step.1.doCmd = [] ∨ passes lib app (answers.prep step.2) = true) ∧
        (app.cmd ≠ [] ∧ m.state.config.headless = true ∧ Nested host (resolveConfigured display)) ∧
        answers.mainFails = false)
      app.cmd
      ((app.prepCmds.filter fun cmd => cmd.doCmd ≠ []).map (fun cmd => .ran (.doCmd cmd)) ++
        app.detached.map fun cmd => .ran (.detached cmd))
      m.abandoned (launchAppHeadless lib tune display host appId app session answers m) := by
  unfold launchAppHeadless
  dsimp only
  rw [← prepLoop_ends]
  have hstarts := prepLoop_starts lib app answers.prep 0 app.prepCmds
  generalize prepLoop lib app answers.prep 0 app.prepCmds = outcome at hstarts ⊢
  by_cases hends : outcome.2.2 = true
  · rw [if_pos hends, and_iff_right hends]
    have hlaunched := startAppHeadless_launched display host answers session
      (m := { m with state := prepare tune appId app session answers outcome.1 outcome.2.1 m.state
                     starts := outcome.2.1.map Start.ran }) hnone
    have hheadless : (overridePreset tune app m.state.config).headless = m.state.config.headless :=
      overridePreset_headless app m.state.config
    rw [← hheadless]
    rw [hstarts hends] at hlaunched ⊢
    simp only [List.map_map] at hlaunched ⊢
    exact hlaunched
  · rw [if_neg hends]
    have hclean := terminateHeadless_none
      (m := { m with state := prepare tune appId app session answers outcome.1 outcome.2.1 m.state
                     starts := outcome.2.1.map Start.ran }) hnone answers.groupRunning
    refine ⟨fun hzero => ?_, fun hdoubled => absurd hdoubled.1 hends, fun _ => ⟨rfl, hclean⟩⟩
    cases hzero

/-- Behind the clean slate there is no compositor, and the apps and the configuration are as before. -/
theorem cleanSlate (groupRunning : Bool) (m : Machine Nv) :
    (terminateHeadless groupRunning m).compositor = none ∧
      (terminateHeadless groupRunning m).state.proc.apps = m.state.proc.apps ∧
      (terminateHeadless groupRunning m).state.config.headless = m.state.config.headless := by
  refine ⟨stopCompositor_compositor, ?_, ?_⟩
  · show (stopCompositor m).state.proc.apps = _
    rw [stopCompositor_state]
  · show (terminate groupRunning (stopCompositor m).state).config.headless = _
    rw [terminate_headless, stopCompositor_state]

/-- A launch starts each command once unless a gamescope that has started the main command is given it again. -/
theorem launchesOnce_iff (lib : Library) (tune : Nv → ℤ → Nv) (display : LinuxDisplay) (host : Host) (appId : ℤ)
    (session : LaunchSession) (answers : Answers) (m : Machine Nv) :
    LaunchesOnce appId answers m (executeHeadless lib tune display host appId session answers m) ↔
      ¬Doubled lib display host appId answers m := by
  obtain ⟨hnone, happs, hheadless⟩ := cleanSlate answers.groupRunning m
  unfold LaunchesOnce Doubled executeHeadless
  dsimp only
  rw [happs]
  cases hfound : m.state.proc.apps.find? fun app => app.id = toText appId with
  | none =>
    refine iff_of_true ⟨fun hzero => ?_, fun _ => ⟨rfl, hnone, rfl⟩⟩ ?_
    · cases hzero
    · rintro ⟨app, happ, _⟩
      cases happ
  | some app =>
    have hlaunched := launchAppHeadless_launched lib tune display host answers session appId app
      (m := { terminateHeadless answers.groupRunning m with starts := [] }) hnone
    dsimp only at hlaunched ⊢
    rw [hheadless] at hlaunched
    generalize launchAppHeadless lib tune display host appId app session answers _ = outcome at hlaunched ⊢
    constructor
    · rintro ⟨honce, _⟩ ⟨app', happ, hends, hcmd, hcomp, hnested, hruns⟩
      obtain rfl := Option.some.inj happ
      have hdoubled := And.intro hends (And.intro (And.intro hcmd (And.intro hcomp hnested)) hruns)
      have hzero := hlaunched.doubles hdoubled
      obtain ⟨app', happ', main, hmain, _, hlength⟩ := honce hzero
      obtain rfl := Option.some.inj happ'
      obtain ⟨main', hmain', _, hiff⟩ := hlaunched.succeeds hzero
      obtain rfl := List.append_cancel_left (hmain.symm.trans hmain')
      exact hiff.mp hlength hdoubled
    · intro hdoubled
      refine ⟨fun hzero => ?_, hlaunched.fails⟩
      obtain ⟨main, hmain, hall, hiff⟩ := hlaunched.succeeds hzero
      refine ⟨app, rfl, main, hmain, hall, hiff.mpr fun hreason => hdoubled ?_⟩
      obtain ⟨hends, ⟨hcmd, hcomp, hnested⟩, hruns⟩ := hreason
      exact ⟨app, rfl, hends, hcmd, hcomp, hnested, hruns⟩

end

/-! ## In gamescope -/

/-- Gamescope comes up and starts the command it is given. -/
def gamescopeHost : Host where
  currentDesktop := none
  sessionDesktop := none
  waylandDisplay := none
  installed name := name = "gamescope".toList
  krfb := .notStarted
  niriOutputs := none
  runtimeDir := "/run/user/1000".toList
  fork := some 42
  execs := true
  launches := true
  newSocket := some "wayland-1".toList
  outputReady := false
  newDisplay := none

def gamescopeDisplay : LinuxDisplay := ⟨"gamescope".toList, 0, 0, 0⟩

def headlessMachine : Machine ℤ :=
  ⟨{ TwoApps.initial with config := { TwoApps.initial.config with headless := true } }, none, [], false, []⟩

/-- The main command of the first app is started by gamescope and by the process manager. -/
theorem not_launchesOnce : ¬LaunchesOnce 1 (TwoApps.answers false) headlessMachine
    (executeHeadless TwoApps.lib TwoApps.tune gamescopeDisplay gamescopeHost 1 TwoApps.session (TwoApps.answers false)
      headlessMachine) := by
  intro honce
  have hzero : (executeHeadless TwoApps.lib TwoApps.tune gamescopeDisplay gamescopeHost 1 TwoApps.session
      (TwoApps.answers false) headlessMachine).2 = 0 := by decide +kernel
  have hfour : (executeHeadless TwoApps.lib TwoApps.tune gamescopeDisplay gamescopeHost 1 TwoApps.session
      (TwoApps.answers false) headlessMachine).1.starts.length = 4 := by decide +kernel
  have hfirst : headlessMachine.state.proc.apps.find? (fun app => app.id = toText 1) = some TwoApps.first := by
    decide +kernel
  obtain ⟨app, happ, main, hstarts, _, hlength⟩ := honce.1 hzero
  obtain rfl := Option.some.inj (hfirst.symm.trans happ)
  rw [hstarts, List.length_append, hlength] at hfour
  exact absurd hfour (by decide +kernel)

end Sunshine.Process
