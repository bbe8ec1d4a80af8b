import Sunshine.Lib.Transitions
import Mathlib.Data.Int.Notation
import Mathlib.Data.List.TakeWhile

/-! `proc_t`: `execute`, `running` and `terminate`, with the prep commands of an app and their undo commands.

What the operating system answers is an input of each call, and every command that is run is recorded.
`undo_balanced` is about the undo commands between one `execute` and the next. -/
namespace Sunshine.Process
open Transitions
set_option autoImplicit false

abbrev Text := List Char

/-! ## Apps and the process manager -/

structure PrepCmd where
  doCmd : Text
  undoCmd : Text
  elevated : Bool
  deriving DecidableEq

/-- `ctx_t`. -/
structure Ctx where
  prepCmds : List PrepCmd
  detached : List Text
  name : Text
  cmd : Text
  workingDir : Text
  output : Text
  imagePath : Text
  id : Text
  elevated : Bool
  autoDetach : Bool
  waitAll : Bool
  exitTimeout : ℤ
  encoderPresetOverride : ℤ
  deriving DecidableEq

def Ctx.empty : Ctx := ⟨[], [], [], [], [], [], [], [], false, false, false, 0, -1⟩

abbrev Environment := List (Text × Text)

def setEnv (name : String) (value : Text) (env : Environment) : Environment :=
  (name.toList, value) :: env.filter fun entry => entry.1 ≠ name.toList

/-- `proc_t`. A handle that is not valid is none, and `appPrepIt` is the distance from `_app_prep_begin`. -/
structure Proc where
  appId : ℤ
  env : Environment
  apps : List Ctx
  app : Ctx
  appLaunchTime : ℕ
  placebo : Bool
  process : Option ℕ
  processGroup : Option ℕ
  pipe : Option Text
  appPrepIt : ℕ
  deriving DecidableEq

/-- `proc_t (env, apps)`. -/
def Proc.new (env : Environment) (apps : List Ctx) : Proc := ⟨0, env, apps, .empty, 0, false, none, none, none, 0⟩

/-- A command the manager ran, or an app it ended. -/
inductive Entry where
  | doCmd (cmd : PrepCmd)
  | undoCmd (cmd : PrepCmd)
  | detached (cmd : Text)
  | main (cmd : Text)
  | endGroup (group : ℕ)
  | revertDisplay
  deriving DecidableEq

/-- The configuration the manager reads and overrides, with the values it keeps. -/
structure Config (Nv : Type) where
  nv : Nv
  nvPreset : ℤ
  savedNvConfig : Nv
  savedNvPreset : ℤ
  nvPresetOverridden : Bool
  headless : Bool
  headlessCompositor : Bool

structure State (Nv : Type) where
  proc : Proc
  config : Config Nv
  log : List Entry

structure LaunchSession where
  width : ℤ
  height : ℤ
  fps : ℤ
  enableHdr : Bool
  gcmap : ℤ
  hostAudio : Bool
  enableSops : Bool
  surroundInfo : ℕ
  surroundParams : Text

/-! ## Answers -/

/-- What running a command and waiting for it comes to. -/
inductive Ran where
  | notStarted (permissionDenied : Bool)
  | waitFailed
  | exited (code : ℤ)
  deriving DecidableEq

/-- Of the library: what `wait` and `exit_code` come to on a child that was never started, where `wait` may fail,
and its native exit code. -/
structure Library where
  waitNotStarted : Option ℤ
  exitCodeNotStarted : ℤ

/-- The answers to one `execute`: `groupRunning` is for the clean slate, and `main` are the handles of the command
with whether an error was reported. -/
structure Answers where
  groupRunning : Bool
  opened : Bool
  prep : ℕ → Ran
  compositor : Option (Text × Text)
  process : Option ℕ
  processGroup : Option ℕ
  mainFails : Bool
  now : ℕ

structure Observed where
  groupRunning : Bool
  processRunning : Bool
  exitCode : ℤ

section Calls

variable {Nv : Type}

def record (entries : List Entry) (s : State Nv) : State Nv := { s with log := s.log ++ entries }

/-! ## `terminate` -/

/-- The loop from `_app_prep_it` down to `_app_prep_begin`. -/
def undoLoop (prepCmds : List PrepCmd) : ℕ → List Entry
  | 0 => []
  | it + 1 =>
    (match prepCmds[it]? with
      | none => []
      | some cmd => if cmd.undoCmd = [] then [] else [.undoCmd cmd]) ++ undoLoop prepCmds it

/-- The processes of the group are asked to exit if there is time for it, and are ended in any case. -/
def terminateProcessGroup (processGroup : Option ℕ) (groupRunning : Bool) : List Entry :=
  match processGroup with
  | none => []
  | some group => if groupRunning then [.endGroup group] else []

def restorePreset (config : Config Nv) : Config Nv :=
  if config.nvPresetOverridden then
    { config with
      nv := config.savedNvConfig, nvPreset := config.savedNvPreset, nvPresetOverridden := false
      savedNvPreset := -99 }
  else config

def terminate (groupRunning : Bool) (s : State Nv) : State Nv :=
  let ended := terminateProcessGroup s.proc.processGroup groupRunning
  let undone := undoLoop s.proc.app.prepCmds s.proc.appPrepIt
  let reverted := if s.proc.app.name ≠ [] ∧ 0 < s.proc.appId then [.revertDisplay] else []
  { proc :=
      { s.proc with
        placebo := false, process := none, processGroup := none, appPrepIt := 0, pipe := none, appId := -1 }
    config := restorePreset { s.config with headlessCompositor := false }
    log := s.log ++ (ended ++ undone ++ reverted) }

/-! ## `execute` -/

section Execute

variable (lib : Library) (tune : Nv → ℤ → Nv)

/-- Whether the loop goes on behind a do command. -/
def passes (app : Ctx) (ran : Ran) : Bool :=
  match ran with
  | .notStarted permissionDenied => app.cmd = [] && permissionDenied && lib.waitNotStarted = some 0
  | .waitFailed => false
  | .exited code => code = 0

/-- The loop over the prep commands: where the iterator stops, what was run, and whether it came to the end. -/
def prepLoop (app : Ctx) (answer : ℕ → Ran) : ℕ → List PrepCmd → ℕ × List Entry × Bool
  | it, [] => (it, [], true)
  | it, cmd :: rest =>
    if cmd.doCmd = [] then prepLoop app answer (it + 1) rest
    else if passes lib app (answer it) then
      let (it, entries, ended) := prepLoop app answer (it + 1) rest
      (it, .doCmd cmd :: entries, ended)
    else (it, [.doCmd cmd], false)

/-- `apply_nvenc_tuning_preset` is `tune`. -/
def overridePreset (app : Ctx) (config : Config Nv) : Config Nv :=
  if 0 ≤ app.encoderPresetOverride ∧ app.encoderPresetOverride ≤ 2 then
    { config with
      savedNvConfig := config.nv, savedNvPreset := config.nvPreset, nvPreset := app.encoderPresetOverride
      nv := tune config.nv app.encoderPresetOverride, nvPresetOverridden := true }
  else config

def toText (value : ℤ) : Text := (toString value).toList

def flag (value : Bool) : Text := if value then "true".toList else "false".toList

def audioConfiguration (surroundInfo : ℕ) (env : Environment) : Environment :=
  match surroundInfo &&& 65535 with
  | 2 => setEnv "SUNSHINE_CLIENT_AUDIO_CONFIGURATION" "2.0".toList env
  | 6 => setEnv "SUNSHINE_CLIENT_AUDIO_CONFIGURATION" "5.1".toList env
  | 8 => setEnv "SUNSHINE_CLIENT_AUDIO_CONFIGURATION" "7.1".toList env
  | _ => env

def streamEnvironment (appId : ℤ) (app : Ctx) (session : LaunchSession) (env : Environment) : Environment :=
  let env := setEnv "SUNSHINE_APP_ID" (toText appId) env
  let env := setEnv "SUNSHINE_APP_NAME" app.name env
  let env := setEnv "SUNSHINE_CLIENT_WIDTH" (toText session.width) env
  let env := setEnv "SUNSHINE_CLIENT_HEIGHT" (toText session.height) env
  let env := setEnv "SUNSHINE_CLIENT_FPS" (toText session.fps) env
  let env := setEnv "SUNSHINE_CLIENT_HDR" (flag session.enableHdr) env
  let env := setEnv "SUNSHINE_CLIENT_GCMAP" (toText session.gcmap) env
  let env := setEnv "SUNSHINE_CLIENT_HOST_AUDIO" (flag session.hostAudio) env
  let env := setEnv "SUNSHINE_CLIENT_ENABLE_SOPS" (flag session.enableSops) env
  setEnv "SUNSHINE_CLIENT_AUDIO_SURROUND_PARAMS" session.surroundParams (audioConfiguration session.surroundInfo env)

def openPipe (app : Ctx) (opened : Bool) (pipe : Option Text) : Option Text :=
  if app.output ≠ [] ∧ app.output ≠ "null".toList then (if opened then some app.output else none) else pipe

def runMain (answers : Answers) (s : State Nv) : State Nv × Bool :=
  let s := record [.main s.proc.app.cmd]
    { s with proc := { s.proc with process := answers.process, processGroup := answers.processGroup } }
  if answers.mainFails then ({ s with config := { s.config with headlessCompositor := false } }, false)
  else (s, true)

def injectSockets (waylandSocket x11Display : Text) (s : State Nv) : State Nv :=
  let env := if waylandSocket = [] then s.proc.env else setEnv "WAYLAND_DISPLAY" waylandSocket s.proc.env
  let env := if x11Display = [] then env else setEnv "DISPLAY" x11Display env
  { s with proc := { s.proc with env := env }, config := { s.config with headlessCompositor := true } }

/-- The main command of the app, in the headless compositor if that is wanted. -/
def startMain (answers : Answers) (s : State Nv) : State Nv × Bool :=
  if s.proc.app.cmd = [] then ({ s with proc := { s.proc with placebo := true } }, true)
  else if s.config.headless then
    match answers.compositor with
    | none => (s, false)
    | some (waylandSocket, x11Display) => runMain answers (injectSockets waylandSocket x11Display s)
  else runMain answers s

/-- The app is the one to run, and its prep commands have stopped at `it`. -/
def prepare (appId : ℤ) (app : Ctx) (session : LaunchSession) (answers : Answers) (it : ℕ) (entries : List Entry)
    (s : State Nv) : State Nv :=
  { proc :=
      { s.proc with
        appId := appId, app := app, appPrepIt := it, env := streamEnvironment appId app session s.proc.env
        pipe := openPipe app answers.opened s.proc.pipe }
    config := overridePreset tune app s.config
    log := s.log ++ entries }

/-- The detached commands and the main command; the guard terminates what did not start. -/
def startApp (answers : Answers) (s : State Nv) : State Nv × ℤ :=
  match startMain answers (record (s.proc.app.detached.map .detached) s) with
  | (s, false) => (terminate answers.groupRunning s, -1)
  | (s, true) => ({ s with proc := { s.proc with appLaunchTime := answers.now } }, 0)

/-- `execute` behind its clean slate, for the app that was found. -/
def launchApp (appId : ℤ) (app : Ctx) (session : LaunchSession) (answers : Answers) (s : State Nv) :
    State Nv × ℤ :=
  let outcome := prepLoop lib app answers.prep 0 app.prepCmds
  let s := prepare tune appId app session answers outcome.1 outcome.2.1 s
  if outcome.2.2 then startApp answers s else (terminate answers.groupRunning s, -1)

/-- `execute` behind its clean slate. -/
def launch (appId : ℤ) (session : LaunchSession) (answers : Answers) (s : State Nv) : State Nv × ℤ :=
  match s.proc.apps.find? fun app => app.id = toText appId with
  | none => (s, 404)
  | some app => launchApp lib tune appId app session answers s

def execute (appId : ℤ) (session : LaunchSession) (answers : Answers) (s : State Nv) : State Nv × ℤ :=
  launch lib tune appId session answers (terminate answers.groupRunning s)

/-! ## `running` -/

def running (observed : Observed) (s : State Nv) : State Nv × ℤ :=
  if s.proc.placebo then (s, s.proc.appId)
  else if s.proc.app.waitAll ∧ s.proc.processGroup.isSome ∧ observed.groupRunning then (s, s.proc.appId)
  else if s.proc.process.isSome ∧ observed.processRunning then (s, s.proc.appId)
  else if s.proc.app.autoDetach ∧
      (if s.proc.process.isSome then observed.exitCode else lib.exitCodeNotStarted) = 0 then
    ({ s with proc := { s.proc with placebo := true } }, s.proc.appId)
  else if s.proc.process.isSome then (terminate observed.groupRunning s, 0)
  else (s, 0)

/-! ## Calls -/

inductive Call where
  | execute (appId : ℤ) (session : LaunchSession) (answers : Answers)
  | running (observed : Observed)
  | terminate (groupRunning : Bool)

def Call.isExecute : Call → Bool
  | .execute _ _ _ => true
  | _ => false

def step (s : State Nv) : Call → State Nv
  | .execute appId session answers => (execute lib tune appId session answers s).1
  | .running observed => (running lib observed s).1
  | .terminate groupRunning => terminate groupRunning s

/-! ## What is still to be undone

`undone` of the log with `pending` before it is what all undo commands come to once the manager terminates: only
`execute` adds to it. The values of `baseline` are those that come back then: nothing changes them. -/

def Entry.undo? : Entry → Option PrepCmd
  | .undoCmd cmd => some cmd
  | _ => none

/-- The undo commands in a log. -/
def undone (log : List Entry) : List PrepCmd := log.filterMap Entry.undo?

/-- The non-empty undo commands of the steps, in reverse order. -/
def undoOf (steps : List PrepCmd) : List PrepCmd := steps.reverse.filter fun cmd => cmd.undoCmd ≠ []

def pending (proc : Proc) : List PrepCmd := undoOf (proc.app.prepCmds.take proc.appPrepIt)

def balance (s : State Nv) : List PrepCmd := undone s.log ++ pending s.proc

/-- The values of `config::video` without the override of the app. -/
def baseline (config : Config Nv) : Nv × ℤ :=
  if config.nvPresetOverridden then (config.savedNvConfig, config.savedNvPreset) else (config.nv, config.nvPreset)

/-- The prep steps that an `execute` passes. -/
def passedSteps (app : Ctx) (answer : ℕ → Ran) : List PrepCmd :=
  (app.prepCmds.zipIdx.takeWhile fun step => step.1.doCmd = [] ∨ answer step.2 = .exited 0).map Prod.fst

/-- The steps passed by an `execute` of the id, none if there is no such app. -/
def passedBy (appId : ℤ) (answers : Answers) (s : State Nv) : List PrepCmd :=
  match s.proc.apps.find? fun app => app.id = toText appId with
  | none => []
  | some app => passedSteps app answers.prep

@[simp]
theorem undone_append (log entries : List Entry) : undone (log ++ entries) = undone log ++ undone entries :=
  List.filterMap_append

@[simp]
theorem undoOf_nil : undoOf [] = [] := rfl

theorem undoOf_append_singleton (steps : List PrepCmd) (cmd : PrepCmd) :
    undoOf (steps ++ [cmd]) = (if cmd.undoCmd = [] then [] else [cmd]) ++ undoOf steps := by
  rw [undoOf, List.reverse_append, List.reverse_singleton, List.filter_append, ← undoOf]
  by_cases empty : cmd.undoCmd = [] <;> simp [empty]

theorem undone_undoLoop (prepCmds : List PrepCmd) (it : ℕ) :
    undone (undoLoop prepCmds it) = undoOf (prepCmds.take it) := by
  induction it with
  | zero => simp [undoLoop, undone]
  | succ it ih =>
    rw [undoLoop, undone_append, ih, List.take_add_one]
    cases prepCmds[it]? with
    | none => simp [undone]
    | some cmd =>
      rw [Option.toList_some, undoOf_append_singleton]
      by_cases empty : cmd.undoCmd = [] <;> simp [empty, undone, Entry.undo?]

theorem undone_terminateProcessGroup (processGroup : Option ℕ) (groupRunning : Bool) :
    undone (terminateProcessGroup processGroup groupRunning) = [] := by
  cases processGroup <;> cases groupRunning <;> rfl

/-- A termination runs what is pending, and leaves nothing. -/
theorem terminate_undone (groupRunning : Bool) (s : State Nv) :
    undone (terminate groupRunning s).log = balance s := by
  have reverted (shown : Prop) [Decidable shown] :
      undone (if shown then [Entry.revertDisplay] else []) = [] := by
    split <;> rfl
  simp only [terminate, undone_append, undone_undoLoop, undone_terminateProcessGroup, reverted, List.nil_append,
    List.append_nil]
  rfl

@[simp]
theorem terminate_pending (groupRunning : Bool) (s : State Nv) : pending (terminate groupRunning s).proc = [] := by
  simp [terminate, pending]

theorem terminate_balance (groupRunning : Bool) (s : State Nv) :
    balance (terminate groupRunning s) = balance s := by
  rw [balance, terminate_pending, List.append_nil, terminate_undone]

/-- A termination brings the baseline back. -/
theorem terminate_restores (groupRunning : Bool) (s : State Nv) :
    ((terminate groupRunning s).config.nv, (terminate groupRunning s).config.nvPreset) = baseline s.config := by
  by_cases overridden : s.config.nvPresetOverridden <;> simp [terminate, restorePreset, baseline, overridden]

@[simp]
theorem terminate_notOverridden (groupRunning : Bool) (s : State Nv) :
    (terminate groupRunning s).config.nvPresetOverridden = false := by
  by_cases overridden : s.config.nvPresetOverridden <;> simp [terminate, restorePreset, overridden]

theorem terminate_baseline (groupRunning : Bool) (s : State Nv) :
    baseline (terminate groupRunning s).config = baseline s.config := by
  rw [← terminate_restores groupRunning s, baseline, terminate_notOverridden]
  rfl

/-! ## The prep commands -/

theorem passes_eq (waits : lib.waitNotStarted ≠ some 0) (app : Ctx) (ran : Ran) :
    passes lib app ran = decide (ran = .exited 0) := by
  cases ran with
  | notStarted permissionDenied => simp [passes, waits]
  | waitFailed => simp [passes]
  | exited code => simp [passes]

theorem prepLoop_stops (waits : lib.waitNotStarted ≠ some 0) (app : Ctx) (answer : ℕ → Ran) (it : ℕ)
    (cmds : List PrepCmd) :
    (prepLoop lib app answer it cmds).1 =
      it + ((cmds.zipIdx it).takeWhile fun step => step.1.doCmd = [] ∨ answer step.2 = .exited 0).length := by
  induction cmds generalizing it with
  | nil => simp [prepLoop]
  | cons cmd rest ih =>
    rw [prepLoop, List.zipIdx_cons]
    by_cases empty : cmd.doCmd = []
    · rw [if_pos empty, ih, List.takeWhile_cons_of_pos (by simp [empty]), List.length_cons]
      omega
    · rw [if_neg empty, passes_eq lib waits]
      by_cases exited : answer it = .exited 0
      · rw [if_pos (by simpa using exited), List.takeWhile_cons_of_pos (by simp [exited]), List.length_cons]
        simp only [ih]
        omega
      · rw [if_neg (by simpa using exited), List.takeWhile_cons_of_neg (by simp [empty, exited])]
        simp

/-- The iterator stops behind the steps that were passed. -/
theorem take_prepLoop (waits : lib.waitNotStarted ≠ some 0) (app : Ctx) (answer : ℕ → Ran) :
    app.prepCmds.take (prepLoop lib app answer 0 app.prepCmds).1 = passedSteps app answer := by
  have front := List.prefix_iff_eq_take.mp
    ((app.prepCmds.zipIdx.takeWhile_prefix fun step => step.1.doCmd = [] ∨ answer step.2 = .exited 0).map Prod.fst)
  rw [List.zipIdx_map_fst, List.length_map] at front
  rw [prepLoop_stops lib waits, Nat.zero_add]
  exact front.symm

theorem undone_prepLoop (app : Ctx) (answer : ℕ → Ran) (it : ℕ) (cmds : List PrepCmd) :
    undone (prepLoop lib app answer it cmds).2.1 = [] := by
  induction cmds generalizing it with
  | nil => rfl
  | cons cmd rest ih =>
    rw [prepLoop]
    by_cases empty : cmd.doCmd = []
    · rw [if_pos empty, ih]
    · rw [if_neg empty]
      by_cases passed : passes lib app (answer it)
      · rw [if_pos passed]
        exact ih (it + 1)
      · rw [if_neg passed]
        rfl

/-! ## Calls -/

theorem baseline_overridePreset (app : Ctx) (config : Config Nv) (resting : config.nvPresetOverridden = false) :
    baseline (overridePreset tune app config) = baseline config := by
  by_cases overrides : 0 ≤ app.encoderPresetOverride ∧ app.encoderPresetOverride ≤ 2 <;>
    simp [overridePreset, overrides, baseline, resting]

theorem balance_record (entries : List Entry) (quiet : undone entries = []) (s : State Nv) :
    balance (record entries s) = balance s := by
  simp only [balance, record, undone_append, quiet, List.append_nil]

theorem runMain_keeps (answers : Answers) (s : State Nv) :
    balance (runMain answers s).1 = balance s ∧ baseline (runMain answers s).1.config = baseline s.config := by
  rw [runMain]
  split <;> exact ⟨balance_record [.main s.proc.app.cmd] rfl s, rfl⟩

/-- The main command has no part in the prep commands and in the override. -/
theorem startMain_keeps (answers : Answers) (s : State Nv) :
    balance (startMain answers s).1 = balance s ∧ baseline (startMain answers s).1.config = baseline s.config := by
  rw [startMain]
  split
  · exact ⟨rfl, rfl⟩
  · split
    · cases answers.compositor with
      | none => exact ⟨rfl, rfl⟩
      | some sockets => exact runMain_keeps answers (injectSockets sockets.1 sockets.2 s)
    · exact runMain_keeps answers s

theorem startApp_keeps (answers : Answers) (s : State Nv) :
    balance (startApp answers s).1 = balance s ∧ baseline (startApp answers s).1.config = baseline s.config := by
  have main := startMain_keeps answers (record (s.proc.app.detached.map .detached) s)
  rw [balance_record _ (by simp [undone, Entry.undo?])] at main
  rw [startApp]
  generalize startMain answers (record (s.proc.app.detached.map .detached) s) = started at main ⊢
  obtain ⟨ended, success⟩ := started
  cases success with
  | false => exact ⟨(terminate_balance _ ended).trans main.1, (terminate_baseline _ ended).trans main.2⟩
  | true => exact main

theorem prepare_balance (waits : lib.waitNotStarted ≠ some 0) (appId : ℤ) (app : Ctx) (session : LaunchSession)
    (answers : Answers) (s : State Nv) :
    balance (prepare tune appId app session answers (prepLoop lib app answers.prep 0 app.prepCmds).1
      (prepLoop lib app answers.prep 0 app.prepCmds).2.1 s) =
      undone s.log ++ undoOf (passedSteps app answers.prep) := by
  simp only [balance, prepare, pending, undone_append, undone_prepLoop, List.append_nil, take_prepLoop lib waits]

theorem launchApp_keeps (waits : lib.waitNotStarted ≠ some 0) (appId : ℤ) (app : Ctx) (session : LaunchSession)
    (answers : Answers) (s : State Nv) (resting : s.config.nvPresetOverridden = false) :
    balance (launchApp lib tune appId app session answers s).1 =
        undone s.log ++ undoOf (passedSteps app answers.prep) ∧
      baseline (launchApp lib tune appId app session answers s).1.config = baseline s.config := by
  have prepared := prepare_balance lib tune waits appId app session answers s
  have kept := baseline_overridePreset tune app s.config resting
  rw [launchApp, ← prepared, ← kept]
  split
  · exact startApp_keeps answers _
  · exact ⟨terminate_balance _ _, terminate_baseline _ _⟩

theorem launch_keeps (waits : lib.waitNotStarted ≠ some 0) (appId : ℤ) (session : LaunchSession) (answers : Answers)
    (s : State Nv) (resting : s.config.nvPresetOverridden = false) (idle : pending s.proc = []) :
    balance (launch lib tune appId session answers s).1 = undone s.log ++ undoOf (passedBy appId answers s) ∧
      baseline (launch lib tune appId session answers s).1.config = baseline s.config := by
  rw [launch, passedBy]
  cases s.proc.apps.find? fun app => app.id = toText appId with
  | none => exact ⟨by simp [balance, idle], rfl⟩
  | some app => exact launchApp_keeps lib tune waits appId app session answers s resting

theorem running_keeps (observed : Observed) (s : State Nv) :
    balance (running lib observed s).1 = balance s ∧ baseline (running lib observed s).1.config = baseline s.config := by
  rw [running]
  split_ifs <;> first | exact ⟨rfl, rfl⟩ | exact ⟨terminate_balance _ _, terminate_baseline _ _⟩

/-- One call: only an `execute` adds to the balance, and no call changes the baseline. -/
theorem step_keeps (call : Call) (quiet : call.isExecute = false) (s : State Nv) :
    balance (step lib tune s call) = balance s ∧ baseline (step lib tune s call).config = baseline s.config := by
  cases call with
  | execute appId session answers => cases quiet
  | running observed => exact running_keeps lib observed s
  | terminate groupRunning => exact ⟨terminate_balance groupRunning s, terminate_baseline groupRunning s⟩

/-- A run without `execute`. -/
theorem run_keeps (s : State Nv) (calls : List Call) (quiet : ∀ call ∈ calls, call.isExecute = false) :
    balance (calls.foldl (step lib tune) s) = balance s ∧
      baseline (calls.foldl (step lib tune) s).config = baseline s.config := by
  induction calls generalizing s with
  | nil => exact ⟨rfl, rfl⟩
  | cons call calls ih =>
    have first := step_keeps lib tune call (quiet call (by simp)) s
    have rest := ih (step lib tune s call) fun later mem => quiet later (by simp [mem])
    exact ⟨rest.1.trans first.1, rest.2.trans first.2⟩

/-- From one `execute` to the termination at the start of the next, or any other one. -/
theorem undo_balanced (waits : lib.waitNotStarted ≠ some 0) (s : State Nv) (appId : ℤ) (session : LaunchSession)
    (answers : Answers) (calls : List Call) (quiet : ∀ call ∈ calls, call.isExecute = false) (groupRunning : Bool) :
    let started := terminate answers.groupRunning s
    let ended := terminate groupRunning
      (calls.foldl (step lib tune) (execute lib tune appId session answers s).1)
    undone ended.log = undone started.log ++ undoOf (passedBy appId answers s) ∧
      ended.config.nv = started.config.nv ∧ ended.config.nvPreset = started.config.nvPreset ∧
      (s.config.nvPresetOverridden = false →
        ended.config.nv = s.config.nv ∧ ended.config.nvPreset = s.config.nvPreset) := by
  intro started ended
  have launched := launch_keeps lib tune waits appId session answers started
    (terminate_notOverridden answers.groupRunning s) (terminate_pending answers.groupRunning s)
  have run := run_keeps lib tune (execute lib tune appId session answers s).1 calls quiet
  have undoneAll : undone ended.log = undone started.log ++ undoOf (passedBy appId answers s) := by
    rw [terminate_undone, run.1]
    exact launched.1
  have restored : (ended.config.nv, ended.config.nvPreset) = (started.config.nv, started.config.nvPreset) := by
    rw [terminate_restores groupRunning, terminate_restores answers.groupRunning, run.2]
    exact launched.2.trans (terminate_baseline answers.groupRunning s)
  refine ⟨undoneAll, congrArg Prod.fst restored, congrArg Prod.snd restored, fun resting => ?_⟩
  have before := terminate_restores answers.groupRunning s
  rw [baseline, resting] at before
  have kept := restored.trans before
  exact ⟨congrArg Prod.fst kept, congrArg Prod.snd kept⟩

end Execute

end Calls

/-! ## Two apps -/

namespace TwoApps

def cmd (doCmd undoCmd : Char) : PrepCmd := ⟨[doCmd], [undoCmd], false⟩

/-- Three prep commands and an override. -/
def first : Ctx := { Ctx.empty with
  id := ['1'], cmd := ['g'], encoderPresetOverride := 2
  prepCmds := [cmd 'a' 'x', ⟨[], ['y'], false⟩, cmd 'c' 'z'] }

def second : Ctx := { Ctx.empty with id := ['2'] }

def session : LaunchSession := ⟨1920, 1080, 60, false, 0, false, false, 2, []⟩

/-- The third prep command fails if `fails`. -/
def answers (fails : Bool) : Answers :=
  ⟨true, true, fun it => .exited (if it = 2 ∧ fails then 1 else 0), none, some 7, some 7, false, 0⟩

def initial : State ℤ := ⟨.new [] [first, second], ⟨5, 1, 0, -99, false, false, false⟩, []⟩

def lib : Library := ⟨none, 383⟩

def tune (_ preset : ℤ) : ℤ := 10 * preset

end TwoApps

open TwoApps in
theorem undo_balanced_twoApps :
    let ended := terminate true
      ((execute lib tune 1 session (answers true) initial).1)
    undone ended.log = [⟨[], ['y'], false⟩, cmd 'a' 'x'] ∧ ended.config.nv = 5 ∧ ended.config.nvPreset = 1 := by
  have balanced := undo_balanced lib tune (by decide) initial 1 session (answers true) [] (by simp) true
  exact ⟨balanced.1.trans (by decide), balanced.2.1, balanced.2.2.1⟩

/-- An app with an override is followed by one without: the values before the second `execute` are those of the
override, and its termination brings back those below it. -/
theorem override_notKept : open TwoApps in
    let overridden := (execute lib tune 1 session (answers false) initial).1
    let ended := terminate true (execute lib tune 2 session (answers false) overridden).1
    (overridden.config.nv, overridden.config.nvPreset) = (20, 2) ∧
      (ended.config.nv, ended.config.nvPreset) = (5, 1) := by
  decide

end Sunshine.Process
