import Mathlib.Data.Int.Notation
import Mathlib.Data.List.Infix

/-! `compositor_t`: the headless display an app is started in, with its four backends.

What the system answers is an input of `start`. The process of labwc or gamescope runs from its fork on, until `stop`
ends its group; `krfb-virtualmonitor` has exited when `start` returns, and niri is the session's own. -/
namespace Sunshine.HeadlessCompositor
set_option autoImplicit false

abbrev Text := List Char

inductive Backend
  | autoDetect
  | labwc
  | krfb
  | gamescope
  | niri
deriving DecidableEq

/-- What running `krfb-virtualmonitor` and waiting for it comes to. -/
inductive Krfb
  | notStarted
  | waitFailed
  | exited (code : ℤ)

/-- The environment and what the calls of `start` find. `execs` says whether the forked child becomes the compositor,
and `launches` whether gamescope, having become it, starts the command it is given. -/
structure Host where
  currentDesktop : Option Text
  sessionDesktop : Option Text
  waylandDisplay : Option Text
  installed : Text → Bool
  krfb : Krfb
  niriOutputs : Option (List Text)
  runtimeDir : Text
  fork : Option ℕ
  execs : Bool
  launches : Bool
  newSocket : Option Text
  outputReady : Bool
  newDisplay : Option Text

/-- `compositor_t`, with the commands that run in the compositor's process group. -/
structure Compositor where
  backend : Backend
  usingKrfb : Bool
  usingGamescope : Bool
  usingNiri : Bool
  pid : Option ℕ
  waylandSocket : Text
  x11Display : Text
  outputName : Text
  commands : List Text

def Compositor.new (backend : Backend) : Compositor :=
  ⟨backend, false, false, false, none, [], [], [], []⟩

/-! ## The backend -/

def isKwinRunning (host : Host) : Bool :=
  host.currentDesktop.any fun desktop => "KDE".toList <:+: desktop ∨ "plasma".toList <:+: desktop

def isGamescopeRunning (host : Host) : Bool :=
  host.currentDesktop = some "gamescope".toList ∨ host.waylandDisplay.any fun display => "gamescope".toList <:+: display

def isNiriRunning (host : Host) : Bool :=
  host.currentDesktop = some "niri".toList ∨ host.sessionDesktop = some "niri".toList

def resolveBackend (host : Host) (backend : Backend) : Backend :=
  match backend with
  | .autoDetect =>
    if isKwinRunning host ∧ host.installed "krfb-virtualmonitor".toList then .krfb
    else if isNiriRunning host then .niri
    else if isGamescopeRunning host then .gamescope
    else .labwc
  | backend => backend

/-! ## Stopping -/

/-- The process group is sent `SIGTERM`, and `SIGKILL` if its leader does not end. -/
def stopGroup (c : Compositor) : Compositor :=
  match c.pid with
  | none => c
  | some _ => { c with pid := none, commands := [] }

def stopKrfb (c : Compositor) : Compositor := { c with outputName := [] }

def stopNiri (c : Compositor) : Compositor :=
  if c.usingNiri then { c with usingNiri := false, outputName := [], waylandSocket := [] } else c

def stop (c : Compositor) : Compositor :=
  if c.usingKrfb then stopKrfb c
  else if c.usingGamescope then stopGroup c
  else if c.usingNiri then stopNiri c
  else stopGroup c

/-! ## Starting -/

def startKrfb (host : Host) (c : Compositor) : Compositor × Bool :=
  if host.installed "krfb-virtualmonitor".toList then
    ({ c with outputName := "SolarFlare-Headless".toList },
      match host.krfb with
      | .exited code => code = 0
      | _ => false)
  else (c, false)

/-- The line from the first place of a text on. -/
def findText (text line : Text) : Option Text :=
  line.tails.find? text.isPrefixOf

/-- The name of a virtual output in a line of the reply. -/
def virtualOutput (line : Text) : Option Text := do
  let named ← findText "\"name\"".toList line
  let value ← findText [':'] named
  let quoted ← findText ['"'] value
  let _ ← findText ['"'] quoted.tail
  if quoted.tail.take 8 = "Virtual-".toList then some (quoted.tail.takeWhile (· ≠ '"')) else none

def attachNiri (host : Host) (outputName : Text) (c : Compositor) : Compositor :=
  { c with
    outputName := outputName
    waylandSocket := host.waylandDisplay.getD "wayland-1".toList
    usingNiri := true }

def startNiri (host : Host) (width height : ℤ) (c : Compositor) : Compositor × Bool :=
  if width ≤ 0 ∨ height ≤ 0 then (c, false)
  else if isNiriRunning host ∧ host.installed "niri".toList then
    match host.niriOutputs with
    | none => (attachNiri host "Virtual-1".toList c, true)
    | some lines =>
      match (lines.filterMap virtualOutput).getLast? with
      | none => (c, false)
      | some outputName => (attachNiri host outputName c, true)
  else (c, false)

def discover (host : Host) (c : Compositor) : Compositor × Bool :=
  match host.newSocket with
  | none => (stop c, false)
  | some socket => ({ c with waylandSocket := host.runtimeDir ++ '/' :: socket }, true)

/-- Gamescope is given the command, to run it in its display. -/
def startGamescope (host : Host) (gameCmd : Text) (c : Compositor) : Compositor × Bool :=
  if host.installed "gamescope".toList then
    let c := { c with outputName := "HEADLESS-1".toList }
    if host.runtimeDir = [] then (c, false)
    else
      match host.fork with
      | none => (c, false)
      | some pid =>
        discover host
          { c with pid := some pid, commands := if host.execs ∧ host.launches then [gameCmd] else [] }
  else (c, false)

def awaitOutput (host : Host) (c : Compositor) : Compositor × Bool :=
  if host.outputReady then ({ c with x11Display := host.newDisplay.elim [] fun name => ':' :: name.tail }, true)
  else (stop c, false)

/-- Labwc is not given the command. -/
def startLabwc (host : Host) (width height : ℤ) (_gameCmd : Text) (c : Compositor) : Compositor × Bool :=
  if width ≤ 0 ∨ height ≤ 0 then (c, false)
  else if host.installed "labwc".toList ∧ host.installed "wlr-randr".toList ∧ host.runtimeDir ≠ [] then
    match host.fork with
    | none => (c, false)
    | some pid =>
      match discover host { c with pid := some pid } with
      | (c, false) => (c, false)
      | (c, true) => awaitOutput host c
  else (c, false)

def start (host : Host) (width height : ℤ) (gameCmd : Text) (c : Compositor) : Compositor × Bool :=
  match resolveBackend host c.backend with
  | .krfb => startKrfb host { c with usingKrfb := true }
  | .gamescope => startGamescope host gameCmd { c with usingGamescope := true }
  | .niri => startNiri host width height { c with usingNiri := true }
  | _ => startLabwc host width height gameCmd c

def wrapCmd (c : Compositor) (gameCmd : Text) : Text :=
  if c.usingKrfb ∨ c.waylandSocket = [] then gameCmd
  else
    "WAYLAND_DISPLAY=".toList ++ c.waylandSocket ++ ' ' ::
      ((if c.x11Display = [] then [] else "DISPLAY=".toList ++ c.x11Display ++ [' ']) ++ gameCmd)

/-! ## What starting leaves -/

/-- The compositor is gamescope, and comes up and starts the command. -/
def Nested (host : Host) (backend : Backend) : Prop :=
  resolveBackend host backend = .gamescope ∧ host.installed "gamescope".toList = true ∧ host.runtimeDir ≠ [] ∧
    host.fork.isSome = true ∧ host.execs = true ∧ host.launches = true ∧ host.newSocket.isSome = true

instance (host : Host) (backend : Backend) : Decidable (Nested host backend) := inferInstanceAs (Decidable (_ ∧ _))

/-- Nothing runs. -/
def Idle (c : Compositor) : Prop := c.pid = none ∧ c.commands = []

variable {host : Host} {c : Compositor} {width height : ℤ} {gameCmd : Text}

theorem stopGroup_idle (h : c.pid = none → c.commands = []) : Idle (stopGroup c) := by
  unfold stopGroup
  split
  case _ hpid => exact ⟨hpid, h hpid⟩
  case _ => exact ⟨rfl, rfl⟩

/-- Only what has a process group of its own has commands in it. -/
structure Kept (c : Compositor) : Prop where
  attached : c.usingKrfb = true ∨ (c.usingNiri = true ∧ c.usingGamescope = false) → c.pid = none
  commands : c.pid = none → c.commands = []

theorem stop_idle (h : Kept c) : Idle (stop c) := by
  unfold stop
  split_ifs with hkrfb hgamescope hniri
  · exact ⟨h.attached (.inl hkrfb), h.commands (h.attached (.inl hkrfb))⟩
  · exact stopGroup_idle h.commands
  · have hpid := h.attached (.inr ⟨hniri, eq_false_of_ne_true hgamescope⟩)
    unfold stopNiri
    split_ifs
    exact ⟨hpid, h.commands hpid⟩
  · exact stopGroup_idle h.commands

theorem startKrfb_idle (h : Idle c) : Idle (startKrfb host c).1 := by
  unfold startKrfb
  split_ifs <;> exact h

theorem startNiri_idle (h : Idle c) : Idle (startNiri host width height c).1 := by
  unfold startNiri
  split_ifs
  · exact h
  · cases host.niriOutputs with
    | none => exact h
    | some lines =>
      dsimp only
      cases (lines.filterMap virtualOutput).getLast? with
      | none => exact h
      | some outputName => exact h
  · exact h

/-- What has failed runs nothing, and only gamescope starts the command. -/
structure Came (nested : Prop) [Decidable nested] (gameCmd : Text) (outcome : Compositor × Bool) : Prop where
  kept : Kept outcome.1
  idle : outcome.2 = false → Idle outcome.1
  commands : outcome.2 = true → outcome.1.commands = if nested then [gameCmd] else []
  comes : nested → outcome.2 = true

/-- A backend that attaches to what runs already. -/
theorem came_attached {nested : Prop} [Decidable nested] {outcome : Compositor × Bool} (hnested : ¬nested)
    (hidle : Idle outcome.1) : Came nested gameCmd outcome where
  kept := ⟨fun _ => hidle.1, fun _ => hidle.2⟩
  idle := fun _ => hidle
  commands := fun _ => by
    rw [if_neg hnested]
    exact hidle.2
  comes := fun hyes => absurd hyes hnested

/-- A process group that has not come up is stopped. -/
theorem came_stop {nested : Prop} [Decidable nested] (hnested : ¬nested) (hkept : Kept c) :
    Came nested gameCmd (stop c, false) where
  kept := ⟨fun _ => (stop_idle hkept).1, fun _ => (stop_idle hkept).2⟩
  idle := fun _ => stop_idle hkept
  commands := nofun
  comes := fun hyes => absurd hyes hnested

theorem startGamescope_came (hresolve : resolveBackend host c.backend = .gamescope) (hidle : Idle c)
    (hkrfb : c.usingKrfb = false) (hgamescope : c.usingGamescope = true) :
    Came (Nested host c.backend) gameCmd (startGamescope host gameCmd c) := by
  unfold startGamescope
  by_cases hfound : host.installed "gamescope".toList = true
  · rw [if_pos hfound]
    dsimp only
    by_cases hdir : host.runtimeDir = []
    · rw [if_pos hdir]
      exact came_attached (fun hnested => hnested.2.2.1 hdir) hidle
    · rw [if_neg hdir]
      cases hfork : host.fork with
      | none =>
        refine came_attached (fun hnested => ?_) hidle
        rw [Nested, hfork] at hnested
        exact Bool.false_ne_true hnested.2.2.2.1
      | some pid =>
        dsimp only
        have hkept (commands : List Text) :
            Kept { c with outputName := "HEADLESS-1".toList, pid := some pid, commands := commands } :=
          ⟨by simp [hkrfb, hgamescope], nofun⟩
        unfold discover
        cases hsocket : host.newSocket with
        | none =>
          refine came_stop (fun hnested => ?_) (hkept _)
          rw [Nested, hsocket] at hnested
          exact Bool.false_ne_true hnested.2.2.2.2.2.2
        | some socket =>
          have hlaunches : host.execs = true ∧ host.launches = true ↔ Nested host c.backend := by
            refine ⟨fun hboth => ⟨hresolve, hfound, hdir, ?_, hboth.1, hboth.2, ?_⟩, fun hnested => ?_⟩
            · rw [hfork]
              rfl
            · rw [hsocket]
              rfl
            · exact ⟨hnested.2.2.2.2.1, hnested.2.2.2.2.2.1⟩
          refine ⟨⟨(hkept []).attached, nofun⟩, nofun, fun _ => ?_, fun _ => rfl⟩
          exact if_congr hlaunches rfl rfl
  · rw [if_neg hfound]
    exact came_attached (fun hnested => hfound hnested.2.1) hidle

theorem startLabwc_came {nested : Prop} [Decidable nested] (hnested : ¬nested) (hidle : Idle c)
    (hattached : c.usingKrfb = false ∧ c.usingNiri = false) :
    Came nested gameCmd (startLabwc host width height gameCmd c) := by
  have hkept (pid : ℕ) (waylandSocket : Text) : Kept { c with pid := some pid, waylandSocket := waylandSocket } :=
    ⟨by simp [hattached.1, hattached.2], nofun⟩
  unfold startLabwc
  split_ifs
  · exact came_attached hnested hidle
  · cases host.fork with
    | none => exact came_attached hnested hidle
    | some pid =>
      dsimp only
      unfold discover
      cases host.newSocket with
      | none => exact came_stop hnested (hkept pid _)
      | some socket =>
        dsimp only
        unfold awaitOutput
        split_ifs
        · refine ⟨⟨(hkept pid []).attached, nofun⟩, nofun, fun _ => ?_, fun _ => rfl⟩
          rw [if_neg hnested]
          exact hidle.2
        · exact came_stop hnested (hkept pid _)
  · exact came_attached hnested hidle

theorem start_came (backend : Backend) :
    Came (Nested host backend) gameCmd (start host width height gameCmd (.new backend)) := by
  have hidle : Idle (.new backend) := ⟨rfl, rfl⟩
  have hother {resolved : Backend} (hresolve : resolveBackend host backend = resolved) (hne : resolved ≠ .gamescope) :
      ¬Nested host backend := fun hnested => hne (hresolve.symm.trans hnested.1)
  unfold start
  cases hresolve : resolveBackend host (Compositor.new backend).backend with
  | krfb => exact came_attached (hother hresolve (by decide)) (startKrfb_idle hidle)
  | gamescope =>
    exact startGamescope_came (c := { Compositor.new backend with usingGamescope := true }) hresolve hidle rfl rfl
  | niri => exact came_attached (hother hresolve (by decide)) (startNiri_idle hidle)
  | labwc => exact startLabwc_came (hother hresolve (by decide)) hidle ⟨rfl, rfl⟩
  | autoDetect => exact startLabwc_came (hother hresolve (by decide)) hidle ⟨rfl, rfl⟩

end Sunshine.HeadlessCompositor
