import Sunshine.Input.Batch
import Sunshine.Lib.Transitions

/-! `input::reset` beside the drains and the delayed tasks of the input queue.

The control thread queues packets and resets once; one worker runs the tasks, immediate ones first, then any
timer that is due. What is reported to the platform is recorded, and `pressed` says what it leaves pressed. -/
namespace Sunshine.Reset
open Batching Coalesce Transitions
open scoped List
set_option autoImplicit false

/-! ## Keys and buttons -/

/-- The constants of the protocol's header; `mouse_press` has an entry for either button. -/
structure Limelight where
  buttonLeft : UInt8
  buttonRight : UInt8
  modifierShift : UInt8
  modifierCtrl : UInt8
  modifierAlt : UInt8
  left : 0 < buttonLeft ∧ buttonLeft < 5
  right : 0 < buttonRight ∧ buttonRight < 5

structure Config where
  mouse : Bool
  keyboard : Bool
  keybindings : List (ℤ × ℤ)
  keyRepeatDelay : ℤ
  keyRightaltToKeyWin : Bool

def vkeyShift : UInt16 := 0x10
def vkeyLShift : UInt16 := 0xA0
def vkeyRShift : UInt16 := 0xA1
def vkeyControl : UInt16 := 0x11
def vkeyLControl : UInt16 := 0xA2
def vkeyRControl : UInt16 := 0xA3
def vkeyMenu : UInt16 := 0x12
def vkeyLMenu : UInt16 := 0xA4
def vkeyRMenu : UInt16 := 0xA5

def makeKpid (vk : UInt16) (flags : UInt8) : ℕ := vk.toNat <<< 8 ||| flags.toNat

def vkFromKpid (kpid : ℕ) : UInt16 := UInt16.ofNat (kpid >>> 8)

def flagsFromKpid (kpid : ℕ) : UInt8 := UInt8.ofNat (kpid &&& 0xFF)

theorem vkFromKpid_makeKpid (vk : UInt16) (flags : UInt8) : vkFromKpid (makeKpid vk flags) = vk := by
  have hflags : flags.toNat >>> 8 = 0 := by
    rw [Nat.shiftRight_eq_div_pow]
    exact Nat.div_eq_of_lt flags.toNat_lt
  have hvk : (vk.toNat <<< 8) >>> 8 = vk.toNat := Nat.shiftLeft_shiftRight _ _
  unfold vkFromKpid makeKpid
  rw [Nat.shiftRight_or_distrib, hflags, hvk, Nat.or_zero]
  exact UInt16.ofNat_toNat

def mapKeycode (config : Config) (keycode : UInt16) : UInt16 :=
  match config.keybindings.lookup keycode.toInt16.toInt with
  | some code => UInt16.ofInt code
  | none => keycode

structure ShortcutFlags where
  ctrl : Bool
  alt : Bool
  shift : Bool
  deriving DecidableEq

/-- The keys with a shortcut: F1 to F13, and N. -/
def applyShortcut (keyCode : UInt16) : Bool := (0x70 ≤ keyCode && keyCode ≤ 0x7C) || keyCode == 0x4E

def updateShortcutFlags (flags : ShortcutFlags) (keyCode : UInt16) (release : Bool) : ShortcutFlags :=
  if keyCode = vkeyShift ∨ keyCode = vkeyLShift ∨ keyCode = vkeyRShift then { flags with shift := !release }
  else if keyCode = vkeyControl ∨ keyCode = vkeyLControl ∨ keyCode = vkeyRControl then
    { flags with ctrl := !release }
  else if keyCode = vkeyMenu ∨ keyCode = vkeyLMenu ∨ keyCode = vkeyRMenu then { flags with alt := !release }
  else flags

def isModifier (keyCode : UInt16) : Bool :=
  keyCode ∈ [vkeyShift, vkeyLShift, vkeyRShift, vkeyControl, vkeyLControl, vkeyRControl, vkeyMenu, vkeyLMenu,
    vkeyRMenu]

/-- What is reported to the platform about keys and buttons. -/
inductive Report where
  | keyboardUpdate (modcode : UInt16) (release : Bool) (flags : UInt8)
  | buttonMouse (button : UInt8) (release : Bool)
  deriving DecidableEq

def sendKeyAndModifiers (limelight : Limelight) (config : Config) (keyCode : UInt16) (release : Bool)
    (flags syntheticModifiers : UInt8) : List Report :=
  let modifiers := [(limelight.modifierShift, vkeyShift), (limelight.modifierCtrl, vkeyControl),
    (limelight.modifierAlt, vkeyMenu)].filter fun m => syntheticModifiers &&& m.1 ≠ 0
  (if release then [] else modifiers.map fun m => .keyboardUpdate m.2 false flags) ++
    [.keyboardUpdate (mapKeycode config keyCode) release flags] ++
    (if release then [] else modifiers.map fun m => .keyboardUpdate m.2 true flags)

/-! ## Tasks -/

/-- `mouse_left_button_timeout`: null, `0x01` or a task. -/
inductive Timeout where
  | enableLeftButtonDelay
  | disableLeftButtonDelay
  | task (id : ℕ)
  deriving DecidableEq

inductive Task where
  | drain
  | reset
  deriving DecidableEq

inductive Timer where
  | leftRelease
  | repeatKey (keyCode : UInt16) (flags syntheticModifiers : UInt8)
  | drain
  deriving DecidableEq

/-- `keyPress` holds the keys whose entry is true, and `running` the messages the running drain has handled.
`reports` and `buttons` record what was reported and the button packets that were handled. -/
structure State where
  inputQueue : List Packet
  inputDrainPending : Bool
  running : Option ℕ
  tasks : List Task
  timers : List (ℕ × Timer)
  shortcutFlags : ShortcutFlags
  leftAltPressed : Bool
  rightAltPressed : Bool
  mouseLeftButtonTimeout : Timeout
  keyPressRepeatId : Option ℕ
  keyPress : List ℕ
  mousePress : UInt8 → Bool
  reports : List Report
  buttons : List MouseButton
  resetCalled : Bool
  resetRan : Bool

def initial : State :=
  { inputQueue := [], inputDrainPending := false, running := none, tasks := [], timers := []
    shortcutFlags := ⟨false, false, false⟩, leftAltPressed := false, rightAltPressed := false
    mouseLeftButtonTimeout := .enableLeftButtonDelay, keyPressRepeatId := none
    keyPress := [], mousePress := fun _ => false, reports := [], buttons := []
    resetCalled := false, resetRan := false }

def cancel (id : ℕ) (s : State) : State := { s with timers := s.timers.filter (·.1 ≠ id) }

def report (reports : List Report) (s : State) : State := { s with reports := s.reports ++ reports }

/-- The entries of `mouse_press`; entry 0 is not used. -/
def tracked (button : UInt8) : Bool := 0 < button && button < 5

section Handlers

variable (limelight : Limelight) (config : Config)

def passthroughRelMouseMove (s : State) : State :=
  if config.mouse then { s with mouseLeftButtonTimeout := .disableLeftButtonDelay } else s

def passthroughAbsMouseMove (s : State) : State :=
  if config.mouse ∧ s.mouseLeftButtonTimeout = .disableLeftButtonDelay then
    { s with mouseLeftButtonTimeout := .enableLeftButtonDelay }
  else s

/-- What a button does behind the check of its state; `id` is the task it may push. -/
def sendButton (id : ℕ) (packet : MouseButton) (s : State) : State :=
  if packet.button = limelight.buttonLeft ∧ packet.release ∧
      s.mouseLeftButtonTimeout = .enableLeftButtonDelay then
    { s with timers := (id, .leftRelease) :: s.timers, mouseLeftButtonTimeout := .task id }
  else if packet.button = limelight.buttonRight ∧ !packet.release ∧
      s.mouseLeftButtonTimeout ≠ .enableLeftButtonDelay ∧
      s.mouseLeftButtonTimeout ≠ .disableLeftButtonDelay then
    { report [.buttonMouse limelight.buttonRight false, .buttonMouse limelight.buttonRight true] s with
      mousePress := Function.update s.mousePress limelight.buttonRight false }
  else report [.buttonMouse packet.button packet.release] s

def passthroughMouseButton (id : ℕ) (packet : MouseButton) (s : State) : State :=
  if config.mouse then
    let s := { s with buttons := s.buttons ++ [packet] }
    if tracked packet.button then
      if s.mousePress packet.button ≠ packet.release then s
      else sendButton limelight id packet
        { s with mousePress := Function.update s.mousePress packet.button (!packet.release) }
    else sendButton limelight id packet s
  else s

/-- Runs 10 ms after the left button was released. -/
def releaseLeft (s : State) : State :=
  if s.mousePress limelight.buttonLeft then s
  else
    { report [.buttonMouse limelight.buttonLeft true] s with
      mousePress := Function.update s.mousePress limelight.buttonLeft false
      mouseLeftButtonTimeout := .enableLeftButtonDelay }

def repeatKey (id : ℕ) (keyCode : UInt16) (flags syntheticModifiers : UInt8) (s : State) : State :=
  if makeKpid keyCode flags ∈ s.keyPress then
    { report (sendKeyAndModifiers limelight config keyCode false flags syntheticModifiers) s with
      timers := (id, .repeatKey keyCode flags syntheticModifiers) :: s.timers
      keyPressRepeatId := some id }
  else { s with keyPressRepeatId := none }

def updateAlt (keyCode : UInt16) (release : Bool) (s : State) : State :=
  if keyCode = vkeyLMenu then { s with leftAltPressed := !release }
  else if keyCode = vkeyRMenu then { s with rightAltPressed := !release }
  else s

/-- The modifiers that a packet asks for and that are not pressed. -/
def syntheticModifiers (packet : Keyboard) (keyCode : UInt16) (s : State) : UInt8 :=
  let modifiers :=
    if config.keyRightaltToKeyWin ∧ s.rightAltPressed ∧ !s.leftAltPressed then
      packet.modifiers &&& ~~~limelight.modifierAlt
    else packet.modifiers
  if packet.release ∨ isModifier keyCode then 0
  else
    (if !s.shortcutFlags.shift ∧ modifiers &&& limelight.modifierShift ≠ 0 then limelight.modifierShift
      else 0) |||
    (if !s.shortcutFlags.ctrl ∧ modifiers &&& limelight.modifierCtrl ≠ 0 then limelight.modifierCtrl else 0) |||
    (if !s.shortcutFlags.alt ∧ modifiers &&& limelight.modifierAlt ≠ 0 then limelight.modifierAlt else 0)

def cancelRepeat (s : State) : State :=
  match s.keyPressRepeatId with
  | some id => cancel id s
  | none => s

/-- A new key ends the repetition of the one before it. -/
def scheduleRepeat (id : ℕ) (keyCode : UInt16) (flags synthetic : UInt8) (s : State) : State :=
  if 0 < config.keyRepeatDelay then
    { cancelRepeat s with
      timers := (id, .repeatKey keyCode flags synthetic) :: (cancelRepeat s).timers
      keyPressRepeatId := some id }
  else cancelRepeat s

def sendKey (packet : Keyboard) (keyCode : UInt16) (synthetic : UInt8) (s : State) : State :=
  { report (sendKeyAndModifiers limelight config keyCode packet.release packet.flags synthetic) s with
    shortcutFlags := updateShortcutFlags s.shortcutFlags (mapKeycode config keyCode) packet.release }

def passthroughKeyboard (id : ℕ) (packet : Keyboard) (s : State) : State :=
  if config.keyboard then
    let keyCode := packet.keyCode &&& 0x00FF
    let kpid := makeKpid keyCode packet.flags
    let s := updateAlt keyCode packet.release s
    let synthetic := syntheticModifiers limelight config packet keyCode s
    if kpid ∉ s.keyPress then
      if packet.release then s
      else if s.shortcutFlags = ⟨true, true, true⟩ ∧ applyShortcut keyCode then s
      else
        let s := scheduleRepeat config id keyCode packet.flags synthetic s
        sendKey limelight config packet keyCode synthetic { s with keyPress := kpid :: s.keyPress }
    else if packet.release then
      sendKey limelight config packet keyCode synthetic { s with keyPress := s.keyPress.filter (· ≠ kpid) }
    else s
  else s

def passthrough (id : ℕ) (packet : Packet) (s : State) : State :=
  match packet with
  | .relMouseMove _ => passthroughRelMouseMove config s
  | .absMouseMove _ => passthroughAbsMouseMove config s
  | .mouseButton packet => passthroughMouseButton limelight config id packet s
  | .keyboard packet => passthroughKeyboard limelight config id packet s
  | _ => s

/-! ## The worker -/

def maxMessagesPerDrain : ℕ := 64

/-- One message of the running drain, which ends on an empty queue. -/
def passthroughNextMessage (id : ℕ) (s : State) : State :=
  match s.inputQueue with
  | [] => { s with inputDrainPending := false, running := none }
  | entry :: rest =>
    passthrough limelight config id (coalesce batch entry rest).1
      { s with inputQueue := (coalesce batch entry rest).2, running := s.running.map (· + 1) }

/-- The task that `reset` pushes, with the order of the map. -/
def resetTask (order : List ℕ) (s : State) : State :=
  { report ((([0, 1, 2, 3, 4] : List UInt8).filter s.mousePress).map (.buttonMouse · true) ++
      order.map fun kpid => .keyboardUpdate (vkFromKpid kpid &&& 0x00FF) true (flagsFromKpid kpid)) s with
    mousePress := fun button => if button < 5 then false else s.mousePress button
    keyPress := s.keyPress.filter (· ∉ order)
    resetRan := true }

/-- `input::reset` on the thread that ends the session. -/
def reset (s : State) : State :=
  let s := cancelRepeat s
  let s := match s.mouseLeftButtonTimeout with
    | .task id => cancel id s
    | _ => s
  { s with tasks := s.tasks ++ [.reset], resetCalled := true }

/-- `id` is a task id that is free; `fire` is the worker taking a timer. -/
inductive Event where
  | packet (packet : Packet)
  | reset
  | task (order : List ℕ)
  | fire (timer : ℕ × Timer) (id : ℕ)
  | message (id : ℕ)
  | yield (id : ℕ)

def runTimer (id : ℕ) (timer : Timer) (s : State) : State :=
  match timer with
  | .leftRelease => releaseLeft limelight s
  | .repeatKey keyCode flags synthetic => repeatKey limelight config id keyCode flags synthetic s
  | .drain => { s with running := some 0 }

def next (s : State) : Event → State
  | .packet packet =>
    let s := { s with inputQueue := s.inputQueue ++ [packet] }
    if s.inputDrainPending then s
    else { s with inputDrainPending := true, tasks := s.tasks ++ [.drain] }
  | .reset => reset s
  | .task order =>
    match s.tasks with
    | [] => s
    | .drain :: tasks => { s with tasks := tasks, running := some 0 }
    | .reset :: tasks => resetTask order { s with tasks := tasks }
  | .fire timer id => runTimer limelight config id timer.2 { s with timers := s.timers.erase timer }
  | .message id => passthroughNextMessage limelight config id s
  | .yield id => { s with running := none, timers := (id, .drain) :: s.timers }

end Handlers

def Free (s : State) (id : ℕ) : Prop := ∀ timer ∈ s.timers, timer.1 ≠ id

/-- The packets that press and release keys and buttons, and those that move the mouse. -/
def isKeyOrMouse : Packet → Bool
  | .relMouseMove _ | .absMouseMove _ | .mouseButton _ | .keyboard _ => true
  | _ => false

/-- Packets come before the reset, and the worker takes a timer only when no task waits. -/
def Enabled (s : State) : Event → Prop
  | .packet packet => s.resetCalled = false ∧ isKeyOrMouse packet = true
  | .reset => s.resetCalled = false
  | .task order => s.running = none ∧ s.tasks ≠ [] ∧ order ~ s.keyPress
  | .fire timer id => s.running = none ∧ s.tasks = [] ∧ timer ∈ s.timers ∧ Free s id
  | .message id => (∃ n ∈ s.running, n < maxMessagesPerDrain) ∧ Free s id
  | .yield id => s.running = some maxMessagesPerDrain ∧ Free s id

/-! ## Presses and releases -/

inductive Target where
  | key (modcode : UInt16)
  | button (button : UInt8)
  deriving DecidableEq

def Report.target : Report → Target
  | .keyboardUpdate modcode _ _ => .key modcode
  | .buttonMouse button _ => .button button

def Report.release : Report → Bool
  | .keyboardUpdate _ release _ => release
  | .buttonMouse _ release => release

/-- Every press has a later release of the same code. -/
def AllReleased (reports : List Report) : Prop :=
  ∀ earlier press later, reports = earlier ++ press :: later → press.release = false →
    ∃ r ∈ later, r.target = press.target ∧ r.release = true

/-- Whether `t` is pressed behind the reports, when `held` says whether it was before. -/
def pressedAfter (t : Target) (held : Bool) (reports : List Report) : Bool :=
  reports.foldl (fun held r => if r.target = t then !r.release else held) held

def pressed (reports : List Report) (t : Target) : Bool := pressedAfter t false reports

section Pressed

variable {t : Target} {held : Bool}

theorem pressed_append (reports later : List Report) :
    pressed (reports ++ later) t = pressedAfter t (pressed reports t) later :=
  List.foldl_append

theorem pressedAfter_append (first second : List Report) :
    pressedAfter t held (first ++ second) = pressedAfter t (pressedAfter t held first) second :=
  List.foldl_append

theorem pressedAfter_other {reports : List Report} (h : ∀ r ∈ reports, r.target ≠ t) :
    pressedAfter t held reports = held := by
  induction reports generalizing held with
  | nil => rfl
  | cons r reports ih =>
    obtain ⟨hr, hreports⟩ := List.forall_mem_cons.mp h
    unfold pressedAfter
    rw [List.foldl_cons, if_neg hr]
    exact ih hreports

theorem pressedAfter_of_no_release {reports : List Report}
    (h : ∀ r ∈ reports, r.target = t → r.release = false) : pressedAfter t true reports = true := by
  induction reports with
  | nil => rfl
  | cons r reports ih =>
    obtain ⟨hr, hreports⟩ := List.forall_mem_cons.mp h
    unfold pressedAfter
    rw [List.foldl_cons]
    by_cases htarget : r.target = t
    · rw [if_pos htarget, hr htarget]
      exact ih hreports
    · rw [if_neg htarget]
      exact ih hreports

/-- Releases leave pressed what they do not name. -/
theorem pressedAfter_releases {reports : List Report} (h : ∀ r ∈ reports, r.release = true)
    (hpressed : pressedAfter t held reports = true) : held = true ∧ ∀ r ∈ reports, r.target ≠ t := by
  induction reports generalizing held with
  | nil => exact ⟨hpressed, nofun⟩
  | cons r reports ih =>
    obtain ⟨hr, hreports⟩ := List.forall_mem_cons.mp h
    unfold pressedAfter at hpressed
    rw [List.foldl_cons] at hpressed
    by_cases htarget : r.target = t
    · rw [if_pos htarget, hr] at hpressed
      exact absurd (ih hreports hpressed).1 Bool.false_ne_true
    · rw [if_neg htarget] at hpressed
      obtain ⟨hheld, hrest⟩ := ih hreports hpressed
      exact ⟨hheld, List.forall_mem_cons.mpr ⟨htarget, hrest⟩⟩

theorem allReleased_of_not_pressed {reports : List Report} (h : ∀ t, pressed reports t = false) :
    AllReleased reports := by
  intro earlier press later hreports hpress
  by_contra hnone
  have hlast : pressedAfter press.target true later = true := by
    refine pressedAfter_of_no_release fun r hr htarget => ?_
    by_contra hrelease
    exact hnone ⟨r, hr, htarget, eq_true_of_ne_false hrelease⟩
  have hpressed : pressed reports press.target = true := by
    rw [hreports, pressed_append]
    unfold pressedAfter
    rw [List.foldl_cons, if_pos rfl, hpress]
    exact hlast
  rw [h press.target] at hpressed
  cases hpressed

/-- A key that is sent leaves at most its own code pressed. -/
theorem pressed_sendKey {limelight : Limelight} {config : Config} {keyCode : UInt16} {release : Bool}
    {flags synthetic : UInt8} {reports : List Report}
    (h : pressed (reports ++ sendKeyAndModifiers limelight config keyCode release flags synthetic) t = true) :
    (release = false ∧ t = .key (mapKeycode config keyCode)) ∨
      (pressed reports t = true ∧ (release = true → t ≠ .key (mapKeycode config keyCode))) := by
  rw [pressed_append] at h
  unfold sendKeyAndModifiers at h
  cases release with
  | true =>
    obtain ⟨hheld, hother⟩ := pressedAfter_releases (by simp [Report.release]) h
    have hkey := hother (.keyboardUpdate (mapKeycode config keyCode) true flags)
      (List.mem_append_left _ (List.mem_append_right _ List.mem_cons_self))
    exact .inr ⟨hheld, fun _ => Ne.symm hkey⟩
  | false =>
    simp only [Bool.false_eq_true, if_false] at h
    rw [pressedAfter_append] at h
    -- the modifiers are released behind the key
    obtain ⟨hheld, hother⟩ := pressedAfter_releases (List.forall_mem_map.mpr fun _ _ => rfl) h
    rw [pressedAfter_append] at hheld
    by_cases hkey : t = .key (mapKeycode config keyCode)
    · exact .inl ⟨rfl, hkey⟩
    · rw [pressedAfter_other (List.forall_mem_singleton.mpr (Ne.symm hkey)), pressedAfter_other] at hheld
      · exact .inr ⟨hheld, nofun⟩
      · intro r hr
        obtain ⟨m, hm, rfl⟩ := List.mem_map.mp hr
        exact hother (.keyboardUpdate m.2 true flags) (List.mem_map.mpr ⟨m, hm, rfl⟩)

end Pressed

end Sunshine.Reset
