import Sunshine.Input.ResetRuns

/-! The keyboard of a client: keys, their modifiers and their repetitions.

Three codes stand for each modifier, and one flag for all three. `Follows` says that the flags and the
platform follow the keys that the client holds, and `Accompanied` that a key is sent with its modifiers. -/
namespace Sunshine.Modifiers
open Batching (Keyboard)
open Reset Transitions
set_option autoImplicit false

/-! ## Modifiers -/

inductive Modifier where
  | shift
  | ctrl
  | alt
  deriving DecidableEq

theorem Modifier.forall_iff {p : Modifier → Prop} : (∀ m, p m) ↔ p .shift ∧ p .ctrl ∧ p .alt := by
  constructor
  · intro h
    exact ⟨h .shift, h .ctrl, h .alt⟩
  · rintro ⟨hshift, hctrl, halt⟩ m
    cases m with
    | shift => exact hshift
    | ctrl => exact hctrl
    | alt => exact halt

instance (p : Modifier → Prop) [DecidablePred p] : Decidable (∀ m, p m) :=
  decidable_of_iff _ Modifier.forall_iff.symm

/-- The code that stands for either side; synthetic modifiers are sent with it. -/
def Modifier.code : Modifier → UInt16
  | .shift => vkeyShift
  | .ctrl => vkeyControl
  | .alt => vkeyMenu

def Modifier.codes : Modifier → List UInt16
  | .shift => [vkeyShift, vkeyLShift, vkeyRShift]
  | .ctrl => [vkeyControl, vkeyLControl, vkeyRControl]
  | .alt => [vkeyMenu, vkeyLMenu, vkeyRMenu]

def Modifier.flag (flags : ShortcutFlags) : Modifier → Bool
  | .shift => flags.shift
  | .ctrl => flags.ctrl
  | .alt => flags.alt

def Modifier.mask (limelight : Limelight) : Modifier → UInt8
  | .shift => limelight.modifierShift
  | .ctrl => limelight.modifierCtrl
  | .alt => limelight.modifierAlt

/-- The masks of the modifiers are different bits. -/
structure Separate (limelight : Limelight) : Prop where
  shiftCtrl : limelight.modifierShift &&& limelight.modifierCtrl = 0
  shiftAlt : limelight.modifierShift &&& limelight.modifierAlt = 0
  ctrlAlt : limelight.modifierCtrl &&& limelight.modifierAlt = 0

def names (limelight : Limelight) (modifiers : UInt8) (m : Modifier) : Bool := modifiers &&& m.mask limelight ≠ 0

theorem isModifier_iff (code : UInt16) : isModifier code = true ↔ ∃ m : Modifier, code ∈ m.codes := by
  constructor
  · intro h
    simp only [isModifier, decide_eq_true_eq, List.mem_cons, List.not_mem_nil, or_false] at h
    rcases h with h | h | h | h | h | h | h | h | h
    · exact ⟨.shift, by simp [Modifier.codes, h]⟩
    · exact ⟨.shift, by simp [Modifier.codes, h]⟩
    · exact ⟨.shift, by simp [Modifier.codes, h]⟩
    · exact ⟨.ctrl, by simp [Modifier.codes, h]⟩
    · exact ⟨.ctrl, by simp [Modifier.codes, h]⟩
    · exact ⟨.ctrl, by simp [Modifier.codes, h]⟩
    · exact ⟨.alt, by simp [Modifier.codes, h]⟩
    · exact ⟨.alt, by simp [Modifier.codes, h]⟩
    · exact ⟨.alt, by simp [Modifier.codes, h]⟩
  · rintro ⟨m, hm⟩
    cases m <;> simp only [Modifier.codes, List.mem_cons, List.not_mem_nil, or_false] at hm <;>
      rcases hm with rfl | rfl | rfl <;> decide

theorem Modifier.code_mem (m : Modifier) : m.code ∈ m.codes := by
  cases m <;> exact List.mem_cons_self

theorem isModifier_code (m : Modifier) : isModifier m.code = true :=
  (isModifier_iff m.code).mpr ⟨m, m.code_mem⟩

/-- A code changes the flag of its own modifier only. -/
theorem flag_updateShortcutFlags (flags : ShortcutFlags) (code : UInt16) (release : Bool) (m : Modifier) :
    m.flag (updateShortcutFlags flags code release) = if code ∈ m.codes then !release else m.flag flags := by
  unfold updateShortcutFlags
  by_cases hshift : code = vkeyShift ∨ code = vkeyLShift ∨ code = vkeyRShift
  · rw [if_pos hshift]
    rcases hshift with rfl | rfl | rfl <;> cases m <;> rfl
  · rw [if_neg hshift]
    by_cases hctrl : code = vkeyControl ∨ code = vkeyLControl ∨ code = vkeyRControl
    · rw [if_pos hctrl]
      rcases hctrl with rfl | rfl | rfl <;> cases m <;> rfl
    · rw [if_neg hctrl]
      by_cases halt : code = vkeyMenu ∨ code = vkeyLMenu ∨ code = vkeyRMenu
      · rw [if_pos halt]
        rcases halt with rfl | rfl | rfl <;> cases m <;> rfl
      · rw [if_neg halt]
        cases m <;> simp [Modifier.codes, hshift, hctrl, halt]

/-! ## Runs of keyboard packets -/

/-- `id` is a task id that is free; `repeatKey` is the worker running the pending repetition `timer`. -/
inductive Event where
  | keyboard (packet : Keyboard) (id : ℕ)
  | repeatKey (timer : ℕ) (keyCode : UInt16) (flags syntheticModifiers : UInt8) (id : ℕ)

def keyCodeOf (packet : Keyboard) : UInt16 := packet.keyCode &&& 0x00FF

/-- A key is its code with the flags it is pressed with. -/
def kpidOf (packet : Keyboard) : ℕ := makeKpid (keyCodeOf packet) packet.flags

def Event.kpid : Event → ℕ
  | .keyboard packet _ => kpidOf packet
  | .repeatKey _ keyCode flags _ _ => makeKpid keyCode flags

section Model

variable (limelight : Limelight) (config : Config)

def next (s : State) : Event → State
  | .keyboard packet id => passthroughKeyboard limelight config id packet s
  | .repeatKey timer keyCode flags synthetic id =>
    runTimer limelight config id (.repeatKey keyCode flags synthetic)
      { s with timers := s.timers.erase (timer, .repeatKey keyCode flags synthetic) }

def Enabled (s : State) : Event → Prop
  | .keyboard _ id => ∀ timer ∈ s.timers, timer.1 ≠ id
  | .repeatKey timer keyCode flags synthetic id =>
    (timer, .repeatKey keyCode flags synthetic) ∈ s.timers ∧ ∀ timer ∈ s.timers, timer.1 ≠ id

instance (s : State) (e : Event) : Decidable (Enabled s e) :=
  match e with
  | .keyboard _ id => inferInstanceAs (Decidable (∀ timer ∈ s.timers, timer.1 ≠ id))
  | .repeatKey timer keyCode flags synthetic id => inferInstanceAs (Decidable
      ((timer, .repeatKey keyCode flags synthetic) ∈ s.timers ∧ ∀ timer ∈ s.timers, timer.1 ≠ id))

/-- The code a key is sent with. -/
def image (kpid : ℕ) : UInt16 := mapKeycode config (vkFromKpid kpid)

/-- The modifiers a packet asks for: right alt that is bound to meta is not alt, too. -/
def requestedModifiers (packet : Keyboard) (s : State) : UInt8 :=
  if config.keyRightaltToKeyWin ∧ s.rightAltPressed ∧ !s.leftAltPressed then
    packet.modifiers &&& ~~~limelight.modifierAlt
  else packet.modifiers

/-- Whether the packet is consumed by a shortcut. -/
def consumes (packet : Keyboard) (s : State) : Bool :=
  s.shortcutFlags = ⟨true, true, true⟩ && applyShortcut (keyCodeOf packet)

/-- The keys that the client holds, those a shortcut consumed in a list of their own; and for each key the modifiers that
it was pressed with. -/
structure Watch where
  state : State
  held : List ℕ
  consumed : List ℕ
  modifiers : ℕ → UInt8

def Watch.initial : Watch := ⟨Reset.initial, [], [], fun _ => 0⟩

/-- What the client holds, while keyboard input is enabled. -/
def nextWatch (w : Watch) (e : Event) : Watch :=
  let w' := { w with state := next limelight config w.state e }
  match e with
  | .repeatKey _ _ _ _ _ => w'
  | .keyboard packet _ =>
    let kpid := kpidOf packet
    if !config.keyboard then w'
    else if packet.release then
      { w' with held := w.held.filter (· ≠ kpid), consumed := w.consumed.filter (· ≠ kpid) }
    else if kpid ∈ w.held then w'
    else if consumes packet w.state then { w' with consumed := kpid :: w.consumed.filter (· ≠ kpid) }
    else
      { w' with
        held := kpid :: w.held, consumed := w.consumed.filter (· ≠ kpid)
        modifiers := Function.update w.modifiers kpid
          (requestedModifiers limelight config packet (updateAlt (keyCodeOf packet) false w.state)) }

/-- A modifier's flag is set if the client holds a key of the modifier, and the platform sees those keys pressed that
the client holds and no shortcut consumed. -/
structure Follows (w : Watch) : Prop where
  flags : ∀ m : Modifier, m.flag w.state.shortcutFlags = true ↔
    ∃ kpid ∈ w.held ++ w.consumed, image config kpid ∈ m.codes
  platform : ∀ code, pressed w.state.reports (.key code) = true ↔ ∃ kpid ∈ w.held, image config kpid = code

/-- A key that is not a modifier is sent while all the modifiers are pressed that it was pressed with. -/
def Accompanied (w : Watch) (e : Event) : Prop :=
  ∀ front code flags later,
    (nextWatch limelight config w e).state.reports =
        w.state.reports ++ (front ++ .keyboardUpdate code false flags :: later) →
      isModifier code = false →
        ∀ m, names limelight ((nextWatch limelight config w e).modifiers e.kpid) m = true →
          ∃ c ∈ m.codes, pressed (w.state.reports ++ front) (.key c) = true

/-- No other key that is held has the code of the released one, or stands for its modifier. -/
def SteadyRelease (w : Watch) (kpid : ℕ) : Prop :=
  kpid ∈ w.held →
    (∀ other ∈ w.held, other ≠ kpid → image config other ≠ image config kpid) ∧
      ∀ m : Modifier, image config kpid ∈ m.codes →
        ∀ other ∈ w.held ++ w.consumed, other ≠ kpid → image config other ∉ m.codes

/-- A modifier that the packet asks for and that is not held is synthetic: then the key is not bound to its code. A key
of a modifier has no synthetic ones: then it is bound to one. -/
def SteadyPress (w : Watch) (packet : Keyboard) : Prop :=
  kpidOf packet ∉ w.held → consumes packet w.state = false →
    ∀ m : Modifier, m.flag w.state.shortcutFlags = false →
      names limelight (requestedModifiers limelight config packet (updateAlt (keyCodeOf packet) false w.state)) m =
        true →
        (isModifier (keyCodeOf packet) = false → image config (kpidOf packet) ≠ m.code) ∧
          (isModifier (keyCodeOf packet) = true → isModifier (image config (kpidOf packet)) = true)

/-- The modifiers that were held when the key was pressed are held when it is repeated. -/
def SteadyRepeat (w : Watch) (kpid : ℕ) (synthetic : UInt8) : Prop :=
  kpid ∈ w.held → isModifier (image config kpid) = false →
    ∀ m : Modifier, names limelight (w.modifiers kpid) m = true →
      names limelight synthetic m = true ∨ m.flag w.state.shortcutFlags = true

def Steady (w : Watch) : Event → Prop
  | .keyboard packet _ => config.keyboard = true →
    (packet.release = true → SteadyRelease config w (kpidOf packet)) ∧
      (packet.release = false → SteadyPress limelight config w packet)
  | .repeatKey _ keyCode flags synthetic _ =>
    SteadyRepeat limelight config w (makeKpid keyCode flags) synthetic

instance (w : Watch) (kpid : ℕ) : Decidable (SteadyRelease config w kpid) := by
  delta SteadyRelease
  infer_instance

instance (w : Watch) (packet : Keyboard) : Decidable (SteadyPress limelight config w packet) := by
  delta SteadyPress
  infer_instance

instance (w : Watch) (kpid : ℕ) (synthetic : UInt8) : Decidable (SteadyRepeat limelight config w kpid synthetic) := by
  delta SteadyRepeat
  infer_instance

instance (w : Watch) (e : Event) : Decidable (Steady limelight config w e) :=
  match e with
  | .keyboard packet _ => inferInstanceAs (Decidable (config.keyboard = true →
      (packet.release = true → SteadyRelease config w (kpidOf packet)) ∧
        (packet.release = false → SteadyPress limelight config w packet)))
  | .repeatKey _ keyCode flags synthetic _ =>
    inferInstanceAs (Decidable (SteadyRepeat limelight config w (makeKpid keyCode flags) synthetic))

end Model

end Sunshine.Modifiers
