import Sunshine.Input.Reset
import Mathlib.Tactic.IntervalCases

/-! Runs of the input tasks that end in a reset.

`reset_releases` is about all orders of drains, delayed tasks and the reset: when everything queued before and
by the reset has run, each press that was reported has a later release of the same code. -/
namespace Sunshine.Reset
open Batching Coalesce Transitions
open scoped List
set_option autoImplicit false

/-! ## Sound runs -/

section Runs

variable (limelight : Limelight) (config : Config)

/-- Whether a button is down behind the packets that were handled. -/
def down (buttons : List MouseButton) (button : UInt8) : Bool :=
  buttons.foldl (fun held packet => if packet.button = button then !packet.release else held) false

/-- Cancelling `id` takes no pending release of the left button, unless the button is down again. -/
def Spares (s : State) (id : ℕ) : Prop :=
  (id, .leftRelease) ∈ s.timers → s.mousePress limelight.buttonLeft = true

/-- The conditions on a step: `reset` cancels no pending release of the left button; when its task runs, the
keys that are down are not bound to other codes and no button without an entry is down; and no press is
handled behind it. -/
def Sound (s : State) : Event → Prop
  | .reset =>
    (∀ id, s.keyPressRepeatId = some id → Spares limelight s id) ∧
      ∀ id, s.mouseLeftButtonTimeout = .task id → Spares limelight s id
  | .task _ => s.tasks.head? = some .reset →
    (∀ kpid ∈ s.keyPress, mapKeycode config (vkFromKpid kpid) = vkFromKpid kpid &&& 0x00FF) ∧
      ∀ button, tracked button = false → down s.buttons button = false
  | .message _ =>
    (∀ packet, s.inputQueue.head? = some (.keyboard packet) → packet.release = false →
      s.resetRan = false ∧ ∀ id, s.keyPressRepeatId = some id → Spares limelight s id) ∧
    ∀ packet, s.inputQueue.head? = some (.mouseButton packet) → packet.release = false → s.resetRan = false
  | _ => True

/-- What is pressed on the platform is known to the program. -/
structure Inv (s : State) : Prop where
  keys : ∀ code, pressed s.reports (.key code) = true →
    ∃ kpid ∈ s.keyPress, mapKeycode config (vkFromKpid kpid) = code
  buttons : ∀ button, tracked button = true → pressed s.reports (.button button) = true →
    s.mousePress button = true ∨
      (button = limelight.buttonLeft ∧ ∃ id, (id, .leftRelease) ∈ s.timers)
  untracked : ∀ button, tracked button = false → pressed s.reports (.button button) = true →
    down s.buttons button = true
  entries : ∀ button, s.mousePress button = true → tracked button = true
  ran : s.resetRan = true → s.keyPress = [] ∧ (∀ button, s.mousePress button = false) ∧
    ∀ button, tracked button = false → pressed s.reports (.button button) = false

/-- A step beside the mouse buttons. -/
structure Beside (s s' : State) : Prop where
  mousePress : s'.mousePress = s.mousePress
  buttons : s'.buttons = s.buttons
  resetRan : s'.resetRan = s.resetRan
  left : ∀ id, (id, .leftRelease) ∈ s.timers →
    (id, .leftRelease) ∈ s'.timers ∨ s.mousePress limelight.buttonLeft = true

end Runs

section Steps

variable {limelight : Limelight} {config : Config} {s s' : State}

theorem inv_initial : Inv limelight config initial :=
  ⟨nofun, nofun, nofun, nofun, nofun⟩

theorem Inv.left (h : Inv limelight config s) (hbeside : Beside limelight s s') {button : UInt8}
    (htracked : tracked button = true) (hpressed : pressed s.reports (.button button) = true) :
    s'.mousePress button = true ∨ (button = limelight.buttonLeft ∧ ∃ id, (id, .leftRelease) ∈ s'.timers) := by
  rw [hbeside.mousePress]
  rcases h.buttons button htracked hpressed with hdown | ⟨rfl, id, hid⟩
  · exact .inl hdown
  · rcases hbeside.left id hid with hkept | hdown
    · exact .inr ⟨rfl, id, hkept⟩
    · exact .inl hdown

/-- A step that reports nothing. -/
theorem Inv.beside (h : Inv limelight config s) (hbeside : Beside limelight s s')
    (hreports : s'.reports = s.reports) (hkeys : s'.keyPress = s.keyPress) : Inv limelight config s' := by
  refine ⟨?_, fun button htracked hpressed => ?_, ?_, ?_, ?_⟩
  · rw [hreports, hkeys]
    exact h.keys
  · rw [hreports] at hpressed
    exact h.left hbeside htracked hpressed
  · rw [hreports, hbeside.buttons]
    exact h.untracked
  · rw [hbeside.mousePress]
    exact h.entries
  · rw [hreports, hkeys, hbeside.mousePress, hbeside.resetRan]
    exact h.ran

/-- A key is sent, and its entry says so. -/
theorem Inv.send (h : Inv limelight config s) (hbeside : Beside limelight s s')
    (hran : s.resetRan = false) {keyCode : UInt16} {release : Bool} {flags synthetic : UInt8}
    (hreports : s'.reports =
      s.reports ++ sendKeyAndModifiers limelight config keyCode release flags synthetic)
    (hpress : release = false → makeKpid keyCode flags ∈ s'.keyPress)
    (hkeys : ∀ kpid ∈ s.keyPress, (release = true → kpid ≠ makeKpid keyCode flags) → kpid ∈ s'.keyPress) :
    Inv limelight config s' := by
  have hbutton : ∀ button, pressed s'.reports (.button button) = true →
      pressed s.reports (.button button) = true := by
    intro button hpressed
    rw [hreports] at hpressed
    rcases pressed_sendKey hpressed with ⟨-, heq⟩ | ⟨hbefore, -⟩
    · cases heq
    · exact hbefore
  refine ⟨fun code hpressed => ?_, ?_, ?_, ?_, ?_⟩
  · rw [hreports] at hpressed
    rcases pressed_sendKey hpressed with ⟨hdown, heq⟩ | ⟨hbefore, hother⟩
    · refine ⟨makeKpid keyCode flags, hpress hdown, ?_⟩
      rw [vkFromKpid_makeKpid]
      exact (Target.key.inj heq).symm
    · obtain ⟨kpid, hkpid, hcode⟩ := h.keys code hbefore
      refine ⟨kpid, hkeys kpid hkpid fun hrelease heq => hother hrelease ?_, hcode⟩
      rw [← hcode, heq, vkFromKpid_makeKpid]
  · exact fun button htracked hpressed => h.left hbeside htracked (hbutton button hpressed)
  · intro button htracked hpressed
    rw [hbeside.buttons]
    exact h.untracked button htracked (hbutton button hpressed)
  · rw [hbeside.mousePress]
    exact h.entries
  · intro hran'
    rw [hbeside.resetRan, hran] at hran'
    cases hran'

/-! ## Keys -/

theorem cancel_left {id : ℕ} (hspares : Spares limelight s id) (other : ℕ)
    (h : (other, .leftRelease) ∈ s.timers) :
    (other, .leftRelease) ∈ (cancel id s).timers ∨ s.mousePress limelight.buttonLeft = true := by
  by_cases hid : other = id
  · subst hid
    exact .inr (hspares h)
  · exact .inl (List.mem_filter.mpr ⟨h, by simpa using hid⟩)

theorem cancelRepeat_beside (hspares : ∀ id, s.keyPressRepeatId = some id → Spares limelight s id) :
    Beside limelight s (cancelRepeat s) := by
  unfold cancelRepeat
  cases hold : s.keyPressRepeatId with
  | none => exact ⟨rfl, rfl, rfl, fun _ ho => .inl ho⟩
  | some id => exact ⟨rfl, rfl, rfl, cancel_left (hspares id hold)⟩

theorem cancelRepeat_keys (s : State) :
    (cancelRepeat s).reports = s.reports ∧ (cancelRepeat s).keyPress = s.keyPress := by
  unfold cancelRepeat
  cases s.keyPressRepeatId <;> exact ⟨rfl, rfl⟩

theorem scheduleRepeat_beside (hspares : ∀ id, s.keyPressRepeatId = some id → Spares limelight s id)
    (id : ℕ) (keyCode : UInt16) (flags synthetic : UInt8) :
    Beside limelight s (scheduleRepeat config id keyCode flags synthetic s) := by
  obtain ⟨hmouse, hbuttons, hran, hleft⟩ := cancelRepeat_beside hspares
  unfold scheduleRepeat
  split_ifs with hdelay
  · exact ⟨hmouse, hbuttons, hran, fun other ho => (hleft other ho).imp_left (List.mem_cons_of_mem _)⟩
  · exact ⟨hmouse, hbuttons, hran, hleft⟩

theorem scheduleRepeat_keys (id : ℕ) (keyCode : UInt16) (flags synthetic : UInt8) (s : State) :
    (scheduleRepeat config id keyCode flags synthetic s).reports = s.reports ∧
      (scheduleRepeat config id keyCode flags synthetic s).keyPress = s.keyPress := by
  have hcancel := cancelRepeat_keys s
  unfold scheduleRepeat
  split_ifs with hdelay <;> exact hcancel

theorem updateAlt_beside (keyCode : UInt16) (release : Bool) (s : State) :
    Beside limelight s (updateAlt keyCode release s) := by
  unfold updateAlt
  split_ifs <;> exact ⟨rfl, rfl, rfl, fun _ ho => .inl ho⟩

theorem updateAlt_keys (keyCode : UInt16) (release : Bool) (s : State) :
    (updateAlt keyCode release s).reports = s.reports ∧
      (updateAlt keyCode release s).keyPress = s.keyPress ∧
      (updateAlt keyCode release s).timers = s.timers ∧
      (updateAlt keyCode release s).keyPressRepeatId = s.keyPressRepeatId := by
  unfold updateAlt
  split_ifs <;> exact ⟨rfl, rfl, rfl, rfl⟩

theorem inv_keyboard (h : Inv limelight config s) (id : ℕ) (packet : Keyboard)
    (hsound : packet.release = false → s.resetRan = false ∧
      ∀ old, s.keyPressRepeatId = some old → Spares limelight s old) :
    Inv limelight config (passthroughKeyboard limelight config id packet s) := by
  unfold passthroughKeyboard
  by_cases hkeyboard : config.keyboard
  · rw [if_pos hkeyboard]
    simp only
    set keyCode := packet.keyCode &&& 0x00FF
    set s₁ := updateAlt keyCode packet.release s
    have hbeside : Beside limelight s s₁ := updateAlt_beside keyCode packet.release s
    obtain ⟨hreports, hkeys, htimers, hrepeat⟩ := updateAlt_keys keyCode packet.release s
    have h₁ : Inv limelight config s₁ := h.beside hbeside hreports hkeys
    set synthetic := syntheticModifiers limelight config packet keyCode s₁
    split_ifs with hold hrelease hrelease hshortcut
    · -- a key that was down
      have hran : s₁.resetRan = false := by
        by_contra hran
        rw [(h₁.ran (eq_true_of_ne_false hran)).1] at hold
        cases hold
      have hsent : (sendKey limelight config packet keyCode synthetic
          { s₁ with keyPress := s₁.keyPress.filter (· ≠ makeKpid keyCode packet.flags) }).reports =
            s₁.reports ++ sendKeyAndModifiers limelight config keyCode packet.release packet.flags
              synthetic := rfl
      refine h₁.send ⟨rfl, rfl, rfl, fun _ ho => .inl ho⟩ hran hsent (fun hdown => ?_)
        fun kpid hkpid hother => ?_
      · rw [hrelease] at hdown
        cases hdown
      · exact List.mem_filter.mpr ⟨hkpid, by simpa using hother hrelease⟩
    · exact h₁
    · exact h₁
    · exact h₁
    · -- a new key
      have hdown : packet.release = false := by simpa using hrelease
      obtain ⟨hran, hspares⟩ := hsound hdown
      have hspares₁ : ∀ old, s₁.keyPressRepeatId = some old → Spares limelight s₁ old := by
        intro old hold hleft
        rw [hbeside.mousePress]
        exact hspares old (hrepeat ▸ hold) (htimers ▸ hleft)
      set s₂ := scheduleRepeat config id keyCode packet.flags synthetic s₁
      have hbeside₂ : Beside limelight s₁ s₂ := scheduleRepeat_beside hspares₁ id keyCode packet.flags synthetic
      obtain ⟨hreports₂, hkeys₂⟩ : s₂.reports = s₁.reports ∧ s₂.keyPress = s₁.keyPress :=
        scheduleRepeat_keys id keyCode packet.flags synthetic s₁
      have hsent : (sendKey limelight config packet keyCode synthetic
          { s₂ with keyPress := makeKpid keyCode packet.flags :: s₂.keyPress }).reports =
            s₁.reports ++ sendKeyAndModifiers limelight config keyCode packet.release packet.flags
              synthetic := by
        rw [← hreports₂]
        rfl
      refine h₁.send ⟨hbeside₂.mousePress, hbeside₂.buttons, hbeside₂.resetRan, hbeside₂.left⟩
        (hbeside.resetRan.trans hran) hsent (fun _ => List.mem_cons_self) fun kpid hkpid _ => ?_
      rw [← hkeys₂] at hkpid
      exact List.mem_cons_of_mem _ hkpid
  · rwa [if_neg hkeyboard]

theorem inv_repeatKey (h : Inv limelight config s) (id : ℕ) (keyCode : UInt16) (flags synthetic : UInt8) :
    Inv limelight config (repeatKey limelight config id keyCode flags synthetic s) := by
  unfold repeatKey
  split_ifs with hdown
  · have hran : s.resetRan = false := by
      by_contra hran
      rw [(h.ran (eq_true_of_ne_false hran)).1] at hdown
      cases hdown
    exact h.send ⟨rfl, rfl, rfl, fun _ ho => .inl (List.mem_cons_of_mem _ ho)⟩ hran rfl
      (fun _ => hdown) fun _ hkpid _ => hkpid
  · exact h.beside ⟨rfl, rfl, rfl, fun _ ho => .inl ho⟩ rfl rfl

/-! ## Buttons -/

theorem pressed_button (reports : List Report) (button : UInt8) (release : Bool) (t : Target) :
    pressed (reports ++ [.buttonMouse button release]) t =
      if Target.button button = t then !release else pressed reports t := by
  rw [pressed_append]
  rfl

theorem down_append (buttons : List MouseButton) (packet : MouseButton) (button : UInt8) :
    down (buttons ++ [packet]) button =
      if packet.button = button then !packet.release else down buttons button :=
  List.foldl_append

theorem tracked_lt {button : UInt8} (h : tracked button = true) : button < 5 := by
  unfold tracked at h
  exact of_decide_eq_true (Bool.and_eq_true_iff.mp h).2

theorem limelight_tracked (limelight : Limelight) :
    tracked limelight.buttonLeft = true ∧ tracked limelight.buttonRight = true := by
  have hleft := limelight.left
  have hright := limelight.right
  unfold tracked
  constructor <;> simpa

/-- A button is delayed, pressed and released at once, or passed on. -/
theorem sendButton_cases (limelight : Limelight) (id : ℕ) (packet : MouseButton) (s : State) :
    (packet.button = limelight.buttonLeft ∧ sendButton limelight id packet s =
        { s with timers := (id, .leftRelease) :: s.timers, mouseLeftButtonTimeout := .task id }) ∨
      (packet.button = limelight.buttonRight ∧ sendButton limelight id packet s =
        { report [.buttonMouse limelight.buttonRight false, .buttonMouse limelight.buttonRight true] s with
          mousePress := Function.update s.mousePress limelight.buttonRight false }) ∨
      sendButton limelight id packet s = report [.buttonMouse packet.button packet.release] s := by
  unfold sendButton
  split_ifs with hleft hright
  · exact .inl ⟨hleft.1, rfl⟩
  · exact .inr (.inl ⟨hright.1, rfl⟩)
  · exact .inr (.inr rfl)

/-- A button with an entry is handled: nothing else is pressed by it, and what is pressed is known. -/
theorem Inv.tracked (h : Inv limelight config s) {packet : MouseButton}
    (htracked : tracked packet.button = true) (hbuttons : s'.buttons = s.buttons ++ [packet])
    (hran : s'.resetRan = false) (hkeys : s'.keyPress = s.keyPress)
    (hpressed : ∀ t, t ≠ .button packet.button → pressed s'.reports t = true → pressed s.reports t = true)
    (hentries : ∀ button, s'.mousePress button = true → Reset.tracked button = true)
    (hheld : ∀ button, Reset.tracked button = true → pressed s'.reports (.button button) = true →
      s'.mousePress button = true ∨ (button = limelight.buttonLeft ∧ ∃ id, (id, .leftRelease) ∈ s'.timers)) :
    Inv limelight config s' := by
  refine ⟨fun code hp => ?_, hheld, fun button hb hp => ?_, hentries, fun hran' => ?_⟩
  · rw [hkeys]
    exact h.keys code (hpressed _ nofun hp)
  · have hne : packet.button ≠ button := by
      rintro rfl
      rw [htracked] at hb
      cases hb
    rw [hbuttons, down_append, if_neg hne]
    exact h.untracked button hb (hpressed _ (fun heq => hne (Target.button.inj heq).symm) hp)
  · rw [hran] at hran'
    cases hran'

/-- A button with an entry, behind the check of its state. -/
theorem inv_trackedButton (h : Inv limelight config s) (id : ℕ) {packet : MouseButton}
    (htracked : tracked packet.button = true) (hran : s.resetRan = false) :
    Inv limelight config (sendButton limelight id packet { s with
      buttons := s.buttons ++ [packet]
      mousePress := Function.update s.mousePress packet.button (!packet.release) }) := by
  have hentries : ∀ button, Function.update s.mousePress packet.button (!packet.release) button = true →
      tracked button = true := by
    intro button hdown
    by_cases hb : button = packet.button
    · rwa [hb]
    · rw [Function.update_of_ne hb] at hdown
      exact h.entries button hdown
  rcases sendButton_cases limelight id packet { s with
      buttons := s.buttons ++ [packet]
      mousePress := Function.update s.mousePress packet.button (!packet.release) } with
    ⟨hleft, heq⟩ | ⟨hright, heq⟩ | heq
  · rw [heq]
    refine h.tracked htracked rfl hran rfl (fun _ _ hp => hp) hentries fun button hb hpressed => ?_
    by_cases hsame : button = packet.button
    · exact .inr ⟨hsame.trans hleft, id, List.mem_cons_self⟩
    · rcases h.buttons button hb hpressed with hdown | ⟨rfl, other, hother⟩
      · refine .inl ?_
        change Function.update s.mousePress packet.button (!packet.release) button = true
        rwa [Function.update_of_ne hsame]
      · exact absurd hleft.symm hsame
  · rw [heq]
    have hpressed : ∀ t, pressed (s.reports ++ [.buttonMouse limelight.buttonRight false,
        .buttonMouse limelight.buttonRight true]) t = true →
        t ≠ .button limelight.buttonRight ∧ pressed s.reports t = true := by
      intro t hpressed
      rw [List.append_cons, pressed_button, pressed_button] at hpressed
      split_ifs at hpressed with ht
      · cases hpressed
      · exact ⟨Ne.symm ht, hpressed⟩
    refine h.tracked htracked rfl hran rfl (fun t _ hp => (hpressed t hp).2) (fun button hdown => ?_)
      fun button hb hp => ?_
    · change Function.update (Function.update s.mousePress packet.button (!packet.release))
        limelight.buttonRight false button = true at hdown
      by_cases hb : button = limelight.buttonRight
      · rw [hb, Function.update_self] at hdown
        cases hdown
      · rw [Function.update_of_ne hb] at hdown
        exact hentries button hdown
    · obtain ⟨hother, hbefore⟩ := hpressed _ hp
      have hne : button ≠ limelight.buttonRight := fun heq => hother (congrArg Target.button heq)
      rcases h.buttons button hb hbefore with hdown | hdelayed
      · refine .inl ?_
        change Function.update (Function.update s.mousePress packet.button (!packet.release))
          limelight.buttonRight false button = true
        rwa [Function.update_of_ne hne, Function.update_of_ne (hright ▸ hne)]
      · exact .inr hdelayed
  · rw [heq]
    refine h.tracked htracked rfl hran rfl (fun t ht hp => ?_) hentries fun button hb hp => ?_
    · change pressed (s.reports ++ [_]) t = true at hp
      rwa [pressed_button, if_neg (Ne.symm ht)] at hp
    · change pressed (s.reports ++ [_]) _ = true at hp
      change Function.update s.mousePress packet.button (!packet.release) button = true ∨ _
      rw [pressed_button] at hp
      by_cases hsame : packet.button = button
      · rw [if_pos (congrArg Target.button hsame)] at hp
        rw [hsame, Function.update_self]
        exact .inl hp
      · rw [if_neg fun heq => hsame (Target.button.inj heq)] at hp
        rw [Function.update_of_ne (Ne.symm hsame)]
        exact h.buttons button hb hp

/-- A button without an entry is passed on. -/
theorem inv_untrackedButton (h : Inv limelight config s) (id : ℕ) {packet : MouseButton}
    (huntracked : tracked packet.button = false) (hsound : packet.release = false → s.resetRan = false) :
    Inv limelight config (sendButton limelight id packet { s with buttons := s.buttons ++ [packet] }) := by
  have hne : ∀ {button : UInt8}, tracked button = true → packet.button ≠ button := by
    rintro _ ht rfl
    rw [huntracked] at ht
    cases ht
  rcases sendButton_cases limelight id packet { s with buttons := s.buttons ++ [packet] } with
    ⟨hleft, -⟩ | ⟨hright, -⟩ | heq
  · exact absurd hleft (hne (limelight_tracked limelight).1)
  · exact absurd hright (hne (limelight_tracked limelight).2)
  · rw [heq]
    refine ⟨fun code hp => ?_, fun button hb hp => ?_, fun button hb hp => ?_, h.entries, fun hran => ?_⟩
    · change pressed (s.reports ++ [_]) _ = true at hp
      rw [pressed_button, if_neg nofun] at hp
      exact h.keys code hp
    · change pressed (s.reports ++ [_]) _ = true at hp
      rw [pressed_button, if_neg fun heq => hne hb (Target.button.inj heq)] at hp
      exact h.buttons button hb hp
    · change pressed (s.reports ++ [_]) _ = true at hp
      change down (s.buttons ++ [packet]) button = true
      rw [pressed_button] at hp
      rw [down_append]
      by_cases hsame : packet.button = button
      · rw [if_pos (congrArg Target.button hsame)] at hp
        rwa [if_pos hsame]
      · rw [if_neg fun heq => hsame (Target.button.inj heq)] at hp
        rw [if_neg hsame]
        exact h.untracked button hb hp
    · obtain ⟨hkeys, hmouse, hothers⟩ := h.ran hran
      refine ⟨hkeys, hmouse, fun button hb => ?_⟩
      change pressed (s.reports ++ [_]) _ = false
      rw [pressed_button]
      split_ifs with hsame
      · -- a press comes before the reset
        have hrelease : packet.release = true := by
          by_contra hpress
          rw [hsound (eq_false_of_ne_true hpress)] at hran
          cases hran
        rw [hrelease]
        rfl
      · exact hothers button hb

theorem inv_mouseButton (h : Inv limelight config s) (id : ℕ) (packet : MouseButton)
    (hsound : packet.release = false → s.resetRan = false) :
    Inv limelight config (passthroughMouseButton limelight config id packet s) := by
  unfold passthroughMouseButton
  by_cases hmouse : config.mouse
  · rw [if_pos hmouse]
    simp only
    by_cases htracked : tracked packet.button = true
    · rw [if_pos htracked]
      split_ifs with hstate
      · -- the button is in this state already
        refine ⟨h.keys, h.buttons, fun button hb hp => ?_, h.entries, h.ran⟩
        change down (s.buttons ++ [packet]) button = true
        have hne : packet.button ≠ button := by
          rintro rfl
          rw [htracked] at hb
          cases hb
        rw [down_append, if_neg hne]
        exact h.untracked button hb hp
      · have hstate : s.mousePress packet.button = packet.release := not_not.mp hstate
        refine inv_trackedButton h id htracked ?_
        by_contra hran
        have hran := eq_true_of_ne_false hran
        rw [(h.ran hran).2.1] at hstate
        rw [hsound hstate.symm] at hran
        cases hran
    · rw [if_neg htracked]
      exact inv_untrackedButton h id (eq_false_of_ne_true htracked) hsound
  · rwa [if_neg hmouse]

/-! ## The worker's steps -/

theorem inv_releaseLeft (h : Inv limelight config s) (timer : ℕ × Timer) :
    Inv limelight config (releaseLeft limelight { s with timers := s.timers.erase timer }) := by
  unfold releaseLeft
  split_ifs with hdown
  · exact h.beside ⟨rfl, rfl, rfl, fun _ _ => .inr hdown⟩ rfl rfl
  · have hup : s.mousePress limelight.buttonLeft = false := eq_false_of_ne_true hdown
    have hpressed : ∀ t, pressed (s.reports ++ [.buttonMouse limelight.buttonLeft true]) t = true →
        t ≠ .button limelight.buttonLeft ∧ pressed s.reports t = true := by
      intro t hp
      rw [pressed_button] at hp
      split_ifs at hp with ht
      · cases hp
      · exact ⟨Ne.symm ht, hp⟩
    have hmouse : Function.update s.mousePress limelight.buttonLeft false = s.mousePress := by
      rw [← hup, Function.update_eq_self]
    refine ⟨fun code hp => h.keys code (hpressed _ hp).2, fun button hb hp => ?_,
      fun button hb hp => h.untracked button hb (hpressed _ hp).2, ?_, fun hran => ?_⟩
    · obtain ⟨hother, hbefore⟩ := hpressed _ hp
      change Function.update s.mousePress limelight.buttonLeft false button = true ∨ _
      rw [hmouse]
      rcases h.buttons button hb hbefore with hheld | ⟨rfl, -⟩
      · exact .inl hheld
      · exact absurd rfl hother
    · change ∀ button, Function.update s.mousePress limelight.buttonLeft false button = true → _
      rw [hmouse]
      exact h.entries
    · obtain ⟨hkeys, hentries, hothers⟩ := h.ran hran
      refine ⟨hkeys, ?_, fun button hb => eq_false_of_ne_true fun hp => ?_⟩
      · change ∀ button, Function.update s.mousePress limelight.buttonLeft false button = false
        rw [hmouse]
        exact hentries
      · have hbefore := (hpressed _ hp).2
        rw [hothers button hb] at hbefore
        cases hbefore

theorem inv_fire (h : Inv limelight config s) (timer : ℕ × Timer) (id : ℕ) :
    Inv limelight config (runTimer limelight config id timer.2 { s with timers := s.timers.erase timer }) := by
  obtain ⟨own, timer⟩ := timer
  cases timer with
  | leftRelease => exact inv_releaseLeft h _
  | repeatKey keyCode flags synthetic =>
    have herase : Inv limelight config { s with
        timers := s.timers.erase (own, .repeatKey keyCode flags synthetic) } :=
      h.beside ⟨rfl, rfl, rfl, fun _ ho => .inl ((List.mem_erase_of_ne (by simp)).mpr ho)⟩ rfl rfl
    exact inv_repeatKey herase id keyCode flags synthetic
  | drain =>
    exact h.beside ⟨rfl, rfl, rfl, fun _ ho => .inl ((List.mem_erase_of_ne (by simp)).mpr ho)⟩ rfl rfl

theorem inv_message (h : Inv limelight config s) (id : ℕ) (hsound : Sound limelight config s (.message id)) :
    Inv limelight config (passthroughNextMessage limelight config id s) := by
  obtain ⟨hkeyboard, hbutton⟩ := hsound
  unfold passthroughNextMessage
  cases hqueue : s.inputQueue with
  | nil => exact h.beside ⟨rfl, rfl, rfl, fun _ ho => .inl ho⟩ rfl rfl
  | cons entry rest =>
    simp only
    have hfront : ∀ p : Packet, p.device = .unbatched → (coalesce batch entry rest).1 = p →
        s.inputQueue.head? = some p := by
      intro p hp heq
      have hsame := coalesce_front (fun _ _ _ hbatch => batch_batched hbatch) entry rest (heq ▸ hp)
      rw [hqueue, ← heq, hsame]
      rfl
    have h₁ : Inv limelight config { s with
        inputQueue := (coalesce batch entry rest).2, running := s.running.map (· + 1) } :=
      h.beside ⟨rfl, rfl, rfl, fun _ ho => .inl ho⟩ rfl rfl
    cases htaken : (coalesce batch entry rest).1 with
    | relMouseMove packet =>
      change Inv limelight config (passthroughRelMouseMove config _)
      unfold passthroughRelMouseMove
      split_ifs
      · exact h₁.beside ⟨rfl, rfl, rfl, fun _ ho => .inl ho⟩ rfl rfl
      · exact h₁
    | absMouseMove packet =>
      change Inv limelight config (passthroughAbsMouseMove config _)
      unfold passthroughAbsMouseMove
      split_ifs
      · exact h₁.beside ⟨rfl, rfl, rfl, fun _ ho => .inl ho⟩ rfl rfl
      · exact h₁
    | mouseButton packet => exact inv_mouseButton h₁ id packet (hbutton packet (hfront _ rfl htaken))
    | keyboard packet => exact inv_keyboard h₁ id packet (hkeyboard packet (hfront _ rfl htaken))
    | scroll | hscroll | unicode | multiController | touch | pen | controllerArrival | controllerTouch
    | controllerMotion | controllerBattery | other => exact h₁

theorem mem_entries {button : UInt8} (h : button < 5) : button ∈ ([0, 1, 2, 3, 4] : List UInt8) := by
  have hlt : button.toNat < 5 := h
  have hofNat : button = UInt8.ofNat button.toNat := UInt8.ofNat_toNat.symm
  rw [hofNat]
  generalize button.toNat = n at hlt
  interval_cases n <;> decide

theorem inv_resetTask (h : Inv limelight config s) {order : List ℕ} (horder : order ~ s.keyPress)
    (hbound : ∀ kpid ∈ s.keyPress, mapKeycode config (vkFromKpid kpid) = vkFromKpid kpid &&& 0x00FF)
    (hup : ∀ button, tracked button = false → down s.buttons button = false) :
    Inv limelight config (resetTask order s) ∧ (resetTask order s).resetRan = true := by
  have hreleases : ∀ t, pressed (resetTask order s).reports t = true → pressed s.reports t = true ∧
      (∀ button, s.mousePress button = true → button < 5 → t ≠ .button button) ∧
      ∀ kpid ∈ s.keyPress, t ≠ .key (vkFromKpid kpid &&& 0x00FF) := by
    intro t hp
    rw [show (resetTask order s).reports = s.reports ++ _ from rfl, pressed_append] at hp
    obtain ⟨hbefore, hother⟩ := pressedAfter_releases (List.forall_mem_append.mpr
      ⟨List.forall_mem_map.mpr fun _ _ => rfl, List.forall_mem_map.mpr fun _ _ => rfl⟩) hp
    refine ⟨hbefore, fun button hdown hlt heq => ?_, fun kpid hkpid heq => ?_⟩
    · refine hother (.buttonMouse button true) (List.mem_append_left _ (List.mem_map.mpr
        ⟨button, List.mem_filter.mpr ⟨mem_entries hlt, hdown⟩, rfl⟩)) heq.symm
    · refine hother (.keyboardUpdate (vkFromKpid kpid &&& 0x00FF) true (flagsFromKpid kpid))
        (List.mem_append_right _ (List.mem_map.mpr ⟨kpid, horder.mem_iff.mpr hkpid, rfl⟩)) heq.symm
  have hentries : ∀ button, (resetTask order s).mousePress button = false := by
    intro button
    change (if button < 5 then false else s.mousePress button) = false
    split_ifs with hlt
    · rfl
    · exact eq_false_of_ne_true fun hdown => hlt (tracked_lt (h.entries button hdown))
  have huntracked : ∀ button, tracked button = false →
      pressed (resetTask order s).reports (.button button) ≠ true := by
    intro button hb hp
    have hdown := h.untracked button hb (hreleases _ hp).1
    rw [hup button hb] at hdown
    cases hdown
  refine ⟨⟨fun code hp => ?_, fun button hb hp => ?_, fun button hb hp => absurd hp (huntracked button hb),
    fun button hdown => ?_, fun _ => ⟨?_, hentries, fun button hb =>
      eq_false_of_ne_true (huntracked button hb)⟩⟩, rfl⟩
  · -- every key that is down has been released under its own code
    obtain ⟨hbefore, -, hkeys⟩ := hreleases _ hp
    obtain ⟨kpid, hkpid, hcode⟩ := h.keys code hbefore
    rw [hbound kpid hkpid] at hcode
    exact absurd (congrArg Target.key hcode.symm) (hkeys kpid hkpid)
  · obtain ⟨hbefore, hbuttons, -⟩ := hreleases _ hp
    rcases h.buttons button hb hbefore with hdown | hdelayed
    · exact absurd rfl (hbuttons button hdown (tracked_lt hb))
    · exact .inr hdelayed
  · rw [hentries button] at hdown
    cases hdown
  · change s.keyPress.filter (· ∉ order) = []
    refine List.filter_eq_nil_iff.mpr fun kpid hkpid => ?_
    simpa using horder.mem_iff.mpr hkpid

theorem inv_reset (h : Inv limelight config s) (hsound : Sound limelight config s .reset) :
    Inv limelight config (reset s) := by
  obtain ⟨hrepeat, htimeout⟩ := hsound
  have hbeside := cancelRepeat_beside hrepeat
  obtain ⟨hreports, hkeys⟩ := cancelRepeat_keys s
  have h₁ := h.beside hbeside hreports hkeys
  unfold reset
  simp only
  cases hold : (cancelRepeat s).mouseLeftButtonTimeout with
  | enableLeftButtonDelay => exact h₁.beside ⟨rfl, rfl, rfl, fun _ ho => .inl ho⟩ rfl rfl
  | disableLeftButtonDelay => exact h₁.beside ⟨rfl, rfl, rfl, fun _ ho => .inl ho⟩ rfl rfl
  | task id =>
    have hspares : Spares limelight (cancelRepeat s) id := by
      intro hleft
      rw [hbeside.mousePress]
      unfold cancelRepeat at hold hleft
      cases hid : s.keyPressRepeatId with
      | none =>
        rw [hid] at hold hleft
        exact htimeout id hold hleft
      | some old =>
        rw [hid] at hold hleft
        exact htimeout id hold (List.mem_of_mem_filter hleft)
    exact h₁.beside ⟨rfl, rfl, rfl, cancel_left hspares⟩ rfl rfl

theorem inv_next (h : Inv limelight config s) (event : Event) (henabled : Enabled s event)
    (hsound : Sound limelight config s event) : Inv limelight config (next limelight config s event) := by
  cases event with
  | packet packet =>
    rw [next]
    simp only
    split_ifs <;> exact h.beside ⟨rfl, rfl, rfl, fun _ ho => .inl ho⟩ rfl rfl
  | reset => exact inv_reset h hsound
  | task order =>
    rw [next]
    cases htasks : s.tasks with
    | nil => exact h
    | cons task tasks =>
      cases task with
      | drain => exact h.beside ⟨rfl, rfl, rfl, fun _ ho => .inl ho⟩ rfl rfl
      | reset =>
        obtain ⟨hbound, hup⟩ := hsound (by rw [htasks]; rfl)
        have h₁ : Inv limelight config { s with tasks := tasks } :=
          h.beside ⟨rfl, rfl, rfl, fun _ ho => .inl ho⟩ rfl rfl
        exact (inv_resetTask h₁ henabled.2.2 hbound hup).1
  | fire timer id => exact inv_fire h timer id
  | message id => exact inv_message h id hsound
  | yield id => exact h.beside ⟨rfl, rfl, rfl, fun _ ho => .inl (List.mem_cons_of_mem _ ho)⟩ rfl rfl

end Steps

/-! ## Runs to the end -/

section Ends

variable {limelight : Limelight} {config : Config} {s s' : State}

/-- A step beside the tasks of the reset. -/
structure SameTasks (s s' : State) : Prop where
  tasks : s'.tasks = s.tasks
  resetCalled : s'.resetCalled = s.resetCalled
  resetRan : s'.resetRan = s.resetRan

theorem SameTasks.trans {s'' : State} (h : SameTasks s s') (h' : SameTasks s' s'') : SameTasks s s'' :=
  ⟨h'.tasks.trans h.tasks, h'.resetCalled.trans h.resetCalled, h'.resetRan.trans h.resetRan⟩

theorem scheduleRepeat_tasks (id : ℕ) (keyCode : UInt16) (flags synthetic : UInt8) (s : State) :
    SameTasks s (scheduleRepeat config id keyCode flags synthetic s) := by
  have hcancel : SameTasks s (cancelRepeat s) := by
    unfold cancelRepeat
    cases s.keyPressRepeatId <;> exact ⟨rfl, rfl, rfl⟩
  unfold scheduleRepeat
  split_ifs
  · exact ⟨hcancel.tasks, hcancel.resetCalled, hcancel.resetRan⟩
  · exact hcancel

theorem sendButton_tasks (id : ℕ) (packet : MouseButton) (h : SameTasks s s') :
    SameTasks s (sendButton limelight id packet s') := by
  rcases sendButton_cases limelight id packet s' with ⟨-, heq⟩ | ⟨-, heq⟩ | heq
  all_goals
    rw [heq]
    exact h.trans ⟨rfl, rfl, rfl⟩

theorem passthroughMouseButton_tasks (id : ℕ) (packet : MouseButton) (s : State) :
    SameTasks s (passthroughMouseButton limelight config id packet s) := by
  unfold passthroughMouseButton
  simp only
  split_ifs
  · exact ⟨rfl, rfl, rfl⟩
  · exact sendButton_tasks id packet ⟨rfl, rfl, rfl⟩
  · exact sendButton_tasks id packet ⟨rfl, rfl, rfl⟩
  · exact ⟨rfl, rfl, rfl⟩

theorem passthroughKeyboard_tasks (id : ℕ) (packet : Keyboard) (s : State) :
    SameTasks s (passthroughKeyboard limelight config id packet s) := by
  unfold passthroughKeyboard
  by_cases hkeyboard : config.keyboard
  · rw [if_pos hkeyboard]
    simp only
    set s₁ := updateAlt (packet.keyCode &&& 0x00FF) packet.release s
    have halt : SameTasks s s₁ := by
      show SameTasks s (updateAlt _ _ s)
      unfold updateAlt
      split_ifs <;> exact ⟨rfl, rfl, rfl⟩
    split_ifs
    · exact halt.trans ⟨rfl, rfl, rfl⟩
    · exact halt
    · exact halt
    · exact halt
    · exact (halt.trans (scheduleRepeat_tasks id _ _ _ s₁)).trans ⟨rfl, rfl, rfl⟩
  · rw [if_neg hkeyboard]
    exact ⟨rfl, rfl, rfl⟩

theorem passthrough_tasks (id : ℕ) (packet : Packet) (s : State) :
    SameTasks s (passthrough limelight config id packet s) := by
  cases packet with
  | relMouseMove packet =>
    change SameTasks s (passthroughRelMouseMove config s)
    unfold passthroughRelMouseMove
    split_ifs <;> exact ⟨rfl, rfl, rfl⟩
  | absMouseMove packet =>
    change SameTasks s (passthroughAbsMouseMove config s)
    unfold passthroughAbsMouseMove
    split_ifs <;> exact ⟨rfl, rfl, rfl⟩
  | mouseButton packet => exact passthroughMouseButton_tasks id packet s
  | keyboard packet => exact passthroughKeyboard_tasks id packet s
  | scroll | hscroll | unicode | multiController | touch | pen | controllerArrival | controllerTouch
  | controllerMotion | controllerBattery | other => exact ⟨rfl, rfl, rfl⟩

theorem runTimer_tasks (id : ℕ) (timer : Timer) (s : State) :
    SameTasks s (runTimer limelight config id timer s) := by
  cases timer with
  | leftRelease =>
    change SameTasks s (releaseLeft limelight s)
    unfold releaseLeft
    split_ifs <;> exact ⟨rfl, rfl, rfl⟩
  | repeatKey keyCode flags synthetic =>
    change SameTasks s (repeatKey limelight config id keyCode flags synthetic s)
    unfold repeatKey
    split_ifs <;> exact ⟨rfl, rfl, rfl⟩
  | drain => exact ⟨rfl, rfl, rfl⟩

/-- A reset that was called has pushed its task, which waits or has run. -/
def ResetDue (s : State) : Prop := s.resetCalled = true → s.resetRan = true ∨ .reset ∈ s.tasks

theorem ResetDue.same (h : ResetDue s) (hsame : SameTasks s s') : ResetDue s' := by
  unfold ResetDue
  rw [hsame.tasks, hsame.resetCalled, hsame.resetRan]
  exact h

theorem resetDue_next (h : ResetDue s) (event : Event) : ResetDue (next limelight config s event) := by
  cases event with
  | packet packet =>
    rw [next]
    simp only
    split_ifs
    · exact h
    · exact fun hcalled => (h hcalled).imp_right (List.mem_append_left _)
  | reset => exact fun _ => .inr (List.mem_append_right _ (List.mem_singleton_self _))
  | task order =>
    rw [next]
    cases htasks : s.tasks with
    | nil => exact h
    | cons task tasks =>
      cases task with
      | drain =>
        intro hcalled
        rcases h hcalled with hran | hmem
        · exact .inl hran
        · rw [htasks] at hmem
          refine .inr ((List.mem_cons.mp hmem).resolve_left fun heq => ?_)
          cases heq
      | reset => exact fun _ => .inl rfl
  | fire timer id =>
    have hsame : SameTasks s { s with timers := s.timers.erase timer } := ⟨rfl, rfl, rfl⟩
    exact h.same (hsame.trans (runTimer_tasks id timer.2 _))
  | message id =>
    change ResetDue (passthroughNextMessage limelight config id s)
    unfold passthroughNextMessage
    cases s.inputQueue with
    | nil => exact h
    | cons entry rest =>
      have hsame : SameTasks s { s with
          inputQueue := (coalesce batch entry rest).2, running := s.running.map (· + 1) } := ⟨rfl, rfl, rfl⟩
      exact h.same (hsame.trans (passthrough_tasks id _ _))
  | yield id => exact h

/-- Everything that was queued before and by the reset has run: only key repetitions are left. -/
structure Settled (s : State) : Prop where
  resetCalled : s.resetCalled = true
  running : s.running = none
  tasks : s.tasks = []
  timers : ∀ timer ∈ s.timers, timer.2 ≠ .leftRelease ∧ timer.2 ≠ .drain

theorem settled_not_pressed (h : Inv limelight config s) (hdue : ResetDue s) (hsettled : Settled s)
    (t : Target) : pressed s.reports t = false := by
  have hran : s.resetRan = true := by
    rcases hdue hsettled.resetCalled with hran | hmem
    · exact hran
    · rw [hsettled.tasks] at hmem
      cases hmem
  obtain ⟨hkeys, hentries, hothers⟩ := h.ran hran
  refine eq_false_of_ne_true fun hp => ?_
  cases t with
  | key code =>
    obtain ⟨kpid, hkpid, -⟩ := h.keys code hp
    rw [hkeys] at hkpid
    cases hkpid
  | button button =>
    cases htracked : tracked button with
    | true =>
      rcases h.buttons button htracked hp with hdown | ⟨-, id, hid⟩
      · rw [hentries button] at hdown
        cases hdown
      · exact (hsettled.timers _ hid).1 rfl
    | false =>
      rw [hothers button htracked] at hp
      cases hp

end Ends

/-- In a run of sound steps that ends with everything done, nothing is left pressed. -/
theorem reset_releases (limelight : Limelight) (config : Config) (events : List Event)
    (h : Runs (fun s e => Enabled s e ∧ Sound limelight config s e) (next limelight config) initial events)
    (hsettled : Settled (events.foldl (next limelight config) initial)) :
    AllReleased (events.foldl (next limelight config) initial).reports := by
  have hinv := h.invariant (fun s => Inv limelight config s ∧ ResetDue s) ⟨inv_initial, nofun⟩
    fun s e hs he => ⟨inv_next hs.1 e he.1 he.2, resetDue_next hs.2 e⟩
  exact allReleased_of_not_pressed (settled_not_pressed hinv.1 hinv.2 hsettled)

/-- The header's values. -/
def header : Limelight := ⟨1, 3, 1, 2, 4, by decide, by decide⟩

def defaults : Config :=
  { mouse := true, keyboard := true, keybindings := [(0x10, 0xA0), (0x11, 0xA2), (0x12, 0xA4)]
    keyRepeatDelay := 500, keyRightaltToKeyWin := false }

/-- A key is pressed, the session ends, and the reset's task runs. -/
def pressAndReset (keyCode : UInt16) : List Event :=
  [.packet (.keyboard ⟨false, 0, keyCode, 0⟩), .task [], .message 1, .message 2, .reset,
    .task [makeKpid keyCode 0]]

theorem reset_releases_key : AllReleased
    ((pressAndReset 0x41).foldl (next header defaults) initial).reports := by
  refine reset_releases header defaults (pressAndReset 0x41)
    ⟨⟨⟨rfl, rfl⟩, trivial⟩, ⟨⟨rfl, nofun, .refl _⟩, nofun⟩,
      ⟨⟨⟨0, rfl, by decide⟩, nofun⟩, fun packet _ _ => ⟨rfl, nofun⟩, fun packet hp => ?_⟩,
      ⟨⟨⟨1, rfl, by decide⟩, ?_⟩, nofun, nofun⟩, ⟨rfl, fun id hid hleft => ?_, nofun⟩,
      ⟨⟨rfl, nofun, .refl _⟩, fun _ => ⟨?_, fun _ _ => rfl⟩⟩, trivial⟩ ⟨rfl, rfl, rfl, nofun⟩
  · cases hp
  · exact List.forall_mem_singleton.mpr nofun
  · cases List.mem_singleton.mp hleft
  · exact List.forall_mem_singleton.mpr (by decide)

/-- Shift is bound to another code. -/
theorem reset_leaves_pressed : ¬∀ (limelight : Limelight) (config : Config) (events : List Event),
    Runs Enabled (next limelight config) initial events →
      Settled (events.foldl (next limelight config) initial) →
        AllReleased (events.foldl (next limelight config) initial).reports := by
  intro h
  have hreleased := h header defaults (pressAndReset 0x10)
    ⟨⟨rfl, rfl⟩, ⟨rfl, nofun, .refl _⟩, ⟨⟨0, rfl, by decide⟩, nofun⟩,
      ⟨⟨1, rfl, by decide⟩, List.forall_mem_singleton.mpr nofun⟩, rfl, ⟨rfl, nofun, .refl _⟩, trivial⟩
    ⟨rfl, rfl, rfl, nofun⟩
  obtain ⟨r, hr, htarget, -⟩ := hreleased [] (.keyboardUpdate 0xA0 false 0)
    [.keyboardUpdate 0x10 true 0] (by decide) rfl
  rw [List.mem_singleton.mp hr] at htarget
  exact absurd htarget (by decide)

end Sunshine.Reset
