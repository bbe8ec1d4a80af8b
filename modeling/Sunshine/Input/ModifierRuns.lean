import Sunshine.Input.Modifiers

/-! Modifiers over whole runs: the flags and the platform follow the keys in exactly the steady runs. -/
namespace Sunshine.Modifiers
open Batching (Keyboard)
open Reset Transitions
set_option autoImplicit false

/-! ## What is sent -/

section Sent

variable {limelight : Limelight} {config : Config} {reports : List Report} {code keyCode : UInt16}
  {flags synthetic : UInt8}

/-- The codes of the synthetic modifiers. -/
def syntheticCodes (limelight : Limelight) (synthetic : UInt8) : List UInt16 :=
  ([(limelight.modifierShift, vkeyShift), (limelight.modifierCtrl, vkeyControl),
    (limelight.modifierAlt, vkeyMenu)].filter fun m => synthetic &&& m.1 ≠ 0).map Prod.snd

theorem mem_syntheticCodes : code ∈ syntheticCodes limelight synthetic ↔
    ∃ m : Modifier, names limelight synthetic m = true ∧ code = m.code := by
  unfold syntheticCodes names
  constructor
  · intro h
    obtain ⟨⟨mask, c⟩, hmem, rfl⟩ := List.mem_map.mp h
    obtain ⟨hpair, hnamed⟩ := List.mem_filter.mp hmem
    simp only [List.mem_cons, Prod.mk.injEq, List.not_mem_nil, or_false] at hpair
    rcases hpair with ⟨rfl, rfl⟩ | ⟨rfl, rfl⟩ | ⟨rfl, rfl⟩
    · exact ⟨.shift, hnamed, rfl⟩
    · exact ⟨.ctrl, hnamed, rfl⟩
    · exact ⟨.alt, hnamed, rfl⟩
  · rintro ⟨m, hnamed, rfl⟩
    refine List.mem_map.mpr ⟨(m.mask limelight, m.code), List.mem_filter.mpr ⟨?_, hnamed⟩, rfl⟩
    cases m <;> simp [Modifier.mask, Modifier.code]

/-- The synthetic modifiers, the key, and the modifiers again. -/
theorem sendKeyAndModifiers_press : sendKeyAndModifiers limelight config keyCode false flags synthetic =
    (syntheticCodes limelight synthetic).map (.keyboardUpdate · false flags) ++
      [.keyboardUpdate (mapKeycode config keyCode) false flags] ++
        (syntheticCodes limelight synthetic).map (.keyboardUpdate · true flags) := by
  unfold sendKeyAndModifiers syntheticCodes
  simp only [Bool.false_eq_true, if_false, List.map_map]
  rfl

theorem sendKeyAndModifiers_release : sendKeyAndModifiers limelight config keyCode true flags synthetic =
    [.keyboardUpdate (mapKeycode config keyCode) true flags] := by
  simp [sendKeyAndModifiers]

theorem pressedAfter_codes (held : Bool) (codes : List UInt16) (release : Bool) :
    pressedAfter (.key code) held (codes.map (.keyboardUpdate · release flags)) =
      if code ∈ codes then !release else held := by
  induction codes generalizing held with
  | nil => rfl
  | cons c codes ih =>
    rw [List.map_cons, ← List.singleton_append, pressedAfter_append, ih]
    by_cases heq : c = code
    · simp [pressedAfter, Report.target, Report.release, heq]
    · simp [pressedAfter, Report.target, heq, Ne.symm heq]

/-- Behind a press the key is pressed, and the synthetic modifiers are not. -/
theorem pressed_press : pressed (reports ++ sendKeyAndModifiers limelight config keyCode false flags synthetic)
    (.key code) = true ↔ code ∉ syntheticCodes limelight synthetic ∧
      (code = mapKeycode config keyCode ∨ pressed reports (.key code) = true) := by
  have hkey := @pressedAfter_codes code flags
    (if code ∈ syntheticCodes limelight synthetic then !false else pressed reports (.key code))
    [mapKeycode config keyCode] false
  rw [List.map_singleton] at hkey
  rw [sendKeyAndModifiers_press, pressed_append, pressedAfter_append, pressedAfter_append,
    pressedAfter_codes _ (syntheticCodes limelight synthetic) false, hkey, pressedAfter_codes]
  by_cases hsynthetic : code ∈ syntheticCodes limelight synthetic
  · simp [hsynthetic]
  · by_cases heq : code = mapKeycode config keyCode
    · simp [heq]
    · simp [hsynthetic, heq]

theorem pressed_release : pressed (reports ++ sendKeyAndModifiers limelight config keyCode true flags synthetic)
    (.key code) = true ↔ code ≠ mapKeycode config keyCode ∧ pressed reports (.key code) = true := by
  have hkey := @pressedAfter_codes code flags (pressed reports (.key code))
    [mapKeycode config keyCode] true
  rw [List.map_singleton] at hkey
  rw [sendKeyAndModifiers_release, pressed_append, hkey]
  by_cases heq : code = mapKeycode config keyCode
  · simp [heq]
  · simp [heq]

end Sent

/-! ## Synthetic modifiers -/

section Synthetic

variable {limelight : Limelight} {config : Config} {packet : Keyboard} {keyCode : UInt16} {s : State}

theorem or_and_ne_zero (a b c : UInt8) : (a ||| b) &&& c ≠ 0 ↔ a &&& c ≠ 0 ∨ b &&& c ≠ 0 := by
  have hdistrib : (a ||| b) &&& c = a &&& c ||| b &&& c := UInt8.toBitVec_inj.mp BitVec.and_or_distrib_right
  rw [hdistrib, Ne, UInt8.or_eq_zero_iff]
  exact Decidable.not_and_iff_or_not

theorem left_ne_zero {a b : UInt8} (h : ¬a &&& b = 0) : ¬a = 0 := by
  rintro rfl
  exact h UInt8.zero_and

theorem ite_and_ne_zero {p : Prop} [Decidable p] (a b : UInt8) :
    (if p then a else 0) &&& b ≠ 0 ↔ p ∧ a &&& b ≠ 0 := by
  by_cases h : p
  · simp [h]
  · simp [h]

/-- A modifier is synthetic if a key that is none needs it and its flag is not set. -/
theorem names_syntheticModifiers (hseparate : Separate limelight) (m : Modifier) :
    names limelight (syntheticModifiers limelight config packet keyCode s) m = true ↔
      packet.release = false ∧ isModifier keyCode = false ∧ m.flag s.shortcutFlags = false ∧
        names limelight (requestedModifiers limelight config packet s) m = true := by
  have hrequested : ∀ mask, (if config.keyRightaltToKeyWin ∧ s.rightAltPressed ∧ !s.leftAltPressed then
      packet.modifiers &&& ~~~limelight.modifierAlt else packet.modifiers) &&& mask =
        requestedModifiers limelight config packet s &&& mask := fun _ => rfl
  obtain ⟨hsc, hsa, hca⟩ := hseparate
  unfold names syntheticModifiers
  by_cases hnone : packet.release = true ∨ isModifier keyCode = true
  · simp only [hnone, if_true]
    rcases hnone with h | h
    · simp [h]
    · simp [h]
  · rw [not_or, Bool.not_eq_true, Bool.not_eq_true] at hnone
    simp only [hnone.1, hnone.2, Bool.false_eq_true, or_self, if_false, hrequested, decide_eq_true_eq, true_and,
      or_and_ne_zero, ite_and_ne_zero]
    cases m with
    | shift =>
      simp [Modifier.mask, Modifier.flag, hsc, hsa, UInt8.and_comm]
      exact fun _ => left_ne_zero
    | ctrl =>
      simp [Modifier.mask, Modifier.flag, hsc, hca, UInt8.and_comm]
      exact fun _ => left_ne_zero
    | alt =>
      simp [Modifier.mask, Modifier.flag, hsa, hca, UInt8.and_comm]
      exact fun _ => left_ne_zero

end Synthetic

/-! ## Steps -/

section Steps

variable {limelight : Limelight} {config : Config} {w : Watch} {s : State} {packet : Keyboard} {keyCode : UInt16}
  {flags synthetic : UInt8} {id : ℕ}

/-- What the flags of the two alt keys do not touch. -/
theorem updateAlt_eq (keyCode : UInt16) (release : Bool) (s : State) :
    ∃ left right, updateAlt keyCode release s = { s with leftAltPressed := left, rightAltPressed := right } := by
  unfold updateAlt
  by_cases hleft : keyCode = vkeyLMenu
  · rw [if_pos hleft]
    exact ⟨_, _, rfl⟩
  · rw [if_neg hleft]
    by_cases hright : keyCode = vkeyRMenu
    · rw [if_pos hright]
      exact ⟨_, _, rfl⟩
    · rw [if_neg hright]
      exact ⟨_, _, rfl⟩

/-- The modifiers that the key is sent with at its press. -/
def syntheticOf (limelight : Limelight) (config : Config) (packet : Keyboard) (s : State) : UInt8 :=
  syntheticModifiers limelight config packet (keyCodeOf packet) (updateAlt (keyCodeOf packet) false s)

/-- The key is sent pressed, and its repetition replaces the pending one. -/
def pressKey (limelight : Limelight) (config : Config) (id : ℕ) (packet : Keyboard) (s : State) : State :=
  let synthetic := syntheticOf limelight config packet s
  let s := scheduleRepeat config id (keyCodeOf packet) packet.flags synthetic (updateAlt (keyCodeOf packet) false s)
  sendKey limelight config packet (keyCodeOf packet) synthetic { s with keyPress := kpidOf packet :: s.keyPress }

def releaseKey (limelight : Limelight) (config : Config) (packet : Keyboard) (s : State) : State :=
  let s := updateAlt (keyCodeOf packet) true s
  sendKey limelight config packet (keyCodeOf packet)
    (syntheticModifiers limelight config packet (keyCodeOf packet) s)
    { s with keyPress := s.keyPress.filter (· ≠ kpidOf packet) }

/-- What a packet does when the entries of the keys say what the client holds. -/
theorem passthroughKeyboard_eq (hkeyboard : config.keyboard = true) (id : ℕ) (packet : Keyboard) :
    passthroughKeyboard limelight config id packet s =
      if packet.release = true then
        if kpidOf packet ∈ s.keyPress then releaseKey limelight config packet s
        else updateAlt (keyCodeOf packet) true s
      else if kpidOf packet ∈ s.keyPress then updateAlt (keyCodeOf packet) false s
      else if consumes packet s = true then updateAlt (keyCodeOf packet) false s
      else pressKey limelight config id packet s := by
  have hkeys : ∀ release, (updateAlt (keyCodeOf packet) release s).keyPress = s.keyPress := by
    intro release
    obtain ⟨left, right, h⟩ := updateAlt_eq (keyCodeOf packet) release s
    rw [h]
  have hflags : ∀ release, (updateAlt (keyCodeOf packet) release s).shortcutFlags = s.shortcutFlags := by
    intro release
    obtain ⟨left, right, h⟩ := updateAlt_eq (keyCodeOf packet) release s
    rw [h]
  have hconsumes : (s.shortcutFlags = ⟨true, true, true⟩ ∧ applyShortcut (keyCodeOf packet) = true) ↔
      consumes packet s = true := by
    simp [consumes]
  unfold passthroughKeyboard
  rw [if_pos hkeyboard]
  change (if kpidOf packet ∉ (updateAlt (keyCodeOf packet) packet.release s).keyPress then _ else _) = _
  rw [hkeys]
  by_cases hpressed : kpidOf packet ∈ s.keyPress
  · rw [if_neg (not_not.mpr hpressed), if_pos hpressed, if_pos hpressed]
    cases hrelease : packet.release with
    | false => rfl
    | true =>
      rw [if_pos rfl, if_pos rfl]
      rfl
  · rw [if_pos hpressed, if_neg hpressed, if_neg hpressed]
    cases hrelease : packet.release with
    | true => rfl
    | false =>
      rw [if_neg Bool.false_ne_true, if_neg Bool.false_ne_true]
      change (if (updateAlt (keyCodeOf packet) false s).shortcutFlags = ⟨true, true, true⟩ ∧
        applyShortcut (keyCodeOf packet) = true then _ else _) = _
      rw [hflags]
      by_cases hconsumed : consumes packet s = true
      · rw [if_pos hconsumed, if_pos (hconsumes.mpr hconsumed)]
        rfl
      · rw [if_neg hconsumed, if_neg fun h => hconsumed (hconsumes.mp h)]
        rfl

theorem image_makeKpid (keyCode : UInt16) (flags : UInt8) :
    image config (makeKpid keyCode flags) = mapKeycode config keyCode := by
  rw [image, vkFromKpid_makeKpid]

theorem image_kpidOf (packet : Keyboard) : image config (kpidOf packet) = mapKeycode config (keyCodeOf packet) :=
  image_makeKpid _ _

end Steps

/-! ## The invariant -/

section Invariant

variable (limelight : Limelight) (config : Config)

/-- At most one repetition is pending, and it is known to the next press. Its synthetic modifiers are no keys that are
held. -/
def Pending (s : State) (held : List ℕ) : Prop :=
  s.timers = [] ∨ ∃ id keyCode flags synthetic, s.timers = [(id, .repeatKey keyCode flags synthetic)] ∧
    s.keyPressRepeatId = some id ∧ (makeKpid keyCode flags ∈ held →
      ∀ kpid ∈ held, image config kpid ∉ syntheticCodes limelight synthetic)

structure Inv (w : Watch) : Prop where
  keyPress : ∀ kpid, kpid ∈ w.state.keyPress ↔ kpid ∈ w.held
  flags : ∀ m : Modifier, m.flag w.state.shortcutFlags = true ↔ ∃ kpid ∈ w.held, image config kpid ∈ m.codes
  consumed : ∀ m : Modifier, ∀ kpid ∈ w.consumed, image config kpid ∈ m.codes →
    m.flag w.state.shortcutFlags = true
  platform : ∀ code, pressed w.state.reports (.key code) = true ↔ ∃ kpid ∈ w.held, image config kpid = code
  pending : Pending limelight config w.state w.held

end Invariant

section Kept

variable {limelight : Limelight} {config : Config} {w : Watch} {packet : Keyboard} {id : ℕ}

theorem inv_initial : Inv limelight config Watch.initial where
  keyPress _ := Iff.rfl
  flags m := by cases m <;> simp [Watch.initial, Reset.initial, Modifier.flag]
  consumed _ _ h := absurd h List.not_mem_nil
  platform _ := by simp [Watch.initial, Reset.initial, pressed, pressedAfter]
  pending := .inl rfl

theorem Inv.follows (h : Inv limelight config w) : Follows config w where
  flags m := by
    rw [h.flags m]
    constructor
    · rintro ⟨kpid, hheld, hcode⟩
      exact ⟨kpid, List.mem_append_left _ hheld, hcode⟩
    · rintro ⟨kpid, hmem, hcode⟩
      rcases List.mem_append.mp hmem with hheld | hconsumed
      · exact ⟨kpid, hheld, hcode⟩
      · exact (h.flags m).mp (h.consumed m kpid hconsumed hcode)
  platform := h.platform

/-- A packet that is not sent. A shortcut consumes a key while all the flags are set. -/
theorem Inv.quiet (h : Inv limelight config w) (release : Bool) {held consumed : List ℕ} {modifiers : ℕ → UInt8}
    (hheld : ∀ kpid, kpid ∈ held ↔ kpid ∈ w.held)
    (hconsumed : ∀ kpid ∈ consumed, kpid ∈ w.consumed ∨ w.state.shortcutFlags = ⟨true, true, true⟩) :
    Inv limelight config ⟨updateAlt (keyCodeOf packet) release w.state, held, consumed, modifiers⟩ := by
  obtain ⟨left, right, hstate⟩ := updateAlt_eq (keyCodeOf packet) release w.state
  rw [hstate]
  refine ⟨fun kpid => ?_, fun m => ?_, fun m kpid hmem hcode => ?_, fun code => ?_, ?_⟩
  · exact (h.keyPress kpid).trans (hheld kpid).symm
  · simp only [hheld]
    exact h.flags m
  · rcases hconsumed kpid hmem with hold | hall
    · exact h.consumed m kpid hold hcode
    · change m.flag w.state.shortcutFlags = true
      rw [hall]
      cases m <;> rfl
  · simp only [hheld]
    exact h.platform code
  · unfold Pending
    simp only [hheld]
    exact h.pending

/-- The key that is released is the only one with its code, and the only one of its modifier. -/
theorem Inv.release (h : Inv limelight config w) (hrelease : packet.release = true)
    (hmem : kpidOf packet ∈ w.held) (hsteady : SteadyRelease config w (kpidOf packet)) {modifiers : ℕ → UInt8} :
    Inv limelight config ⟨releaseKey limelight config packet w.state, w.held.filter (· ≠ kpidOf packet),
      w.consumed.filter (· ≠ kpidOf packet), modifiers⟩ := by
  obtain ⟨hcode, hclass⟩ := hsteady hmem
  obtain ⟨left, right, hstate⟩ := updateAlt_eq (keyCodeOf packet) true w.state
  unfold releaseKey sendKey
  dsimp only
  rw [hstate, hrelease]
  have hheld : ∀ kpid, kpid ∈ w.held.filter (· ≠ kpidOf packet) ↔ kpid ∈ w.held ∧ kpid ≠ kpidOf packet := by
    simp
  have hflag : ∀ m : Modifier, m.flag (updateShortcutFlags w.state.shortcutFlags
      (mapKeycode config (keyCodeOf packet)) true) =
        if image config (kpidOf packet) ∈ m.codes then false else m.flag w.state.shortcutFlags := by
    intro m
    rw [flag_updateShortcutFlags, image_kpidOf, Bool.not_true]
  refine ⟨fun kpid => ?_, fun m => ?_, fun m kpid hconsumed hkpid => ?_, fun code => ?_, ?_⟩
  · have hfilter : kpid ∈ w.state.keyPress.filter (· ≠ kpidOf packet) ↔
        kpid ∈ w.held.filter (· ≠ kpidOf packet) := by
      simp only [List.mem_filter, h.keyPress kpid]
    exact hfilter
  · refine (Bool.eq_iff_iff.mp (hflag m)).trans ?_
    by_cases hown : image config (kpidOf packet) ∈ m.codes
    · rw [if_pos hown]
      refine iff_of_false Bool.false_ne_true ?_
      rintro ⟨kpid, hkpid, hother⟩
      obtain ⟨hkpid, hne⟩ := (hheld kpid).mp hkpid
      exact hclass m hown kpid (List.mem_append_left _ hkpid) hne hother
    · rw [if_neg hown, h.flags m]
      constructor
      · rintro ⟨kpid, hkpid, hother⟩
        refine ⟨kpid, (hheld kpid).mpr ⟨hkpid, ?_⟩, hother⟩
        rintro rfl
        exact hown hother
      · rintro ⟨kpid, hkpid, hother⟩
        exact ⟨kpid, ((hheld kpid).mp hkpid).1, hother⟩
  · obtain ⟨hconsumed, hne⟩ := List.mem_filter.mp hconsumed
    refine (hflag m).trans ?_
    rw [if_neg fun hown => hclass m hown kpid (List.mem_append_right _ hconsumed) (of_decide_eq_true hne) hkpid]
    exact h.consumed m kpid hconsumed hkpid
  · refine pressed_release.trans ?_
    rw [h.platform code, ← image_kpidOf]
    constructor
    · rintro ⟨hne, kpid, hkpid, rfl⟩
      refine ⟨kpid, (hheld kpid).mpr ⟨hkpid, ?_⟩, rfl⟩
      rintro rfl
      exact hne rfl
    · rintro ⟨kpid, hkpid, rfl⟩
      obtain ⟨hkpid, hne⟩ := (hheld kpid).mp hkpid
      exact ⟨hcode kpid hkpid hne, kpid, hkpid, rfl⟩
  · refine h.pending.imp id ?_
    rintro ⟨id, keyCode, flags, synthetic, htimers, hid, hsynthetic⟩
    refine ⟨id, keyCode, flags, synthetic, htimers, hid, fun hkey kpid hkpid => ?_⟩
    exact hsynthetic ((hheld _).mp hkey).1 kpid ((hheld kpid).mp hkpid).1

/-- A press cancels the repetition that is pending. -/
theorem cancelRepeat_timers {s : State} {held : List ℕ} (h : Pending limelight config s held) :
    (cancelRepeat s).timers = [] := by
  unfold cancelRepeat
  rcases h with hnone | ⟨id, keyCode, flags, synthetic, htimers, hid, -⟩
  · cases s.keyPressRepeatId with
    | none => exact hnone
    | some id => simp [cancel, hnone]
  · rw [hid]
    simp [cancel, htimers]

theorem scheduleRepeat_eq {s : State} {held : List ℕ} (h : Pending limelight config s held) (id : ℕ)
    (keyCode : UInt16) (flags synthetic : UInt8) :
    ∃ timers keyPressRepeatId, scheduleRepeat config id keyCode flags synthetic s =
      { s with timers, keyPressRepeatId } ∧
      (timers = [] ∨ timers = [(id, .repeatKey keyCode flags synthetic)] ∧ keyPressRepeatId = some id) := by
  have hnone := cancelRepeat_timers h
  obtain ⟨timers, hcancel⟩ : ∃ timers, cancelRepeat s = { s with timers } := by
    unfold cancelRepeat
    split
    · exact ⟨_, rfl⟩
    · exact ⟨s.timers, rfl⟩
  rw [hcancel] at hnone
  have htimers : timers = [] := hnone
  unfold scheduleRepeat
  rw [hcancel, htimers]
  by_cases hdelay : 0 < config.keyRepeatDelay
  · rw [if_pos hdelay]
    exact ⟨_, _, rfl, .inr ⟨rfl, rfl⟩⟩
  · rw [if_neg hdelay]
    exact ⟨_, _, rfl, .inl rfl⟩

/-- No key that is held behind the press has the code of a synthetic modifier. -/
theorem Inv.synthetic (hseparate : Separate limelight) (h : Inv limelight config w)
    (hmem : kpidOf packet ∉ w.held) (hconsumes : consumes packet w.state = false)
    (hsteady : SteadyPress limelight config w packet) :
    ∀ kpid ∈ kpidOf packet :: w.held,
      image config kpid ∉ syntheticCodes limelight (syntheticOf limelight config packet w.state) := by
  intro kpid hkpid hcode
  obtain ⟨m, hnamed, hcode⟩ := mem_syntheticCodes.mp hcode
  obtain ⟨-, hother, hflag, hrequested⟩ := (names_syntheticModifiers hseparate m).mp hnamed
  obtain ⟨left, right, hstate⟩ := updateAlt_eq (keyCodeOf packet) false w.state
  have hflag' : m.flag w.state.shortcutFlags = false := by
    rw [hstate] at hflag
    exact hflag
  rcases List.mem_cons.mp hkpid with rfl | hheld
  · exact (hsteady hmem hconsumes m hflag' hrequested).1 hother hcode
  · rw [(h.flags m).mpr ⟨kpid, hheld, hcode ▸ m.code_mem⟩] at hflag'
    cases hflag'

/-- A key is pressed beside the keys that are held. -/
theorem Inv.press (h : Inv limelight config w) (hpress : packet.release = false)
    (hsynthetic : ∀ kpid ∈ kpidOf packet :: w.held,
      image config kpid ∉ syntheticCodes limelight (syntheticOf limelight config packet w.state))
    (id : ℕ) {modifiers : ℕ → UInt8} :
    Inv limelight config ⟨pressKey limelight config id packet w.state, kpidOf packet :: w.held,
      w.consumed.filter (· ≠ kpidOf packet), modifiers⟩ := by
  obtain ⟨left, right, hstate⟩ := updateAlt_eq (keyCodeOf packet) false w.state
  have hpending : Pending limelight config (updateAlt (keyCodeOf packet) false w.state) w.held := by
    rw [hstate]
    exact h.pending
  obtain ⟨timers, keyPressRepeatId, hschedule, htimers⟩ := scheduleRepeat_eq hpending id (keyCodeOf packet)
    packet.flags (syntheticOf limelight config packet w.state)
  have hflag : ∀ m : Modifier, m.flag (updateShortcutFlags w.state.shortcutFlags
      (mapKeycode config (keyCodeOf packet)) false) =
        if image config (kpidOf packet) ∈ m.codes then true else m.flag w.state.shortcutFlags := by
    intro m
    rw [flag_updateShortcutFlags, image_kpidOf, Bool.not_false]
  unfold pressKey sendKey
  dsimp only
  rw [hschedule, hstate, hpress]
  refine ⟨fun kpid => ?_, fun m => ?_, fun m kpid hconsumed hkpid => ?_, fun code => ?_, ?_⟩
  · have hcons : kpid ∈ kpidOf packet :: w.state.keyPress ↔ kpid ∈ kpidOf packet :: w.held := by
      simp only [List.mem_cons, h.keyPress kpid]
    exact hcons
  · refine (Bool.eq_iff_iff.mp (hflag m)).trans ?_
    by_cases hown : image config (kpidOf packet) ∈ m.codes
    · rw [if_pos hown]
      exact iff_of_true rfl ⟨_, List.mem_cons_self, hown⟩
    · rw [if_neg hown, h.flags m]
      constructor
      · rintro ⟨kpid, hkpid, hcode⟩
        exact ⟨kpid, List.mem_cons_of_mem _ hkpid, hcode⟩
      · rintro ⟨kpid, hkpid, hcode⟩
        rcases List.mem_cons.mp hkpid with rfl | hheld
        · exact absurd hcode hown
        · exact ⟨kpid, hheld, hcode⟩
  · refine (hflag m).trans ?_
    by_cases hown : image config (kpidOf packet) ∈ m.codes
    · rw [if_pos hown]
    · rw [if_neg hown]
      exact h.consumed m kpid (List.mem_filter.mp hconsumed).1 hkpid
  · refine pressed_press.trans ?_
    rw [h.platform code, ← image_kpidOf]
    constructor
    · rintro ⟨-, rfl | ⟨kpid, hkpid, rfl⟩⟩
      · exact ⟨_, List.mem_cons_self, rfl⟩
      · exact ⟨kpid, List.mem_cons_of_mem _ hkpid, rfl⟩
    · rintro ⟨kpid, hkpid, rfl⟩
      refine ⟨hsynthetic kpid hkpid, ?_⟩
      rcases List.mem_cons.mp hkpid with rfl | hheld
      · exact .inl rfl
      · exact .inr ⟨kpid, hheld, rfl⟩
  · rcases htimers with hnone | ⟨htimers, hid⟩
    · exact .inl hnone
    · exact .inr ⟨id, keyCodeOf packet, packet.flags, _, htimers, hid, fun _ => hsynthetic⟩

/-- The repetition that runs is the pending one: it sends its key again while the client holds it. -/
theorem Inv.next_repeatKey (h : Inv limelight config w) {timer : ℕ} {keyCode : UInt16} {flags synthetic : UInt8}
    (hmem : (timer, .repeatKey keyCode flags synthetic) ∈ w.state.timers) (id : ℕ) :
    next limelight config w.state (.repeatKey timer keyCode flags synthetic id) =
      if makeKpid keyCode flags ∈ w.held then
        { report (sendKeyAndModifiers limelight config keyCode false flags synthetic) w.state with
          timers := [(id, .repeatKey keyCode flags synthetic)], keyPressRepeatId := some id }
      else { w.state with timers := [], keyPressRepeatId := none } := by
  have herase : w.state.timers.erase (timer, .repeatKey keyCode flags synthetic) = [] := by
    rcases h.pending with hnone | ⟨id', keyCode', flags', synthetic', htimers, -, -⟩
    · rw [hnone] at hmem
      cases hmem
    · rw [htimers] at hmem ⊢
      rw [List.mem_singleton.mp hmem, List.erase_cons_head]
  have hnext : next limelight config w.state (.repeatKey timer keyCode flags synthetic id) =
    repeatKey limelight config id keyCode flags synthetic
      { w.state with timers := w.state.timers.erase (timer, .repeatKey keyCode flags synthetic) } := rfl
  rw [hnext, herase]
  unfold repeatKey
  by_cases hheld : makeKpid keyCode flags ∈ w.held
  · have hpressed := (h.keyPress _).mpr hheld
    rw [if_pos hheld, if_pos (by exact hpressed)]
    rfl
  · have hpressed : makeKpid keyCode flags ∉ w.state.keyPress := fun hp => hheld ((h.keyPress _).mp hp)
    rw [if_neg hheld, if_neg (by exact hpressed)]

theorem Inv.repetition (h : Inv limelight config w) {timer : ℕ} {keyCode : UInt16} {flags synthetic : UInt8}
    (hmem : (timer, .repeatKey keyCode flags synthetic) ∈ w.state.timers) (id : ℕ) :
    Inv limelight config
      { w with state := next limelight config w.state (.repeatKey timer keyCode flags synthetic id) } := by
  rw [h.next_repeatKey hmem]
  by_cases hheld : makeKpid keyCode flags ∈ w.held
  · rw [if_pos hheld]
    have hsynthetic : ∀ kpid ∈ w.held, image config kpid ∉ syntheticCodes limelight synthetic := by
      rcases h.pending with hnone | ⟨id', keyCode', flags', synthetic', htimers, -, hother⟩
      · rw [hnone] at hmem
        cases hmem
      · rw [htimers] at hmem
        cases List.mem_singleton.mp hmem
        exact hother hheld
    refine ⟨h.keyPress, h.flags, h.consumed, fun code => pressed_press.trans ?_,
      .inr ⟨id, keyCode, flags, synthetic, rfl, rfl, fun _ => hsynthetic⟩⟩
    rw [h.platform code, ← image_makeKpid keyCode flags]
    constructor
    · rintro ⟨-, rfl | hcode⟩
      · exact ⟨_, hheld, rfl⟩
      · exact hcode
    · rintro ⟨kpid, hkpid, rfl⟩
      exact ⟨hsynthetic kpid hkpid, .inr ⟨kpid, hkpid, rfl⟩⟩
  · rw [if_neg hheld]
    exact ⟨h.keyPress, h.flags, h.consumed, h.platform, .inl rfl⟩

/-- The five things a packet can do. -/
theorem Inv.nextWatch_keyboard (h : Inv limelight config w) (hkeyboard : config.keyboard = true) (id : ℕ) :
    nextWatch limelight config w (.keyboard packet id) =
      if packet.release = true then
        if kpidOf packet ∈ w.held then
          ⟨releaseKey limelight config packet w.state, w.held.filter (· ≠ kpidOf packet),
            w.consumed.filter (· ≠ kpidOf packet), w.modifiers⟩
        else
          ⟨updateAlt (keyCodeOf packet) true w.state, w.held.filter (· ≠ kpidOf packet),
            w.consumed.filter (· ≠ kpidOf packet), w.modifiers⟩
      else if kpidOf packet ∈ w.held then
        ⟨updateAlt (keyCodeOf packet) false w.state, w.held, w.consumed, w.modifiers⟩
      else if consumes packet w.state = true then
        ⟨updateAlt (keyCodeOf packet) false w.state, w.held,
          kpidOf packet :: w.consumed.filter (· ≠ kpidOf packet), w.modifiers⟩
      else
        ⟨pressKey limelight config id packet w.state, kpidOf packet :: w.held,
          w.consumed.filter (· ≠ kpidOf packet), Function.update w.modifiers (kpidOf packet)
            (requestedModifiers limelight config packet (updateAlt (keyCodeOf packet) false w.state))⟩ := by
  have hstate : next limelight config w.state (.keyboard packet id) = _ :=
    @passthroughKeyboard_eq limelight config w.state hkeyboard id packet
  simp only [h.keyPress] at hstate
  unfold nextWatch
  dsimp only
  rw [hstate, hkeyboard]
  by_cases hrelease : packet.release = true
  · by_cases hheld : kpidOf packet ∈ w.held
    · simp only [hrelease, hheld, Bool.not_true, Bool.false_eq_true, if_true, if_false]
    · simp only [hrelease, hheld, Bool.not_true, Bool.false_eq_true, if_true, if_false]
  · by_cases hheld : kpidOf packet ∈ w.held
    · simp only [hrelease, hheld, Bool.not_true, Bool.false_eq_true, if_true, if_false]
    · by_cases hconsumes : consumes packet w.state = true
      · simp only [hrelease, hheld, hconsumes, Bool.not_true, Bool.false_eq_true, if_true, if_false]
      · simp only [hrelease, hheld, hconsumes, Bool.not_true, Bool.false_eq_true, if_false]

end Kept

/-! ## Keys and their modifiers -/

section Company

variable {limelight : Limelight} {config : Config} {w : Watch} {e : Event} {keyCode : UInt16}
  {flags synthetic : UInt8}

theorem Modifier.eq_of_code_mem {m n : Modifier} (h : m.code ∈ n.codes) : m = n := by
  revert h
  cases m <;> cases n <;> decide

/-- Nothing is pressed in the step. -/
theorem accompanied_of_releases {new : List Report}
    (hreports : (nextWatch limelight config w e).state.reports = w.state.reports ++ new)
    (hnew : ∀ r ∈ new, r.release = true) : Accompanied limelight config w e := by
  intro front code flags later heq
  rw [hreports] at heq
  have hpress : Report.keyboardUpdate code false flags ∈ new := by
    rw [List.append_cancel_left heq]
    exact List.mem_append_right _ List.mem_cons_self
  cases hnew _ hpress

/-- The modifiers of the key that is sent are synthetic, or were pressed before. -/
theorem accompanied_iff (hreports : (nextWatch limelight config w e).state.reports =
      w.state.reports ++ sendKeyAndModifiers limelight config keyCode false flags synthetic) :
    Accompanied limelight config w e ↔ (isModifier (mapKeycode config keyCode) = false →
      ∀ m, names limelight ((nextWatch limelight config w e).modifiers e.kpid) m = true →
        names limelight synthetic m = true ∨ ∃ c ∈ m.codes, pressed w.state.reports (.key c) = true) := by
  rw [sendKeyAndModifiers_press, List.append_assoc] at hreports
  have hpressed : ∀ c, pressed (w.state.reports ++
      (syntheticCodes limelight synthetic).map (.keyboardUpdate · false flags)) (.key c) =
        if c ∈ syntheticCodes limelight synthetic then true else pressed w.state.reports (.key c) := by
    intro c
    rw [pressed_append, pressedAfter_codes, Bool.not_false]
  constructor
  · intro h hother m hnamed
    obtain ⟨c, hc, hdown⟩ := h _ _ _ _ hreports hother m hnamed
    rw [hpressed] at hdown
    by_cases hsynthetic : c ∈ syntheticCodes limelight synthetic
    · obtain ⟨n, hn, rfl⟩ := mem_syntheticCodes.mp hsynthetic
      rw [← Modifier.eq_of_code_mem hc]
      exact .inl hn
    · rw [if_neg hsynthetic] at hdown
      exact .inr ⟨c, hc, hdown⟩
  · intro h front code flags' later heq hother m hnamed
    rw [hreports] at heq
    have hfront : Report.keyboardUpdate code false flags' ∉
        (syntheticCodes limelight synthetic).map (.keyboardUpdate · false flags) := by
      intro hmem
      obtain ⟨c, hc, hreport⟩ := List.mem_map.mp hmem
      obtain ⟨n, -, rfl⟩ := mem_syntheticCodes.mp hc
      have hcode := isModifier_code n
      rw [(Report.keyboardUpdate.inj hreport).1, hother] at hcode
      cases hcode
    have hback : Report.keyboardUpdate code false flags' ∉
        (syntheticCodes limelight synthetic).map (.keyboardUpdate · true flags) := by
      intro hmem
      obtain ⟨c, -, hreport⟩ := List.mem_map.mp hmem
      cases (Report.keyboardUpdate.inj hreport).2.1
    -- So the press is the key's own.
    obtain ⟨rfl, hkey, -⟩ := (List.append_cons_inj_of_notMem hfront hback).mp (List.append_cancel_left heq)
    rw [← (Report.keyboardUpdate.inj hkey).1] at hother
    rcases h hother m hnamed with hsynthetic | ⟨c, hc, hdown⟩
    · refine ⟨m.code, m.code_mem, ?_⟩
      rw [hpressed, if_pos (mem_syntheticCodes.mpr ⟨m, hsynthetic, rfl⟩)]
    · refine ⟨c, hc, ?_⟩
      rw [hpressed, hdown, ite_self]

/-- A flag that is set belongs to a key that the platform sees pressed. -/
theorem Inv.flag_pressed (h : Inv limelight config w) {m : Modifier} (hflag : m.flag w.state.shortcutFlags = true) :
    ∃ c ∈ m.codes, pressed w.state.reports (.key c) = true := by
  obtain ⟨kpid, hheld, hcode⟩ := (h.flags m).mp hflag
  exact ⟨image config kpid, hcode, (h.platform _).mpr ⟨kpid, hheld, rfl⟩⟩

theorem Inv.flag_of_pressed (h : Inv limelight config w) {m : Modifier} {c : UInt16} (hc : c ∈ m.codes)
    (hpressed : pressed w.state.reports (.key c) = true) : m.flag w.state.shortcutFlags = true := by
  obtain ⟨kpid, hheld, rfl⟩ := (h.platform c).mp hpressed
  exact (h.flags m).mpr ⟨kpid, hheld, hc⟩

theorem updateAlt_reports (keyCode : UInt16) (release : Bool) (s : State) :
    (updateAlt keyCode release s).reports = s.reports := by
  obtain ⟨left, right, h⟩ := updateAlt_eq keyCode release s
  rw [h]

theorem releaseKey_reports {packet : Keyboard} (hrelease : packet.release = true) (s : State) :
    (releaseKey limelight config packet s).reports =
      s.reports ++ [.keyboardUpdate (mapKeycode config (keyCodeOf packet)) true packet.flags] := by
  have hreports : (releaseKey limelight config packet s).reports =
    (updateAlt (keyCodeOf packet) true s).reports ++ sendKeyAndModifiers limelight config (keyCodeOf packet)
      packet.release packet.flags _ := rfl
  rw [hreports, updateAlt_reports, hrelease, sendKeyAndModifiers_release]

theorem Inv.pressKey_reports (h : Inv limelight config w) {packet : Keyboard} (hpress : packet.release = false)
    (id : ℕ) : (pressKey limelight config id packet w.state).reports = w.state.reports ++
      sendKeyAndModifiers limelight config (keyCodeOf packet) false packet.flags
        (syntheticOf limelight config packet w.state) := by
  obtain ⟨left, right, hstate⟩ := updateAlt_eq (keyCodeOf packet) false w.state
  have hpending : Pending limelight config (updateAlt (keyCodeOf packet) false w.state) w.held := by
    rw [hstate]
    exact h.pending
  obtain ⟨timers, keyPressRepeatId, hschedule, -⟩ := scheduleRepeat_eq hpending id (keyCodeOf packet)
    packet.flags (syntheticOf limelight config packet w.state)
  unfold pressKey sendKey
  dsimp only
  rw [hschedule, hstate, hpress]
  rfl

/-- A key is pressed with the modifiers it asks for, if those that are not held are synthetic. -/
theorem Inv.accompanied_press (hseparate : Separate limelight) (h : Inv limelight config w) {packet : Keyboard}
    {id : ℕ} (hpress : packet.release = false)
    (hwatch : nextWatch limelight config w (.keyboard packet id) =
      ⟨pressKey limelight config id packet w.state, kpidOf packet :: w.held,
        w.consumed.filter (· ≠ kpidOf packet), Function.update w.modifiers (kpidOf packet)
          (requestedModifiers limelight config packet (updateAlt (keyCodeOf packet) false w.state))⟩) :
    Accompanied limelight config w (.keyboard packet id) ↔
      (isModifier (image config (kpidOf packet)) = false → isModifier (keyCodeOf packet) = true →
        ∀ m : Modifier, names limelight
          (requestedModifiers limelight config packet (updateAlt (keyCodeOf packet) false w.state)) m = true →
            m.flag w.state.shortcutFlags = true) := by
  have hreports : (nextWatch limelight config w (.keyboard packet id)).state.reports = _ :=
    (congrArg (fun w => w.state.reports) hwatch).trans (h.pressKey_reports hpress id)
  have hmodifiers : (nextWatch limelight config w (.keyboard packet id)).modifiers (kpidOf packet) =
      requestedModifiers limelight config packet (updateAlt (keyCodeOf packet) false w.state) := by
    rw [hwatch]
    exact Function.update_self _ _ _
  obtain ⟨left, right, hstate⟩ := updateAlt_eq (keyCodeOf packet) false w.state
  have hflags : (updateAlt (keyCodeOf packet) false w.state).shortcutFlags = w.state.shortcutFlags := by
    rw [hstate]
  have hnames := fun m => @names_syntheticModifiers limelight config packet (keyCodeOf packet)
    (updateAlt (keyCodeOf packet) false w.state) hseparate m
  rw [accompanied_iff hreports, image_kpidOf, Event.kpid, hmodifiers]
  constructor
  · intro hall hother hkey m hnamed
    rcases hall hother m hnamed with hsynthetic | ⟨c, hc, hdown⟩
    · rw [((hnames m).mp hsynthetic).2.1] at hkey
      cases hkey
    · exact h.flag_of_pressed hc hdown
  · intro hall hother m hnamed
    by_cases hflag : m.flag w.state.shortcutFlags = true
    · exact .inr (h.flag_pressed hflag)
    · have hkey : isModifier (keyCodeOf packet) = false :=
        eq_false_of_ne_true fun hkey => hflag (hall hother hkey m hnamed)
      refine .inl ((hnames m).mpr ⟨hpress, hkey, ?_, hnamed⟩)
      rw [hflags]
      exact eq_false_of_ne_true hflag

end Company

/-! ## Steady runs -/

section Steps

variable {limelight : Limelight} {config : Config} {w : Watch} {packet : Keyboard} {id : ℕ}

/-- A packet that is handled while keyboard input is enabled. -/
theorem Inv.keyboard (hseparate : Separate limelight) (h : Inv limelight config w) (hkeyboard : config.keyboard = true)
    (hsteady : Steady limelight config w (.keyboard packet id)) :
    Inv limelight config (nextWatch limelight config w (.keyboard packet id)) ∧
      Accompanied limelight config w (.keyboard packet id) := by
  obtain ⟨hsteadyRelease, hsteadyPress⟩ := hsteady hkeyboard
  have hwatch := @Inv.nextWatch_keyboard limelight config w packet h hkeyboard id
  have hreports := congrArg (fun w => w.state.reports) hwatch
  have hfilter : ∀ kpid ∈ w.consumed.filter (· ≠ kpidOf packet),
      kpid ∈ w.consumed ∨ w.state.shortcutFlags = ⟨true, true, true⟩ :=
    fun kpid hkpid => .inl (List.mem_filter.mp hkpid).1
  by_cases hrelease : packet.release = true
  · rw [if_pos hrelease] at hwatch hreports
    by_cases hheld : kpidOf packet ∈ w.held
    · rw [if_pos hheld] at hwatch hreports
      have hnew := hreports.trans (releaseKey_reports hrelease w.state)
      refine ⟨?_, accompanied_of_releases hnew (List.forall_mem_singleton.mpr rfl)⟩
      rw [hwatch]
      exact h.release hrelease hheld (hsteadyRelease hrelease)
    · rw [if_neg hheld] at hwatch hreports
      have hnew := hreports.trans ((updateAlt_reports _ _ _).trans (List.append_nil _).symm)
      refine ⟨?_, accompanied_of_releases hnew nofun⟩
      rw [hwatch]
      refine h.quiet true (fun kpid => ?_) hfilter
      rw [List.mem_filter, and_iff_left_iff_imp]
      intro hkpid
      rw [decide_eq_true_eq]
      rintro rfl
      exact hheld hkpid
  · rw [if_neg hrelease] at hwatch hreports
    rw [Bool.not_eq_true] at hrelease
    by_cases hheld : kpidOf packet ∈ w.held
    · rw [if_pos hheld] at hwatch hreports
      have hnew := hreports.trans ((updateAlt_reports _ _ _).trans (List.append_nil _).symm)
      refine ⟨?_, accompanied_of_releases hnew nofun⟩
      rw [hwatch]
      exact h.quiet false (fun _ => Iff.rfl) fun kpid hkpid => .inl hkpid
    · rw [if_neg hheld] at hwatch hreports
      by_cases hconsumes : consumes packet w.state = true
      · rw [if_pos hconsumes] at hwatch hreports
        have hnew := hreports.trans ((updateAlt_reports _ _ _).trans (List.append_nil _).symm)
        refine ⟨?_, accompanied_of_releases hnew nofun⟩
        rw [hwatch]
        refine h.quiet false (fun _ => Iff.rfl) fun kpid hkpid => ?_
        rcases List.mem_cons.mp hkpid with rfl | hkpid
        · exact .inr (of_decide_eq_true (Bool.and_eq_true_iff.mp hconsumes).1)
        · exact hfilter kpid hkpid
      · rw [if_neg hconsumes] at hwatch
        rw [Bool.not_eq_true] at hconsumes
        have hpress := hsteadyPress hrelease
        refine ⟨?_, (h.accompanied_press hseparate hrelease hwatch).mpr ?_⟩
        · rw [hwatch]
          exact h.press hrelease (h.synthetic hseparate hheld hconsumes hpress) id
        · intro hother hkey m hnamed
          by_contra hflag
          rw [Bool.not_eq_true] at hflag
          rw [(hpress hheld hconsumes m hflag hnamed).2 hkey] at hother
          cases hother

theorem releaseKey_flags (packet : Keyboard) (s : State) :
    (releaseKey limelight config packet s).shortcutFlags =
      updateShortcutFlags s.shortcutFlags (mapKeycode config (keyCodeOf packet)) packet.release := by
  obtain ⟨left, right, hstate⟩ := updateAlt_eq (keyCodeOf packet) true s
  unfold releaseKey sendKey
  rw [hstate]

/-- The platform sees the other key released, or the other key's modifier has lost its flag. -/
theorem Inv.release_unsteady (h : Inv limelight config w) (hkeyboard : config.keyboard = true)
    (hrelease : packet.release = true) (hsteady : ¬SteadyRelease config w (kpidOf packet)) :
    ¬Follows config (nextWatch limelight config w (.keyboard packet id)) := by
  intro hfollows
  refine hsteady fun hheld => ?_
  rw [h.nextWatch_keyboard hkeyboard, if_pos hrelease, if_pos hheld] at hfollows
  have hother : ∀ other, other ≠ kpidOf packet → decide (other ≠ kpidOf packet) = true := by
    simp
  refine ⟨fun other hmem hne heq => ?_, fun m hown other hmem hne hcode => ?_⟩
  · have hdown := (hfollows.platform (image config (kpidOf packet))).mpr
      ⟨other, List.mem_filter.mpr ⟨hmem, hother other hne⟩, heq⟩
    rw [releaseKey_reports hrelease, ← @sendKeyAndModifiers_release limelight config _ _ 0] at hdown
    exact (pressed_release.mp hdown).1 (image_kpidOf packet)
  · have hflag := (hfollows.flags m).mpr ⟨other, ?_, hcode⟩
    · rw [releaseKey_flags, flag_updateShortcutFlags, ← image_kpidOf, if_pos hown, hrelease] at hflag
      cases hflag
    · refine (List.mem_append.mp hmem).elim (fun hmem => ?_) fun hmem => ?_
      · exact List.mem_append_left _ (List.mem_filter.mpr ⟨hmem, hother other hne⟩)
      · exact List.mem_append_right _ (List.mem_filter.mpr ⟨hmem, hother other hne⟩)

/-- The synthetic modifier releases the key, or the key is sent without the modifier. -/
theorem Inv.press_unsteady (hseparate : Separate limelight) (h : Inv limelight config w)
    (hkeyboard : config.keyboard = true) (hpress : packet.release = false)
    (hsteady : ¬SteadyPress limelight config w packet) :
    ¬(Follows config (nextWatch limelight config w (.keyboard packet id)) ∧
      Accompanied limelight config w (.keyboard packet id)) := by
  rintro ⟨hfollows, haccompanied⟩
  refine hsteady fun hheld hconsumes m hflag hnamed => ?_
  have hwatch := @Inv.nextWatch_keyboard limelight config w packet h hkeyboard id
  rw [if_neg (by simp [hpress]), if_neg hheld, if_neg (by simp [hconsumes])] at hwatch
  refine ⟨fun hkey hcode => ?_, fun hkey => ?_⟩
  · obtain ⟨left, right, hstate⟩ := updateAlt_eq (keyCodeOf packet) false w.state
    have hsynthetic : image config (kpidOf packet) ∈
        syntheticCodes limelight (syntheticOf limelight config packet w.state) := by
      refine mem_syntheticCodes.mpr ⟨m, (names_syntheticModifiers hseparate m).mpr ⟨hpress, hkey, ?_, hnamed⟩, hcode⟩
      rw [hstate]
      exact hflag
    rw [hwatch] at hfollows
    have hdown := (hfollows.platform (image config (kpidOf packet))).mpr ⟨_, List.mem_cons_self, rfl⟩
    rw [h.pressKey_reports hpress] at hdown
    exact (pressed_press.mp hdown).1 hsynthetic
  · by_contra hother
    have hset := (h.accompanied_press hseparate hpress hwatch).mp haccompanied (eq_false_of_ne_true hother) hkey m
      hnamed
    rw [hset] at hflag
    cases hflag

/-- A repetition keeps what is pressed, and is accompanied exactly if it is steady. -/
theorem Inv.repeatKey (h : Inv limelight config w) {timer : ℕ} {keyCode : UInt16} {flags synthetic : UInt8}
    (hmem : (timer, .repeatKey keyCode flags synthetic) ∈ w.state.timers) (id : ℕ) :
    Inv limelight config (nextWatch limelight config w (.repeatKey timer keyCode flags synthetic id)) ∧
      (Accompanied limelight config w (.repeatKey timer keyCode flags synthetic id) ↔
        SteadyRepeat limelight config w (makeKpid keyCode flags) synthetic) := by
  refine ⟨h.repetition hmem id, ?_⟩
  have hstate : (nextWatch limelight config w (.repeatKey timer keyCode flags synthetic id)).state = _ :=
    h.next_repeatKey hmem id
  by_cases hheld : makeKpid keyCode flags ∈ w.held
  · rw [if_pos hheld] at hstate
    have hreports := congrArg State.reports hstate
    rw [accompanied_iff hreports]
    unfold SteadyRepeat
    rw [image_makeKpid]
    have hflag : ∀ m : Modifier, (∃ c ∈ m.codes, pressed w.state.reports (.key c) = true) ↔
        m.flag w.state.shortcutFlags = true :=
      fun m => ⟨fun ⟨c, hc, hdown⟩ => h.flag_of_pressed hc hdown, h.flag_pressed⟩
    simp only [hflag]
    exact ⟨fun hall _ => hall, fun hall => hall hheld⟩
  · rw [if_neg hheld] at hstate
    have hreports := (congrArg State.reports hstate).trans (List.append_nil _).symm
    exact iff_of_true (accompanied_of_releases hreports nofun) fun hkey => absurd hkey hheld

/-- A steady step keeps the invariant and the keys their modifiers; another one is seen at once. -/
theorem Inv.step (hseparate : Separate limelight) (h : Inv limelight config w) {e : Event} (hen : Enabled w.state e) :
    (Steady limelight config w e → Inv limelight config (nextWatch limelight config w e) ∧
      Accompanied limelight config w e) ∧
    (Follows config (nextWatch limelight config w e) ∧ Accompanied limelight config w e →
      Steady limelight config w e) := by
  cases e with
  | keyboard packet id =>
    cases hkeyboard : config.keyboard with
    | true =>
      refine ⟨h.keyboard hseparate hkeyboard, fun hboth _ => ⟨fun hrelease => ?_, fun hpress => ?_⟩⟩
      · by_contra hsteady
        exact h.release_unsteady hkeyboard hrelease hsteady hboth.1
      · by_contra hsteady
        exact h.press_unsteady hseparate hkeyboard hpress hsteady hboth
    | false =>
      have hsame : nextWatch limelight config w (.keyboard packet id) = w := by
        unfold nextWatch next passthroughKeyboard
        rw [hkeyboard]
        rfl
      have hreports := (congrArg (fun w => w.state.reports) hsame).trans (List.append_nil _).symm
      refine ⟨fun _ => ⟨hsame.symm ▸ h, accompanied_of_releases hreports nofun⟩, fun _ hkeyboard' => ?_⟩
      rw [hkeyboard] at hkeyboard'
      cases hkeyboard'
  | repeatKey timer keyCode flags synthetic id =>
    obtain ⟨hinv, hiff⟩ := h.repeatKey hen.1 id
    exact ⟨fun hsteady => ⟨hinv, hiff.mpr hsteady⟩, fun hboth => hiff.mp hboth.2⟩

/-- The flags and the platform follow the keys behind every step, and every key is sent with its modifiers. -/
def FollowsRun (limelight : Limelight) (config : Config) (w : Watch) (l : List Event) : Prop :=
  (∀ m, m <+: l → Follows config (m.foldl (nextWatch limelight config) w)) ∧
    Runs (Accompanied limelight config) (nextWatch limelight config) w l

theorem Inv.run (hseparate : Separate limelight) (h : Inv limelight config w) (l : List Event)
    (hrun : Runs (fun w e => Enabled w.state e) (nextWatch limelight config) w l) :
    FollowsRun limelight config w l ↔ Runs (Steady limelight config) (nextWatch limelight config) w l := by
  induction l generalizing w with
  | nil =>
    refine iff_of_true ⟨fun m hm => ?_, trivial⟩ trivial
    rw [List.prefix_nil.mp hm]
    exact h.follows
  | cons e l ih =>
    obtain ⟨hen, hrest⟩ := hrun
    obtain ⟨hkeep, hseen⟩ := h.step hseparate hen
    constructor
    · rintro ⟨hfollows, haccompanied, hlater⟩
      have hfirst := hfollows [e] (List.cons_prefix_cons.mpr ⟨rfl, List.nil_prefix⟩)
      have hsteady := hseen ⟨hfirst, haccompanied⟩
      refine ⟨hsteady, (ih (hkeep hsteady).1 hrest).mp ⟨fun m hm => ?_, hlater⟩⟩
      exact hfollows (e :: m) (List.cons_prefix_cons.mpr ⟨rfl, hm⟩)
    · rintro ⟨hsteady, hlater⟩
      obtain ⟨hinv, haccompanied⟩ := hkeep hsteady
      obtain ⟨hfollows, hruns⟩ := (ih hinv hrest).mpr hlater
      refine ⟨fun m hm => ?_, haccompanied, hruns⟩
      cases m with
      | nil => exact h.follows
      | cons e' m =>
        obtain ⟨rfl, hrestm⟩ := List.cons_prefix_cons.mp hm
        exact hfollows m hrestm

end Steps

/-- The flags, the platform and the keys that are sent follow the client in exactly the runs of steady steps. -/
theorem follows_iff_steady (limelight : Limelight) (config : Config) (hseparate : Separate limelight) (l : List Event)
    (hrun : Runs (fun w e => Enabled w.state e) (nextWatch limelight config) Watch.initial l) :
    FollowsRun limelight config Watch.initial l ↔
      Runs (Steady limelight config) (nextWatch limelight config) Watch.initial l :=
  inv_initial.run hseparate l hrun

theorem separate_header : Separate header := ⟨by decide, by decide, by decide⟩

/-- A key is pressed with a synthetic shift and repeated, and pressed again while the client holds shift. -/
def shifted : List Event :=
  [.keyboard ⟨false, 0, 0x41, 1⟩ 1, .repeatKey 1 0x41 0 1 2, .keyboard ⟨true, 0, 0x41, 1⟩ 3,
    .keyboard ⟨false, 0, 0xA0, 1⟩ 3, .keyboard ⟨false, 0, 0x41, 1⟩ 4, .repeatKey 4 0x41 0 0 5,
    .keyboard ⟨true, 0, 0x41, 1⟩ 6, .keyboard ⟨true, 0, 0xA0, 0⟩ 6]

theorem follows_shifted : FollowsRun header defaults Watch.initial shifted :=
  (follows_iff_steady header defaults separate_header shifted (by decide)).mpr (by decide)

def unbound : Config := { defaults with keybindings := [] }

/-- Two shift keys are held and one of them is released; then a key is pressed with shift. -/
def bothShifts : List Event :=
  [.keyboard ⟨false, 0, 0x10, 1⟩ 1, .keyboard ⟨false, 0, 0xA0, 1⟩ 2, .keyboard ⟨true, 0, 0xA0, 1⟩ 3,
    .keyboard ⟨false, 0, 0x41, 1⟩ 3]

/-- The flag is clear while the other shift key is held, and the synthetic shift of the last press releases it. -/
theorem shift_lost : Runs (fun w e => Enabled w.state e) (nextWatch header unbound) Watch.initial bothShifts ∧
    ¬FollowsRun header unbound Watch.initial bothShifts ∧
    makeKpid 0x10 0 ∈ (bothShifts.foldl (nextWatch header unbound) Watch.initial).held ∧
    pressed (bothShifts.foldl (nextWatch header unbound) Watch.initial).state.reports (.key 0x10) = false := by
  have hheld : makeKpid 0x10 0 ∈ (bothShifts.foldl (nextWatch header unbound) Watch.initial).held := by decide
  have hup : pressed (bothShifts.foldl (nextWatch header unbound) Watch.initial).state.reports (.key 0x10) = false := by
    decide
  refine ⟨by decide, fun h => ?_, hheld, hup⟩
  have hdown := ((h.1 bothShifts (List.prefix_refl _)).platform 0x10).mpr ⟨_, hheld, by decide⟩
  rw [hup] at hdown
  cases hdown

end Sunshine.Modifiers
