import Sunshine.Input.Gamepads
import Mathlib.Tactic.Common

/-! The emulation of the HOME button by a long press of BACK.

`Watch` goes along with a run: it tells from the reports to the platform whether the emulation holds HOME, and
which first halves belong to a press of BACK that has ended. `homeReleased_iff` says in which runs every HOME press has
a task that will release it, and no short press of BACK emits HOME. -/
namespace Sunshine.Gamepads
open Function Transitions
set_option autoImplicit false

/-! ## Buttons -/

def isDown (button flags : UInt32) : Bool := button &&& flags ≠ 0

theorem isDown_twoPow {button : UInt32} {k : ℕ} (hk : k < 32) (h : button.toBitVec = BitVec.twoPow 32 k)
    (flags : UInt32) : isDown button flags = flags.toBitVec.getLsbD k := by
  have hand : (button &&& flags).toBitVec = if flags.toBitVec.getLsbD k then BitVec.twoPow 32 k else 0#32 := by
    rw [UInt32.toBitVec_and, h, BitVec.and_comm, BitVec.and_twoPow]
  have hne : BitVec.twoPow 32 k ≠ 0#32 := by
    intro heq
    have hbit := congrArg (fun x => x.getLsbD k) heq
    simp [hk] at hbit
  have hzero : button &&& flags = 0 ↔ flags.toBitVec.getLsbD k = false := by
    rw [← UInt32.toBitVec_inj, hand]
    cases flags.toBitVec.getLsbD k with
    | true => simpa using hne
    | false => simp
  rw [isDown, Bool.eq_iff_iff, decide_eq_true_iff, ne_eq, hzero, Bool.not_eq_false]

theorem isDown_back (flags : UInt32) : isDown back flags = flags.toBitVec.getLsbD 5 :=
  isDown_twoPow (by decide) (by decide) flags

theorem isDown_home (flags : UInt32) : isDown home flags = flags.toBitVec.getLsbD 10 :=
  isDown_twoPow (by decide) (by decide) flags

theorem button_bits : back.toBitVec.getLsbD 5 = true ∧ home.toBitVec.getLsbD 5 = false ∧
    home.toBitVec.getLsbD 10 = true := by
  decide

theorem isDown_back_clear (flags : UInt32) : isDown back (flags &&& ~~~back) = false := by
  rw [isDown_back, UInt32.toBitVec_and, UInt32.toBitVec_not, BitVec.getLsbD_and, BitVec.getLsbD_not,
    button_bits.1]
  simp

theorem isDown_home_clear (flags : UInt32) : isDown home (flags &&& ~~~home) = false := by
  rw [isDown_home, UInt32.toBitVec_and, UInt32.toBitVec_not, BitVec.getLsbD_and, BitVec.getLsbD_not,
    button_bits.2.2]
  simp

theorem isDown_home_set (flags : UInt32) : isDown home (flags ||| home) = true := by
  rw [isDown_home, UInt32.toBitVec_or, BitVec.getLsbD_or, button_bits.2.2, Bool.or_true]

theorem isDown_back_home (flags : UInt32) : isDown back (flags ||| home) = isDown back flags := by
  rw [isDown_back, isDown_back, UInt32.toBitVec_or, BitVec.getLsbD_or, button_bits.2.1, Bool.or_false]

/-- The change of the BACK button that `passthrough` looks for. -/
theorem back_changed (a b : UInt32) :
    back &&& ((a ^^^ b) &&& 0xFFFF) = 0 ↔ isDown back a = isDown back b := by
  have hmask : (0xFFFF : UInt32).toBitVec.getLsbD 5 = true := by decide
  have hbit : isDown back ((a ^^^ b) &&& 0xFFFF) = (isDown back a ^^ isDown back b) := by
    rw [isDown_back, isDown_back, isDown_back, UInt32.toBitVec_and, UInt32.toBitVec_xor, BitVec.getLsbD_and,
      BitVec.getLsbD_xor, hmask, Bool.and_true]
  have hzero : back &&& ((a ^^^ b) &&& 0xFFFF) = 0 ↔ isDown back ((a ^^^ b) &&& 0xFFFF) = false := by
    simp [isDown]
  rw [hzero, hbit]
  cases isDown back a <;> cases isDown back b <;> simp

/-! ## What a run shows -/

def gamepadAt (s : State) (client : ℕ) (slot : Fin maxGamepads) : Option Gamepad :=
  (s.inputs client).map fun gamepads => gamepads slot

/-- The last report of a gamepad's state among the calls of a step. -/
def reported (before after : State) : Option GamepadState :=
  (after.calls.drop before.calls.length).reverse.findSome? fun
    | .update _ gamepadState => some gamepadState
    | _ => none

def ids (s : State) : List ℕ := s.timers.map Prod.fst

def slotTimers (s : State) (client : ℕ) (slot : Fin maxGamepads) : List (ℕ × Timer) :=
  s.timers.filter fun t => t.2.client = client ∧ t.2.controller = slot

/-- The BACK button of a gamepad goes up. -/
def backReleased (before after : State) (client : ℕ) (slot : Fin maxGamepads) : Bool :=
  match gamepadAt before client slot, gamepadAt after client slot with
  | some g, some g' => isDown back g.gamepadState.buttonFlags && !isDown back g'.gamepadState.buttonFlags
  | _, _ => false

/-- `homeSent`: a task has reported HOME for the gamepad, and nothing has been reported without HOME since.
`tapped`: the task is a first half that was pending when its BACK button went up. -/
structure Watch where
  state : State
  homeSent : ℕ → Fin maxGamepads → Bool
  tapped : ℕ → Bool

def Watch.initial : Watch := ⟨Gamepads.initial, fun _ _ => false, fun _ => false⟩

def nextHomeSent (before after : State) (homeSent : ℕ → Fin maxGamepads → Bool) (e : Event) (client : ℕ)
    (slot : Fin maxGamepads) : Bool :=
  match e, reported before after with
  | .timer _ timer _, some gamepadState =>
    if timer.client = client ∧ timer.controller = slot then isDown home gamepadState.buttonFlags
    else homeSent client slot
  | .multiController _ c packet _ _, some gamepadState =>
    if c = client ∧ slotOf packet.controllerNumber.toInt = some slot then
      homeSent client slot && isDown home gamepadState.buttonFlags
    else homeSent client slot
  | _, _ => homeSent client slot

/-- A task that is no longer pending is forgotten; its number may be given to another one. -/
def nextTapped (before after : State) (tapped : ℕ → Bool) (e : Event) (task : ℕ) : Bool :=
  (ids before).contains task && (tapped task || match e with
    | .multiController _ client packet _ _ =>
      match slotOf packet.controllerNumber.toInt with
      | some slot => backReleased before after client slot &&
          (slotTimers before client slot).any fun t => t.1 = task && !t.2.release
      | none => false
    | _ => false)

def nextWatch (w : Watch) (e : Event) : Watch :=
  { state := next w.state e
    homeSent := nextHomeSent w.state (next w.state e) w.homeSent e
    tapped := nextTapped w.state (next w.state e) w.tapped e }

/-- Where the task expires, it reports the gamepad once, without HOME. -/
def SendsRelease (s : State) (task : ℕ) (timer : Timer) : Prop :=
  ∀ next, ∃ id released, holding s (.slot timer.client timer.controller) = some id ∧
    (emulationTask timer next (cancel (some task) s)).calls = s.calls ++ [.update id released] ∧
    isDown home released.buttonFlags = false

/-- For every gamepad whose HOME button the emulation holds, a task of the gamepad's generation is pending that sends
the release. -/
def Releases (w : Watch) : Prop :=
  ∀ client slot, w.homeSent client slot = true → ∃ task timer, (task, timer) ∈ w.state.timers ∧
    timer.client = client ∧ timer.controller = slot ∧
    (gamepadAt w.state client slot).map Gamepad.homeEmulationGeneration =
      some timer.homeEmulationGeneration ∧
    SendsRelease w.state task timer

/-- The first half of a press of BACK that has ended reports no HOME. -/
def TapSilent (w : Watch) : Event → Prop
  | .timer task timer next => w.tapped task = true → ∀ gamepadState,
      reported w.state (Gamepads.next w.state (.timer task timer next)) = some gamepadState →
        isDown home gamepadState.buttonFlags = false
  | _ => True

/-- In every state of the run HOME is going to be released, and no tap of BACK emits it. -/
def HomeReleased (w : Watch) (l : List Event) : Prop :=
  (∀ m, m <+: l → Releases (m.foldl nextWatch w)) ∧ Runs TapSilent nextWatch w l

/-! ## The condition -/

def forced (gamepad : Gamepad) (packet : MultiController) : ButtonState × UInt32 :=
  forceBack gamepad.backButtonState (receivedState packet).buttonFlags

/-- A report in which the BACK button goes down. -/
def backPress (gamepad : Gamepad) (packet : MultiController) : Bool :=
  isDown back (forced gamepad packet).2 && !isDown back gamepad.gamepadState.buttonFlags

def backRelease (gamepad : Gamepad) (packet : MultiController) : Bool :=
  !isDown back (forced gamepad packet).2 && isDown back gamepad.gamepadState.buttonFlags

/-- BACK is pressed, for an emulation of HOME, while the last one still holds HOME. -/
def overtakes (s : State) : Event → Bool
  | .multiController config client packet _ _ =>
    match slotOf packet.controllerNumber.toInt, s.inputs client with
    | some slot, some gamepads =>
      config.controller && packet.activeGamepadMask.getLsbD slot &&
        decide (0 ≤ config.backButtonTimeout) && backPress (gamepads slot) packet &&
        (gamepads slot).homeEmulationPressed
    | _, _ => false
  | _ => false

/-! ## The handlers, as far as the emulation goes -/

theorem emulateHome_eq (config : Config) (client : ℕ) (slot : Fin maxGamepads) (task : ℕ) (g : Gamepad)
    (packet : MultiController) (s : State) :
    emulateHome config client slot task
        (((forced g packet).2 ^^^ g.gamepadState.buttonFlags) &&& 0xFFFF) (forced g packet).2
        { g with backButtonState := (forced g packet).1 } s =
      if backPress g packet = true ∧ 0 ≤ config.backButtonTimeout then
        ({ g with
            backButtonState := (forced g packet).1
            homeEmulationGeneration := g.homeEmulationGeneration + 1, backTimeoutId := some task },
          pushDelayed task ⟨false, client, slot, g.homeEmulationGeneration + 1⟩ s)
      else if backRelease g packet = true ∧ g.backTimeoutId.isSome ∧ g.homeEmulationPressed = false then
        ({ g with
            backButtonState := (forced g packet).1
            homeEmulationGeneration := g.homeEmulationGeneration + 1, backTimeoutId := none },
          cancel g.backTimeoutId s)
      else ({ g with backButtonState := (forced g packet).1 }, s) := by
  have hdown : back &&& (forced g packet).2 ≠ 0 ↔ isDown back (forced g packet).2 = true := by
    simp [isDown]
  unfold emulateHome
  by_cases hchanged : back &&& (((forced g packet).2 ^^^ g.gamepadState.buttonFlags) &&& 0xFFFF) = 0
  · rw [if_pos hchanged]
    have hsame := (back_changed _ _).mp hchanged
    simp [backPress, backRelease, hsame]
  · rw [if_neg hchanged]
    have hdiff := fun heq => hchanged ((back_changed _ _).mpr heq)
    cases hnew : isDown back (forced g packet).2 with
    | true =>
      rw [if_pos (hdown.mpr hnew)]
      rw [hnew] at hdiff
      have hold : isDown back g.gamepadState.buttonFlags = false := by
        simpa using Ne.symm hdiff
      by_cases htimeout : 0 ≤ config.backButtonTimeout
      · simp [backPress, hnew, hold, htimeout]
      · simp [backPress, backRelease, hnew, htimeout]
    | false =>
      rw [if_neg (by simp [isDown] at hnew; simpa using hnew)]
      rw [hnew] at hdiff
      have hold : isDown back g.gamepadState.buttonFlags = true := by
        simpa using Ne.symm hdiff
      simp [backPress, backRelease, hnew, hold]

section Handlers
variable {s : State} {client : ℕ} {slot : Fin maxGamepads}

theorem gamepadAt_eq {gamepads : Fin maxGamepads → Gamepad} (h : s.inputs client = some gamepads) :
    gamepadAt s client slot = some (gamepads slot) := by
  rw [gamepadAt, h]
  rfl

theorem inputs_of_gamepadAt {g : Gamepad} (h : gamepadAt s client slot = some g) :
    ∃ gamepads, s.inputs client = some gamepads ∧ gamepads slot = g :=
  Option.map_eq_some_iff.mp h

theorem gamepadAt_setSlot_same {g : Gamepad} (h : gamepadAt s client slot = some g) (g' : Gamepad) :
    gamepadAt (setSlot client slot g' s) client slot = some g' := by
  obtain ⟨gamepads, hinput, -⟩ := inputs_of_gamepadAt h
  simp [gamepadAt, setSlot, hinput]

theorem gamepadAt_setSlot_other (g' : Gamepad) {c : ℕ} {k : Fin maxGamepads} (h : (c, k) ≠ (client, slot)) :
    gamepadAt (setSlot client slot g' s) c k = gamepadAt s c k := by
  by_cases hc : c = client
  · subst hc
    have hk : k ≠ slot := fun heq => h (by rw [heq])
    cases hinput : s.inputs c with
    | none => simp [gamepadAt, setSlot, hinput]
    | some gamepads => simp [gamepadAt, setSlot, hinput, hk]
  · simp [gamepadAt, setSlot, hc]

theorem slotTimers_pushDelayed (task : ℕ) (timer : Timer) (c : ℕ) (k : Fin maxGamepads) :
    slotTimers (pushDelayed task timer s) c k =
      slotTimers s c k ++ if timer.client = c ∧ timer.controller = k then [(task, timer)] else [] := by
  unfold slotTimers pushDelayed
  rw [List.filter_append, List.filter_cons, List.filter_nil]
  simp only [decide_eq_true_eq]

theorem slotTimers_cancel (task : Option ℕ) (c : ℕ) (k : Fin maxGamepads) :
    slotTimers (cancel task s) c k = (slotTimers s c k).filter fun t => some t.1 ≠ task := by
  unfold slotTimers cancel
  exact List.filter_comm _ _ _

theorem ids_cancel_sublist (task : Option ℕ) : (ids (cancel task s)).Sublist (ids s) :=
  List.Sublist.map _ List.filter_sublist

theorem not_mem_ids_cancel (task : ℕ) : task ∉ ids (cancel (some task) s) := by
  intro hin
  obtain ⟨t, ht, heq⟩ := List.mem_map.mp hin
  have hne := (List.mem_filter.mp ht).2
  simp [heq] at hne

/-- The numbers of the pending tasks being distinct, the cancelled one is the only one of its number. -/
theorem slotTimers_cancel_other (hnodup : (ids s).Nodup) {task : ℕ} {timer : Timer}
    (hmem : (task, timer) ∈ s.timers) {c : ℕ} {k : Fin maxGamepads}
    (h : (c, k) ≠ (timer.client, timer.controller)) :
    slotTimers (cancel (some task) s) c k = slotTimers s c k := by
  rw [slotTimers_cancel, List.filter_eq_self]
  intro t ht
  obtain ⟨hin, hslot⟩ := List.mem_filter.mp ht
  simp only [decide_eq_true_eq] at hslot
  have hne : t.1 ≠ task := by
    intro heq
    have hsame : t = (task, timer) := List.inj_on_of_nodup_map hnodup hin hmem heq
    rw [hsame] at hslot
    exact h (by rw [hslot.1, hslot.2])
  simpa using hne

theorem slotTimers_cancel_same {task : ℕ} {timer : Timer} {c : ℕ} {k : Fin maxGamepads}
    (h : slotTimers s c k = [(task, timer)]) : slotTimers (cancel (some task) s) c k = [] := by
  rw [slotTimers_cancel, h]
  simp

theorem mem_slotTimers {task : ℕ} {timer : Timer} : (task, timer) ∈ slotTimers s client slot ↔
    (task, timer) ∈ s.timers ∧ timer.client = client ∧ timer.controller = slot := by
  simp [slotTimers]

/-- A step of the calls `new`, of which `reported` takes the last report. -/
theorem reported_eq {before after : State} {new : List Call} (h : after.calls = before.calls ++ new) :
    reported before after = new.reverse.findSome? fun
      | .update _ gamepadState => some gamepadState
      | _ => none := by
  rw [reported, h, List.drop_left]

def NoReport (calls : List Call) : Prop := ∀ id gamepadState, Call.update id gamepadState ∉ calls

theorem noReport_nil : NoReport [] := fun _ _ => List.not_mem_nil

theorem reported_none {before after : State} {new : List Call} (h : after.calls = before.calls ++ new)
    (hnew : NoReport new) : reported before after = none := by
  rw [reported_eq h, List.findSome?_eq_none_iff]
  intro call hcall
  cases call with
  | update id gamepadState => exact absurd (List.mem_reverse.mp hcall) (hnew id gamepadState)
  | alloc id controllerNumber arrival | free id => rfl

theorem reported_last {before after : State} {new : List Call} {id : Fin platfMaxGamepads}
    {gamepadState : GamepadState} (h : after.calls = before.calls ++ (new ++ [.update id gamepadState])) :
    reported before after = some gamepadState := by
  rw [reported_eq h, List.reverse_append]
  rfl

/-- A gamepad with an id is left as it is, or gets one. -/
structure Prepared (s s₁ : State) (client : ℕ) (slot : Fin maxGamepads) (id : Fin platfMaxGamepads)
    (g : Gamepad) : Prop where
  hadId : g.id = some id ∨ g.id = none
  own : gamepadAt s₁ client slot = some { g with id := some id }
  others : ∀ c k, (c, k) ≠ (client, slot) → gamepadAt s₁ c k = gamepadAt s c k
  timers : s₁.timers = s.timers
  calls : ∃ new, s₁.calls = s.calls ++ new ∧ NoReport new

theorem multiController_cases (config : Config) (packet : MultiController) (fails : Bool) (task : ℕ) :
    (∃ mask new, passthroughMultiController config client packet fails task s =
        { s with gamepadMask := mask, calls := s.calls ++ new } ∧ NoReport new ∧
      ∀ slot g, slotOf packet.controllerNumber.toInt = some slot → gamepadAt s client slot = some g →
        config.controller = true → packet.activeGamepadMask.getLsbD slot = true → g.id = none) ∨
    (∃ slot g id, slotOf packet.controllerNumber.toInt = some slot ∧ gamepadAt s client slot = some g ∧
      g.id = some id ∧ packet.activeGamepadMask.getLsbD slot = false ∧
      passthroughMultiController config client packet fails task s = removeGamepad client slot g id s) ∨
    (∃ slot g id s₁, slotOf packet.controllerNumber.toInt = some slot ∧ gamepadAt s client slot = some g ∧
      config.controller = true ∧ packet.activeGamepadMask.getLsbD slot = true ∧
      Prepared s s₁ client slot id g ∧
      passthroughMultiController config client packet fails task s =
        updateGamepad config client slot packet task id s₁) := by
  have hkeep : s = { s with gamepadMask := s.gamepadMask, calls := s.calls ++ [] } := by
    rw [List.append_nil]
  unfold passthroughMultiController
  by_cases hconfig : config.controller = true
  · rw [if_neg (by simp [hconfig])]
    cases hslot : slotOf packet.controllerNumber.toInt with
    | none => exact .inl ⟨_, [], hkeep, noReport_nil, fun _ _ h => by cases h⟩
    | some slot =>
      cases hinput : s.inputs client with
      | none =>
        refine .inl ⟨_, [], hkeep, noReport_nil, fun slot' g _ hg => ?_⟩
        rw [gamepadAt, hinput] at hg
        cases hg
      | some gamepads =>
        have hg : gamepadAt s client slot = some (gamepads slot) := gamepadAt_eq hinput
        cases hid : (gamepads slot).id with
        | some id =>
          cases hactive : packet.activeGamepadMask.getLsbD slot with
          | false =>
            refine .inr (.inl ⟨slot, gamepads slot, id, rfl, hg, hid, hactive, ?_⟩)
            simp only [hid, hactive]
          | true =>
            refine .inr (.inr ⟨slot, gamepads slot, id, s, rfl, hg, hconfig, hactive, ?_, ?_⟩)
            · refine ⟨.inl hid, ?_, fun _ _ _ => rfl, rfl, ⟨[], (List.append_nil _).symm, noReport_nil⟩⟩
              rw [hg, ← hid]
            · simp only [hid, hactive]
        | none =>
          have hsame : ∀ slot' g, some slot = some slot' → gamepadAt s client slot' = some g →
              g.id = none := by
            intro slot' g heq hg'
            cases heq
            rw [hg] at hg'
            cases hg'
            exact hid
          cases hactive : packet.activeGamepadMask.getLsbD slot with
          | false =>
            refine .inl ⟨s.gamepadMask, [], ?_, noReport_nil, fun slot' g heq hg' _ _ => hsame slot' g heq hg'⟩
            simp only [hid, hactive]
            exact hkeep
          | true =>
            simp only [hid, hactive]
            unfold allocGamepad
            obtain ⟨x, hx, halloc⟩ | ⟨-, halloc⟩ := allocId_cases s.gamepadMask
            · rw [halloc]
              cases fails with
              | true =>
                refine .inl ⟨_, [.alloc x slot ⟨0, 0, 0⟩], rfl, fun _ _ h => ?_,
                  fun slot' g heq hg' _ _ => hsame slot' g heq hg'⟩
                simp at h
              | false =>
                refine .inr (.inr ⟨slot, gamepads slot, x,
                  setSlot client slot { gamepads slot with id := some x }
                    (call [.alloc x slot ⟨0, 0, 0⟩] { s with gamepadMask := update s.gamepadMask x true }),
                  rfl, hg, hconfig, hactive, ?_, rfl⟩)
                refine ⟨.inr hid, gamepadAt_setSlot_same (by exact hg) _,
                  fun _ _ h => gamepadAt_setSlot_other _ h, rfl, ⟨_, rfl, fun _ _ h => ?_⟩⟩
                simp at h
            · rw [halloc]
              exact .inl ⟨_, [], hkeep, noReport_nil,
                fun slot' g heq hg' _ _ => hsame slot' g heq hg'⟩
  · rw [if_pos (by simpa using hconfig)]
    exact .inl ⟨_, [], hkeep, noReport_nil, fun _ _ _ _ h => absurd h hconfig⟩

/-- The report of a gamepad and what is stored, with the emulation between them. -/
theorem updateGamepad_spec (config : Config) (packet : MultiController) (task : ℕ)
    (id : Fin platfMaxGamepads) {g : Gamepad} (hg : gamepadAt s client slot = some g) :
    ∃ gamepadState, gamepadState.buttonFlags =
        (if g.homeEmulationPressed then (forced g packet).2 ||| home else (forced g packet).2) ∧
      let emulated := emulateHome config client slot task
        (((forced g packet).2 ^^^ g.gamepadState.buttonFlags) &&& 0xFFFF) (forced g packet).2
        { g with backButtonState := (forced g packet).1 } s
      updateGamepad config client slot packet task id s =
        setSlot client slot { emulated.1 with gamepadState }
          (call [.update id gamepadState] emulated.2) := by
  obtain ⟨gamepads, hinput, hslot⟩ := inputs_of_gamepadAt hg
  have hpressed : (emulateHome config client slot task
      (((forced g packet).2 ^^^ g.gamepadState.buttonFlags) &&& 0xFFFF) (forced g packet).2
      { g with backButtonState := (forced g packet).1 } s).1.homeEmulationPressed =
        g.homeEmulationPressed := by
    rw [emulateHome_eq]
    split
    · rfl
    · split <;> rfl
  unfold updateGamepad
  rw [hinput]
  dsimp only
  rw [hslot]
  exact ⟨_, congrArg (fun pressed : Bool =>
    if pressed then (forced g packet).2 ||| home else (forced g packet).2) hpressed, rfl⟩

end Handlers

end Sunshine.Gamepads
