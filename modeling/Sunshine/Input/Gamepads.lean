import Sunshine.Lib.Identifiers
import Sunshine.Lib.Transitions
import Mathlib.Data.Fintype.Card
import Mathlib.Data.List.FinRange

/-! Gamepad ids: `alloc_id`, `free_id` and the handlers that take an id out of the global `gamepadMask` or give
it back, over all clients.

A slot is a gamepad of one input object. The destructor of a gamepad leaves the freeing of its id to the task
pool, so an id may also be held by such a task. -/
namespace Sunshine.Gamepads
open Function Identifiers Transitions
set_option autoImplicit false

/-! ## Ids -/

/-- `platf::MAX_GAMEPADS`, the number of ids. -/
def platfMaxGamepads : ℕ := 16

/-- The number of slots of an input object. -/
def maxGamepads : ℕ := min platfMaxGamepads (2 * 8)

section Ids

variable {N : ℕ}

def allocId (gamepadMask : Fin N → Bool) : Option (Fin N) × (Fin N → Bool) :=
  match (List.finRange N).find? fun x => !gamepadMask x with
  | some x => (some x, update gamepadMask x true)
  | none => (none, gamepadMask)

def freeId (gamepadMask : Fin N → Bool) (id : Fin N) : Fin N → Bool := update gamepadMask id false

theorem allocId_cases (gamepadMask : Fin N → Bool) :
    (∃ x, gamepadMask x = false ∧ allocId gamepadMask = (some x, update gamepadMask x true)) ∨
      ((∀ x, gamepadMask x = true) ∧ allocId gamepadMask = (none, gamepadMask)) := by
  unfold allocId
  cases hfind : (List.finRange N).find? fun x => !gamepadMask x with
  | some x =>
    have hx := List.find?_some hfind
    exact .inl ⟨x, by simpa using hx, rfl⟩
  | none =>
    rw [List.find?_eq_none] at hfind
    exact .inr ⟨fun x => by simpa using hfind x (List.mem_finRange x), rfl⟩

end Ids

/-! ## State -/

structure GamepadState where
  buttonFlags : UInt32
  lt : UInt8
  rt : UInt8
  lsX : Int16
  lsY : Int16
  rsX : Int16
  rsY : Int16
  deriving DecidableEq

def back : UInt32 := 0x0020
def home : UInt32 := 0x0400

inductive ButtonState where
  | none
  | down
  | up
  deriving DecidableEq

/-- `gamepad_t`; no `id` is the source's `-1`, no `backTimeoutId` its null task. -/
structure Gamepad where
  gamepadState : GamepadState
  backTimeoutId : Option ℕ
  homeEmulationGeneration : UInt64
  homeEmulationPressed : Bool
  id : Option (Fin platfMaxGamepads)
  backButtonState : ButtonState
  deriving DecidableEq

def neutral : GamepadState := ⟨0, 0, 0, 0, 0, 0, 0⟩

def fresh : Gamepad := ⟨neutral, none, 0, false, none, .none⟩

structure Arrival where
  type : UInt8
  capabilities : UInt16
  supportedButtonFlags : UInt32
  deriving DecidableEq

/-- What the platform is asked to do. -/
inductive Call where
  | alloc (id : Fin platfMaxGamepads) (controllerNumber : Fin maxGamepads) (arrival : Arrival)
  | update (id : Fin platfMaxGamepads) (gamepadState : GamepadState)
  | free (id : Fin platfMaxGamepads)
  deriving DecidableEq

/-- The delayed halves of the HOME emulation, with what they capture. -/
structure Timer where
  release : Bool
  client : ℕ
  controller : Fin maxGamepads
  homeEmulationGeneration : UInt64
  deriving DecidableEq

/-- `inputs` are the live input objects, and `pending client slot` is the id that the task pushed by the destructor
of that gamepad will free. -/
structure State where
  gamepadMask : Fin platfMaxGamepads → Bool
  inputs : ℕ → Option (Fin maxGamepads → Gamepad)
  pending : ℕ → Fin maxGamepads → Option (Fin platfMaxGamepads)
  timers : List (ℕ × Timer)
  calls : List Call

def initial : State := ⟨fun _ => false, fun _ => none, fun _ _ => none, [], []⟩

def setSlot (client : ℕ) (slot : Fin maxGamepads) (gamepad : Gamepad) (s : State) : State :=
  { s with inputs := update s.inputs client ((s.inputs client).map fun gamepads => update gamepads slot gamepad) }

def call (calls : List Call) (s : State) : State := { s with calls := s.calls ++ calls }

def cancel (task : Option ℕ) (s : State) : State := { s with timers := s.timers.filter fun t => some t.1 ≠ task }

def pushDelayed (task : ℕ) (timer : Timer) (s : State) : State := { s with timers := s.timers ++ [(task, timer)] }

def freeGamepad (id : Fin platfMaxGamepads) (s : State) : State :=
  { call [.update id neutral, .free id] s with gamepadMask := freeId s.gamepadMask id }

/-! ## Handlers -/

structure Config where
  controller : Bool
  backButtonTimeout : ℤ

structure ControllerArrival where
  controllerNumber : UInt8
  arrival : Arrival

structure MultiController where
  controllerNumber : Int16
  activeGamepadMask : BitVec 16
  buttonFlags : UInt16
  leftTrigger : UInt8
  rightTrigger : UInt8
  leftStickX : Int16
  leftStickY : Int16
  rightStickX : Int16
  rightStickY : Int16
  buttonFlags2 : UInt16

/-- The slot of a controller number, if it is in range. -/
def slotOf (controllerNumber : ℤ) : Option (Fin maxGamepads) :=
  if h : 0 ≤ controllerNumber ∧ controllerNumber.toNat < maxGamepads then some ⟨controllerNumber.toNat, h.2⟩
  else none

/-- An id for a slot without one: `alloc_id`, then `platf::alloc_gamepad`, which may fail. -/
def allocGamepad (client : ℕ) (slot : Fin maxGamepads) (gamepad : Gamepad) (arrival : Arrival) (fails : Bool)
    (s : State) : State × Option (Fin platfMaxGamepads) :=
  match allocId s.gamepadMask with
  | (none, _) => (s, none)
  | (some id, gamepadMask) =>
    let taken := call [.alloc id slot arrival] { s with gamepadMask := gamepadMask }
    if fails then ({ taken with gamepadMask := freeId gamepadMask id }, none)
    else (setSlot client slot { gamepad with id := some id } taken, some id)

def passthroughControllerArrival (config : Config) (client : ℕ) (packet : ControllerArrival) (fails : Bool)
    (s : State) : State :=
  if !config.controller then s
  else match slotOf packet.controllerNumber.toNat, s.inputs client with
  | some slot, some gamepads =>
    if (gamepads slot).id.isSome then s
    else (allocGamepad client slot (gamepads slot) packet.arrival fails s).1
  | _, _ => s

/-- The final event of a gamepad: its emulation of HOME ends, and its id is given back. -/
def removeGamepad (client : ℕ) (slot : Fin maxGamepads) (gamepad : Gamepad) (id : Fin platfMaxGamepads)
    (s : State) : State :=
  setSlot client slot
    { gamepad with
      homeEmulationGeneration := gamepad.homeEmulationGeneration + 1
      backTimeoutId := none
      homeEmulationPressed := false
      gamepadState :=
        { gamepad.gamepadState with buttonFlags := gamepad.gamepadState.buttonFlags &&& ~~~home }
      backButtonState := .none
      id := none }
    (freeGamepad id (cancel gamepad.backTimeoutId s))

def receivedState (packet : MultiController) : GamepadState :=
  ⟨packet.buttonFlags.toUInt32 ||| packet.buttonFlags2.toUInt32 <<< 16, packet.leftTrigger, packet.rightTrigger,
    packet.leftStickX, packet.leftStickY, packet.rightStickX, packet.rightStickY⟩

/-- The BACK button is held in its forced state until the client agrees with it. -/
def forceBack (backButtonState : ButtonState) (buttonFlags : UInt32) : ButtonState × UInt32 :=
  match backButtonState with
  | .up => (if back &&& buttonFlags = 0 then .none else .up, buttonFlags &&& ~~~back)
  | .down => (if back &&& buttonFlags ≠ 0 then .none else .down, buttonFlags ||| back)
  | .none => (.none, buttonFlags)

/-- What a change of the BACK button does to the emulation of HOME. -/
def emulateHome (config : Config) (client : ℕ) (slot : Fin maxGamepads) (task : ℕ) (changed buttonFlags : UInt32)
    (gamepad : Gamepad) (s : State) : Gamepad × State :=
  if back &&& changed = 0 then (gamepad, s)
  else if back &&& buttonFlags ≠ 0 then
    if 0 ≤ config.backButtonTimeout then
      let generation := gamepad.homeEmulationGeneration + 1
      ({ gamepad with homeEmulationGeneration := generation, backTimeoutId := some task },
        pushDelayed task ⟨false, client, slot, generation⟩ s)
    else (gamepad, s)
  else if gamepad.backTimeoutId.isSome ∧ !gamepad.homeEmulationPressed then
    ({ gamepad with
        homeEmulationGeneration := gamepad.homeEmulationGeneration + 1, backTimeoutId := none },
      cancel gamepad.backTimeoutId s)
  else (gamepad, s)

/-- The report of a gamepad that has an id. -/
def updateGamepad (config : Config) (client : ℕ) (slot : Fin maxGamepads) (packet : MultiController) (task : ℕ)
    (id : Fin platfMaxGamepads) (s : State) : State :=
  match s.inputs client with
  | none => s
  | some gamepads =>
    let gamepad := gamepads slot
    let received := receivedState packet
    let (backButtonState, buttonFlags) := forceBack gamepad.backButtonState received.buttonFlags
    let changed := (buttonFlags ^^^ gamepad.gamepadState.buttonFlags) &&& 0xFFFF
    let (gamepad, s) := emulateHome config client slot task changed buttonFlags
      { gamepad with backButtonState := backButtonState } s
    let gamepadState :=
      { received with buttonFlags := if gamepad.homeEmulationPressed then buttonFlags ||| home else buttonFlags }
    setSlot client slot { gamepad with gamepadState := gamepadState } (call [.update id gamepadState] s)

def passthroughMultiController (config : Config) (client : ℕ) (packet : MultiController) (fails : Bool) (task : ℕ)
    (s : State) : State :=
  if !config.controller then s
  else match slotOf packet.controllerNumber.toInt, s.inputs client with
  | some slot, some gamepads =>
    match (gamepads slot).id, packet.activeGamepadMask.getLsbD slot with
    | none, true =>
      match allocGamepad client slot (gamepads slot) ⟨0, 0, 0⟩ fails s with
      | (s, none) => s
      | (s, some id) => updateGamepad config client slot packet task id s
    | some id, false => removeGamepad client slot (gamepads slot) id s
    | none, false => s
    | some id, true => updateGamepad config client slot packet task id s
  | _, _ => s

/-- The body of a delayed half of the HOME emulation; `next` is the task of the second half. -/
def emulationTask (timer : Timer) (next : ℕ) (s : State) : State :=
  match s.inputs timer.client with
  | none => s
  | some gamepads =>
    let gamepad := gamepads timer.controller
    if gamepad.homeEmulationGeneration ≠ timer.homeEmulationGeneration then s
    else match gamepad.id with
    | none => s
    | some id =>
      if timer.release then
        let released :=
          { gamepad.gamepadState with buttonFlags := gamepad.gamepadState.buttonFlags &&& ~~~home }
        setSlot timer.client timer.controller
          { gamepad with gamepadState := released, homeEmulationPressed := false, backTimeoutId := none }
          (call [.update id released] s)
      else
        let backUp := { gamepad.gamepadState with buttonFlags := gamepad.gamepadState.buttonFlags &&& ~~~back }
        let homeDown := { backUp with buttonFlags := backUp.buttonFlags ||| home }
        setSlot timer.client timer.controller
          { gamepad with
            gamepadState := homeDown, backButtonState := .up, homeEmulationPressed := true
            backTimeoutId := some next }
          (pushDelayed next { timer with release := true } (call [.update id backUp, .update id homeDown] s))

/-! ## Runs -/

inductive Event where
  | create (client : ℕ)
  | arrival (config : Config) (client : ℕ) (packet : ControllerArrival) (fails : Bool)
  | multiController (config : Config) (client : ℕ) (packet : MultiController) (fails : Bool) (task : ℕ)
  | timer (task : ℕ) (timer : Timer) (next : ℕ)
  | destroy (client : ℕ)
  | free (client : ℕ) (slot : Fin maxGamepads)

def next (s : State) : Event → State
  | .create client => { s with inputs := update s.inputs client (some fun _ => fresh) }
  | .arrival config client packet fails => passthroughControllerArrival config client packet fails s
  | .multiController config client packet fails task =>
    passthroughMultiController config client packet fails task s
  | .timer task timer next => emulationTask timer next (cancel (some task) s)
  | .destroy client =>
    match s.inputs client with
    | none => s
    | some gamepads =>
      { s with
        inputs := update s.inputs client none
        pending := update s.pending client fun slot => (gamepads slot).id }
  | .free client slot =>
    match s.pending client slot with
    | none => s
    | some id =>
      { freeGamepad id s with pending := update s.pending client (update (s.pending client) slot none) }

/-- A client names one input object for good; a delayed task keeps its object alive. -/
def Enabled (s : State) : Event → Prop
  | .create client => s.inputs client = none ∧ ∀ slot, s.pending client slot = none
  | .arrival _ client _ _ => (s.inputs client).isSome
  | .multiController _ client _ _ task => (s.inputs client).isSome ∧ ∀ t ∈ s.timers, t.1 ≠ task
  | .timer task timer next => (task, timer) ∈ s.timers ∧ ∀ t ∈ s.timers, t.1 ≠ next
  | .destroy client => (s.inputs client).isSome ∧ ∀ t ∈ s.timers, t.2.client ≠ client
  | .free client slot => (s.pending client slot).isSome

instance (s : State) (e : Event) : Decidable (Enabled s e) := by
  cases e <;> unfold Enabled <;> infer_instance

/-! ## Who holds an id -/

inductive Owner where
  | slot (client : ℕ) (slot : Fin maxGamepads)
  | pending (client : ℕ) (slot : Fin maxGamepads)
  deriving DecidableEq

def holding (s : State) : Owner → Option (Fin platfMaxGamepads)
  | .slot client slot => (s.inputs client).bind fun gamepads => (gamepads slot).id
  | .pending client slot => s.pending client slot

/-- The ids marked in the mask are those held, each once; the gamepads of a live object have no task pending. -/
structure Allocated (s : State) : Prop where
  exact : Exact s.gamepadMask (holding s)
  live : ∀ client, (s.inputs client).isSome → ∀ slot, s.pending client slot = none

/-! ## What a step keeps -/

theorem holding_setSlot {s : State} {client : ℕ} (h : (s.inputs client).isSome) (slot : Fin maxGamepads)
    (gamepad : Gamepad) :
    holding (setSlot client slot gamepad s) = update (holding s) (.slot client slot) gamepad.id := by
  obtain ⟨gamepads, hinput⟩ := Option.isSome_iff_exists.mp h
  funext o
  cases o with
  | pending c k => rfl
  | slot c k =>
    by_cases hc : c = client
    · subst hc
      by_cases hk : k = slot
      · subst hk
        simp [holding, setSlot, hinput]
      · have hne : Owner.slot c k ≠ .slot c slot := fun heq => hk (Owner.slot.inj heq).2
        simp [holding, setSlot, hinput, hk]
    · have hne : Owner.slot c k ≠ .slot client slot := fun heq => hc (Owner.slot.inj heq).1
      simp [holding, setSlot, hc]

theorem setSlot_isSome {s : State} (client c : ℕ) (slot : Fin maxGamepads) (gamepad : Gamepad) :
    ((setSlot client slot gamepad s).inputs c).isSome = (s.inputs c).isSome := by
  by_cases hc : c = client
  · subst hc
    simp [setSlot]
  · simp [setSlot, hc]

theorem Allocated.congr {s s' : State} (h : Allocated s) (hmask : s'.gamepadMask = s.gamepadMask)
    (hinputs : s'.inputs = s.inputs) (hpending : s'.pending = s.pending) : Allocated s' := by
  have hholding : holding s' = holding s := by
    funext o
    cases o <;> simp only [holding, hinputs, hpending]
  constructor
  · rw [hmask, hholding]
    exact h.exact
  · rw [hinputs, hpending]
    exact h.live

theorem Allocated.call {s : State} (h : Allocated s) (calls : List Call) : Allocated (call calls s) := ⟨h.exact, h.live⟩

theorem Allocated.cancel {s : State} (h : Allocated s) (task : Option ℕ) : Allocated (cancel task s) :=
  ⟨h.exact, h.live⟩

theorem Allocated.pushDelayed {s : State} (h : Allocated s) (task : ℕ) (timer : Timer) :
    Allocated (pushDelayed task timer s) := ⟨h.exact, h.live⟩

/-- A report that leaves the id of its slot alone. -/
theorem Allocated.setSlot {s : State} (h : Allocated s) {client : ℕ} (gamepads : Fin maxGamepads → Gamepad)
    (hinput : s.inputs client = some gamepads) {slot : Fin maxGamepads} {gamepad : Gamepad}
    (hid : gamepad.id = (gamepads slot).id) : Allocated (setSlot client slot gamepad s) := by
  have hsome : (s.inputs client).isSome := by simp [hinput]
  constructor
  · have hsame : update (holding s) (.slot client slot) gamepad.id = holding s := by
      rw [hid, update_eq_self_iff]
      simp [holding, hinput]
    rw [holding_setSlot hsome, hsame]
    exact h.exact
  · intro c hc
    rw [setSlot_isSome] at hc
    exact h.live c hc

theorem Allocated.allocGamepad {s : State} (h : Allocated s) {client : ℕ} {gamepads : Fin maxGamepads → Gamepad}
    (hinput : s.inputs client = some gamepads) {slot : Fin maxGamepads} (hid : (gamepads slot).id = none)
    (arrival : Arrival) (fails : Bool) :
    Allocated (allocGamepad client slot (gamepads slot) arrival fails s).1 := by
  have hsome : (s.inputs client).isSome := by simp [hinput]
  unfold Gamepads.allocGamepad
  obtain ⟨x, hx, halloc⟩ | ⟨-, halloc⟩ := allocId_cases s.gamepadMask
  · rw [halloc]
    cases fails with
    | true => exact h.congr (update_true_false hx) rfl rfl
    | false =>
      have hnone : holding s (.slot client slot) = none := by simp [holding, hinput, hid]
      change Allocated (Gamepads.setSlot client slot { gamepads slot with id := some x }
        (Gamepads.call [.alloc x slot arrival] { s with gamepadMask := update s.gamepadMask x true }))
      constructor
      · rw [holding_setSlot (by exact hsome)]
        exact h.exact.take hx hnone
      · intro c hc
        rw [setSlot_isSome] at hc
        exact h.live c hc
  · rw [halloc]
    exact h

theorem emulateHome_spec (config : Config) (client : ℕ) (slot : Fin maxGamepads) (task : ℕ)
    (changed buttonFlags : UInt32) (gamepad : Gamepad) (s : State) :
    (emulateHome config client slot task changed buttonFlags gamepad s).1.id = gamepad.id ∧
      (emulateHome config client slot task changed buttonFlags gamepad s).2.gamepadMask = s.gamepadMask ∧
      (emulateHome config client slot task changed buttonFlags gamepad s).2.inputs = s.inputs ∧
      (emulateHome config client slot task changed buttonFlags gamepad s).2.pending = s.pending := by
  unfold emulateHome
  split_ifs <;> exact ⟨rfl, rfl, rfl, rfl⟩

theorem Allocated.updateGamepad {s : State} (h : Allocated s) (config : Config) (client : ℕ)
    (slot : Fin maxGamepads) (packet : MultiController) (task : ℕ) (id : Fin platfMaxGamepads) :
    Allocated (updateGamepad config client slot packet task id s) := by
  unfold Gamepads.updateGamepad
  cases hinput : s.inputs client with
  | none => exact h
  | some gamepads =>
    obtain ⟨hid, hmask, hinputs, hpending⟩ := emulateHome_spec config client slot task
      (((forceBack (gamepads slot).backButtonState (receivedState packet).buttonFlags).2 ^^^
        (gamepads slot).gamepadState.buttonFlags) &&& 0xFFFF)
      (forceBack (gamepads slot).backButtonState (receivedState packet).buttonFlags).2
      { gamepads slot with
        backButtonState := (forceBack (gamepads slot).backButtonState (receivedState packet).buttonFlags).1 } s
    refine ((h.congr hmask hinputs hpending).call _).setSlot gamepads ?_ ?_
    · exact (congrFun hinputs client).trans hinput
    · exact hid

theorem Allocated.removeGamepad {s : State} (h : Allocated s) {client : ℕ} {gamepads : Fin maxGamepads → Gamepad}
    (hinput : s.inputs client = some gamepads) {slot : Fin maxGamepads} {id : Fin platfMaxGamepads}
    (hid : (gamepads slot).id = some id) : Allocated (removeGamepad client slot (gamepads slot) id s) := by
  have hsome : (s.inputs client).isSome := by simp [hinput]
  have hheld : holding s (.slot client slot) = some id := by simp [holding, hinput, hid]
  unfold Gamepads.removeGamepad
  constructor
  · rw [holding_setSlot (by exact hsome)]
    exact h.exact.giveBack hheld
  · intro c hc
    rw [setSlot_isSome] at hc
    exact h.live c hc

theorem Allocated.emulationTask {s : State} (h : Allocated s) (timer : Timer) (next : ℕ) :
    Allocated (emulationTask timer next s) := by
  unfold Gamepads.emulationTask
  cases hinput : s.inputs timer.client with
  | none => exact h
  | some gamepads =>
    simp only
    by_cases hstale : (gamepads timer.controller).homeEmulationGeneration ≠ timer.homeEmulationGeneration
    · rw [if_pos hstale]
      exact h
    · rw [if_neg hstale]
      cases hid : (gamepads timer.controller).id with
      | none => exact h
      | some id =>
        simp only
        cases timer.release with
        | true =>
          rw [if_pos rfl]
          refine (h.call _).setSlot gamepads ?_ ?_
          · exact hinput
          · exact hid.symm
        | false =>
          rw [if_neg Bool.false_ne_true]
          refine ((h.call _).pushDelayed _ _).setSlot gamepads ?_ ?_
          · exact hinput
          · exact hid.symm

theorem Allocated.arrival {s : State} (h : Allocated s) (config : Config) (client : ℕ) (packet : ControllerArrival)
    (fails : Bool) : Allocated (passthroughControllerArrival config client packet fails s) := by
  unfold passthroughControllerArrival
  split_ifs
  · exact h
  · cases hslot : slotOf packet.controllerNumber.toNat with
    | none => exact h
    | some slot =>
      cases hinput : s.inputs client with
      | none => exact h
      | some gamepads =>
        simp only
        split_ifs with hid
        · exact h
        · exact h.allocGamepad hinput (Option.not_isSome_iff_eq_none.mp hid) packet.arrival fails

theorem Allocated.multiController {s : State} (h : Allocated s) (config : Config) (client : ℕ)
    (packet : MultiController) (fails : Bool) (task : ℕ) :
    Allocated (passthroughMultiController config client packet fails task s) := by
  unfold passthroughMultiController
  split_ifs
  · exact h
  · cases hslot : slotOf packet.controllerNumber.toInt with
    | none => exact h
    | some slot =>
      cases hinput : s.inputs client with
      | none => exact h
      | some gamepads =>
        cases hid : (gamepads slot).id with
        | none =>
          cases hactive : packet.activeGamepadMask.getLsbD slot with
          | false => simpa only [hid, hactive] using h
          | true =>
            have halloc := h.allocGamepad hinput hid ⟨0, 0, 0⟩ fails
            simp only [hid, hactive]
            cases hresult : Gamepads.allocGamepad client slot (gamepads slot) ⟨0, 0, 0⟩ fails s with
            | mk s' result =>
              rw [hresult] at halloc
              cases result with
              | none => exact halloc
              | some id => exact halloc.updateGamepad config client slot packet task id
        | some id =>
          cases hactive : packet.activeGamepadMask.getLsbD slot with
          | false =>
            simp only [hid, hactive]
            exact h.removeGamepad hinput hid
          | true =>
            simp only [hid, hactive]
            exact h.updateGamepad config client slot packet task id

theorem Allocated.create {s : State} (h : Allocated s) {client : ℕ} (hfresh : Enabled s (.create client)) :
    Allocated (next s (.create client)) := by
  obtain ⟨hinput, hpending⟩ := hfresh
  have hholding : holding (next s (.create client)) = holding s := by
    funext o
    cases o with
    | pending c k => rfl
    | slot c k =>
      by_cases hc : c = client
      · subst hc
        simp [holding, next, hinput, fresh]
      · simp [holding, next, hc]
  constructor
  · rw [hholding]
    exact h.exact
  · intro c hc slot
    by_cases heq : c = client
    · subst heq
      exact hpending slot
    · refine h.live c ?_ slot
      simpa [next, heq] using hc

/-- The slots of a client and the tasks of its gamepads change places. -/
def exchange (client : ℕ) : Owner ≃ Owner where
  toFun
    | .slot c k => if c = client then .pending c k else .slot c k
    | .pending c k => if c = client then .slot c k else .pending c k
  invFun
    | .slot c k => if c = client then .pending c k else .slot c k
    | .pending c k => if c = client then .slot c k else .pending c k
  left_inv o := by cases o <;> simp only <;> split_ifs <;> simp_all
  right_inv o := by cases o <;> simp only <;> split_ifs <;> simp_all

theorem Allocated.destroy {s : State} (h : Allocated s) {client : ℕ} (hlive : (s.inputs client).isSome) :
    Allocated (next s (.destroy client)) := by
  obtain ⟨gamepads, hinput⟩ := Option.isSome_iff_exists.mp hlive
  have hstep : next s (.destroy client) =
      { s with
        inputs := update s.inputs client none
        pending := update s.pending client fun slot => (gamepads slot).id } := by
    simp only [next, hinput]
  have hholding : holding (next s (.destroy client)) = fun o => holding s (exchange client o) := by
    rw [hstep]
    funext o
    cases o with
    | slot c k =>
      by_cases hc : c = client
      · subst hc
        simp [holding, exchange, h.live c hlive k]
      · simp [holding, exchange, hc]
    | pending c k =>
      by_cases hc : c = client
      · subst hc
        simp [holding, exchange, hinput]
      · simp [holding, exchange, hc]
  constructor
  · rw [hholding, hstep]
    exact h.exact.handOver (exchange client)
  · intro c hc slot
    rw [hstep] at hc ⊢
    by_cases heq : c = client
    · subst heq
      simp at hc
    · simp only [update_of_ne heq] at hc ⊢
      exact h.live c hc slot

theorem Allocated.free {s : State} (h : Allocated s) (client : ℕ) (slot : Fin maxGamepads) :
    Allocated (next s (.free client slot)) := by
  cases hpending : s.pending client slot with
  | none =>
    have hstep : next s (.free client slot) = s := by simp only [next, hpending]
    rw [hstep]
    exact h
  | some id =>
    have hstep : next s (.free client slot) =
        { freeGamepad id s with pending := update s.pending client (update (s.pending client) slot none) } := by
      simp only [next, hpending]
    have hheld : holding s (.pending client slot) = some id := hpending
    have hholding : holding (next s (.free client slot)) = update (holding s) (.pending client slot) none := by
      rw [hstep]
      funext o
      cases o with
      | slot c k => rfl
      | pending c k =>
        by_cases hc : c = client
        · subst hc
          by_cases hk : k = slot
          · subst hk
            simp [holding]
          · simp [holding, hk]
        · simp [holding, hc]
    constructor
    · rw [hholding, hstep]
      exact h.exact.giveBack hheld
    · intro c hc k
      rw [hstep] at hc ⊢
      have hne : c ≠ client := by
        rintro rfl
        simp [h.live c hc slot] at hpending
      simp only [update_of_ne hne]
      exact h.live c hc k

theorem Allocated.next {s : State} (h : Allocated s) (e : Event) (he : Enabled s e) : Allocated (next s e) := by
  cases e with
  | create client => exact h.create he
  | arrival config client packet fails => exact h.arrival config client packet fails
  | multiController config client packet fails task => exact h.multiController config client packet fails task
  | timer task timer next => exact (h.cancel (some task)).emulationTask timer next
  | destroy client => exact h.destroy he.1
  | free client slot => exact h.free client slot

theorem allocated_initial : Allocated initial := by
  have hnone : holding initial = fun _ => none := by
    funext o
    cases o <;> rfl
  constructor
  · rw [hnone]
    exact exact_empty
  · intro client h
    simp [initial] at h

theorem allocated_runs {l : List Event} (h : Runs Enabled next initial l) : Allocated (l.foldl next initial) :=
  h.invariant Allocated allocated_initial fun _ e hs he => hs.next e he

/-! ## Every run -/

theorem free_eq {s : State} {client : ℕ} {slot : Fin maxGamepads} {id : Fin platfMaxGamepads}
    (h : s.pending client slot = some id) :
    (next s (.free client slot)).inputs = s.inputs ∧
      (next s (.free client slot)).gamepadMask = update s.gamepadMask id false := by
  simp only [next, h]
  exact ⟨rfl, rfl⟩

/-- When no input object is left, the pending tasks clear the mask. -/
theorem Allocated.drain {s : State} (h : Allocated s) (hnone : ∀ client, s.inputs client = none) :
    ∃ frees : List Event, (∀ e ∈ frees, ∃ client slot, e = .free client slot) ∧ Runs Enabled Gamepads.next s frees ∧
      ∀ x, (frees.foldl Gamepads.next s).gamepadMask x = false := by
  -- the induction is on the number of ids that are taken
  induction hcard : (Finset.univ.filter fun x => s.gamepadMask x = true).card generalizing s with
  | zero =>
    refine ⟨[], nofun, trivial, fun x => ?_⟩
    rw [Finset.card_eq_zero, Finset.filter_eq_empty_iff] at hcard
    simpa using hcard (Finset.mem_univ x)
  | succ n ih =>
    obtain ⟨x, hx⟩ := Finset.card_pos.mp (by omega : 0 < (Finset.univ.filter fun x => s.gamepadMask x = true).card)
    obtain ⟨-, htaken⟩ := Finset.mem_filter.mp hx
    obtain ⟨o, ho⟩ := (h.exact.taken_iff x).mp htaken
    cases o with
    | slot c k => simp [holding, hnone c] at ho
    | pending c k =>
      obtain ⟨hinputs, hmask⟩ := free_eq ho
      have hless : (Finset.univ.filter fun y => (Gamepads.next s (.free c k)).gamepadMask y = true) =
          (Finset.univ.filter fun y => s.gamepadMask y = true).erase x := by
        ext y
        rw [hmask]
        by_cases hy : y = x
        · subst hy
          simp
        · simp [hy]
      obtain ⟨frees, hfrees, hruns, hclear⟩ := ih (h.free c k) (fun client => by rw [hinputs, hnone])
        (by rw [hless, Finset.card_erase_of_mem hx, hcard, Nat.add_sub_cancel])
      refine ⟨.free c k :: frees, ?_, ⟨?_, hruns⟩, hclear⟩
      · intro e he
        rcases List.mem_cons.mp he with rfl | hmem
        · exact ⟨c, k, rfl⟩
        · exact hfrees e hmem
      · exact Option.isSome_iff_exists.mpr ⟨x, ho⟩

theorem gamepadMask_exact {l : List Event} (h : Runs Enabled next initial l) :
    (∀ x, (l.foldl next initial).gamepadMask x = true ↔ ∃! o, holding (l.foldl next initial) o = some x) ∧
      (∀ x o o', holding (l.foldl next initial) o = some x → holding (l.foldl next initial) o' = some x → o = o') ∧
      ((∀ client, (l.foldl next initial).inputs client = none) →
        ((∀ client slot, (l.foldl next initial).pending client slot = none) →
          ∀ x, (l.foldl next initial).gamepadMask x = false) ∧
        ∃ frees : List Event, (∀ e ∈ frees, ∃ client slot, e = .free client slot) ∧
          Runs Enabled next initial (l ++ frees) ∧ ∀ x, ((l ++ frees).foldl next initial).gamepadMask x = false) := by
  have hs := allocated_runs h
  refine ⟨hs.exact.taken_iff_existsUnique, fun x o o' ho ho' => hs.exact.unique o o' x ho ho', fun hnone => ⟨?_, ?_⟩⟩
  · intro hpending x
    refine hs.exact.not_taken (fun o => ?_) x
    cases o with
    | slot c k => simp [holding, hnone c]
    | pending c k => exact hpending c k
  · obtain ⟨frees, hfrees, hruns, hclear⟩ := hs.drain hnone
    refine ⟨frees, hfrees, Runs.append_iff.mpr ⟨h, hruns⟩, ?_⟩
    rw [List.foldl_append]
    exact hclear

/-- Two clients with a gamepad each, one removed by its client, the other destroyed with its input object. -/
def twoClients : List Event :=
  let packet (active : BitVec 16) (number : Int16) : MultiController := ⟨number, active, 0, 0, 0, 0, 0, 0, 0, 0⟩
  [.create 0, .create 1, .arrival ⟨true, 0⟩ 0 ⟨3, ⟨1, 0, 0⟩⟩ false, .multiController ⟨true, 0⟩ 1 (packet 1 0) false 7,
    .multiController ⟨true, 0⟩ 0 (packet 0 3) false 7, .destroy 1, .destroy 0, .free 1 ⟨0, by decide⟩]

theorem gamepadMask_exact_twoClients :
    Runs Enabled next initial twoClients ∧
      ∀ x, (twoClients.foldl next initial).gamepadMask x = true ↔
        ∃! o, holding (twoClients.foldl next initial) o = some x :=
  have h : Runs Enabled next initial twoClients := by decide
  ⟨h, (gamepadMask_exact h).1⟩

end Sunshine.Gamepads
