import Sunshine.Input.HomeEmulation

/-! In which runs HOME is always released and no tap of BACK emits it.

As long as BACK is not pressed while the emulation holds HOME, a gamepad has at most one pending task, the one of its
`backTimeoutId`: the first half while BACK is held, and the second half while HOME is. -/
namespace Sunshine.Gamepads
open Function Transitions
set_option autoImplicit false

/-! ## The emulation of a gamepad -/

/-- The pending tasks of a gamepad. -/
inductive Emulates (client : ℕ) (slot : Fin maxGamepads) (g : Gamepad) : List (ℕ × Timer) → Prop
  | idle : g.backTimeoutId = none → g.homeEmulationPressed = false → Emulates client slot g []
  | held {task : ℕ} : g.backTimeoutId = some task → g.homeEmulationPressed = false → g.id.isSome →
      isDown back g.gamepadState.buttonFlags = true → g.backButtonState = .none →
      Emulates client slot g [(task, ⟨false, client, slot, g.homeEmulationGeneration⟩)]
  | pressed {task : ℕ} : g.backTimeoutId = some task → g.homeEmulationPressed = true → g.id.isSome →
      Emulates client slot g [(task, ⟨true, client, slot, g.homeEmulationGeneration⟩)]

/-- Nothing forces the BACK button down. -/
structure EmulationOk (s : State) : Prop where
  nodup : (ids s).Nodup
  live : ∀ client slot g, gamepadAt s client slot = some g →
    g.backButtonState ≠ .down ∧ Emulates client slot g (slotTimers s client slot)
  dead : ∀ client slot, gamepadAt s client slot = none → slotTimers s client slot = []

theorem emulationOk_initial : EmulationOk initial where
  nodup := List.nodup_nil
  live client slot g hg := by cases hg
  dead _ _ _ := rfl

section Steps
variable {s t : State} {client : ℕ} {slot : Fin maxGamepads}

/-- A step on one gamepad. -/
theorem EmulationOk.change (h : EmulationOk s) {g : Gamepad} (hg : gamepadAt t client slot = some g)
    (hok : g.backButtonState ≠ .down ∧ Emulates client slot g (slotTimers t client slot))
    (hothers : ∀ c k, (c, k) ≠ (client, slot) →
      gamepadAt t c k = gamepadAt s c k ∧ slotTimers t c k = slotTimers s c k)
    (hnodup : (ids t).Nodup) : EmulationOk t where
  nodup := hnodup
  live c k g' hg' := by
    by_cases hsame : (c, k) = (client, slot)
    · obtain ⟨rfl, rfl⟩ := Prod.mk.inj hsame
      rw [hg] at hg'
      cases hg'
      exact hok
    · obtain ⟨hgamepad, htimers⟩ := hothers c k hsame
      rw [htimers]
      exact h.live c k g' (hgamepad ▸ hg')
  dead c k hnone := by
    by_cases hsame : (c, k) = (client, slot)
    · obtain ⟨rfl, rfl⟩ := Prod.mk.inj hsame
      rw [hg] at hnone
      cases hnone
    · obtain ⟨hgamepad, htimers⟩ := hothers c k hsame
      rw [htimers]
      exact h.dead c k (hgamepad ▸ hnone)

/-- A step that concerns neither gamepads nor tasks. -/
theorem EmulationOk.same (h : EmulationOk s) (hgamepads : ∀ c k, gamepadAt t c k = gamepadAt s c k)
    (htimers : t.timers = s.timers) : EmulationOk t := by
  have hslot : ∀ c k, slotTimers t c k = slotTimers s c k := by
    intro c k
    rw [slotTimers, htimers, slotTimers]
  refine ⟨?_, fun c k g hg => ?_, fun c k hg => ?_⟩
  · rw [ids, htimers]
    exact h.nodup
  · rw [hslot]
    exact h.live c k g (hgamepads c k ▸ hg)
  · rw [hslot]
    exact h.dead c k (hgamepads c k ▸ hg)

theorem Emulates.timer {g : Gamepad} {timers : List (ℕ × Timer)} (h : Emulates client slot g timers)
    {task : ℕ} {timer : Timer} (hmem : (task, timer) ∈ timers) :
    g.backTimeoutId = some task ∧ timers = [(task, timer)] ∧ g.id.isSome ∧
      timer = ⟨g.homeEmulationPressed, client, slot, g.homeEmulationGeneration⟩ := by
  cases h with
  | idle _ _ => cases hmem
  | held htask hpressed hid _ _ =>
    cases List.mem_singleton.mp hmem
    exact ⟨htask, rfl, hid, by rw [hpressed]⟩
  | pressed htask hpressed hid =>
    cases List.mem_singleton.mp hmem
    exact ⟨htask, rfl, hid, by rw [hpressed]⟩

theorem Emulates.task {g : Gamepad} {timers : List (ℕ × Timer)} (h : Emulates client slot g timers)
    {task : ℕ} (htask : g.backTimeoutId = some task) :
    timers = [(task, ⟨g.homeEmulationPressed, client, slot, g.homeEmulationGeneration⟩)] := by
  cases h with
  | idle hnone _ =>
    rw [hnone] at htask
    cases htask
  | held hsome hpressed _ _ _ =>
    cases hsome.symm.trans htask
    rw [hpressed]
  | pressed hsome hpressed _ =>
    cases hsome.symm.trans htask
    rw [hpressed]

theorem Emulates.pressed_task {g : Gamepad} {timers : List (ℕ × Timer)} (h : Emulates client slot g timers)
    (hpressed : g.homeEmulationPressed = true) : g.id.isSome ∧ ∃ task, g.backTimeoutId = some task ∧
      timers = [(task, ⟨true, client, slot, g.homeEmulationGeneration⟩)] := by
  cases h with
  | idle _ hp | held _ hp _ _ _ =>
    rw [hp] at hpressed
    cases hpressed
  | pressed htask _ hid => exact ⟨hid, _, htask, rfl⟩

theorem Emulates.nil_of_up {g : Gamepad} {timers : List (ℕ × Timer)} (h : Emulates client slot g timers)
    (hpressed : g.homeEmulationPressed = false) (hup : isDown back g.gamepadState.buttonFlags = false) :
    timers = [] := by
  cases h with
  | idle _ _ => rfl
  | held _ _ _ hdown _ =>
    rw [hup] at hdown
    cases hdown
  | pressed _ hp _ =>
    rw [hpressed] at hp
    cases hp

theorem Emulates.nil_of_none {g : Gamepad} {timers : List (ℕ × Timer)} (h : Emulates client slot g timers)
    (htask : g.backTimeoutId = none) : timers = [] := by
  cases h with
  | idle _ _ => rfl
  | held hsome _ _ _ _ | pressed hsome _ _ =>
    rw [htask] at hsome
    cases hsome

/-- A gamepad that gets an id emulates what it did. -/
theorem Emulates.withId {g : Gamepad} {timers : List (ℕ × Timer)} (h : Emulates client slot g timers)
    (id : Fin platfMaxGamepads) : Emulates client slot { g with id := some id } timers := by
  cases h with
  | idle htask hpressed => exact .idle htask hpressed
  | held htask hpressed _ hback hstate => exact .held htask hpressed rfl hback hstate
  | pressed htask hpressed _ => exact .pressed htask hpressed rfl

theorem EmulationOk.prepare (h : EmulationOk s) {g : Gamepad} {id : Fin platfMaxGamepads}
    (hg : gamepadAt s client slot = some g) (hprepared : Prepared s t client slot id g) :
    EmulationOk t := by
  have hslot : ∀ c k, slotTimers t c k = slotTimers s c k := by
    intro c k
    rw [slotTimers, hprepared.timers, slotTimers]
  obtain ⟨hstate, hemulates⟩ := h.live client slot g hg
  refine h.change hprepared.own ⟨hstate, ?_⟩ (fun c k hne => ⟨hprepared.others c k hne, hslot c k⟩) ?_
  · rw [hslot]
    exact hemulates.withId id
  · rw [ids, hprepared.timers]
    exact h.nodup

theorem forced_press {g : Gamepad} {packet : MultiController} (hstate : g.backButtonState ≠ .down)
    (hdown : isDown back (forced g packet).2 = true) : (forced g packet).1 = .none := by
  unfold forced at hdown ⊢
  unfold forceBack at hdown ⊢
  split
  · rename_i hup
    rw [hup] at hdown
    simp only at hdown
    rw [isDown_back_clear] at hdown
    cases hdown
  · rename_i hdownState
    exact absurd hdownState hstate
  · rfl

theorem forced_state {g : Gamepad} {packet : MultiController} (hstate : g.backButtonState ≠ .down) :
    (forced g packet).1 ≠ .down ∧ (g.backButtonState = .none → (forced g packet).1 = .none) := by
  unfold forced forceBack
  split
  · rename_i hup
    refine ⟨?_, fun hnone => ?_⟩
    · dsimp only
      split <;> simp
    · rw [hup] at hnone
      cases hnone
  · rename_i hdown
    exact absurd hdown hstate
  · exact ⟨by simp, fun _ => rfl⟩

theorem isDown_back_report (pressed : Bool) (flags : UInt32) :
    isDown back (if pressed then flags ||| home else flags) = isDown back flags := by
  cases pressed with
  | true => exact isDown_back_home flags
  | false => rfl

/-- The report of a gamepad keeps its emulation in order, unless BACK is pressed while HOME is held. -/
theorem EmulationOk.update (h : EmulationOk s) {g : Gamepad} (hg : gamepadAt s client slot = some g)
    (hid : g.id.isSome) (config : Config) (packet : MultiController) {task : ℕ}
    (hfresh : ∀ timer ∈ s.timers, timer.1 ≠ task) (id : Fin platfMaxGamepads)
    (hclear : backPress g packet = true → 0 ≤ config.backButtonTimeout → g.homeEmulationPressed = false) :
    EmulationOk (updateGamepad config client slot packet task id s) := by
  obtain ⟨hstate, hemulates⟩ := h.live client slot g hg
  obtain ⟨hstate', hnone'⟩ := @forced_state g packet hstate
  obtain ⟨gamepadState, hflags, hupdate⟩ := updateGamepad_spec config packet task id hg
  have hback : isDown back gamepadState.buttonFlags = isDown back (forced g packet).2 := by
    rw [hflags, isDown_back_report]
  rw [hupdate, emulateHome_eq]
  by_cases hpress : backPress g packet = true ∧ 0 ≤ config.backButtonTimeout
  · -- BACK goes down: nothing is pending, and the first half starts.
    rw [if_pos hpress]
    have hpressed := hclear hpress.1 hpress.2
    have hedge := hpress.1
    rw [backPress, Bool.and_eq_true, Bool.not_eq_true'] at hedge
    have hempty := hemulates.nil_of_up hpressed hedge.2
    refine h.change (gamepadAt_setSlot_same (by exact hg) _) ⟨hstate', ?_⟩ (fun c k hne => ⟨?_, ?_⟩) ?_
    · have htimers : slotTimers (setSlot client slot
          { g with
            gamepadState, backButtonState := (forced g packet).1
            homeEmulationGeneration := g.homeEmulationGeneration + 1, backTimeoutId := some task }
          (call [.update id gamepadState]
            (pushDelayed task ⟨false, client, slot, g.homeEmulationGeneration + 1⟩ s))) client slot =
          [(task, ⟨false, client, slot, g.homeEmulationGeneration + 1⟩)] := by
        have hpush := slotTimers_pushDelayed (s := s) task
          ⟨false, client, slot, g.homeEmulationGeneration + 1⟩ client slot
        rw [hempty, if_pos ⟨rfl, rfl⟩] at hpush
        exact hpush
      rw [htimers]
      exact .held rfl hpressed hid (hback.trans hedge.1) (forced_press hstate hedge.1)
    · exact gamepadAt_setSlot_other _ hne
    · have hpush := slotTimers_pushDelayed (s := s) task
        ⟨false, client, slot, g.homeEmulationGeneration + 1⟩ c k
      rw [if_neg (fun heq => hne (by rw [← heq.1, ← heq.2])), List.append_nil] at hpush
      exact hpush
    · have hids : ids (pushDelayed task ⟨false, client, slot, g.homeEmulationGeneration + 1⟩ s) =
          ids s ++ [task] := by
        simp [ids, pushDelayed]
      show (ids (pushDelayed task _ s)).Nodup
      rw [hids]
      refine List.nodup_append.mpr ⟨h.nodup, List.nodup_singleton task, fun a ha b hb => ?_⟩
      obtain ⟨timer, htimer, heq⟩ := List.mem_map.mp ha
      rw [List.mem_singleton.mp hb, ← heq]
      exact hfresh timer htimer
  · rw [if_neg hpress]
    by_cases hrelease : backRelease g packet = true ∧ g.backTimeoutId.isSome ∧
        g.homeEmulationPressed = false
    · -- BACK goes up in time: the first half is cancelled.
      rw [if_pos hrelease]
      obtain ⟨-, hsome, hpressed⟩ := hrelease
      obtain ⟨pending, htask⟩ := Option.isSome_iff_exists.mp hsome
      have htimers := hemulates.task htask
      have hmem := mem_slotTimers.mp (htimers ▸ List.mem_singleton_self _)
      refine h.change (gamepadAt_setSlot_same (by exact hg) _) ⟨hstate', ?_⟩ (fun c k hne => ⟨?_, ?_⟩) ?_
      · have hcancel := slotTimers_cancel_same (s := s) htimers
        rw [← htask] at hcancel
        show Emulates client slot _ (slotTimers (cancel g.backTimeoutId s) client slot)
        rw [hcancel]
        exact .idle rfl hpressed
      · exact gamepadAt_setSlot_other _ hne
      · have hcancel := slotTimers_cancel_other h.nodup hmem.1 (c := c) (k := k) hne
        rw [← htask] at hcancel
        exact hcancel
      · exact h.nodup.sublist (ids_cancel_sublist _)
    · -- No change of BACK, or one that does not matter.
      rw [if_neg hrelease]
      refine h.change (gamepadAt_setSlot_same (by exact hg) _) ⟨hstate', ?_⟩
        (fun c k hne => ⟨gamepadAt_setSlot_other _ hne, rfl⟩) h.nodup
      show Emulates client slot _ (slotTimers s client slot)
      generalize slotTimers s client slot = timers at hemulates ⊢
      cases hemulates with
      | idle htask hpressed => exact .idle htask hpressed
      | held htask hpressed _ hdown hnone =>
        have hstays : isDown back (forced g packet).2 = true := by
          by_contra hup
          rw [Bool.not_eq_true] at hup
          exact hrelease ⟨by simp [backRelease, hup, hdown], by simp [htask], hpressed⟩
        exact .held htask hpressed hid (hback.trans hstays) (hnone' hnone)
      | pressed htask hpressed _ => exact .pressed htask hpressed hid

/-- What an expired task does, for the gamepad whose task it is. -/
theorem emulationTask_spec (h : EmulationOk s) {task : ℕ} {timer : Timer}
    (hmem : (task, timer) ∈ s.timers) (next : ℕ) :
    ∃ g id, gamepadAt s timer.client timer.controller = some g ∧ g.id = some id ∧
      timer.homeEmulationGeneration = g.homeEmulationGeneration ∧
      timer.release = g.homeEmulationPressed ∧
      slotTimers s timer.client timer.controller = [(task, timer)] ∧
      emulationTask timer next (cancel (some task) s) =
        if timer.release then
          let released :=
            { g.gamepadState with buttonFlags := g.gamepadState.buttonFlags &&& ~~~home }
          setSlot timer.client timer.controller
            { g with gamepadState := released, homeEmulationPressed := false, backTimeoutId := none }
            (call [.update id released] (cancel (some task) s))
        else
          let backUp := { g.gamepadState with buttonFlags := g.gamepadState.buttonFlags &&& ~~~back }
          let homeDown := { backUp with buttonFlags := backUp.buttonFlags ||| home }
          setSlot timer.client timer.controller
            { g with
              gamepadState := homeDown, backButtonState := .up, homeEmulationPressed := true
              backTimeoutId := some next }
            (pushDelayed next { timer with release := true }
              (call [.update id backUp, .update id homeDown] (cancel (some task) s))) := by
  have hslot : (task, timer) ∈ slotTimers s timer.client timer.controller :=
    mem_slotTimers.mpr ⟨hmem, rfl, rfl⟩
  cases hg : gamepadAt s timer.client timer.controller with
  | none =>
    rw [h.dead _ _ hg] at hslot
    cases hslot
  | some g =>
    obtain ⟨-, hemulates⟩ := h.live _ _ g hg
    obtain ⟨-, htimers, hid, htimer⟩ := hemulates.timer hslot
    obtain ⟨id, hid⟩ := Option.isSome_iff_exists.mp hid
    have hgeneration : timer.homeEmulationGeneration = g.homeEmulationGeneration := congrArg (·.homeEmulationGeneration) htimer
    refine ⟨g, id, rfl, hid, hgeneration, congrArg (·.release) htimer, htimers, ?_⟩
    obtain ⟨gamepads, hinput, hgamepad⟩ := inputs_of_gamepadAt hg
    have hinput' : (cancel (some task) s).inputs timer.client = some gamepads := hinput
    unfold emulationTask
    rw [hinput']
    dsimp only
    rw [hgamepad, if_neg (not_not.mpr hgeneration.symm), hid]

theorem EmulationOk.timer (h : EmulationOk s) {task : ℕ} {timer : Timer}
    (hmem : (task, timer) ∈ s.timers) {next : ℕ} (hfresh : ∀ t ∈ s.timers, t.1 ≠ next) :
    EmulationOk (emulationTask timer next (cancel (some task) s)) := by
  obtain ⟨g, id, hg, hid, hgeneration, hrelease, htimers, htask⟩ := emulationTask_spec h hmem next
  obtain ⟨hstate, -⟩ := h.live _ _ g hg
  have hcancel := slotTimers_cancel_same (s := s) htimers
  have hothers := fun c k => slotTimers_cancel_other h.nodup hmem (c := c) (k := k)
  have hnodup : (ids (cancel (some task) s)).Nodup := h.nodup.sublist (ids_cancel_sublist _)
  rw [htask]
  split
  · refine h.change (gamepadAt_setSlot_same (by exact hg) _) ⟨hstate, ?_⟩
      (fun c k hne => ⟨gamepadAt_setSlot_other _ hne, hothers c k hne⟩) hnodup
    show Emulates _ _ _ (slotTimers (cancel (some task) s) timer.client timer.controller)
    rw [hcancel]
    exact .idle rfl rfl
  · refine h.change (gamepadAt_setSlot_same (by exact hg) _) ⟨by simp, ?_⟩
      (fun c k hne => ⟨gamepadAt_setSlot_other _ hne, ?_⟩) ?_
    · have hpush := slotTimers_pushDelayed (s := cancel (some task) s) next { timer with release := true }
        timer.client timer.controller
      rw [hcancel, if_pos ⟨rfl, rfl⟩, List.nil_append] at hpush
      show Emulates _ _ _ (slotTimers (pushDelayed next _ (cancel (some task) s)) timer.client timer.controller)
      rw [hpush, hgeneration]
      exact .pressed rfl rfl (by simp [hid])
    · have hpush := slotTimers_pushDelayed (s := cancel (some task) s) next { timer with release := true } c k
      rw [hothers c k hne, if_neg (fun heq => hne (by rw [← heq.1, ← heq.2])), List.append_nil] at hpush
      exact hpush
    · have hids : ids (pushDelayed next { timer with release := true } (cancel (some task) s)) =
          ids (cancel (some task) s) ++ [next] := by
        simp [ids, pushDelayed]
      show (ids (pushDelayed next _ (cancel (some task) s))).Nodup
      rw [hids]
      refine List.nodup_append.mpr ⟨hnodup, List.nodup_singleton next, fun a ha b hb => ?_⟩
      obtain ⟨t, ht, heq⟩ := List.mem_map.mp ((ids_cancel_sublist _).subset ha)
      rw [List.mem_singleton.mp hb, ← heq]
      exact hfresh t ht

theorem EmulationOk.remove (h : EmulationOk s) {g : Gamepad} (hg : gamepadAt s client slot = some g)
    (id : Fin platfMaxGamepads) : EmulationOk (removeGamepad client slot g id s) := by
  obtain ⟨-, hemulates⟩ := h.live client slot g hg
  have htimers : slotTimers (cancel g.backTimeoutId s) client slot = [] := by
    cases htask : g.backTimeoutId with
    | none =>
      rw [slotTimers_cancel, hemulates.nil_of_none htask]
      rfl
    | some task => exact slotTimers_cancel_same (hemulates.task htask)
  have hothers : ∀ c k, (c, k) ≠ (client, slot) →
      slotTimers (cancel g.backTimeoutId s) c k = slotTimers s c k := by
    intro c k hne
    cases htask : g.backTimeoutId with
    | none =>
      rw [slotTimers_cancel]
      simp
    | some task =>
      have hmem := mem_slotTimers.mp ((hemulates.task htask) ▸ List.mem_singleton_self _)
      exact slotTimers_cancel_other h.nodup hmem.1 hne
  exact h.change (gamepadAt_setSlot_same (by exact hg) _)
    ⟨by simp, by
      show Emulates _ _ _ (slotTimers (cancel g.backTimeoutId s) client slot)
      rw [htimers]
      exact .idle rfl rfl⟩
    (fun c k hne => ⟨gamepadAt_setSlot_other _ hne, hothers c k hne⟩)
    (h.nodup.sublist (ids_cancel_sublist _))

theorem gamepadAt_arrival (h : EmulationOk s) (config : Config) (packet : ControllerArrival) (fails : Bool) :
    EmulationOk (passthroughControllerArrival config client packet fails s) := by
  unfold passthroughControllerArrival
  split
  · exact h
  · split
    · rename_i slot gamepads hslot hinput
      split
      · exact h
      · rename_i hid
        have hg : gamepadAt s client slot = some (gamepads slot) := gamepadAt_eq hinput
        have hnone : (gamepads slot).id = none := by simpa using hid
        unfold allocGamepad
        obtain ⟨x, hx, halloc⟩ | ⟨-, halloc⟩ := allocId_cases s.gamepadMask
        · rw [halloc]
          cases fails with
          | true => exact h.same (fun _ _ => rfl) rfl
          | false =>
            have hprepared : Prepared s (setSlot client slot { gamepads slot with id := some x }
                (call [.alloc x slot packet.arrival]
                  { s with gamepadMask := Function.update s.gamepadMask x true })) client slot x
                (gamepads slot) :=
              ⟨.inr hnone, gamepadAt_setSlot_same (by exact hg) _, fun _ _ hne => gamepadAt_setSlot_other _ hne,
                rfl, ⟨_, rfl, fun _ _ hin => by simp at hin⟩⟩
            exact h.prepare hg hprepared
        · rw [halloc]
          exact h
    · exact h

theorem overtakes_eq {config : Config} {packet : MultiController} {fails : Bool} {task : ℕ} {g : Gamepad}
    (hslot : slotOf packet.controllerNumber.toInt = some slot) (hg : gamepadAt s client slot = some g)
    (hconfig : config.controller = true) (hactive : packet.activeGamepadMask.getLsbD slot = true) :
    overtakes s (.multiController config client packet fails task) =
      (decide (0 ≤ config.backButtonTimeout) && backPress g packet && g.homeEmulationPressed) := by
  obtain ⟨gamepads, hinput, hgamepad⟩ := inputs_of_gamepadAt hg
  simp only [overtakes, hslot, hinput, hgamepad, hconfig, hactive, Bool.true_and]

theorem clear_of_not_overtakes {config : Config} {packet : MultiController} {fails : Bool} {task : ℕ}
    {g : Gamepad} (hslot : slotOf packet.controllerNumber.toInt = some slot)
    (hg : gamepadAt s client slot = some g) (hconfig : config.controller = true)
    (hactive : packet.activeGamepadMask.getLsbD slot = true)
    (hclear : overtakes s (.multiController config client packet fails task) = false)
    (hpress : backPress g packet = true) (htimeout : 0 ≤ config.backButtonTimeout) :
    g.homeEmulationPressed = false := by
  rw [overtakes_eq hslot hg hconfig hactive] at hclear
  simpa [hpress, htimeout] using hclear

end Steps

theorem EmulationOk.next {s : State} (h : EmulationOk s) (e : Event) (hen : Enabled s e)
    (hclear : overtakes s e = false) : EmulationOk (next s e) := by
  cases e with
  | create client =>
    have hother : ∀ c k, c ≠ client → gamepadAt (Gamepads.next s (.create client)) c k = gamepadAt s c k := by
      intro c k hne
      simp [Gamepads.next, gamepadAt, hne]
    have hcreated : ∀ k, gamepadAt (Gamepads.next s (.create client)) client k = some fresh := by
      intro k
      simp [Gamepads.next, gamepadAt]
    have hnone : ∀ k, slotTimers s client k = [] := by
      intro k
      exact h.dead client k (by simp [gamepadAt, hen.1])
    refine ⟨h.nodup, fun c k g hg => ?_, fun c k hg => ?_⟩
    · by_cases hc : c = client
      · subst hc
        rw [hcreated] at hg
        cases hg
        show _ ∧ Emulates c k fresh (slotTimers s c k)
        rw [hnone]
        exact ⟨by simp [fresh], .idle rfl rfl⟩
      · rw [hother c k hc] at hg
        exact h.live c k g hg
    · by_cases hc : c = client
      · subst hc
        exact hnone k
      · rw [hother c k hc] at hg
        exact h.dead c k hg
  | arrival config client packet fails => exact gamepadAt_arrival h config packet fails
  | multiController config client packet fails task =>
    obtain ⟨mask, new, heq, -, -⟩ | ⟨slot, g, id, -, hg, -, -, heq⟩ |
      ⟨slot, g, id, s₁, hslot, hg, hconfig, hactive, hprepared, heq⟩ :=
        @multiController_cases s client config packet fails task
    · simp only [Gamepads.next, heq]
      exact h.same (fun _ _ => rfl) rfl
    · simp only [Gamepads.next, heq]
      exact h.remove hg id
    · simp only [Gamepads.next, heq]
      refine (h.prepare hg hprepared).update hprepared.own rfl config packet ?_ id ?_
      · rw [hprepared.timers]
        exact hen.2
      · exact fun hpress htimeout =>
          clear_of_not_overtakes (g := g) hslot hg hconfig hactive hclear hpress htimeout
  | timer task timer next => exact h.timer hen.1 hen.2
  | destroy client =>
    obtain ⟨gamepads, hinput⟩ := Option.isSome_iff_exists.mp hen.1
    have hnext : Gamepads.next s (.destroy client) = { s with
        inputs := Function.update s.inputs client none
        pending := Function.update s.pending client fun slot => (gamepads slot).id } := by
      simp only [Gamepads.next, hinput]
    have hnone : ∀ k, slotTimers s client k = [] := by
      intro k
      rw [slotTimers, List.filter_eq_nil_iff]
      intro t ht
      simp [hen.2 t ht]
    rw [hnext]
    refine ⟨h.nodup, fun c k g hg => ?_, fun c k hg => ?_⟩
    · by_cases hc : c = client
      · subst hc
        simp [gamepadAt] at hg
      · exact h.live c k g (by simpa [gamepadAt, hc] using hg)
    · by_cases hc : c = client
      · subst hc
        exact hnone k
      · exact h.dead c k (by simpa [gamepadAt, hc] using hg)
  | free client slot =>
    simp only [Gamepads.next]
    split
    · exact h
    · exact h.same (fun _ _ => rfl) rfl

/-! ## What is watched -/

/-- The reports tell what the gamepads say of HOME, and a tap has no task any more. -/
structure WatchOk (w : Watch) : Prop where
  emulation : EmulationOk w.state
  sent : ∀ client slot, w.homeSent client slot =
    ((gamepadAt w.state client slot).map Gamepad.homeEmulationPressed).getD false
  tapped : ∀ task, w.tapped task = true → task ∉ ids w.state

theorem watchOk_initial : WatchOk Watch.initial where
  emulation := emulationOk_initial
  sent _ _ := rfl
  tapped _ h := by cases h

section Watching
variable {w : Watch} {client : ℕ} {slot : Fin maxGamepads}

theorem nextHomeSent_none {before after : State} {homeSent : ℕ → Fin maxGamepads → Bool} {e : Event}
    (h : reported before after = none) :
    nextHomeSent before after homeSent e client slot = homeSent client slot := by
  unfold nextHomeSent
  rw [h]
  cases e <;> rfl

theorem sent_next (h : WatchOk w) (e : Event) (hen : Enabled w.state e) (client : ℕ)
    (slot : Fin maxGamepads) : (nextWatch w e).homeSent client slot =
      ((gamepadAt (next w.state e) client slot).map Gamepad.homeEmulationPressed).getD false := by
  have hsent := h.sent client slot
  show nextHomeSent w.state (next w.state e) w.homeSent e client slot = _
  cases e with
  | create c =>
    show w.homeSent client slot = _
    rw [hsent]
    by_cases hc : client = c
    · subst hc
      simp [gamepadAt, next, hen.1, fresh]
    · simp [gamepadAt, next, hc]
  | arrival config c packet fails =>
    show w.homeSent client slot = _
    rw [hsent]
    simp only [next]
    unfold passthroughControllerArrival
    split
    · rfl
    · split
      · rename_i slot' gamepads hslot hinput
        split
        · rfl
        · unfold allocGamepad
          obtain ⟨x, hx, halloc⟩ | ⟨-, halloc⟩ := allocId_cases w.state.gamepadMask
          · rw [halloc]
            cases fails with
            | true => rfl
            | false =>
              have hg : gamepadAt w.state c slot' = some (gamepads slot') := gamepadAt_eq hinput
              by_cases hsame : (client, slot) = (c, slot')
              · obtain ⟨rfl, rfl⟩ := Prod.mk.inj hsame
                dsimp only
                rw [if_neg Bool.false_ne_true, gamepadAt_setSlot_same (by exact hg), hg]
                rfl
              · dsimp only
                rw [if_neg Bool.false_ne_true, gamepadAt_setSlot_other _ hsame]
                rfl
          · rw [halloc]
      · rfl
  | destroy c =>
    show w.homeSent client slot = _
    rw [hsent]
    obtain ⟨gamepads, hinput⟩ := Option.isSome_iff_exists.mp hen.1
    by_cases hc : client = c
    · subst hc
      have hnone : slotTimers w.state client slot = [] := by
        rw [slotTimers, List.filter_eq_nil_iff]
        intro t ht
        simp [hen.2 t ht]
      have hg : gamepadAt w.state client slot = some (gamepads slot) := gamepadAt_eq hinput
      have hemulates := (h.emulation.live client slot _ hg).2
      have hpressed : (gamepads slot).homeEmulationPressed = false := by
        by_contra hp
        rw [Bool.not_eq_false] at hp
        obtain ⟨-, task, -, htimers⟩ := hemulates.pressed_task hp
        rw [hnone] at htimers
        cases htimers
      simp [hpressed, next, hinput, gamepadAt]
    · simp [next, hinput, gamepadAt, hc]
  | free c k =>
    show w.homeSent client slot = _
    rw [hsent]
    simp only [next]
    split <;> rfl
  | timer task timer n =>
    obtain ⟨g, id, hg, hid, hgeneration, hrelease, htimers, htask⟩ := emulationTask_spec h.emulation hen.1 n
    cases hhalf : timer.release with
    | true =>
      rw [hhalf, if_pos rfl] at htask
      have hreport : reported w.state (next w.state (.timer task timer n)) =
          some { g.gamepadState with buttonFlags := g.gamepadState.buttonFlags &&& ~~~home } := by
        refine @reported_last _ _ [] id _ ?_
        simp only [next, htask]
        rfl
      simp only [nextHomeSent, hreport]
      by_cases hsame : (client, slot) = (timer.client, timer.controller)
      · obtain ⟨rfl, rfl⟩ := Prod.mk.inj hsame
        rw [if_pos ⟨rfl, rfl⟩, isDown_home_clear]
        simp only [next, htask]
        rw [gamepadAt_setSlot_same (by exact hg)]
        rfl
      · rw [if_neg (fun heq => hsame (by rw [heq.1, heq.2])), hsent]
        simp only [next, htask]
        rw [gamepadAt_setSlot_other _ hsame]
        rfl
    | false =>
      rw [hhalf, if_neg Bool.false_ne_true] at htask
      have hreport : reported w.state (next w.state (.timer task timer n)) =
          some { g.gamepadState with
            buttonFlags := g.gamepadState.buttonFlags &&& ~~~back ||| home } := by
        refine @reported_last _ _ [.update id
          { g.gamepadState with buttonFlags := g.gamepadState.buttonFlags &&& ~~~back }] id _ ?_
        simp only [next, htask]
        rfl
      simp only [nextHomeSent, hreport]
      by_cases hsame : (client, slot) = (timer.client, timer.controller)
      · obtain ⟨rfl, rfl⟩ := Prod.mk.inj hsame
        rw [if_pos ⟨rfl, rfl⟩, isDown_home_set]
        simp only [next, htask]
        rw [gamepadAt_setSlot_same (by exact hg)]
        rfl
      · rw [if_neg (fun heq => hsame (by rw [heq.1, heq.2])), hsent]
        simp only [next, htask]
        rw [gamepadAt_setSlot_other _ hsame]
        rfl
  | multiController config c packet fails task =>
    obtain ⟨mask, new, heq, hnew, -⟩ | ⟨slot', g, id, hslot, hg, -, -, heq⟩ |
      ⟨slot', g, id, s₁, hslot, hg, hconfig, hactive, hprepared, heq⟩ :=
        @multiController_cases w.state c config packet fails task
    · have hnone : reported w.state (next w.state (.multiController config c packet fails task)) = none := by
        refine @reported_none _ _ new ?_ hnew
        simp only [next, heq]
      rw [nextHomeSent_none hnone, hsent]
      simp only [next, heq]
      rfl
    · have hreport : reported w.state (next w.state (.multiController config c packet fails task)) =
          some neutral := by
        rw [@reported_eq _ _ [.update id neutral, .free id] (by simp only [next, heq]; rfl)]
        rfl
      simp only [nextHomeSent, hreport]
      by_cases hsame : (client, slot) = (c, slot')
      · obtain ⟨rfl, rfl⟩ := Prod.mk.inj hsame
        rw [if_pos ⟨rfl, hslot⟩, show isDown home neutral.buttonFlags = false by decide, Bool.and_false]
        simp only [next, heq, removeGamepad]
        rw [gamepadAt_setSlot_same (by exact hg)]
        rfl
      · have hne : ¬(c = client ∧ slotOf packet.controllerNumber.toInt = some slot) := by
          rintro ⟨rfl, hslot'⟩
          rw [hslot] at hslot'
          exact hsame (by rw [Option.some.inj hslot'])
        rw [if_neg hne, hsent]
        simp only [next, heq, removeGamepad]
        rw [gamepadAt_setSlot_other _ hsame]
        rfl
    · obtain ⟨gamepadState, hflags, hupdate⟩ := updateGamepad_spec config packet task id hprepared.own
      obtain ⟨new, hcalls, -⟩ := hprepared.calls
      have hemulated := emulateHome_eq config c slot' task { g with id := some id } packet s₁
      generalize emulateHome config c slot' task _ _ _ s₁ = emulated at hupdate hemulated
      have hsame₁ : emulated.1.homeEmulationPressed = g.homeEmulationPressed ∧
          emulated.2.calls = s₁.calls ∧ emulated.2.inputs = s₁.inputs := by
        rw [hemulated]
        split
        · exact ⟨rfl, rfl, rfl⟩
        · split <;> exact ⟨rfl, rfl, rfl⟩
      obtain ⟨hpressed, hcalls₁, hinputs₁⟩ := hsame₁
      have hreport : reported w.state (next w.state (.multiController config c packet fails task)) =
          some gamepadState := by
        refine @reported_last _ _ new id _ ?_
        simp only [next, heq, hupdate]
        show emulated.2.calls ++ _ = _
        rw [hcalls₁, hcalls, List.append_assoc]
      simp only [nextHomeSent, hreport]
      have hat : ∀ k d, gamepadAt (call [.update id gamepadState] emulated.2) k d = gamepadAt s₁ k d := by
        intro k d
        show (emulated.2.inputs k).map _ = _
        rw [hinputs₁, gamepadAt]
      by_cases hsame : (client, slot) = (c, slot')
      · obtain ⟨rfl, rfl⟩ := Prod.mk.inj hsame
        rw [if_pos ⟨rfl, hslot⟩, hsent, hg]
        simp only [next, heq, hupdate]
        rw [gamepadAt_setSlot_same ((hat client slot).trans hprepared.own)]
        simp only [Option.map_some, Option.getD_some, hpressed, hflags]
        cases hp : g.homeEmulationPressed with
        | true => simp [isDown_home_set]
        | false => rfl
      · have hne : ¬(c = client ∧ slotOf packet.controllerNumber.toInt = some slot) := by
          rintro ⟨rfl, hslot'⟩
          rw [hslot] at hslot'
          exact hsame (by rw [Option.some.inj hslot'])
        rw [if_neg hne, hsent]
        simp only [next, heq, hupdate]
        rw [gamepadAt_setSlot_other _ hsame, hat, hprepared.others _ _ hsame]

/-- A BACK button that goes up, seen in what is stored, is a release in the packet. -/
theorem backRelease_of_released {s s₁ : State} {config : Config} {packet : MultiController} {task : ℕ}
    {id : Fin platfMaxGamepads} {g : Gamepad} (hg : gamepadAt s client slot = some g)
    (hg₁ : gamepadAt s₁ client slot = some { g with id := some id })
    (h : backReleased s (updateGamepad config client slot packet task id s₁) client slot = true) :
    backRelease g packet = true := by
  obtain ⟨gamepadState, hflags, hupdate⟩ := updateGamepad_spec config packet task id hg₁
  have hemulated := emulateHome_eq config client slot task { g with id := some id } packet s₁
  generalize emulateHome config client slot task _ _ _ s₁ = emulated at hupdate hemulated
  have hinputs : emulated.2.inputs = s₁.inputs := by
    rw [hemulated]
    split
    · rfl
    · split <;> rfl
  have hat : gamepadAt (call [.update id gamepadState] emulated.2) client slot =
      some { g with id := some id } := by
    show (emulated.2.inputs client).map _ = _
    rw [hinputs]
    exact hg₁
  have hafter := gamepadAt_setSlot_same hat { emulated.1 with gamepadState }
  rw [← hupdate] at hafter
  have hback : isDown back gamepadState.buttonFlags = isDown back (forced g packet).2 := by
    rw [hflags]
    exact isDown_back_report _ _
  unfold backReleased at h
  rw [hg, hafter] at h
  simp only [hback] at h
  rw [backRelease, Bool.and_comm]
  exact h

/-- A press of BACK that ends in time leaves no task behind. -/
theorem tapped_next (h : WatchOk w) (e : Event) (hen : Enabled w.state e)
    (hclear : overtakes w.state e = false) (task : ℕ) (htapped : (nextWatch w e).tapped task = true) :
    task ∉ ids (next w.state e) := by
  have htapped' : nextTapped w.state (next w.state e) w.tapped e task = true := htapped
  unfold nextTapped at htapped'
  rw [Bool.and_eq_true, Bool.or_eq_true, List.contains_iff_mem] at htapped'
  by_cases hold : w.tapped task = true
  · exact absurd htapped'.1 (h.tapped task hold)
  · have hnew := htapped'.2.resolve_left hold
    cases e with
    | multiController config client packet fails n =>
      dsimp only at hnew
      split at hnew
      · rename_i slot hslot
        rw [Bool.and_eq_true, List.any_eq_true] at hnew
        obtain ⟨hreleased, ⟨t, timer⟩, ht, hfirst⟩ := hnew
        simp only [Bool.and_eq_true, decide_eq_true_eq, Bool.not_eq_true'] at hfirst
        obtain ⟨rfl, hfirst⟩ := hfirst
        obtain ⟨mask, new, heq, -, -⟩ | ⟨slot', g, id, hslot', hg, -, -, heq⟩ |
          ⟨slot', g, id, s₁, hslot', hg, hconfig, hactive, hprepared, heq⟩ :=
            @multiController_cases w.state client config packet fails n
        · -- Nothing was stored.
          simp only [next, heq] at hreleased
          unfold backReleased at hreleased
          rw [show gamepadAt { w.state with gamepadMask := mask, calls := w.state.calls ++ new } client slot =
            gamepadAt w.state client slot from rfl] at hreleased
          split at hreleased
          · rename_i g g' hg hg'
            rw [hg] at hg'
            cases hg'
            simp at hreleased
          · cases hreleased
        · cases hslot.symm.trans hslot'
          have htask := ((h.emulation.live client slot g hg).2.timer ht).1
          simp only [next, heq]
          show t ∉ ids (cancel g.backTimeoutId w.state)
          rw [htask]
          exact not_mem_ids_cancel t
        · cases hslot.symm.trans hslot'
          obtain ⟨htask, -, -, htimer⟩ := (h.emulation.live client slot g hg).2.timer ht
          have hpressed : g.homeEmulationPressed = false := by
            rw [htimer] at hfirst
            exact hfirst
          simp only [next, heq] at hreleased ⊢
          have hrelease := backRelease_of_released hg hprepared.own hreleased
          have hup : isDown back (forced { g with id := some id } packet).2 = false := by
            rw [backRelease, Bool.and_eq_true, Bool.not_eq_true'] at hrelease
            exact hrelease.1
          have hpress : backPress { g with id := some id } packet = false := by
            rw [backPress, hup, Bool.false_and]
          obtain ⟨gamepadState, -, hupdate⟩ := updateGamepad_spec config packet n id hprepared.own
          rw [hupdate, emulateHome_eq, if_neg (by simp [hpress]),
            if_pos ⟨hrelease, by simp [htask], hpressed⟩]
          show t ∉ ids (cancel g.backTimeoutId s₁)
          rw [htask]
          exact not_mem_ids_cancel t
      · cases hnew
    | create c | arrival config c packet fails | timer t timer n | destroy c | free c k => cases hnew

theorem WatchOk.next (h : WatchOk w) (e : Event) (hen : Enabled w.state e)
    (hclear : overtakes w.state e = false) : WatchOk (nextWatch w e) where
  emulation := h.emulation.next e hen hclear
  sent := sent_next h e hen
  tapped := tapped_next h e hen hclear

theorem WatchOk.tapSilent (h : WatchOk w) (e : Event) (hen : Enabled w.state e) : TapSilent w e := by
  cases e with
  | timer task timer n =>
    intro htapped
    exact absurd (List.mem_map.mpr ⟨(task, timer), hen.1, rfl⟩) (h.tapped task htapped)
  | create c | arrival config c packet fails | multiController config c packet fails n | destroy c
  | free c k => trivial

theorem WatchOk.releases (h : WatchOk w) : Releases w := by
  intro client slot hsent
  rw [h.sent] at hsent
  cases hg : gamepadAt w.state client slot with
  | none =>
    rw [hg] at hsent
    cases hsent
  | some g =>
    have hpressed : g.homeEmulationPressed = true := by
      rw [hg] at hsent
      exact hsent
    obtain ⟨hid, task, -, htimers⟩ := (h.emulation.live client slot g hg).2.pressed_task hpressed
    have hmem := (mem_slotTimers.mp (htimers ▸ List.mem_singleton_self _)).1
    refine ⟨task, _, hmem, rfl, rfl, rfl, fun n => ?_⟩
    obtain ⟨g', id, hg', hid', -, -, -, htask⟩ := emulationTask_spec h.emulation hmem n
    obtain ⟨gamepads, hinput, hgamepad⟩ := inputs_of_gamepadAt hg'
    refine ⟨id, { g'.gamepadState with buttonFlags := g'.gamepadState.buttonFlags &&& ~~~home }, ?_, ?_,
      isDown_home_clear _⟩
    · rw [holding, hinput, Option.bind_some, hgamepad, hid']
    · rw [htask, if_pos rfl]
      rfl

/-- The first half of an emulation sends no release. -/
theorem not_sendsRelease {s : State} {task : ℕ} {timer : Timer} {g : Gamepad}
    (hg : gamepadAt s timer.client timer.controller = some g) (hid : g.id.isSome)
    (hgeneration : g.homeEmulationGeneration = timer.homeEmulationGeneration)
    (hhalf : timer.release = false) : ¬SendsRelease s task timer := by
  intro h
  obtain ⟨_, released, -, hcalls, -⟩ := h 0
  obtain ⟨id, hid⟩ := Option.isSome_iff_exists.mp hid
  obtain ⟨gamepads, hinput, hgamepad⟩ := inputs_of_gamepadAt hg
  have hinput' : (cancel (some task) s).inputs timer.client = some gamepads := hinput
  unfold emulationTask at hcalls
  rw [hinput'] at hcalls
  dsimp only at hcalls
  rw [hgamepad, if_neg (not_not.mpr hgeneration), hid, hhalf] at hcalls
  have hlength := congrArg List.length hcalls
  simp [setSlot, pushDelayed, call, cancel] at hlength

/-- BACK pressed while HOME is held leaves HOME without a task that releases it. -/
theorem WatchOk.overtaken (h : WatchOk w) (e : Event) (hen : Enabled w.state e)
    (hover : overtakes w.state e = true) : ¬Releases (nextWatch w e) := by
  cases e with
  | multiController config client packet fails task =>
    cases hslot : slotOf packet.controllerNumber.toInt with
    | none => simp [overtakes, hslot] at hover
    | some slot =>
      cases hg : gamepadAt w.state client slot with
      | none =>
        have hnone : w.state.inputs client = none := Option.map_eq_none_iff.mp hg
        simp [overtakes, hslot, hnone] at hover
      | some g =>
        obtain ⟨gamepads, hinput, hgamepad⟩ := inputs_of_gamepadAt hg
        simp only [overtakes, hslot, hinput, hgamepad, Bool.and_eq_true, decide_eq_true_eq] at hover
        obtain ⟨⟨⟨⟨hconfig, hactive⟩, htimeout⟩, hpress⟩, hpressed⟩ := hover
        obtain ⟨hid, pending, -, htimers⟩ := (h.emulation.live client slot g hg).2.pressed_task hpressed
        obtain ⟨mask, new, -, -, hnone⟩ | ⟨slot', g', id, hslot', -, -, hinactive, -⟩ |
          ⟨slot', g', id, s₁, hslot', hg', -, -, hprepared, heq⟩ :=
            @multiController_cases w.state client config packet fails task
        · rw [hnone slot g hslot hg hconfig hactive] at hid
          cases hid
        · cases hslot.symm.trans hslot'
          rw [hactive] at hinactive
          cases hinactive
        · cases hslot.symm.trans hslot'
          cases hg.symm.trans hg'
          obtain ⟨gamepadState, -, hupdate⟩ := updateGamepad_spec config packet task id hprepared.own
          rw [emulateHome_eq, if_pos ⟨hpress, htimeout⟩] at hupdate
          -- The gamepad's generation has gone on, and only a first half has the new one.
          have hafter := gamepadAt_setSlot_same (s := call [.update id gamepadState]
              (pushDelayed task ⟨false, client, slot, g.homeEmulationGeneration + 1⟩ s₁))
            (by exact hprepared.own)
            { g with
              id := some id, gamepadState, backButtonState := (forced g packet).1
              homeEmulationGeneration := g.homeEmulationGeneration + 1, backTimeoutId := some task }
          have hnext : Gamepads.next w.state (.multiController config client packet fails task) =
              setSlot client slot
                { g with
                  id := some id, gamepadState, backButtonState := (forced g packet).1
                  homeEmulationGeneration := g.homeEmulationGeneration + 1, backTimeoutId := some task }
                (call [.update id gamepadState]
                  (pushDelayed task ⟨false, client, slot, g.homeEmulationGeneration + 1⟩ s₁)) :=
            heq.trans hupdate
          have hpushed := slotTimers_pushDelayed (s := s₁) task
            ⟨false, client, slot, g.homeEmulationGeneration + 1⟩ client slot
          rw [if_pos ⟨rfl, rfl⟩, show slotTimers s₁ client slot = slotTimers w.state client slot by
            rw [slotTimers, hprepared.timers, slotTimers], htimers] at hpushed
          intro hreleases
          have hat : gamepadAt (nextWatch w (.multiController config client packet fails task)).state client
              slot = some _ := (congrArg (fun s => gamepadAt s client slot) hnext).trans hafter
          obtain ⟨t, timer, hmem, rfl, rfl, hgeneration, hsends⟩ :=
            hreleases client slot (by
              have hsent := sent_next h _ hen client slot
              rw [show Gamepads.next w.state (.multiController config client packet fails task) =
                (nextWatch w (.multiController config client packet fails task)).state from rfl, hat] at hsent
              exact hsent.trans hpressed)
          have htimers' := congrArg State.timers hnext
          have hin : (t, timer) ∈ slotTimers
              (pushDelayed task ⟨false, timer.client, timer.controller, g.homeEmulationGeneration + 1⟩ s₁)
              timer.client timer.controller := by
            refine mem_slotTimers.mpr ⟨?_, rfl, rfl⟩
            rw [show Gamepads.next w.state (.multiController config timer.client packet fails task) =
              (nextWatch w (.multiController config timer.client packet fails task)).state from rfl] at htimers'
            rw [htimers'] at hmem
            exact hmem
          rw [hat] at hgeneration
          have hgeneration' : g.homeEmulationGeneration + 1 = timer.homeEmulationGeneration :=
            Option.some.inj hgeneration
          rw [hpushed] at hin
          rcases List.mem_append.mp hin with hold | hnew
          · have htimer := congrArg Prod.snd (List.mem_singleton.mp hold)
            have hold' := congrArg Timer.homeEmulationGeneration htimer
            rw [← hgeneration'] at hold'
            exact absurd hold' (by simp)
          · have hhalf := congrArg (fun x => x.2.release) (List.mem_singleton.mp hnew)
            exact not_sendsRelease hat rfl hgeneration' hhalf hsends
  | create c | arrival config c packet fails | timer t timer n | destroy c | free c k => cases hover

end Watching

/-! ## Runs -/

theorem homeReleased_run {w : Watch} (h : WatchOk w) (l : List Event)
    (hrun : Runs Enabled next w.state l) :
    HomeReleased w l ↔ Runs (fun s e => overtakes s e = false) next w.state l := by
  induction l generalizing w with
  | nil =>
    refine iff_of_true ⟨fun m hm => ?_, trivial⟩ trivial
    rw [List.prefix_nil.mp hm]
    exact h.releases
  | cons e l ih =>
    obtain ⟨hen, hrest⟩ := hrun
    by_cases hclear : overtakes w.state e = false
    · have hnext := h.next e hen hclear
      have hih := ih hnext hrest
      constructor
      · rintro ⟨hall, -, hsilent⟩
        refine ⟨hclear, hih.mp ⟨fun m hm => ?_, hsilent⟩⟩
        exact hall (e :: m) (List.cons_prefix_cons.mpr ⟨rfl, hm⟩)
      · rintro ⟨-, hruns⟩
        obtain ⟨hall, hsilent⟩ := hih.mpr hruns
        refine ⟨fun m hm => ?_, h.tapSilent e hen, hsilent⟩
        cases m with
        | nil => exact h.releases
        | cons e' m =>
          obtain ⟨heq, hrestm⟩ := List.cons_prefix_cons.mp hm
          rw [heq]
          exact hall m hrestm
    · refine iff_of_false (fun hreleased => ?_) (fun hruns => hclear hruns.1)
      rw [Bool.not_eq_false] at hclear
      exact h.overtaken e hen hclear
        (hreleased.1 [e] (List.cons_prefix_cons.mpr ⟨rfl, List.nil_prefix⟩))

/-- HOME is always going to be released and no tap of BACK emits it, in exactly those runs in which BACK is not pressed
while the emulation holds HOME. -/
theorem homeReleased_iff (l : List Event) (hrun : Runs Enabled next initial l) :
    HomeReleased Watch.initial l ↔ Runs (fun s e => overtakes s e = false) next initial l :=
  homeReleased_run watchOk_initial l hrun

/-- A report of gamepad 0, with these buttons. -/
def buttons (buttonFlags : UInt16) : MultiController := ⟨0, 1, buttonFlags, 0, 0, 0, 0, 0, 0, 0⟩

theorem maxGamepads_pos : 0 < maxGamepads := by decide

/-- BACK is held until HOME is pressed, released, and tapped once more when HOME has been released. -/
def holdThenTap : List Event :=
  [.create 0, .multiController ⟨true, 500⟩ 0 (buttons 0x20) false 1,
    .timer 1 ⟨false, 0, ⟨0, maxGamepads_pos⟩, 1⟩ 2, .multiController ⟨true, 500⟩ 0 (buttons 0) false 3,
    .timer 2 ⟨true, 0, ⟨0, maxGamepads_pos⟩, 1⟩ 3, .multiController ⟨true, 500⟩ 0 (buttons 0x20) false 3,
    .multiController ⟨true, 500⟩ 0 (buttons 0) false 4]

theorem homeReleased_holdThenTap : HomeReleased Watch.initial holdThenTap :=
  (homeReleased_iff holdThenTap (by decide +kernel)).mpr (by decide +kernel)

/-- The tap comes while HOME is still held: the second half finds another generation and sends nothing, and the first half
of the tap, which the release of BACK has not cancelled, sends HOME. -/
def tapTooEarly : List Event :=
  [.create 0, .multiController ⟨true, 500⟩ 0 (buttons 0x20) false 1,
    .timer 1 ⟨false, 0, ⟨0, maxGamepads_pos⟩, 1⟩ 2, .multiController ⟨true, 500⟩ 0 (buttons 0) false 3,
    .multiController ⟨true, 500⟩ 0 (buttons 0x20) false 3, .multiController ⟨true, 500⟩ 0 (buttons 0) false 4,
    .timer 2 ⟨true, 0, ⟨0, maxGamepads_pos⟩, 1⟩ 4,
    .timer 3 ⟨false, 0, ⟨0, maxGamepads_pos⟩, 2⟩ 4]

theorem home_not_released : Runs Enabled next initial tapTooEarly ∧
    ¬HomeReleased Watch.initial tapTooEarly ∧
    reported ((tapTooEarly.take 7).foldl next initial) (tapTooEarly.foldl next initial) =
      some ⟨0x400, 0, 0, 0, 0, 0, 0⟩ := by
  have hsent : reported ((tapTooEarly.take 7).foldl next initial) (tapTooEarly.foldl next initial) =
      some ⟨0x400, 0, 0, 0, 0, 0, 0⟩ := by
    decide +kernel
  refine ⟨by decide +kernel, fun h => ?_, hsent⟩
  have hsilent : TapSilent ((tapTooEarly.take 7).foldl nextWatch Watch.initial)
      (.timer 3 ⟨false, 0, ⟨0, maxGamepads_pos⟩, 2⟩ 4) := h.2.2.2.2.2.2.2.2.1
  have hup := hsilent (by decide +kernel) _ hsent
  revert hup
  decide

end Sunshine.Gamepads
