import Sunshine.Input.ResetRuns
import Sunshine.Lib.Changes

/-! The mouse buttons of a client and what the host sees of them.

A client moves the mouse and presses its buttons; a release of the left button may wait 10 ms behind a move
to absolute coordinates. `AsPressed` says that the host sees the buttons as the client pressed them, and
`buttons_as_pressed` that it does so in every run of regular steps. -/
namespace Sunshine.Clicks
open Batching (MouseButton)
open Changes Reset Transitions
set_option autoImplicit false

/-! ## Runs of mouse packets -/

/-- `id` is a task id that is free; `leftRelease` is the worker running the delayed release. -/
inductive Event where
  | relMouseMove
  | absMouseMove
  | mouseButton (packet : MouseButton) (id : ℕ)
  | leftRelease (id : ℕ)

section Model

variable (limelight : Limelight) (config : Config)

def next (s : State) : Event → State
  | .relMouseMove => passthroughRelMouseMove config s
  | .absMouseMove => passthroughAbsMouseMove config s
  | .mouseButton packet id => passthroughMouseButton limelight config id packet s
  | .leftRelease id =>
    runTimer limelight config id .leftRelease { s with timers := s.timers.erase (id, .leftRelease) }

def Enabled (s : State) : Event → Prop
  | .mouseButton _ id => Free s id
  | .leftRelease id => (id, .leftRelease) ∈ s.timers
  | _ => True

instance (s : State) (e : Event) : Decidable (Enabled s e) :=
  match e with
  | .mouseButton _ id => inferInstanceAs (Decidable (∀ timer ∈ s.timers, timer.1 ≠ id))
  | .leftRelease id => inferInstanceAs (Decidable ((id, .leftRelease) ∈ s.timers))
  | .relMouseMove | .absMouseMove => inferInstanceAs (Decidable True)

def releasePending (s : State) : Bool := s.timers.any fun timer => timer.2 = .leftRelease

/-- `early` says that the right button was last pressed while a release of the left one was pending. -/
structure Watch where
  state : State
  early : Bool

def Watch.initial : Watch := ⟨Reset.initial, false⟩

def nextWatch (w : Watch) (e : Event) : Watch :=
  { state := next limelight config w.state e
    early := match e with
      | .mouseButton packet _ =>
        if packet.button = limelight.buttonRight ∧ packet.release = false ∧
            down w.state.buttons limelight.buttonRight = false then
          releasePending w.state
        else w.early
      | _ => w.early }

/-! ## Buttons as pressed -/

/-- What the host was told of a button: true for a release. -/
def shown (reports : List Report) (button : UInt8) : List Bool :=
  reports.filterMap fun
    | .buttonMouse b release => if b = button then some release else none
    | .keyboardUpdate _ _ _ => none

/-- What the client sent of a button while mouse input is enabled: true for a release. -/
def asked (buttons : List MouseButton) (button : UInt8) : List Bool :=
  (buttons.filter (·.button = button)).map MouseButton.release

/-- The host sees every button pressed and released in turn; with no release pending, as the client did without its
repetitions; and pressed as long as the client presses it. A right press beside a pending left release may be shown
as a whole click. -/
structure AsPressed (w : Watch) : Prop where
  alternate : ∀ button, Alternates true (shown w.state.reports button)
  settled : releasePending w.state = false → ∀ button,
    shown w.state.reports button = changes true (asked w.state.buttons button) ∨
      (button = limelight.buttonRight ∧ w.early = true ∧ down w.state.buttons button = true ∧
        shown w.state.reports button = changes true (asked w.state.buttons button) ++ [true])
  held : ∀ button, down w.state.buttons button = true →
    pressed w.state.reports (.button button) = true ∨ (button = limelight.buttonRight ∧ w.early = true)

/-- The left button is not pressed while its release is pending; the right one is not pressed again when a press was
shown as a click; and a button without an entry is neither pressed nor released twice in a row. -/
def Regular (s : State) : Event → Prop
  | .mouseButton packet _ =>
    (packet.button = limelight.buttonLeft → packet.release = false → releasePending s = false) ∧
      (packet.button = limelight.buttonRight → packet.release = false →
        down s.buttons packet.button = true → s.mousePress packet.button = true) ∧
      (tracked packet.button = false → packet.release = down s.buttons packet.button)
  | _ => True

instance (s : State) (e : Event) : Decidable (Regular limelight s e) :=
  match e with
  | .mouseButton packet _ => inferInstanceAs (Decidable
      ((packet.button = limelight.buttonLeft → packet.release = false → releasePending s = false) ∧
        (packet.button = limelight.buttonRight → packet.release = false →
          down s.buttons packet.button = true → s.mousePress packet.button = true) ∧
        (tracked packet.button = false → packet.release = down s.buttons packet.button)))
  | .relMouseMove | .absMouseMove | .leftRelease _ => inferInstanceAs (Decidable True)

end Model

/-! ## Sequences -/

section Sequences

variable {reports : List Report} {buttons : List MouseButton} {button : UInt8}

theorem shown_append (later : List Report) :
    shown (reports ++ later) button = shown reports button ++ shown later button :=
  List.filterMap_append

@[simp] theorem shown_buttonMouse (b : UInt8) (release : Bool) (later : List Report) :
    shown (.buttonMouse b release :: later) button = (if b = button then [release] else []) ++ shown later button := by
  by_cases h : b = button
  · simp [shown, h]
  · simp [shown, h]

@[simp] theorem shown_nil : shown [] button = [] := rfl

theorem asked_concat (packet : MouseButton) :
    asked (buttons ++ [packet]) button =
      asked buttons button ++ if packet.button = button then [packet.release] else [] := by
  unfold asked
  by_cases h : packet.button = button
  · simp [h]
  · simp [h]

theorem down_concat (packet : MouseButton) :
    down (buttons ++ [packet]) button = if packet.button = button then !packet.release else down buttons button := by
  unfold down
  rw [List.foldl_append, List.foldl_cons, List.foldl_nil]

theorem down_eq_getLastD (buttons : List MouseButton) :
    down buttons button = !(asked buttons button).getLastD true := by
  induction buttons using List.reverseRecOn with
  | nil => rfl
  | append_singleton buttons packet ih =>
    rw [down_concat, asked_concat]
    by_cases h : packet.button = button
    · rw [if_pos h, if_pos h, List.getLastD_concat]
    · rw [if_neg h, if_neg h, List.append_nil, ih]

theorem pressed_eq_getLastD (reports : List Report) :
    pressed reports (.button button) = !(shown reports button).getLastD true := by
  induction reports using List.reverseRecOn with
  | nil => rfl
  | append_singleton reports r ih =>
    rw [pressed_append, shown_append]
    unfold pressedAfter
    rw [List.foldl_cons, List.foldl_nil]
    cases r with
    | keyboardUpdate modcode release flags =>
      rw [if_neg (by simp [Report.target])]
      exact ih.trans (by simp [shown])
    | buttonMouse b release =>
      by_cases h : b = button
      · simp [Report.target, Report.release, h]
      · simp [Report.target, h, ih]

/-- A packet that repeats the one before it changes nothing. -/
theorem changes_asked (packet : MouseButton) :
    changes true (asked (buttons ++ [packet]) button) = changes true (asked buttons button) ++
      if packet.button = button ∧ packet.release = down buttons button then [packet.release] else [] := by
  rw [asked_concat]
  by_cases h : packet.button = button
  · rw [if_pos h, changes_concat, down_eq_getLastD]
    cases packet.release <;> cases (asked buttons button).getLastD true <;> simp [h]
  · rw [if_neg h, if_neg fun hboth => h hboth.1, List.append_nil, List.append_nil]

end Sequences

/-! ## The invariant -/

section Invariant

variable (limelight : Limelight)

/-- A release that the client sent and the host will see. -/
def owed (s : State) (button : UInt8) : List Bool :=
  if button = limelight.buttonLeft ∧ releasePending s = true then [true] else []

/-- A right button that the client still presses and the host has seen released. -/
def clicked (s : State) : Bool :=
  down s.buttons limelight.buttonRight && !s.mousePress limelight.buttonRight

def ahead (s : State) (button : UInt8) : List Bool :=
  if button = limelight.buttonRight ∧ clicked limelight s = true then [true] else []

structure Inv (w : Watch) : Prop where
  timers : w.state.timers = [] ∨
    ∃ id, w.state.timers = [(id, .leftRelease)] ∧ w.state.mousePress limelight.buttonLeft = false
  timeout : ∀ id, w.state.mouseLeftButtonTimeout = .task id → releasePending w.state = true
  entries : ∀ button, tracked button = true → button ≠ limelight.buttonRight →
    w.state.mousePress button = down w.state.buttons button
  right : w.state.mousePress limelight.buttonRight = true → down w.state.buttons limelight.buttonRight = true
  early : clicked limelight w.state = true → w.early = true
  balance : ∀ button, shown w.state.reports button ++ owed limelight w.state button =
    changes true (asked w.state.buttons button) ++ ahead limelight w.state button

end Invariant

section Steps

variable {limelight : Limelight} {config : Config} {w : Watch} {s : State}

theorem tracked_left (limelight : Limelight) : tracked limelight.buttonLeft = true := by
  simp [tracked, limelight.left]

theorem tracked_right (limelight : Limelight) : tracked limelight.buttonRight = true := by
  simp [tracked, limelight.right]

theorem inv_initial : Inv limelight Watch.initial where
  timers := .inl rfl
  timeout := nofun
  entries _ _ _ := rfl
  right := nofun
  early := nofun
  balance button := by
    simp [owed, ahead, releasePending, clicked, Watch.initial, Reset.initial, asked, down]

/-- With the invariant the host sees the buttons as they were pressed. -/
theorem Inv.asPressed (hne : limelight.buttonLeft ≠ limelight.buttonRight) (h : Inv limelight w) :
    AsPressed limelight w := by
  have hahead : ∀ button, Alternates true
      (changes true (asked w.state.buttons button) ++ ahead limelight w.state button) := by
    intro button
    have hchanges := alternates_changes true (asked w.state.buttons button)
    unfold ahead
    by_cases hclicked : button = limelight.buttonRight ∧ clicked limelight w.state = true
    · rw [if_pos hclicked]
      have hdown := (Bool.and_eq_true_iff.mp hclicked.2).1
      refine hchanges.concat ?_
      rw [getLastD_changes, hclicked.1]
      rw [down_eq_getLastD] at hdown
      intro hlast
      rw [hlast] at hdown
      cases hdown
    · rw [if_neg hclicked, List.append_nil]
      exact hchanges
  refine ⟨fun button => ?_, fun hpending button => ?_, fun button hdown => ?_⟩
  · have halternates := hahead button
    rw [← h.balance button] at halternates
    exact halternates.front
  · have hshown := h.balance button
    rw [owed, if_neg (by simp [hpending]), List.append_nil, ahead] at hshown
    by_cases hclicked : button = limelight.buttonRight ∧ clicked limelight w.state = true
    · rw [if_pos hclicked] at hshown
      refine .inr ⟨hclicked.1, h.early hclicked.2, ?_, hshown⟩
      rw [hclicked.1]
      exact (Bool.and_eq_true_iff.mp hclicked.2).1
    · rw [if_neg hclicked, List.append_nil] at hshown
      exact .inl hshown
  · by_cases hclicked : button = limelight.buttonRight ∧ clicked limelight w.state = true
    · exact .inr ⟨hclicked.1, h.early hclicked.2⟩
    · have hshown := h.balance button
      have howed : owed limelight w.state button = [] := by
        refine if_neg fun hboth => ?_
        rcases h.timers with hnone | ⟨id, htimers, hup⟩
        · rw [releasePending, hnone] at hboth
          cases hboth.2
        · have hentry := h.entries _ (tracked_left limelight) hne
          rw [← hboth.1, hdown, hboth.1, hup] at hentry
          cases hentry
      rw [howed, List.append_nil, ahead, if_neg hclicked, List.append_nil] at hshown
      rw [pressed_eq_getLastD, hshown, getLastD_changes, ← down_eq_getLastD, hdown]
      exact .inl rfl

/-- The entry of the button takes the packet. -/
def enter (packet : MouseButton) (s : State) : State :=
  { s with
    buttons := s.buttons ++ [packet]
    mousePress := if tracked packet.button then Function.update s.mousePress packet.button (!packet.release)
      else s.mousePress }

theorem enter_mousePress (packet : MouseButton) {button : UInt8} (hbutton : tracked button = true) :
    (enter packet s).mousePress button =
      if packet.button = button then !packet.release else s.mousePress button := by
  unfold enter
  by_cases heq : packet.button = button
  · subst heq
    rw [if_pos rfl, if_pos hbutton]
    exact Function.update_self _ _ _
  · rw [if_neg heq]
    by_cases htracked : tracked packet.button = true
    · rw [if_pos htracked]
      exact Function.update_of_ne (Ne.symm heq) _ _
    · rw [if_neg htracked]

theorem clicked_enter (packet : MouseButton) : clicked limelight (enter packet s) =
    if packet.button = limelight.buttonRight then false else clicked limelight s := by
  have hdown : down (enter packet s).buttons limelight.buttonRight = _ := down_concat packet
  unfold clicked
  rw [hdown, enter_mousePress packet (tracked_right limelight)]
  by_cases heq : packet.button = limelight.buttonRight
  · rw [if_pos heq, if_pos heq, if_pos heq, Bool.and_not_self]
  · rw [if_neg heq, if_neg heq, if_neg heq]

/-- What a button packet does: its entry says that there is nothing to do, or it is sent on. -/
theorem passthroughMouseButton_cases (hmouse : config.mouse = true) (id : ℕ) (packet : MouseButton) :
    (tracked packet.button = true ∧ s.mousePress packet.button ≠ packet.release ∧
      passthroughMouseButton limelight config id packet s = { s with buttons := s.buttons ++ [packet] }) ∨
    ((tracked packet.button = true → s.mousePress packet.button = packet.release) ∧
      passthroughMouseButton limelight config id packet s = sendButton limelight id packet (enter packet s)) := by
  unfold passthroughMouseButton enter
  rw [if_pos hmouse]
  by_cases htracked : tracked packet.button = true
  · by_cases hentry : s.mousePress packet.button = packet.release
    · refine .inr ⟨fun _ => hentry, ?_⟩
      simp [htracked, hentry]
    · refine .inl ⟨htracked, hentry, ?_⟩
      simp [htracked, hentry]
  · refine .inr ⟨fun h => absurd h htracked, ?_⟩
    simp [htracked]

/-- A packet that changes nothing leaves right pressed, or takes back the click. -/
theorem Inv.dropped (h : Inv limelight w) {packet : MouseButton} (htracked : tracked packet.button = true)
    (hentry : w.state.mousePress packet.button ≠ packet.release) {early : Bool}
    (hearly : clicked limelight w.state = true → early = true) :
    Inv limelight ⟨{ w.state with buttons := w.state.buttons ++ [packet] }, early⟩ where
  timers := h.timers
  timeout := h.timeout
  entries button hbutton hright := by
    have hsame := h.entries button hbutton hright
    dsimp only
    rw [down_concat]
    by_cases heq : packet.button = button
    · rw [if_pos heq, ← heq]
      exact Bool.eq_not.mpr hentry
    · rw [if_neg heq, hsame]
  right hup := by
    dsimp only at hup ⊢
    rw [down_concat]
    by_cases heq : packet.button = limelight.buttonRight
    · rw [heq, hup] at hentry
      rw [if_pos heq]
      exact (Bool.eq_not.mpr hentry).symm
    · rw [if_neg heq]
      exact h.right hup
  early hclicked := by
    unfold clicked at hclicked
    dsimp only at hclicked ⊢
    rw [down_concat] at hclicked
    by_cases heq : packet.button = limelight.buttonRight
    · rw [heq] at hentry
      rw [if_pos heq] at hclicked
      revert hentry hclicked
      cases packet.release <;> cases w.state.mousePress limelight.buttonRight <;> simp
    · rw [if_neg heq] at hclicked
      exact hearly hclicked
  balance button := by
    refine (h.balance button).trans ?_
    dsimp only
    rw [changes_asked, List.append_assoc]
    congr 1
    unfold ahead clicked
    dsimp only
    rw [down_concat]
    by_cases heq : packet.button = button
    · subst heq
      by_cases hright : packet.button = limelight.buttonRight
      · have hup := h.right
        rw [← hright] at hup ⊢
        revert hentry hup
        cases packet.release <;> cases w.state.mousePress packet.button <;>
          cases down w.state.buttons packet.button <;> simp
      · have hrepeated : ¬(packet.button = packet.button ∧
            packet.release = down w.state.buttons packet.button) :=
          fun hboth => hentry ((h.entries _ htracked hright).trans hboth.2.symm)
        rw [if_neg hrepeated, if_neg fun hboth => hright hboth.1, if_neg fun hboth => hright hboth.1]
        rfl
    · have hother : ¬(packet.button = button ∧ packet.release = down w.state.buttons button) :=
        fun hboth => heq hboth.1
      rw [if_neg hother, List.nil_append]
      by_cases hright : button = limelight.buttonRight
      · have hpacket : packet.button ≠ limelight.buttonRight := hright ▸ heq
        rw [if_neg hpacket]
      · rw [if_neg fun hboth => hright hboth.1, if_neg fun hboth => hright hboth.1]

/-- A packet that is sent on changes the button for the client. -/
theorem Inv.release_eq (h : Inv limelight w) {packet : MouseButton}
    (hentry : tracked packet.button = true → w.state.mousePress packet.button = packet.release)
    (huntracked : tracked packet.button = false → packet.release = down w.state.buttons packet.button)
    (hright : packet.button = limelight.buttonRight → packet.release = false →
      down w.state.buttons packet.button = true → w.state.mousePress packet.button = true) :
    packet.release = down w.state.buttons packet.button := by
  by_cases htracked : tracked packet.button = true
  · by_cases heq : packet.button = limelight.buttonRight
    · have hup := h.right
      have hpress := hright heq
      have hsame := hentry htracked
      rw [← heq] at hup
      revert hup hpress hsame
      cases packet.release <;> cases w.state.mousePress packet.button <;>
        cases down w.state.buttons packet.button <;> simp
    · rw [← h.entries _ htracked heq, hentry htracked]
  · exact huntracked (eq_false_of_ne_true htracked)

/-- The fields of the invariant about the entries, behind a packet that is sent on. -/
theorem Inv.enter_entries (h : Inv limelight w) (packet : MouseButton) {button : UInt8}
    (hbutton : tracked button = true) (hright : button ≠ limelight.buttonRight) :
    (enter packet w.state).mousePress button = down (enter packet w.state).buttons button := by
  rw [enter_mousePress packet hbutton, h.entries button hbutton hright]
  exact (down_concat packet).symm

theorem Inv.enter_right (h : Inv limelight w) (packet : MouseButton)
    (hup : (enter packet w.state).mousePress limelight.buttonRight = true) :
    down (enter packet w.state).buttons limelight.buttonRight = true := by
  rw [enter_mousePress packet (tracked_right limelight)] at hup
  refine (down_concat packet).trans ?_
  by_cases heq : packet.button = limelight.buttonRight
  · rw [if_pos heq] at hup ⊢
    exact hup
  · rw [if_neg heq] at hup ⊢
    exact h.right hup

theorem clicked_of_enter {packet : MouseButton} (hclicked : clicked limelight (enter packet s) = true) :
    clicked limelight s = true := by
  rw [clicked_enter] at hclicked
  by_cases heq : packet.button = limelight.buttonRight
  · rw [if_pos heq] at hclicked
    cases hclicked
  · rw [if_neg heq] at hclicked
    exact hclicked

/-- What the client sees of a button when the entry has taken a packet that changes it. -/
theorem Inv.balance_enter (h : Inv limelight w) {packet : MouseButton}
    (hentry : tracked packet.button = true → w.state.mousePress packet.button = packet.release)
    (hchange : packet.release = down w.state.buttons packet.button) (button : UInt8) :
    shown w.state.reports button ++ owed limelight w.state button ++
        (if packet.button = button then [packet.release] else []) =
      changes true (asked (enter packet w.state).buttons button) ++ ahead limelight (enter packet w.state) button := by
  have hchanges : changes true (asked (enter packet w.state).buttons button) = _ := changes_asked packet
  rw [hchanges, h.balance button]
  unfold ahead
  rw [clicked_enter]
  by_cases heq : packet.button = button
  · subst heq
    have hnot : ¬(packet.button = limelight.buttonRight ∧ clicked limelight w.state = true) := by
      rintro ⟨hright, hclicked⟩
      unfold clicked at hclicked
      have hsame := hentry (hright ▸ tracked_right limelight)
      rw [← hright, ← hchange, hsame, Bool.and_not_self] at hclicked
      cases hclicked
    rw [if_neg hnot, if_pos rfl, if_pos ⟨rfl, hchange⟩, List.append_nil]
    by_cases hright : packet.button = limelight.buttonRight
    · rw [if_pos hright, if_neg (by simp), List.append_nil]
    · rw [if_neg fun hboth => hright hboth.1, List.append_nil]
  · have hother : ¬(packet.button = button ∧ packet.release = down w.state.buttons button) :=
      fun hboth => heq hboth.1
    rw [if_neg heq, if_neg hother, List.append_nil, List.append_nil]
    by_cases hright : button = limelight.buttonRight
    · have hpacket : packet.button ≠ limelight.buttonRight := hright ▸ heq
      rw [if_neg hpacket]
    · rw [if_neg fun hboth => hright hboth.1, if_neg fun hboth => hright hboth.1]

/-- The press or the release is reported as it is. -/
theorem Inv.sent (h : Inv limelight w) {packet : MouseButton}
    (hentry : tracked packet.button = true → w.state.mousePress packet.button = packet.release)
    (hchange : packet.release = down w.state.buttons packet.button)
    (hleft : packet.button = limelight.buttonLeft → releasePending w.state = false) {early : Bool}
    (hearly : clicked limelight w.state = true → early = true) :
    Inv limelight ⟨report [.buttonMouse packet.button packet.release] (enter packet w.state), early⟩ where
  timers := by
    rcases h.timers with hnone | ⟨id, htimers, hup⟩
    · exact .inl hnone
    · refine .inr ⟨id, htimers, ?_⟩
      refine (enter_mousePress packet (tracked_left limelight)).trans ?_
      have hother : packet.button ≠ limelight.buttonLeft := by
        intro heq
        have hnone := hleft heq
        rw [releasePending, htimers] at hnone
        cases hnone
      rw [if_neg hother, hup]
  timeout := h.timeout
  entries button hbutton hright := h.enter_entries packet hbutton hright
  right := h.enter_right packet
  early hclicked := hearly (clicked_of_enter hclicked)
  balance button := by
    have hreports : shown (report [.buttonMouse packet.button packet.release] (enter packet w.state)).reports
        button = shown w.state.reports button ++ if packet.button = button then [packet.release] else [] :=
      (shown_append _).trans (congrArg _ ((shown_buttonMouse _ _ []).trans (List.append_nil _)))
    dsimp only
    rw [hreports]
    refine Eq.trans ?_ (h.balance_enter hentry hchange button)
    by_cases heq : packet.button = button
    · have hnone : owed limelight w.state button = [] :=
        if_neg fun hboth => by
          rw [hleft (heq.trans hboth.1)] at hboth
          cases hboth.2
      rw [hnone, List.append_nil]
      exact (congrArg _ hnone).trans (List.append_nil _)
    · rw [if_neg heq, List.append_nil, List.append_nil]
      rfl

/-- The release of the left button waits. -/
theorem Inv.delayed (h : Inv limelight w) {packet : MouseButton} (hbutton : packet.button = limelight.buttonLeft)
    (hrelease : packet.release = true)
    (hentry : tracked packet.button = true → w.state.mousePress packet.button = packet.release)
    (hchange : packet.release = down w.state.buttons packet.button) (id : ℕ) {early : Bool}
    (hearly : clicked limelight w.state = true → early = true) :
    Inv limelight ⟨{ enter packet w.state with
      timers := (id, .leftRelease) :: w.state.timers, mouseLeftButtonTimeout := .task id }, early⟩ := by
  have hdown : w.state.mousePress limelight.buttonLeft = true := by
    rw [← hrelease, ← hentry (hbutton ▸ tracked_left limelight), hbutton]
  have hnone : w.state.timers = [] := h.timers.resolve_right fun ⟨_, _, hup⟩ => by
    rw [hdown] at hup
    cases hup
  have hup : (enter packet w.state).mousePress limelight.buttonLeft = false := by
    rw [enter_mousePress packet (tracked_left limelight), if_pos hbutton, hrelease, Bool.not_true]
  refine ⟨.inr ⟨id, by rw [hnone], hup⟩, fun _ _ => rfl,
    fun button hbutton hright => h.enter_entries packet hbutton hright, h.enter_right packet,
    fun hclicked => hearly (clicked_of_enter hclicked), fun button => ?_⟩
  refine Eq.trans ?_ (h.balance_enter hentry hchange button)
  have hbefore : owed limelight w.state button = [] := by
    rw [owed, releasePending, hnone]
    exact if_neg fun hboth => Bool.false_ne_true hboth.2
  rw [hbefore, List.append_nil, hbutton, hrelease]
  refine congrArg (shown w.state.reports button ++ ·) ?_
  unfold owed
  by_cases heq : limelight.buttonLeft = button
  · rw [if_pos heq, if_pos ⟨heq.symm, rfl⟩]
  · rw [if_neg heq, if_neg fun hboth => heq hboth.1.symm]

/-- The right button is shown pressed and released while the release of the left one is pending. -/
theorem Inv.clickedThrough (hne : limelight.buttonLeft ≠ limelight.buttonRight) (h : Inv limelight w)
    {packet : MouseButton} (hbutton : packet.button = limelight.buttonRight) (hpress : packet.release = false)
    (hentry : tracked packet.button = true → w.state.mousePress packet.button = packet.release)
    (hchange : packet.release = down w.state.buttons packet.button) :
    Inv limelight ⟨{ report [.buttonMouse limelight.buttonRight false, .buttonMouse limelight.buttonRight true]
        (enter packet w.state) with
      mousePress := Function.update (enter packet w.state).mousePress limelight.buttonRight false }, true⟩ where
  timers := by
    refine h.timers.imp_right fun ⟨id, htimers, hup⟩ => ⟨id, htimers, ?_⟩
    have hother : packet.button ≠ limelight.buttonLeft := hbutton ▸ hne.symm
    dsimp only
    rw [Function.update_of_ne hne, enter_mousePress packet (tracked_left limelight), if_neg hother, hup]
  timeout := h.timeout
  entries button htracked hright := by
    refine Eq.trans ?_ (h.enter_entries packet htracked hright)
    exact Function.update_of_ne hright _ _
  right hup := by
    dsimp only at hup
    rw [Function.update_self] at hup
    cases hup
  early _ := rfl
  balance button := by
    have hreports : shown (report [.buttonMouse limelight.buttonRight false, .buttonMouse limelight.buttonRight true]
        (enter packet w.state)).reports button = shown w.state.reports button ++
          ((if limelight.buttonRight = button then [false] else []) ++
            if limelight.buttonRight = button then [true] else []) := by
      refine (shown_append _).trans (congrArg _ ?_)
      rw [shown_buttonMouse, shown_buttonMouse, shown_nil, List.append_nil]
    have henter := h.balance_enter hentry hchange button
    rw [hbutton, hpress] at henter
    dsimp only
    rw [hreports]
    by_cases heq : limelight.buttonRight = button
    · subst heq
      have howed : owed limelight w.state limelight.buttonRight = [] := if_neg fun hboth => hne hboth.1.symm
      have hahead : ahead limelight (enter packet w.state) limelight.buttonRight = [] := by
        rw [ahead, clicked_enter, if_pos hbutton]
        exact if_neg fun hboth => Bool.false_ne_true hboth.2
      have hdown : down (enter packet w.state).buttons limelight.buttonRight = true := by
        refine (down_concat packet).trans ?_
        rw [if_pos hbutton, hpress, Bool.not_false]
      rw [howed, hahead, if_pos rfl, List.append_nil, List.append_nil] at henter
      rw [if_pos rfl, if_pos rfl, ← List.append_assoc, henter]
      refine (congrArg _ howed).trans ((List.append_nil _).trans (congrArg _ (if_pos ⟨rfl, ?_⟩).symm))
      refine Bool.and_eq_true_iff.mpr ⟨hdown, ?_⟩
      dsimp only
      rw [Function.update_self, Bool.not_false]
    · have hright : ¬button = limelight.buttonRight := Ne.symm heq
      rw [if_neg heq, List.append_nil, ahead, if_neg fun hboth => hright hboth.1] at henter
      rw [if_neg heq, if_neg heq, List.append_nil, List.append_nil, ahead, if_neg fun hboth => hright hboth.1]
      exact henter

/-- The delayed release is reported. -/
theorem Inv.leftRelease (h : Inv limelight w) {id : ℕ} (hid : (id, .leftRelease) ∈ w.state.timers) :
    Inv limelight ⟨next limelight config w.state (.leftRelease id), w.early⟩ := by
  obtain ⟨id', htimers, hup⟩ := h.timers.resolve_left (List.ne_nil_of_mem hid)
  have hsame : id = id' := by
    rw [htimers] at hid
    exact congrArg Prod.fst (List.mem_singleton.mp hid)
  have herase : w.state.timers.erase (id, .leftRelease) = [] := by
    rw [htimers, hsame, List.erase_cons_head]
  have hstate : next limelight config w.state (.leftRelease id) =
      { report [.buttonMouse limelight.buttonLeft true] w.state with
        timers := [], mouseLeftButtonTimeout := .enableLeftButtonDelay } := by
    have hentry : Function.update w.state.mousePress limelight.buttonLeft false = w.state.mousePress := by
      rw [← hup, Function.update_eq_self]
    have hnext : next limelight config w.state (.leftRelease id) =
      releaseLeft limelight { w.state with timers := w.state.timers.erase (id, .leftRelease) } := rfl
    rw [hnext, herase]
    unfold releaseLeft
    dsimp only
    rw [hup, hentry]
    rfl
  rw [hstate]
  refine ⟨.inl rfl, nofun, h.entries, h.right, h.early, fun button => ?_⟩
  have hreports : shown (report [.buttonMouse limelight.buttonLeft true] w.state).reports button =
      shown w.state.reports button ++ if limelight.buttonLeft = button then [true] else [] :=
    (shown_append _).trans (congrArg _ ((shown_buttonMouse _ _ []).trans (List.append_nil _)))
  refine Eq.trans ?_ (h.balance button)
  dsimp only
  rw [hreports]
  unfold owed releasePending
  rw [htimers]
  by_cases heq : limelight.buttonLeft = button
  · simp [heq]
  · simp [heq, Ne.symm heq]

theorem Inv.moved (h : Inv limelight w) {timeout : Timeout}
    (htimeout : ∀ id, timeout = .task id → w.state.mouseLeftButtonTimeout = .task id) :
    Inv limelight ⟨{ w.state with mouseLeftButtonTimeout := timeout }, w.early⟩ :=
  ⟨h.timers, fun id hid => h.timeout id (htimeout id hid), h.entries, h.right, h.early, h.balance⟩

theorem Inv.mouseButton (hne : limelight.buttonLeft ≠ limelight.buttonRight) (h : Inv limelight w)
    {packet : MouseButton} {id : ℕ} (hregular : Regular limelight w.state (.mouseButton packet id)) :
    Inv limelight (nextWatch limelight config w (.mouseButton packet id)) := by
  obtain ⟨hleft, hright, huntracked⟩ := hregular
  have hright' : packet.button = limelight.buttonRight → packet.release = false →
      down w.state.buttons packet.button = true → w.state.mousePress packet.button = true := hright
  -- The button is down for the client when it was clicked, so `early` is as before.
  have hearly : clicked limelight w.state = true →
      (nextWatch limelight config w (.mouseButton packet id)).early = true := by
    intro hclicked
    have hdown := (Bool.and_eq_true_iff.mp hclicked).1
    unfold nextWatch
    dsimp only
    rw [if_neg fun hall => by rw [hdown] at hall; exact Bool.noConfusion hall.2.2]
    exact h.early hclicked
  have hnext : nextWatch limelight config w (.mouseButton packet id) =
      ⟨passthroughMouseButton limelight config id packet w.state,
        (nextWatch limelight config w (.mouseButton packet id)).early⟩ := rfl
  rw [hnext]
  by_cases hmouse : config.mouse = true
  · rcases @passthroughMouseButton_cases limelight config w.state hmouse id packet with
      ⟨htracked, hentry, hstate⟩ | ⟨hentry, hstate⟩
    · rw [hstate]
      exact h.dropped htracked hentry hearly
    · have hchange := h.release_eq hentry huntracked hright'
      rw [hstate]
      unfold sendButton
      by_cases hdelayed : packet.button = limelight.buttonLeft ∧ packet.release = true ∧
          (enter packet w.state).mouseLeftButtonTimeout = .enableLeftButtonDelay
      · rw [if_pos hdelayed]
        exact h.delayed hdelayed.1 hdelayed.2.1 hentry hchange id hearly
      · rw [if_neg hdelayed]
        by_cases hclick : packet.button = limelight.buttonRight ∧ (!packet.release) = true ∧
            (enter packet w.state).mouseLeftButtonTimeout ≠ .enableLeftButtonDelay ∧
            (enter packet w.state).mouseLeftButtonTimeout ≠ .disableLeftButtonDelay
        · rw [if_pos hclick]
          obtain ⟨hbutton, hpress, henable, hdisable⟩ := hclick
          rw [Bool.not_eq_true'] at hpress
          have hpending : releasePending w.state = true := by
            cases htimeout : w.state.mouseLeftButtonTimeout with
            | enableLeftButtonDelay => exact absurd htimeout henable
            | disableLeftButtonDelay => exact absurd htimeout hdisable
            | task other => exact h.timeout other htimeout
          have hnew : (nextWatch limelight config w (.mouseButton packet id)).early = true := by
            unfold nextWatch
            dsimp only
            rw [if_pos ⟨hbutton, hpress, by rw [← hbutton, ← hchange, hpress]⟩]
            exact hpending
          rw [hnew]
          exact h.clickedThrough hne hbutton hpress hentry hchange
        · rw [if_neg hclick]
          refine h.sent hentry hchange (fun hbutton => ?_) hearly
          cases hrelease : packet.release with
          | false => exact hleft hbutton hrelease
          | true =>
            have hdown := hentry (hbutton ▸ tracked_left limelight)
            rw [hrelease, hbutton] at hdown
            have hnone := h.timers.resolve_right fun ⟨_, _, hup⟩ => by
              rw [hdown] at hup
              cases hup
            rw [releasePending, hnone]
            rfl
  · have hstate : passthroughMouseButton limelight config id packet w.state = w.state := by
      rw [passthroughMouseButton, if_neg hmouse]
    rw [hstate]
    exact ⟨h.timers, h.timeout, h.entries, h.right, hearly, h.balance⟩

theorem Inv.next (hne : limelight.buttonLeft ≠ limelight.buttonRight) (h : Inv limelight w) {e : Event}
    (hen : Enabled w.state e) (hregular : Regular limelight w.state e) :
    Inv limelight (nextWatch limelight config w e) := by
  cases e with
  | relMouseMove =>
    unfold nextWatch Clicks.next passthroughRelMouseMove
    by_cases hmouse : config.mouse = true
    · rw [if_pos hmouse]
      exact h.moved nofun
    · rw [if_neg hmouse]
      exact h
  | absMouseMove =>
    unfold nextWatch Clicks.next passthroughAbsMouseMove
    by_cases hmoved : config.mouse = true ∧ w.state.mouseLeftButtonTimeout = .disableLeftButtonDelay
    · rw [if_pos hmoved]
      exact h.moved nofun
    · rw [if_neg hmoved]
      exact h
  | mouseButton packet id => exact h.mouseButton hne hregular
  | leftRelease id => exact h.leftRelease hen

end Steps

/-- In a run of regular steps the host sees the buttons as the client pressed them. -/
theorem buttons_as_pressed (limelight : Limelight) (config : Config)
    (hne : limelight.buttonLeft ≠ limelight.buttonRight) (l m : List Event)
    (h : Runs (fun w e => Enabled w.state e ∧ Regular limelight w.state e) (nextWatch limelight config)
      Watch.initial l) (hm : m <+: l) :
    AsPressed limelight (m.foldl (nextWatch limelight config) Watch.initial) := by
  obtain ⟨rest, rfl⟩ := hm
  have hinv := h.front.invariant (Inv limelight) inv_initial fun w e hw he => hw.next hne he.1 he.2
  exact hinv.asPressed hne

/-- The right button is pressed while the release of the left one is pending. -/
def clickBeside : List Event :=
  [.absMouseMove, .mouseButton ⟨false, 1⟩ 1, .mouseButton ⟨true, 1⟩ 1, .mouseButton ⟨false, 3⟩ 2, .leftRelease 1,
    .mouseButton ⟨true, 3⟩ 2]

theorem buttons_as_pressed_clickBeside :
    AsPressed header (clickBeside.foldl (nextWatch header defaults) Watch.initial) :=
  buttons_as_pressed header defaults (by decide) clickBeside clickBeside (by decide) (List.prefix_refl _)

/-- The left button is pressed again before its release was reported. -/
def doubleClick : List Event :=
  [.mouseButton ⟨false, 1⟩ 1, .mouseButton ⟨true, 1⟩ 1, .mouseButton ⟨false, 1⟩ 2, .leftRelease 1]

/-- The host is told of two presses in a row, and the delayed task finds the button pressed and reports nothing. -/
theorem left_pressed_twice :
    ¬∀ (limelight : Limelight) (config : Config), limelight.buttonLeft ≠ limelight.buttonRight → ∀ l m : List Event,
      Runs (fun w e => Enabled w.state e) (nextWatch limelight config) Watch.initial l → m <+: l →
        AsPressed limelight (m.foldl (nextWatch limelight config) Watch.initial) := by
  intro h
  have hpressed := h header defaults (by decide) doubleClick doubleClick (by decide) (List.prefix_refl _)
  exact absurd (hpressed.alternate 1) (by decide)

end Sunshine.Clicks
