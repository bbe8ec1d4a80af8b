import Mathlib.Algebra.Order.Field.Rat
import Mathlib.Logic.Function.Basic
import Mathlib.Tactic.Linarith
import Sunshine.Lib.Clamps
import Sunshine.Lib.Transitions

/-! Pointer events on macOS: `move_mouse`, `abs_mouse` and `button_mouse`, with the buttons that are down and the times of
their last events. Numbers are exact.

`pointer_matches_iff` says in which runs the moves and clicks posted are those of the buttons held. -/
namespace Sunshine.MacPointer
open Clamps Transitions
set_option autoImplicit false

inductive CGMouseButton where
  | left
  | right
  | center
  deriving DecidableEq

/-- `kCGMouseButtonLeft` is 0, `kCGMouseButtonRight` 1 and `kCGMouseButtonCenter` 2. -/
def CGMouseButton.index : CGMouseButton → Fin 3
  | .left => 0
  | .right => 1
  | .center => 2

inductive CGEventType where
  | leftMouseDown
  | leftMouseUp
  | rightMouseDown
  | rightMouseUp
  | otherMouseDown
  | otherMouseUp
  | mouseMoved
  | leftMouseDragged
  | rightMouseDragged
  | otherMouseDragged
  deriving DecidableEq

/-- The button that is dragged with. -/
def CGEventType.dragged : CGEventType → Option CGMouseButton
  | .leftMouseDragged => some .left
  | .rightMouseDragged => some .right
  | .otherMouseDragged => some .center
  | _ => none

/-- The bounds of the display and the location of the cursor, as they are at one event. -/
structure Screen where
  origin : ℚ × ℚ
  size : ℚ × ℚ
  cursor : ℚ × ℚ

structure Post where
  button : CGMouseButton
  type : CGEventType
  location : ℚ × ℚ
  delta : ℚ × ℚ
  clickCount : ℕ

/-- What an event is posted for: a move, with the buttons held; or a release, with the click count of its press. -/
inductive Cause where
  | move (held : CGMouseButton → Bool)
  | press
  | release (ended : Option ℕ)

structure Entry where
  post : Post
  screen : Screen
  cause : Cause

/-- `macos_input_t`, what the client has done, and what was posted. -/
structure State where
  mouseDown : Fin 3 → Bool
  lastMouseEvent : Fin 3 → Bool → ℤ
  held : CGMouseButton → Bool
  /-- The click count of the press of a button that is held. -/
  pressed : CGMouseButton → Option ℕ
  log : List Entry

def start : State where
  mouseDown := fun _ => false
  lastMouseEvent := fun _ _ => 0
  held := fun _ => false
  pressed := fun _ => none
  log := []

inductive Event where
  | move (deltaX deltaY : ℤ) (screen : Screen)
  | abs (x y : ℚ) (screen : Screen)
  | button (button : ℤ) (release : Bool) (now : ℤ) (screen : Screen)

/-- `MULTICLICK_DELAY_MS`, in nanoseconds. -/
def multiclickDelay : ℤ := 500000000

def postMouse (screen : Screen) (button : CGMouseButton) (type : CGEventType) (raw previous : ℚ × ℚ) (clickCount : ℕ) :
    Post where
  button := button
  type := type
  location := (clamp raw.1 screen.origin.1 (screen.origin.1 + screen.size.1 - 1),
    clamp raw.2 screen.origin.2 (screen.origin.2 + screen.size.2 - 1))
  delta := (raw.1 - previous.1, raw.2 - previous.2)
  clickCount := clickCount

def eventTypeMouse (s : State) : CGEventType :=
  if s.mouseDown 0 then .leftMouseDragged
  else if s.mouseDown 1 then .otherMouseDragged
  else if s.mouseDown 2 then .rightMouseDragged
  else .mouseMoved

def moveMouse (s : State) (deltaX deltaY : ℤ) (screen : Screen) : Post :=
  postMouse screen .left (eventTypeMouse s) (screen.cursor.1 + deltaX, screen.cursor.2 + deltaY) screen.cursor 0

def absMouse (displayScaling : ℚ) (s : State) (x y : ℚ) (screen : Screen) : Post :=
  postMouse screen .left (eventTypeMouse s)
    (x * displayScaling + screen.origin.1, y * displayScaling + screen.origin.2) screen.cursor 0

/-- The `switch` over the button. -/
def macButton (button : ℤ) (release : Bool) : Option (CGMouseButton × CGEventType) :=
  if button = 1 then some (.left, if release then .leftMouseUp else .leftMouseDown)
  else if button = 2 then some (.center, if release then .otherMouseUp else .otherMouseDown)
  else if button = 3 then some (.right, if release then .rightMouseUp else .rightMouseDown)
  else none

/-- Whether the last event of the kind was less than the delay before. -/
def repeated (s : State) (button : CGMouseButton) (release : Bool) (now : ℤ) : Bool :=
  now < s.lastMouseEvent button.index release + multiclickDelay

def clickCount (s : State) (button : CGMouseButton) (release : Bool) (now : ℤ) : ℕ :=
  if repeated s button release now then 2 else 1

/-- `button_mouse`, of a button that there is. -/
def buttonMouse (s : State) (button : CGMouseButton) (type : CGEventType) (release : Bool) (now : ℤ) (screen : Screen) :
    State where
  mouseDown := Function.update s.mouseDown button.index !release
  lastMouseEvent := Function.update s.lastMouseEvent button.index
    (Function.update (s.lastMouseEvent button.index) release now)
  held := Function.update s.held button !release
  pressed := Function.update s.pressed button (if release then none else some (clickCount s button release now))
  log := s.log ++ [{
    post := postMouse screen button type screen.cursor screen.cursor (clickCount s button release now)
    screen := screen
    cause := if release then .release (s.pressed button) else .press }]

def next (displayScaling : ℚ) (s : State) : Event → State
  | .move deltaX deltaY screen =>
    { s with log := s.log ++ [⟨moveMouse s deltaX deltaY screen, screen, .move s.held⟩] }
  | .abs x y screen => { s with log := s.log ++ [⟨absMouse displayScaling s x y screen, screen, .move s.held⟩] }
  | .button button release now screen =>
    match macButton button release with
    | none => s
    | some (macButton, type) => buttonMouse s macButton type release now screen

/-- The display has at least one pixel. -/
def Screen.shown (screen : Screen) : Prop := 1 ≤ screen.size.1 ∧ 1 ≤ screen.size.2

def enabled : State → Event → Prop
  | _, .move _ _ screen | _, .abs _ _ screen | _, .button _ _ _ screen => screen.shown

def Inside (screen : Screen) (location : ℚ × ℚ) : Prop :=
  (screen.origin.1 ≤ location.1 ∧ location.1 ≤ screen.origin.1 + screen.size.1 - 1) ∧
    (screen.origin.2 ≤ location.2 ∧ location.2 ≤ screen.origin.2 + screen.size.2 - 1)

/-- A drag with a button that is held, or a plain move where none is. -/
def Fits (held : CGMouseButton → Bool) (type : CGEventType) : Prop :=
  match type.dragged with
  | some button => held button = true
  | none => ∀ button, held button = false

def Cause.accepts : Cause → Post → Prop
  | .move held, post => Fits held post.type
  | .press, _ => True
  | .release ended, post => ∀ count ∈ ended, post.clickCount = count

def Entry.good (entry : Entry) : Prop := Inside entry.screen entry.post.location ∧ entry.cause.accepts entry.post

def Matches (s : State) : Prop := ∀ entry ∈ s.log, entry.good

/-- A move finds the left button held, or the other two both held or both not; and a release follows the last release of
its button as soon as the press followed the press before it. -/
def Matched (s : State) : Event → Prop
  | .move .. | .abs .. => s.held .left = true ∨ (s.held .right = true ↔ s.held .center = true)
  | .button button release now _ =>
    match macButton button release with
    | none => True
    | some (macButton, _) =>
      release = true → ∀ count ∈ s.pressed macButton, (repeated s macButton true now = true ↔ count = 2)

/-! ## One event -/

section Steps
variable {displayScaling : ℚ} {s : State} {screen : Screen}

theorem inside_postMouse (hshown : screen.shown) (button : CGMouseButton) (type : CGEventType) (raw previous : ℚ × ℚ)
    (clickCount : ℕ) : Inside screen (postMouse screen button type raw previous clickCount).location := by
  obtain ⟨hwidth, hheight⟩ := hshown
  have hx : screen.origin.1 ≤ screen.origin.1 + screen.size.1 - 1 := by linarith
  have hy : screen.origin.2 ≤ screen.origin.2 + screen.size.2 - 1 := by linarith
  exact ⟨⟨low_le_clamp hx, clamp_le_high hx⟩, ⟨low_le_clamp hy, clamp_le_high hy⟩⟩

/-- The table has the buttons held, by their numbers; and a press has a click count of one or two. -/
structure Inv (s : State) : Prop where
  table : ∀ button : CGMouseButton, s.mouseDown button.index = s.held button
  counts : ∀ (button : CGMouseButton) (count : ℕ), s.pressed button = some count → count = 1 ∨ count = 2

theorem index_injective : Function.Injective CGMouseButton.index := by
  intro a b h
  cases a <;> cases b <;> first | rfl | exact absurd h (by decide)

/-- The two other buttons are taken for each other, which shows where just one of them is held. -/
theorem fits_eventTypeMouse_iff (h : Inv s) :
    Fits s.held (eventTypeMouse s) ↔ s.held .left = true ∨ (s.held .right = true ↔ s.held .center = true) := by
  have hleft : s.mouseDown 0 = s.held .left := h.table .left
  have hright : s.mouseDown 1 = s.held .right := h.table .right
  have hcenter : s.mouseDown 2 = s.held .center := h.table .center
  unfold eventTypeMouse
  rw [hleft, hright, hcenter]
  cases hl : s.held .left with
  | true => exact iff_of_true hl (.inl rfl)
  | false =>
    cases hr : s.held .right with
    | true =>
      show s.held .center = true ↔ _
      simp
    | false =>
      cases hc : s.held .center with
      | true =>
        show s.held .right = true ↔ _
        simp [hr]
      | false =>
        refine iff_of_true (fun button => ?_) (.inr (by simp))
        cases button with
        | left => exact hl
        | right => exact hr
        | center => exact hc

theorem clickCount_eq (s : State) (button : CGMouseButton) (release : Bool) (now : ℤ) :
    clickCount s button release now = 1 ∨ clickCount s button release now = 2 := by
  unfold clickCount
  split_ifs
  · exact .inr rfl
  · exact .inl rfl

theorem inv_start : Inv start := ⟨fun _ => rfl, fun _ _ h => by cases h⟩

theorem inv_next (h : Inv s) (event : Event) : Inv (next displayScaling s event) := by
  cases event with
  | move deltaX deltaY screen => exact ⟨h.table, h.counts⟩
  | abs x y screen => exact ⟨h.table, h.counts⟩
  | button button release now screen =>
    unfold next
    dsimp only
    split
    · exact h
    · next macButton type _ =>
      refine ⟨fun other => ?_, fun other count hcount => ?_⟩
      · show Function.update s.mouseDown macButton.index (!release) other.index = Function.update s.held macButton (!release) other
        by_cases heq : other = macButton
        · rw [heq, Function.update_self, Function.update_self]
        · rw [Function.update_of_ne (fun hindex => heq (index_injective hindex)), Function.update_of_ne heq]
          exact h.table other
      · have hcount' : Function.update s.pressed macButton
            (if release then none else some (clickCount s macButton release now)) other = some count := hcount
        by_cases heq : other = macButton
        · rw [heq, Function.update_self] at hcount'
          cases release with
          | true => cases hcount'
          | false =>
            obtain rfl := Option.some.inj hcount'
            exact clickCount_eq s macButton false now
        · rw [Function.update_of_ne heq] at hcount'
          exact h.counts other count hcount'

theorem matches_append_iff (hmatches : ∀ entry ∈ s.log, entry.good) (entry : Entry) :
    (∀ entry' ∈ s.log ++ [entry], entry'.good) ↔ entry.good := by
  rw [List.forall_mem_append, List.forall_mem_singleton]
  exact and_iff_right hmatches

theorem matches_next_iff (h : Inv s) (hmatches : Matches s) {event : Event} (henabled : enabled s event) :
    Matches (next displayScaling s event) ↔ Matched s event := by
  cases event with
  | move deltaX deltaY screen =>
    refine (matches_append_iff hmatches _).trans ?_
    exact (and_iff_right (inside_postMouse henabled _ _ _ _ _)).trans (fits_eventTypeMouse_iff h)
  | abs x y screen =>
    refine (matches_append_iff hmatches _).trans ?_
    exact (and_iff_right (inside_postMouse henabled _ _ _ _ _)).trans (fits_eventTypeMouse_iff h)
  | button button release now screen =>
    unfold next Matched
    dsimp only
    cases macButton button release with
    | none => exact iff_of_true hmatches trivial
    | some found =>
      obtain ⟨macButton, type⟩ := found
      refine (matches_append_iff hmatches _).trans ?_
      refine (and_iff_right (inside_postMouse henabled _ _ _ _ _)).trans ?_
      cases release with
      | false => exact iff_of_true trivial fun hrelease => Bool.noConfusion hrelease
      | true =>
        have heach : ∀ count ∈ s.pressed macButton, (clickCount s macButton true now = count ↔
            (repeated s macButton true now = true ↔ count = 2)) := by
          intro count hcount
          unfold clickCount
          obtain rfl | rfl := h.counts macButton count hcount
          · split_ifs with hrepeated <;> simp [hrepeated]
          · split_ifs with hrepeated <;> simp [hrepeated]
        exact ⟨fun hall _ count hcount => (heach count hcount).mp (hall count hcount),
          fun hall count hcount => (heach count hcount).mpr (hall rfl count hcount)⟩

end Steps

/-! ## Runs -/

/-- All that is posted in a run is right exactly if each event meets the buttons as it needs them. -/
theorem pointer_matches_iff (displayScaling : ℚ) (events : List Event)
    (h : Runs enabled (next displayScaling) start events) :
    (∀ before, before <+: events → Matches (before.foldl (next displayScaling) start)) ↔
      Runs Matched (next displayScaling) start events :=
  h.always_iff Inv Matches inv_start (fun _ hentry => (by cases hentry)) (fun _ event hinv _ => inv_next hinv event)
    fun _ _ hinv hmatches henabled => matches_next_iff hinv hmatches henabled

section Buttons

def unit : Screen := ⟨(0, 0), (1, 1), (0, 0)⟩

theorem unit_shown : unit.shown := ⟨le_rfl, le_rfl⟩

theorem left_drag_matches :
    Matches ([.button 1 false 1000000000 unit, .move 1 1 unit].foldl (next 1) start) :=
  (pointer_matches_iff 1 [.button 1 false 1000000000 unit, .move 1 1 unit] ⟨unit_shown, unit_shown, trivial⟩).mpr
    ⟨fun hrelease => Bool.noConfusion hrelease, .inl rfl, trivial⟩ _ (List.prefix_refl _)

/-- A move with the right button held is posted as a drag of the center button. -/
theorem right_drag_posted_as_center : ¬∀ events : List Event, Runs enabled (next 1) start events →
    ∀ before, before <+: events → Matches (before.foldl (next 1) start) := by
  intro hall
  have hmatches := hall [.button 3 false 1000000000 unit, .move 1 1 unit] ⟨unit_shown, unit_shown, trivial⟩ _
    (List.prefix_refl _)
  have hcenter : false = true := (hmatches _ (.tail _ (.head _))).2
  exact Bool.noConfusion hcenter

end Buttons

end Sunshine.MacPointer
