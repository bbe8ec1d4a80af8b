import Mathlib.Logic.ExistsUnique
import Sunshine.Lib.Transitions

/-! The fingers of the DualShock 4 touchpad on Windows: `gamepad_touch`, and attaching and detaching the gamepad.

The map of the pointers, the mask of the free fingers and the up bit of the report say the same of a finger until a
pointer that is down goes down again while a finger is free, or a finger goes down for the 128th time, or the gamepad is
attached again with pointers still in the map: `tracked_iff`. -/
namespace Sunshine.Touchpad
open Transitions
set_option autoImplicit false

/-! ## The gamepad -/

inductive TargetType where
  | xbox360Wired
  | dualShock4Wired
  deriving DecidableEq

/-- `DS4_TOUCH`. -/
structure Ds4Touch where
  packetCounter : BitVec 8
  isUpTrackingNum : Fin 2 → BitVec 8
  touchData : Fin 2 → BitVec 8 × BitVec 8 × BitVec 8

/-- `gamepad_context_t`, with the current touch of its DualShock 4 report. -/
structure GamepadContext where
  gp : Option TargetType
  currentTouch : Ds4Touch
  pointerIdMap : UInt32 → Option (Fin 2)
  availablePointers : BitVec 8

def ds4TouchUnused : Ds4Touch := ⟨0, fun _ => 0x80, fun _ => (0, 0, 0)⟩

/-- A slot that no gamepad was attached to. -/
def initial : GamepadContext := ⟨none, ⟨0, fun _ => 0, fun _ => (0, 0, 0)⟩, fun _ => none, 0⟩

/-- Whether ViGEmBus is connected to, and whether it adds the gamepad. -/
structure ViGEm where
  connects : Bool
  adds : Bool

def allocGamepadInternal (gpType : TargetType) (vigem : ViGEm) (gamepad : GamepadContext) : GamepadContext × Int :=
  if vigem.connects then
    (match gpType with
      | .xbox360Wired => { gamepad with gp := some .xbox360Wired }
      | .dualShock4Wired =>
        { gamepad with gp := some .dualShock4Wired, currentTouch := ds4TouchUnused, availablePointers := 0x3 },
      if vigem.adds then 0 else -1)
  else (gamepad, -1)

def freeTarget (gamepad : GamepadContext) : GamepadContext := { gamepad with gp := none }

/-! ## Touches -/

def liTouchEventDown : UInt8 := 0x01
def liTouchEventUp : UInt8 := 0x02
def liTouchEventMove : UInt8 := 0x03
def liTouchEventCancel : UInt8 := 0x04
def liTouchEventCancelAll : UInt8 := 0x07

/-- A touch, with its place on the touchpad. -/
structure GamepadTouch where
  eventType : UInt8
  pointerId : UInt32
  x : BitVec 16
  y : BitVec 16

/-- The finger's bit of the mask. -/
def pointerBit (pointerIndex : Fin 2) : BitVec 8 := 1#8 <<< pointerIndex.val

/-- The first of the fingers that are free. -/
def freePointer (gamepad : GamepadContext) : Option (Fin 2) :=
  if gamepad.availablePointers &&& 0x1 ≠ 0 then some 0
  else if gamepad.availablePointers &&& 0x2 ≠ 0 then some 1
  else none

def GamepadContext.setTrackingNum (gamepad : GamepadContext) (pointerIndex : Fin 2) (f : BitVec 8 → BitVec 8) :
    GamepadContext :=
  { gamepad with
    currentTouch := { gamepad.currentTouch with
      isUpTrackingNum := fun i =>
        if i = pointerIndex then f (gamepad.currentTouch.isUpTrackingNum i)
        else gamepad.currentTouch.isUpTrackingNum i } }

/-- The pointer takes the finger, and the finger is set down. -/
def reservePointer (pointerId : UInt32) (pointerIndex : Fin 2) (gamepad : GamepadContext) : GamepadContext :=
  { gamepad with
    pointerIdMap := fun id => if id = pointerId then some pointerIndex else gamepad.pointerIdMap id
    availablePointers := gamepad.availablePointers &&& ~~~pointerBit pointerIndex }.setTrackingNum pointerIndex
      fun num => (num &&& ~~~0x80) + 1

/-- The pointer gives the finger back, and the finger is set up. -/
def releasePointer (pointerId : UInt32) (pointerIndex : Fin 2) (gamepad : GamepadContext) : GamepadContext :=
  { gamepad with
    pointerIdMap := fun id => if id = pointerId then none else gamepad.pointerIdMap id
    availablePointers := gamepad.availablePointers ||| pointerBit pointerIndex }.setTrackingNum pointerIndex
      fun num => num ||| 0x80

def cancelAll (gamepad : GamepadContext) : GamepadContext :=
  { gamepad with
    pointerIdMap := fun _ => none
    availablePointers := 0x3
    currentTouch := { gamepad.currentTouch with
      isUpTrackingNum := fun i => gamepad.currentTouch.isUpTrackingNum i ||| 0x80 } }

/-- The coordinates of the touch are written for its finger, if it has one, and the report is sent. -/
def sendTouch (touch : GamepadTouch) (pointerIndex : Option (Fin 2)) (gamepad : GamepadContext) : GamepadContext :=
  { gamepad with
    currentTouch := { gamepad.currentTouch with
      packetCounter := gamepad.currentTouch.packetCounter + 1
      touchData := fun i =>
        if some i = pointerIndex then
          ((touch.x &&& 0xFF).setWidth 8, ((touch.x >>> 8 &&& 0x0F) ||| (touch.y &&& 0x0F) <<< 4).setWidth 8,
            (touch.y >>> 4 &&& 0xFF).setWidth 8)
        else gamepad.currentTouch.touchData i } }

def gamepadTouch (touch : GamepadTouch) (gamepad : GamepadContext) : GamepadContext :=
  if gamepad.gp ≠ some .dualShock4Wired then gamepad
  else if touch.eventType = liTouchEventDown then
    match freePointer gamepad with
    | some pointerIndex =>
      sendTouch touch (some pointerIndex) (reservePointer touch.pointerId pointerIndex gamepad)
    | none => gamepad
  else if touch.eventType = liTouchEventCancelAll then sendTouch touch none (cancelAll gamepad)
  else
    match gamepad.pointerIdMap touch.pointerId with
    | none => gamepad
    | some pointerIndex =>
      if touch.eventType = liTouchEventUp ∨ touch.eventType = liTouchEventCancel then
        sendTouch touch (some pointerIndex) (releasePointer touch.pointerId pointerIndex gamepad)
      else if touch.eventType ≠ liTouchEventMove then gamepad
      else sendTouch touch (some pointerIndex) gamepad

/-! ## Runs -/

inductive Event where
  | attach (gpType : TargetType) (vigem : ViGEm)
  | detach
  | touch (touch : GamepadTouch)

def next (gamepad : GamepadContext) : Event → GamepadContext
  | .attach gpType vigem => (allocGamepadInternal gpType vigem gamepad).1
  | .detach => freeTarget gamepad
  | .touch touch => gamepadTouch touch gamepad

def Unavailable (gamepad : GamepadContext) (i : Fin 2) : Prop := gamepad.availablePointers &&& pointerBit i = 0

/-- The report shows the finger as touching. -/
def Touching (gamepad : GamepadContext) (i : Fin 2) : Prop := gamepad.currentTouch.isUpTrackingNum i &&& 0x80 = 0

/-- What the map, the mask and the report say of a finger. -/
structure Agrees (gamepad : GamepadContext) (i : Fin 2) : Prop where
  mapped : Unavailable gamepad i ↔ ∃! id, gamepad.pointerIdMap id = some i
  distinct : ∀ id id', gamepad.pointerIdMap id = some i → gamepad.pointerIdMap id' = some i → id = id'
  shown : Touching gamepad i ↔ Unavailable gamepad i

/-- A DualShock 4 that is attached has its fingers tracked. -/
def Tracked (gamepad : GamepadContext) : Prop := gamepad.gp = some .dualShock4Wired → ∀ i, Agrees gamepad i

/-- A pointer that goes down where a finger is free is not down, and the finger's number is not 127; no pointer is in the
map where a DualShock 4 is attached. -/
def Fits (gamepad : GamepadContext) : Event → Prop
  | .attach gpType vigem =>
    gpType = .dualShock4Wired → vigem.connects = true → ∀ id, gamepad.pointerIdMap id = none
  | .detach => True
  | .touch touch =>
    gamepad.gp = some .dualShock4Wired → touch.eventType = liTouchEventDown → ∀ i ∈ freePointer gamepad,
      gamepad.pointerIdMap touch.pointerId = none ∧ gamepad.currentTouch.isUpTrackingNum i &&& 0x7F ≠ 0x7F

/-! ## Bits -/

theorem clear_and : ∀ (mask : BitVec 8) (i j : Fin 2),
    (mask &&& ~~~pointerBit i) &&& pointerBit j = 0 ↔ j = i ∨ mask &&& pointerBit j = 0 := by
  decide +kernel

theorem set_and : ∀ (mask : BitVec 8) (i j : Fin 2),
    (mask ||| pointerBit i) &&& pointerBit j = 0 ↔ j ≠ i ∧ mask &&& pointerBit j = 0 := by
  decide +kernel

/-- The number behind 127 sets the up bit. -/
theorem next_up : ∀ num : BitVec 8, ((num &&& ~~~0x80) + 1) &&& 0x80 = 0 ↔ num &&& 0x7F ≠ 0x7F := by
  decide +kernel

theorem raised : ∀ num : BitVec 8, (num ||| 0x80) &&& 0x80 ≠ 0 := by
  decide +kernel

theorem all_free : ∀ i : Fin 2, (0x3 : BitVec 8) &&& pointerBit i ≠ 0 := by
  decide

/-! ## One step -/

section
variable {gamepad : GamepadContext} {touch : GamepadTouch} {pointerId : UInt32} {i : Fin 2}

theorem freePointer_available (h : freePointer gamepad = some i) : ¬Unavailable gamepad i := by
  unfold freePointer at h
  split_ifs at h with hzero hone
  · obtain rfl := Option.some.inj h
    exact hzero
  · obtain rfl := Option.some.inj h
    exact hone

theorem Agrees.mapped_iff (h : Agrees gamepad i) : Unavailable gamepad i ↔ ∃ id, gamepad.pointerIdMap id = some i :=
  h.mapped.trans ⟨ExistsUnique.exists, fun ⟨id, hid⟩ => ⟨id, hid, fun id' hid' => h.distinct id' id hid' hid⟩⟩

theorem agrees_of (hmapped : Unavailable gamepad i ↔ ∃ id, gamepad.pointerIdMap id = some i)
    (hdistinct : ∀ id id', gamepad.pointerIdMap id = some i → gamepad.pointerIdMap id' = some i → id = id')
    (hshown : Touching gamepad i ↔ Unavailable gamepad i) : Agrees gamepad i :=
  ⟨hmapped.trans ⟨fun ⟨id, hid⟩ => ⟨id, hid, fun id' hid' => hdistinct id' id hid' hid⟩, ExistsUnique.exists⟩,
    hdistinct, hshown⟩

theorem agrees_sendTouch {finger : Option (Fin 2)} :
    Agrees (sendTouch touch finger gamepad) i ↔ Agrees gamepad i :=
  ⟨fun h => ⟨h.mapped, h.distinct, h.shown⟩, fun h => ⟨h.mapped, h.distinct, h.shown⟩⟩

theorem map_reservePointer (id : UInt32) : (reservePointer pointerId i gamepad).pointerIdMap id =
    if id = pointerId then some i else gamepad.pointerIdMap id := rfl

theorem map_releasePointer (id : UInt32) : (releasePointer pointerId i gamepad).pointerIdMap id =
    if id = pointerId then none else gamepad.pointerIdMap id := rfl

theorem unavailable_reservePointer (j : Fin 2) :
    Unavailable (reservePointer pointerId i gamepad) j ↔ j = i ∨ Unavailable gamepad j :=
  clear_and gamepad.availablePointers i j

theorem unavailable_releasePointer (j : Fin 2) :
    Unavailable (releasePointer pointerId i gamepad) j ↔ j ≠ i ∧ Unavailable gamepad j :=
  set_and gamepad.availablePointers i j

theorem touching_reservePointer (j : Fin 2) : Touching (reservePointer pointerId i gamepad) j ↔
    if j = i then gamepad.currentTouch.isUpTrackingNum j &&& 0x7F ≠ 0x7F else Touching gamepad j := by
  unfold Touching
  by_cases hji : j = i
  · rw [if_pos hji, ← next_up]
    exact iff_of_eq (congrArg (· &&& 0x80 = 0) (if_pos hji))
  · rw [if_neg hji]
    exact iff_of_eq (congrArg (· &&& 0x80 = 0) (if_neg hji))

theorem touching_releasePointer (j : Fin 2) :
    Touching (releasePointer pointerId i gamepad) j ↔ j ≠ i ∧ Touching gamepad j := by
  unfold Touching
  by_cases hji : j = i
  · have hup : (releasePointer pointerId i gamepad).currentTouch.isUpTrackingNum j =
        gamepad.currentTouch.isUpTrackingNum j ||| 0x80 := if_pos hji
    rw [hup]
    exact iff_of_false (raised _) fun h => h.1 hji
  · have hsame : (releasePointer pointerId i gamepad).currentTouch.isUpTrackingNum j =
        gamepad.currentTouch.isUpTrackingNum j := if_neg hji
    rw [hsame]
    exact (and_iff_right hji).symm

/-- A pointer that takes a free finger was not down, and the finger's number is not 127, if and only if all agree
again. -/
theorem agrees_reservePointer_iff (h : ∀ j, Agrees gamepad j) (hfree : ¬Unavailable gamepad i) :
    (∀ j, Agrees (reservePointer pointerId i gamepad) j) ↔
      gamepad.pointerIdMap pointerId = none ∧ gamepad.currentTouch.isUpTrackingNum i &&& 0x7F ≠ 0x7F := by
  have hnone (id : UInt32) : gamepad.pointerIdMap id ≠ some i := fun hid => hfree ((h i).mapped_iff.mpr ⟨id, hid⟩)
  constructor
  · intro hnext
    constructor
    · by_contra hdown
      obtain ⟨j, hj⟩ := Option.ne_none_iff_exists'.mp hdown
      have hji : j ≠ i := by
        rintro rfl
        exact hnone pointerId hj
      have hleaked : Unavailable (reservePointer pointerId i gamepad) j :=
        (unavailable_reservePointer j).mpr (.inr ((h j).mapped_iff.mpr ⟨pointerId, hj⟩))
      obtain ⟨id, hid⟩ := (hnext j).mapped_iff.mp hleaked
      rw [map_reservePointer] at hid
      split_ifs at hid with heq
      · exact hji (Option.some.inj hid).symm
      · exact heq ((h j).distinct id pointerId hid hj)
    · have hshown := (hnext i).shown.mpr ((unavailable_reservePointer i).mpr (.inl rfl))
      rwa [touching_reservePointer, if_pos rfl] at hshown
  · rintro ⟨hup, hnum⟩ j
    by_cases hji : j = i
    · subst hji
      have hunavailable : Unavailable (reservePointer pointerId j gamepad) j :=
        (unavailable_reservePointer j).mpr (.inl rfl)
      refine agrees_of (iff_of_true hunavailable ⟨pointerId, if_pos rfl⟩) (fun id id' hid hid' => ?_)
        (iff_of_true ?_ hunavailable)
      · rw [map_reservePointer] at hid hid'
        split_ifs at hid hid' with heq heq'
        · rw [heq, heq']
        · exact absurd hid' (hnone id')
        · exact absurd hid (hnone id)
        · exact absurd hid (hnone id)
      · rwa [touching_reservePointer, if_pos rfl]
    · have hmap (id : UInt32) : (reservePointer pointerId i gamepad).pointerIdMap id = some j ↔
          gamepad.pointerIdMap id = some j := by
        rw [map_reservePointer]
        split_ifs with heq
        · rw [heq, hup]
          exact iff_of_false (fun hij => hji (Option.some.inj hij).symm) nofun
        · exact Iff.rfl
      have hsame : Unavailable (reservePointer pointerId i gamepad) j ↔ Unavailable gamepad j := by
        rw [unavailable_reservePointer]
        exact or_iff_right hji
      refine agrees_of ?_ (fun id id' hid hid' => (h j).distinct id id' ((hmap id).mp hid) ((hmap id').mp hid')) ?_
      · rw [hsame, (h j).mapped_iff]
        exact exists_congr fun id => (hmap id).symm
      · rw [hsame, touching_reservePointer, if_neg hji]
        exact (h j).shown

theorem agrees_releasePointer (h : ∀ j, Agrees gamepad j) (hdown : gamepad.pointerIdMap pointerId = some i) (j : Fin 2) :
    Agrees (releasePointer pointerId i gamepad) j := by
  have hmap (id : UInt32) : (releasePointer pointerId i gamepad).pointerIdMap id = some j ↔
      j ≠ i ∧ gamepad.pointerIdMap id = some j := by
    rw [map_releasePointer]
    split_ifs with heq
    · rw [heq, hdown]
      exact iff_of_false nofun fun hij => hij.1 (Option.some.inj hij.2).symm
    · refine ⟨fun hid => ⟨?_, hid⟩, And.right⟩
      rintro rfl
      exact heq ((h j).distinct id pointerId hid hdown)
  refine agrees_of ?_ (fun id id' hid hid' => (h j).distinct id id' ((hmap id).mp hid).2 ((hmap id').mp hid').2) ?_
  · rw [unavailable_releasePointer, (h j).mapped_iff]
    simp only [hmap, exists_and_left]
  · rw [unavailable_releasePointer, touching_releasePointer, (h j).shown]

theorem agrees_cancelAll (j : Fin 2) : Agrees (cancelAll gamepad) j := by
  have hfree : ¬Unavailable (cancelAll gamepad) j := all_free j
  exact agrees_of (iff_of_false hfree fun h => nomatch h.choose_spec) (fun id _ hid => nomatch hid)
    (iff_of_false (raised _) hfree)

theorem gamepadTouch_gp (touch : GamepadTouch) (gamepad : GamepadContext) :
    (gamepadTouch touch gamepad).gp = gamepad.gp := by
  unfold gamepadTouch
  split_ifs
  · rfl
  · cases freePointer gamepad <;> rfl
  · rfl
  all_goals cases gamepad.pointerIdMap touch.pointerId <;> rfl

/-- A touch keeps the fingers tracked if and only if it fits. -/
theorem tracked_touch_iff (h : Tracked gamepad) :
    Tracked (gamepadTouch touch gamepad) ↔ Fits gamepad (.touch touch) := by
  by_cases hgp : gamepad.gp = some .dualShock4Wired
  · have hall := h hgp
    have htracked : Tracked (gamepadTouch touch gamepad) ↔ ∀ j, Agrees (gamepadTouch touch gamepad) j := by
      unfold Tracked
      rw [gamepadTouch_gp]
      exact ⟨fun h => h hgp, fun h _ => h⟩
    rw [htracked]
    unfold gamepadTouch Fits
    rw [if_neg (not_not.mpr hgp)]
    by_cases hdown : touch.eventType = liTouchEventDown
    · rw [if_pos hdown]
      cases hfree : freePointer gamepad with
      | none => exact iff_of_true hall fun _ _ i hi => nomatch hi
      | some i =>
        simp only [agrees_sendTouch]
        rw [agrees_reservePointer_iff hall (freePointer_available hfree)]
        constructor
        · rintro hfits - - i' hi'
          rwa [← Option.some.inj hi']
        · exact fun hfits => hfits hgp hdown i rfl
    · rw [if_neg hdown]
      refine iff_of_true ?_ fun _ hdown' => absurd hdown' hdown
      by_cases hcancelAll : touch.eventType = liTouchEventCancelAll
      · rw [if_pos hcancelAll]
        exact fun j => agrees_sendTouch.mpr (agrees_cancelAll j)
      · rw [if_neg hcancelAll]
        cases hmapped : gamepad.pointerIdMap touch.pointerId with
        | none => exact hall
        | some i =>
          dsimp only
          split_ifs with hup hmove
          · exact fun j => agrees_sendTouch.mpr (agrees_releasePointer hall hmapped j)
          · exact hall
          · exact fun j => agrees_sendTouch.mpr (hall j)
  · have hsame : gamepadTouch touch gamepad = gamepad := if_pos hgp
    rw [hsame]
    exact iff_of_true h fun hgp' => absurd hgp' hgp

/-- A DualShock 4 is attached with its fingers tracked if and only if no pointer is in the map. -/
theorem tracked_attach_iff (vigem : ViGEm) (hconnects : vigem.connects = true) :
    Tracked (allocGamepadInternal .dualShock4Wired vigem gamepad).1 ↔ ∀ id, gamepad.pointerIdMap id = none := by
  have hattached : (allocGamepadInternal .dualShock4Wired vigem gamepad).1 =
      { gamepad with gp := some .dualShock4Wired, currentTouch := ds4TouchUnused, availablePointers := 0x3 } := by
    rw [allocGamepadInternal, if_pos hconnects]
  rw [hattached]
  constructor
  · intro htracked id
    by_contra hdown
    obtain ⟨i, hi⟩ := Option.ne_none_iff_exists'.mp hdown
    exact all_free i ((htracked rfl i).mapped_iff.mpr ⟨id, hi⟩)
  · intro hnone _ i
    have hup : ¬(0x80 : BitVec 8) &&& 0x80 = 0 := by decide
    refine agrees_of (iff_of_false (all_free i) ?_) (fun id _ hid => ?_) (iff_of_false hup (all_free i))
    · rintro ⟨id, hid⟩
      exact nomatch (hnone id).symm.trans hid
    · exact nomatch (hnone id).symm.trans hid

theorem tracked_next_iff (h : Tracked gamepad) (event : Event) :
    Tracked (next gamepad event) ↔ Fits gamepad event := by
  cases event with
  | touch touch => exact tracked_touch_iff h
  | detach => exact iff_of_true (fun hgp => nomatch hgp) trivial
  | attach gpType vigem =>
    cases hconnects : vigem.connects with
    | false =>
      have hsame : allocGamepadInternal gpType vigem gamepad = (gamepad, -1) := by
        unfold allocGamepadInternal
        rw [hconnects]
        exact if_neg Bool.false_ne_true
      refine iff_of_true ?_ fun _ hconnects' => nomatch hconnects.symm.trans hconnects'
      rwa [next, hsame]
    | true =>
      cases gpType with
      | xbox360Wired =>
        refine iff_of_true ?_ fun hxbox => nomatch hxbox
        have hgp : (allocGamepadInternal .xbox360Wired vigem gamepad).1.gp = some .xbox360Wired := by
          rw [allocGamepadInternal, if_pos hconnects]
        exact fun hds4 => nomatch hgp.symm.trans hds4
      | dualShock4Wired =>
        rw [next, tracked_attach_iff vigem hconnects]
        exact ⟨fun hnone _ _ => hnone, fun hfits => hfits rfl hconnects⟩

/-- Where the fingers are tracked, a pointer in the map has its finger shown as touching, and with no pointer in the map
both fingers are free and shown as up. -/
theorem Tracked.fingers (h : Tracked gamepad) (hgp : gamepad.gp = some .dualShock4Wired) :
    (∀ id i, gamepad.pointerIdMap id = some i → Touching gamepad i) ∧
      ((∀ id, gamepad.pointerIdMap id = none) → ∀ i, ¬Unavailable gamepad i ∧ ¬Touching gamepad i) := by
  refine ⟨fun id i hid => (h hgp i).shown.mpr ((h hgp i).mapped_iff.mpr ⟨id, hid⟩), fun hnone i => ?_⟩
  have hfree : ¬Unavailable gamepad i := by
    intro hunavailable
    obtain ⟨id, hid⟩ := (h hgp i).mapped_iff.mp hunavailable
    exact nomatch (hnone id).symm.trans hid
  exact ⟨hfree, fun htouching => hfree ((h hgp i).shown.mp htouching)⟩

end

/-! ## Runs -/

/-- The fingers are tracked in every state of a run exactly if each of its steps fits. -/
theorem tracked_iff (l : List Event) :
    (∀ m, m <+: l → Tracked (m.foldl next initial)) ↔ Runs Fits next initial l := by
  have hinitial : Tracked initial := fun hgp => nomatch hgp
  exact (runs_true l).always_iff (fun _ => True) Tracked trivial hinitial (fun _ _ _ _ => trivial)
    fun _ event _ htracked _ => tracked_next_iff htracked event

def attached : Event := .attach .dualShock4Wired ⟨true, true⟩

def down (pointerId : UInt32) : Event := .touch ⟨liTouchEventDown, pointerId, 0, 0⟩

def up (pointerId : UInt32) : Event := .touch ⟨liTouchEventUp, pointerId, 0, 0⟩

/-- A pointer goes down twice: its first finger stays taken and has no pointer. A gamepad is attached again behind a
pointer that was down: the pointer still has the finger, which is free. A finger goes down for the 128th time: it is
taken and shown as up. -/
theorem not_tracked :
    ¬Tracked ([attached, down 7, down 7].foldl next initial) ∧
      ¬Tracked ([attached, down 7, .detach, attached].foldl next initial) ∧
      ¬Tracked ((attached :: ((List.replicate 127 [down 7, up 7]).flatten ++ [down 7])).foldl next initial) := by
  refine ⟨?_, ?_, ?_⟩
  · intro htracked
    obtain ⟨id, hid⟩ := (htracked rfl 0).mapped_iff.mp rfl
    by_cases hseven : id = 7
    · subst hseven
      exact nomatch hid
    · have hnone : ([attached, down 7, down 7].foldl next initial).pointerIdMap id = none := by
        simp [attached, down, next, allocGamepadInternal, gamepadTouch, freePointer, reservePointer, sendTouch,
          GamepadContext.setTrackingNum, initial, pointerBit, hseven]
      exact nomatch hnone.symm.trans hid
  · intro htracked
    exact all_free 0 ((htracked rfl 0).mapped_iff.mpr ⟨7, rfl⟩)
  · intro htracked
    have hgp : ((attached :: ((List.replicate 127 [down 7, up 7]).flatten ++ [down 7])).foldl next initial).gp =
        some .dualShock4Wired := by
      decide +kernel
    have htaken : Unavailable ((attached :: ((List.replicate 127 [down 7, up 7]).flatten ++ [down 7])).foldl next
        initial) 0 := by
      unfold Unavailable
      decide +kernel
    have hshown := (htracked hgp 0).shown.mpr htaken
    revert hshown
    unfold Touching
    decide +kernel

end Sunshine.Touchpad
