import Mathlib.Algebra.Order.Floor.Defs
import Mathlib.Data.Rat.Floor
import Mathlib.Data.Set.Insert
import Sunshine.Input.TouchPort
import Sunshine.Lib.Transitions
import Sunshine.Platform.TouchSlots

/-! Touch passthrough on Linux: `passthrough` of a touch packet, and `touch::update`, which places and releases the fingers
of a virtual touch screen.

`fingers_follow_iff` says in which runs the fingers are those of the client and the angles those of its packets. -/
namespace Sunshine.TouchFingers
open Clamps TouchPort TouchSlots Transitions
set_option autoImplicit false

/-! ## A packet -/

/-- `SS_TOUCH_PACKET`, in the byte order of the host and without the contact area, which Linux has no use for. -/
structure TouchPacket where
  eventType : EventType
  rotation : UInt16
  pointerId : UInt32
  x : ℚ
  y : ℚ
  pressureOrDistance : ℚ

/-- `LI_ROT_UNKNOWN`. -/
def rotUnknown : UInt16 := 0xFFFF

/-- `platf::touch_input_t`, without the contact area. -/
structure TouchInput where
  eventType : EventType
  rotation : UInt16
  pointerId : UInt32
  x : ℚ
  y : ℚ
  pressureOrDistance : ℚ

def monitorLogicalW (port : Port) : ℚ := port.width * port.scalarInv / port.scalarTpcoords

def monitorLogicalH (port : Port) : ℚ := port.height * port.scalarInv / port.scalarTpcoords

/-- The port of the monitor, with the coordinates as parts of it. -/
def monitorTouchPort (port : Port) (coords : ℚ × ℚ) : Option (PlatformPort × ℚ × ℚ) :=
  if monitorLogicalW port ≤ 0 ∨ monitorLogicalH port ≤ 0 then none
  else
    some ({
      offsetX := port.offsetX
      offsetY := port.offsetY
      width := ⌊monitorLogicalW port⌋
      height := ⌊monitorLogicalH port⌋ },
      (coords.1 - port.offsetX) / monitorLogicalW port, (coords.2 - port.offsetY) / monitorLogicalH port)

def normalRotation (rotation : UInt16) : UInt16 := if rotation ≠ rotUnknown then rotation % 360 else rotation

/-- `passthrough` of a touch packet: the surface afterwards, and what is handed to `touch_update`. -/
def passthrough (mouse : Bool) (input : Surface) (packet : TouchPacket) : Surface × Option TouchInput :=
  if ¬mouse then (input, none)
  else
    match clientToTouchport input (clamp packet.x 0 1 * 65535, clamp packet.y 0 1 * 65535) (65535, 65535) with
    | (input, none) => (input, none)
    | (input, some coords) =>
      (input, (monitorTouchPort input.touchPort coords).map fun port => {
        eventType := packet.eventType
        rotation := normalRotation packet.rotation
        pointerId := packet.pointerId
        x := port.2.1
        y := port.2.2
        pressureOrDistance := clamp packet.pressureOrDistance 0 1 })

/-! ## The fingers -/

/-- The range 0..360 to -90..90. -/
def adjustedAngle (rotation : ℤ) : ℤ :=
  let adjusted := if 90 < rotation ∧ rotation < 270 then 180 - rotation else rotation
  if 90 < adjusted then adjusted - 360
  else if adjusted < -90 then adjusted + 360
  else adjusted

/-- A virtual touch screen, and which of its fingers are placed. -/
structure TouchScreen (Device : Type) where
  fingers : Device → Set ℤ
  placeFinger : Device → ℤ → ℚ → ℚ → ℚ → ℤ → Device
  releaseFinger : Device → ℤ → Device
  fingers_place : ∀ device finger x y pressure angle,
    fingers (placeFinger device finger x y pressure angle) = insert finger (fingers device)
  fingers_release : ∀ device finger, fingers (releaseFinger device finger) = fingers device \ {finger}

/-- The number of a finger is an `int`. -/
def fingerNr (pointerId : UInt32) : ℤ := pointerId.toInt32.toInt

/-- A call on the touch screen. -/
inductive Call where
  | place (finger : ℤ) (x y pressure : ℚ) (angle : ℤ)
  | release (finger : ℤ)

/-- `touch::update`. -/
def update (touch : TouchInput) : Option Call :=
  match touch.eventType with
  | .hover | .down | .move =>
    some (.place (fingerNr touch.pointerId) touch.x touch.y touch.pressureOrDistance
      (adjustedAngle touch.rotation.toNat))
  | .cancel | .up | .hoverLeave => some (.release (fingerNr touch.pointerId))
  | .cancelAll | .buttonOnly | .unknown => none

/-- What an event leaves of the pointers hovering or in contact. -/
def leaves (eventType : EventType) (pointerId : UInt32) (pointers : Set UInt32) : Set UInt32 :=
  match eventType with
  | .hover | .down | .move => insert pointerId pointers
  | .up | .cancel | .hoverLeave => pointers \ {pointerId}
  | .cancelAll => ∅
  | .buttonOnly | .unknown => pointers

section Model
variable {Device : Type} (screen : TouchScreen Device) (mouse : Bool)

def Call.run (device : Device) : Call → Device
  | .place finger x y pressure angle => screen.placeFinger device finger x y pressure angle
  | .release finger => screen.releaseFinger device finger

/-- The rotation of a packet with the angle that a finger is placed with for it. -/
def Call.angle (rotation : UInt16) : Call → List (UInt16 × ℤ)
  | .place _ _ _ _ angle => [(rotation, angle)]
  | .release _ => []

structure State (Device : Type) where
  surface : Surface
  touch : Option Device
  /-- The pointers that the packets leave hovering or in contact. -/
  pointers : Set UInt32
  angles : List (UInt16 × ℤ)

inductive Event where
  | port (port : Port)
  | packet (packet : TouchPacket)

/-- The call that a packet leads to, with the surface afterwards. -/
def called (s : State Device) (packet : TouchPacket) : Surface × Option Call :=
  let passed := passthrough mouse s.surface packet
  (passed.1, passed.2.bind update)

def next (s : State Device) : Event → State Device
  | .port port => { s with surface := { s.surface with touchPortEvent := some port } }
  | .packet packet =>
    let s' := { s with
      surface := (called mouse s packet).1
      pointers := leaves packet.eventType packet.pointerId s.pointers }
    match s.touch, (called mouse s packet).2 with
    | some device, some call =>
      { s' with touch := some (call.run screen device), angles := s.angles ++ call.angle packet.rotation }
    | _, _ => s'

def start (surface : Surface) (touch : Option Device) : State Device := ⟨surface, touch, ∅, []⟩

def placed (s : State Device) : Set ℤ := s.touch.elim ∅ screen.fingers

/-- An angle of the device for a rotation, which up to 360 degrees has the same axis. -/
def Faithful (rotation : UInt16) (angle : ℤ) : Prop :=
  (-90 ≤ angle ∧ angle ≤ 90) ∧ (rotation ≤ 360 → (180 : ℤ) ∣ rotation.toNat - angle)

/-- The fingers placed are the pointers, and every angle is faithful. -/
structure Follows (s : State Device) : Prop where
  fingers : placed screen s = fingerNr '' s.pointers
  angles : ∀ call ∈ s.angles, Faithful call.1 call.2

/-- Nothing stops a packet before `touch::update`: the mouse option, a missing device, a touch port that is not set or has
no area. -/
abbrev Reaches (s : State Device) : Prop :=
  mouse = true ∧ s.touch.isSome ∧ s.surface.current.isSet ∧
    0 < monitorLogicalW s.surface.current ∧ 0 < monitorLogicalH s.surface.current

/-- Known, and up to 360 degrees in the upper half or straight down. -/
def Foldable (rotation : UInt16) : Prop :=
  rotation ≠ rotUnknown ∧
    (rotation ≤ 360 → rotation ≤ 90 ∨ rotation = 180 ∨ 270 ≤ rotation)

/-- A packet that gets through and places a finger has a foldable rotation, and one that cancels all finds no pointer; a
packet that is stopped, or has no device, changes no pointer. -/
def Handled (s : State Device) : Event → Prop
  | .port _ => True
  | .packet packet =>
    if Reaches mouse s then
      match packet.eventType with
      | .hover | .down | .move => Foldable packet.rotation
      | .cancelAll => s.pointers = ∅
      | .up | .cancel | .hoverLeave | .buttonOnly | .unknown => True
    else leaves packet.eventType packet.pointerId s.pointers = s.pointers

end Model

/-! ## Angles -/

theorem adjustedAngle_mem {rotation : ℤ} (hlow : 0 ≤ rotation) (hhigh : rotation < 360) :
    -90 ≤ adjustedAngle rotation ∧ adjustedAngle rotation ≤ 90 := by
  unfold adjustedAngle
  dsimp only
  split_ifs <;> omega

/-- The fold of the lower half mirrors the axis, save straight down. -/
theorem axis_adjustedAngle {rotation : ℤ} (hlow : 0 ≤ rotation) (hhigh : rotation < 360) :
    (180 : ℤ) ∣ rotation - adjustedAngle rotation ↔ rotation ≤ 90 ∨ rotation = 180 ∨ 270 ≤ rotation := by
  unfold adjustedAngle
  dsimp only
  split_ifs <;> omega

theorem normalRotation_toNat {rotation : UInt16} (hknown : rotation ≠ rotUnknown) :
    (normalRotation rotation).toNat = rotation.toNat % 360 := by
  rw [normalRotation, if_pos hknown]
  rfl

theorem faithful_iff (rotation : UInt16) :
    Faithful rotation (adjustedAngle (normalRotation rotation).toNat) ↔ Foldable rotation := by
  by_cases hknown : rotation = rotUnknown
  · subst hknown
    refine iff_of_false (fun h => ?_) fun h => h.1 rfl
    exact absurd h.1.2 (by decide)
  have hlow : (0 : ℤ) ≤ (rotation.toNat % 360 : ℕ) := Int.natCast_nonneg _
  have hhigh : ((rotation.toNat % 360 : ℕ) : ℤ) < 360 := by omega
  have haxis := axis_adjustedAngle hlow hhigh
  have hmem := adjustedAngle_mem hlow hhigh
  unfold Faithful Foldable
  rw [normalRotation_toNat hknown]
  simp only [hmem, hknown, true_and, ne_eq, not_false_eq_true, and_self]
  refine imp_congr_right fun hrotation => ?_
  -- a whole turn more or less is the same axis
  have hturn : (180 : ℤ) ∣ rotation.toNat - adjustedAngle (rotation.toNat % 360 : ℕ) ↔
      (180 : ℤ) ∣ (rotation.toNat % 360 : ℕ) - adjustedAngle (rotation.toNat % 360 : ℕ) := by omega
  have hrotation' : rotation.toNat ≤ 360 := hrotation
  rw [hturn, haxis, UInt16.le_iff_toNat_le, UInt16.le_iff_toNat_le, ← UInt16.toNat_inj]
  have h90 : (90 : UInt16).toNat = 90 := rfl
  have h180 : (180 : UInt16).toNat = 180 := rfl
  have h270 : (270 : UInt16).toNat = 270 := rfl
  rw [h90, h180, h270]
  omega

/-! ## Steps -/

theorem fingerNr_injective : Function.Injective fingerNr := fun _ _ h => congrArg Int32.toUInt32 (Int32.toInt_inj.mp h)

section Steps
variable {Device : Type} {screen : TouchScreen Device} {mouse : Bool} {s : State Device} {packet : TouchPacket}

theorem passthrough_isSome_iff (input : Surface) (packet : TouchPacket) :
    (passthrough mouse input packet).2.isSome = true ↔ mouse = true ∧ input.current.isSet = true ∧
      0 < monitorLogicalW input.current ∧ 0 < monitorLogicalH input.current := by
  unfold passthrough clientToTouchport
  cases mouse with
  | false => simp
  | true =>
    cases hset : input.current.isSet with
    | false => simp [hset]
    | true =>
      simp only [hset, if_true, not_true, if_false, Option.isSome_map, monitorTouchPort]
      split_ifs with harea
      · refine iff_of_false Bool.false_ne_true fun h => ?_
        exact harea.elim h.2.2.1.not_ge h.2.2.2.not_ge
      · obtain ⟨hw, hh⟩ := not_or.mp harea
        exact iff_of_true rfl ⟨trivial, trivial, not_le.mp hw, not_le.mp hh⟩

theorem passthrough_touch {input : Surface} {touch : TouchInput} (h : (passthrough mouse input packet).2 = some touch) :
    touch.eventType = packet.eventType ∧ touch.pointerId = packet.pointerId ∧
      touch.rotation = normalRotation packet.rotation := by
  unfold passthrough at h
  split_ifs at h with hmouse
  split at h
  · cases h
  · obtain ⟨port, -, rfl⟩ := Option.map_eq_some_iff.mp h
    exact ⟨rfl, rfl, rfl⟩

theorem called_current (s : State Device) (packet : TouchPacket) :
    (called mouse s packet).1.current = s.surface.current := by
  unfold called passthrough clientToTouchport
  dsimp only
  split_ifs <;> rfl

theorem next_called {device : Device} {call : Call} (hdevice : s.touch = some device)
    (hcall : (called mouse s packet).2 = some call) :
    next screen mouse s (.packet packet) = {
      surface := (called mouse s packet).1
      touch := some (call.run screen device)
      pointers := leaves packet.eventType packet.pointerId s.pointers
      angles := s.angles ++ call.angle packet.rotation } := by
  unfold next
  dsimp only
  rw [hdevice, hcall]

theorem next_uncalled (h : s.touch = none ∨ (called mouse s packet).2 = none) :
    next screen mouse s (.packet packet) = { s with
      surface := (called mouse s packet).1
      pointers := leaves packet.eventType packet.pointerId s.pointers } := by
  unfold next
  dsimp only
  split
  · next device call hdevice hcall =>
    exact absurd h (by rw [hdevice, hcall]; simp)
  · rfl

theorem called_of_reaches (h : Reaches mouse s) :
    ∃ device touch, s.touch = some device ∧ (called mouse s packet).2 = update touch ∧
      touch.eventType = packet.eventType ∧ touch.pointerId = packet.pointerId ∧
        touch.rotation = normalRotation packet.rotation := by
  obtain ⟨hmouse, hdevice, hport⟩ := h
  obtain ⟨device, hdevice⟩ := Option.isSome_iff_exists.mp hdevice
  obtain ⟨touch, htouch⟩ := Option.isSome_iff_exists.mp ((passthrough_isSome_iff s.surface packet).mpr ⟨hmouse, hport⟩)
  refine ⟨device, touch, hdevice, ?_, passthrough_touch htouch⟩
  unfold called
  dsimp only
  rw [htouch]
  rfl

theorem uncalled_of_stopped (h : ¬Reaches mouse s) : s.touch = none ∨ (called mouse s packet).2 = none := by
  cases hdevice : s.touch with
  | none => exact .inl rfl
  | some device =>
    have hstopped : (passthrough mouse s.surface packet).2 = none := by
      refine Option.not_isSome_iff_eq_none.mp fun hpassed => h ?_
      obtain ⟨hmouse, hport⟩ := (passthrough_isSome_iff s.surface packet).mp hpassed
      exact ⟨hmouse, by rw [hdevice]; rfl, hport⟩
    refine .inr ?_
    unfold called
    dsimp only
    rw [hstopped]
    rfl

theorem follows_pointers (h : Follows screen s) (surface : Surface) (pointers : Set UInt32) :
    Follows screen { s with surface := surface, pointers := pointers } ↔ pointers = s.pointers := by
  constructor
  · intro h'
    exact fingerNr_injective.image_injective (h'.fingers.symm.trans h.fingers)
  · rintro rfl
    exact ⟨h.fingers, h.angles⟩

theorem follows_place (h : Follows screen s) {device : Device} (hdevice : s.touch = some device) (surface : Surface)
    (pointerId : UInt32) (x y pressure : ℚ) (rotation : UInt16) (angle : ℤ) :
    Follows screen {
      surface := surface
      touch := some (screen.placeFinger device (fingerNr pointerId) x y pressure angle)
      pointers := insert pointerId s.pointers
      angles := s.angles ++ [(rotation, angle)] } ↔ Faithful rotation angle := by
  have hfingers : screen.fingers device = fingerNr '' s.pointers := by
    have h := h.fingers
    rwa [placed, hdevice] at h
  constructor
  · intro h'
    exact h'.angles (rotation, angle) (List.mem_append_right _ (List.mem_singleton.mpr rfl))
  · intro hfaithful
    constructor
    · show screen.fingers (screen.placeFinger _ _ _ _ _ _) = _
      rw [screen.fingers_place, hfingers, Set.image_insert_eq]
    · intro call hmem
      cases List.mem_append.mp hmem with
      | inl hmem => exact h.angles call hmem
      | inr hmem =>
        rw [List.mem_singleton.mp hmem]
        exact hfaithful

theorem follows_release (h : Follows screen s) {device : Device} (hdevice : s.touch = some device) (surface : Surface)
    (pointerId : UInt32) : Follows screen {
      surface := surface
      touch := some (screen.releaseFinger device (fingerNr pointerId))
      pointers := s.pointers \ {pointerId}
      angles := s.angles ++ [] } := by
  have hfingers : screen.fingers device = fingerNr '' s.pointers := by
    have h := h.fingers
    rwa [placed, hdevice] at h
  constructor
  · show screen.fingers (screen.releaseFinger _ _) = _
    rw [screen.fingers_release, hfingers, Set.image_sdiff fingerNr_injective, Set.image_singleton]
  · rw [List.append_nil]
    exact h.angles

/-- One event keeps the fingers with the client's exactly if it is handled. -/
theorem follows_next_iff (h : Follows screen s) (event : Event) :
    Follows screen (next screen mouse s event) ↔ Handled mouse s event := by
  cases event with
  | port port => exact iff_of_true ⟨h.fingers, h.angles⟩ trivial
  | packet packet =>
    unfold Handled
    dsimp only
    split_ifs with hreach
    · obtain ⟨device, touch, hdevice, hcalled, htype, hpointer, hrotation⟩ := @called_of_reaches _ mouse s packet hreach
      have hupdate := hcalled
      unfold update at hupdate
      rw [htype, hpointer, hrotation] at hupdate
      cases htype' : packet.eventType with
      | hover | down | move =>
        rw [htype'] at hupdate
        rw [next_called hdevice hupdate, htype']
        exact (follows_place h hdevice _ _ _ _ _ _ _).trans (faithful_iff packet.rotation)
      | up | cancel | hoverLeave =>
        rw [htype'] at hupdate
        rw [next_called hdevice hupdate, htype']
        exact iff_of_true (follows_release h hdevice _ _) trivial
      | cancelAll =>
        rw [htype'] at hupdate
        rw [next_uncalled (.inr hupdate), follows_pointers h, htype']
        exact eq_comm
      | buttonOnly | unknown =>
        rw [htype'] at hupdate
        rw [next_uncalled (.inr hupdate), follows_pointers h, htype']
        exact iff_of_true rfl trivial
    · rw [next_uncalled (uncalled_of_stopped hreach), follows_pointers h]

end Steps

/-! ## Runs -/

theorem follows_start {Device : Type} (screen : TouchScreen Device) (surface : Surface) {touch : Option Device}
    (hnew : ∀ device ∈ touch, screen.fingers device = ∅) : Follows screen (start surface touch) := by
  refine ⟨?_, fun _ hmem => (by cases hmem)⟩
  show touch.elim ∅ screen.fingers = fingerNr '' ∅
  rw [Set.image_empty]
  cases touch with
  | none => rfl
  | some device => exact hnew device rfl

/-- In a run from a new device, the fingers are those of the client after each event, with faithful angles, exactly if
every event is handled. -/
theorem fingers_follow_iff {Device : Type} (screen : TouchScreen Device) (mouse : Bool) (surface : Surface)
    (touch : Option Device) (hnew : ∀ device ∈ touch, screen.fingers device = ∅) (events : List Event) :
    (∀ before, before <+: events → Follows screen (before.foldl (next screen mouse) (start surface touch))) ↔
      Runs (Handled mouse) (next screen mouse) (start surface touch) events :=
  (runs_true events).always_iff (fun _ => True) (Follows screen) trivial (follows_start screen surface hnew)
    (fun _ _ _ _ => trivial) fun _ event _ h _ => follows_next_iff h event

/-! ## Fingers that stay -/

/-- A screen that is no more than its fingers. -/
def fingersOnly : TouchScreen (Set ℤ) where
  fingers := id
  placeFinger := fun fingers finger _ _ _ _ => insert finger fingers
  releaseFinger := fun fingers finger => fingers \ {finger}
  fingers_place := fun _ _ _ _ _ _ => rfl
  fingers_release := fun _ _ => rfl

def unitPort : Port where
  offsetX := 0
  offsetY := 0
  width := 1
  height := 1
  envWidth := 1
  envHeight := 1
  clientOffsetX := 0
  clientOffsetY := 0
  scalarInv := 1
  scalarTpcoords := 1
  envLogicalWidth := 0
  envLogicalHeight := 0

def straight (eventType : EventType) : Event := .packet ⟨eventType, 0, 7, 0, 0, 0⟩

def single : State (Set ℤ) := start ⟨none, unitPort⟩ (some ∅)

theorem unitPort_reaches {surface : Surface} (hport : surface.current = unitPort) (fingers : Set ℤ) (pointers : Set UInt32)
    (angles : List (UInt16 × ℤ)) : Reaches true (⟨surface, some fingers, pointers, angles⟩ : State (Set ℤ)) := by
  have harea : 0 < monitorLogicalW unitPort ∧ 0 < monitorLogicalH unitPort := by
    norm_num [monitorLogicalW, monitorLogicalH, unitPort]
  refine ⟨rfl, rfl, ?_⟩
  rw [hport]
  exact ⟨rfl, harea⟩

theorem single_down : ∃ surface angles, surface.current = unitPort ∧
    next fingersOnly true single (straight .down) = ⟨surface, some (insert 7 ∅), insert 7 ∅, angles⟩ := by
  have hreach : Reaches true single := unitPort_reaches rfl _ _ _
  obtain ⟨device, touch, hdevice, hcalled, htype, hpointer, -⟩ :=
    @called_of_reaches _ true single ⟨.down, 0, 7, 0, 0, 0⟩ hreach
  obtain rfl := Option.some.inj hdevice
  unfold update at hcalled
  rw [htype, hpointer] at hcalled
  exact ⟨_, _, called_current single ⟨.down, 0, 7, 0, 0, 0⟩, next_called hdevice hcalled⟩

theorem single_touch_follows :
    Follows fingersOnly ([straight .down, straight .up].foldl (next fingersOnly true) single) := by
  refine (fingers_follow_iff fingersOnly true ⟨none, unitPort⟩ (some ∅) ?_ [straight .down, straight .up]).mpr ?_ _
    (List.prefix_refl _)
  · intro device hdevice
    exact (Option.some.inj hdevice).symm
  · obtain ⟨surface, angles, hport, hnext⟩ := single_down
    refine ⟨(if_pos (unitPort_reaches rfl _ _ _)).mpr ⟨by decide, fun _ => .inl (by decide)⟩, ?_, trivial⟩
    show Handled true (next fingersOnly true single (straight .down)) _
    rw [hnext]
    exact (if_pos (unitPort_reaches hport _ _ _)).mpr trivial

/-- The finger of a touch that is cancelled with all others stays placed. -/
theorem cancelled_finger_stays : ¬∀ events before : List Event, before <+: events →
    Follows fingersOnly (before.foldl (next fingersOnly true) single) := by
  intro hall
  have hdown := hall [straight .down] _ (List.prefix_refl _)
  have hboth := hall [straight .down, straight .cancelAll] _ (List.prefix_refl _)
  obtain ⟨surface, angles, hport, hnext⟩ := single_down
  simp only [List.foldl_cons, List.foldl_nil] at hdown hboth
  rw [hnext] at hdown hboth
  have hcancel := (if_pos (unitPort_reaches hport _ _ _)).mp ((follows_next_iff hdown _).mp hboth)
  exact absurd hcancel ((Set.insert_nonempty 7 ∅).ne_empty)

end Sunshine.TouchFingers
