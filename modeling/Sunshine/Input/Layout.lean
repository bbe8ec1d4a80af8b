import Sunshine.Input.Batch
import Sunshine.Lib.Bytes
import Sunshine.Lib.Outcomes

/-! Input packets as byte vectors, cast to the struct that their magic stands for.

A `Layout` says where the fields of each struct lie; the structs themselves are declared outside of this
repository. Reads and writes fail where the vector ends. `Complete` says which vectors are long enough. -/
namespace Sunshine.Casts
open Bytes Input Outcomes
set_option autoImplicit false

/-! ## Bytes -/

abbrev Vec := List UInt8

inductive Fault where
  | outOfBounds
  | lengthError
  deriving DecidableEq

structure Field where
  offset : ℕ
  width : ℕ
  deriving DecidableEq

def Field.stop (f : Field) : ℕ := f.offset + f.width

def slice (v : Vec) (f : Field) : Vec := (v.drop f.offset).take f.width

def overwrite (v : Vec) (f : Field) (bytes : Vec) : Vec :=
  v.take f.offset ++ (bytes ++ List.replicate f.width 0).take f.width ++ v.drop f.stop

def read (v : Vec) (f : Field) : Except Fault Vec :=
  if f.stop ≤ v.length then .ok (slice v f) else .error .outOfBounds

def write (v : Vec) (f : Field) (bytes : Vec) : Except Fault Vec :=
  if f.stop ≤ v.length then .ok (overwrite v f bytes) else .error .outOfBounds

def readAll (v : Vec) (fields : List Field) : Except Fault Unit :=
  forM fields fun f => do
    let _ ← read v f
    pure ()

@[simp] theorem yields_read {v : Vec} {f : Field} {post : Vec → Prop} :
    Yields (read v f) post ↔ f.stop ≤ v.length ∧ post (slice v f) := by
  unfold read
  by_cases h : f.stop ≤ v.length
  · simp [h]
  · simp [h]

@[simp] theorem yields_write {v : Vec} {f : Field} {bytes : Vec} {post : Vec → Prop} :
    Yields (write v f bytes) post ↔ f.stop ≤ v.length ∧ post (overwrite v f bytes) := by
  unfold write
  by_cases h : f.stop ≤ v.length
  · simp [h]
  · simp [h]

@[simp] theorem yields_readAll {v : Vec} {fields : List Field} :
    Yields (readAll v fields) (fun _ => True) ↔ ∀ f ∈ fields, f.stop ≤ v.length :=
  yields_forM fun f => by
    rw [yields_bind, yields_read]
    simp

theorem length_overwrite {v : Vec} {f : Field} (bytes : Vec) (h : f.stop ≤ v.length) :
    (overwrite v f bytes).length = v.length := by
  unfold Field.stop at h
  unfold overwrite Field.stop
  simp only [List.length_append, List.length_take, List.length_replicate, List.length_drop]
  omega

/-- A field in front of the written one keeps its value. -/
theorem slice_overwrite_before {v : Vec} {f g : Field} (bytes : Vec) (hf : f.stop ≤ v.length)
    (hg : g.stop ≤ f.offset) : slice (overwrite v f bytes) g = slice v g := by
  unfold Field.stop at hf hg
  unfold slice overwrite
  rw [List.append_assoc, List.drop_append_of_le_length (by rw [List.length_take]; omega),
    List.take_append_of_le_length (by rw [List.length_drop, List.length_take]; omega), List.drop_take,
    List.take_take, Nat.min_eq_left (by omega)]

/-- Of a packet copied as a whole the fields are those of the source. -/
theorem slice_overwrite_whole {dest src : Vec} {g : Field} {size : ℕ} (hsrc : size ≤ src.length)
    (hg : g.stop ≤ size) : slice (overwrite dest ⟨0, size⟩ (slice src ⟨0, size⟩)) g = slice src g := by
  unfold Field.stop at hg
  have hcopied : overwrite dest ⟨0, size⟩ (slice src ⟨0, size⟩) = src.take size ++ dest.drop size := by
    have hlength : (src.take size).length = size := by
      rw [List.length_take]
      omega
    simp [overwrite, slice, Field.stop, hlength]
  rw [hcopied]
  unfold slice
  rw [List.drop_append_of_le_length (by rw [List.length_take]; omega),
    List.take_append_of_le_length (by rw [List.length_drop, List.length_take]; omega), List.drop_take,
    List.take_take, Nat.min_eq_left (by omega)]

/-! ## Numbers -/

def little (bytes : Vec) : ℕ := leValue bytes

def big (bytes : Vec) : ℕ := leValue bytes.reverse

def bigUInt32 (bytes : Vec) : UInt32 := UInt32.ofNat (big bytes)

def bigShort (bytes : Vec) : Int16 := Int16.ofNat (big bytes)

def bigShortBytes (v : Int16) : Vec := (leBytes 2 v.toUInt16.toNat).reverse

def littleShort (bytes : Vec) : Int16 := Int16.ofNat (little bytes)

/-! ## Structs -/

structure Header where
  size : Field
  magic : Field

structure RelMouseMove where
  deltaX : Field
  deltaY : Field

structure AbsMouseMove where
  x : Field
  y : Field
  width : Field
  height : Field
  sizeof : ℕ

structure MouseButton where
  button : Field

structure Scroll where
  scrollAmt1 : Field
  scrollAmt2 : Field

structure HScroll where
  scrollAmount : Field

structure Keyboard where
  flags : Field
  keyCode : Field
  modifiers : Field

structure Unicode where
  text : ℕ

structure MultiController where
  controllerNumber : Field
  activeGamepadMask : Field
  buttonFlags : Field
  leftTrigger : Field
  rightTrigger : Field
  leftStickX : Field
  leftStickY : Field
  rightStickX : Field
  rightStickY : Field
  buttonFlags2 : Field
  sizeof : ℕ

structure Touch where
  eventType : Field
  rotation : Field
  pointerId : Field
  x : Field
  y : Field
  pressureOrDistance : Field
  contactAreaMajor : Field
  contactAreaMinor : Field
  sizeof : ℕ

structure Pen where
  eventType : Field
  toolType : Field
  penButtons : Field
  x : Field
  y : Field
  pressureOrDistance : Field
  rotation : Field
  tilt : Field
  contactAreaMajor : Field
  contactAreaMinor : Field
  sizeof : ℕ

structure ControllerArrival where
  controllerNumber : Field
  type : Field
  capabilities : Field
  supportedButtonFlags : Field

structure ControllerTouch where
  controllerNumber : Field
  eventType : Field
  pointerId : Field
  x : Field
  y : Field
  pressure : Field
  sizeof : ℕ

structure ControllerMotion where
  controllerNumber : Field
  motionType : Field
  x : Field
  y : Field
  z : Field
  sizeof : ℕ

structure ControllerBattery where
  controllerNumber : Field
  batteryState : Field
  batteryPercentage : Field

/-- The structs, the constants of `header.magic`, and the event types that move a touch. -/
structure Layout where
  header : Header
  relMouseMove : RelMouseMove
  absMouseMove : AbsMouseMove
  mouseButton : MouseButton
  scroll : Scroll
  hscroll : HScroll
  keyboard : Keyboard
  unicode : Unicode
  multiController : MultiController
  touch : Touch
  pen : Pen
  controllerArrival : ControllerArrival
  controllerTouch : ControllerTouch
  controllerMotion : ControllerMotion
  controllerBattery : ControllerBattery
  magicOf : ℕ → Magic
  touchEventHover : ℕ
  touchEventMove : ℕ

def whole (sizeof : ℕ) : Field := ⟨0, sizeof⟩

/-- What is read or written of a packet behind its header; the packet as a whole where batching copies it. -/
def Layout.fields (L : Layout) : Magic → List Field
  | .mouseMoveRel => [L.relMouseMove.deltaX, L.relMouseMove.deltaY]
  | .mouseMoveAbs =>
    [L.absMouseMove.x, L.absMouseMove.y, L.absMouseMove.width, L.absMouseMove.height,
      whole L.absMouseMove.sizeof]
  | .mouseButtonDown | .mouseButtonUp => [L.mouseButton.button]
  | .scroll => [L.scroll.scrollAmt1, L.scroll.scrollAmt2]
  | .hscroll => [L.hscroll.scrollAmount]
  | .keyDown | .keyUp => [L.keyboard.flags, L.keyboard.keyCode, L.keyboard.modifiers]
  | .utf8Text => [L.header.size]
  | .multiController =>
    [L.multiController.controllerNumber, L.multiController.activeGamepadMask, L.multiController.buttonFlags,
      L.multiController.leftTrigger, L.multiController.rightTrigger, L.multiController.leftStickX,
      L.multiController.leftStickY, L.multiController.rightStickX, L.multiController.rightStickY,
      L.multiController.buttonFlags2, whole L.multiController.sizeof]
  | .touch =>
    [L.touch.eventType, L.touch.rotation, L.touch.pointerId, L.touch.x, L.touch.y,
      L.touch.pressureOrDistance, L.touch.contactAreaMajor, L.touch.contactAreaMinor, whole L.touch.sizeof]
  | .pen =>
    [L.pen.eventType, L.pen.toolType, L.pen.penButtons, L.pen.x, L.pen.y, L.pen.pressureOrDistance,
      L.pen.rotation, L.pen.tilt, L.pen.contactAreaMajor, L.pen.contactAreaMinor, whole L.pen.sizeof]
  | .controllerArrival =>
    [L.controllerArrival.controllerNumber, L.controllerArrival.type, L.controllerArrival.capabilities,
      L.controllerArrival.supportedButtonFlags]
  | .controllerTouch =>
    [L.controllerTouch.controllerNumber, L.controllerTouch.eventType, L.controllerTouch.pointerId,
      L.controllerTouch.x, L.controllerTouch.y, L.controllerTouch.pressure, whole L.controllerTouch.sizeof]
  | .controllerMotion =>
    [L.controllerMotion.controllerNumber, L.controllerMotion.motionType, L.controllerMotion.x,
      L.controllerMotion.y, L.controllerMotion.z, whole L.controllerMotion.sizeof]
  | .controllerBattery =>
    [L.controllerBattery.controllerNumber, L.controllerBattery.batteryState,
      L.controllerBattery.batteryPercentage]
  | .other => []

/-- The fields lie behind the header, and a struct that is copied ends with its last field, except for a
controller's, which has padding behind it. -/
structure Layout.Packed (L : Layout) : Prop where
  behindHeader : ∀ f ∈ [L.relMouseMove.deltaX, L.relMouseMove.deltaY, L.scroll.scrollAmt1,
    L.scroll.scrollAmt2, L.hscroll.scrollAmount], L.header.magic.stop ≤ f.offset
  controller : L.header.magic.stop ≤ L.multiController.sizeof
  ends : ∀ p ∈ [(L.absMouseMove.height, L.absMouseMove.sizeof), (L.touch.contactAreaMinor, L.touch.sizeof),
      (L.pen.contactAreaMinor, L.pen.sizeof), (L.controllerTouch.pressure, L.controllerTouch.sizeof),
      (L.controllerMotion.z, L.controllerMotion.sizeof)],
    L.header.magic.stop ≤ p.1.stop ∧ p.1.stop = p.2

def magicAt (L : Layout) (v : Vec) : Magic := L.magicOf (little (slice v L.header.magic))

def sizeAt (L : Layout) (v : Vec) : ℕ := (bigUInt32 (slice v L.header.size)).toNat

/-- The text of a unicode packet ends inside the vector, and its length fits an `int`. -/
def TextInside (L : Layout) (v : Vec) : Prop :=
  magicSize ≤ sizeAt L v ∧ L.unicode.text + (sizeAt L v - magicSize) ≤ v.length ∧
    sizeAt L v - magicSize ≤ 2147483647

structure Complete (L : Layout) (v : Vec) : Prop where
  header : L.header.magic.stop ≤ v.length
  fields : ∀ f ∈ L.fields (magicAt L v), f.stop ≤ v.length
  text : magicAt L v = .utf8Text → TextInside L v

end Sunshine.Casts
