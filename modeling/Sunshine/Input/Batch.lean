import Sunshine.Input.Drain
import Sunshine.Lib.Coalesce
import Mathlib.Logic.Function.Iterate

/-! Batching of input packets (`input::batch` and the loop of `passthrough_queued_messages`).

Packets carry what batching and the handlers read of them. `batch_lawful` says what one call may do:
merge a later packet of the same device, leave a packet of another device, or stop. -/
namespace Sunshine.Batching
open Coalesce Input
open scoped List
set_option autoImplicit false

/-! ## Packets -/

structure RelMouseMove where
  deltaX : Int16
  deltaY : Int16
  deriving DecidableEq

structure AbsMouseMove where
  x : Int16
  y : Int16
  width : Int16
  height : Int16
  deriving DecidableEq

structure MouseButton where
  release : Bool
  button : UInt8
  deriving DecidableEq

structure Scroll where
  scrollAmt1 : Int16
  scrollAmt2 : Int16
  deriving DecidableEq

structure HScroll where
  scrollAmount : Int16
  deriving DecidableEq

structure Keyboard where
  release : Bool
  flags : UInt8
  keyCode : UInt16
  modifiers : UInt8
  deriving DecidableEq

structure MultiController where
  controllerNumber : Int16
  activeGamepadMask : Int16
  buttonFlags : UInt16
  leftTrigger : UInt8
  rightTrigger : UInt8
  leftStickX : Int16
  leftStickY : Int16
  rightStickX : Int16
  rightStickY : Int16
  buttonFlags2 : UInt16
  deriving DecidableEq

inductive TouchEvent where
  | move
  | hover
  | other (eventType : UInt8)
  deriving DecidableEq

/-- Only these are batched. -/
def TouchEvent.moves : TouchEvent → Bool
  | .move | .hover => true
  | .other _ => false

/-- Coordinates are four bytes each, little-endian floats. -/
abbrev NetFloat := UInt32

structure Touch where
  eventType : TouchEvent
  rotation : UInt16
  pointerId : UInt32
  x : NetFloat
  y : NetFloat
  pressureOrDistance : NetFloat
  contactAreaMajor : NetFloat
  contactAreaMinor : NetFloat
  deriving DecidableEq

structure Pen where
  eventType : TouchEvent
  toolType : UInt8
  penButtons : UInt8
  x : NetFloat
  y : NetFloat
  pressureOrDistance : NetFloat
  rotation : UInt16
  tilt : UInt8
  contactAreaMajor : NetFloat
  contactAreaMinor : NetFloat
  deriving DecidableEq

structure ControllerTouch where
  controllerNumber : UInt8
  eventType : TouchEvent
  pointerId : UInt32
  x : NetFloat
  y : NetFloat
  pressure : NetFloat
  deriving DecidableEq

structure ControllerMotion where
  controllerNumber : UInt8
  motionType : UInt8
  x : NetFloat
  y : NetFloat
  z : NetFloat
  deriving DecidableEq

structure ControllerArrival where
  controllerNumber : UInt8
  type : UInt8
  capabilities : UInt16
  supportedButtonFlags : UInt32
  deriving DecidableEq

structure ControllerBattery where
  controllerNumber : UInt8
  batteryState : UInt8
  batteryPercentage : UInt8
  deriving DecidableEq

inductive Packet where
  | relMouseMove (packet : RelMouseMove)
  | absMouseMove (packet : AbsMouseMove)
  | mouseButton (packet : MouseButton)
  | scroll (packet : Scroll)
  | hscroll (packet : HScroll)
  | keyboard (packet : Keyboard)
  | unicode (text : List UInt8)
  | multiController (packet : MultiController)
  | touch (packet : Touch)
  | pen (packet : Pen)
  | controllerArrival (packet : ControllerArrival)
  | controllerTouch (packet : ControllerTouch)
  | controllerMotion (packet : ControllerMotion)
  | controllerBattery (packet : ControllerBattery)
  | other (magic : UInt32)
  deriving DecidableEq

def Packet.magic : Packet → Magic
  | .relMouseMove _ => .mouseMoveRel
  | .absMouseMove _ => .mouseMoveAbs
  | .mouseButton p => if p.release then .mouseButtonUp else .mouseButtonDown
  | .scroll _ => .scroll
  | .hscroll _ => .hscroll
  | .keyboard p => if p.release then .keyUp else .keyDown
  | .unicode _ => .utf8Text
  | .multiController _ => .multiController
  | .touch _ => .touch
  | .pen _ => .pen
  | .controllerArrival _ => .controllerArrival
  | .controllerTouch _ => .controllerTouch
  | .controllerMotion _ => .controllerMotion
  | .controllerBattery _ => .controllerBattery
  | .other _ => .other

/-! ## Batching two packets -/

/-- `__builtin_add_overflow` into a `short`. -/
def addOverflow (a b : Int16) : Option Int16 :=
  if -32768 ≤ a.toInt + b.toInt ∧ a.toInt + b.toInt ≤ 32767 then some (Int16.ofInt (a.toInt + b.toInt))
  else none

def batchRelMouseMove (dest src : RelMouseMove) : Verdict Packet :=
  match addOverflow dest.deltaX src.deltaX, addOverflow dest.deltaY src.deltaY with
  | some deltaX, some deltaY => .batched (.relMouseMove ⟨deltaX, deltaY⟩)
  | _, _ => .terminateBatch

def batchAbsMouseMove (dest src : AbsMouseMove) : Verdict Packet :=
  if dest.width ≠ src.width ∨ dest.height ≠ src.height then .terminateBatch
  else .batched (.absMouseMove src)

def batchScroll (dest src : Scroll) : Verdict Packet :=
  match addOverflow dest.scrollAmt1 src.scrollAmt1 with
  | some scrollAmt => .batched (.scroll ⟨scrollAmt, scrollAmt⟩)
  | none => .terminateBatch

def batchHScroll (dest src : HScroll) : Verdict Packet :=
  match addOverflow dest.scrollAmount src.scrollAmount with
  | some scrollAmt => .batched (.hscroll ⟨scrollAmt⟩)
  | none => .terminateBatch

def batchMultiController (dest src : MultiController) : Verdict Packet :=
  if dest.activeGamepadMask ≠ src.activeGamepadMask then .terminateBatch
  else if dest.controllerNumber ≠ src.controllerNumber then .notBatchable
  else if dest.buttonFlags ≠ src.buttonFlags ∨ dest.buttonFlags2 ≠ src.buttonFlags2 then .terminateBatch
  else .batched (.multiController src)

def batchTouch (dest src : Touch) : Verdict Packet :=
  if !dest.eventType.moves then .terminateBatch
  else if !src.eventType.moves then .terminateBatch
  else if dest.pointerId ≠ src.pointerId then .notBatchable
  else if dest.eventType ≠ src.eventType then .terminateBatch
  else .batched (.touch src)

def batchPen (dest src : Pen) : Verdict Packet :=
  if !dest.eventType.moves then .terminateBatch
  else if dest.eventType ≠ src.eventType then .terminateBatch
  else if dest.penButtons ≠ src.penButtons then .terminateBatch
  else if dest.toolType ≠ src.toolType then .terminateBatch
  else .batched (.pen src)

def batchControllerTouch (dest src : ControllerTouch) : Verdict Packet :=
  if !dest.eventType.moves then .terminateBatch
  else if dest.controllerNumber ≠ src.controllerNumber then .notBatchable
  else if !src.eventType.moves then .terminateBatch
  else if dest.pointerId ≠ src.pointerId then .notBatchable
  else if dest.eventType ≠ src.eventType then .terminateBatch
  else .batched (.controllerTouch src)

def batchControllerMotion (dest src : ControllerMotion) : Verdict Packet :=
  if dest.controllerNumber ≠ src.controllerNumber then .notBatchable
  else if dest.motionType ≠ src.motionType then .notBatchable
  else .batched (.controllerMotion src)

def batch (dest src : Packet) : Verdict Packet :=
  if dest.magic ≠ src.magic then .terminateBatch
  else
    match dest, src with
    | .relMouseMove dest, .relMouseMove src => batchRelMouseMove dest src
    | .absMouseMove dest, .absMouseMove src => batchAbsMouseMove dest src
    | .scroll dest, .scroll src => batchScroll dest src
    | .hscroll dest, .hscroll src => batchHScroll dest src
    | .multiController dest, .multiController src => batchMultiController dest src
    | .touch dest, .touch src => batchTouch dest src
    | .pen dest, .pen src => batchPen dest src
    | .controllerTouch dest, .controllerTouch src => batchControllerTouch dest src
    | .controllerMotion dest, .controllerMotion src => batchControllerMotion dest src
    | _, _ => .terminateBatch

/-! ## The queue -/

/-- A queue entry, with the positions of the packets it stands for. -/
structure Entry where
  packet : Packet
  origins : List ℕ
  deriving DecidableEq

def batchEntry (dest src : Entry) : Verdict Entry :=
  match batch dest.packet src.packet with
  | .batched packet => .batched ⟨packet, dest.origins ++ src.origins⟩
  | .notBatchable => .notBatchable
  | .terminateBatch => .terminateBatch

/-- `queued` and `passed` record what was queued and passed on so far. -/
structure State where
  queued : List Packet
  inputQueue : List Entry
  passed : List Entry

/-- Takes the first entry, batches later ones into it, and passes it on. -/
def passthroughNextMessage (s : State) : State :=
  match s.inputQueue with
  | [] => s
  | entry :: rest =>
    let taken := coalesce batchEntry entry rest
    { s with inputQueue := taken.2, passed := s.passed ++ [taken.1] }

/-- One drain, of at most `maxMessages` messages. -/
def passthroughQueuedMessages (maxMessages : ℕ) (s : State) : State :=
  passthroughNextMessage^[maxMessages] s

inductive Event where
  | passthrough (packet : Packet)
  | drain (maxMessages : ℕ)

def step (s : State) : Event → State
  | .passthrough packet =>
    { s with
      queued := s.queued ++ [packet]
      inputQueue := s.inputQueue ++ [⟨packet, [s.queued.length]⟩] }
  | .drain maxMessages => passthroughQueuedMessages maxMessages s

def initial : State := ⟨[], [], []⟩

/-! ## Devices -/

inductive Device where
  | relMouse
  | absMouse
  | vscroll
  | hscroll
  | controller (controllerNumber : Int16)
  | touch (pointerId : UInt32)
  | pen
  | controllerTouch (controllerNumber : UInt8) (pointerId : UInt32)
  | controllerMotion (controllerNumber : UInt8) (motionType : UInt8)
  | unbatched
  deriving DecidableEq

def Packet.device : Packet → Device
  | .relMouseMove _ => .relMouse
  | .absMouseMove _ => .absMouse
  | .scroll _ => .vscroll
  | .hscroll _ => .hscroll
  | .multiController p => .controller p.controllerNumber
  | .touch p => .touch p.pointerId
  | .pen _ => .pen
  | .controllerTouch p => .controllerTouch p.controllerNumber p.pointerId
  | .controllerMotion p => .controllerMotion p.controllerNumber p.motionType
  | _ => .unbatched

/-- The mask of the active controllers, in the packets that have one. -/
def Packet.activeMask : Packet → Option Int16
  | .multiController p => some p.activeGamepadMask
  | _ => none

/-- Samples of one device with the same buttons and state. -/
inductive SameState : Packet → Packet → Prop
  | absMouseMove {a b : AbsMouseMove} : a.width = b.width → a.height = b.height →
      SameState (.absMouseMove a) (.absMouseMove b)
  | multiController {a b : MultiController} : a.controllerNumber = b.controllerNumber →
      a.activeGamepadMask = b.activeGamepadMask → a.buttonFlags = b.buttonFlags →
      a.buttonFlags2 = b.buttonFlags2 → SameState (.multiController a) (.multiController b)
  | touch {a b : Touch} : a.pointerId = b.pointerId → a.eventType = b.eventType →
      a.eventType.moves = true → SameState (.touch a) (.touch b)
  | pen {a b : Pen} : a.eventType = b.eventType → a.eventType.moves = true →
      a.penButtons = b.penButtons → a.toolType = b.toolType → SameState (.pen a) (.pen b)
  | controllerTouch {a b : ControllerTouch} : a.controllerNumber = b.controllerNumber →
      a.pointerId = b.pointerId → a.eventType = b.eventType → a.eventType.moves = true →
      SameState (.controllerTouch a) (.controllerTouch b)
  | controllerMotion {a b : ControllerMotion} : a.controllerNumber = b.controllerNumber →
      a.motionType = b.motionType → SameState (.controllerMotion a) (.controllerMotion b)

/-- Relative deltas are summed, as integers, and a sample is replaced by a later one in the same state. -/
inductive Merge : Packet → Packet → Packet → Prop
  | relMouseMove {a b c : RelMouseMove} : c.deltaX.toInt = a.deltaX.toInt + b.deltaX.toInt →
      c.deltaY.toInt = a.deltaY.toInt + b.deltaY.toInt →
      Merge (.relMouseMove a) (.relMouseMove b) (.relMouseMove c)
  | scroll {a b c : Scroll} : c.scrollAmt1.toInt = a.scrollAmt1.toInt + b.scrollAmt1.toInt →
      c.scrollAmt2 = c.scrollAmt1 → Merge (.scroll a) (.scroll b) (.scroll c)
  | hscroll {a b c : HScroll} : c.scrollAmount.toInt = a.scrollAmount.toInt + b.scrollAmount.toInt →
      Merge (.hscroll a) (.hscroll b) (.hscroll c)
  | sample {a b : Packet} : SameState a b → Merge a b b

/-- A packet may pass another of its type, of another device: a controller sample under the same mask, a
touch sample a touch sample, and a sample of a controller's touchpad or sensor any such packet. -/
def MayOvertake (p q : Packet) : Prop :=
  match p.device, q with
  | .controller controllerNumber, .multiController q =>
    controllerNumber ≠ q.controllerNumber ∧ p.activeMask = some q.activeGamepadMask
  | .touch pointerId, .touch q => pointerId ≠ q.pointerId ∧ q.eventType.moves = true
  | .controllerTouch controllerNumber pointerId, .controllerTouch q =>
    controllerNumber ≠ q.controllerNumber ∨ pointerId ≠ q.pointerId ∧ q.eventType.moves = true
  | .controllerMotion controllerNumber motionType, .controllerMotion q =>
    controllerNumber ≠ q.controllerNumber ∨ motionType ≠ q.motionType
  | _, _ => False

/-- A packet that the walk goes on behind. -/
def Near (p q : Packet) : Prop := q.activeMask = p.activeMask ∧ (q.device ≠ p.device → MayOvertake p q)

/-- `MayOvertake` is about the device and the mask of the packet that overtakes. -/
theorem mayOvertake_congr {p p' q : Packet} (hdevice : p.device = p'.device)
    (hmask : p.activeMask = p'.activeMask) (h : MayOvertake p q) : MayOvertake p' q := by
  unfold MayOvertake at h ⊢
  rwa [← hdevice, ← hmask]

/-! ## The laws of `batch` -/

theorem addOverflow_some {a b c : Int16} (h : addOverflow a b = some c) :
    c.toInt = a.toInt + b.toInt := by
  unfold addOverflow at h
  split_ifs at h with hrange
  rw [← Option.some.inj h, Int16.toInt_ofInt_of_le (by omega) (by omega)]

/-- What batching does to a packet and a later one. -/
def Lawful (dest src : Packet) : Verdict Packet → Prop
  | .batched c => src.device = dest.device ∧ c.device = dest.device ∧ Merge dest src c ∧
      src.activeMask = dest.activeMask ∧ c.activeMask = dest.activeMask
  | .notBatchable => src.device ≠ dest.device ∧ src.activeMask = dest.activeMask ∧ MayOvertake dest src
  | .terminateBatch => True

theorem batchRelMouseMove_lawful (dest src : RelMouseMove) :
    Lawful (.relMouseMove dest) (.relMouseMove src) (batchRelMouseMove dest src) := by
  unfold batchRelMouseMove
  split
  · rename_i deltaX deltaY hx hy
    exact ⟨rfl, rfl, .relMouseMove (addOverflow_some hx) (addOverflow_some hy), rfl, rfl⟩
  · trivial

theorem batchAbsMouseMove_lawful (dest src : AbsMouseMove) :
    Lawful (.absMouseMove dest) (.absMouseMove src) (batchAbsMouseMove dest src) := by
  unfold batchAbsMouseMove
  split_ifs with hsize
  · trivial
  · obtain ⟨hwidth, hheight⟩ := not_or.mp hsize
    exact ⟨rfl, rfl, .sample (.absMouseMove (not_not.mp hwidth) (not_not.mp hheight)), rfl, rfl⟩

theorem batchScroll_lawful (dest src : Scroll) :
    Lawful (.scroll dest) (.scroll src) (batchScroll dest src) := by
  unfold batchScroll
  split
  · rename_i scrollAmt hsum
    exact ⟨rfl, rfl, .scroll (addOverflow_some hsum) rfl, rfl, rfl⟩
  · trivial

theorem batchHScroll_lawful (dest src : HScroll) :
    Lawful (.hscroll dest) (.hscroll src) (batchHScroll dest src) := by
  unfold batchHScroll
  split
  · rename_i scrollAmt hsum
    exact ⟨rfl, rfl, .hscroll (addOverflow_some hsum), rfl, rfl⟩
  · trivial

theorem batchMultiController_lawful (dest src : MultiController) :
    Lawful (.multiController dest) (.multiController src) (batchMultiController dest src) := by
  unfold batchMultiController
  split_ifs with hmask hnumber hbuttons
  · trivial
  · have hmask := not_not.mp hmask
    refine ⟨fun h => hnumber (Device.controller.inj h).symm, congrArg some hmask.symm, hnumber, congrArg some hmask⟩
  · trivial
  · obtain ⟨hflags, hflags2⟩ := not_or.mp hbuttons
    have hmask := not_not.mp hmask
    have hnumber := not_not.mp hnumber
    exact ⟨congrArg Device.controller hnumber.symm, congrArg Device.controller hnumber.symm,
      .sample (.multiController hnumber hmask (not_not.mp hflags) (not_not.mp hflags2)),
      congrArg some hmask.symm, congrArg some hmask.symm⟩

theorem batchTouch_lawful (dest src : Touch) :
    Lawful (.touch dest) (.touch src) (batchTouch dest src) := by
  unfold batchTouch
  split_ifs with hdest hsrc hpointer htype
  · trivial
  · trivial
  · exact ⟨fun h => hpointer (Device.touch.inj h).symm, rfl, hpointer, by simpa using hsrc⟩
  · trivial
  · have hpointer := not_not.mp hpointer
    exact ⟨congrArg Device.touch hpointer.symm, congrArg Device.touch hpointer.symm,
      .sample (.touch hpointer (not_not.mp htype) (by simpa using hdest)), rfl, rfl⟩

theorem batchPen_lawful (dest src : Pen) : Lawful (.pen dest) (.pen src) (batchPen dest src) := by
  unfold batchPen
  split_ifs with hdest htype hbuttons htool
  · trivial
  · trivial
  · trivial
  · trivial
  · exact ⟨rfl, rfl, .sample (.pen (not_not.mp htype) (by simpa using hdest) (not_not.mp hbuttons)
      (not_not.mp htool)), rfl, rfl⟩

theorem batchControllerTouch_lawful (dest src : ControllerTouch) :
    Lawful (.controllerTouch dest) (.controllerTouch src) (batchControllerTouch dest src) := by
  unfold batchControllerTouch
  split_ifs with hdest hnumber hsrc hpointer htype
  · trivial
  · exact ⟨fun h => hnumber (Device.controllerTouch.inj h).1.symm, rfl, .inl hnumber⟩
  · trivial
  · exact ⟨fun h => hpointer (Device.controllerTouch.inj h).2.symm, rfl,
      .inr ⟨hpointer, by simpa using hsrc⟩⟩
  · trivial
  · have hdevice : (Packet.controllerTouch src).device = (Packet.controllerTouch dest).device :=
      congrArg₂ Device.controllerTouch (not_not.mp hnumber).symm (not_not.mp hpointer).symm
    exact ⟨hdevice, hdevice, .sample (.controllerTouch (not_not.mp hnumber) (not_not.mp hpointer)
      (not_not.mp htype) (by simpa using hdest)), rfl, rfl⟩

theorem batchControllerMotion_lawful (dest src : ControllerMotion) :
    Lawful (.controllerMotion dest) (.controllerMotion src) (batchControllerMotion dest src) := by
  unfold batchControllerMotion
  split_ifs with hnumber htype
  · exact ⟨fun h => hnumber (Device.controllerMotion.inj h).1.symm, rfl, .inl hnumber⟩
  · exact ⟨fun h => htype (Device.controllerMotion.inj h).2.symm, rfl, .inr htype⟩
  · have hdevice : (Packet.controllerMotion src).device = (Packet.controllerMotion dest).device :=
      congrArg₂ Device.controllerMotion (not_not.mp hnumber).symm (not_not.mp htype).symm
    exact ⟨hdevice, hdevice, .sample (.controllerMotion (not_not.mp hnumber) (not_not.mp htype)), rfl, rfl⟩

theorem batch_lawful (dest src : Packet) : Lawful dest src (batch dest src) := by
  unfold batch
  split_ifs with hmagic
  · trivial
  · split
    · exact batchRelMouseMove_lawful _ _
    · exact batchAbsMouseMove_lawful _ _
    · exact batchScroll_lawful _ _
    · exact batchHScroll_lawful _ _
    · exact batchMultiController_lawful _ _
    · exact batchTouch_lawful _ _
    · exact batchPen_lawful _ _
    · exact batchControllerTouch_lawful _ _
    · exact batchControllerMotion_lawful _ _
    · trivial

theorem batch_batched {dest src c : Packet} (h : batch dest src = .batched c) : c.device ≠ .unbatched := by
  have hlawful := batch_lawful dest src
  rw [h] at hlawful
  obtain ⟨-, -, hmerge, -⟩ := hlawful
  cases hmerge with
  | relMouseMove | scroll | hscroll => exact nofun
  | sample hstate => cases hstate <;> exact nofun

def MergeEntry (a b c : Entry) : Prop :=
  Merge a.packet b.packet c.packet ∧ c.origins = a.origins ++ b.origins

theorem batchEntry_respects : Respects batchEntry (fun e => e.packet.device) MergeEntry
    fun a b => Near a.packet b.packet := by
  refine ⟨fun {a b c} h => ?_, fun {a b} h => ?_⟩
  · unfold batchEntry at h
    have hlawful := batch_lawful a.packet b.packet
    cases hbatch : batch a.packet b.packet with
    | batched packet =>
      rw [hbatch] at h hlawful
      obtain ⟨hsrc, hdest, hmerge, hmask, hmask'⟩ := hlawful
      cases h
      refine ⟨hsrc, hdest, ⟨hmerge, rfl⟩, ⟨hmask, fun hne => absurd hsrc hne⟩, fun x hx => ?_⟩
      exact ⟨hx.1.trans hmask', fun hne =>
        mayOvertake_congr hdest hmask' (hx.2 fun heq => hne (heq.trans hdest))⟩
    | notBatchable =>
      rw [hbatch] at h
      cases h
    | terminateBatch =>
      rw [hbatch] at h
      cases h
  · unfold batchEntry at h
    have hlawful := batch_lawful a.packet b.packet
    cases hbatch : batch a.packet b.packet with
    | batched packet =>
      rw [hbatch] at h
      cases h
    | notBatchable =>
      rw [hbatch] at hlawful
      exact ⟨hlawful.1, hlawful.2.1, fun _ => hlawful.2.2⟩
    | terminateBatch =>
      rw [hbatch] at h
      cases h

end Sunshine.Batching
