import Sunshine.Input.Layout

/-! Printing, batching and passing on the vectors of the input queue, with every access to their bytes
(`print`, `batch` and `passthrough` over `PNV_…` and `PSS_…` pointers, `passthrough_queued_messages`). -/
namespace Sunshine.Casts
open Coalesce Input
set_option autoImplicit false

/-- What decides how far the print and the handlers read: the log level, the settings, whether the platform types
text, and the state that has come about: whether there is a touch port, which gamepads are allocated and whether
another one can be. -/
structure Env where
  debug : Bool
  verbose : Bool
  mouse : Bool
  keyboard : Bool
  controller : Bool
  typesUnicode : Bool
  touchPort : Bool
  allocated : ℕ → Bool
  allocGamepad : Bool

def maxGamepads : ℕ := 16

/-! ## Text -/

/-- A `size_t`. -/
def unicodeLength (size : Vec) : ℕ := ((bigUInt32 size).toNat + (2 ^ 64 - magicSize)) % 2 ^ 64

def readText (v : Vec) (text length : ℕ) : Except Fault Unit :=
  if text + length ≤ v.length then .ok () else .error .outOfBounds

/-- The string is built whatever the log level is. -/
def printUnicode (L : Layout) (v : Vec) : Except Fault Unit := do
  let size ← read v L.header.size
  if maxStringSize < unicodeLength size then .error .lengthError
  else readText v L.unicode.text (unicodeLength size)

/-- `platf::unicode` reads `size` bytes, an `int`. -/
def passthroughUnicode (L : Layout) (env : Env) (v : Vec) : Except Fault Unit :=
  if env.keyboard then do
    let header ← read v L.header.size
    let size := Int.bmod (unicodeLength header) (2 ^ 32)
    if env.typesUnicode then
      if size < 0 then .error .lengthError else readText v L.unicode.text size.toNat
    else pure ()
  else pure ()

/-! ## Print -/

/-- The fields of a message are read when its level is logged. -/
def log (enabled : Bool) (v : Vec) (fields : List Field) : Except Fault Unit :=
  if enabled then readAll v fields else pure ()

def printAs (L : Layout) (env : Env) (v : Vec) : Magic → Except Fault Unit
  | .mouseMoveRel => log env.debug v [L.relMouseMove.deltaX, L.relMouseMove.deltaY]
  | .mouseMoveAbs =>
    log env.debug v [L.absMouseMove.x, L.absMouseMove.y, L.absMouseMove.width, L.absMouseMove.height]
  | .mouseButtonDown | .mouseButtonUp => log env.debug v [L.header.magic, L.mouseButton.button]
  | .scroll => log env.debug v [L.scroll.scrollAmt1]
  | .hscroll => log env.debug v [L.hscroll.scrollAmount]
  | .keyDown | .keyUp =>
    log env.debug v [L.header.magic, L.keyboard.keyCode, L.keyboard.modifiers, L.keyboard.flags]
  | .utf8Text => printUnicode L v
  | .multiController =>
    log env.verbose v [L.multiController.controllerNumber, L.multiController.activeGamepadMask,
      L.multiController.buttonFlags, L.multiController.buttonFlags2, L.multiController.leftTrigger,
      L.multiController.rightTrigger, L.multiController.leftStickX, L.multiController.leftStickY,
      L.multiController.rightStickX, L.multiController.rightStickY]
  | .touch =>
    log env.debug v [L.touch.eventType, L.touch.pointerId, L.touch.x, L.touch.y, L.touch.pressureOrDistance,
      L.touch.contactAreaMajor, L.touch.contactAreaMinor, L.touch.rotation]
  | .pen =>
    log env.debug v [L.pen.eventType, L.pen.toolType, L.pen.penButtons, L.pen.x, L.pen.y,
      L.pen.pressureOrDistance, L.pen.contactAreaMajor, L.pen.contactAreaMinor, L.pen.rotation, L.pen.tilt]
  | .controllerArrival =>
    log env.debug v [L.controllerArrival.controllerNumber, L.controllerArrival.type,
      L.controllerArrival.capabilities, L.controllerArrival.supportedButtonFlags]
  | .controllerTouch =>
    log env.debug v [L.controllerTouch.controllerNumber, L.controllerTouch.eventType,
      L.controllerTouch.pointerId, L.controllerTouch.x, L.controllerTouch.y, L.controllerTouch.pressure]
  | .controllerMotion =>
    log env.verbose v [L.controllerMotion.controllerNumber, L.controllerMotion.motionType,
      L.controllerMotion.x, L.controllerMotion.y, L.controllerMotion.z]
  | .controllerBattery =>
    log env.verbose v [L.controllerBattery.controllerNumber, L.controllerBattery.batteryState,
      L.controllerBattery.batteryPercentage]
  | .other => pure ()

def print (L : Layout) (env : Env) (v : Vec) : Except Fault Unit := do
  let magic ← read v L.header.magic
  printAs L env v (L.magicOf (little magic))

/-! ## Handlers -/

def passthroughFields (enabled : Bool) (v : Vec) (fields : List Field) : Except Fault Unit :=
  if enabled then readAll v fields else pure ()

def passthroughRelMouseMove (L : Layout) (env : Env) (v : Vec) : Except Fault Unit :=
  passthroughFields env.mouse v [L.relMouseMove.deltaX, L.relMouseMove.deltaY]

/-- The height is looked at behind a width that is not zero. -/
def passthroughAbsMouseMove (L : Layout) (env : Env) (v : Vec) : Except Fault Unit :=
  if env.mouse then do
    readAll v [L.absMouseMove.x, L.absMouseMove.y]
    let width ← read v L.absMouseMove.width
    if little width = 0 then pure () else readAll v [L.absMouseMove.height]
  else pure ()

def passthroughMouseButton (L : Layout) (env : Env) (v : Vec) : Except Fault Unit :=
  passthroughFields env.mouse v [L.header.magic, L.mouseButton.button]

def passthroughKeyboard (L : Layout) (env : Env) (v : Vec) : Except Fault Unit :=
  passthroughFields env.keyboard v
    [L.header.magic, L.keyboard.keyCode, L.keyboard.modifiers, L.keyboard.flags]

def passthroughScroll (L : Layout) (env : Env) (v : Vec) : Except Fault Unit :=
  passthroughFields env.mouse v [L.scroll.scrollAmt1]

def passthroughHScroll (L : Layout) (env : Env) (v : Vec) : Except Fault Unit :=
  passthroughFields env.mouse v [L.hscroll.scrollAmount]

/-- A touch or a pen: the coordinates, and with a touch port the other fields. -/
def passthroughToPort (env : Env) (v : Vec) (coords fields : List Field) : Except Fault Unit :=
  if env.mouse then do
    readAll v coords
    if env.touchPort then readAll v fields else pure ()
  else pure ()

def passthroughTouch (L : Layout) (env : Env) (v : Vec) : Except Fault Unit :=
  passthroughToPort env v [L.touch.x, L.touch.y]
    [L.touch.rotation, L.touch.contactAreaMajor, L.touch.contactAreaMinor, L.touch.eventType,
      L.touch.pointerId, L.touch.pressureOrDistance]

def passthroughPen (L : Layout) (env : Env) (v : Vec) : Except Fault Unit :=
  passthroughToPort env v [L.pen.x, L.pen.y]
    [L.pen.rotation, L.pen.contactAreaMajor, L.pen.contactAreaMinor, L.pen.eventType, L.pen.toolType,
      L.pen.penButtons, L.pen.tilt, L.pen.pressureOrDistance]

/-- `wanted` says whether the gamepad has to be allocated already. -/
def passthroughToGamepad (wanted : Bool) (env : Env) (v : Vec) (controllerNumber : Field)
    (fields : List Field) : Except Fault Unit :=
  if env.controller then do
    let number ← read v controllerNumber
    if maxGamepads ≤ little number then pure ()
    else if env.allocated (little number) = wanted then readAll v fields
    else pure ()
  else pure ()

def passthroughControllerArrival (L : Layout) (env : Env) (v : Vec) : Except Fault Unit :=
  passthroughToGamepad false env v L.controllerArrival.controllerNumber
    [L.controllerArrival.type, L.controllerArrival.capabilities, L.controllerArrival.supportedButtonFlags]

def passthroughControllerTouch (L : Layout) (env : Env) (v : Vec) : Except Fault Unit :=
  passthroughToGamepad true env v L.controllerTouch.controllerNumber
    [L.controllerTouch.eventType, L.controllerTouch.pointerId, L.controllerTouch.x, L.controllerTouch.y,
      L.controllerTouch.pressure]

def passthroughControllerMotion (L : Layout) (env : Env) (v : Vec) : Except Fault Unit :=
  passthroughToGamepad true env v L.controllerMotion.controllerNumber
    [L.controllerMotion.motionType, L.controllerMotion.x, L.controllerMotion.y, L.controllerMotion.z]

def passthroughControllerBattery (L : Layout) (env : Env) (v : Vec) : Except Fault Unit :=
  passthroughToGamepad true env v L.controllerBattery.controllerNumber
    [L.controllerBattery.batteryState, L.controllerBattery.batteryPercentage]

/-- A gamepad is allocated for its first event and freed by its last. -/
def passthroughMultiController (L : Layout) (env : Env) (v : Vec) : Except Fault Unit :=
  if env.controller then do
    let number ← read v L.multiController.controllerNumber
    if littleShort number < 0 ∨ (maxGamepads : ℤ) ≤ (littleShort number).toInt then pure ()
    else do
      let mask ← read v L.multiController.activeGamepadMask
      let controller := (littleShort number).toInt.toNat
      let active := (little mask).testBit controller
      let state := [L.multiController.buttonFlags, L.multiController.buttonFlags2,
        L.multiController.leftTrigger, L.multiController.rightTrigger, L.multiController.leftStickX,
        L.multiController.leftStickY, L.multiController.rightStickX, L.multiController.rightStickY]
      if active ∧ env.allocated controller = false then
        if env.allocGamepad then readAll v state else pure ()
      else if env.allocated controller then
        if active then readAll v state else pure ()
      else pure ()
  else pure ()

def passthroughAs (L : Layout) (env : Env) (v : Vec) : Magic → Except Fault Unit
  | .mouseMoveRel => passthroughRelMouseMove L env v
  | .mouseMoveAbs => passthroughAbsMouseMove L env v
  | .mouseButtonDown | .mouseButtonUp => passthroughMouseButton L env v
  | .scroll => passthroughScroll L env v
  | .hscroll => passthroughHScroll L env v
  | .keyDown | .keyUp => passthroughKeyboard L env v
  | .utf8Text => passthroughUnicode L env v
  | .multiController => passthroughMultiController L env v
  | .touch => passthroughTouch L env v
  | .pen => passthroughPen L env v
  | .controllerArrival => passthroughControllerArrival L env v
  | .controllerTouch => passthroughControllerTouch L env v
  | .controllerMotion => passthroughControllerMotion L env v
  | .controllerBattery => passthroughControllerBattery L env v
  | .other => pure ()

def passthrough (L : Layout) (env : Env) (v : Vec) : Except Fault Unit := do
  let magic ← read v L.header.magic
  passthroughAs L env v (L.magicOf (little magic))

/-! ## Batching -/

/-- `dest->f != src->f`. -/
def differ (dest src : Vec) (f : Field) : Except Fault Bool := do
  let inDest ← read dest f
  let inSrc ← read src f
  pure (inDest ≠ inSrc)

/-- `*dest = *src`. -/
def assign (dest src : Vec) (sizeof : ℕ) : Except Fault (Verdict Vec) := do
  let packet ← read src (whole sizeof)
  let dest ← write dest (whole sizeof) packet
  pure (.batched dest)

def addOverflow (dest src : Vec) (f : Field) : Except Fault (Option Int16) := do
  let inDest ← read dest f
  let inSrc ← read src f
  pure (Batching.addOverflow (bigShort inDest) (bigShort inSrc))

def batchRelMouseMove (L : Layout) (dest src : Vec) : Except Fault (Verdict Vec) := do
  match ← addOverflow dest src L.relMouseMove.deltaX with
  | none => pure .terminateBatch
  | some deltaX =>
    match ← addOverflow dest src L.relMouseMove.deltaY with
    | none => pure .terminateBatch
    | some deltaY => do
      let dest ← write dest L.relMouseMove.deltaX (bigShortBytes deltaX)
      let dest ← write dest L.relMouseMove.deltaY (bigShortBytes deltaY)
      pure (.batched dest)

def batchAbsMouseMove (L : Layout) (dest src : Vec) : Except Fault (Verdict Vec) := do
  if ← differ dest src L.absMouseMove.width then pure .terminateBatch
  else if ← differ dest src L.absMouseMove.height then pure .terminateBatch
  else assign dest src L.absMouseMove.sizeof

def batchScroll (L : Layout) (dest src : Vec) : Except Fault (Verdict Vec) := do
  match ← addOverflow dest src L.scroll.scrollAmt1 with
  | none => pure .terminateBatch
  | some scrollAmt => do
    let dest ← write dest L.scroll.scrollAmt1 (bigShortBytes scrollAmt)
    let dest ← write dest L.scroll.scrollAmt2 (bigShortBytes scrollAmt)
    pure (.batched dest)

def batchHScroll (L : Layout) (dest src : Vec) : Except Fault (Verdict Vec) := do
  match ← addOverflow dest src L.hscroll.scrollAmount with
  | none => pure .terminateBatch
  | some scrollAmt => do
    let dest ← write dest L.hscroll.scrollAmount (bigShortBytes scrollAmt)
    pure (.batched dest)

def batchMultiController (L : Layout) (dest src : Vec) : Except Fault (Verdict Vec) := do
  if ← differ dest src L.multiController.activeGamepadMask then pure .terminateBatch
  else if ← differ dest src L.multiController.controllerNumber then pure .notBatchable
  else if ← differ dest src L.multiController.buttonFlags then pure .terminateBatch
  else if ← differ dest src L.multiController.buttonFlags2 then pure .terminateBatch
  else assign dest src L.multiController.sizeof

/-- Neither a move nor a hover. -/
def changesState (L : Layout) (v : Vec) (eventType : Field) : Except Fault Bool := do
  let event ← read v eventType
  pure (little event ≠ L.touchEventMove ∧ little event ≠ L.touchEventHover)

def batchTouch (L : Layout) (dest src : Vec) : Except Fault (Verdict Vec) := do
  if ← changesState L dest L.touch.eventType then pure .terminateBatch
  else if ← changesState L src L.touch.eventType then pure .terminateBatch
  else if ← differ dest src L.touch.pointerId then pure .notBatchable
  else if ← differ dest src L.touch.eventType then pure .terminateBatch
  else assign dest src L.touch.sizeof

def batchPen (L : Layout) (dest src : Vec) : Except Fault (Verdict Vec) := do
  if ← changesState L dest L.pen.eventType then pure .terminateBatch
  else if ← differ dest src L.pen.eventType then pure .terminateBatch
  else if ← differ dest src L.pen.penButtons then pure .terminateBatch
  else if ← differ dest src L.pen.toolType then pure .terminateBatch
  else assign dest src L.pen.sizeof

def batchControllerTouch (L : Layout) (dest src : Vec) : Except Fault (Verdict Vec) := do
  if ← changesState L dest L.controllerTouch.eventType then pure .terminateBatch
  else if ← differ dest src L.controllerTouch.controllerNumber then pure .notBatchable
  else if ← changesState L src L.controllerTouch.eventType then pure .terminateBatch
  else if ← differ dest src L.controllerTouch.pointerId then pure .notBatchable
  else if ← differ dest src L.controllerTouch.eventType then pure .terminateBatch
  else assign dest src L.controllerTouch.sizeof

def batchControllerMotion (L : Layout) (dest src : Vec) : Except Fault (Verdict Vec) := do
  if ← differ dest src L.controllerMotion.controllerNumber then pure .notBatchable
  else if ← differ dest src L.controllerMotion.motionType then pure .notBatchable
  else assign dest src L.controllerMotion.sizeof

def batchAs (L : Layout) (dest src : Vec) : Magic → Except Fault (Verdict Vec)
  | .mouseMoveRel => batchRelMouseMove L dest src
  | .mouseMoveAbs => batchAbsMouseMove L dest src
  | .scroll => batchScroll L dest src
  | .hscroll => batchHScroll L dest src
  | .multiController => batchMultiController L dest src
  | .touch => batchTouch L dest src
  | .pen => batchPen L dest src
  | .controllerTouch => batchControllerTouch L dest src
  | .controllerMotion => batchControllerMotion L dest src
  | _ => pure .terminateBatch

def batch (L : Layout) (dest src : Vec) : Except Fault (Verdict Vec) := do
  if ← differ dest src L.header.magic then pure .terminateBatch
  else do
    let magic ← read dest L.header.magic
    batchAs L dest src (L.magicOf (little magic))

/-! ## The queue -/

/-- One message of a drain: the first entry, batched with the ones behind it, is printed and passed on. -/
def dispatch (L : Layout) (env : Env) (entry : Vec) (rest : List Vec) : Except Fault (List Vec) := do
  let taken ← coalesceM (batch L) entry rest
  print L env taken.1
  passthrough L env taken.1
  pure taken.2

inductive Event where
  | passthrough (inputData : Vec)
  | dispatch (env : Env)

def step (L : Layout) (inputQueue : List Vec) : Event → Except Fault (List Vec)
  | .passthrough inputData => pure (inputQueue ++ [inputData])
  | .dispatch env =>
    match inputQueue with
    | [] => pure []
    | entry :: rest => dispatch L env entry rest

def run (L : Layout) (events : List Event) : Except Fault (List Vec) := events.foldlM (step L) []

/-- No access of the run leaves a vector, and no string has an impossible length. -/
def Inside (L : Layout) (events : List Event) : Prop := ∃ inputQueue, run L events = .ok inputQueue

end Sunshine.Casts
