import Mathlib.Algebra.Ring.Int.Defs
import Sunshine.Video.CaptureSessions

/-! The capture thread of a parallel encoder (`captureThread`) and its display list
(`refresh_displays`), from the start of the thread to its end.

A frame is the number of the image that a capture pushes. An element that is read where there is
none, and a clamp between bounds the wrong way round, set `readOutside`; the thread goes on in any way
from there. -/
namespace Sunshine.CaptureSessions
open Transitions
set_option autoImplicit false

/-! ## Displays -/

/-- The index of the first display of a name, and 0 if there is none. -/
def indexOf (displayNames : List String) (name : String) : ℤ :=
  ((displayNames.findIdx? fun other => other = name).getD 0 : ℕ)

/-- The name at an index, which is empty for an index outside. -/
def currentDisplay (displayNames : List String) (index : ℤ) : String :=
  if 0 ≤ index ∧ index < displayNames.length then displayNames.getD index.toNat "" else ""

/-- `found` is the enumeration and `again` the second one, behind the creation of a virtual display;
`again` is empty where none is created. -/
def refreshDisplays (displayNames : List String) (index : ℤ) (found again : List String)
    (outputName : String) : List String × ℤ :=
  let current := currentDisplay displayNames index
  if found = [] ∧ displayNames ≠ [] then (displayNames, index)
  else
    let names :=
      if found ≠ [] then found
      else if again ≠ [] then again
      else [outputName]
    (names, indexOf names (if current ≠ "" then current else outputName))

/-- The conversion of a size to `int`. -/
def toInt (size : ℕ) : ℤ := Int.bmod size (2 ^ 32)

def lastDisplay (displayNames : List String) : ℤ := toInt displayNames.length - 1

/-- `std::clamp` of a requested display. -/
def clampDisplay (x : ℤ) (displayNames : List String) : ℤ :=
  if x < 0 then 0
  else if lastDisplay displayNames < x then lastDisplay displayNames
  else x

/-! ## State -/

/-- The image event of a session, with the frames that it has been raised with. -/
structure ImageEvent where
  running : Bool := true
  frames : List ℕ := []
  deriving DecidableEq, Repr

def ImageEvent.raise (e : ImageEvent) (frame : ℕ) : ImageEvent :=
  if e.running then { e with frames := e.frames ++ [frame] } else e

def ImageEvent.stop (e : ImageEvent) : ImageEvent := { e with running := false }

/-- `capture_e`. -/
inductive CaptureStatus where
  | ok
  | reinit
  | timeout
  | interrupted
  | error
  deriving DecidableEq, Repr

/-- `pushing` is the loop of the frame callback at an index of the list, with the frame if one was
captured; `raising` is between its check of an image event and the raise. `returning` is behind a callback that
has returned false, `draining` the loop that frees images while the display is shared. -/
inductive ThreadAt where
  | initialPop
  | initialDisplay
  | loopHead
  | capturing
  | pushing (frame : Option ℕ) (k : ℕ)
  | raising (frame k i : ℕ)
  | taking
  | returning
  | checkingShared
  | draining (k : ℕ)
  | resetting
  | exiting
  | ended
  deriving DecidableEq, Repr

/-- From a capture that has to be started again to the new display. -/
def ThreadAt.reinitialises : ThreadAt → Bool
  | .checkingShared | .draining _ | .resetting => true
  | _ => false

/-- `closed`: the last reference is gone, which stops the queue. `registered` is history: the list at the push of
each frame. -/
structure CaptureThread where
  place : ℕ → Place := fun _ => .outside
  images : ℕ → ImageEvent := fun _ => {}
  refs : ℕ := 0
  closed : Bool := false
  running : Bool := true
  queue : List ℕ := []
  captureCtxs : List ℕ := []
  displayNames : List String := []
  displayP : ℤ := -1
  switchDisplay : Option ℤ := none
  artificialReinit : Bool := false
  doing : ThreadAt := .initialPop
  frames : ℕ := 0
  registered : ℕ → List ℕ := fun _ => []
  readOutside : Bool := false

/-- The first five are steps of sessions and of the control stream, the others of the thread. -/
inductive ThreadEvent where
  | enter (i : ℕ)
  | raise (i : ℕ)
  | release (i : ℕ)
  | stopImages (i : ℕ)
  | switchDisplay (x : ℤ)
  | pop
  | openDisplay (found again : List String) (outputName : String) (opens : Bool)
  | head
  | push (captured : Bool)
  | visit
  | raiseImage
  | take
  | captureReturns (status : CaptureStatus)
  | checkShared (shared : Bool)
  | drain
  | resetDisplay (found again : List String) (outputName : String) (opens : Bool)
  | exits
  deriving DecidableEq

def CaptureThread.put (s : CaptureThread) (i : ℕ) (place : Place) : CaptureThread :=
  { s with place := Function.update s.place i place }

def CaptureThread.refresh (s : CaptureThread) (found again : List String) (outputName : String) :
    CaptureThread :=
  let refreshed := refreshDisplays s.displayNames s.displayP found again outputName
  { s with displayNames := refreshed.1, displayP := refreshed.2 }

def CaptureThread.applySwitch (s : CaptureThread) : CaptureThread :=
  match s.switchDisplay with
  | none => s
  | some x =>
    { s with
      displayP := clampDisplay x s.displayNames
      switchDisplay := none
      readOutside := s.readOutside || lastDisplay s.displayNames < 0 }

/-- The reads of `display_names[display_p]` and `capture_ctxs.front()`. -/
def CaptureThread.readDisplay (s : CaptureThread) (next : ThreadAt) : CaptureThread :=
  { s with
    doing := next
    readOutside := s.readOutside || !(0 ≤ s.displayP ∧ s.displayP < s.displayNames.length : Bool) ||
      s.captureCtxs.isEmpty }

/-- `artificial_reinit` makes every status but an error one that starts the capture again. -/
def CaptureThread.startsAgain (s : CaptureThread) (status : CaptureStatus) : Bool :=
  status = .reinit || s.artificialReinit && status ≠ .error

/-- One turn of the loop of the frame callback, or what comes behind the loop. -/
def CaptureThread.visit (s : CaptureThread) (frame : Option ℕ) (k : ℕ) : CaptureThread :=
  match s.captureCtxs[k]? with
  | none => { s with doing := if s.running then .taking else .returning }
  | some i =>
    if (s.images i).running then
      match frame with
      | some f => { s with doing := .raising f k i }
      | none => { s with doing := .pushing none (k + 1) }
    else { s with captureCtxs := s.captureCtxs.eraseIdx k }

def CaptureThread.drain (s : CaptureThread) (k : ℕ) : CaptureThread :=
  match s.captureCtxs[k]? with
  | none => { s with doing := .checkingShared }
  | some i =>
    if (s.images i).running then { s with doing := .draining (k + 1) }
    else { s with captureCtxs := s.captureCtxs.eraseIdx k }

def nextThread (s : CaptureThread) : ThreadEvent → CaptureThread
  | .enter i => { s.put i .entered with refs := s.refs + 1 }
  | .raise i =>
    { s.put i .raised with
      queue :=
        if s.running then (if maxContexts ≤ s.queue.length then [] else s.queue) ++ [i] else s.queue }
  | .release i =>
    { s.put i .released with
      refs := s.refs - 1
      closed := s.closed || s.refs - 1 = 0
      running := s.running && s.refs - 1 ≠ 0 }
  | .stopImages i =>
    { s.put i .left with images := Function.update s.images i (s.images i).stop }
  | .switchDisplay x => { s with switchDisplay := some x }
  | .pop =>
    if s.running then
      { s with doing := .initialDisplay, queue := s.queue.tail, captureCtxs := s.queue.head?.toList }
    else { s with doing := .exiting }
  | .openDisplay found again outputName opens =>
    (s.refresh found again outputName).readDisplay (if opens then .loopHead else .exiting)
  | .head => { s with doing := if s.running then .capturing else .exiting, artificialReinit := false }
  | .push captured =>
    if captured then
      { s with
        doing := .pushing (some s.frames) 0
        frames := s.frames + 1
        registered := Function.update s.registered s.frames s.captureCtxs }
    else { s with doing := .pushing none 0 }
  | .visit =>
    match s.doing with
    | .pushing frame k => s.visit frame k
    | _ => s
  | .raiseImage =>
    match s.doing with
    | .raising f k i =>
      { s with
        doing := .pushing (some f) (k + 1)
        images := Function.update s.images i ((s.images i).raise f) }
    | _ => s
  | .take =>
    if s.running = true ∧ s.queue ≠ [] then
      { s with queue := s.queue.tail, captureCtxs := s.captureCtxs ++ s.queue.head?.toList }
    else if s.switchDisplay.isSome then { s with doing := .returning, artificialReinit := true }
    else { s with doing := .capturing }
  | .captureReturns status =>
    { s with
      doing := if s.startsAgain status then .checkingShared else .exiting
      artificialReinit := s.artificialReinit && status = .error }
  | .checkShared shared => { s with doing := if shared then .draining 0 else .resetting }
  | .drain =>
    match s.doing with
    | .draining k => s.drain k
    | _ => s
  | .resetDisplay found again outputName opens =>
    if s.running then
      (s.refresh found again outputName).applySwitch.readDisplay
        (if opens then .loopHead else .resetting)
    else { s with doing := .exiting }
  | .exits =>
    { s with
      doing := .ended
      running := false
      images := fun i => if i ∈ s.captureCtxs ++ s.queue then (s.images i).stop else s.images i }

def ThreadAt.isPushing : ThreadAt → Bool
  | .pushing .. => true
  | _ => false

def ThreadAt.isRaising : ThreadAt → Bool
  | .raising .. => true
  | _ => false

def ThreadAt.isDraining : ThreadAt → Bool
  | .draining _ => true
  | _ => false

def ThreadEnabled (s : CaptureThread) : ThreadEvent → Prop
  | .enter i => s.place i = .outside ∧ s.closed = false
  | .raise i => s.place i = .entered
  | .release i => s.place i = .raised
  | .stopImages i => s.place i = .released
  | .switchDisplay _ => True
  | .pop => s.doing = .initialPop ∧ (s.running = true → s.queue ≠ [])
  | .openDisplay .. => s.doing = .initialDisplay
  | .head => s.doing = .loopHead
  | .push _ => s.doing = .capturing
  | .visit => s.doing.isPushing = true
  | .raiseImage => s.doing.isRaising = true
  | .take => s.doing = .taking
  | .captureReturns _ => s.doing = .capturing ∨ s.doing = .returning
  | .checkShared _ => s.doing = .checkingShared
  | .drain => s.doing.isDraining = true
  | .resetDisplay .. => s.doing = .resetting
  | .exits => s.doing = .exiting

instance decidableThreadEnabled (s : CaptureThread) : ∀ e : ThreadEvent, Decidable (ThreadEnabled s e)
  | .enter i => inferInstanceAs (Decidable (s.place i = _ ∧ s.closed = _))
  | .raise i => inferInstanceAs (Decidable (s.place i = _))
  | .release i => inferInstanceAs (Decidable (s.place i = _))
  | .stopImages i => inferInstanceAs (Decidable (s.place i = _))
  | .switchDisplay _ => inferInstanceAs (Decidable True)
  | .pop => inferInstanceAs (Decidable (s.doing = _ ∧ (s.running = _ → s.queue ≠ _)))
  | .openDisplay .. => inferInstanceAs (Decidable (s.doing = _))
  | .head => inferInstanceAs (Decidable (s.doing = _))
  | .push _ => inferInstanceAs (Decidable (s.doing = _))
  | .visit => inferInstanceAs (Decidable (s.doing.isPushing = _))
  | .raiseImage => inferInstanceAs (Decidable (s.doing.isRaising = _))
  | .take => inferInstanceAs (Decidable (s.doing = _))
  | .captureReturns _ => inferInstanceAs (Decidable (s.doing = _ ∨ s.doing = _))
  | .checkShared _ => inferInstanceAs (Decidable (s.doing = _))
  | .drain => inferInstanceAs (Decidable (s.doing.isDraining = _))
  | .resetDisplay .. => inferInstanceAs (Decidable (s.doing = _))
  | .exits => inferInstanceAs (Decidable (s.doing = _))

/-! ## What is kept -/

/-- The sessions that the callback for a frame has still to come to. -/
def CaptureThread.stillToVisit (s : CaptureThread) (frame : ℕ) : List ℕ :=
  match s.doing with
  | .pushing (some f) k => if f = frame then s.captureCtxs.drop k else []
  | .raising f k _ => if f = frame then s.captureCtxs.drop k else []
  | _ => []

/-- Nothing has been read that is not there. A frame has been raised at most once to a session, only to those
registered at its push, and to each of them that still runs when the callback has come past it. -/
structure WellKept (s : CaptureThread) : Prop where
  inside : s.readOutside = false
  once : ∀ i, (s.images i).frames.Nodup
  registered : ∀ i, ∀ f ∈ (s.images i).frames, i ∈ s.registered f
  pushed : ∀ f, ∀ i ∈ s.registered f, (s.images i).running = true → i ∉ s.stillToVisit f →
    f ∈ (s.images i).frames

/-- The turn of the draining loop erases the only session of the list. -/
def CaptureThread.drainsLast (s : CaptureThread) : Bool :=
  match s.doing, s.captureCtxs with
  | .draining 0, [i] => !(s.images i).running
  | _, _ => false

/-- While the queue runs, the capture is started again only with a session in the list, and the loop that frees
images leaves one there; and an index of a display list is an `int`. -/
def Attended (s : CaptureThread) : ThreadEvent → Prop
  | .captureReturns status => s.running = true → s.startsAgain status = true → s.captureCtxs ≠ []
  | .drain => s.running = true → s.drainsLast = false
  | .openDisplay found again outputName _ | .resetDisplay found again outputName _ =>
    (s.refresh found again outputName).displayNames.length < 2 ^ 31
  | _ => True

instance decidableAttended (s : CaptureThread) : ∀ e : ThreadEvent, Decidable (Attended s e)
  | .captureReturns status =>
    inferInstanceAs (Decidable (s.running = _ → s.startsAgain status = _ → s.captureCtxs ≠ []))
  | .drain => inferInstanceAs (Decidable (s.running = _ → s.drainsLast = _))
  | .openDisplay found again outputName _ =>
    inferInstanceAs (Decidable ((s.refresh found again outputName).displayNames.length < 2 ^ 31))
  | .resetDisplay found again outputName _ =>
    inferInstanceAs (Decidable ((s.refresh found again outputName).displayNames.length < 2 ^ 31))
  | .enter _ | .raise _ | .release _ | .stopImages _ | .switchDisplay _ | .pop | .head | .push _
  | .visit | .raiseImage | .take | .checkShared _ | .exits => inferInstanceAs (Decidable True)

end Sunshine.CaptureSessions
