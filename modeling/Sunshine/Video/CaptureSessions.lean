import Mathlib.Data.List.Basic
import Mathlib.Logic.Function.Basic
import Mathlib.Algebra.Order.Ring.Nat
import Mathlib.Tactic.Common
import Sunshine.Lib.Transitions

/-! Capture sessions and the capture thread: how the context of a session gets from `capture`, or
`capture_async`, through the queue into the thread's list, and who tells the session to end.

`parallel` is the encoder's flag `PARALLEL_ENCODING`: the sessions of such an encoder encode on their
own threads and hold the only references to the capture context; otherwise the capture thread encodes
for them and holds a reference of its own. A guard's loop over a list is one step. -/
namespace Sunshine.CaptureSessions
open Transitions
set_option autoImplicit false

/-- `raised` is in front of the check of the queue, which only `capture_async` makes; `waiting` is at the
join event or in the encode loop; `released` is behind the release of the reference in `capture_async`. -/
inductive Place where
  | outside
  | entered
  | raised
  | waiting
  | leaving
  | released
  | left
  deriving DecidableEq, Repr

/-- Whether the session holds a reference to the capture context. -/
def Place.holds : Place → Bool
  | .entered | .raised | .waiting | .leaving => true
  | .outside | .released | .left => false

/-- The capture thread; `stopped`, `listTold` and `queueTold` are the places in its exit guard. -/
inductive Phase where
  | absent
  | starting
  | working
  | reinitialising
  | ending
  | stopped
  | listTold
  | queueTold
  | ended
  deriving DecidableEq, Repr

/-- In front of the stop of the queue. -/
def Phase.serves : Phase → Bool
  | .starting | .working | .reinitialising | .ending => true
  | _ => false

/-- The thread will still go over its list, to serve the sessions in it or to tell them to end. -/
def Phase.readsList (phase : Phase) : Bool := phase.serves || phase = .stopped

def Phase.readsQueue (phase : Phase) : Bool := phase.readsList || phase = .listTold

def Phase.alive : Phase → Bool
  | .absent | .starting | .ended => false
  | _ => true

/-- `lastGone`: the callback of `encode_run_sync` has erased the last session; `failed`: an error, or a
display that did not come back; `queueStopped`: the thread has seen the queue stopped. -/
inductive EndCause where
  | lastGone
  | failed
  | queueStopped
  deriving DecidableEq, Repr

/-- `told` is a raised join event or a stopped image event. `queue` and `running` are the queue of contexts,
`contexts` the thread's list. `destructing` is the session whose release of the last reference is still in
the destructor, under the lock of `shared_t`. -/
structure Capture where
  place : ℕ → Place := fun _ => .outside
  told : ℕ → Bool := fun _ => false
  shutdown : ℕ → Bool := fun _ => false
  refCount : ℕ := 0
  destructing : Option ℕ := none
  running : Bool := false
  queue : List ℕ := []
  contexts : List ℕ := []
  phase : Phase := .absent

inductive CaptureEvent where
  | enter (i : ℕ)
  | raise (i : ℕ)
  | check (i : ℕ)
  | view (i : ℕ)
  | quit (i : ℕ)
  | release (i : ℕ)
  | guard (i : ℕ)
  | joined (i : ℕ)
  | starts
  | takes
  | drops (i : ℕ)
  | reinit
  | reinitDone
  | ends (cause : EndCause)
  | stopsQueue
  | tellsList
  | tellsQueue
  | releases
  | shutdown (i : ℕ)
  deriving DecidableEq, Repr

def Capture.put (s : Capture) (i : ℕ) (place : Place) : Capture :=
  { s with place := Function.update s.place i place }

def Capture.tell (s : Capture) (l : List ℕ) : Capture :=
  { s with
    told := fun i => s.told i || l.contains i
    shutdown := fun i => s.shutdown i || l.contains i }

/-- `start_capture_async`, `start_capture_sync`: a new context with its thread. -/
def Capture.construct (s : Capture) : Capture :=
  { s with running := true, queue := [], contexts := [], phase := .starting }

def Capture.destroyed (s : Capture) : Capture :=
  { s with destructing := none, running := false, queue := [], contexts := [], phase := .absent }

/-- `shared_t::ref`. -/
def Capture.ref (s : Capture) : Capture :=
  if s.refCount = 0 then { s.construct with refCount := 1 } else { s with refCount := s.refCount + 1 }

/-- Both queues of contexts are made with this capacity, and are cleared when they are full. -/
def maxContexts : ℕ := 30

/-- `queue_t::raise`. -/
def Capture.enqueue (s : Capture) (i : ℕ) : Capture :=
  if s.running then
    { s with queue := (if maxContexts ≤ s.queue.length then [] else s.queue) ++ [i] }
  else s

/-- `ptr_t::release` of session `i`. `end_capture_async` stops the queue and then waits for the thread;
`end_capture_sync` does nothing. -/
def Capture.unref (parallel : Bool) (s : Capture) (i : ℕ) : Capture :=
  let s := { s with refCount := s.refCount - 1 }
  if s.refCount ≠ 0 then s
  else if parallel then { s with destructing := some i, running := false }
  else s.destroyed

def nextCapture (parallel : Bool) (s : Capture) : CaptureEvent → Capture
  | .enter i => s.ref.put i .entered
  | .raise i => (s.enqueue i).put i (if parallel then .raised else .waiting)
  | .check i => s.put i (if s.running then .waiting else .leaving)
  | .view i | .quit i => s.put i .leaving
  | .release i => (s.unref parallel i).put i (if parallel then .released else .left)
  | .guard i => (s.tell [i]).put i .left
  | .joined _ => s.destroyed
  | .starts => { if parallel then s else s.ref with phase := .working }
  | .takes => { s with queue := s.queue.tail, contexts := s.contexts ++ s.queue.head?.toList }
  | .drops i =>
    { if parallel then s else { s with told := Function.update s.told i true } with
      contexts := s.contexts.erase i }
  | .reinit => { s with phase := .reinitialising }
  | .reinitDone => { s with phase := .working }
  | .ends _ => { s with phase := .ending }
  | .stopsQueue => { s with phase := .stopped, running := false }
  | .tellsList => { s.tell s.contexts with phase := .listTold }
  | .tellsQueue => { s.tell s.queue with phase := .queueTold }
  | .releases =>
    let s := { s with phase := .ended }
    if parallel then s
    else if s.refCount - 1 = 0 then { s.destroyed with refCount := 0 }
    else { s with refCount := s.refCount - 1 }
  | .shutdown i => { s with shutdown := Function.update s.shutdown i true }

/-- What the code of the threads allows. The reference count is under the lock of `shared_t`, which the
destructor holds until the thread has been joined. -/
def CaptureEnabled (parallel : Bool) (s : Capture) : CaptureEvent → Prop
  | .enter i => s.place i = .outside ∧ s.destructing = none
  | .raise i => s.place i = .entered
  | .check i => s.place i = .raised
  | .view i => parallel = false ∧ s.place i = .waiting ∧ s.told i = true
  | .quit i => parallel = true ∧ s.place i = .waiting
  | .release i => s.place i = .leaving ∧ s.destructing = none
  | .guard i => s.place i = .released ∧ s.destructing ≠ some i
  | .joined i => s.destructing = some i ∧ s.phase = .ended
  | .starts => s.phase = .starting ∧ (parallel = false → s.destructing = none)
  | .takes => s.running = true ∧ s.queue ≠ [] ∧
      (s.phase = .working ∨ parallel = false ∧ s.phase = .reinitialising ∧ s.contexts = [])
  | .drops i => i ∈ s.contexts ∧
      if parallel then (s.phase = .working ∨ s.phase = .reinitialising) ∧ s.told i = true
      else s.phase = .working ∧ s.shutdown i = true
  | .reinit => s.phase = .working
  | .reinitDone => s.phase = .reinitialising
  | .ends .lastGone => parallel = false ∧ s.phase = .working ∧ s.contexts = []
  | .ends .failed => s.phase = .working ∨ s.phase = .reinitialising
  | .ends .queueStopped => s.running = false ∧ (s.phase = .working ∨ s.phase = .reinitialising)
  | .stopsQueue => s.phase = .ending
  | .tellsList => s.phase = .stopped
  | .tellsQueue => s.phase = .listTold
  | .releases => s.phase = .queueTold ∧ (parallel = false → s.destructing = none)
  | .shutdown _ => True

instance decidableCaptureEnabled (parallel : Bool) (s : Capture) : ∀ e : CaptureEvent,
    Decidable (CaptureEnabled parallel s e)
  | .enter i => inferInstanceAs (Decidable (s.place i = _ ∧ s.destructing = _))
  | .raise i => inferInstanceAs (Decidable (s.place i = _))
  | .check i => inferInstanceAs (Decidable (s.place i = _))
  | .view i => inferInstanceAs (Decidable (parallel = _ ∧ s.place i = _ ∧ s.told i = _))
  | .quit i => inferInstanceAs (Decidable (parallel = _ ∧ s.place i = _))
  | .release i => inferInstanceAs (Decidable (s.place i = _ ∧ s.destructing = _))
  | .guard i => inferInstanceAs (Decidable (s.place i = _ ∧ s.destructing ≠ some i))
  | .joined i => inferInstanceAs (Decidable (s.destructing = some i ∧ s.phase = _))
  | .starts => inferInstanceAs (Decidable (s.phase = _ ∧ (parallel = _ → s.destructing = _)))
  | .takes => inferInstanceAs (Decidable (s.running = _ ∧ s.queue ≠ _ ∧
      (s.phase = _ ∨ parallel = _ ∧ s.phase = _ ∧ s.contexts = _)))
  | .drops i => inferInstanceAs (Decidable (i ∈ s.contexts ∧
      if parallel then (s.phase = _ ∨ s.phase = _) ∧ s.told i = _
      else s.phase = _ ∧ s.shutdown i = _))
  | .reinit => inferInstanceAs (Decidable (s.phase = _))
  | .reinitDone => inferInstanceAs (Decidable (s.phase = _))
  | .ends .lastGone => inferInstanceAs (Decidable (parallel = _ ∧ s.phase = _ ∧ s.contexts = _))
  | .ends .failed => inferInstanceAs (Decidable (s.phase = _ ∨ s.phase = _))
  | .ends .queueStopped => inferInstanceAs (Decidable (s.running = _ ∧ (s.phase = _ ∨ s.phase = _)))
  | .stopsQueue => inferInstanceAs (Decidable (s.phase = _))
  | .tellsList => inferInstanceAs (Decidable (s.phase = _))
  | .tellsQueue => inferInstanceAs (Decidable (s.phase = _))
  | .releases => inferInstanceAs (Decidable (s.phase = _ ∧ (parallel = _ → s.destructing = _)))
  | .shutdown _ => inferInstanceAs (Decidable True)

/-! ## Stranded sessions -/

/-- The session waits, or will as the queue stands, and has not been told to end. -/
def Waits (s : Capture) (i : ℕ) : Prop :=
  s.told i = false ∧ (s.place i = .waiting ∨ s.place i = .raised ∧ s.running = true)

def Reached (s : Capture) (i : ℕ) : Prop :=
  i ∈ s.queue ∧ s.phase.readsQueue = true ∨ i ∈ s.contexts ∧ s.phase.readsList = true

def Stranded (s : Capture) (i : ℕ) : Prop := Waits s i ∧ ¬Reached s i

def NoneStranded (s : Capture) : Prop := ∀ i, ¬Stranded s i

/-- A raise reaches the thread, or a check behind it finds that the queue is stopped; and it clears no context
of a session that waits. -/
def HandsOver (parallel : Bool) (s : Capture) : CaptureEvent → Prop
  | .raise _ =>
    if s.running then maxContexts ≤ s.queue.length → ∀ j ∈ s.queue, ¬Waits s j else parallel = true
  | _ => True

instance decidableWaits (s : Capture) (i : ℕ) : Decidable (Waits s i) :=
  inferInstanceAs (Decidable (_ ∧ _))

instance decidableStranded (s : Capture) (i : ℕ) : Decidable (Stranded s i) :=
  inferInstanceAs (Decidable (_ ∧ ¬(_ ∨ _)))

instance decidableHandsOver (parallel : Bool) (s : Capture) : ∀ e : CaptureEvent,
    Decidable (HandsOver parallel s e)
  | .raise _ => inferInstanceAs (Decidable (if s.running then _ → ∀ j ∈ s.queue, ¬Waits s j else _))
  | .enter _ | .check _ | .view _ | .quit _ | .release _ | .guard _ | .joined _ | .starts | .takes
  | .drops _ | .reinit | .reinitDone | .ends _ | .stopsQueue | .tellsList | .tellsQueue | .releases
  | .shutdown _ => inferInstanceAs (Decidable True)

end Sunshine.CaptureSessions
