import Mathlib.Data.List.Basic
import Mathlib.Tactic.Common

/-! A resource that is there as long as someone has a handle to it (`shared_t` of `thread_safe.h`).

`ref` and `release` are one section under the lock each, with the callbacks called inside. What a handle does outside the
lock is a step of its own; a copy sets its own owner first, takes its reference through a temporary handle, and clears that
one's owner by hand. No other thread touches a handle that is being copied, moved or destroyed: two accesses to one object
at a time are no business of the class. -/
namespace Sunshine.ThreadSafe.Shared
set_option autoImplicit false

/-- What is done to the element in the buffer: placement new, the two callbacks, and its destructor. -/
inductive Call where
  | create
  | construct (ok : Bool)
  | destruct
  | destroy
  deriving DecidableEq

/-- One section under the lock: of `ref`, or else of `release`; the count when it begins and when it ends. -/
structure Locked where
  acquires : Bool
  before : ℕ
  after : ℕ
  calls : List Call
  deriving DecidableEq

/-- A handle. The copy constructor of one that is `copying` has set its owner; that of one that is `handing` has its
reference, which the temporary handle still points to as well. -/
inductive Handle where
  | null
  | owning
  | copying (source : ℕ)
  | handing
  | gone
  deriving DecidableEq

structure State where
  count : ℕ := 0
  handles : List Handle := []
  sections : List Locked := []
  deriving DecidableEq

/-- `ref`, if the constructor callback would give this result. -/
def ref (ok : Bool) (s : State) : Locked × Handle :=
  let calls := if s.count = 0 then [.create, .construct ok] else []
  if s.count = 0 ∧ ok = false then (⟨true, s.count, s.count, calls⟩, .null)
  else (⟨true, s.count, (s.count + 1) % 4294967296, calls⟩, .owning)

/-- `ptr_t::release`, up to the handle's own owner. -/
def release (s : State) : Locked :=
  let after := (s.count + 4294967295) % 4294967296
  ⟨false, s.count, after, if after = 0 then [.destruct, .destroy] else []⟩

/-- The state behind a section. -/
def State.locked (s : State) (section' : Locked) (handles : List Handle) : State :=
  { count := section'.after, handles := handles, sections := s.sections ++ [section'] }

inductive Event where
  | ref (ok : Bool)
  /-- The copy constructor reads the owner of its source. -/
  | copy (i : ℕ)
  | copyRef (k : ℕ) (ok : Bool)
  | copyDone (k : ℕ)
  | moveConstruct (i : ℕ)
  /-- Move assignment: the release of what the handle has, and then, as another step, the swap. -/
  | moveAssign (i j : ℕ)
  | destroy (i : ℕ)
  deriving DecidableEq

def next (s : State) : Event → State
  | .ref ok => s.locked (ref ok s).1 (s.handles ++ [(ref ok s).2])
  | .copy i =>
    match s.handles[i]? with
    | some .owning => { s with handles := s.handles ++ [.copying i] }
    | some .null => { s with handles := s.handles ++ [.null] }
    | _ => s
  | .copyRef k ok => s.locked (ref ok s).1 (s.handles.set k .handing)
  | .copyDone k => { s with handles := s.handles.set k .owning }
  | .moveConstruct i =>
    match s.handles[i]? with
    | some .owning => { s with handles := s.handles.set i .null ++ [.owning] }
    | some .null => { s with handles := s.handles ++ [.null] }
    | _ => s
  | .moveAssign i j =>
    match s.handles[i]?, s.handles[j]? with
    | some .owning, _ => s.locked (release s) (s.handles.set i .null)
    | some .null, some h => { s with handles := (s.handles.set i h).set j .null }
    | _, _ => s
  | .destroy i =>
    match s.handles[i]? with
    | some .owning => s.locked (release s) (s.handles.set i .gone)
    | some .null => { s with handles := s.handles.set i .gone }
    | _ => s

/-- An object that is there and not under construction. -/
def Handle.complete : Handle → Bool
  | .null | .owning => true
  | _ => false

def State.complete (s : State) (i : ℕ) : Prop := ∃ h, s.handles[i]? = some h ∧ h.complete = true

/-- No copy constructor is about to take a reference through this handle. -/
def State.unread (s : State) (i : ℕ) : Prop := .copying i ∉ s.handles

instance (s : State) (i : ℕ) : Decidable (s.unread i) := inferInstanceAs (Decidable (_ ∉ _))

/-- The steps that threads can take which do not use one handle at a time. -/
def Enabled (s : State) : Event → Prop
  | .ref _ => True
  | .copy i => s.complete i
  | .copyRef k _ => ∃ i, s.handles[k]? = some (.copying i)
  | .copyDone k => s.handles[k]? = some .handing
  | .moveConstruct i => s.complete i ∧ s.unread i
  | .moveAssign i j => (s.complete i ∧ s.unread i) ∧ s.complete j ∧ s.unread j
  | .destroy i => s.complete i ∧ s.unread i

/-! ## What is claimed -/

/-- A handle that is not null; where a copy is handing over, that is the temporary one. -/
def Handle.counts : Handle → Bool
  | .owning | .handing => true
  | _ => false

def owners (s : State) : ℕ := s.handles.countP Handle.counts

def calls (s : State) : List Call := s.sections.flatMap Locked.calls

/-- Every element is created where there is none, and destroyed where there is one. -/
def proper : Bool → List Call → Bool
  | _, [] => true
  | occupied, .create :: more => !occupied && proper true more
  | occupied, .destroy :: more => occupied && proper false more
  | occupied, _ :: more => proper occupied more

/-- The callbacks are called where the count leaves zero and where it comes back to it. -/
structure Locked.Right (l : Locked) : Prop where
  constructs : (∃ ok, .construct ok ∈ l.calls) ↔ l.acquires = true ∧ l.before = 0
  destructs : .destruct ∈ l.calls ↔ l.acquires = false ∧ l.before = 1 ∧ l.after = 0

structure Right (s : State) : Prop where
  counted : s.count = owners s
  sections : ∀ l ∈ s.sections, l.Right
  once : proper false (calls s) = true

/-! ## The condition on the steps -/

def occupy (occupied : Bool) : Call → Bool
  | .create => true
  | .destroy => false
  | _ => occupied

/-- There is an element in the buffer. -/
def occupied (s : State) : Bool := (calls s).foldl occupy false

/-- No `ref` comes behind a constructor callback that failed, when the element it was called for is still in the buffer,
and the count does not pass its 32 bits. -/
def Clear (s : State) : Event → Prop
  | .ref _ => s.count + 1 < 4294967296 ∧ (s.count = 0 → occupied s = false)
  | .copyRef _ _ => s.count + 1 < 4294967296
  | _ => True

end Sunshine.ThreadSafe.Shared
