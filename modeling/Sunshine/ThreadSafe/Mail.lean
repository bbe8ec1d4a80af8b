import Mathlib.Data.List.Sort
import Sunshine.ThreadSafe.Queue

/-! The mailbox of shared events and queues (`mail_raw_t` of `thread_safe.h`).

The map from identifiers has weak pointers. A post whose last reference is dropped has expired at once; its destructor
then takes the mutex of the mailbox and erases the first expired entry it comes to. Other threads may drop references
while it looks. -/
namespace Sunshine.ThreadSafe.Mail
set_option autoImplicit false

structure EventBox (β : Type) where
  continues : Bool := true
  status : Option β := none
  deriving DecidableEq, Repr

def EventBox.raise {β : Type} (e : EventBox β) (value : β) : EventBox β :=
  if e.continues = false then e else { e with status := some value }

inductive Post (β : Type) where
  | event (e : EventBox β)
  | queue (q : Queue β)
  deriving DecidableEq, Repr

def Post.raise {β : Type} (value : β) : Post β → Post β
  | .event e => .event (e.raise value)
  | .queue q => .queue (q.raise value)

/-- Posts are numbered as they are made. `destroying` has those whose destructor is still to take the mutex, `cleaning`
is the iterator of the one that holds it, and `returned` has what the calls returned. -/
structure State (κ β : Type) where
  idToPost : List (κ × ℕ)
  made : ℕ
  useCount : ℕ → ℕ
  contents : ℕ → Post β
  destroying : List ℕ
  cleaning : Option ℕ
  returned : List (κ × Option ℕ)

/-- The next access of one of the threads. `use` is any operation on a post. -/
inductive Access (κ β : Type) where
  | event (id : κ)
  | queue (id : κ) (maxElements : ℕ) (overflowPolicy : QueueOverflow)
  | copy (post : ℕ)
  | drop (post : ℕ)
  | use (post : ℕ) (operation : Post β → Post β)
  | cleanup (post : ℕ)
  | visit

namespace State

variable {κ β : Type} (s : State κ β)

def expired (entry : κ × ℕ) : Bool := s.useCount entry.2 = 0

def copy (post : ℕ) : State κ β :=
  { s with useCount := Function.update s.useCount post (s.useCount post + 1) }

/-- The last reference starts the destructor. -/
def drop (post : ℕ) : State κ β :=
  { s with
    useCount := Function.update s.useCount post (s.useCount post - 1)
    destroying := if s.useCount post = 1 then post :: s.destroying else s.destroying }

def use (post : ℕ) (operation : Post β → Post β) : State κ β :=
  { s with contents := Function.update s.contents post (operation (s.contents post)) }

/-- The destructor of the post takes the mutex. -/
def cleanup (post : ℕ) : State κ β :=
  { s with destroying := s.destroying.erase post, cleaning := some 0 }

/-- One turn of the loop of `cleanup`, under the mutex. -/
def visit : State κ β :=
  match s.cleaning with
  | none => s
  | some i =>
    match s.idToPost[i]? with
    | none => { s with cleaning := none }
    | some entry =>
      if s.expired entry then { s with idToPost := s.idToPost.eraseIdx i, cleaning := none }
      else { s with cleaning := some (i + 1) }

def answer (id : κ) (post : Option ℕ) : State κ β := { s with returned := s.returned ++ [(id, post)] }

variable [LinearOrder κ]

/-- A new post, with the reference that is returned. -/
def emplace (id : κ) (post : Post β) : State κ β :=
  { s with
    idToPost := s.idToPost.orderedInsert (fun a b => a.1 ≤ b.1) (id, s.made)
    made := s.made + 1
    useCount := Function.update s.useCount s.made 1
    contents := Function.update s.contents s.made post }

/-- `lock` of a weak pointer has no reference to give once the post has expired. -/
def getPost (id : κ) (post : Post β) : State κ β :=
  match s.idToPost.lookup id with
  | some i => if s.useCount i = 0 then s.answer id none else (s.copy i).answer id (some i)
  | none => (s.emplace id post).answer id (some s.made)

def event (id : κ) : State κ β := s.getPost id (.event {})

def queue (id : κ) (maxElements : ℕ := 32) (overflowPolicy : QueueOverflow := .clearAll) : State κ β :=
  s.getPost id (.queue { maxElements, overflowPolicy })

end State

section Steps

variable {κ β : Type} [LinearOrder κ]

def start : State κ β where
  idToPost := []
  made := 0
  useCount _ := 0
  contents _ := .event {}
  destroying := []
  cleaning := none
  returned := []

def next (s : State κ β) : Access κ β → State κ β
  | .event id => s.event id
  | .queue id maxElements overflowPolicy => s.queue id maxElements overflowPolicy
  | .copy post => s.copy post
  | .drop post => s.drop post
  | .use post operation => s.use post operation
  | .cleanup post => s.cleanup post
  | .visit => s.visit

/-- The calls wait for the mutex, and a reference is needed to copy, drop or use it. -/
def Enabled (s : State κ β) : Access κ β → Prop
  | .event _ => s.cleaning = none
  | .queue _ _ _ => s.cleaning = none
  | .copy post => 0 < s.useCount post
  | .drop post => 0 < s.useCount post
  | .use post _ => 0 < s.useCount post
  | .cleanup post => post ∈ s.destroying ∧ s.cleaning = none
  | .visit => s.cleaning ≠ none

instance : ∀ (s : State κ β) (access : Access κ β), Decidable (Enabled s access)
  | s, .event _ => inferInstanceAs (Decidable (s.cleaning = none))
  | s, .queue _ _ _ => inferInstanceAs (Decidable (s.cleaning = none))
  | s, .copy post => inferInstanceAs (Decidable (0 < s.useCount post))
  | s, .drop post => inferInstanceAs (Decidable (0 < s.useCount post))
  | s, .use post _ => inferInstanceAs (Decidable (0 < s.useCount post))
  | s, .cleanup post => inferInstanceAs (Decidable (post ∈ s.destroying ∧ s.cleaning = none))
  | s, .visit => inferInstanceAs (Decidable (s.cleaning ≠ none))

end Steps

end Sunshine.ThreadSafe.Mail
