import Mathlib.Data.List.Basic
import Mathlib.Logic.Function.Basic
import Mathlib.Tactic.Common

/-! The bounded queue between threads (`queue_t` of `thread_safe.h`).

Each operation is one section under the lock, except that a pop which finds nothing gives the lock up and goes on when
it is woken. A thread may be woken at any time, whether or not it was notified. -/
namespace Sunshine.ThreadSafe
set_option autoImplicit false

inductive QueueOverflow where
  | clearAll
  | dropOldest
  deriving DecidableEq, Repr

structure Queue (β : Type) where
  continues : Bool := true
  maxElements : ℕ := 32
  overflowPolicy : QueueOverflow := .clearAll
  queue : List β := []
  deriving DecidableEq, Repr

/-- Where a pop stands when it gives up the lock. -/
inductive Progress (β : Type) where
  | waits
  | returns (status : Option β)
  deriving DecidableEq, Repr

namespace Queue

variable {β : Type} (q : Queue β)

def overflow : List β :=
  if q.maxElements ≠ 0 ∧ q.maxElements ≤ q.queue.length then
    match q.overflowPolicy with
    | .dropOldest => q.queue.tail
    | .clearAll => []
  else q.queue

def raise (value : β) : Queue β :=
  if q.continues = false then q else { q with queue := q.overflow ++ [value] }

def peek : Bool := q.continues && !q.queue.isEmpty

def tryPop : Option β × Queue β :=
  if q.continues = false then (none, q)
  else
    match q.queue with
    | [] => (none, q)
    | value :: rest => (some value, { q with queue := rest })

/-- `while (_queue.empty())` of the pop without a limit, and what follows the loop. -/
def popLoop : Progress β × Queue β :=
  match q.queue with
  | [] => (.waits, q)
  | value :: rest => (.returns (some value), { q with queue := rest })

def pop : Progress β × Queue β :=
  if q.continues = false then (.returns none, q) else q.popLoop

/-- Behind `_cv.wait`. -/
def popWoken : Progress β × Queue β :=
  if q.continues = false then (.returns none, q) else q.popLoop

/-- The loop of the pop with a limit looks at the flag only while the queue is empty. -/
def popForLoop : Progress β × Queue β :=
  match q.queue with
  | [] => if q.continues = false then (.returns none, q) else (.waits, q)
  | value :: rest => (.returns (some value), { q with queue := rest })

def popFor : Progress β × Queue β :=
  if q.continues = false then (.returns none, q) else q.popForLoop

def stop : Queue β := { q with continues := false }

/-- What a pop of any kind leaves of the queue. -/
def Popped (status : Option β) (q' : Queue β) : Prop :=
  status = none ∧ q' = q ∨ ∃ value rest, q.queue = value :: rest ∧ status = some value ∧ q' = { q with queue := rest }

/-- A pop that waits has left the queue as it was. -/
def Progressed : Progress β → Queue β → Prop
  | .waits, q' => q' = q
  | .returns status, q' => q.Popped status q'

theorem tryPop_popped : q.Popped q.tryPop.1 q.tryPop.2 := by
  unfold tryPop
  by_cases hstopped : q.continues = false
  · rw [if_pos hstopped]
    exact .inl ⟨rfl, rfl⟩
  · rw [if_neg hstopped]
    cases hqueue : q.queue with
    | nil => exact .inl ⟨rfl, rfl⟩
    | cons value rest => exact .inr ⟨value, rest, hqueue, rfl, rfl⟩

/-- `peek` says whether the next `try_pop` returns an element. -/
theorem peek_eq : q.peek = q.tryPop.1.isSome := by
  unfold peek tryPop
  cases q.continues with
  | false => rfl
  | true => cases q.queue <;> rfl

theorem popLoop_progressed : q.Progressed q.popLoop.1 q.popLoop.2 := by
  unfold popLoop
  cases hqueue : q.queue with
  | nil => rfl
  | cons value rest => exact .inr ⟨value, rest, hqueue, rfl, rfl⟩

theorem pop_progressed : q.Progressed q.pop.1 q.pop.2 := by
  unfold pop
  by_cases hstopped : q.continues = false
  · rw [if_pos hstopped]
    exact .inl ⟨rfl, rfl⟩
  · rw [if_neg hstopped]
    exact q.popLoop_progressed

theorem popForLoop_progressed : q.Progressed q.popForLoop.1 q.popForLoop.2 := by
  unfold popForLoop
  cases hqueue : q.queue with
  | nil =>
    by_cases hstopped : q.continues = false
    · simp only [if_pos hstopped]
      exact .inl ⟨rfl, rfl⟩
    · simp only [if_neg hstopped]
      rfl
  | cons value rest => exact .inr ⟨value, rest, hqueue, rfl, rfl⟩

theorem popFor_progressed : q.Progressed q.popFor.1 q.popFor.2 := by
  unfold popFor
  by_cases hstopped : q.continues = false
  · rw [if_pos hstopped]
    exact .inl ⟨rfl, rfl⟩
  · rw [if_neg hstopped]
    exact q.popForLoop_progressed

theorem overflow_suffix : q.overflow <:+ q.queue := by
  unfold overflow
  split
  · split
    · exact List.tail_suffix q.queue
    · exact List.nil_suffix
  · exact List.suffix_refl q.queue

theorem raise_stopped (hstopped : q.continues = false) (value : β) : q.raise value = q := if_pos hstopped

theorem raise_running (hrunning : q.continues = true) (value : β) :
    q.raise value = { q with queue := q.overflow ++ [value] } := by
  unfold raise
  rw [if_neg (by simp [hrunning])]

def Full : Prop := q.maxElements ≠ 0 ∧ q.maxElements ≤ q.queue.length

instance : Decidable q.Full := inferInstanceAs (Decidable (_ ∧ _))

theorem raise_of_not_full (hrunning : q.continues = true) (hfull : ¬q.Full) (value : β) :
    q.raise value = { q with queue := q.queue ++ [value] } := by
  have hoverflow : q.overflow = q.queue := if_neg hfull
  rw [q.raise_running hrunning, hoverflow]

theorem mem_raise_self (hrunning : q.continues = true) (value : β) : value ∈ (q.raise value).queue := by
  rw [q.raise_running hrunning]
  exact List.mem_append_right _ List.mem_cons_self

theorem mem_of_mem_raise {value other : β} (h : other ∈ (q.raise value).queue) : other ∈ q.queue ∨ other = value := by
  cases hcontinues : q.continues with
  | false =>
    rw [q.raise_stopped hcontinues] at h
    exact .inl h
  | true =>
    rw [q.raise_running hcontinues] at h
    exact (List.mem_append.mp h).imp (fun hmem => q.overflow_suffix.subset hmem) List.mem_singleton.mp

theorem continues_raise (value : β) : (q.raise value).continues = q.continues := by
  unfold raise
  split <;> rfl

end Queue

/-! ## Producers and consumers -/

inductive Wait where
  | unlimited
  | limited
  deriving DecidableEq, Repr

/-- What a thread does next with the queue. -/
inductive Event (α κ : Type) where
  | raise (value : α)
  | tryPop
  | pop (consumer : κ)
  | popFor (consumer : κ)
  | wake (consumer : κ)
  | timeout (consumer : κ)
  | stop

/-- The calls of `raise` are numbered, so that equal values stay apart. `returned` has what the pops returned, in
order. -/
structure State (α κ : Type) where
  queue : Queue (α × ℕ)
  waiting : κ → Option Wait
  raises : ℕ
  returned : List (α × ℕ)

section Steps

variable {α κ : Type} [DecidableEq κ]

def start (maxElements : ℕ) (overflowPolicy : QueueOverflow) : State α κ where
  queue := { maxElements, overflowPolicy }
  waiting _ := none
  raises := 0
  returned := []

def State.proceed (s : State α κ) (consumer : κ) (wait : Wait) : Progress (α × ℕ) × Queue (α × ℕ) → State α κ
  | (.waits, q) => { s with queue := q, waiting := Function.update s.waiting consumer (some wait) }
  | (.returns status, q) =>
    { s with
      queue := q
      waiting := Function.update s.waiting consumer none
      returned := s.returned ++ status.toList }

/-- A thread that waits makes no other call, and only one that waits is woken. -/
def step (s : State α κ) : Event α κ → State α κ
  | .raise value => { s with queue := s.queue.raise (value, s.raises), raises := s.raises + 1 }
  | .tryPop => { s with queue := s.queue.tryPop.2, returned := s.returned ++ s.queue.tryPop.1.toList }
  | .pop consumer =>
    match s.waiting consumer with
    | none => s.proceed consumer .unlimited s.queue.pop
    | some _ => s
  | .popFor consumer =>
    match s.waiting consumer with
    | none => s.proceed consumer .limited s.queue.popFor
    | some _ => s
  | .wake consumer =>
    match s.waiting consumer with
    | none => s
    | some .unlimited => s.proceed consumer .unlimited s.queue.popWoken
    | some .limited => s.proceed consumer .limited s.queue.popForLoop
  | .timeout consumer =>
    match s.waiting consumer with
    | some .limited => s.proceed consumer .limited (.returns none, s.queue)
    | _ => s
  | .stop => { s with queue := s.queue.stop }

def run (s : State α κ) (events : List (Event α κ)) : State α κ := events.foldl step s

end Steps

end Sunshine.ThreadSafe
