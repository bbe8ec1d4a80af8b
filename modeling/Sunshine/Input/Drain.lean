import Mathlib.Algebra.Group.Nat.Defs
import Mathlib.Data.List.Perm.Basic
import Sunshine.Lib.Transitions

/-! The input queue and its drain task (`input::passthrough` and `passthrough_queued_messages`).

A producer queues a message under the lock and schedules a drain when none is pending; a drain takes
messages one by one, batches later ones into the one it took, and hands it to the OS outside the
lock. Batching is a parameter here, and any number of scheduled drains may run at once.
`drain_single_flight_iff` is about every run: it is single-flight exactly when all the text messages
it handles can be printed; one that cannot makes its drain throw and leaves `input_drain_pending`
set. -/
namespace Sunshine.Input
open Transitions
open scoped List
set_option autoImplicit false

/-! ## Messages -/

inductive Magic where
  | mouseMoveRel | mouseMoveAbs | mouseButtonDown | mouseButtonUp | scroll | hscroll
  | keyDown | keyUp | utf8Text | multiController | touch | pen | controllerArrival
  | controllerTouch | controllerMotion | controllerBattery | other
  deriving DecidableEq, Repr

/-- An input message: the header's `size` and `magic`, and the bytes behind the header. -/
structure Message where
  size : UInt32
  magic : Magic
  body : List UInt8
  deriving DecidableEq, Repr

/-- `sizeof(header.magic)`. -/
def magicSize : ℕ := 4

/-- The longest `std::string`. -/
def maxStringSize : ℕ := 2 ^ 63 - 1

inductive PrintFault where
  | lengthError
  | outOfBounds
  deriving DecidableEq, Repr

/-- The text length of a unicode packet, a `size_t`. -/
def textLength (m : Message) : ℕ := (m.size.toNat + (2 ^ 64 - magicSize)) % 2 ^ 64

/-- `print`: only a unicode packet builds a string from its own length. -/
def print (m : Message) : Except PrintFault Unit :=
  if m.magic = .utf8Text then
    if maxStringSize < textLength m then .error .lengthError
    else if m.body.length < textLength m then .error .outOfBounds
    else .ok ()
  else .ok ()

/-- The length of a text message covers its own magic and no more than its text. -/
def TextFits (m : Message) : Prop :=
  m.magic = .utf8Text → magicSize ≤ m.size.toNat ∧ m.size.toNat - magicSize ≤ m.body.length

instance (m : Message) : Decidable (TextFits m) := inferInstanceAs (Decidable (_ → _))

theorem print_ok_iff (m : Message) : print m = .ok () ↔ TextFits m := by
  have hsize := m.size.toNat_lt
  unfold print TextFits
  by_cases htext : m.magic = .utf8Text
  · rw [if_pos htext]
    unfold maxStringSize textLength magicSize
    by_cases hshort : m.size.toNat < 4
    · -- the subtraction wraps around to a length no string has
      rw [if_pos (by omega)]
      constructor
      · intro h
        cases h
      · intro h
        have := (h htext).1
        omega
    · rw [if_neg (by omega)]
      have hlen : (m.size.toNat + (2 ^ 64 - 4)) % 2 ^ 64 = m.size.toNat - 4 := by omega
      rw [hlen]
      by_cases hbody : m.body.length < m.size.toNat - 4
      · rw [if_pos hbody]
        constructor
        · intro h
          cases h
        · intro h
          have := (h htext).2
          omega
      · rw [if_neg hbody]
        exact ⟨fun _ _ => ⟨by omega, by omega⟩, fun _ => rfl⟩
  · rw [if_neg htext]
    exact ⟨fun _ h => absurd h htext, fun _ => rfl⟩

/-! ## Batching -/

inductive BatchResult where
  | batched (dest : Message)
  | notBatchable
  | terminateBatch

/-- A queue entry, with the positions in arrival order of the messages it stands for. -/
structure Entry where
  first : ℕ
  batched : List ℕ
  message : Message
  deriving DecidableEq, Repr

def Entry.covers (e : Entry) : List ℕ := e.first :: e.batched

/-- The batching loop over the rest of the queue. -/
def batchQueue (batch : Message → Message → BatchResult) (entry : Entry) :
    List Entry → Entry × List Entry
  | [] => (entry, [])
  | i :: rest =>
    match batch entry.message i.message with
    | .terminateBatch => (entry, i :: rest)
    | .batched dest =>
      batchQueue batch { entry with batched := entry.batched ++ i.covers, message := dest } rest
    | .notBatchable =>
      let r := batchQueue batch entry rest
      (r.1, i :: r.2)

/-- Batching keeps the place of the entry taken, leaves the others in order and loses no message. -/
theorem batchQueue_spec (batch : Message → Message → BatchResult) (entry : Entry)
    (queue : List Entry) :
    (batchQueue batch entry queue).1.first = entry.first ∧
      (batchQueue batch entry queue).2.Sublist queue ∧
      (batchQueue batch entry queue).1.covers ++
          (batchQueue batch entry queue).2.flatMap Entry.covers ~
        entry.covers ++ queue.flatMap Entry.covers := by
  induction queue generalizing entry with
  | nil => exact ⟨rfl, List.Sublist.refl _, List.Perm.refl _⟩
  | cons i rest ih =>
    unfold batchQueue
    cases batch entry.message i.message with
    | terminateBatch => exact ⟨rfl, List.Sublist.refl _, List.Perm.refl _⟩
    | batched dest =>
      obtain ⟨hfirst, hsub, hperm⟩ :=
        ih { entry with batched := entry.batched ++ i.covers, message := dest }
      refine ⟨hfirst, hsub.cons i, hperm.trans ?_⟩
      rw [List.flatMap_cons, ← List.append_assoc]
      exact List.Perm.refl _
    | notBatchable =>
      obtain ⟨hfirst, hsub, hperm⟩ := ih entry
      refine ⟨hfirst, hsub.cons_cons i, ?_⟩
      simp only [List.flatMap_cons]
      have hswap : ∀ a b c : List ℕ, a ++ (b ++ c) ~ b ++ (a ++ c) := by
        intro a b c
        rw [← List.append_assoc, ← List.append_assoc]
        exact List.perm_append_comm.append_right c
      calc (batchQueue batch entry rest).1.covers ++
            (i.covers ++ (batchQueue batch entry rest).2.flatMap Entry.covers)
          ~ i.covers ++ ((batchQueue batch entry rest).1.covers ++
              (batchQueue batch entry rest).2.flatMap Entry.covers) := hswap _ _ _
        _ ~ i.covers ++ (entry.covers ++ rest.flatMap Entry.covers) := hperm.append_left _
        _ ~ entry.covers ++ (i.covers ++ rest.flatMap Entry.covers) := hswap _ _ _

/-! ## The queue and its drains -/

structure Drain where
  processed : ℕ
  entry : Option Entry
  deriving DecidableEq, Repr

def maxMessagesPerDrain : ℕ := 64

/-- `scheduling` counts the producers between releasing the lock and pushing their task;
`queued` and `handled` record what was queued and handled so far. -/
structure State where
  inputQueue : List Entry := []
  inputDrainPending : Bool := false
  scheduling : ℕ := 0
  scheduled : ℕ := 0
  running : List Drain := []
  queued : ℕ := 0
  handled : List Entry := []
  deriving DecidableEq, Repr

/-- `take i` is one pass of drain `i` under the lock, `handle i` what it does with the entry
outside it. -/
inductive Event where
  | passthrough (m : Message)
  | push
  | start
  | take (i : ℕ)
  | handle (i : ℕ)
  | yield (i : ℕ)
  deriving DecidableEq, Repr

def Enabled (s : State) : Event → Prop
  | .passthrough _ => True
  | .push => 0 < s.scheduling
  | .start => 0 < s.scheduled
  | .take i => ∃ d ∈ s.running[i]?, d.entry = none ∧ d.processed < maxMessagesPerDrain
  | .handle i => ∃ d ∈ s.running[i]?, d.entry ≠ none
  | .yield i => ∃ d ∈ s.running[i]?, d.entry = none ∧ d.processed = maxMessagesPerDrain

instance (s : State) (e : Event) : Decidable (Enabled s e) := by
  cases e <;> unfold Enabled <;> infer_instance

def inHand (s : State) (i : ℕ) : Option Entry := s.running[i]? >>= Drain.entry

section Drain

variable (batch : Message → Message → BatchResult)

/-- One pass under the lock: clear the flag on an empty queue, or take the first entry. -/
def takeNext (s : State) (i : ℕ) : State :=
  match s.inputQueue with
  | [] => { s with inputDrainPending := false, running := s.running.eraseIdx i }
  | entry :: rest =>
    let taken := batchQueue batch entry rest
    { s with
      inputQueue := taken.2
      running := s.running.modify i fun d => { d with entry := some taken.1 } }

/-- Print and handle the entry. A throw ends the task; its future keeps the exception. -/
def handleEntry (s : State) (i : ℕ) : State :=
  match inHand s i with
  | none => s
  | some entry =>
    match print entry.message with
    | .error _ => { s with running := s.running.eraseIdx i }
    | .ok _ =>
      { s with
        running := s.running.modify i fun d => { processed := d.processed + 1, entry := none }
        handled := s.handled ++ [entry] }

def next (s : State) : Event → State
  | .passthrough m =>
    let entry := Entry.mk s.queued [] m
    let s := { s with inputQueue := s.inputQueue ++ [entry], queued := s.queued + 1 }
    if s.inputDrainPending then s
    else { s with inputDrainPending := true, scheduling := s.scheduling + 1 }
  | .push => { s with scheduling := s.scheduling - 1, scheduled := s.scheduled + 1 }
  | .start =>
    { s with scheduled := s.scheduled - 1, running := s.running ++ [{ processed := 0, entry := none }] }
  | .take i => takeNext batch s i
  | .handle i => handleEntry s i
  | .yield i => { s with scheduled := s.scheduled + 1, running := s.running.eraseIdx i }

/-! ## Single flight -/

def State.drains (s : State) : ℕ := s.scheduling + s.scheduled + s.running.length

/-- Everything taken from the producers, in the order it is or will be handled. -/
def State.order (s : State) : List Entry :=
  s.handled ++ s.running.filterMap Drain.entry ++ s.inputQueue

/-- The flag stands for exactly one drain, and no message is lost, repeated or out of order. -/
structure Inv (s : State) : Prop where
  drains : s.drains = if s.inputDrainPending then 1 else 0
  idle : s.inputDrainPending = false → s.inputQueue = []
  order : (s.order.map Entry.first).Pairwise (· < ·)
  complete : s.order.flatMap Entry.covers ~ List.range s.queued

/-- A run in which every entry handled can be printed. -/
def Printable (s : State) : Event → Prop
  | .handle i => ∀ entry ∈ inHand s i, TextFits entry.message
  | _ => True

instance (s : State) (e : Event) : Decidable (Printable s e) := by
  cases e <;> unfold Printable <;> infer_instance

theorem Inv.only_drain {s : State} (h : Inv s) {i : ℕ} {d : Drain}
    (hd : s.running[i]? = some d) :
    i = 0 ∧ s.running = [d] ∧ s.inputDrainPending = true ∧ s.scheduling = 0 ∧ s.scheduled = 0 := by
  have hlen := (List.getElem?_eq_some_iff.mp hd).1
  have hcount := h.drains
  unfold State.drains at hcount
  have hpending : s.inputDrainPending = true := by
    by_contra hnot
    rw [if_neg hnot] at hcount
    omega
  rw [if_pos hpending] at hcount
  have hone : s.running.length = 1 := by omega
  obtain ⟨d', hrun⟩ := List.length_eq_one_iff.mp hone
  have hi : i = 0 := by omega
  rw [hrun, hi, List.getElem?_cons_zero, Option.some.injEq] at hd
  exact ⟨hi, by rw [hrun, hd], hpending, by omega, by omega⟩

theorem order_snoc {l : List Entry} {n : ℕ} {m : Message}
    (horder : (l.map Entry.first).Pairwise (· < ·))
    (hcomplete : l.flatMap Entry.covers ~ List.range n) :
    ((l ++ [Entry.mk n [] m]).map Entry.first).Pairwise (· < ·) ∧
      (l ++ [Entry.mk n [] m]).flatMap Entry.covers ~
        List.range (n + 1) := by
  constructor
  · rw [List.map_append, List.pairwise_append]
    refine ⟨horder, List.pairwise_singleton _ _, ?_⟩
    intro a ha b hb
    obtain ⟨e, he, rfl⟩ := List.mem_map.mp ha
    have hcov : e.first ∈ l.flatMap Entry.covers :=
      List.mem_flatMap.mpr ⟨e, he, List.mem_cons_self ..⟩
    have hlt := List.mem_range.mp (hcomplete.mem_iff.mp hcov)
    simp only [List.map_cons, List.map_nil, List.mem_singleton] at hb
    omega
  · rw [List.flatMap_append, List.range_succ]
    exact hcomplete.append (List.Perm.refl _)

theorem passthrough_inv (s : State) (m : Message) (h : Inv s) :
    Inv (next batch s (.passthrough m)) := by
  obtain ⟨hdrains, hidle, horder, hcomplete⟩ := h
  obtain ⟨horder', hcomplete'⟩ := order_snoc (m := m) horder hcomplete
  unfold next
  cases hp : s.inputDrainPending with
  | true =>
    rw [hp, if_pos rfl] at hdrains
    simp only [if_true]
    refine ⟨hdrains, fun hf => ?_, ?_, ?_⟩
    · cases hf
    · simpa only [State.order, List.append_assoc] using horder'
    · simpa only [State.order, List.append_assoc] using hcomplete'
  | false =>
    simp only [Bool.false_eq_true, if_false]
    rw [hp, if_neg (by simp)] at hdrains
    refine ⟨?_, fun hf => ?_, ?_, ?_⟩
    · unfold State.drains at hdrains ⊢
      simp only [if_true]
      omega
    · cases hf
    · simpa only [State.order, List.append_assoc] using horder'
    · simpa only [State.order, List.append_assoc] using hcomplete'

theorem push_inv (s : State) (h : Inv s) (hen : Enabled s .push) : Inv (next batch s .push) := by
  obtain ⟨hdrains, hidle, horder, hcomplete⟩ := h
  have hpos : 0 < s.scheduling := hen
  refine ⟨?_, hidle, horder, hcomplete⟩
  rw [show (next batch s .push).inputDrainPending = s.inputDrainPending from rfl, ← hdrains]
  simp only [State.drains, next]
  omega

theorem start_inv (s : State) (h : Inv s) (hen : Enabled s .start) :
    Inv (next batch s .start) := by
  obtain ⟨hdrains, hidle, horder, hcomplete⟩ := h
  have hpos : 0 < s.scheduled := hen
  have hsame : (next batch s .start).order = s.order := by
    simp [State.order, next]
  refine ⟨?_, hidle, by rw [hsame]; exact horder, by rw [hsame]; exact hcomplete⟩
  rw [show (next batch s .start).inputDrainPending = s.inputDrainPending from rfl, ← hdrains]
  simp only [State.drains, next, List.length_append, List.length_singleton]
  omega

theorem take_inv (s : State) (i : ℕ) (h : Inv s) (hen : Enabled s (.take i)) :
    Inv (next batch s (.take i)) := by
  obtain ⟨d, hd, hnone, -⟩ := hen
  obtain ⟨hi, hrun, hpending, hs1, hs2⟩ := h.only_drain hd
  obtain ⟨hdrains, hidle, horder, hcomplete⟩ := h
  have hbefore : s.order = s.handled ++ s.inputQueue := by
    simp [State.order, hrun, hnone]
  rw [hbefore] at horder hcomplete
  subst hi
  unfold next takeNext
  cases hq : s.inputQueue with
  | nil =>
    rw [hq] at horder hcomplete
    refine ⟨?_, fun _ => rfl, ?_, ?_⟩
    · simp [State.drains, hrun, hs1, hs2]
    · simpa [State.order, hrun] using horder
    · simpa [State.order, hrun] using hcomplete
  | cons entry rest =>
    obtain ⟨hfirst, hsub, hperm⟩ := batchQueue_spec batch entry rest
    rw [hq] at horder hcomplete
    set taken := batchQueue batch entry rest with htaken
    have hmod : s.running.modify 0 (fun d => { d with entry := some taken.1 }) =
        [{ d with entry := some taken.1 }] := by
      rw [hrun]
      rfl
    have hafter : State.order { s with
        inputQueue := taken.2
        running := s.running.modify 0 fun d => { d with entry := some taken.1 } } =
          s.handled ++ taken.1 :: taken.2 := by
      simp only [State.order, hmod]
      simp
    refine ⟨?_, fun hf => ?_, ?_, ?_⟩
    · simp [State.drains, hpending, hrun, hs1, hs2]
    · cases hpending.symm.trans hf
    · rw [hafter]
      refine horder.sublist ?_
      rw [List.map_append, List.map_append, List.map_cons, List.map_cons, hfirst]
      exact (List.Sublist.refl _).append ((hsub.map _).cons_cons _)
    · rw [hafter]
      refine List.Perm.trans ?_ hcomplete
      rw [List.flatMap_append, List.flatMap_append, List.flatMap_cons, List.flatMap_cons]
      exact hperm.append_left _

theorem handle_inv (s : State) (i : ℕ) (h : Inv s) (hen : Enabled s (.handle i))
    (hprint : Printable s (.handle i)) : Inv (next batch s (.handle i)) := by
  obtain ⟨d, hd, hsome⟩ := hen
  obtain ⟨hi, hrun, hpending, hs1, hs2⟩ := h.only_drain hd
  obtain ⟨hdrains, hidle, horder, hcomplete⟩ := h
  obtain ⟨entry, hentry⟩ := Option.ne_none_iff_exists'.mp hsome
  subst hi
  have hhand : inHand s 0 = some entry := by
    simp [inHand, hrun, hentry]
  have hok := (print_ok_iff entry.message).mpr (hprint entry hhand)
  have hsame : (handleEntry s 0).order = s.order := by
    simp [State.order, handleEntry, hhand, hok, hrun, hentry]
  have hdone : (handleEntry s 0).drains = s.drains ∧
      (handleEntry s 0).inputDrainPending = s.inputDrainPending ∧
      (handleEntry s 0).inputQueue = s.inputQueue ∧ (handleEntry s 0).queued = s.queued := by
    simp [State.drains, handleEntry, hhand, hok]
  obtain ⟨h1, h2, h3, h4⟩ := hdone
  show Inv (handleEntry s 0)
  exact ⟨by rw [h1, h2]; exact hdrains, by rw [h2, h3]; exact hidle,
    by rw [hsame]; exact horder, by rw [hsame, h4]; exact hcomplete⟩

theorem yield_inv (s : State) (i : ℕ) (h : Inv s) (hen : Enabled s (.yield i)) :
    Inv (next batch s (.yield i)) := by
  obtain ⟨d, hd, hnone, -⟩ := hen
  obtain ⟨hi, hrun, hpending, hs1, hs2⟩ := h.only_drain hd
  obtain ⟨hdrains, hidle, horder, hcomplete⟩ := h
  subst hi
  have hsame : (next batch s (.yield 0)).order = s.order := by
    simp [State.order, next, hrun, hnone]
  refine ⟨?_, hidle, by rw [hsame]; exact horder, by rw [hsame]; exact hcomplete⟩
  simp [State.drains, next, hrun, hs1, hs2, hpending]

/-- A throw leaves the flag set and no drain anywhere. -/
theorem handle_throw (s : State) (i : ℕ) (h : Inv s) (entry : Entry)
    (hhand : inHand s i = some entry) (hbad : ¬ TextFits entry.message) :
    (handleEntry s i).inputDrainPending = true ∧ (handleEntry s i).drains = 0 := by
  obtain ⟨d, hd, -⟩ : ∃ d, s.running[i]? = some d ∧ d.entry = some entry :=
    Option.bind_eq_some_iff.mp hhand
  obtain ⟨hi, hrun, hpending, hs1, hs2⟩ := h.only_drain hd
  subst hi
  have hprint : print entry.message ≠ .ok () := fun hok => hbad ((print_ok_iff _).mp hok)
  unfold handleEntry
  cases hp : print entry.message with
  | ok u => exact absurd hp hprint
  | error fault =>
    simp only [hhand, hp]
    exact ⟨hpending, by simp [State.drains, hrun, hs1, hs2]⟩

theorem next_inv (s : State) (e : Event) (h : Inv s) (hstep : Enabled s e ∧ Printable s e) :
    Inv (next batch s e) := by
  obtain ⟨hen, hprint⟩ := hstep
  cases e with
  | passthrough m => exact passthrough_inv batch s m h
  | push => exact push_inv batch s h hen
  | start => exact start_inv batch s h hen
  | take i => exact take_inv batch s i h hen
  | handle i => exact handle_inv batch s i h hen hprint
  | yield i => exact yield_inv batch s i h hen

theorem inv_init : Inv {} := by
  refine ⟨rfl, fun _ => rfl, List.Pairwise.nil, List.Perm.refl _⟩

end Drain

/-! ## Runs -/

/-- A queued message has a drain on its way, at most one drain runs, and messages are handled in the
order they were queued, each exactly once and possibly batched into an earlier one. -/
structure SingleFlight (s : State) : Prop where
  wakeup : s.inputQueue ≠ [] → 0 < s.drains
  pending : s.inputDrainPending = true → 0 < s.drains
  single : s.running.length ≤ 1
  ordered : (s.order.map Entry.first).Pairwise (· < ·)
  complete : s.order.flatMap Entry.covers ~ List.range s.queued

theorem Inv.singleFlight {s : State} (h : Inv s) : SingleFlight s := by
  have hdrains := h.drains
  refine ⟨fun hq => ?_, fun hp => ?_, ?_, h.order, h.complete⟩
  · cases hp : s.inputDrainPending with
    | true =>
      rw [hp, if_pos rfl] at hdrains
      omega
    | false => exact absurd (h.idle hp) hq
  · rw [hp, if_pos rfl] at hdrains
    omega
  · unfold State.drains at hdrains
    split_ifs at hdrains <;> omega

theorem inv_run (batch : Message → Message → BatchResult) (s : State) (l : List Event) (hs : Inv s)
    (h : Runs (fun s e => Enabled s e ∧ Printable s e) (next batch) s l) :
    Inv (l.foldl (next batch) s) :=
  h.invariant Inv hs fun s e hs hstep => next_inv batch s e hs hstep

/-- A run that is single-flight all along handles only entries that can be printed. -/
theorem printable_of_singleFlight (batch : Message → Message → BatchResult) (s : State)
    (l : List Event) (hs : Inv s) (h : Runs Enabled (next batch) s l)
    (hsafe : ∀ m n, l = m ++ n → SingleFlight (m.foldl (next batch) s)) :
    Runs (fun s e => Enabled s e ∧ Printable s e) (next batch) s l := by
  induction l generalizing s with
  | nil => trivial
  | cons e l ih =>
    have hprint : Printable s e := by
      cases e with
      | handle i =>
        intro entry hhand
        by_contra hbad
        obtain ⟨hpending, hnone⟩ := handle_throw s i hs entry hhand hbad
        have hdrains : 0 < (handleEntry s i).drains := (hsafe [.handle i] l rfl).pending hpending
        omega
      | _ => trivial
    refine ⟨⟨h.1, hprint⟩, ih _ (next_inv batch s e hs ⟨h.1, hprint⟩) h.2 fun m n hl => ?_⟩
    exact hsafe (e :: m) n (by rw [hl, List.cons_append])

/-- Over any interleaving of producers and drains: the drain is single-flight in every state of a run
exactly when the run handles no text message whose length does not fit. -/
theorem drain_single_flight_iff (batch : Message → Message → BatchResult) (l : List Event)
    (h : Runs Enabled (next batch) {} l) :
    (∀ m n, l = m ++ n → SingleFlight (m.foldl (next batch) {})) ↔
      Runs (fun s e => Enabled s e ∧ Printable s e) (next batch) {} l := by
  constructor
  · exact printable_of_singleFlight batch {} l inv_init h
  · intro hrun m n hl
    subst hl
    exact (inv_run batch {} m inv_init hrun.front).singleFlight

/-- One text message, drained to the end. -/
theorem drain_single_flight_text :
    (∀ m n, [Event.passthrough ⟨6, .utf8Text, [104, 105]⟩, .push, .start, .take 0, .handle 0,
        .take 0] = m ++ n → SingleFlight (m.foldl (next fun _ _ => .terminateBatch) {})) ↔
      Runs (fun s e => Enabled s e ∧ Printable s e) (next fun _ _ => .terminateBatch) {}
        [Event.passthrough ⟨6, .utf8Text, [104, 105]⟩, .push, .start, .take 0, .handle 0, .take 0] :=
  drain_single_flight_iff (fun _ _ => .terminateBatch) _ (by decide)

/-- A text message that says it is shorter than its magic: its drain throws, and the next message
stays in the queue with no drain on its way. -/
theorem drain_lost_wakeup :
    ¬ ∀ l : List Event, Runs Enabled (next fun _ _ => .terminateBatch) {} l →
      SingleFlight (l.foldl (next fun _ _ => .terminateBatch) {}) := by
  intro hall
  have hsafe := hall [.passthrough ⟨2, .utf8Text, [104, 105]⟩, .push, .start, .take 0, .handle 0,
    .passthrough ⟨8, .keyDown, [0, 0, 0, 0]⟩] (by decide)
  have hdrains := hsafe.wakeup (by decide)
  revert hdrains
  decide

end Sunshine.Input
