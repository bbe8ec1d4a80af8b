import Mathlib.Data.List.Nodup
import Sunshine.Lib.Fifo
import Sunshine.ThreadSafe.Queue

/-! What the bounded queue returns and keeps, over all orders of the threads' operations.

Dropping the oldest element keeps exactly the last elements that are not returned yet; clearing loses only elements
older than all it keeps. Under both policies the pops return elements raised before the stop, each once and in the
order raised: `bounded_fifo`. -/
namespace Sunshine.ThreadSafe
open Fifo
set_option autoImplicit false

variable {α κ : Type}

def Event.raisedValue : Event α κ → Option α
  | .raise value => some value
  | _ => none

def Event.notStop : Event α κ → Bool
  | .stop => false
  | _ => true

def raised (events : List (Event α κ)) : List α := events.filterMap Event.raisedValue

def raisedBeforeStop (events : List (Event α κ)) : List (α × ℕ) := (raised (events.takeWhile Event.notStop)).zipIdx

/-- The last elements, or all of them where the maximum is zero, for no limit. -/
def latest (maxElements : ℕ) (l : List (α × ℕ)) : List (α × ℕ) := if maxElements = 0 then l else l.rtake maxElements

theorem latest_suffix (maxElements : ℕ) (l : List (α × ℕ)) : latest maxElements l <:+ l := by
  unfold latest
  split
  · exact List.suffix_refl l
  · exact rtake_suffix l maxElements

def State.notReturned (s : State α κ) (x : α × ℕ) : Bool := x.2 ∉ s.returned.map Prod.snd

/-- The elements raised before the stop and not yet returned. -/
def outstanding (events : List (Event α κ)) (s : State α κ) : List (α × ℕ) :=
  (raisedBeforeStop events).filter s.notReturned

/-! ## The raised elements -/

theorem raisedBeforeStop_of_running {events : List (Event α κ)} (h : events.all Event.notStop = true) :
    raisedBeforeStop events = (raised events).zipIdx := by
  unfold raisedBeforeStop
  rw [List.takeWhile_eq_self_iff.mpr (List.all_eq_true.mp h)]

theorem raisedBeforeStop_of_stopped {events : List (Event α κ)} (h : events.all Event.notStop = false)
    (e : Event α κ) : raisedBeforeStop (events ++ [e]) = raisedBeforeStop events := by
  unfold raisedBeforeStop
  induction events with
  | nil => cases h
  | cons d events ih =>
    cases hd : d.notStop with
    | false => simp [hd]
    | true =>
      rw [List.all_cons, hd, Bool.true_and] at h
      have hsame : (events ++ [e]).takeWhile Event.notStop = events.takeWhile Event.notStop := by
        rw [List.takeWhile_append, if_neg]
        intro hlength
        have hself := (List.takeWhile_prefix Event.notStop (l := events)).eq_of_length hlength
        rw [List.takeWhile_eq_self_iff, ← List.all_eq_true, h] at hself
        cases hself
      rw [List.cons_append, List.takeWhile_cons_of_pos hd, List.takeWhile_cons_of_pos hd, hsame]

theorem raisedBeforeStop_append (events : List (Event α κ)) {e : Event α κ} (he : e.raisedValue = none) :
    raisedBeforeStop (events ++ [e]) = raisedBeforeStop events := by
  cases h : events.all Event.notStop with
  | false => exact raisedBeforeStop_of_stopped h e
  | true =>
    have hnone : ([e].takeWhile Event.notStop).filterMap Event.raisedValue = [] := by
      cases hstop : e.notStop with
      | false => simp [hstop]
      | true => simp [hstop, he]
    rw [raisedBeforeStop_of_running h]
    unfold raisedBeforeStop raised
    rw [List.takeWhile_append_of_pos (List.all_eq_true.mp h), List.filterMap_append, hnone, List.append_nil]

theorem raised_append (events : List (Event α κ)) {e : Event α κ} (he : e.raisedValue = none) :
    raised (events ++ [e]) = raised events := by
  unfold raised
  rw [List.filterMap_append, List.filterMap_cons_none he, List.filterMap_nil, List.append_nil]

theorem raised_raise (events : List (Event α κ)) (value : α) :
    raised (events ++ [.raise value]) = raised events ++ [value] := by
  unfold raised
  rw [List.filterMap_append]
  rfl

theorem raisedBeforeStop_raise {events : List (Event α κ)} (h : events.all Event.notStop = true) (value : α) :
    raisedBeforeStop (events ++ [.raise value]) = raisedBeforeStop events ++ [(value, (raised events).length)] := by
  have h' : (events ++ [Event.raise value]).all Event.notStop = true := by
    rw [List.all_append, h]
    rfl
  rw [raisedBeforeStop_of_running h, raisedBeforeStop_of_running h', raised_raise, List.zipIdx_append]
  simp

theorem nodup_raisedBeforeStop (events : List (Event α κ)) : (raisedBeforeStop events).Nodup := by
  refine List.Nodup.of_map Prod.snd ?_
  unfold raisedBeforeStop
  rw [List.zipIdx_map_snd]
  exact List.nodup_range'

theorem ordered_raisedBeforeStop (events : List (Event α κ)) :
    (raisedBeforeStop events).Pairwise fun x y => x.2 < y.2 := by
  rw [← List.pairwise_map]
  unfold raisedBeforeStop
  rw [List.zipIdx_map_snd]
  exact List.pairwise_lt_range'

/-! ## One step -/

/-- The queue is unchanged, or its front is returned. -/
def State.Pops (s s' : State α κ) : Prop :=
  s'.raises = s.raises ∧ (s'.queue = s.queue ∧ s'.returned = s.returned ∨
    ∃ x rest, s.queue.queue = x :: rest ∧ s'.queue = { s.queue with queue := rest } ∧ s'.returned = s.returned ++ [x])

theorem pops_refl (s : State α κ) : s.Pops s := ⟨rfl, .inl ⟨rfl, rfl⟩⟩

theorem pops_of_popped {s s' : State α κ} {status : Option (α × ℕ)} (h : s.queue.Popped status s'.queue)
    (hraises : s'.raises = s.raises) (hreturned : s'.returned = s.returned ++ status.toList) : s.Pops s' := by
  refine ⟨hraises, ?_⟩
  rcases h with ⟨rfl, hqueue⟩ | ⟨x, rest, hfront, rfl, hqueue⟩
  · exact .inl ⟨hqueue, by rw [hreturned, Option.toList_none, List.append_nil]⟩
  · exact .inr ⟨x, rest, hfront, hqueue, hreturned⟩

variable [DecidableEq κ]

theorem proceed_pops (s : State α κ) (consumer : κ) (wait : Wait) {progress : Progress (α × ℕ)} {q : Queue (α × ℕ)}
    (h : s.queue.Progressed progress q) : s.Pops (s.proceed consumer wait (progress, q)) := by
  cases progress with
  | waits => exact ⟨rfl, .inl ⟨h, rfl⟩⟩
  | returns status => exact pops_of_popped h rfl rfl

/-- Every event that neither raises nor stops pops. -/
theorem step_pops (s : State α κ) {e : Event α κ} (hraise : e.raisedValue = none) (hstop : e.notStop = true) :
    s.Pops (step s e) := by
  cases e with
  | raise value => cases hraise
  | stop => cases hstop
  | tryPop => exact pops_of_popped s.queue.tryPop_popped rfl rfl
  | pop consumer =>
    simp only [step]
    cases s.waiting consumer with
    | none => exact proceed_pops s consumer .unlimited s.queue.pop_progressed
    | some wait => exact pops_refl s
  | popFor consumer =>
    simp only [step]
    cases s.waiting consumer with
    | none => exact proceed_pops s consumer .limited s.queue.popFor_progressed
    | some wait => exact pops_refl s
  | wake consumer =>
    simp only [step]
    cases s.waiting consumer with
    | none => exact pops_refl s
    | some wait =>
      cases wait with
      | unlimited => exact proceed_pops s consumer .unlimited s.queue.pop_progressed
      | limited => exact proceed_pops s consumer .limited s.queue.popForLoop_progressed
  | timeout consumer =>
    simp only [step]
    cases s.waiting consumer with
    | none => exact pops_refl s
    | some wait =>
      cases wait with
      | unlimited => exact pops_refl s
      | limited => exact proceed_pops s consumer .limited (.inl ⟨rfl, rfl⟩)

/-! ## Runs -/

structure Invariant (maxElements : ℕ) (overflowPolicy : QueueOverflow) (events : List (Event α κ))
    (s : State α κ) : Prop where
  bound : s.queue.maxElements = maxElements
  policy : s.queue.overflowPolicy = overflowPolicy
  raises : s.raises = (raised events).length
  running : s.queue.continues = events.all Event.notStop
  kept : Kept (raisedBeforeStop events) s.returned s.queue.queue
  recent : overflowPolicy = .dropOldest → s.queue.queue <:+ latest maxElements (raisedBeforeStop events) ∧
    Accounted (latest maxElements (raisedBeforeStop events)) s.returned s.queue.queue

namespace Invariant

variable {maxElements : ℕ} {overflowPolicy : QueueOverflow} {events : List (Event α κ)} {s s' : State α κ}

omit [DecidableEq κ] in
theorem pops (h : Invariant maxElements overflowPolicy events s) {e : Event α κ} (hraise : e.raisedValue = none)
    (hstop : e.notStop = true) (hpops : s.Pops s') : Invariant maxElements overflowPolicy (events ++ [e]) s' := by
  have hraised := raisedBeforeStop_append events hraise
  have hcount := raised_append events hraise
  have hall : (events ++ [e]).all Event.notStop = events.all Event.notStop := by
    rw [List.all_append, List.all_cons, hstop]
    simp
  obtain ⟨hraises, hsame | ⟨x, rest, hfront, hqueue, hreturned⟩⟩ := hpops
  · obtain ⟨hqueue, hreturned⟩ := hsame
    constructor
    · rw [hqueue, h.bound]
    · rw [hqueue, h.policy]
    · rw [hraises, hcount, h.raises]
    · rw [hqueue, hall, h.running]
    · rw [hraised, hqueue, hreturned]
      exact h.kept
    · rw [hraised, hqueue, hreturned]
      exact h.recent
  · constructor
    · rw [hqueue, ← h.bound]
    · rw [hqueue, ← h.policy]
    · rw [hraises, hcount, h.raises]
    · rw [hqueue, hall, ← h.running]
    · rw [hraised, hqueue, hreturned]
      exact (hfront ▸ h.kept).give
    · intro hdrop
      obtain ⟨hsuffix, haccounted⟩ := h.recent hdrop
      rw [hfront] at hsuffix haccounted
      rw [hraised, hqueue, hreturned]
      exact ⟨(List.suffix_cons x rest).trans hsuffix, haccounted.give⟩

theorem stop (h : Invariant maxElements overflowPolicy events s) :
    Invariant maxElements overflowPolicy (events ++ [.stop]) (step s .stop) := by
  have hraised := raisedBeforeStop_append events (e := .stop) rfl
  have hcount := raised_append events (e := .stop) rfl
  constructor
  · exact h.bound
  · exact h.policy
  · rw [hcount]
    exact h.raises
  · rw [List.all_append]
    simp [step, Queue.stop, Event.notStop]
  · rw [hraised]
    exact h.kept
  · rw [hraised]
    exact h.recent

/-- A raise behind the stop is lost. -/
theorem raise_stopped (h : Invariant maxElements overflowPolicy events s) (hstopped : s.queue.continues = false)
    (value : α) : Invariant maxElements overflowPolicy (events ++ [.raise value]) (step s (.raise value)) := by
  have hall : events.all Event.notStop = false := h.running ▸ hstopped
  have hraised := raisedBeforeStop_of_stopped hall (.raise value)
  have hqueue : (step s (.raise value)).queue = s.queue := s.queue.raise_stopped hstopped _
  constructor
  · rw [hqueue, h.bound]
  · rw [hqueue, h.policy]
  · rw [raised_raise, List.length_append, ← h.raises]
    rfl
  · rw [hqueue, hstopped, List.all_append, hall, Bool.false_and]
  · rw [hraised, hqueue]
    exact h.kept
  · rw [hraised, hqueue]
    exact h.recent

omit [DecidableEq κ] in
theorem recent_raise (h : Invariant maxElements .dropOldest events s) (x : α × ℕ) :
    s.queue.overflow ++ [x] <:+ latest maxElements (raisedBeforeStop events ++ [x]) ∧
      Accounted (latest maxElements (raisedBeforeStop events ++ [x])) s.returned (s.queue.overflow ++ [x]) := by
  obtain ⟨hsuffix, haccounted⟩ := h.recent rfl
  unfold latest at hsuffix haccounted ⊢
  by_cases hzero : maxElements = 0
  · have hoverflow : s.queue.overflow = s.queue.queue := if_neg fun hfull => hfull.1 (h.bound.trans hzero)
    rw [if_pos hzero] at hsuffix haccounted ⊢
    rw [hoverflow]
    refine ⟨(List.suffix_append_inj_of_length_eq rfl).mpr ⟨hsuffix, rfl⟩, haccounted.push fun y hy => ?_⟩
    simpa using hy
  · rw [if_neg hzero] at hsuffix haccounted ⊢
    by_cases hfull : maxElements ≤ s.queue.queue.length
    · have hoverflow : s.queue.overflow = s.queue.queue.tail := by
        unfold Queue.overflow
        rw [h.bound, if_pos ⟨hzero, hfull⟩, h.policy]
      have hlength : s.queue.queue.length = maxElements := by
        have hle := hsuffix.length_le
        rw [List.rtake, List.length_drop] at hle
        omega
      rw [hoverflow, tail_push_eq_rtake h.kept.suffix hlength (Nat.pos_of_ne_zero hzero)]
      exact ⟨List.suffix_refl _, fun y hy => .inr hy⟩
    · have hoverflow : s.queue.overflow = s.queue.queue := if_neg fun h' => hfull (h.bound ▸ h'.2)
      rw [hoverflow]
      refine ⟨suffix_rtake ?_ ?_, haccounted.push fun y hy => mem_rtake_concat hy⟩
      · exact (List.suffix_append_inj_of_length_eq rfl).mpr ⟨h.kept.suffix, rfl⟩
      · rw [List.length_append, List.length_singleton]
        omega

theorem raise_running (h : Invariant maxElements overflowPolicy events s) (hrunning : s.queue.continues = true)
    (value : α) : Invariant maxElements overflowPolicy (events ++ [.raise value]) (step s (.raise value)) := by
  have hall : events.all Event.notStop = true := h.running ▸ hrunning
  have hraised : raisedBeforeStop (events ++ [.raise value]) = raisedBeforeStop events ++ [(value, s.raises)] := by
    rw [h.raises]
    exact raisedBeforeStop_raise hall value
  have hqueue : (step s (.raise value)).queue = { s.queue with queue := s.queue.overflow ++ [(value, s.raises)] } :=
    s.queue.raise_running hrunning _
  constructor
  · rw [hqueue, ← h.bound]
  · rw [hqueue, ← h.policy]
  · rw [raised_raise, List.length_append, ← h.raises]
    rfl
  · rw [hqueue, List.all_append, hall]
    exact hrunning
  · rw [hraised, hqueue]
    obtain ⟨front, hfront⟩ := s.queue.overflow_suffix
    have hkept : Kept (raisedBeforeStop events) s.returned (front ++ s.queue.overflow) := hfront ▸ h.kept
    exact hkept.lose.push (value, s.raises)
  · rintro rfl
    rw [hraised, hqueue]
    exact h.recent_raise (value, s.raises)

theorem step (h : Invariant maxElements overflowPolicy events s) (e : Event α κ) :
    Invariant maxElements overflowPolicy (events ++ [e]) (step s e) := by
  cases e with
  | raise value =>
    cases hrunning : s.queue.continues with
    | true => exact h.raise_running hrunning value
    | false => exact h.raise_stopped hrunning value
  | stop => exact h.stop
  | tryPop => exact h.pops rfl rfl (step_pops s rfl rfl)
  | pop consumer => exact h.pops rfl rfl (step_pops s rfl rfl)
  | popFor consumer => exact h.pops rfl rfl (step_pops s rfl rfl)
  | wake consumer => exact h.pops rfl rfl (step_pops s rfl rfl)
  | timeout consumer => exact h.pops rfl rfl (step_pops s rfl rfl)

end Invariant

/-- The queue and its users after the events. -/
def after (maxElements : ℕ) (overflowPolicy : QueueOverflow) (events : List (Event α κ)) : State α κ :=
  run (start maxElements overflowPolicy) events

theorem invariant_after (maxElements : ℕ) (overflowPolicy : QueueOverflow) (events : List (Event α κ)) :
    Invariant maxElements overflowPolicy events (after maxElements overflowPolicy events) := by
  induction events using List.reverseRecOn with
  | nil =>
    refine ⟨rfl, rfl, rfl, rfl, kept_nil, fun _ => ⟨List.nil_suffix, fun x hx => ?_⟩⟩
    have hmem : x ∈ raisedBeforeStop ([] : List (Event α κ)) := (latest_suffix maxElements _).subset hx
    cases hmem
  | append_singleton events e ih =>
    unfold after run at ih ⊢
    rw [List.foldl_append]
    exact ih.step e

omit [DecidableEq κ] in
/-- The number of an element tells it from the others. -/
theorem notReturned_iff {events : List (Event α κ)} {s : State α κ}
    (hreturned : ∀ y ∈ s.returned, y ∈ raisedBeforeStop events) :
    ∀ x ∈ raisedBeforeStop events, s.notReturned x = true ↔ x ∉ s.returned := by
  intro x hx
  unfold State.notReturned
  rw [decide_eq_true_iff, List.mem_map, not_iff_not]
  constructor
  · rintro ⟨y, hy, hnumber⟩
    have hx' := List.mem_zipIdx_iff_getElem?.mp hx
    have hy' := List.mem_zipIdx_iff_getElem?.mp (hreturned y hy)
    rw [hnumber, hx', Option.some.injEq] at hy'
    exact Prod.ext hy' hnumber.symm ▸ hy
  · intro hmem
    exact ⟨x, hmem, rfl⟩

/-- Dropping the oldest element keeps of the last elements raised those not yet returned. Clearing keeps the last of all
those not yet returned, so an element it loses is older than all it keeps. What is returned was raised before the stop,
and is returned in the order raised. -/
theorem bounded_fifo (maxElements : ℕ) (events : List (Event α κ)) :
    (after maxElements .dropOldest events).queue.queue =
        (latest maxElements (raisedBeforeStop events)).filter (after maxElements .dropOldest events).notReturned ∧
      ((after maxElements .clearAll events).queue.queue <:+ outstanding events (after maxElements .clearAll events) ∧
        ∀ lost ∈ outstanding events (after maxElements .clearAll events),
          lost ∉ (after maxElements .clearAll events).queue.queue →
            ∀ kept ∈ (after maxElements .clearAll events).queue.queue, lost.2 < kept.2) ∧
      ∀ overflowPolicy, ((after maxElements overflowPolicy events).returned.Pairwise fun x y => x.2 < y.2) ∧
        ∀ x ∈ (after maxElements overflowPolicy events).returned, x ∈ raisedBeforeStop events := by
  have hnodup := nodup_raisedBeforeStop events
  have hnot : ∀ overflowPolicy, ∀ x ∈ raisedBeforeStop events,
      (after maxElements overflowPolicy events).notReturned x = true ↔
        x ∉ (after maxElements overflowPolicy events).returned := fun overflowPolicy =>
    notReturned_iff fun y hy => (invariant_after maxElements overflowPolicy events).kept.given_sublist.subset hy
  refine ⟨?_, ?_, fun overflowPolicy => ?_⟩
  · have hinv := invariant_after maxElements .dropOldest events
    obtain ⟨hsuffix, haccounted⟩ := hinv.recent rfl
    exact hinv.kept.eq_filter hnodup (hnot .dropOldest) (latest_suffix maxElements _) hsuffix haccounted
  · have hinv := invariant_after maxElements .clearAll events
    have hsuffix := hinv.kept.suffix_filter hnodup (hnot .clearAll)
    refine ⟨hsuffix, fun lost hlost hout kept hkept => ?_⟩
    have hordered := (ordered_raisedBeforeStop events).filter (after maxElements .clearAll events).notReturned
    obtain ⟨older, hsplit⟩ := hsuffix
    unfold outstanding at hlost
    rw [← hsplit] at hlost hordered
    have holder : lost ∈ older := (List.mem_append.mp hlost).resolve_right hout
    exact (List.pairwise_append.mp hordered).2.2 lost holder kept hkept
  · have hinv := invariant_after maxElements overflowPolicy events
    exact ⟨(ordered_raisedBeforeStop events).sublist hinv.kept.given_sublist, fun x hx =>
      hinv.kept.given_sublist.subset hx⟩

end Sunshine.ThreadSafe
