import Sunshine.Lib.Pacing
import Sunshine.Lib.Transitions

/-! The pace of the PipeWire capture: the process callback publishes frames, and the capture thread waits for one, asks whether
the newest is due, and delivers the one that is published when it copies.

`frames_delivered` says in which runs the newest frame is shown at each timeout. -/
namespace Sunshine.PipewirePacing
open Pacing Transitions
set_option autoImplicit false

/-! ## The delivery interval -/

/-- `AVRational`. -/
structure Rational where
  num : ℤ
  den : ℤ

/-- `d2q` is `av_d2q` of a hundredth of the number; the product is an `int`. -/
def framerateX100ToRational (d2q : ℤ → Rational) (framerateX100 : ℤ) : Rational :=
  if framerateX100 % 2997 = 0 then ⟨Int.bmod (framerateX100 / 2997 * 30000) 4294967296, 1001⟩
  else if framerateX100 = 2397 ∨ framerateX100 = 2398 then ⟨24000, 1001⟩
  else d2q framerateX100

structure Config where
  framerate : ℕ
  framerateX100 : ℤ
  d2q : ℤ → Rational

/-- In nanoseconds. -/
def deliveryInterval (config : Config) : ℤ :=
  if 0 < config.framerateX100 then
    ((framerateX100ToRational config.d2q config.framerateX100).den * 1000000000).tdiv
      (framerateX100ToRational config.d2q config.framerateX100).num
  else 1000000000 / max config.framerate 1

/-- Without a strict rate, the interval is positive up to a frame each nanosecond. -/
theorem deliveryInterval_pos {config : Config} (hstrict : config.framerateX100 ≤ 0) (hrate : config.framerate ≤ 1000000000) :
    0 < deliveryInterval config := by
  unfold deliveryInterval
  rw [if_neg (not_lt.mpr hstrict)]
  refine Int.lt_of_lt_of_le Int.zero_lt_one ((Int.le_ediv_iff_mul_le ?_).mpr ?_)
  · omega
  · omega

/-! ## The threads -/

/-- Where the capture thread is: between two snapshots, at the top of the loop in `snapshot`, behind `wait_for_frame`, behind
a test that found the frame due, in the loop over `next_frame_due` for ever, or gone. -/
inductive Phase where
  | capture
  | waiting
  | woken
  | due
  | stuck
  | left
  deriving DecidableEq

/-- The arrival times of the frames that were published, and the frames that were delivered, by their number and time.
`skipped` is not in the source: the newest frame was found early, and is not delivered. -/
structure State where
  published : List ℤ
  ready : Bool
  nextFrameDue : Option ℤ
  phase : Phase
  delivered : List (ℕ × ℤ)
  skipped : Bool

def start : State where
  published := []
  ready := false
  nextFrameDue := none
  phase := .capture
  delivered := []
  skipped := false

inductive Event where
  /-- `on_process` -/
  | published (time : ℤ)
  | snapshot
  /-- The deadline has passed at the top of the loop. -/
  | expired
  /-- The wait comes to its deadline. -/
  | waited
  | woken
  | tested
  | filled
  /-- A callback ends the capture. -/
  | left

namespace State

/-- The number of the newest frame. -/
def number (s : State) : ℕ := s.published.length - 1

def newest (s : State) : ℤ := s.published.getLastD 0

def undelivered (s : State) : Bool := s.published ≠ [] ∧ s.number ∉ s.delivered.map Prod.fst

/-- `frame_is_due` fails. -/
def early (s : State) : Bool := s.nextFrameDue.any fun due => s.newest < due

end State

/-- The image is filled, and the deadline moves behind its time. -/
def deliver (interval : ℤ) (s : State) : State :=
  match s.nextFrameDue with
  | none => { s with
    nextFrameDue := some (s.newest + interval)
    phase := .capture
    delivered := s.delivered ++ [(s.number, s.newest)] }
  | some due =>
    match advance interval due s.newest with
    | some due' => { s with
      nextFrameDue := some due'
      phase := .capture
      delivered := s.delivered ++ [(s.number, s.newest)] }
    | none => { s with phase := .stuck }

def next (interval : ℤ) (s : State) : Event → State
  | .published time => { s with published := s.published ++ [time], ready := true, skipped := false }
  | .snapshot => { s with phase := .waiting }
  | .expired | .waited => { s with phase := .capture }
  | .woken => { s with phase := .woken, ready := false }
  | .tested => if s.early then { s with phase := .waiting, skipped := s.undelivered } else { s with phase := .due }
  | .filled => deliver interval s
  | .left => { s with phase := .left }

def Enabled (s : State) : Event → Prop
  | .published _ => True
  | .snapshot => s.phase = .capture
  | .expired => s.phase = .waiting
  | .waited => s.phase = .waiting ∧ s.ready = false
  | .woken => s.phase = .waiting ∧ s.ready = true
  | .tested => s.phase = .woken
  | .filled => s.phase = .due
  | .left => s.phase = .due ∨ s.phase = .capture

instance (s : State) (event : Event) : Decidable (Enabled s event) :=
  match event with
  | .published _ => inferInstanceAs (Decidable True)
  | .snapshot => inferInstanceAs (Decidable (_ = _))
  | .expired => inferInstanceAs (Decidable (_ = _))
  | .waited => inferInstanceAs (Decidable (_ ∧ _))
  | .woken => inferInstanceAs (Decidable (_ ∧ _))
  | .tested => inferInstanceAs (Decidable (_ = _))
  | .filled => inferInstanceAs (Decidable (_ = _))
  | .left => inferInstanceAs (Decidable (_ ∨ _))

def Event.isTimeout : Event → Bool
  | .expired | .waited => true
  | _ => false

/-! ## What is to hold -/

/-- The frames delivered are published ones, in their order and each of them once, far enough apart; the loop over the deadline
ends; and at a timeout the newest frame is delivered. -/
structure FramesDelivered (interval : ℤ) (events : List Event) : Prop where
  frames : ∀ entry ∈ (events.foldl (next interval) start).delivered,
    (events.foldl (next interval) start).published[entry.1]? = some entry.2
  ordered : ((events.foldl (next interval) start).delivered.map Prod.fst).Pairwise (· < ·)
  spaced : Spaced interval ((events.foldl (next interval) start).delivered.map Prod.snd)
  ends : (events.foldl (next interval) start).phase ≠ .stuck
  newest : ∀ front event rest, events = front ++ event :: rest → event.isTimeout = true →
    (front.foldl (next interval) start).undelivered = false

/-- A timeout finds the newest frame neither skipped nor ready and undelivered; and behind a first delivery the interval is
positive, and the frame that is copied is not stamped before the deadline. -/
def Good (interval : ℤ) (s : State) : Event → Prop
  | .expired | .waited => s.skipped = false ∧ (s.ready = true → s.undelivered = false)
  | .filled => ∀ due ∈ s.nextFrameDue, 0 < interval ∧ due ≤ s.newest
  | _ => True

instance (interval : ℤ) (s : State) (event : Event) : Decidable (Good interval s event) :=
  match event with
  | .published _ | .snapshot | .woken | .tested | .left => inferInstanceAs (Decidable True)
  | .expired | .waited => inferInstanceAs (Decidable (_ ∧ (_ → _)))
  | .filled => inferInstanceAs (Decidable (∀ due ∈ s.nextFrameDue, _ ∧ _))

/-- The stamps are those of a steady clock. -/
def Steady (s : State) : Prop := s.published.Pairwise (· ≤ ·)

/-! ## What the threads keep -/

structure Inv (interval : ℤ) (s : State) : Prop where
  frames : ∀ entry ∈ s.delivered, s.published[entry.1]? = some entry.2
  ordered : (s.delivered.map Prod.fst).Pairwise (· < ·)
  spaced : Spaced interval (s.delivered.map Prod.snd)
  fresh : s.nextFrameDue = none → s.delivered = []
  paced : 0 < interval → ∀ due ∈ s.nextFrameDue, Paced interval due (s.delivered.map Prod.snd)
  published : s.ready = true ∨ s.phase = .woken ∨ s.phase = .due → s.published ≠ []
  pending : s.phase = .capture ∨ s.phase = .waiting → s.undelivered = true → s.ready = true ∨ s.skipped = true
  skipped : s.skipped = true → s.early = true ∧ s.undelivered = true
  settled : s.phase = .due → s.skipped = false
  going : s.phase ≠ .stuck
  passed : Steady s → s.phase = .due → ∀ due ∈ s.nextFrameDue, due ≤ s.newest

section Steps
variable {interval : ℤ} {s : State} {event : Event}

theorem inv_start (interval : ℤ) : Inv interval start where
  frames _ hentry := absurd hentry List.not_mem_nil
  ordered := List.Pairwise.nil
  spaced := spaced_nil interval
  fresh _ := rfl
  paced _ due hdue := absurd hdue (Option.not_mem_none due)
  published hsome := by simp [start] at hsome
  pending _ hundelivered := absurd hundelivered (by decide)
  skipped hskipped := Bool.noConfusion hskipped
  settled hphase := Phase.noConfusion hphase
  going hphase := Phase.noConfusion hphase
  passed _ hphase := Phase.noConfusion hphase

theorem newest_mem (h : s.published ≠ []) : s.newest ∈ s.published := by
  rw [State.newest, List.getLastD_eq_getLast?, List.getLast?_eq_some_getLast h]
  exact List.getLast_mem h

theorem getElem?_number (h : s.published ≠ []) : s.published[s.number]? = some s.newest := by
  rw [State.number, State.newest, List.getLastD_eq_getLast?, ← List.getLast?_eq_getElem?, List.getLast?_eq_some_getLast h]
  rfl

theorem early_eq_false_iff : s.early = false ↔ ∀ due ∈ s.nextFrameDue, due ≤ s.newest := by
  unfold State.early
  cases s.nextFrameDue with
  | none => simp
  | some due => simp

theorem inv_published (h : Inv interval s) (time : ℤ) : Inv interval (next interval s (.published time)) where
  frames entry hentry := by
    have hold := h.frames entry hentry
    obtain ⟨hlt, -⟩ := List.getElem?_eq_some_iff.mp hold
    exact (List.getElem?_append_left hlt).trans hold
  ordered := h.ordered
  spaced := h.spaced
  fresh := h.fresh
  paced := h.paced
  published _ := List.append_ne_nil_of_right_ne_nil _ (List.cons_ne_nil _ _)
  pending _ _ := .inl rfl
  skipped hskipped := Bool.noConfusion hskipped
  settled _ := rfl
  going := h.going
  passed hsteady hphase due hdue := by
    obtain ⟨hold, -, hlast⟩ := List.pairwise_append.mp hsteady
    have hbefore := h.passed hold hphase due hdue
    have hmem := newest_mem (h.published (.inr (.inr hphase)))
    have hle := hlast _ hmem time (List.mem_singleton.mpr rfl)
    show due ≤ (s.published ++ [time]).getLastD 0
    rw [List.getLastD_concat]
    exact hbefore.trans hle

theorem inv_snapshot (h : Inv interval s) (hphase : s.phase = .capture) : Inv interval (next interval s .snapshot) where
  __ := h
  published hor := h.published (hor.imp id fun hor => by simp [next] at hor)
  pending _ := h.pending (.inl hphase)
  settled hdue := Phase.noConfusion hdue
  going hstuck := Phase.noConfusion hstuck
  passed _ hdue := Phase.noConfusion hdue

theorem inv_timeout (h : Inv interval s) (hphase : s.phase = .waiting) :
    Inv interval { s with phase := .capture } where
  __ := h
  published hor := h.published (hor.imp id fun hor => by simp at hor)
  pending _ := h.pending (.inr hphase)
  settled hdue := Phase.noConfusion hdue
  going hstuck := Phase.noConfusion hstuck
  passed _ hdue := Phase.noConfusion hdue

theorem inv_woken (h : Inv interval s) (hready : s.ready = true) : Inv interval (next interval s .woken) where
  __ := h
  published _ := h.published (.inl hready)
  pending hor := by simp [next] at hor
  settled hdue := Phase.noConfusion hdue
  going hstuck := Phase.noConfusion hstuck
  passed _ hdue := Phase.noConfusion hdue

theorem inv_left (h : Inv interval s) : Inv interval (next interval s .left) where
  __ := h
  published hor := h.published (hor.imp id fun hor => by simp [next] at hor)
  pending hor := by simp [next] at hor
  settled hdue := Phase.noConfusion hdue
  going hstuck := Phase.noConfusion hstuck
  passed _ hdue := Phase.noConfusion hdue

theorem inv_tested (h : Inv interval s) (hphase : s.phase = .woken) : Inv interval (next interval s .tested) := by
  unfold next
  cases hearly : s.early with
  | true =>
    rw [if_pos rfl]
    refine { h with
      published := fun _ => h.published (.inr (.inl hphase))
      pending := fun _ hundelivered => .inr hundelivered
      skipped := fun hskipped => ⟨hearly, hskipped⟩
      settled := fun hdue => Phase.noConfusion hdue
      going := fun hstuck => Phase.noConfusion hstuck
      passed := fun _ hdue => Phase.noConfusion hdue }
  | false =>
    rw [if_neg Bool.false_ne_true]
    refine { h with
      published := fun _ => h.published (.inr (.inl hphase))
      pending := fun hor => by simp at hor
      settled := fun _ => Bool.eq_false_iff.mpr fun hskipped =>
        Bool.false_ne_true (hearly.symm.trans (h.skipped hskipped).1)
      going := fun hstuck => Phase.noConfusion hstuck
      passed := fun _ _ => early_eq_false_iff.mp hearly }

/-- The state behind a delivery, whichever way the deadline was moved. -/
theorem inv_delivered (h : Inv interval s) (hphase : s.phase = .due) {due : ℤ}
    (hlater : ∀ entry ∈ s.delivered, entry.1 < s.number) (hspaced : Spaced interval (s.delivered.map Prod.snd ++ [s.newest]))
    (hpaced : 0 < interval → Paced interval due (s.delivered.map Prod.snd ++ [s.newest])) :
    Inv interval { s with
      nextFrameDue := some due
      phase := .capture
      delivered := s.delivered ++ [(s.number, s.newest)] } := by
  have hpublished := h.published (.inr (.inr hphase))
  have hskipped := h.settled hphase
  refine ⟨fun entry hentry => ?_, ?_, ?_, fun hnone => Option.noConfusion rfl (heq_of_eq hnone), ?_, fun _ => hpublished, ?_, ?_,
    fun hdue => Phase.noConfusion hdue, fun hstuck => Phase.noConfusion hstuck, fun _ hdue => Phase.noConfusion hdue⟩
  · cases List.mem_append.mp hentry with
    | inl hold => exact h.frames entry hold
    | inr hnew =>
      obtain rfl := List.mem_singleton.mp hnew
      exact getElem?_number hpublished
  · rw [List.map_append, List.pairwise_append]
    refine ⟨h.ordered, List.pairwise_singleton _ _, fun number hnumber number' hnumber' => ?_⟩
    obtain ⟨entry, hentry, rfl⟩ := List.mem_map.mp hnumber
    obtain rfl := List.mem_singleton.mp hnumber'
    exact hlater entry hentry
  · rw [List.map_append]
    exact hspaced
  · intro hinterval due' hdue'
    obtain rfl := Option.some.inj hdue'
    rw [List.map_append]
    exact hpaced hinterval
  · intro _ hundelivered
    have hnot := (of_decide_eq_true hundelivered).2
    exact absurd (List.mem_map_of_mem (List.mem_append_right _ (List.mem_singleton.mpr rfl))) hnot
  · intro hyes
    exact absurd (hskipped.symm.trans hyes) Bool.false_ne_true

theorem inv_filled (h : Inv interval s) (hphase : s.phase = .due) (hgood : Good interval s .filled) :
    Inv interval (next interval s .filled) := by
  have hpublished := h.published (.inr (.inr hphase))
  show Inv interval (deliver interval s)
  unfold deliver
  cases hdue : s.nextFrameDue with
  | none =>
    have hnil := h.fresh hdue
    refine inv_delivered h hphase (fun entry hentry => ?_) ?_ fun hinterval => ?_
    · rw [hnil] at hentry
      exact absurd hentry List.not_mem_nil
    · rw [hnil]
      exact spaced_append (spaced_nil interval) (paced_nil interval s.newest) le_rfl
    · rw [hnil]
      exact @paced_append interval s.newest (s.newest + interval) s.newest _ (paced_nil interval s.newest)
        (lt_add_of_pos_right _ hinterval) le_rfl
  | some due =>
    obtain ⟨hinterval, hle⟩ := hgood due hdue
    obtain ⟨due', hadvance⟩ := advance_ends hinterval due s.newest
    obtain ⟨hlt, hmoved⟩ := advance_some hinterval.le hadvance
    have hpaced := h.paced hinterval due hdue
    dsimp only
    rw [hadvance]
    refine inv_delivered h hphase (fun entry hentry => ?_) (spaced_append h.spaced hpaced hle)
      fun _ => paced_append hpaced hlt hmoved
    -- a frame that was delivered is before the deadline, so it is not the newest
    have hframe := h.frames entry hentry
    obtain ⟨hsmall, -⟩ := List.getElem?_eq_some_iff.mp hframe
    obtain ⟨i, hi⟩ := List.getElem?_of_mem (List.mem_map_of_mem (f := Prod.snd) hentry)
    have hbefore := paced_before hinterval.le hpaced hi
    have hne : entry.1 ≠ s.number := by
      intro heq
      rw [heq, getElem?_number hpublished] at hframe
      have hsame := Option.some.inj hframe
      omega
    unfold State.number at hne ⊢
    omega

theorem inv_next (h : Inv interval s) (henabled : Enabled s event) (hgood : Good interval s event) :
    Inv interval (next interval s event) := by
  cases event with
  | published time => exact inv_published h time
  | snapshot => exact inv_snapshot h henabled
  | expired => exact inv_timeout h henabled
  | waited => exact inv_timeout h henabled.1
  | woken => exact inv_woken h henabled.2
  | tested => exact inv_tested h henabled
  | filled => exact inv_filled h henabled hgood
  | left => exact inv_left h

/-- At a timeout the newest frame is delivered, if it is neither ready nor skipped. -/
theorem delivered_of_timeout (h : Inv interval s) (henabled : Enabled s event) (htimeout : event.isTimeout = true)
    (hgood : Good interval s event) : s.undelivered = false := by
  by_contra hundelivered
  rw [Bool.not_eq_false] at hundelivered
  cases event with
  | expired =>
    obtain hready | hskipped := h.pending (.inr henabled) hundelivered
    · exact absurd (hgood.2 hready) (by rw [hundelivered]; decide)
    · exact absurd hgood.1 (by rw [hskipped]; decide)
  | waited =>
    obtain hready | hskipped := h.pending (.inr henabled.1) hundelivered
    · exact absurd (hgood.2 hready) (by rw [hundelivered]; decide)
    · exact absurd hgood.1 (by rw [hskipped]; decide)
  | published time => cases htimeout
  | snapshot => cases htimeout
  | woken => cases htimeout
  | tested => cases htimeout
  | filled => cases htimeout
  | left => cases htimeout

/-! ## The rest of a run -/

theorem published_next : s.published <+: (next interval s event).published := by
  cases event with
  | published time => exact List.prefix_append _ _
  | tested =>
    unfold next
    split_ifs
    · exact List.prefix_rfl
    · exact List.prefix_rfl
  | filled =>
    show s.published <+: (deliver interval s).published
    unfold deliver
    split
    · exact List.prefix_rfl
    · split
      · exact List.prefix_rfl
      · exact List.prefix_rfl
  | snapshot => exact List.prefix_rfl
  | expired => exact List.prefix_rfl
  | waited => exact List.prefix_rfl
  | woken => exact List.prefix_rfl
  | left => exact List.prefix_rfl

theorem published_foldl (events : List Event) : s.published <+: (events.foldl (next interval) s).published := by
  induction events generalizing s with
  | nil => exact List.prefix_rfl
  | cons event events ih => exact published_next.trans ih

/-- A thread in a loop that does not end stays there. -/
theorem stuck_foldl {events : List Event} (h : Runs Enabled (next interval) s events) (hstuck : s.phase = .stuck) :
    (events.foldl (next interval) s).phase = .stuck := by
  refine h.invariant (fun s => s.phase = .stuck) hstuck fun s event hstuck henabled => ?_
  cases event with
  | published time => exact hstuck
  | snapshot => exact absurd (hstuck.symm.trans henabled) (by decide)
  | expired => exact absurd (hstuck.symm.trans henabled) (by decide)
  | waited => exact absurd (hstuck.symm.trans henabled.1) (by decide)
  | woken => exact absurd (hstuck.symm.trans henabled.1) (by decide)
  | tested => exact absurd (hstuck.symm.trans henabled) (by decide)
  | filled => exact absurd (hstuck.symm.trans henabled) (by decide)
  | left =>
    obtain hdue | hcapture := henabled
    · exact absurd (hstuck.symm.trans hdue) (by decide)
    · exact absurd (hstuck.symm.trans hcapture) (by decide)

end Steps

section Runs
variable {interval : ℤ} {events : List Event}

theorem inv_foldl {s : State} (h : Runs Enabled (next interval) s events) (hgood : Runs (Good interval) (next interval) s events)
    (hs : Inv interval s) : Inv interval (events.foldl (next interval) s) :=
  (h.and hgood).invariant (Inv interval) hs fun _ _ hinv hboth => inv_next hinv hboth.1 hboth.2

theorem framesDelivered_of_good (h : Runs Enabled (next interval) start events)
    (hgood : Runs (Good interval) (next interval) start events) : FramesDelivered interval events := by
  have hinv := inv_foldl h hgood (inv_start interval)
  refine ⟨hinv.frames, hinv.ordered, hinv.spaced, hinv.going, fun front event rest hsplit htimeout => ?_⟩
  have henabled := runs_iff_each.mp h front event rest hsplit
  have hstep := runs_iff_each.mp hgood front event rest hsplit
  rw [hsplit] at h hgood
  exact delivered_of_timeout (inv_foldl h.front hgood.front (inv_start interval)) henabled htimeout hstep

/-- With a steady clock, the runs that deliver are the good ones. -/
theorem good_of_framesDelivered (h : Runs Enabled (next interval) start events)
    (hsteady : Steady (events.foldl (next interval) start)) (hdelivered : FramesDelivered interval events) :
    Runs (Good interval) (next interval) start events := by
  refine runs_of_fronts fun front event rest hsplit hfront => ?_
  have henabled := runs_iff_each.mp h front event rest hsplit
  have hnewest := hdelivered.newest front event rest hsplit
  have hends := hdelivered.ends
  rw [hsplit] at h hsteady hends
  rw [List.foldl_append] at hsteady hends
  have hinv := inv_foldl h.front hfront (inv_start interval)
  have hunskipped : event.isTimeout = true → (front.foldl (next interval) start).skipped = false := fun htimeout =>
    Bool.eq_false_iff.mpr fun hskipped => Bool.false_ne_true ((hnewest htimeout).symm.trans (hinv.skipped hskipped).2)
  cases event with
  | expired => exact ⟨hunskipped rfl, fun _ => hnewest rfl⟩
  | waited => exact ⟨hunskipped rfl, fun _ => hnewest rfl⟩
  | filled =>
    intro due hdue
    have hsteadyFront : Steady (front.foldl (next interval) start) :=
      hsteady.sublist (published_foldl (.filled :: rest)).sublist
    have hle := hinv.passed hsteadyFront henabled due hdue
    refine ⟨?_, hle⟩
    by_contra hinterval
    have hnone : advance interval due (front.foldl (next interval) start).newest = none :=
      catchUp_none (not_lt.mp hinterval) hle _
    have hstuck : (next interval (front.foldl (next interval) start) .filled).phase = .stuck := by
      show (deliver interval _).phase = .stuck
      unfold deliver
      rw [hdue]
      dsimp only
      rw [hnone]
    have hrest : Runs Enabled (next interval) (next interval (front.foldl (next interval) start) .filled) rest :=
      (Runs.append_iff.mp h).2.2
    rw [List.foldl_cons] at hends
    exact hends (stuck_foldl hrest hstuck)
  | published time => trivial
  | snapshot => trivial
  | woken => trivial
  | tested => trivial
  | left => trivial

end Runs

/-- Frames are delivered in runs whose steps are good; with a steady clock these are the runs in which they are. -/
theorem frames_delivered (config : Config) (events : List Event)
    (h : Runs Enabled (next (deliveryInterval config)) start events) :
    (Runs (Good (deliveryInterval config)) (next (deliveryInterval config)) start events →
      FramesDelivered (deliveryInterval config) events) ∧
    (Steady (events.foldl (next (deliveryInterval config)) start) → FramesDelivered (deliveryInterval config) events →
      Runs (Good (deliveryInterval config)) (next (deliveryInterval config)) start events) :=
  ⟨framesDelivered_of_good h, good_of_framesDelivered h⟩

/-! ## Two frames -/

section TwoFrames

def config60 : Config := ⟨60, 0, fun _ => ⟨0, 1⟩⟩

/-- A frame, one a period later, and a timeout. -/
def inTime : List Event := [.published 0, .snapshot, .woken, .tested, .filled, .published 20000000, .snapshot, .woken, .tested,
  .filled, .snapshot, .waited]

theorem in_time_delivered : FramesDelivered (deliveryInterval config60) inTime :=
  (frames_delivered config60 inTime (by decide)).1 (by decide)

/-- The second frame comes after 5 ms, and then none. -/
def tooEarly : List Event := [.published 0, .snapshot, .woken, .tested, .filled, .published 5000000, .snapshot, .woken, .tested]

theorem early_frame_lost : ¬∀ (config : Config) (events : List Event),
    Runs Enabled (next (deliveryInterval config)) start events → FramesDelivered (deliveryInterval config) events := by
  intro hall
  have hdelivered := hall config60 (tooEarly ++ [.waited]) (by decide)
  exact absurd (hdelivered.newest tooEarly .waited [] rfl rfl) (by decide)

end TwoFrames

end Sunshine.PipewirePacing
