import Mathlib.Logic.Function.Basic
import Sunshine.Video.Pacing

/-! Frames of the video broadcast thread across a send deadline (`videoBroadcastThread`, from the
queue-age check to the end of the send).

A frame that misses its deadline leaves `drop_until_idr` set for its session. `deadline_stops_iff`
is about whole runs over any sessions: the flag keeps every frame but an IDR away until one was
sent, and the frame itself stops exactly when the failing batch was the last group of its block. -/
namespace Sunshine.Video
set_option autoImplicit false

/-- A packet popped from the queue, with the limits and outcomes its send meets. -/
structure Arrival where
  session : ℕ
  isIdr : Bool
  afterRefFrameInvalidation : Bool
  /-- `queue_age > queue_age_budget` -/
  stale : Bool
  pacing : PacingConfig
  blocks : List ℕ
  timesOut : ℕ → Bool

def Arrival.abandoned (a : Arrival) : Bool :=
  (sendShards a.pacing a.timesOut a.blocks).frameSendTimedOut

/-- The flags of the sessions, and the frames sent, newest first. -/
structure Sender where
  dropUntilIdr : ℕ → Bool := fun _ => false
  idrEvents : ℕ → ℕ := fun _ => 0
  sent : List Arrival := []

/-- Drop until the next IDR frame, and ask for one. -/
def Sender.requestIdr (s : Sender) (session : ℕ) : Sender :=
  { s with
    dropUntilIdr := Function.update s.dropUntilIdr session true
    idrEvents := Function.update s.idrEvents session (s.idrEvents session + 1) }

def Sender.send (s : Sender) (a : Arrival) : Sender :=
  let s := { s with
    dropUntilIdr := Function.update s.dropUntilIdr a.session false
    sent := a :: s.sent }
  if a.abandoned then s.requestIdr a.session else s

def onPacket (s : Sender) (a : Arrival) : Sender :=
  if a.stale then s.requestIdr a.session
  else if s.dropUntilIdr a.session && !a.isIdr then s
  else s.send a

def broadcast (arrivals : List Arrival) : Sender := arrivals.foldl onPacket {}

/-! ## Recovery -/

/-- After an abandoned frame of a session its next frame sent is an IDR frame. -/
def RecoversByIdr (sent : List Arrival) : Prop :=
  ∀ later e mid t earlier, sent = later ++ e :: (mid ++ t :: earlier) → t.session = e.session →
    t.abandoned = true → e.isIdr = true ∨ ∃ m ∈ mid, m.session = e.session ∧ m.isIdr = true

/-- The flag is set while an abandoned frame has no IDR frame after it. -/
def FlagSet (s : Sender) : Prop :=
  ∀ mid t earlier, s.sent = mid ++ t :: earlier → t.abandoned = true →
    s.dropUntilIdr t.session = true ∨ ∃ m ∈ mid, m.session = t.session ∧ m.isIdr = true

theorem requestIdr_flagSet (s : Sender) (session : ℕ) (h : FlagSet s) :
    FlagSet (s.requestIdr session) := by
  intro mid t earlier hsent hto
  rcases h mid t earlier hsent hto with hflag | hidr
  · refine Or.inl ?_
    unfold Sender.requestIdr
    by_cases hs : t.session = session
    · rw [hs]
      exact Function.update_self ..
    · simp only [Function.update_of_ne hs]
      exact hflag
  · exact Or.inr hidr

theorem send_flagSet (s : Sender) (a : Arrival) (h : FlagSet s)
    (hpass : s.dropUntilIdr a.session = false ∨ a.isIdr = true) : FlagSet (s.send a) := by
  have hcleared : ∀ mid t earlier, a :: s.sent = mid ++ t :: earlier → t.abandoned = true →
      (mid = [] ∧ t = a) ∨ Function.update s.dropUntilIdr a.session false t.session = true ∨
        ∃ m ∈ mid, m.session = t.session ∧ m.isIdr = true := by
    intro mid t earlier hsent hto
    cases mid with
    | nil => exact Or.inl ⟨rfl, (List.cons.inj hsent).1.symm⟩
    | cons m mid =>
      right
      obtain ⟨rfl, hrest⟩ := List.cons.inj hsent
      rcases h mid t earlier hrest hto with hflag | ⟨m, hm, hidr⟩
      · by_cases hs : t.session = a.session
        · rcases hpass with hclear | hidr
          · rw [← hs, hflag] at hclear
            cases hclear
          · exact Or.inr ⟨a, List.mem_cons_self .., hs.symm, hidr⟩
        · left
          rw [Function.update_of_ne hs]
          exact hflag
      · exact Or.inr ⟨m, List.mem_cons_of_mem _ hm, hidr⟩
  intro mid t earlier hsent hto
  unfold Sender.send at hsent ⊢
  by_cases hab : a.abandoned
  · rw [if_pos hab] at hsent ⊢
    rcases hcleared mid t earlier hsent hto with ⟨rfl, rfl⟩ | hflag | hidr
    · exact Or.inl (Function.update_self ..)
    · refine Or.inl ?_
      unfold Sender.requestIdr
      by_cases hs : t.session = a.session
      · rw [hs]
        exact Function.update_self ..
      · simp only [Function.update_of_ne hs] at hflag ⊢
        exact hflag
    · exact Or.inr hidr
  · rw [if_neg hab] at hsent ⊢
    rcases hcleared mid t earlier hsent hto with ⟨rfl, rfl⟩ | hrest
    · exact absurd hto hab
    · exact hrest

@[simp] theorem send_sent (s : Sender) (a : Arrival) : (s.send a).sent = a :: s.sent := by
  unfold Sender.send
  split_ifs <;> rfl

/-- The newest frame sent is an IDR frame, or no abandoned frame is waiting for one. -/
theorem send_recovers (s : Sender) (a : Arrival) (hflag : FlagSet s)
    (hpass : s.dropUntilIdr a.session = false ∨ a.isIdr = true) (h : RecoversByIdr s.sent) :
    RecoversByIdr (s.send a).sent := by
  rw [send_sent]
  intro later e mid t earlier heq hs hto
  cases later with
  | nil =>
    obtain ⟨rfl, hrest⟩ := List.cons.inj heq
    rcases hpass with hclear | hidr
    · rcases hflag mid t earlier hrest hto with hset | ⟨m, hm, hms, hidr⟩
      · rw [hs, hclear] at hset
        cases hset
      · exact Or.inr ⟨m, hm, hms.trans hs, hidr⟩
    · exact Or.inl hidr
  | cons l later => exact h later e mid t earlier (List.cons.inj heq).2 hs hto

theorem onPacket_idr (s : Sender) (a : Arrival) (hstale : a.stale = false)
    (hidr : a.isIdr = true) : onPacket s a = s.send a := by
  unfold onPacket
  rw [hstale, hidr, if_neg (by simp), if_neg (by simp)]

theorem onPacket_recovers (s : Sender) (a : Arrival) (h : FlagSet s ∧ RecoversByIdr s.sent) :
    FlagSet (onPacket s a) ∧ RecoversByIdr (onPacket s a).sent := by
  obtain ⟨hflag, hrec⟩ := h
  unfold onPacket
  split_ifs with hstale hdrop
  · exact ⟨requestIdr_flagSet s a.session hflag, hrec⟩
  · exact ⟨hflag, hrec⟩
  · have hpass : s.dropUntilIdr a.session = false ∨ a.isIdr = true := by
      by_cases hset : s.dropUntilIdr a.session = true
      · exact Or.inr (by simpa [hset] using hdrop)
      · exact Or.inl (by simpa using hset)
    exact ⟨send_flagSet s a hflag hpass, send_recovers s a hflag hpass hrec⟩

theorem broadcast_recovers (arrivals : List Arrival) : RecoversByIdr (broadcast arrivals).sent := by
  have hrun : ∀ s, FlagSet s ∧ RecoversByIdr s.sent →
      FlagSet (arrivals.foldl onPacket s) ∧ RecoversByIdr (arrivals.foldl onPacket s).sent := by
    induction arrivals with
    | nil => exact fun s h => h
    | cons a rest ih => exact fun s h => ih _ (onPacket_recovers s a h)
  refine (hrun {} ⟨?_, ?_⟩).2
  · intro mid t earlier hsent
    cases mid <;> cases hsent
  · intro later e mid t earlier hsent
    cases later <;> cases hsent

/-! ## Deadlines in a run -/

/-- Every frame sent in the run stops at its timeout, and its session waits for an IDR frame. -/
def DeadlineStops (arrivals : List Arrival) : Prop :=
  (∀ a ∈ (broadcast arrivals).sent, StopsAtTimeout a.pacing a.timesOut a.blocks) ∧
    RecoversByIdr (broadcast arrivals).sent

/-- Deadlines stop their frames in exactly the runs where each first missed deadline falls on the
last group of an FEC block. -/
theorem deadline_stops_iff (arrivals : List Arrival) :
    DeadlineStops arrivals ↔
      ∀ a ∈ (broadcast arrivals).sent, TimesOutInLastGroup a.pacing a.timesOut a.blocks := by
  constructor
  · rintro ⟨hstops, -⟩ a ha
    exact (stops_iff_last_group a.pacing a.timesOut a.blocks).mp (hstops a ha)
  · intro hgroup
    refine ⟨fun a ha => ?_, broadcast_recovers arrivals⟩
    exact (stops_iff_last_group a.pacing a.timesOut a.blocks).mpr (hgroup a ha)

def lateFrame : Arrival where
  session := 0
  isIdr := true
  afterRefFrameInvalidation := false
  stale := false
  pacing := pacingConfig 1000000000 80 1040
  blocks := [100]
  timesOut := fun k => k == 0

theorem late_frame_sent_on : ¬ DeadlineStops [lateFrame] := by
  rintro ⟨hstops, -⟩
  have hsent : lateFrame ∈ (broadcast [lateFrame]).sent := by
    unfold broadcast
    rw [List.foldl_cons, List.foldl_nil, onPacket_idr _ _ rfl rfl, send_sent]
    exact List.mem_cons_self ..
  have hlen := hstops lateFrame hsent 0 rfl
  revert hlen
  decide +kernel

end Sunshine.Video
