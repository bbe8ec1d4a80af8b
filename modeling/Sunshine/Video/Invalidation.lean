import Sunshine.Lib.Transitions
import Mathlib.Algebra.Order.Ring.Nat
import Mathlib.Data.Int.Notation
import Mathlib.Tactic.Common

/-! Reference frame invalidation: the requests of the client, the event that hands them to `encode_run`, and the NVENC
encoder.

`invalidation_honoured` follows a request from the event through all later frames. -/
namespace Sunshine.Invalidation
open Transitions
set_option autoImplicit false

/-- The first and the last frame as the client sends them. -/
abbrev Request := ℤ × ℤ

/-- The frame numbers of the encoder are unsigned. -/
def toUint64 (value : ℤ) : ℕ := (value % 2 ^ 64).toNat

/-! ## The encoder -/

/-- `encoder_params`. -/
structure Params where
  rfi : Bool
  refFramesInDpb : ℕ

/-- `encoder_state`, and the frames that the driver was told to invalidate. -/
structure Encoder where
  lastEncodedFrameIndex : ℕ
  rfiNeedsConfirmation : Bool
  lastRfiRange : ℕ × ℕ
  invalidated : List ℕ
  deriving DecidableEq

/-- Calls of `nvEncInvalidateRefFrames` up to the first that fails. -/
def invalidateLoop (fails : ℕ → Bool) : List ℕ → List ℕ × Bool
  | [] => ([], true)
  | i :: rest =>
    if fails i then ([], false)
    else
      let (done, success) := invalidateLoop fails rest
      (i :: done, success)

def invalidateRefFrames (params : Params) (fails : ℕ → Bool) (firstFrame lastFrame : ℕ) (encoder : Encoder) :
    Encoder × Bool :=
  if !params.rfi then (encoder, false)
  else if encoder.lastRfiRange.1 ≤ firstFrame ∧ lastFrame ≤ encoder.lastRfiRange.2 then (encoder, true)
  else
    let encoder := { encoder with rfiNeedsConfirmation := true }
    if lastFrame < firstFrame then (encoder, false)
    else
      let lastFrame := encoder.lastEncodedFrameIndex
      let encoder := { encoder with lastRfiRange := (firstFrame, lastFrame) }
      if params.refFramesInDpb ≤ (lastFrame + 2 ^ 64 - firstFrame + 1) % 2 ^ 64 then (encoder, false)
      else
        let (done, success) := invalidateLoop fails (List.range' firstFrame (lastFrame + 1 - firstFrame))
        ({ encoder with invalidated := encoder.invalidated ++ done }, success)

/-! ## The session -/

/-- A frame with what the driver had been told to invalidate when it was encoded. -/
structure Frame where
  frameIndex : ℕ
  idr : Bool
  afterRefFrameInvalidation : Bool
  invalidated : List ℕ
  deriving DecidableEq

/-- Where the loop of `encode_run` is. -/
inductive Phase where
  | takeInvalidation
  | takeIdr
  | encode
  | ended
  deriving DecidableEq

structure State where
  phase : Phase
  invalidateEvent : Option Request
  idrEvent : Bool
  frameNr : ℕ
  forceIdr : Bool
  encoder : Encoder
  frames : List Frame
  deriving DecidableEq

/-- What comes of the rest of an iteration. A frame that is not forced to be an IDR frame may still be one. -/
inductive Outcome where
  | stopped
  | encoded (idr reconfigured : Bool)

inductive Event where
  | invalidateRefFrames (request : Request)
  | requestIdr
  | takeInvalidation (fails : ℕ → Bool)
  | takeIdr
  | encode (outcome : Outcome)
  | stop

/-- A new session; the events and the frame number are those of the stream. -/
def start (invalidateEvent : Option Request) (idrEvent : Bool) (frameNr : ℕ) : State :=
  ⟨.takeInvalidation, invalidateEvent, idrEvent, frameNr, false, ⟨0, false, (0, 0), []⟩, []⟩

section Session

variable (params : Params)

def takeInvalidation (fails : ℕ → Bool) (s : State) : State :=
  match s.invalidateEvent with
  | none => { s with phase := .takeIdr }
  | some request =>
    let (encoder, success) :=
      invalidateRefFrames params fails (toUint64 request.1) (toUint64 request.2) s.encoder
    { s with
      phase := .takeIdr, invalidateEvent := none, encoder := encoder
      forceIdr := s.forceIdr || !success }

def takeIdr (s : State) : State :=
  { s with phase := .encode, idrEvent := false, forceIdr := s.forceIdr || s.idrEvent }

/-- `encode_frame` of a frame that the driver returns, and the bitrate behind it. -/
def encodeFrame (idr reconfigured : Bool) (s : State) : State :=
  let frame : Frame := ⟨s.frameNr, s.forceIdr || idr, s.encoder.rfiNeedsConfirmation, s.encoder.invalidated⟩
  { s with
    phase := .takeInvalidation, frameNr := s.frameNr + 1, forceIdr := reconfigured
    encoder := { s.encoder with rfiNeedsConfirmation := false, lastEncodedFrameIndex := s.frameNr }
    frames := s.frames ++ [frame] }

def step (s : State) : Event → State
  | .invalidateRefFrames request => { s with invalidateEvent := some request }
  | .requestIdr => { s with idrEvent := true }
  | .takeInvalidation fails => takeInvalidation params fails s
  | .takeIdr => takeIdr s
  | .encode .stopped => { s with phase := .ended }
  | .encode (.encoded idr reconfigured) => encodeFrame idr reconfigured s
  | .stop => { s with phase := .ended }

def Enabled (s : State) : Event → Prop
  | .invalidateRefFrames _ => True
  | .requestIdr => True
  | .takeInvalidation _ => s.phase = .takeInvalidation
  | .takeIdr => s.phase = .takeIdr
  | .encode _ => s.phase = .encode
  | .stop => s.phase = .takeInvalidation

/-! ## What a request comes to -/

/-- The frame is invalidated, or a later IDR frame was encoded or will be the next. -/
def Settled (s : State) (i : ℕ) : Prop :=
  i ∈ s.encoder.invalidated ∨ (∃ g ∈ s.frames, g.idr = true ∧ i < g.frameIndex) ∨
    (s.forceIdr = true ∧ i < s.frameNr)

/-- The frame `f` does not refer to frame `i`. -/
def Honoured (frames : List Frame) (f : Frame) (i : ℕ) : Prop :=
  f.idr = true ∨ i ∈ f.invalidated ∨ ∃ g ∈ frames, g.idr = true ∧ i < g.frameIndex ∧ g.frameIndex < f.frameIndex

/-- The request that is waiting is none that the last range covers. -/
def Asks (s : State) : Prop :=
  params.rfi = true ∧ ∃ request, s.invalidateEvent = some request ∧
    ¬ (s.encoder.lastRfiRange.1 ≤ toUint64 request.1 ∧ toUint64 request.2 ≤ s.encoder.lastRfiRange.2)

theorem invalidateLoop_done (fails : ℕ → Bool) (l : List ℕ) (success : (invalidateLoop fails l).2 = true) :
    (invalidateLoop fails l).1 = l := by
  induction l with
  | nil => rfl
  | cons i rest ih =>
    rw [invalidateLoop] at success ⊢
    by_cases failed : fails i
    · simp [failed] at success
    · rw [if_neg failed] at success ⊢
      exact congrArg (i :: ·) (ih success)

/-! ### One call of the encoder -/

section Call

variable (fails : ℕ → Bool) (firstFrame lastFrame : ℕ) (encoder : Encoder)

/-- Whether the last range covers the request. -/
def Repeats : Prop := encoder.lastRfiRange.1 ≤ firstFrame ∧ lastFrame ≤ encoder.lastRfiRange.2

/-- The ways a call can end: as a repeat, without a success, or with all frames from the first one on. -/
theorem invalidateRefFrames_cases :
    let result := invalidateRefFrames params fails firstFrame lastFrame encoder
    (result = (encoder, false) ∧ params.rfi = false) ∨
      (result = (encoder, true) ∧ params.rfi = true ∧ Repeats firstFrame lastFrame encoder) ∨
      (params.rfi = true ∧ ¬ Repeats firstFrame lastFrame encoder ∧
        ∃ range done, result.1 = ⟨encoder.lastEncodedFrameIndex, true, range, encoder.invalidated ++ done⟩ ∧
          (range = encoder.lastRfiRange ∧ result.2 = false ∨
            range = (firstFrame, encoder.lastEncodedFrameIndex) ∧
              (result.2 = true → ∀ i, firstFrame ≤ i → i ≤ encoder.lastEncodedFrameIndex → i ∈ done))) := by
  intro result
  by_cases rfi : params.rfi
  · by_cases repeats : Repeats firstFrame lastFrame encoder
    · refine Or.inr (Or.inl ⟨?_, rfi, repeats⟩)
      rw [Repeats] at repeats
      simp [result, invalidateRefFrames, rfi, repeats]
    · refine Or.inr (Or.inr ⟨rfi, repeats, ?_⟩)
      rw [Repeats] at repeats
      by_cases inverted : lastFrame < firstFrame
      · exact ⟨encoder.lastRfiRange, [], by simp [result, invalidateRefFrames, rfi, repeats, inverted]⟩
      · refine ⟨(firstFrame, encoder.lastEncodedFrameIndex), ?_⟩
        by_cases large : params.refFramesInDpb ≤
            (encoder.lastEncodedFrameIndex + 2 ^ 64 - firstFrame + 1) % 2 ^ 64
        · have outcome : result = (⟨encoder.lastEncodedFrameIndex, true,
              (firstFrame, encoder.lastEncodedFrameIndex), encoder.invalidated⟩, false) := by
            simp only [result, invalidateRefFrames, rfi, repeats, inverted, large, Bool.not_true, Bool.false_eq_true,
              if_true, if_false]
          exact ⟨[], by simp [outcome], Or.inr ⟨rfl, by simp [outcome]⟩⟩
        · have outcome : result = (⟨encoder.lastEncodedFrameIndex, true,
              (firstFrame, encoder.lastEncodedFrameIndex), encoder.invalidated ++ (invalidateLoop fails
                (List.range' firstFrame (encoder.lastEncodedFrameIndex + 1 - firstFrame))).1⟩,
              (invalidateLoop fails
                (List.range' firstFrame (encoder.lastEncodedFrameIndex + 1 - firstFrame))).2) := by
            simp only [result, invalidateRefFrames, rfi, repeats, inverted, large, Bool.not_true, Bool.false_eq_true,
              if_false]
          refine ⟨_, congrArg Prod.fst outcome, Or.inr ⟨rfl, fun success i first last => ?_⟩⟩
          rw [outcome] at success
          rw [invalidateLoop_done fails _ success, List.mem_range'_1]
          omega
  · refine Or.inl ⟨?_, by simpa using rfi⟩
    simp [result, invalidateRefFrames, rfi]

end Call

/-! ### The session -/

/-- Of a session whose first frame is `first`. -/
structure Sound (first : ℕ) (s : State) : Prop where
  begins : 1 ≤ first ∧ first ≤ s.frameNr
  frames : ∀ f ∈ s.frames, first ≤ f.frameIndex ∧ f.frameIndex < s.frameNr
  last : s.encoder.lastEncodedFrameIndex < s.frameNr ∧
    ∀ i, first ≤ i → i < s.frameNr → i ≤ s.encoder.lastEncodedFrameIndex
  range : ∀ i, s.encoder.lastRfiRange.1 ≤ i → i ≤ s.encoder.lastRfiRange.2 → first ≤ i → Settled s i
  flag : s.phase = .takeInvalidation → s.encoder.rfiNeedsConfirmation = false

theorem start_sound (request : Option Request) (idr : Bool) (first : ℕ) (begins : 1 ≤ first) :
    Sound first (start request idr first) where
  begins := ⟨begins, le_rfl⟩
  frames := by simp [start]
  last := ⟨begins, fun i lower upper => absurd upper (not_lt.mpr lower)⟩
  range i _ upper lower := by
    simp only [start] at upper
    omega
  flag _ := rfl

/-- What settles a frame stays until an IDR frame. -/
theorem Settled.mono {s t : State} {i : ℕ} (settled : Settled s i)
    (invalidated : ∀ i ∈ s.encoder.invalidated, i ∈ t.encoder.invalidated) (frames : t.frames = s.frames)
    (frameNr : t.frameNr = s.frameNr) (forced : s.forceIdr = true → t.forceIdr = true) : Settled t i := by
  rw [Settled, frames, frameNr]
  exact settled.imp (invalidated i) (Or.imp_right (And.imp_left forced))

theorem takeInvalidation_settled (fails : ℕ → Bool) (s : State) (i : ℕ) (settled : Settled s i) :
    Settled (takeInvalidation params fails s) i := by
  rw [takeInvalidation]
  cases s.invalidateEvent with
  | none => exact settled
  | some request =>
    refine settled.mono ?_ rfl rfl (by simp; tauto)
    intro j mem
    obtain ⟨same, -⟩ | ⟨same, -⟩ | ⟨-, -, range, done, same, -⟩ :=
      invalidateRefFrames_cases params fails (toUint64 request.1) (toUint64 request.2) s.encoder
    · simpa [same] using mem
    · simpa [same] using mem
    · simp [same, mem]

theorem encodeFrame_settled (idr reconfigured : Bool) (s : State) (i : ℕ) (settled : Settled s i) :
    Settled (encodeFrame idr reconfigured s) i := by
  obtain invalidated | ⟨g, mem, isIdr, later⟩ | ⟨forced, before⟩ := settled
  · exact Or.inl invalidated
  · exact Or.inr (Or.inl ⟨g, by simp [encodeFrame, mem], isIdr, later⟩)
  · exact Or.inr (Or.inl ⟨⟨s.frameNr, s.forceIdr || idr, s.encoder.rfiNeedsConfirmation, s.encoder.invalidated⟩,
      by simp [encodeFrame], by simp [forced], before⟩)

theorem step_settled (event : Event) (s : State) (i : ℕ) (settled : Settled s i) : Settled (step params s event) i := by
  cases event with
  | invalidateRefFrames request => exact settled
  | requestIdr => exact settled
  | takeInvalidation fails => exact takeInvalidation_settled params fails s i settled
  | takeIdr => exact settled.mono (fun _ mem => mem) rfl rfl (by simp [step, takeIdr]; tauto)
  | stop => exact settled
  | encode outcome =>
    cases outcome with
    | stopped => exact settled
    | encoded idr reconfigured => exact encodeFrame_settled idr reconfigured s i settled

/-- The request that is taken settles every frame of its range that is already encoded. -/
theorem takeInvalidation_settles (first : ℕ) (fails : ℕ → Bool) (s : State) (sound : Sound first s)
    (request : Request) (waiting : s.invalidateEvent = some request) (i : ℕ) (lower : toUint64 request.1 ≤ i)
    (upper : i ≤ toUint64 request.2) (begun : first ≤ i) (encoded : i < s.frameNr) :
    Settled (takeInvalidation params fails s) i := by
  have reached := sound.last.2 i begun encoded
  have forced (failed : (invalidateRefFrames params fails (toUint64 request.1) (toUint64 request.2)
      s.encoder).2 = false) : Settled (takeInvalidation params fails s) i := by
    refine Or.inr (Or.inr ⟨?_, ?_⟩)
    · simp [takeInvalidation, waiting, failed]
    · simpa [takeInvalidation, waiting] using encoded
  obtain ⟨same, -⟩ | ⟨-, -, repeats⟩ | ⟨-, -, range, done, same, outcome⟩ :=
    invalidateRefFrames_cases params fails (toUint64 request.1) (toUint64 request.2) s.encoder
  · exact forced (by rw [same])
  · exact takeInvalidation_settled params fails s i
      (sound.range i (repeats.1.trans lower) (upper.trans repeats.2) begun)
  · cases success : (invalidateRefFrames params fails (toUint64 request.1) (toUint64 request.2) s.encoder).2 with
    | false => exact forced success
    | true =>
      obtain ⟨-, failed⟩ | ⟨-, all⟩ := outcome
      · rw [success] at failed
        cases failed
      · refine Or.inl ?_
        simp [takeInvalidation, waiting, same, all success i lower reached]

/-- The range that is kept is settled. -/
theorem takeInvalidation_range (first : ℕ) (fails : ℕ → Bool) (s : State) (sound : Sound first s) (i : ℕ)
    (lower : (takeInvalidation params fails s).encoder.lastRfiRange.1 ≤ i)
    (upper : i ≤ (takeInvalidation params fails s).encoder.lastRfiRange.2) (begun : first ≤ i) :
    Settled (takeInvalidation params fails s) i := by
  cases waiting : s.invalidateEvent with
  | none =>
    simp only [takeInvalidation, waiting] at lower upper
    exact takeInvalidation_settled params fails s i (sound.range i lower upper begun)
  | some request =>
    simp only [takeInvalidation, waiting] at lower upper
    obtain ⟨same, -⟩ | ⟨same, -⟩ | ⟨-, -, range, done, same, outcome⟩ :=
      invalidateRefFrames_cases params fails (toUint64 request.1) (toUint64 request.2) s.encoder
    · rw [same] at lower upper
      exact takeInvalidation_settled params fails s i (sound.range i lower upper begun)
    · rw [same] at lower upper
      exact takeInvalidation_settled params fails s i (sound.range i lower upper begun)
    · rw [same] at lower upper
      obtain ⟨rfl, -⟩ | ⟨rfl, all⟩ := outcome
      · exact takeInvalidation_settled params fails s i (sound.range i lower upper begun)
      · cases success : (invalidateRefFrames params fails (toUint64 request.1) (toUint64 request.2)
            s.encoder).2 with
        | false =>
          -- the next frame is an IDR frame
          refine Or.inr (Or.inr ⟨by simp [takeInvalidation, waiting, success], ?_⟩)
          simpa [takeInvalidation, waiting] using lt_of_le_of_lt upper sound.last.1
        | true =>
          refine Or.inl ?_
          simp [takeInvalidation, waiting, same, all success i lower upper]

theorem takeInvalidation_frames (fails : ℕ → Bool) (s : State) :
    (takeInvalidation params fails s).phase = .takeIdr ∧
      (takeInvalidation params fails s).frames = s.frames ∧
      (takeInvalidation params fails s).frameNr = s.frameNr ∧
      (takeInvalidation params fails s).encoder.lastEncodedFrameIndex = s.encoder.lastEncodedFrameIndex := by
  rw [takeInvalidation]
  cases s.invalidateEvent with
  | none => exact ⟨rfl, rfl, rfl, rfl⟩
  | some request =>
    refine ⟨rfl, rfl, rfl, ?_⟩
    obtain ⟨same, -⟩ | ⟨same, -⟩ | ⟨-, -, range, done, same, -⟩ :=
      invalidateRefFrames_cases params fails (toUint64 request.1) (toUint64 request.2) s.encoder <;>
      simp [same]

theorem takeInvalidation_sound (first : ℕ) (fails : ℕ → Bool) (s : State) (sound : Sound first s) :
    Sound first (takeInvalidation params fails s) := by
  obtain ⟨phase, frames, frameNr, last⟩ := takeInvalidation_frames params fails s
  exact
    { begins := by rw [frameNr]; exact sound.begins
      frames := by rw [frames, frameNr]; exact sound.frames
      last := by rw [frameNr, last]; exact sound.last
      range := takeInvalidation_range params first fails s sound
      flag := by simp [phase] }

/-- The flag is raised for a request that the last range does not cover. -/
theorem takeInvalidation_flag (fails : ℕ → Bool) (s : State) (unflagged : s.encoder.rfiNeedsConfirmation = false) :
    (takeInvalidation params fails s).encoder.rfiNeedsConfirmation = true ↔ Asks params s := by
  cases waiting : s.invalidateEvent with
  | none => simp [takeInvalidation, waiting, unflagged, Asks]
  | some request =>
    simp only [takeInvalidation, waiting, Asks, Option.some.injEq, exists_eq_left']
    obtain ⟨same, off⟩ | ⟨same, -, repeats⟩ | ⟨rfi, asks, range, done, same, -⟩ :=
      invalidateRefFrames_cases params fails (toUint64 request.1) (toUint64 request.2) s.encoder
    · simp [same, unflagged, off]
    · rw [Repeats] at repeats
      simp [same, unflagged, repeats]
    · rw [Repeats] at asks
      simp [same, rfi, asks]

theorem encodeFrame_sound (first : ℕ) (idr reconfigured : Bool) (s : State) (sound : Sound first s) :
    Sound first (encodeFrame idr reconfigured s) where
  begins := ⟨sound.begins.1, Nat.le_succ_of_le sound.begins.2⟩
  frames f mem := by
    rcases List.mem_append.mp mem with old | new
    · exact ⟨(sound.frames f old).1, Nat.lt_succ_of_lt (sound.frames f old).2⟩
    · rw [List.mem_singleton.mp new]
      exact ⟨sound.begins.2, Nat.lt_succ_self s.frameNr⟩
  last := ⟨Nat.lt_succ_self s.frameNr, fun i _ upper => Nat.le_of_lt_succ upper⟩
  range i lower upper begun := encodeFrame_settled idr reconfigured s i (sound.range i lower upper begun)
  flag _ := rfl

theorem step_sound (first : ℕ) (event : Event) (s : State) (sound : Sound first s) (enabled : Enabled s event) :
    Sound first (step params s event) := by
  cases event with
  | invalidateRefFrames request => exact ⟨sound.begins, sound.frames, sound.last, sound.range, sound.flag⟩
  | requestIdr => exact ⟨sound.begins, sound.frames, sound.last, sound.range, sound.flag⟩
  | takeInvalidation fails => exact takeInvalidation_sound params first fails s sound
  | takeIdr =>
    exact ⟨sound.begins, sound.frames, sound.last,
      fun i lower upper begun => step_settled params .takeIdr s i (sound.range i lower upper begun), by simp [step, takeIdr]⟩
  | stop => exact ⟨sound.begins, sound.frames, sound.last, sound.range, by simp [step]⟩
  | encode outcome =>
    cases outcome with
    | stopped => exact ⟨sound.begins, sound.frames, sound.last, sound.range, by simp [step]⟩
    | encoded idr reconfigured => exact encodeFrame_sound first idr reconfigured s sound

/-! ## All frames behind a request -/

/-- Behind an iteration that begins with frame `next` the frames of a range are settled, and later frames honour it. -/
structure Behind (next : ℕ) (range : ℕ → Prop) (s : State) : Prop where
  reached : next ≤ s.frameNr
  settled : ∀ i, range i → Settled s i
  frames : ∀ f ∈ s.frames, next ≤ f.frameIndex → ∀ i, range i → Honoured s.frames f i

theorem Honoured.append {frames : List Frame} {f : Frame} {i : ℕ} (honoured : Honoured frames f i) (g : Frame) :
    Honoured (frames ++ [g]) f i := by
  obtain isIdr | invalidated | ⟨later, mem, rest⟩ := honoured
  · exact Or.inl isIdr
  · exact Or.inr (Or.inl invalidated)
  · exact Or.inr (Or.inr ⟨later, by simp [mem], rest⟩)

theorem encodeFrame_behind (next first : ℕ) (range : ℕ → Prop) (idr reconfigured : Bool) (s : State)
    (sound : Sound first s) (behind : Behind next range s) :
    Behind next range (encodeFrame idr reconfigured s) where
  reached := Nat.le_succ_of_le behind.reached
  settled i inRange := encodeFrame_settled idr reconfigured s i (behind.settled i inRange)
  frames f mem from_ i inRange := by
    rcases List.mem_append.mp mem with old | new
    · exact (behind.frames f old from_ i inRange).append _
    · rw [List.mem_singleton.mp new]
      obtain invalidated | ⟨g, old, isIdr, later⟩ | ⟨forced, -⟩ := behind.settled i inRange
      · exact Or.inr (Or.inl invalidated)
      · exact Or.inr (Or.inr ⟨g, List.mem_append_left _ old, isIdr, later, (sound.frames g old).2⟩)
      · exact Or.inl (by simp [forced])

theorem step_behind (next first : ℕ) (range : ℕ → Prop) (event : Event) (s : State) (sound : Sound first s)
    (behind : Behind next range s) : Behind next range (step params s event) := by
  have settled (i : ℕ) (inRange : range i) := step_settled params event s i (behind.settled i inRange)
  cases event with
  | invalidateRefFrames request => exact ⟨behind.reached, settled, behind.frames⟩
  | requestIdr => exact ⟨behind.reached, settled, behind.frames⟩
  | takeInvalidation fails =>
    obtain ⟨-, frames, frameNr, -⟩ := takeInvalidation_frames params fails s
    refine ⟨by rw [step, frameNr]; exact behind.reached, settled, ?_⟩
    rw [step, frames]
    exact behind.frames
  | takeIdr => exact ⟨behind.reached, settled, behind.frames⟩
  | stop => exact ⟨behind.reached, settled, behind.frames⟩
  | encode outcome =>
    cases outcome with
    | stopped => exact ⟨behind.reached, settled, behind.frames⟩
    | encoded idr reconfigured => exact encodeFrame_behind next first range idr reconfigured s sound behind

/-- The frame of the iteration that begins with frame `next` is flagged if `asks`. -/
structure Flags (next : ℕ) (asks : Prop) (s : State) : Prop where
  reached : next ≤ s.frameNr
  frames : ∀ f ∈ s.frames, f.frameIndex = next → (f.afterRefFrameInvalidation = true ↔ asks)
  still : s.frameNr = next → s.phase ≠ .takeInvalidation ∧ (s.encoder.rfiNeedsConfirmation = true ↔ asks)

theorem step_flags (next : ℕ) (asks : Prop) (event : Event) (s : State) (flags : Flags next asks s)
    (enabled : Enabled s event) : Flags next asks (step params s event) := by
  cases event with
  | invalidateRefFrames request => exact ⟨flags.reached, flags.frames, flags.still⟩
  | requestIdr => exact ⟨flags.reached, flags.frames, flags.still⟩
  | takeInvalidation fails =>
    obtain ⟨-, frames, frameNr, -⟩ := takeInvalidation_frames params fails s
    -- the iteration of `next` has already taken its request
    have past : s.frameNr ≠ next := fun same => (flags.still same).1 enabled
    refine ⟨by rw [step, frameNr]; exact flags.reached, by rw [step, frames]; exact flags.frames, fun same => ?_⟩
    rw [step, frameNr] at same
    exact absurd same past
  | takeIdr => exact ⟨flags.reached, flags.frames, fun same => ⟨by simp [step, takeIdr], (flags.still same).2⟩⟩
  | stop => exact ⟨flags.reached, flags.frames, fun same => ⟨by simp [step], (flags.still same).2⟩⟩
  | encode outcome =>
    cases outcome with
    | stopped => exact ⟨flags.reached, flags.frames, fun same => ⟨by simp [step], (flags.still same).2⟩⟩
    | encoded idr reconfigured =>
      refine ⟨Nat.le_succ_of_le flags.reached, fun f mem same => ?_, fun same => ?_⟩
      · rcases List.mem_append.mp mem with old | new
        · exact flags.frames f old same
        · rw [List.mem_singleton.mp new] at same ⊢
          exact (flags.still same).2
      · have before : s.frameNr + 1 = next := same
        have := flags.reached
        omega

/-- The event neither replaces a request nor takes it. -/
def Event.keepsRequest : Event → Bool
  | .invalidateRefFrames _ => false
  | .takeInvalidation _ => false
  | _ => true

theorem run_keepsRequest (events : List Event) (s : State) (keeps : ∀ event ∈ events, event.keepsRequest = true) :
    (events.foldl (step params) s).invalidateEvent = s.invalidateEvent := by
  induction events generalizing s with
  | nil => rfl
  | cons event events ih =>
    rw [List.foldl_cons, ih _ fun later mem => keeps later (List.mem_cons_of_mem event mem)]
    have here := keeps event (List.mem_cons_self ..)
    cases event with
    | invalidateRefFrames request => cases here
    | takeInvalidation fails => cases here
    | requestIdr => rfl
    | takeIdr => rfl
    | stop => rfl
    | encode outcome => cases outcome <;> rfl

/-- The frames of the request from `first` up to `next`. -/
def Requested (request : Request) (first next i : ℕ) : Prop :=
  toUint64 request.1 ≤ i ∧ i ≤ toUint64 request.2 ∧ first ≤ i ∧ i < next

/-- An iteration takes the last request that was received before it. From its frame on, every frame is an IDR frame,
or all frames of the range that were encoded by then are invalidated or behind an IDR frame; and it is its frame that
is flagged. -/
theorem invalidation_honoured (waiting : Option Request) (idr : Bool) (first : ℕ) (begins : 1 ≤ first)
    (before : List Event) (fails : ℕ → Bool) (behind : List Event)
    (run : Runs Enabled (step params) (start waiting idr first) (before ++ .takeInvalidation fails :: behind)) :
    let s := before.foldl (step params) (start waiting idr first)
    let ended := behind.foldl (step params) (takeInvalidation params fails s)
    (∀ earlier request between, before = earlier ++ .invalidateRefFrames request :: between →
        (∀ event ∈ between, event.keepsRequest = true) → s.invalidateEvent = some request) ∧
      (∀ request, s.invalidateEvent = some request → ∀ f ∈ ended.frames, s.frameNr ≤ f.frameIndex →
        ∀ g ∈ s.frames, toUint64 request.1 ≤ g.frameIndex → g.frameIndex ≤ toUint64 request.2 →
          Honoured ended.frames f g.frameIndex) ∧
      (∀ f ∈ ended.frames, f.frameIndex = s.frameNr → (f.afterRefFrameInvalidation = true ↔ Asks params s)) := by
  intro s ended
  obtain ⟨ranBefore, phase, ranBehind⟩ := Runs.append_iff.mp run
  have sound : Sound first s := ranBefore.invariant (Sound first) (start_sound waiting idr first begins)
    fun s event sound enabled => step_sound params first event s sound enabled
  have soundTaken := takeInvalidation_sound params first fails s sound
  obtain ⟨phaseTaken, framesTaken, frameNrTaken, -⟩ := takeInvalidation_frames params fails s
  refine ⟨?_, ?_, ?_⟩
  · intro earlier request between split keeps
    simp only [s, split, List.foldl_append, List.foldl_cons]
    exact run_keepsRequest params between _ keeps
  · intro request taken
    have here : Behind s.frameNr (Requested request first s.frameNr) (takeInvalidation params fails s) := by
      refine ⟨frameNrTaken.ge, ?_, ?_⟩
      · rintro i ⟨lower, upper, begun, encoded⟩
        exact takeInvalidation_settles params first fails s sound request taken i lower upper begun encoded
      · intro f mem from_
        rw [framesTaken] at mem
        exact absurd (sound.frames f mem).2 (not_lt.mpr from_)
    obtain ⟨-, all⟩ := ranBehind.invariant
      (fun t => Sound first t ∧ Behind s.frameNr (Requested request first s.frameNr) t) ⟨soundTaken, here⟩
      fun t event kept enabled =>
        ⟨step_sound params first event t kept.1 enabled,
          step_behind params s.frameNr first (Requested request first s.frameNr) event t kept.1 kept.2⟩
    intro f mem from_ g encoded lower upper
    exact all.frames f mem from_ g.frameIndex ⟨lower, upper, sound.frames g encoded⟩
  · have here : Flags s.frameNr (Asks params s) (takeInvalidation params fails s) := by
      refine ⟨frameNrTaken.ge, ?_, fun _ => ⟨by simp [phaseTaken], ?_⟩⟩
      · intro f mem same
        rw [framesTaken] at mem
        exact absurd same (sound.frames f mem).2.ne
      · exact takeInvalidation_flag params fails s (sound.flag phase)
    exact (ranBehind.invariant (Flags s.frameNr (Asks params s)) here
      fun t event flags enabled => step_flags params s.frameNr (Asks params s) event t flags enabled).frames

end Session

/-! ## Two requests -/

namespace TwoRequests

instance decidableEnabled : ∀ (s : State) (event : Event), Decidable (Enabled s event)
  | _, .invalidateRefFrames _ => inferInstanceAs (Decidable True)
  | _, .requestIdr => inferInstanceAs (Decidable True)
  | s, .takeInvalidation _ => inferInstanceAs (Decidable (s.phase = .takeInvalidation))
  | s, .takeIdr => inferInstanceAs (Decidable (s.phase = .takeIdr))
  | s, .encode _ => inferInstanceAs (Decidable (s.phase = .encode))
  | s, .stop => inferInstanceAs (Decidable (s.phase = .takeInvalidation))

instance decidableHonoured (frames : List Frame) (f : Frame) (i : ℕ) : Decidable (Honoured frames f i) :=
  inferInstanceAs (Decidable (_ ∨ _ ∨ _))

def params : Params := ⟨true, 16⟩

def iteration (idr : Bool) : List Event :=
  [.takeInvalidation fun _ => false, .takeIdr, .encode (.encoded idr false)]

/-- Four frames, and two requests before the next iteration. -/
def received : List Event :=
  iteration true ++ iteration false ++ iteration false ++ iteration false ++
    [.invalidateRefFrames (2, 2), .invalidateRefFrames (4, 4)]

/-- The first of two requests is lost: the frame behind them still refers to its range. -/
theorem request_lost :
    Runs Enabled (step params) (start none false 1) (received ++ iteration false) ∧
      ∃ f ∈ ((received ++ iteration false).foldl (step params) (start none false 1)).frames, f.frameIndex = 5 ∧
        ¬ Honoured ((received ++ iteration false).foldl (step params) (start none false 1)).frames f 2 := by
  decide

/-- The second one is honoured. -/
theorem invalidation_honoured_last :
    ∃ f ∈ ((received ++ iteration false).foldl (step params) (start none false 1)).frames, f.frameIndex = 5 ∧
      Honoured ((received ++ iteration false).foldl (step params) (start none false 1)).frames f 4 := by
  have honoured := invalidation_honoured params none false 1 le_rfl received (fun _ => false)
    [.takeIdr, .encode (.encoded false false)] (by decide)
  obtain ⟨f, mem, same⟩ : ∃ f ∈ ((received ++ iteration false).foldl (step params) (start none false 1)).frames,
    f.frameIndex = 5 := by decide
  exact ⟨f, mem, same, honoured.2.1 (4, 4) (by decide) f mem (by rw [same]; decide) ⟨4, false, false, []⟩ (by decide)
    (by decide) (by decide)⟩

end TwoRequests

end Sunshine.Invalidation
