import Mathlib.Algebra.Order.Field.Rat
import Mathlib.Tactic.NormNum
import Sunshine.Lib.Clamps
import Sunshine.Lib.Transitions

/-! The audio effects before the encoder (`audio_fx.cpp`), over the rationals.

The gain control, the voice detector and the ducker are stages of their own; the pre-processor runs them one after the
other on the same buffer, with a noise gate between. -/
namespace Sunshine.AudioFx
open Clamps Smoothing Transitions
set_option autoImplicit false

/-- `std::exp`, `std::log10` and `std::pow(10, _)`. -/
structure Maths where
  exp : ℚ → ℚ
  log10 : ℚ → ℚ
  pow10 : ℚ → ℚ

/-- The arguments of `process`; the samples are interleaved, or a null pointer. -/
structure Frame where
  samples : Option (List ℚ)
  frameCount : ℕ
  channels : ℤ
  deriving DecidableEq, Repr

def Frame.isEmpty (f : Frame) : Bool := f.samples.isNone || f.frameCount = 0 || f.channels ≤ 0

def Frame.total (f : Frame) : ℕ := f.frameCount * f.channels.toNat

def Frame.scale (f : Frame) (gain : ℚ) : Frame :=
  { f with samples := f.samples.map fun samples => (samples.take f.total).map (· * gain) ++ samples.drop f.total }

/-! ## Rates and levels -/

/-- A sample rate that can be divided by. -/
abbrev Rate := { rate : ℚ // 0 < rate }

def defaultRate : Rate := ⟨48000, by norm_num⟩

/-- A rate that is not finite is `none`. -/
def sanitizeRate (rate : Option ℚ) (fallback : Rate) : Rate :=
  match rate with
  | some rate => if h : 0 < rate then ⟨rate, h⟩ else fallback
  | none => fallback

def frameMs (rate : Rate) (f : Frame) : ℚ := 1000 * f.frameCount / rate

def msToAlpha (m : Maths) (tauMs frameMs : ℚ) : ℚ :=
  if tauMs ≤ 0 ∨ frameMs ≤ 0 then 1 else 1 - m.exp (-frameMs / tauMs)

def rmsDb (m : Maths) (f : Frame) : ℚ :=
  if f.isEmpty then -200
  else
    let acc := ((f.samples.getD []).take f.total).foldl (fun acc v => acc + v * v) (0 : ℚ)
    let mean := acc / f.total
    if mean ≤ 0 then -200 else 10 * m.log10 mean

def dbToLinear (m : Maths) (db : ℚ) : ℚ := m.pow10 (db / 20)

/-! ## Gain control -/

/-- A configuration as it is given has a rate that may not be finite, and behind the constructor one that is right. -/
structure Agc.Config (R : Type) where
  targetRmsDb : ℚ := -20
  maxGainDb : ℚ := 12
  minGainDb : ℚ := -12
  attackMs : ℚ := 10
  holdMs : ℚ := 200
  releaseMs : ℚ := 100
  sampleRate : R

def Agc.Config.initial : Agc.Config (Option ℚ) := { sampleRate := some 48000 }

structure Agc where
  cfg : Agc.Config Rate
  currentGainLinear : ℚ := 1
  holdRemainingSamples : ℚ := 0

def Agc.new (cfg : Agc.Config (Option ℚ)) : Agc where
  cfg :=
    { targetRmsDb := cfg.targetRmsDb
      maxGainDb := if cfg.maxGainDb < cfg.minGainDb then cfg.minGainDb else cfg.maxGainDb
      minGainDb := if cfg.maxGainDb < cfg.minGainDb then cfg.maxGainDb else cfg.minGainDb
      attackMs := max 0 cfg.attackMs
      holdMs := max 0 cfg.holdMs
      releaseMs := max 0 cfg.releaseMs
      sampleRate := sanitizeRate cfg.sampleRate defaultRate }

/-- The gain that a frame asks for. -/
def Agc.targetGainLinear (m : Maths) (agc : Agc) (f : Frame) : ℚ :=
  dbToLinear m (clamp (agc.cfg.targetRmsDb - rmsDb m f) agc.cfg.minGainDb agc.cfg.maxGainDb)

/-- The gain before it is guarded, and the hold timer. -/
def Agc.moved (m : Maths) (agc : Agc) (f : Frame) : ℚ × ℚ :=
  let attackAlpha := msToAlpha m agc.cfg.attackMs (frameMs agc.cfg.sampleRate f)
  let releaseAlpha := msToAlpha m agc.cfg.releaseMs (frameMs agc.cfg.sampleRate f)
  if agc.currentGainLinear < agc.targetGainLinear m f then
    (smooth agc.currentGainLinear (agc.targetGainLinear m f) attackAlpha, agc.cfg.holdMs / 1000 * agc.cfg.sampleRate)
  else if agc.holdRemainingSamples ≤ 0 then
    (smooth agc.currentGainLinear (agc.targetGainLinear m f) releaseAlpha, agc.holdRemainingSamples)
  else (agc.currentGainLinear, max 0 (agc.holdRemainingSamples - f.frameCount))

def Agc.process (m : Maths) (agc : Agc) (f : Frame) : Agc × Frame :=
  if f.isEmpty then (agc, f)
  else
    let gain := clamp (agc.moved m f).1 (1 / 100) 8
    ({ agc with currentGainLinear := gain, holdRemainingSamples := (agc.moved m f).2 }, f.scale gain)

def Agc.reset (agc : Agc) : Agc := { agc with currentGainLinear := 1, holdRemainingSamples := 0 }

/-! ## Voice detection -/

structure Vad.Config (R : Type) where
  thresholdDb : ℚ := -45
  hysteresisDb : ℚ := 6
  minSpeechMs : ℚ := 100
  minSilenceMs : ℚ := 200
  sampleRate : R

def Vad.Config.initial : Vad.Config (Option ℚ) := { sampleRate := some 48000 }

structure Vad where
  cfg : Vad.Config Rate
  isSpeech : Bool := false
  speechSamples : ℚ := 0
  silenceSamples : ℚ := 0

def Vad.new (cfg : Vad.Config (Option ℚ)) : Vad where
  cfg :=
    { thresholdDb := cfg.thresholdDb
      hysteresisDb := if cfg.hysteresisDb < 0 then 0 else cfg.hysteresisDb
      minSpeechMs := max 0 cfg.minSpeechMs
      minSilenceMs := max 0 cfg.minSilenceMs
      sampleRate := sanitizeRate cfg.sampleRate defaultRate }

def Vad.enterThreshold (vad : Vad) : ℚ := vad.cfg.thresholdDb

def Vad.exitThreshold (vad : Vad) : ℚ := vad.cfg.thresholdDb - vad.cfg.hysteresisDb

/-- The decision that `process` returns is the one it keeps. -/
def Vad.process (m : Maths) (vad : Vad) (f : Frame) : Vad :=
  if f.isEmpty then vad
  else if vad.isSpeech then
    if rmsDb m f ≤ vad.exitThreshold then
      let silence := vad.silenceSamples + f.frameCount
      if silence / vad.cfg.sampleRate * 1000 ≥ vad.cfg.minSilenceMs then
        { vad with isSpeech := false, speechSamples := 0, silenceSamples := 0 }
      else { vad with silenceSamples := silence }
    else { vad with silenceSamples := 0 }
  else if rmsDb m f ≥ vad.enterThreshold then
    let speech := vad.speechSamples + f.frameCount
    if speech / vad.cfg.sampleRate * 1000 ≥ vad.cfg.minSpeechMs then
      { vad with isSpeech := true, speechSamples := speech, silenceSamples := 0 }
    else { vad with speechSamples := speech, silenceSamples := 0 }
  else { vad with speechSamples := 0 }

def Vad.reset (vad : Vad) : Vad := { vad with isSpeech := false, speechSamples := 0, silenceSamples := 0 }

/-! ## Ducking -/

structure Ducker.Config (R : Type) where
  targetAttenuationDb : ℚ := -12
  attackMs : ℚ := 50
  releaseMs : ℚ := 500
  sampleRate : R

def Ducker.Config.initial : Ducker.Config (Option ℚ) := { sampleRate := some 48000 }

structure Ducker where
  cfg : Ducker.Config Rate
  currentGainDb : ℚ := 0

def Ducker.new (cfg : Ducker.Config (Option ℚ)) : Ducker where
  cfg :=
    { targetAttenuationDb := cfg.targetAttenuationDb
      attackMs := max 0 cfg.attackMs
      releaseMs := max 0 cfg.releaseMs
      sampleRate := sanitizeRate cfg.sampleRate defaultRate }

def Ducker.process (m : Maths) (ducker : Ducker) (f : Frame) (voiceActive : Bool) : Ducker × Frame :=
  if f.isEmpty then (ducker, f)
  else
    let targetDb := if voiceActive then ducker.cfg.targetAttenuationDb else 0
    let tauMs := if targetDb < ducker.currentGainDb then ducker.cfg.attackMs else ducker.cfg.releaseMs
    let alpha := msToAlpha m tauMs (frameMs ducker.cfg.sampleRate f)
    let gainDb := smooth ducker.currentGainDb targetDb alpha
    ({ ducker with currentGainDb := gainDb }, f.scale (dbToLinear m gainDb))

def Ducker.reset (ducker : Ducker) : Ducker := { ducker with currentGainDb := 0 }

/-! ## The pre-processor -/

structure PreProcessor.Config where
  enableAgc : Bool := true
  enableVad : Bool := true
  enableDucking : Bool := true
  enableNoiseGate : Bool := true
  noiseGateThresholdDb : Option ℚ := some (-55)
  agc : Agc.Config (Option ℚ) := .initial
  vad : Vad.Config (Option ℚ) := .initial
  ducker : Ducker.Config (Option ℚ) := .initial

structure PreProcessor where
  enableAgc : Bool
  enableVad : Bool
  enableDucking : Bool
  enableNoiseGate : Bool
  noiseGateThresholdDb : ℚ
  agc : Agc
  vad : Vad
  ducker : Ducker
  noiseGateGain : ℚ := 1
  noiseGateSampleRate : Rate

/-- The rates that the constructor gives the stages. -/
def PreProcessor.Config.sanitized (cfg : PreProcessor.Config) : PreProcessor.Config :=
  let agcRate := sanitizeRate cfg.agc.sampleRate defaultRate
  { cfg with
    agc := { cfg.agc with sampleRate := some agcRate.val }
    vad := { cfg.vad with sampleRate := some (sanitizeRate cfg.vad.sampleRate agcRate).val }
    ducker := { cfg.ducker with sampleRate := some (sanitizeRate cfg.ducker.sampleRate agcRate).val } }

def PreProcessor.new (cfg : PreProcessor.Config) : PreProcessor where
  enableAgc := cfg.enableAgc
  enableVad := cfg.enableVad
  enableDucking := cfg.enableDucking
  enableNoiseGate := cfg.enableNoiseGate
  noiseGateThresholdDb := cfg.noiseGateThresholdDb.getD (-55)
  agc := .new cfg.sanitized.agc
  vad := .new cfg.sanitized.vad
  ducker := .new cfg.sanitized.ducker
  -- what is checked here is the gate's own rate, which is right already
  noiseGateSampleRate := sanitizeRate (some 48000) (sanitizeRate cfg.agc.sampleRate defaultRate)

def Frame.refused (f : Frame) : Bool := f.isEmpty || f.frameCount > 100000 || f.channels > 32

section Process

variable (m : Maths) (p : PreProcessor) (f : Frame)

def PreProcessor.controlled : Agc × Frame := if p.enableAgc then p.agc.process m f else (p.agc, f)

def PreProcessor.observed (f : Frame) : Vad × Bool :=
  if p.enableVad then (p.vad.process m f, (p.vad.process m f).isSpeech) else (p.vad, false)

def PreProcessor.gated (f : Frame) : ℚ × Frame :=
  if p.enableNoiseGate then
    let ms := frameMs p.noiseGateSampleRate f
    let gain :=
      if rmsDb m f < p.noiseGateThresholdDb then smooth p.noiseGateGain 0 (msToAlpha m 20 ms)
      else smooth p.noiseGateGain 1 (msToAlpha m 5 ms)
    (gain, f.scale gain)
  else (p.noiseGateGain, f)

def PreProcessor.ducked (f : Frame) (speech : Bool) : Ducker × Frame :=
  if p.enableDucking then p.ducker.process m f speech else (p.ducker, f)

/-- The decision, the state behind the frame, and the buffer. -/
def PreProcessor.process : Bool × PreProcessor × Frame :=
  if f.refused then (false, p, f)
  else
    let (agc, f) := p.controlled m f
    let (vad, speech) := p.observed m f
    let (noiseGateGain, f) := p.gated m f
    let (ducker, f) := p.ducked m f speech
    (speech, { p with agc, vad, noiseGateGain, ducker }, f)

def PreProcessor.reset : PreProcessor :=
  { p with agc := p.agc.reset, vad := p.vad.reset, ducker := p.ducker.reset, noiseGateGain := 1 }

end Process

/-! ## What should hold -/

/-- The frames that are not passed over. -/
def taken (frames : List Frame) : List Frame := frames.filter fun f => !f.isEmpty

def durationMs (rate : Rate) (frames : List Frame) : ℚ := (frames.map fun f => (f.frameCount : ℚ)).sum / rate * 1000

section Specs

variable (m : Maths)

def Agc.run (cfg : Agc.Config (Option ℚ)) (frames : List Frame) : Agc :=
  frames.foldl (fun agc f => (agc.process m f).1) (.new cfg)

def Vad.run (cfg : Vad.Config (Option ℚ)) (frames : List Frame) : Vad := frames.foldl (Vad.process m) (.new cfg)

/-- Each frame comes with the decision whether a voice is active. -/
def Ducker.run (cfg : Ducker.Config (Option ℚ)) (steps : List (Frame × Bool)) : Ducker :=
  steps.foldl (fun ducker step => (ducker.process m step.1 step.2).1) (.new cfg)

def PreProcessor.next (p : PreProcessor) (f : Frame) : PreProcessor := (p.process m f).2.1

def PreProcessor.run (cfg : PreProcessor.Config) (frames : List Frame) : PreProcessor :=
  frames.foldl (PreProcessor.next m) (.new cfg)

structure Agc.Timed (cfg : Agc.Config (Option ℚ)) : Prop where
  /-- Between a raise and a frame that lowers the gain the hold time has passed. -/
  held : ∀ before raised between lowered,
    (run m cfg before).currentGainLinear < (run m cfg (before ++ [raised])).currentGainLinear →
    (run m cfg (before ++ raised :: between ++ [lowered])).currentGainLinear <
      (run m cfg (before ++ raised :: between)).currentGainLinear →
    (new cfg).cfg.holdMs ≤ durationMs (new cfg).cfg.sampleRate (taken between)
  /-- A frame leaves the gain between what it was and what the frame asks for. -/
  aimed : ∀ before f,
    let gain := (run m cfg before).currentGainLinear
    let target := (run m cfg before).targetGainLinear m f
    let gain' := (run m cfg (before ++ [f])).currentGainLinear
    min gain target ≤ gain' ∧ gain' ≤ max gain target
  bounded : ∀ frames, 1 / 100 ≤ (run m cfg frames).currentGainLinear ∧ (run m cfg frames).currentGainLinear ≤ 8

/-- The last frame ends a run of frames that all meet `level`, and the run lasts for `ms`. -/
def EndsRun (level : Frame → Prop) (rate : Rate) (ms : ℚ) (frames : List Frame) (last : Frame) : Prop :=
  last.isEmpty = false ∧ ∃ front back, frames = front ++ back ∧ (∀ f ∈ taken (back ++ [last]), level f) ∧
    ms ≤ durationMs rate (taken (back ++ [last]))

structure Vad.Timed (cfg : Vad.Config (Option ℚ)) : Prop where
  on : ∀ before f, (run m cfg before).isSpeech = false → (run m cfg (before ++ [f])).isSpeech = true →
    EndsRun (fun f => (new cfg).enterThreshold ≤ rmsDb m f) (new cfg).cfg.sampleRate (new cfg).cfg.minSpeechMs before f
  off : ∀ before f, (run m cfg before).isSpeech = true → (run m cfg (before ++ [f])).isSpeech = false →
    EndsRun (fun f => rmsDb m f ≤ (new cfg).exitThreshold) (new cfg).cfg.sampleRate (new cfg).cfg.minSilenceMs before f

def Ducker.Timed (cfg : Ducker.Config (Option ℚ)) : Prop := ∀ steps,
  min 0 cfg.targetAttenuationDb ≤ (run m cfg steps).currentGainDb ∧
    (run m cfg steps).currentGainDb ≤ max 0 cfg.targetAttenuationDb

/-! ### The stages in the pre-processor -/

section Inputs

variable (p : PreProcessor) (f : Frame)

def PreProcessor.agcInput : Option Frame := if !f.refused && p.enableAgc then some f else none

def PreProcessor.vadInput : Option Frame := if !f.refused && p.enableVad then some (p.controlled m f).2 else none

def PreProcessor.duckerInput : Option (Frame × Bool) :=
  let heard := (p.controlled m f).2
  if !f.refused && p.enableDucking then some ((p.gated m heard).2, (p.observed m heard).2) else none

end Inputs

/-- In a run of the pre-processor each stage is in a run of its own, over the frames that it gets. -/
structure PreProcessor.Timed (cfg : PreProcessor.Config) : Prop where
  agc : ∀ frames, (run m cfg frames).agc = Agc.run m cfg.sanitized.agc (fed (next m) agcInput (new cfg) frames)
  vad : ∀ frames, (run m cfg frames).vad = Vad.run m cfg.sanitized.vad (fed (next m) (vadInput m) (new cfg) frames)
  ducker : ∀ frames,
    (run m cfg frames).ducker = Ducker.run m cfg.sanitized.ducker (fed (next m) (duckerInput m) (new cfg) frames)
  gate : ∀ frames, 0 ≤ (run m cfg frames).noiseGateGain ∧ (run m cfg frames).noiseGateGain ≤ 1

end Specs

end Sunshine.AudioFx
