import Mathlib.Algebra.Order.Ring.Nat
import Mathlib.Algebra.Ring.Int.Defs
import Mathlib.Data.List.Basic
import Mathlib.Logic.Function.Basic
import Mathlib.Tactic.Common

/-! The encoder probe (`validate_encoder`, `probe_encoders`).

What the platform answers while an encoder is tried is a function of the configuration it is asked
about: one attempt asks about each configuration at most once. Capability bits start set and are
cleared test by test; the log of an attempt has the configurations that `validate_config` accepted. -/
namespace Sunshine.Video
set_option autoImplicit false

/-! ## Configurations and encoders -/

inductive Codec where
  | h264
  | hevc
  | av1
  deriving DecidableEq, Repr

def Codec.videoFormat : Codec → ℤ
  | .h264 => 0
  | .hevc => 1
  | .av1 => 2

/-- `config_t`, with the fields in the source's order. -/
structure ProbeConfig where
  width : ℤ := 1920
  height : ℤ := 1080
  framerate : ℤ := 60
  framerateX100 : ℤ := 6000
  bitrate : ℤ := 1000
  slicesPerFrame : ℤ := 1
  numRefFrames : ℤ
  encoderCscMode : ℤ
  videoFormat : ℤ
  dynamicRange : ℤ
  chromaSamplingType : ℤ
  enableIntraRefresh : ℤ := 0
  deriving DecidableEq, Repr

def configMaxRefFrames (codec : Codec) : ProbeConfig :=
  { numRefFrames := 1, encoderCscMode := 1, videoFormat := codec.videoFormat, dynamicRange := 0
    chromaSamplingType := 0 }

def configAutoselect (codec : Codec) : ProbeConfig :=
  { numRefFrames := 0, encoderCscMode := 1, videoFormat := codec.videoFormat, dynamicRange := 0
    chromaSamplingType := 0 }

/-- The lambdas `test_yuv444`, `test_yuv420_hdr` and `test_yuv444_hdr`. -/
inductive CapabilityTest where
  | yuv444
  | yuv420Hdr
  | yuv444Hdr
  deriving DecidableEq, Repr

def CapabilityTest.config (t : CapabilityTest) (codec : Codec) : ProbeConfig :=
  match t with
  | .yuv444 =>
    { numRefFrames := 0, encoderCscMode := 1, videoFormat := codec.videoFormat, dynamicRange := 0
      chromaSamplingType := 1 }
  | .yuv420Hdr =>
    { numRefFrames := 0, encoderCscMode := 3, videoFormat := codec.videoFormat, dynamicRange := 1
      chromaSamplingType := 0 }
  | .yuv444Hdr =>
    { numRefFrames := 0, encoderCscMode := 3, videoFormat := codec.videoFormat, dynamicRange := 1
      chromaSamplingType := 1 }

def CapabilityTest.needsYuv444 : CapabilityTest → Bool
  | .yuv444 | .yuv444Hdr => true
  | .yuv420Hdr => false

structure Capabilities where
  passed : Bool
  refFramesRestrict : Bool
  dynamicRange : Bool
  yuv444 : Bool
  dynamicRangeYuv444 : Bool
  vuiParameters : Bool
  deriving DecidableEq, Repr

/-- `capabilities.set()` -/
def Capabilities.all : Capabilities := ⟨true, true, true, true, true, true⟩

/-- `capabilities.reset()` -/
def Capabilities.none : Capabilities := ⟨false, false, false, false, false, false⟩

def Capabilities.get (c : Capabilities) : CapabilityTest → Bool
  | .yuv444 => c.yuv444
  | .yuv420Hdr => c.dynamicRange
  | .yuv444Hdr => c.dynamicRangeYuv444

def Capabilities.put (c : Capabilities) (value : Bool) : CapabilityTest → Capabilities
  | .yuv444 => { c with yuv444 := value }
  | .yuv420Hdr => { c with dynamicRange := value }
  | .yuv444Hdr => { c with dynamicRangeYuv444 := value }

/-- An `encoder_t` as far as the probe reads it; the capability bits are in `Attempt`. -/
structure Encoder where
  name : String
  codecName : Codec → String
  h264Only : Bool
  yuv444Support : Bool
  alwaysReprobe : Bool
  refFramesInvalidation : Bool

/-- What the platform answers during one `validate_encoder`: whether `reset_display` ends with a
display, `is_codec_supported`, and the value of `validate_config`. -/
structure Outcomes where
  display : ProbeConfig → Bool
  codecSupported : String → ProbeConfig → Bool
  validateConfig : ProbeConfig → ℤ

/-- The capability bits of an encoder and the configurations that were validated for them. -/
structure Attempt where
  caps : Codec → Capabilities
  validated : List ProbeConfig

def Attempt.setCaps (a : Attempt) (codec : Codec) (c : Capabilities) : Attempt :=
  { a with caps := Function.update a.caps codec c }

/-! ## `validate_encoder` -/

def Attempt.validateConfig (a : Attempt) (o : Outcomes) (config : ProbeConfig) : ℤ × Attempt :=
  (o.validateConfig config,
    if 0 ≤ o.validateConfig config then { a with validated := a.validated ++ [config] } else a)

/-- `flag & VUI_PARAMS`; a failed validation is -1 and has every bit. -/
def vuiParams (flag : ℤ) : Bool := flag % 2 ≠ 0

/-- The viability test with H.264, and the value of `max_ref_frames_h264` if it is passed. -/
def viability (a : Attempt) (o : Outcomes) (expectFailure : Bool) : Option (ℤ × Attempt) :=
  let (maxRefFrames, a) := if expectFailure then (-1, a) else
    a.validateConfig o (configMaxRefFrames .h264)
  let (autoselect, a) := if 0 ≤ maxRefFrames then (maxRefFrames, a) else
    a.validateConfig o (configAutoselect .h264)
  if autoselect < 0 then none
  else
    let (maxRefFrames, a) := if expectFailure then
        a.validateConfig o (configMaxRefFrames .h264)
      else (maxRefFrames, a)
    some (maxRefFrames, a.setCaps .h264 { a.caps .h264 with
      vuiParameters := vuiParams maxRefFrames && vuiParams autoselect
      refFramesRestrict := 0 ≤ maxRefFrames
      passed := true })

/-- `autoselect_hevc` and `autoselect_av1`: if H.264 succeeded with max ref frames, HEVC and AV1 are
counted on to do so too. -/
def Attempt.autoselect (a : Attempt) (o : Outcomes) (codec : Codec)
    (maxRefFrames maxRefFramesH264 : ℤ) : ℤ × Attempt :=
  if 0 ≤ maxRefFrames ∨ 0 ≤ maxRefFramesH264 then (maxRefFrames, a)
  else a.validateConfig o (configAutoselect codec)

/-- The blocks for HEVC and AV1. -/
def testCodec (a : Attempt) (o : Outcomes) (e : Encoder) (codec : Codec) (test : Bool)
    (maxRefFramesH264 : ℤ) : Attempt :=
  if test && o.codecSupported (e.codecName codec) (configAutoselect codec) then
    let (maxRefFrames, a) := a.validateConfig o (configMaxRefFrames codec)
    let (autoselect, a) := a.autoselect o codec maxRefFrames maxRefFramesH264
    a.setCaps codec { a.caps codec with
      vuiParameters := vuiParams maxRefFrames && vuiParams autoselect
      refFramesRestrict := 0 ≤ maxRefFrames
      passed := 0 ≤ maxRefFrames || 0 ≤ autoselect }
  else a.setCaps codec .none

def testCapability (o : Outcomes) (e : Encoder) (codec : Codec) (a : Attempt)
    (t : CapabilityTest) : Attempt :=
  if o.display (t.config codec) = false then a
  else if (a.caps codec).passed = false then a
  else if (!t.needsYuv444 || e.yuv444Support) &&
      o.codecSupported (e.codecName codec) (t.config codec) then
    let (flag, a) := a.validateConfig o (t.config codec)
    a.setCaps codec ((a.caps codec).put (0 ≤ flag) t)
  else a.setCaps codec ((a.caps codec).put false t)

def forceHeaders (force : Bool) (a : Attempt) (codec : Codec) : Attempt :=
  a.setCaps codec { a.caps codec with
    vuiParameters := (a.caps codec).vuiParameters && !force }

/-- Whether a codec is tested at all. -/
def testsCodec (activeMode : ℕ) (e : Encoder) : Bool :=
  2 ≤ activeMode || (activeMode = 0 && !e.h264Only)

def Attempt.fresh : Attempt := { caps := fun _ => .all, validated := [] }

def allTests : List CapabilityTest := [.yuv444, .yuv420Hdr, .yuv444Hdr]

/-- HDR is not supported with H.264. -/
def clearHdr (a : Attempt) (codec : Codec) : Attempt :=
  a.setCaps codec { a.caps codec with dynamicRange := false, dynamicRangeYuv444 := false }

/-- All capability tests, after the codecs have been tried. -/
def testCapabilities (o : Outcomes) (e : Encoder) (a : Attempt) : Attempt :=
  allTests.foldl (testCapability o e .av1)
    (allTests.foldl (testCapability o e .hevc)
      (clearHdr (testCapability o e .h264 a .yuv444) .h264))

def validateEncoder (o : Outcomes) (e : Encoder) (activeHevcMode activeAv1Mode : ℕ)
    (force expectFailure : Bool) : Bool × Attempt :=
  if o.display (configAutoselect .h264) = false then (false, .fresh)
  else if o.codecSupported (e.codecName .h264) (configAutoselect .h264) = false then (false, .fresh)
  else
    match viability .fresh o expectFailure with
    | none => (false, .fresh)
    | some (maxRefFramesH264, a) =>
      let a := testCodec a o e .hevc (testsCodec activeHevcMode e) maxRefFramesH264
      let a := testCodec a o e .av1 (testsCodec activeAv1Mode e) maxRefFramesH264
      let a := testCapabilities o e a
      (true, forceHeaders force (forceHeaders force a .h264) .hevc)

/-! ## `probe_encoders` -/

/-- The globals of the probe. The last two fields are the modes that were configured for the last
selection. -/
structure Encoders where
  attempts : ℕ → Attempt := fun _ => { caps := fun _ => .none, validated := [] }
  chosen : Option ℕ := none
  activeHevcMode : ℕ := 0
  activeAv1Mode : ℕ := 0
  refFramesInvalidation : Bool := false
  yuv444ForCodec : Codec → Bool := fun _ => false
  requestedHevcMode : ℕ := 0
  requestedAv1Mode : ℕ := 0

/-- The three searches of `probe_encoders`. -/
inductive SearchPass where
  | named
  | required
  | any
  deriving DecidableEq, Repr

/-- What one `probe_encoders` finds: whether probing is allowed, whether the encoders have to be
enumerated again, the configuration, and what the platform answers to the n-th `validate_encoder` of
each search. -/
structure ProbeInput where
  allowed : Bool := true
  reenumeration : Bool := false
  hevcMode : ℕ
  av1Mode : ℕ
  encoder : String
  force : Bool
  outcomes : SearchPass → ℕ → Outcomes

section
variable (table : ℕ → Encoder)

/-- `adjust_encoder_constraints_hevc` -/
def adjustHevc (s : Encoders) (p : ℕ) : Encoders :=
  let c := (s.attempts p).caps .hevc
  if s.activeHevcMode = 5 ∧ c.dynamicRange = false ∧ c.dynamicRangeYuv444 = false then
    { s with activeHevcMode := 0 }
  else if s.activeHevcMode = 4 ∧ c.dynamicRangeYuv444 = false then { s with activeHevcMode := 0 }
  else if s.activeHevcMode = 3 ∧ c.dynamicRange = false then { s with activeHevcMode := 0 }
  else if s.activeHevcMode = 2 ∧ c.passed = false then { s with activeHevcMode := 0 }
  else s

/-- `adjust_encoder_constraints_av1`; two of its branches read and write the HEVC mode. -/
def adjustAv1 (s : Encoders) (p : ℕ) : Encoders :=
  let hevc := (s.attempts p).caps .hevc
  let av1 := (s.attempts p).caps .av1
  if s.activeAv1Mode = 5 ∧ av1.dynamicRange = false ∧ av1.dynamicRangeYuv444 = false then
    { s with activeAv1Mode := 0 }
  else if s.activeHevcMode = 4 ∧ av1.dynamicRangeYuv444 = false then { s with activeHevcMode := 0 }
  else if s.activeHevcMode = 3 ∧ hevc.dynamicRange = false then { s with activeHevcMode := 0 }
  else if s.activeAv1Mode = 2 ∧ av1.passed = false then { s with activeAv1Mode := 0 }
  else s

/-- With another encoder in use before, this one is expected to fail. -/
def expectsFailure (previous : Option ℕ) (p : ℕ) : Bool := previous.isSome && previous ≠ some p

/-- `validate_encoder` on the encoder at `p`. -/
def tryEncoder (input : ProbeInput) (previous : Option ℕ) (o : Outcomes) (p : ℕ) (s : Encoders) :
    Bool × Encoders :=
  let result := validateEncoder o (table p) s.activeHevcMode s.activeAv1Mode input.force
    (expectsFailure previous p)
  (result.1, { s with attempts := Function.update s.attempts p result.2 })

structure Search where
  list : List ℕ
  state : Encoders

def accept (s : Encoders) (p : ℕ) : Encoders :=
  { adjustAv1 (adjustHevc s p) p with chosen := some p }

/-- The search for the encoder named in the configuration. -/
def searchNamed (input : ProbeInput) (previous : Option ℕ) : List ℕ → Encoders → Search
  | [], s => ⟨[], s⟩
  | p :: rest, s =>
    if (table p).name = input.encoder then
      let result := tryEncoder table input previous (input.outcomes .named 0) p s
      if result.1 then ⟨p :: rest, accept result.2 p⟩ else ⟨rest, result.2⟩
    else
      let found := searchNamed input previous rest s
      { found with list := p :: found.list }

/-- Whether an encoder has what the configured modes ask for. -/
def meetsRequirements (s : Encoders) (p : ℕ) : Bool :=
  let hevc := (s.attempts p).caps .hevc
  let av1 := (s.attempts p).caps .av1
  if (2 ≤ s.activeHevcMode && !hevc.passed) || (2 ≤ s.activeAv1Mode && !av1.passed) then false
  else if (s.activeHevcMode = 5 && !hevc.dynamicRange && !hevc.dynamicRangeYuv444) ||
      (s.activeAv1Mode = 5 && !av1.dynamicRange && !av1.dynamicRangeYuv444) then false
  else if (s.activeHevcMode = 4 && !hevc.dynamicRangeYuv444) ||
      (s.activeAv1Mode = 4 && !av1.dynamicRangeYuv444) then false
  else if (s.activeHevcMode = 3 && !hevc.dynamicRange) ||
      (s.activeAv1Mode = 3 && !av1.dynamicRange) then false
  else true

/-- The search for an encoder with specific codec support; `n` counts its calls. -/
def searchRequired (input : ProbeInput) (previous : Option ℕ) : List ℕ → ℕ → Encoders → Search
  | [], _, s => ⟨[], s⟩
  | p :: rest, n, s =>
    let result := tryEncoder table input previous (input.outcomes .required n) p s
    if result.1 then
      if meetsRequirements result.2 p then ⟨p :: rest, { result.2 with chosen := some p }⟩
      else
        let found := searchRequired input previous rest (n + 1) result.2
        { found with list := p :: found.list }
    else searchRequired input previous rest (n + 1) result.2

/-- The search for any encoder that passes validation. -/
def searchAny (input : ProbeInput) (previous : Option ℕ) : List ℕ → ℕ → Encoders → Search
  | [], _, s => ⟨[], s⟩
  | p :: rest, n, s =>
    let result := tryEncoder table input previous (input.outcomes .any n) p s
    if result.1 then ⟨p :: rest, accept result.2 p⟩
    else searchAny input previous rest (n + 1) result.2

/-- 2: passed; 3: HDR 4:2:0; 4: HDR 4:4:4; 5: both. -/
def measuredMode (c : Capabilities) : ℕ :=
  if c.passed then
    2 + (if c.dynamicRange then 1 else 0) + (if c.dynamicRangeYuv444 then 2 else 0)
  else 1

/-- What is made known of the encoder that was found. -/
def advertise (s : Encoders) (p : ℕ) : Encoders :=
  let caps := (s.attempts p).caps
  { s with
    refFramesInvalidation := (table p).refFramesInvalidation
    yuv444ForCodec := fun codec => (caps codec).passed && (caps codec).yuv444
    activeHevcMode := if s.activeHevcMode = 0 then measuredMode (caps .hevc) else s.activeHevcMode
    activeAv1Mode := if s.activeAv1Mode = 0 then measuredMode (caps .av1) else s.activeAv1Mode }

/-- The first search, if an encoder is named. -/
def namedSearch (input : ProbeInput) (encoderList : List ℕ) (previous : Option ℕ) (s : Encoders) :
    Search :=
  if input.encoder ≠ "" then searchNamed table input previous encoderList s else ⟨encoderList, s⟩

/-- The second search, if there is no encoder yet and a codec is asked for. -/
def requiredSearch (input : ProbeInput) (previous : Option ℕ) (found : Search) : Search :=
  if found.state.chosen = none ∧ (2 ≤ found.state.activeHevcMode ∨ 2 ≤ found.state.activeAv1Mode) then
    searchRequired table input previous found.list 0 found.state
  else found

/-- The three searches, each for the encoders that the ones before it have left. -/
def selectEncoder (input : ProbeInput) (encoderList : List ℕ) (previous : Option ℕ)
    (s : Encoders) : Encoders :=
  let found := requiredSearch table input previous (namedSearch table input encoderList previous s)
  if found.state.chosen = none then
    (searchAny table input previous found.list 0 found.state).state
  else found.state

/-- The state in which a selection starts. -/
def restart (input : ProbeInput) (s : Encoders) : Encoders :=
  { s with
    chosen := none
    activeHevcMode := input.hevcMode
    activeAv1Mode := input.av1Mode
    refFramesInvalidation := false
    requestedHevcMode := input.hevcMode
    requestedAv1Mode := input.av1Mode }

/-- Whether the chosen encoder is kept without another probe. -/
def keepsEncoder (input : ProbeInput) (s : Encoders) : Bool :=
  match s.chosen with
  | none => false
  | some p => !(table p).alwaysReprobe && !input.reenumeration

def probeEncoders (encoderList : List ℕ) (s : Encoders) (input : ProbeInput) : ℤ × Encoders :=
  if input.allowed = false then (-1, s)
  else if keepsEncoder table input s then (0, s)
  else
    let s' := selectEncoder table input encoderList s.chosen (restart input s)
    match s'.chosen with
    | none => (-1, s')
    | some p => (0, advertise table s' p)

end

end Sunshine.Video
