import Sunshine.Lib.Transitions
import Sunshine.Video.Probe

/-! What the encoder probe advertises against what it validated.

`validate_spec` says what the bits of an accepted encoder stand for: a bit whose test came to nothing
(no display, or a codec that did not pass) is as it was, set. The property holds over all runs of
probes in which this concerns no bit that is used, and the constraints on AV1 do not need adjusting. -/
namespace Sunshine.Video
open Transitions
set_option autoImplicit false

/-! ## The property -/

/-- Some configuration of this codec, depth and chroma sampling was validated. -/
def Validated (v : List ProbeConfig) (codec : Codec) (dynamicRange chromaSamplingType : ℤ) : Prop :=
  ∃ c ∈ v, c.videoFormat = codec.videoFormat ∧ c.dynamicRange = dynamicRange ∧
    c.chromaSamplingType = chromaSamplingType

/-- The active mode of a codec stands on what was validated; a mode 5 that was asked for may stand
on either of its halves. -/
structure CodecAdvertised (mode requested : ℕ) (v : List ProbeConfig) (codec : Codec) : Prop where
  format : 2 ≤ mode → ∃ c ∈ v, c.videoFormat = codec.videoFormat
  hdr420 : mode = 3 → Validated v codec 1 0
  hdr444 : mode = 4 → Validated v codec 1 1
  both : mode = 5 → (Validated v codec 1 0 ∧ Validated v codec 1 1) ∨
    (requested = 5 ∧ (Validated v codec 1 0 ∨ Validated v codec 1 1))

structure EncoderAdvertised (s : Encoders) (p : ℕ) : Prop where
  hevc : CodecAdvertised s.activeHevcMode s.requestedHevcMode (s.attempts p).validated .hevc
  av1 : CodecAdvertised s.activeAv1Mode s.requestedAv1Mode (s.attempts p).validated .av1
  yuv444 : ∀ codec, s.yuv444ForCodec codec = true → Validated (s.attempts p).validated codec 0 1

/-- The chosen encoder has passed what is advertised. -/
def Advertised (s : Encoders) : Prop := ∃ p, s.chosen = some p ∧ EncoderAdvertised s p

/-! ## What the platform's answers come to -/

def Outcomes.accepts (o : Outcomes) (e : Encoder) (expectFailure : Bool) : Prop :=
  o.display (configAutoselect .h264) = true ∧
    o.codecSupported (e.codecName .h264) (configAutoselect .h264) = true ∧
    (0 ≤ o.validateConfig (configAutoselect .h264) ∨
      (expectFailure = false ∧ 0 ≤ o.validateConfig (configMaxRefFrames .h264)))

def Outcomes.reaches (o : Outcomes) (e : Encoder) (codec : Codec) (mode : ℕ) : Prop :=
  testsCodec mode e = true ∧ o.codecSupported (e.codecName codec) (configAutoselect codec) = true

def Outcomes.passes (o : Outcomes) (codec : Codec) : Prop :=
  0 ≤ o.validateConfig (configMaxRefFrames codec) ∨
    (o.validateConfig (configMaxRefFrames .h264) < 0 ∧ 0 ≤ o.validateConfig (configAutoselect codec))

def Outcomes.shows (o : Outcomes) (e : Encoder) (codec : Codec) (t : CapabilityTest) : Bool :=
  (!t.needsYuv444 || e.yuv444Support) && o.codecSupported (e.codecName codec) (t.config codec) &&
    0 ≤ o.validateConfig (t.config codec)

/-! ## One capability test -/

section
variable (o : Outcomes) (e : Encoder)

theorem setCaps_same (a : Attempt) (codec : Codec) (c : Capabilities) :
    (a.setCaps codec c).caps codec = c := by
  simp [Attempt.setCaps]

theorem setCaps_other (a : Attempt) {codec other : Codec} (c : Capabilities) (h : other ≠ codec) :
    (a.setCaps codec c).caps other = a.caps other := by
  simp [Attempt.setCaps, Function.update_of_ne h]

@[simp] theorem setCaps_validated (a : Attempt) (codec : Codec) (c : Capabilities) :
    (a.setCaps codec c).validated = a.validated := rfl

@[simp] theorem validateConfig_fst (a : Attempt) (config : ProbeConfig) :
    (a.validateConfig o config).1 = o.validateConfig config := rfl

@[simp] theorem validateConfig_caps (a : Attempt) (config : ProbeConfig) :
    (a.validateConfig o config).2.caps = a.caps := by
  unfold Attempt.validateConfig
  split <;> rfl

theorem validateConfig_subset (a : Attempt) (config : ProbeConfig) :
    a.validated ⊆ (a.validateConfig o config).2.validated := by
  unfold Attempt.validateConfig
  split
  · exact fun _ hc => List.mem_append_left _ hc
  · exact fun _ hc => hc

theorem validateConfig_mem (a : Attempt) (config : ProbeConfig) (h : 0 ≤ o.validateConfig config) :
    config ∈ (a.validateConfig o config).2.validated := by
  simp [Attempt.validateConfig, h]

@[simp] theorem put_passed (c : Capabilities) (value : Bool) (t : CapabilityTest) :
    (c.put value t).passed = c.passed := by
  cases t <;> rfl

theorem put_get (c : Capabilities) (value : Bool) (t t' : CapabilityTest) :
    (c.put value t).get t' = if t' = t then value else c.get t' := by
  cases t <;> cases t' <;> rfl

/-- Whether a test comes to a result. -/
def Decided (a : Attempt) (codec : Codec) (t : CapabilityTest) : Prop :=
  o.display (t.config codec) = true ∧ (a.caps codec).passed = true

theorem testCapability_undecided (a : Attempt) (codec : Codec) (t : CapabilityTest)
    (h : ¬Decided o a codec t) : testCapability o e codec a t = a := by
  unfold testCapability
  by_cases hdisplay : o.display (t.config codec) = false
  · rw [if_pos hdisplay]
  · rw [if_neg hdisplay, if_pos]
    rw [Bool.not_eq_false] at hdisplay
    simpa [Decided, hdisplay] using h

theorem testCapability_decided (a : Attempt) (codec : Codec) (t : CapabilityTest)
    (h : Decided o a codec t) :
    (testCapability o e codec a t).caps =
        Function.update a.caps codec ((a.caps codec).put (o.shows e codec t) t) ∧
      a.validated ⊆ (testCapability o e codec a t).validated ∧
      (o.shows e codec t = true → t.config codec ∈ (testCapability o e codec a t).validated) := by
  unfold testCapability
  rw [if_neg (by simp [h.1]), if_neg (by simp [h.2])]
  unfold Outcomes.shows
  cases hasked : (!t.needsYuv444 || e.yuv444Support) &&
      o.codecSupported (e.codecName codec) (t.config codec) with
  | false => simp [Attempt.setCaps]
  | true =>
    simp only [if_true, Bool.true_and, decide_eq_true_eq, setCaps_validated]
    refine ⟨?_, validateConfig_subset o a _, validateConfig_mem o a _⟩
    rw [Attempt.setCaps, validateConfig_caps]
    rfl

theorem testCapability_passed (a : Attempt) (codec : Codec) (t : CapabilityTest) (other : Codec) :
    ((testCapability o e codec a t).caps other).passed = (a.caps other).passed := by
  by_cases h : Decided o a codec t
  · rw [(testCapability_decided o e a codec t h).1]
    by_cases hother : other = codec
    · subst hother
      rw [Function.update_self, put_passed]
    · rw [Function.update_of_ne hother]
  · rw [testCapability_undecided o e a codec t h]

theorem testCapability_get (a : Attempt) (codec : Codec) (t : CapabilityTest) (other : Codec)
    (t' : CapabilityTest) (h : ¬(other = codec ∧ t' = t)) :
    ((testCapability o e codec a t).caps other).get t' = (a.caps other).get t' := by
  by_cases hdecided : Decided o a codec t
  · rw [(testCapability_decided o e a codec t hdecided).1]
    by_cases hother : other = codec
    · subst hother
      have ht : t' ≠ t := fun heq => h ⟨rfl, heq⟩
      rw [Function.update_self, put_get, if_neg ht]
    · rw [Function.update_of_ne hother]
  · rw [testCapability_undecided o e a codec t hdecided]

theorem testCapability_other (a : Attempt) {codec other : Codec} (t : CapabilityTest)
    (h : other ≠ codec) : (testCapability o e codec a t).caps other = a.caps other := by
  by_cases hdecided : Decided o a codec t
  · rw [(testCapability_decided o e a codec t hdecided).1, Function.update_of_ne h]
  · rw [testCapability_undecided o e a codec t hdecided]

theorem testCapability_subset (a : Attempt) (codec : Codec) (t : CapabilityTest) :
    a.validated ⊆ (testCapability o e codec a t).validated := by
  by_cases h : Decided o a codec t
  · exact (testCapability_decided o e a codec t h).2.1
  · rw [testCapability_undecided o e a codec t h]
    exact fun _ hc => hc

/-- What a set bit stands for: its test if that was decided, and what it was before if not. -/
structure BitOk (a : Attempt) (codec : Codec) (t : CapabilityTest) : Prop where
  decided : Decided o a codec t → ((a.caps codec).get t = true ↔ o.shows e codec t = true)
  logged : Decided o a codec t → (a.caps codec).get t = true → t.config codec ∈ a.validated

theorem testCapability_bitOk (a : Attempt) (codec : Codec) (t : CapabilityTest) :
    BitOk o e (testCapability o e codec a t) codec t := by
  by_cases h : Decided o a codec t
  · obtain ⟨hcaps, -, hlog⟩ := testCapability_decided o e a codec t h
    have hget : ((testCapability o e codec a t).caps codec).get t = o.shows e codec t := by
      rw [hcaps, Function.update_self, put_get, if_pos rfl]
    exact ⟨fun _ => by rw [hget], fun _ hset => hlog (by rw [← hget]; exact hset)⟩
  · rw [testCapability_undecided o e a codec t h]
    exact ⟨fun hd => absurd hd h, fun hd => absurd hd h⟩

/-- Other tests leave it as it is. -/
theorem BitOk.test {a : Attempt} {codec : Codec} {t : CapabilityTest} (h : BitOk o e a codec t)
    (codec' : Codec) (t' : CapabilityTest) (hne : ¬(codec = codec' ∧ t = t')) :
    BitOk o e (testCapability o e codec' a t') codec t := by
  have hget := testCapability_get o e a codec' t' codec t hne
  have hpassed := testCapability_passed o e a codec' t' codec
  have hdecided : Decided o (testCapability o e codec' a t') codec t → Decided o a codec t := by
    intro hd
    exact ⟨hd.1, hpassed ▸ hd.2⟩
  refine ⟨fun hd => ?_, fun hd hset => ?_⟩
  · rw [hget]
    exact h.decided (hdecided hd)
  · rw [hget] at hset
    exact testCapability_subset o e a codec' t' (h.logged (hdecided hd) hset)

/-! ## A whole attempt -/

/-- The tests of one codec, in order. -/
theorem foldl_tests (a : Attempt) (codec : Codec) :
    allTests.foldl (testCapability o e codec) a =
      testCapability o e codec (testCapability o e codec (testCapability o e codec a .yuv444)
        .yuv420Hdr) .yuv444Hdr := rfl

theorem tests_bitOk (a : Attempt) (codec : Codec) (t : CapabilityTest) :
    BitOk o e (allTests.foldl (testCapability o e codec) a) codec t := by
  rw [foldl_tests]
  cases t with
  | yuv444 =>
    exact ((testCapability_bitOk o e a codec .yuv444).test o e codec .yuv420Hdr (by simp)).test o e
      codec .yuv444Hdr (by simp)
  | yuv420Hdr => exact (testCapability_bitOk o e _ codec .yuv420Hdr).test o e codec .yuv444Hdr (by simp)
  | yuv444Hdr => exact testCapability_bitOk o e _ codec .yuv444Hdr

theorem tests_passed (a : Attempt) (codec other : Codec) :
    ((allTests.foldl (testCapability o e codec) a).caps other).passed = (a.caps other).passed := by
  rw [foldl_tests, testCapability_passed, testCapability_passed, testCapability_passed]

theorem tests_subset (a : Attempt) (codec : Codec) :
    a.validated ⊆ (allTests.foldl (testCapability o e codec) a).validated := by
  rw [foldl_tests]
  exact fun _ hc => testCapability_subset o e _ codec _ (testCapability_subset o e _ codec _
    (testCapability_subset o e _ codec _ hc))

/-- The tests of another codec change nothing of this one. -/
theorem tests_other (a : Attempt) {codec other : Codec} (h : other ≠ codec) :
    (allTests.foldl (testCapability o e codec) a).caps other = a.caps other := by
  rw [foldl_tests, testCapability_other o e _ _ h, testCapability_other o e _ _ h,
    testCapability_other o e _ _ h]

/-- The tests of a codec that did not pass come to nothing. -/
theorem tests_get_failed (a : Attempt) (codec : Codec) (t : CapabilityTest)
    (h : (a.caps codec).passed = false) :
    ((allTests.foldl (testCapability o e codec) a).caps codec).get t = (a.caps codec).get t := by
  have hundecided : ∀ b : Attempt, (b.caps codec).passed = false → ∀ t, ¬Decided o b codec t :=
    fun b hb t hd => by simp [hd.2] at hb
  rw [foldl_tests, testCapability_undecided o e a codec .yuv444 (hundecided a h _),
    testCapability_undecided o e a codec .yuv420Hdr (hundecided a h _),
    testCapability_undecided o e a codec .yuv444Hdr (hundecided a h _)]

/-- What the bits of HEVC or AV1 stand for after an attempt. -/
structure CodecSpec (codec : Codec) (mode : ℕ) (a : Attempt) : Prop where
  passed : (a.caps codec).passed = true ↔ o.reaches e codec mode ∧ o.passes codec
  logged : (a.caps codec).passed = true → ∃ c ∈ a.validated, c.videoFormat = codec.videoFormat
  bits : ∀ t, BitOk o e a codec t
  unreached : ¬o.reaches e codec mode → ∀ t, (a.caps codec).get t = false
  failed : o.reaches e codec mode → ¬o.passes codec → ∀ t, (a.caps codec).get t = true

/-- The block of a codec, before its capability tests. -/
structure TestedSpec (codec : Codec) (mode : ℕ) (a : Attempt) : Prop where
  passed : (a.caps codec).passed = true ↔ o.reaches e codec mode ∧ o.passes codec
  logged : (a.caps codec).passed = true → ∃ c ∈ a.validated, c.videoFormat = codec.videoFormat
  unreached : ¬o.reaches e codec mode → ∀ t, (a.caps codec).get t = false
  reached : o.reaches e codec mode → ∀ t, (a.caps codec).get t = true

@[simp] theorem autoselect_caps (a : Attempt) (codec : Codec) (m mH264 : ℤ) :
    (a.autoselect o codec m mH264).2.caps = a.caps := by
  unfold Attempt.autoselect
  split
  · rfl
  · exact validateConfig_caps o a _

theorem autoselect_subset (a : Attempt) (codec : Codec) (m mH264 : ℤ) :
    a.validated ⊆ (a.autoselect o codec m mH264).2.validated := by
  unfold Attempt.autoselect
  split
  · exact fun _ hc => hc
  · exact validateConfig_subset o a _

/-- After both validations of a codec: it passes if and only if one of them went well. -/
theorem autoselect_passes (a : Attempt) (codec : Codec) :
    (0 ≤ o.validateConfig (configMaxRefFrames codec) ∨
      0 ≤ (a.autoselect o codec (o.validateConfig (configMaxRefFrames codec))
        (o.validateConfig (configMaxRefFrames .h264))).1) ↔ o.passes codec := by
  unfold Attempt.autoselect Outcomes.passes
  split
  · rename_i hmax
    simp only [or_self]
    constructor
    · exact Or.inl
    · rintro (hpass | ⟨hneg, -⟩)
      · exact hpass
      · exact hmax.resolve_right (not_le.mpr hneg)
  · rename_i hmax
    rw [not_or, not_le, not_le] at hmax
    simp [hmax.2]

theorem autoselect_logged (a : Attempt) (codec : Codec) (m mH264 : ℤ) (hm : m < 0)
    (h : 0 ≤ (a.autoselect o codec m mH264).1) :
    configAutoselect codec ∈ (a.autoselect o codec m mH264).2.validated := by
  unfold Attempt.autoselect at h ⊢
  split at h
  · exact absurd h (not_le.mpr hm)
  · rename_i hmax
    rw [if_neg hmax]
    exact validateConfig_mem o a _ h

theorem testCodec_other (a : Attempt) {codec other : Codec} (test : Bool) (m : ℤ)
    (h : other ≠ codec) : (testCodec a o e codec test m).caps other = a.caps other := by
  unfold testCodec
  split
  · simp only
    rw [setCaps_other _ _ h, autoselect_caps, validateConfig_caps]
  · rw [setCaps_other _ _ h]

theorem testCodec_subset (a : Attempt) (codec : Codec) (test : Bool) (m : ℤ) :
    a.validated ⊆ (testCodec a o e codec test m).validated := by
  unfold testCodec
  split
  · exact fun _ hc => autoselect_subset o _ _ _ _ (validateConfig_subset o a _ hc)
  · exact fun _ hc => hc

theorem or_decide_iff (x y : ℤ) : (decide (0 ≤ x) || decide (0 ≤ y)) = true ↔ 0 ≤ x ∨ 0 ≤ y := by
  simp

theorem testCodec_spec (a : Attempt) (codec : Codec) (mode : ℕ)
    (hall : ∀ t, (a.caps codec).get t = true) :
    TestedSpec o e codec mode (testCodec a o e codec (testsCodec mode e)
      (o.validateConfig (configMaxRefFrames .h264))) := by
  unfold testCodec
  by_cases hreach : o.reaches e codec mode
  · have htest : (testsCodec mode e && o.codecSupported (e.codecName codec) (configAutoselect codec)) =
        true := by rw [hreach.1, hreach.2]; rfl
    rw [if_pos htest]
    have hpasses := autoselect_passes o (a.validateConfig o (configMaxRefFrames codec)).2 codec
    constructor
    · rw [setCaps_same]
      exact (or_decide_iff _ _).trans (hpasses.trans (and_iff_right hreach).symm)
    · rw [setCaps_same]
      intro hpassed
      have hor := (or_decide_iff _ _).mp hpassed
      by_cases hmax : 0 ≤ o.validateConfig (configMaxRefFrames codec)
      · exact ⟨configMaxRefFrames codec,
          autoselect_subset o _ _ _ _ (validateConfig_mem o a _ hmax), rfl⟩
      · exact ⟨configAutoselect codec,
          autoselect_logged o _ _ _ _ (not_le.mp hmax) (hor.resolve_left hmax), rfl⟩
    · exact fun h => absurd hreach h
    · intro _ t
      rw [setCaps_same]
      have ht := hall t
      cases t with
      | yuv444 => simpa [Capabilities.get] using ht
      | yuv420Hdr => simpa [Capabilities.get] using ht
      | yuv444Hdr => simpa [Capabilities.get] using ht
  · have htest : ¬((testsCodec mode e &&
        o.codecSupported (e.codecName codec) (configAutoselect codec)) = true) := by
      rw [Bool.and_eq_true]
      exact hreach
    rw [if_neg htest]
    have hnone := setCaps_same a codec Capabilities.none
    constructor
    · rw [hnone]
      simp [Capabilities.none, hreach]
    · rw [hnone]
      simp [Capabilities.none]
    · intro _ t
      rw [hnone]
      cases t <;> rfl
    · exact fun h => absurd h hreach

/-- What a later step has to keep of a codec for the meaning of a bit to stay. -/
theorem BitOk.congr {a b : Attempt} {codec : Codec} {t : CapabilityTest} (h : BitOk o e a codec t)
    (hpassed : (b.caps codec).passed = (a.caps codec).passed)
    (hget : (b.caps codec).get t = (a.caps codec).get t) (hsub : a.validated ⊆ b.validated) :
    BitOk o e b codec t := by
  have hdecided : Decided o b codec t → Decided o a codec t := fun hd => ⟨hd.1, hpassed ▸ hd.2⟩
  refine ⟨fun hd => ?_, fun hd hset => ?_⟩
  · rw [hget]
    exact h.decided (hdecided hd)
  · rw [hget] at hset
    exact hsub (h.logged (hdecided hd) hset)

theorem CodecSpec.congr {a b : Attempt} {codec : Codec} {mode : ℕ} (h : CodecSpec o e codec mode a)
    (hpassed : (b.caps codec).passed = (a.caps codec).passed)
    (hget : ∀ t, (b.caps codec).get t = (a.caps codec).get t)
    (hsub : a.validated ⊆ b.validated) : CodecSpec o e codec mode b := by
  constructor
  · rw [hpassed]
    exact h.passed
  · rw [hpassed]
    intro hp
    obtain ⟨c, hc, hformat⟩ := h.logged hp
    exact ⟨c, hsub hc, hformat⟩
  · exact fun t => (h.bits t).congr o e hpassed (hget t) hsub
  · intro hno t
    rw [hget]
    exact h.unreached hno t
  · intro hreach hno t
    rw [hget]
    exact h.failed hreach hno t

/-- The capability tests of a codec make its specification complete. -/
theorem TestedSpec.tests {a : Attempt} {codec : Codec} {mode : ℕ} (h : TestedSpec o e codec mode a) :
    CodecSpec o e codec mode (allTests.foldl (testCapability o e codec) a) := by
  have hpassed := tests_passed o e a codec codec
  have hkept : ¬(o.reaches e codec mode ∧ o.passes codec) → ∀ t,
      ((allTests.foldl (testCapability o e codec) a).caps codec).get t = (a.caps codec).get t := by
    intro hno t
    refine tests_get_failed o e a codec t (Bool.not_eq_true _ ▸ fun hp => hno ?_)
    exact h.passed.mp hp
  constructor
  · rw [hpassed]
    exact h.passed
  · rw [hpassed]
    intro hp
    obtain ⟨c, hc, hformat⟩ := h.logged hp
    exact ⟨c, tests_subset o e a codec hc, hformat⟩
  · exact tests_bitOk o e a codec
  · intro hno t
    rw [hkept (fun hboth => hno hboth.1)]
    exact h.unreached hno t
  · intro hreach hno t
    rw [hkept (fun hboth => hno hboth.2)]
    exact h.reached hreach t

theorem TestedSpec.congr {a b : Attempt} {codec : Codec} {mode : ℕ} (h : TestedSpec o e codec mode a)
    (hcaps : b.caps codec = a.caps codec) (hsub : a.validated ⊆ b.validated) :
    TestedSpec o e codec mode b := by
  constructor
  · rw [hcaps]
    exact h.passed
  · rw [hcaps]
    intro hp
    obtain ⟨c, hc, hformat⟩ := h.logged hp
    exact ⟨c, hsub hc, hformat⟩
  · rw [hcaps]
    exact h.unreached
  · rw [hcaps]
    exact h.reached

theorem viability_none (expectFailure : Bool)
    (h : ¬(0 ≤ o.validateConfig (configAutoselect .h264) ∨
      (expectFailure = false ∧ 0 ≤ o.validateConfig (configMaxRefFrames .h264)))) :
    viability .fresh o expectFailure = none := by
  rw [not_or, not_le] at h
  unfold viability
  cases expectFailure with
  | true => simp [h.1]
  | false =>
    have hmax : ¬0 ≤ o.validateConfig (configMaxRefFrames .h264) := fun hle => h.2 ⟨rfl, hle⟩
    simp [h.1, hmax]

/-- A viable encoder: the other codecs are as they were. -/
theorem viability_some (expectFailure : Bool)
    (h : 0 ≤ o.validateConfig (configAutoselect .h264) ∨
      (expectFailure = false ∧ 0 ≤ o.validateConfig (configMaxRefFrames .h264))) :
    ∃ a, viability .fresh o expectFailure = some (o.validateConfig (configMaxRefFrames .h264), a) ∧
      a.caps .hevc = .all ∧ a.caps .av1 = .all := by
  have hhevc : ∀ (a : Attempt) (c : Capabilities), (a.setCaps .h264 c).caps .hevc = a.caps .hevc :=
    fun a c => setCaps_other a c (by decide)
  have hav1 : ∀ (a : Attempt) (c : Capabilities), (a.setCaps .h264 c).caps .av1 = a.caps .av1 :=
    fun a c => setCaps_other a c (by decide)
  unfold viability
  cases expectFailure with
  | true =>
    have hauto := h.resolve_right (fun hr => by simp at hr)
    have hneg : ¬o.validateConfig (configAutoselect .h264) < 0 := not_lt.mpr hauto
    simp [hneg, hhevc, hav1, Attempt.fresh]
  | false =>
    by_cases hmax : 0 ≤ o.validateConfig (configMaxRefFrames .h264)
    · have hneg : ¬o.validateConfig (configMaxRefFrames .h264) < 0 := not_lt.mpr hmax
      simp [hmax, hneg, hhevc, hav1, Attempt.fresh]
    · have hauto := h.resolve_right (fun hr => hmax hr.2)
      have hneg : ¬o.validateConfig (configAutoselect .h264) < 0 := not_lt.mpr hauto
      simp [hmax, hneg, hhevc, hav1, Attempt.fresh]

structure AttemptSpec (hevcMode av1Mode : ℕ) (a : Attempt) : Prop where
  hevc : CodecSpec o e .hevc hevcMode a
  av1 : CodecSpec o e .av1 av1Mode a
  h264 : BitOk o e a .h264 .yuv444

theorem forceHeaders_same (force : Bool) (a : Attempt) (codec other : Codec) :
    ((forceHeaders force a codec).caps other).passed = (a.caps other).passed ∧
      (∀ t, ((forceHeaders force a codec).caps other).get t = (a.caps other).get t) ∧
      (forceHeaders force a codec).validated = a.validated := by
  unfold forceHeaders
  by_cases h : other = codec
  · subst h
    rw [setCaps_same]
    exact ⟨rfl, fun t => by cases t <;> rfl, rfl⟩
  · rw [setCaps_other _ _ h]
    exact ⟨rfl, fun _ => rfl, rfl⟩

theorem AttemptSpec.forceHeaders {hevcMode av1Mode : ℕ} {a : Attempt}
    (h : AttemptSpec o e hevcMode av1Mode a) (force : Bool) (codec : Codec) :
    AttemptSpec o e hevcMode av1Mode (forceHeaders force a codec) := by
  have hsame := forceHeaders_same force a codec
  have hsub : a.validated ⊆ (Video.forceHeaders force a codec).validated := by
    rw [(hsame .h264).2.2]
    exact fun _ hc => hc
  exact ⟨h.hevc.congr o e (hsame _).1 (hsame _).2.1 hsub,
    h.av1.congr o e (hsame _).1 (hsame _).2.1 hsub,
    h.h264.congr o e (hsame _).1 ((hsame _).2.1 _) hsub⟩

theorem testCapabilities_spec {hevcMode av1Mode : ℕ} {a : Attempt}
    (hhevc : TestedSpec o e .hevc hevcMode a) (hav1 : TestedSpec o e .av1 av1Mode a) :
    AttemptSpec o e hevcMode av1Mode (testCapabilities o e a) := by
  unfold testCapabilities
  have hbit : BitOk o e (clearHdr (testCapability o e .h264 a .yuv444) .h264) .h264 .yuv444 := by
    refine (testCapability_bitOk o e a .h264 .yuv444).congr o e ?_ ?_ (fun _ hc => hc)
    · rw [clearHdr, setCaps_same]
    · rw [clearHdr, setCaps_same]
      rfl
  have hcaps : ∀ codec, codec ≠ .h264 →
      (clearHdr (testCapability o e .h264 a .yuv444) .h264).caps codec = a.caps codec := by
    intro codec hne
    rw [clearHdr, setCaps_other _ _ hne, testCapability_other o e _ _ hne]
  have hsub : a.validated ⊆ (clearHdr (testCapability o e .h264 a .yuv444) .h264).validated :=
    testCapability_subset o e a .h264 .yuv444
  generalize clearHdr (testCapability o e .h264 a .yuv444) .h264 = b at hbit hcaps hsub ⊢
  have hhevc' := (hhevc.congr o e (hcaps .hevc (by decide)) hsub).tests o e
  have hav1' := hav1.congr o e (hcaps .av1 (by decide)) hsub
  have hav1caps := @tests_other o e b .hevc .av1 (by decide)
  have h264caps := @tests_other o e b .hevc .h264 (by decide)
  have hsub' := tests_subset o e b .hevc
  generalize allTests.foldl (testCapability o e .hevc) b = c at hhevc' hav1caps h264caps hsub' ⊢
  have hkept : ∀ other, other ≠ Codec.av1 →
      (allTests.foldl (testCapability o e .av1) c).caps other = c.caps other :=
    fun other hne => tests_other o e c hne
  have hsub'' := tests_subset o e c .av1
  constructor
  · exact hhevc'.congr o e (by rw [hkept .hevc (by decide)]) (by rw [hkept .hevc (by decide)]; simp)
      hsub''
  · exact (hav1'.congr o e hav1caps hsub').tests o e
  · exact hbit.congr o e (by rw [hkept .h264 (by decide), h264caps])
      (by rw [hkept .h264 (by decide), h264caps]) (fun _ hc => hsub'' (hsub' hc))

/-- What an attempt comes to. -/
theorem validate_spec (hevcMode av1Mode : ℕ) (force expectFailure : Bool) :
    ((validateEncoder o e hevcMode av1Mode force expectFailure).1 = true ↔
      o.accepts e expectFailure) ∧
    ((validateEncoder o e hevcMode av1Mode force expectFailure).1 = true →
      AttemptSpec o e hevcMode av1Mode
        (validateEncoder o e hevcMode av1Mode force expectFailure).2) := by
  unfold validateEncoder Outcomes.accepts
  cases hdisplay : o.display (configAutoselect .h264) with
  | false => simp
  | true =>
    cases hsupported : o.codecSupported (e.codecName .h264) (configAutoselect .h264) with
    | false => simp
    | true =>
      by_cases hviable : 0 ≤ o.validateConfig (configAutoselect .h264) ∨
          (expectFailure = false ∧ 0 ≤ o.validateConfig (configMaxRefFrames .h264))
      · obtain ⟨a, hsome, hhevc, hav1⟩ := viability_some o expectFailure hviable
        simp only [hsome, Bool.true_eq_false, if_false, true_and, true_iff]
        refine ⟨hviable, fun _ => AttemptSpec.forceHeaders o e (AttemptSpec.forceHeaders o e ?_ _ _) _ _⟩
        have hall : ∀ t, Capabilities.all.get t = true := fun t => by cases t <;> rfl
        have hhevc' := testCodec_spec o e a .hevc hevcMode (by rw [hhevc]; exact hall)
        have hav1' := @testCodec_other o e a .hevc .av1
          (testsCodec hevcMode e) (o.validateConfig (configMaxRefFrames .h264)) (by decide)
        apply testCapabilities_spec
        · exact hhevc'.congr o e (testCodec_other o e _ _ _ (by decide)) (testCodec_subset o e _ _ _ _)
        · apply testCodec_spec
          rw [hav1', hav1]
          exact hall
      · simp only [viability_none o expectFailure hviable, Bool.true_eq_false, if_false, true_and]
        simp [hviable]

end

/-! ## When the bits that are used were tested -/

/-- A forced HDR mode is asked only of a codec that passes if it is reached at all, and the displays
for the tests of a passing codec are created: for 4:4:4 always, for HDR unless mode 2 is forced. -/
structure CodecSettled (o : Outcomes) (e : Encoder) (codec : Codec) (mode : ℕ) : Prop where
  passes : 3 ≤ mode → o.reaches e codec mode → o.passes codec
  yuv444 : o.reaches e codec mode → o.passes codec →
    o.display (CapabilityTest.yuv444.config codec) = true
  hdr : mode ≠ 2 → o.reaches e codec mode → o.passes codec →
    o.display (CapabilityTest.yuv420Hdr.config codec) = true ∧
      o.display (CapabilityTest.yuv444Hdr.config codec) = true

/-- The codec is reached, passes and shows its test. -/
def Outcomes.proves (o : Outcomes) (e : Encoder) (codec : Codec) (mode : ℕ) (t : CapabilityTest) :
    Prop :=
  o.reaches e codec mode ∧ o.passes codec ∧ o.shows e codec t = true

/-- The constraints on AV1 that `adjust_encoder_constraints_av1` does not look at hold already. -/
structure Av1Settled (o : Outcomes) (e : Encoder) (hevcMode av1Mode : ℕ) : Prop where
  main10 : av1Mode = 3 → o.proves e .av1 av1Mode .yuv420Hdr
  rext : av1Mode = 4 → o.proves e .av1 av1Mode .yuv444Hdr
  main8 : av1Mode = 2 → hevcMode = 4 → o.proves e .hevc hevcMode .yuv444Hdr →
    o.reaches e .av1 av1Mode

structure AttemptSettled (o : Outcomes) (e : Encoder) (hevcMode av1Mode : ℕ) : Prop where
  h264 : o.display (CapabilityTest.yuv444.config .h264) = true
  hevc : CodecSettled o e .hevc hevcMode
  av1 : CodecSettled o e .av1 av1Mode

/-- What a codec's bits are worth then. -/
structure CodecBacked (mode : ℕ) (c : Capabilities) (v : List ProbeConfig) (codec : Codec) : Prop where
  passed : c.passed = true → ∃ config ∈ v, config.videoFormat = codec.videoFormat
  hdr : mode ≠ 2 → c.passed = true → (c.dynamicRange = true → Validated v codec 1 0) ∧
    (c.dynamicRangeYuv444 = true → Validated v codec 1 1)
  forced : 3 ≤ mode → c.dynamicRange = true ∨ c.dynamicRangeYuv444 = true → c.passed = true
  yuv444 : c.passed = true → c.yuv444 = true → Validated v codec 0 1

section
variable {o : Outcomes} {e : Encoder} {codec : Codec} {mode : ℕ} {a : Attempt}

theorem CodecSpec.backed (h : CodecSpec o e codec mode a) (hs : CodecSettled o e codec mode) :
    CodecBacked mode (a.caps codec) a.validated codec := by
  constructor
  · exact h.logged
  · intro hmode hp
    have hpassed := h.passed.mp hp
    have hdisplays := hs.hdr hmode hpassed.1 hpassed.2
    exact ⟨fun hset => ⟨_, (h.bits .yuv420Hdr).logged ⟨hdisplays.1, hp⟩ hset, rfl, rfl, rfl⟩,
      fun hset => ⟨_, (h.bits .yuv444Hdr).logged ⟨hdisplays.2, hp⟩ hset, rfl, rfl, rfl⟩⟩
  · intro hmode hset
    by_cases hreach : o.reaches e codec mode
    · exact h.passed.mpr ⟨hreach, hs.passes hmode hreach⟩
    · have h420 : (a.caps codec).dynamicRange = false := h.unreached hreach .yuv420Hdr
      have h444 : (a.caps codec).dynamicRangeYuv444 = false := h.unreached hreach .yuv444Hdr
      rw [h420, h444] at hset
      simp at hset
  · intro hp hset
    have hpassed := h.passed.mp hp
    exact ⟨_, (h.bits .yuv444).logged ⟨hs.yuv444 hpassed.1 hpassed.2, hp⟩ hset, rfl, rfl, rfl⟩

/-- A codec that shows an HDR test has its bit, and one that has it shows it. -/
theorem CodecSpec.bit_iff (h : CodecSpec o e codec mode a) (hs : CodecSettled o e codec mode)
    (hmode : mode ≠ 2) (hp : (a.caps codec).passed = true) :
    ((a.caps codec).dynamicRange = true ↔ o.shows e codec .yuv420Hdr = true) ∧
      ((a.caps codec).dynamicRangeYuv444 = true ↔ o.shows e codec .yuv444Hdr = true) := by
  have hpassed := h.passed.mp hp
  have hdisplays := hs.hdr hmode hpassed.1 hpassed.2
  exact ⟨(h.bits .yuv420Hdr).decided ⟨hdisplays.1, hp⟩, (h.bits .yuv444Hdr).decided ⟨hdisplays.2, hp⟩⟩

end

/-! ## Modes -/

/-- The encoder meets what a mode asks of a codec. -/
structure ModeMet (mode : ℕ) (c : Capabilities) : Prop where
  main8 : mode = 2 → c.passed = true
  main10 : mode = 3 → c.dynamicRange = true
  rext : mode = 4 → c.dynamicRangeYuv444 = true
  both : mode = 5 → c.dynamicRange = true ∨ c.dynamicRangeYuv444 = true

section
variable {mode : ℕ} {c : Capabilities} {v : List ProbeConfig} {codec : Codec}

theorem CodecBacked.measured (h : CodecBacked mode c v codec) (requested : ℕ)
    (hmode : mode ≠ 2 ∨ c.passed = false) :
    CodecAdvertised (measuredMode c) requested v codec := by
  unfold measuredMode
  cases hp : c.passed with
  | false => constructor <;> simp
  | true =>
    have hmode' : mode ≠ 2 := hmode.resolve_right (by simp [hp])
    have hhdr := h.hdr hmode' hp
    have hformat := h.passed hp
    cases h420 : c.dynamicRange with
    | false =>
      cases h444 : c.dynamicRangeYuv444 with
      | false => exact ⟨fun _ => hformat, by simp, by simp, by simp⟩
      | true => exact ⟨fun _ => hformat, by simp, fun _ => hhdr.2 h444, by simp⟩
    | true =>
      cases h444 : c.dynamicRangeYuv444 with
      | false => exact ⟨fun _ => hformat, fun _ => hhdr.1 h420, by simp, by simp⟩
      | true =>
        exact ⟨fun _ => hformat, by simp, by simp, fun _ => Or.inl ⟨hhdr.1 h420, hhdr.2 h444⟩⟩

/-- A mode that was asked for and is met is backed. -/
theorem CodecBacked.kept (h : CodecBacked mode c v codec) (hm : ModeMet mode c) (hle : mode ≤ 5) :
    CodecAdvertised mode mode v codec := by
  have hpassed : 2 ≤ mode → c.passed = true := by
    intro hge
    obtain rfl | hge := Nat.eq_or_lt_of_le hge
    · exact hm.main8 rfl
    · apply h.forced hge
      have hcases : mode = 3 ∨ mode = 4 ∨ mode = 5 := by omega
      rcases hcases with h3 | h4 | h5
      · exact Or.inl (hm.main10 h3)
      · exact Or.inr (hm.rext h4)
      · exact hm.both h5
  constructor
  · exact fun hge => h.passed (hpassed hge)
  · intro h3
    exact (h.hdr (by omega) (hpassed (by omega))).1 (hm.main10 h3)
  · intro h4
    exact (h.hdr (by omega) (hpassed (by omega))).2 (hm.rext h4)
  · intro h5
    have hhdr := h.hdr (by omega) (hpassed (by omega))
    refine Or.inr ⟨h5, ?_⟩
    exact (hm.both h5).imp hhdr.1 hhdr.2

/-- The active mode of a codec at the end: measured, or what was asked for. -/
theorem CodecBacked.final (h : CodecBacked mode c v codec) (hle : mode ≤ 5) {active : ℕ}
    (hactive : active = 0 ∧ (mode ≠ 2 ∨ c.passed = false) ∨ active = mode ∧ ModeMet mode c) :
    CodecAdvertised (if active = 0 then measuredMode c else active) mode v codec := by
  rcases hactive with ⟨h0, hmode⟩ | ⟨heq, hmet⟩
  · rw [if_pos h0]
    exact h.measured mode hmode
  · by_cases h0 : active = 0
    · rw [if_pos h0]
      exact h.measured mode (Or.inl (by omega))
    · rw [if_neg h0, heq]
      exact h.kept hmet hle

end

/-- An active mode after the constraints: dropped or met. -/
def ModeAdjusted (mode active : ℕ) (c : Capabilities) : Prop :=
  active = 0 ∧ (mode ≠ 2 ∨ c.passed = false) ∨ active = mode ∧ ModeMet mode c

theorem adjustHevc_spec (s : Encoders) (p : ℕ) :
    ∃ active, adjustHevc s p = { s with activeHevcMode := active } ∧
      ModeAdjusted s.activeHevcMode active ((s.attempts p).caps .hevc) := by
  unfold adjustHevc
  simp only
  split
  · rename_i h
    exact ⟨0, rfl, Or.inl ⟨rfl, Or.inl (by omega)⟩⟩
  rename_i h5
  split
  · rename_i h
    exact ⟨0, rfl, Or.inl ⟨rfl, Or.inl (by omega)⟩⟩
  rename_i h4
  split
  · rename_i h
    exact ⟨0, rfl, Or.inl ⟨rfl, Or.inl (by omega)⟩⟩
  rename_i h3
  split
  · rename_i h
    exact ⟨0, rfl, Or.inl ⟨rfl, Or.inr h.2⟩⟩
  rename_i h2
  refine ⟨s.activeHevcMode, rfl, Or.inr ⟨rfl, ?_, ?_, ?_, ?_⟩⟩
  · intro hmode
    simpa [hmode] using h2
  · intro hmode
    simpa [hmode] using h3
  · intro hmode
    simpa [hmode] using h4
  · intro hmode
    have hset : ¬(((s.attempts p).caps .hevc).dynamicRange = false ∧
        ((s.attempts p).caps .hevc).dynamicRangeYuv444 = false) := fun hboth => h5 ⟨hmode, hboth⟩
    rw [not_and_or, Bool.not_eq_false, Bool.not_eq_false] at hset
    exact hset

section
variable {o : Outcomes} {e : Encoder} {hevcMode av1Mode : ℕ}

/-- With AV1 settled, its mode is met, or is one that the adjustment looks at. -/
theorem av1_met {a : Attempt} (h : AttemptSpec o e hevcMode av1Mode a)
    (hs : AttemptSettled o e hevcMode av1Mode) (hav1 : Av1Settled o e hevcMode av1Mode)
    (h5 : ¬(av1Mode = 5 ∧ (a.caps .av1).dynamicRange = false ∧
      (a.caps .av1).dynamicRangeYuv444 = false))
    (h2 : av1Mode = 2 → (a.caps .av1).passed = true) : ModeMet av1Mode (a.caps .av1) := by
  have hproved : ∀ t, av1Mode ≠ 2 → o.proves e .av1 av1Mode t → (t = .yuv420Hdr →
      (a.caps .av1).dynamicRange = true) ∧ (t = .yuv444Hdr →
        (a.caps .av1).dynamicRangeYuv444 = true) := by
    rintro t hmode ⟨hreach, hpass, hshow⟩
    have hbits := h.av1.bit_iff hs.av1 hmode (h.av1.passed.mpr ⟨hreach, hpass⟩)
    constructor
    · rintro rfl
      exact hbits.1.mpr hshow
    · rintro rfl
      exact hbits.2.mpr hshow
  constructor
  · exact h2
  · intro hmode
    exact (hproved .yuv420Hdr (by omega) (hav1.main10 hmode)).1 rfl
  · intro hmode
    exact (hproved .yuv444Hdr (by omega) (hav1.rext hmode)).2 rfl
  · intro hmode
    have hset : ¬((a.caps .av1).dynamicRange = false ∧ (a.caps .av1).dynamicRangeYuv444 = false) :=
      fun hboth => h5 ⟨hmode, hboth⟩
    rw [not_and_or, Bool.not_eq_false, Bool.not_eq_false] at hset
    exact hset

/-- AV1 in mode 2 next to HEVC 4:4:4 HDR: if its own 4:4:4 HDR bit is off, it passed. -/
theorem av1_passed {a : Attempt} (h : AttemptSpec o e hevcMode av1Mode a)
    (hs : AttemptSettled o e hevcMode av1Mode) (hav1 : Av1Settled o e hevcMode av1Mode)
    (hhevc : hevcMode = 4) (hset : (a.caps .hevc).dynamicRangeYuv444 = true)
    (hoff : (a.caps .av1).dynamicRangeYuv444 = false) (hmode : av1Mode = 2) :
    (a.caps .av1).passed = true := by
  have hp := (h.hevc.backed hs.hevc).forced (by omega) (Or.inr hset)
  have hshow := (h.hevc.bit_iff hs.hevc (by omega) hp).2.mp hset
  have hpassed := h.hevc.passed.mp hp
  have hreach := hav1.main8 hmode hhevc ⟨hpassed.1, hpassed.2, hshow⟩
  refine h.av1.passed.mpr ⟨hreach, ?_⟩
  -- a reached codec that does not pass keeps its bits set
  by_contra hfail
  have hon : (a.caps .av1).dynamicRangeYuv444 = true := h.av1.failed hreach hfail .yuv444Hdr
  rw [hoff] at hon
  cases hon

/-- The modes of an encoder that is accepted with its constraints adjusted. -/
theorem accept_spec {s : Encoders} {p : ℕ} (hspec : AttemptSpec o e s.activeHevcMode s.activeAv1Mode
      (s.attempts p)) (hs : AttemptSettled o e s.activeHevcMode s.activeAv1Mode)
    (hav1 : Av1Settled o e s.activeHevcMode s.activeAv1Mode) :
    ∃ hevc av1, accept s p =
        { s with activeHevcMode := hevc, activeAv1Mode := av1, chosen := some p } ∧
      ModeAdjusted s.activeHevcMode hevc ((s.attempts p).caps .hevc) ∧
      ModeAdjusted s.activeAv1Mode av1 ((s.attempts p).caps .av1) := by
  obtain ⟨active, hadjust, hmode⟩ := adjustHevc_spec s p
  unfold accept
  rw [hadjust]
  unfold adjustAv1
  simp only
  split
  · rename_i h5
    exact ⟨active, 0, rfl, hmode, Or.inl ⟨rfl, Or.inl (by omega)⟩⟩
  rename_i h5
  split
  · -- the HEVC mode is dropped where the AV1 mode should be looked at
    rename_i h4
    have hmet : s.activeHevcMode = 4 ∧ ModeMet s.activeHevcMode ((s.attempts p).caps .hevc) := by
      rcases hmode with ⟨h0, -⟩ | ⟨heq, hmet⟩
      · omega
      · exact ⟨by omega, hmet⟩
    refine ⟨0, s.activeAv1Mode, rfl, Or.inl ⟨rfl, Or.inl (by omega)⟩, Or.inr ⟨rfl, ?_⟩⟩
    exact av1_met hspec hs hav1 h5
      (av1_passed hspec hs hav1 hmet.1 (hmet.2.rext hmet.1) h4.2)
  rename_i h4
  split
  · rename_i h3
    rcases hmode with ⟨h0, -⟩ | ⟨heq, hmet⟩
    · omega
    · have hon := hmet.main10 (by omega)
      rw [h3.2] at hon
      cases hon
  rename_i h3
  split
  · rename_i h2
    exact ⟨active, 0, rfl, hmode, Or.inl ⟨rfl, Or.inr h2.2⟩⟩
  rename_i h2
  refine ⟨active, s.activeAv1Mode, rfl, hmode, Or.inr ⟨rfl, av1_met hspec hs hav1 h5 ?_⟩⟩
  intro h
  simpa [h] using h2

/-- The modes of an encoder that meets the requirements. -/
theorem meets_spec {s : Encoders} {p : ℕ} (h : meetsRequirements s p = true) :
    ModeMet s.activeHevcMode ((s.attempts p).caps .hevc) ∧
      ModeMet s.activeAv1Mode ((s.attempts p).caps .av1) := by
  unfold meetsRequirements at h
  simp only at h
  split at h
  · cases h
  rename_i h2
  split at h
  · cases h
  rename_i h5
  split at h
  · cases h
  rename_i h4
  split at h
  · cases h
  rename_i h3
  simp only [Bool.or_eq_true, Bool.and_eq_true, decide_eq_true_eq, Bool.not_eq_true', not_or,
    not_and, Bool.not_eq_false] at h2 h3 h4 h5
  exact ⟨⟨fun hmode => h2.1 (by omega), h3.1, h4.1, fun hmode => by
      by_cases h420 : ((s.attempts p).caps .hevc).dynamicRange = true
      · exact Or.inl h420
      · exact Or.inr (h5.1 ⟨hmode, by simpa using h420⟩)⟩,
    ⟨fun hmode => h2.2 (by omega), h3.2, h4.2, fun hmode => by
      by_cases h420 : ((s.attempts p).caps .av1).dynamicRange = true
      · exact Or.inl h420
      · exact Or.inr (h5.2 ⟨hmode, by simpa using h420⟩)⟩⟩

end

/-! ## The searches -/

section
variable {table : ℕ → Encoder} {encoderList : List ℕ} {input : ProbeInput} {previous : Option ℕ}

/-- What the platform answers to the attempts of a probe: those that are accepted are settled, and
outside the search by requirements the constraints on AV1 are as well. -/
structure AnswersSettled (table : ℕ → Encoder) (encoderList : List ℕ) (previous : Option ℕ)
    (input : ProbeInput) : Prop where
  attempts : ∀ pass n, ∀ p ∈ encoderList,
    (input.outcomes pass n).accepts (table p) (expectsFailure previous p) →
      AttemptSettled (input.outcomes pass n) (table p) input.hevcMode input.av1Mode
  adjusted : ∀ pass n, ∀ p ∈ encoderList, pass ≠ .required →
    (input.outcomes pass n).accepts (table p) (expectsFailure previous p) →
      Av1Settled (input.outcomes pass n) (table p) input.hevcMode input.av1Mode

/-- A search that has not found an encoder yet. -/
structure Searching (input : ProbeInput) (s : Encoders) : Prop where
  chosen : s.chosen = none
  hevc : s.activeHevcMode = input.hevcMode
  av1 : s.activeAv1Mode = input.av1Mode
  requestedHevc : s.requestedHevcMode = input.hevcMode
  requestedAv1 : s.requestedAv1Mode = input.av1Mode

/-- An encoder that was found, its bits backed and its modes adjusted to it. -/
structure Selected (input : ProbeInput) (s : Encoders) (p : ℕ) : Prop where
  chosen : s.chosen = some p
  hevcBacked : CodecBacked input.hevcMode ((s.attempts p).caps .hevc) (s.attempts p).validated .hevc
  av1Backed : CodecBacked input.av1Mode ((s.attempts p).caps .av1) (s.attempts p).validated .av1
  hevc : ModeAdjusted input.hevcMode s.activeHevcMode ((s.attempts p).caps .hevc)
  av1 : ModeAdjusted input.av1Mode s.activeAv1Mode ((s.attempts p).caps .av1)
  h264 : ((s.attempts p).caps .h264).passed = true → ((s.attempts p).caps .h264).yuv444 = true →
    Validated (s.attempts p).validated .h264 0 1
  requestedHevc : s.requestedHevcMode = input.hevcMode
  requestedAv1 : s.requestedAv1Mode = input.av1Mode

def Searched (input : ProbeInput) (s : Encoders) : Prop :=
  Searching input s ∨ ∃ p, Selected input s p

theorem tryEncoder_searching {s : Encoders} (h : Searching input s) (o : Outcomes) (p : ℕ) :
    Searching input (tryEncoder table input previous o p s).2 :=
  ⟨h.chosen, h.hevc, h.av1, h.requestedHevc, h.requestedAv1⟩

theorem tryEncoder_spec {s : Encoders} (h : Searching input s) (o : Outcomes) (p : ℕ)
    (haccepted : (tryEncoder table input previous o p s).1 = true) :
    o.accepts (table p) (expectsFailure previous p) ∧
      AttemptSpec o (table p) input.hevcMode input.av1Mode
        ((tryEncoder table input previous o p s).2.attempts p) := by
  have hspec := validate_spec o (table p) s.activeHevcMode s.activeAv1Mode input.force
    (expectsFailure previous p)
  have hattempt := hspec.2 haccepted
  rw [h.hevc, h.av1] at hattempt
  refine ⟨hspec.1.mp haccepted, ?_⟩
  have hat : (tryEncoder table input previous o p s).2.attempts p =
      (validateEncoder o (table p) input.hevcMode input.av1Mode input.force
        (expectsFailure previous p)).2 := by
    simp [tryEncoder, h.hevc, h.av1]
  rw [hat]
  exact hattempt

/-- A selection from its attempt and its modes. -/
theorem selected_of_attempt {o : Outcomes} {e : Encoder} {t : Encoders} {p : ℕ}
    (hchosen : t.chosen = some p)
    (hspec : AttemptSpec o e input.hevcMode input.av1Mode (t.attempts p))
    (hs : AttemptSettled o e input.hevcMode input.av1Mode)
    (hhevc : ModeAdjusted input.hevcMode t.activeHevcMode ((t.attempts p).caps .hevc))
    (hav1 : ModeAdjusted input.av1Mode t.activeAv1Mode ((t.attempts p).caps .av1))
    (hrequested : t.requestedHevcMode = input.hevcMode ∧ t.requestedAv1Mode = input.av1Mode) :
    Selected input t p where
  chosen := hchosen
  hevcBacked := hspec.hevc.backed hs.hevc
  av1Backed := hspec.av1.backed hs.av1
  hevc := hhevc
  av1 := hav1
  h264 := fun hp hset => ⟨_, hspec.h264.logged ⟨hs.h264, hp⟩ hset, rfl, rfl, rfl⟩
  requestedHevc := hrequested.1
  requestedAv1 := hrequested.2

theorem accept_selected {o : Outcomes} {e : Encoder} {s : Encoders} {p : ℕ}
    (hsearching : Searching input s)
    (hspec : AttemptSpec o e input.hevcMode input.av1Mode (s.attempts p))
    (hs : AttemptSettled o e input.hevcMode input.av1Mode)
    (hadjusted : Av1Settled o e input.hevcMode input.av1Mode) :
    Selected input (accept s p) p := by
  rw [← hsearching.hevc, ← hsearching.av1] at hspec hs hadjusted
  obtain ⟨hevc, av1, haccept, hhevc, hav1⟩ := accept_spec hspec hs hadjusted
  rw [hsearching.hevc] at hspec hs hhevc
  rw [hsearching.av1] at hspec hs hav1
  rw [haccept]
  exact selected_of_attempt rfl hspec hs hhevc hav1 ⟨hsearching.requestedHevc, hsearching.requestedAv1⟩

theorem searchNamed_spec (hanswers : AnswersSettled table encoderList previous input)
    (l : List ℕ) (hl : l ⊆ encoderList) {s : Encoders} (h : Searching input s) :
    Searched input (searchNamed table input previous l s).state ∧
      (searchNamed table input previous l s).list ⊆ encoderList := by
  induction l with
  | nil => exact ⟨Or.inl h, hl⟩
  | cons p rest ih =>
    rw [List.cons_subset] at hl
    unfold searchNamed
    by_cases hname : (table p).name = input.encoder
    · rw [if_pos hname]
      simp only
      split
      · rename_i haccepted
        obtain ⟨haccepts, hspec⟩ := tryEncoder_spec h _ p haccepted
        exact ⟨Or.inr ⟨p, accept_selected (tryEncoder_searching h _ p) hspec
          (hanswers.attempts _ _ p hl.1 haccepts)
          (hanswers.adjusted _ _ p hl.1 (by decide) haccepts)⟩, List.cons_subset.mpr hl⟩
      · exact ⟨Or.inl (tryEncoder_searching h _ p), hl.2⟩
    · rw [if_neg hname]
      have hrest := ih hl.2
      exact ⟨hrest.1, List.cons_subset.mpr ⟨hl.1, hrest.2⟩⟩

theorem searchRequired_spec (hanswers : AnswersSettled table encoderList previous input)
    (l : List ℕ) (hl : l ⊆ encoderList) (n : ℕ) {s : Encoders} (h : Searching input s) :
    Searched input (searchRequired table input previous l n s).state ∧
      (searchRequired table input previous l n s).list ⊆ encoderList := by
  induction l generalizing n s with
  | nil => exact ⟨Or.inl h, hl⟩
  | cons p rest ih =>
    rw [List.cons_subset] at hl
    unfold searchRequired
    simp only
    have hkept := @tryEncoder_searching table input previous s h
      (input.outcomes .required n) p
    split
    · rename_i haccepted
      obtain ⟨haccepts, hspec⟩ := tryEncoder_spec h _ p haccepted
      split
      · rename_i hmeets
        obtain ⟨hhevc, hav1⟩ := meets_spec hmeets
        refine ⟨Or.inr ⟨p, ?_⟩, List.cons_subset.mpr hl⟩
        refine selected_of_attempt ?_ ?_ (hanswers.attempts _ _ p hl.1 haccepts) ?_ ?_ ?_
        · rfl
        · exact hspec
        · exact Or.inr ⟨hkept.hevc, hkept.hevc ▸ hhevc⟩
        · exact Or.inr ⟨hkept.av1, hkept.av1 ▸ hav1⟩
        · exact ⟨hkept.requestedHevc, hkept.requestedAv1⟩
      · have hrest := ih hl.2 (n + 1) hkept
        exact ⟨hrest.1, List.cons_subset.mpr ⟨hl.1, hrest.2⟩⟩
    · exact ih hl.2 (n + 1) hkept

theorem searchAny_spec (hanswers : AnswersSettled table encoderList previous input)
    (l : List ℕ) (hl : l ⊆ encoderList) (n : ℕ) {s : Encoders} (h : Searching input s) :
    Searched input (searchAny table input previous l n s).state := by
  induction l generalizing n s with
  | nil => exact Or.inl h
  | cons p rest ih =>
    rw [List.cons_subset] at hl
    unfold searchAny
    simp only
    have hkept := @tryEncoder_searching table input previous s h
      (input.outcomes .any n) p
    split
    · rename_i haccepted
      obtain ⟨haccepts, hspec⟩ := tryEncoder_spec h _ p haccepted
      exact Or.inr ⟨p, accept_selected hkept hspec (hanswers.attempts _ _ p hl.1 haccepts)
        (hanswers.adjusted _ _ p hl.1 (by decide) haccepts)⟩
    · exact ih hl.2 (n + 1) hkept

theorem Searched.searching {s : Encoders} (h : Searched input s) (hnone : s.chosen = none) :
    Searching input s := by
  rcases h with hs | ⟨p, hp⟩
  · exact hs
  · rw [hp.chosen] at hnone
    cases hnone

theorem namedSearch_spec (hanswers : AnswersSettled table encoderList previous input)
    {s : Encoders} (h : Searching input s) :
    Searched input (namedSearch table input encoderList previous s).state ∧
      (namedSearch table input encoderList previous s).list ⊆ encoderList := by
  unfold namedSearch
  split
  · exact searchNamed_spec hanswers encoderList (fun _ hp => hp) h
  · exact ⟨Or.inl h, fun _ hp => hp⟩

theorem requiredSearch_spec (hanswers : AnswersSettled table encoderList previous input)
    {found : Search} (h : Searched input found.state) (hl : found.list ⊆ encoderList) :
    Searched input (requiredSearch table input previous found).state ∧
      (requiredSearch table input previous found).list ⊆ encoderList := by
  unfold requiredSearch
  split
  · rename_i hdue
    exact searchRequired_spec hanswers found.list hl 0 (h.searching hdue.1)
  · exact ⟨h, hl⟩

theorem selectEncoder_spec (hanswers : AnswersSettled table encoderList previous input)
    {s : Encoders} (h : Searching input s) :
    Searched input (selectEncoder table input encoderList previous s) := by
  have hnamed := namedSearch_spec hanswers h
  have hrequired := requiredSearch_spec hanswers hnamed.1 hnamed.2
  unfold selectEncoder
  generalize requiredSearch table input previous (namedSearch table input encoderList previous s) =
    found at hrequired ⊢
  simp only
  split
  · rename_i hnone
    exact searchAny_spec hanswers found.list hrequired.2 0 (hrequired.1.searching hnone)
  · exact hrequired.1

/-- What is made known of an encoder that was selected. -/
theorem Selected.advertised {s : Encoders} {p : ℕ} (h : Selected input s p)
    (hmodes : input.hevcMode ≤ 5 ∧ input.av1Mode ≤ 5) :
    EncoderAdvertised (advertise table s p) p := by
  constructor
  · show CodecAdvertised _ s.requestedHevcMode _ _
    rw [h.requestedHevc]
    exact h.hevcBacked.final hmodes.1 h.hevc
  · show CodecAdvertised _ s.requestedAv1Mode _ _
    rw [h.requestedAv1]
    exact h.av1Backed.final hmodes.2 h.av1
  · intro codec hset
    have hboth : ((s.attempts p).caps codec).passed = true ∧
        ((s.attempts p).caps codec).yuv444 = true := by
      simpa [advertise] using hset
    cases codec with
    | h264 => exact h.h264 hboth.1 hboth.2
    | hevc => exact h.hevcBacked.yuv444 hboth.1 hboth.2
    | av1 => exact h.av1Backed.yuv444 hboth.1 hboth.2

end

/-! ## Runs of probes -/

/-- A probe with modes that there are, for which the platform's answers are settled if it asks. -/
structure ProbeSettled (table : ℕ → Encoder) (encoderList : List ℕ) (s : Encoders)
    (input : ProbeInput) : Prop where
  modes : input.hevcMode ≤ 5 ∧ input.av1Mode ≤ 5
  answers : input.allowed = true → keepsEncoder table input s = false →
    AnswersSettled table encoderList s.chosen input

/-- Whatever encoder is chosen is advertised with what it has passed. -/
def ChosenAdvertised (s : Encoders) : Prop := ∀ p, s.chosen = some p → EncoderAdvertised s p

theorem probeEncoders_spec (table : ℕ → Encoder) (encoderList : List ℕ) {s : Encoders}
    {input : ProbeInput} (hs : ChosenAdvertised s) (h : ProbeSettled table encoderList s input) :
    ChosenAdvertised (probeEncoders table encoderList s input).2 ∧
      ((probeEncoders table encoderList s input).1 = 0 →
        Advertised (probeEncoders table encoderList s input).2) := by
  unfold probeEncoders
  cases hallowed : input.allowed with
  | false => exact ⟨hs, fun hzero => by simp at hzero⟩
  | true =>
    rw [if_neg (by simp)]
    cases hkeeps : keepsEncoder table input s with
    | true =>
      refine ⟨hs, fun _ => ?_⟩
      unfold keepsEncoder at hkeeps
      cases hchosen : s.chosen with
      | none => simp [hchosen] at hkeeps
      | some p => exact ⟨p, hchosen, hs p hchosen⟩
    | false =>
      rw [if_neg (by simp)]
      have hstart : Searching input (restart input s) := ⟨rfl, rfl, rfl, rfl, rfl⟩
      have hselect := selectEncoder_spec (h.answers hallowed hkeeps) hstart
      generalize selectEncoder table input encoderList s.chosen (restart input s) = t at hselect ⊢
      rcases hselect with hsearching | ⟨p, hselected⟩
      · simp only [hsearching.chosen]
        exact ⟨fun p hp => by simp [hsearching.chosen] at hp, fun hzero => by simp at hzero⟩
      · simp only [hselected.chosen]
        have hadvertised : EncoderAdvertised (advertise table t p) p := hselected.advertised h.modes
        have hchosen : (advertise table t p).chosen = some p := hselected.chosen
        refine ⟨fun q hq => ?_, fun _ => ⟨p, hchosen, hadvertised⟩⟩
        rw [hchosen, Option.some.injEq] at hq
        exact hq ▸ hadvertised

/-- After every probe of a settled run that returns 0, what is advertised was validated. -/
theorem probe_advertises (table : ℕ → Encoder) (encoderList : List ℕ) (l : List ProbeInput)
    (hrun : Runs (ProbeSettled table encoderList)
      (fun s input => (probeEncoders table encoderList s input).2) {} l) :
    Runs (fun s input => (probeEncoders table encoderList s input).1 = 0 →
        Advertised (probeEncoders table encoderList s input).2)
      (fun s input => (probeEncoders table encoderList s input).2) {} l := by
  have hkept : ∀ s : Encoders, ChosenAdvertised s → Runs (ProbeSettled table encoderList)
      (fun s input => (probeEncoders table encoderList s input).2) s l →
      Runs (fun s input => (probeEncoders table encoderList s input).1 = 0 →
          Advertised (probeEncoders table encoderList s input).2)
        (fun s input => (probeEncoders table encoderList s input).2) s l := by
    clear hrun
    induction l with
    | nil => exact fun _ _ _ => trivial
    | cons input l ih =>
      intro s hs hrun
      have hspec := probeEncoders_spec table encoderList hs hrun.1
      exact ⟨hspec.2, ih _ hspec.1 hrun.2⟩
  exact hkept {} (fun p hp => by simp at hp) hrun

/-- An encoder that can do everything, and one probe of it. -/
def ableProbe : ProbeInput :=
  { hevcMode := 0, av1Mode := 4, encoder := "", force := false
    outcomes := fun _ _ => ⟨fun _ => true, fun _ _ => true, fun _ => 1⟩ }

def ableEncoder : Encoder := ⟨"nvenc", fun _ => "codec", false, true, true, true⟩

theorem probe_advertises_able :
    Advertised (probeEncoders (fun _ => ableEncoder) [0] {} ableProbe).2 := by
  have hcodec : ∀ codec mode, CodecSettled ⟨fun _ => true, fun _ _ => true, fun _ => 1⟩ ableEncoder
      codec mode := fun codec mode =>
    ⟨fun _ _ => Or.inl Int.one_nonneg, fun _ _ => rfl, fun _ _ _ => ⟨rfl, rfl⟩⟩
  have hsettled : ProbeSettled (fun _ => ableEncoder) [0] {} ableProbe := by
    refine ⟨by decide, fun _ _ => ⟨fun _ _ _ _ _ => ⟨rfl, hcodec _ _, hcodec _ _⟩, ?_⟩⟩
    exact fun _ _ _ _ _ _ => ⟨fun h => absurd h (by decide),
      fun _ => ⟨⟨rfl, rfl⟩, Or.inl Int.one_nonneg, rfl⟩, fun h => absurd h (by decide)⟩
  exact (probe_advertises (fun _ => ableEncoder) [0] [ableProbe] ⟨hsettled, trivial⟩).1
    (by decide +kernel)

/-- AV1 with HDR is asked for, and the only encoder knows H.264. -/
def av1Forced : ProbeInput :=
  { hevcMode := 0, av1Mode := 3, encoder := "", force := false
    outcomes := fun _ _ => ⟨fun _ => true, fun _ c => c.videoFormat = 0, fun _ => 1⟩ }

def avcEncoder : Encoder := ⟨"software", fun _ => "libx264", false, true, false, false⟩

/-- The displays for the HDR tests cannot be created, and nothing is asked for. -/
def noHdrDisplay : ProbeInput :=
  { hevcMode := 0, av1Mode := 0, encoder := "", force := false
    outcomes := fun _ _ => ⟨fun c => c.dynamicRange = 0, fun _ _ => true, fun _ => 1⟩ }

/-- The probe returns 0 with AV1 in mode 3 though nothing of AV1 was validated, and with HEVC in mode
5 though nothing of HDR was. -/
theorem probe_not_advertised :
    ((probeEncoders (fun _ => avcEncoder) [0] {} av1Forced).1 = 0 ∧
      ¬Advertised (probeEncoders (fun _ => avcEncoder) [0] {} av1Forced).2) ∧
    (probeEncoders (fun _ => ableEncoder) [0] {} noHdrDisplay).1 = 0 ∧
      ¬Advertised (probeEncoders (fun _ => ableEncoder) [0] {} noHdrDisplay).2 := by
  refine ⟨⟨by decide +kernel, ?_⟩, by decide +kernel, ?_⟩
  · rintro ⟨p, hchosen, h⟩
    have hp : (probeEncoders (fun _ => avcEncoder) [0] {} av1Forced).2.chosen = some 0 := by
      decide +kernel
    have hav1 : (probeEncoders (fun _ => avcEncoder) [0] {} av1Forced).2.activeAv1Mode = 3 := by
      decide +kernel
    have hlog : ∀ c ∈ ((probeEncoders (fun _ => avcEncoder) [0] {} av1Forced).2.attempts 0).validated,
        c.videoFormat = 0 := by
      decide +kernel
    rw [hp, Option.some.injEq] at hchosen
    subst hchosen
    obtain ⟨c, hc, hformat⟩ := h.av1.format (by rw [hav1]; decide)
    rw [hlog c hc] at hformat
    cases hformat
  · rintro ⟨p, hchosen, h⟩
    have hp : (probeEncoders (fun _ => ableEncoder) [0] {} noHdrDisplay).2.chosen = some 0 := by
      decide +kernel
    have hmode : (probeEncoders (fun _ => ableEncoder) [0] {} noHdrDisplay).2.activeHevcMode = 5 ∧
        (probeEncoders (fun _ => ableEncoder) [0] {} noHdrDisplay).2.requestedHevcMode = 0 := by
      decide +kernel
    have hlog : ∀ c ∈ ((probeEncoders (fun _ => ableEncoder) [0] {} noHdrDisplay).2.attempts
        0).validated, c.dynamicRange = 0 := by
      decide +kernel
    rw [hp, Option.some.injEq] at hchosen
    subst hchosen
    obtain ⟨⟨c, hc, -, hdepth, -⟩, -⟩ | ⟨hrequested, -⟩ := h.hevc.both hmode.1
    · rw [hlog c hc] at hdepth
      cases hdepth
    · rw [hmode.2] at hrequested
      cases hrequested

end Sunshine.Video
