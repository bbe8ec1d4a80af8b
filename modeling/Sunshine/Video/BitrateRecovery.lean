import Mathlib.Algebra.Order.Archimedean.Basic
import Mathlib.Tactic.Linarith
import Mathlib.Tactic.NormNum
import Mathlib.Tactic.Ring
import Sunshine.Lib.Transitions
import Sunshine.Video.AdaptiveBitrate

/-! The bitrate stays in its bounds, and when it recovers.

The loss average decays but does not get to zero. While it is positive every report counts as congestion and ends the
recovery, so the scale never grows: `bounded_and_recovers_iff`. -/
namespace Sunshine.Bitrate
open Transitions
set_option autoImplicit false

variable {s : AdaptiveBitrate} {rttMs : ℚ} {now interval : ℤ} {sample : HealthSample}

/-! ## Penalties -/

theorem lossPenalty_pos (ewmaLoss : ℚ) : 0 < lossPenalty ewmaLoss := by
  unfold lossPenalty
  split
  · norm_num
  · split
    · rename_i hfive _
      linarith
    · norm_num

theorem lossPenalty_le (ewmaLoss : ℚ) : lossPenalty ewmaLoss ≤ 1 := by
  unfold lossPenalty
  split
  · norm_num
  · split
    · rename_i hone
      linarith
    · norm_num

theorem lossPenalty_eq_one {ewmaLoss : ℚ} : lossPenalty ewmaLoss = 1 ↔ ewmaLoss ≤ 1 := by
  unfold lossPenalty
  constructor
  · intro h
    by_contra hlt
    rw [not_le] at hlt
    rw [if_pos hlt] at h
    split at h
    · norm_num at h
    · linarith
  · intro h
    rw [if_neg (by linarith), if_neg (by linarith)]

theorem rttPenalty_pos (rttSpike : Bool) : 0 < rttPenalty rttSpike := by
  cases rttSpike with
  | true => norm_num [rttPenalty]
  | false => norm_num [rttPenalty]

theorem rttPenalty_le (rttSpike : Bool) : rttPenalty rttSpike ≤ 1 := by
  cases rttSpike with
  | true => norm_num [rttPenalty]
  | false => norm_num [rttPenalty]

theorem rttPenalty_eq_one {rttSpike : Bool} : rttPenalty rttSpike = 1 ↔ rttSpike = false := by
  cases rttSpike with
  | true => norm_num [rttPenalty]
  | false => norm_num [rttPenalty]

/-! ## Every state -/

/-- What holds of a controller in every run. -/
structure Sane (s : AdaptiveBitrate) : Prop where
  positive : 0 < s.currentScale
  le_one : s.currentScale ≤ 1
  loss : 0 ≤ s.ewmaLoss
  rtt : 0 ≤ s.ewmaRtt
  unprimed : s.primed = false → s.ewmaLoss = 0

theorem Sane.checkCongestion (h : Sane s) (rttMs : ℚ) (now : ℤ) : Sane (s.checkCongestion rttMs now) := by
  unfold AdaptiveBitrate.checkCongestion
  dsimp only
  split
  · refine ⟨lt_min ?_ one_pos, min_le_right _ _, h.loss, h.rtt, h.unprimed⟩
    exact mul_pos (mul_pos h.positive (lossPenalty_pos _)) (rttPenalty_pos _)
  · split
    · exact ⟨h.positive, h.le_one, h.loss, h.rtt, h.unprimed⟩
    · exact h

/-- An average of what is not negative. -/
theorem average_nonneg {x average : ℚ} (hx : 0 ≤ x) (haverage : 0 ≤ average) :
    0 ≤ ewmaAlpha * x + (1 - ewmaAlpha) * average := by
  unfold ewmaAlpha
  linarith

theorem Sane.average (h : Sane s) (hprimed : s.primed = true) {packetLossPct rttMs : ℚ} (hloss : 0 ≤ packetLossPct)
    (hrtt : 0 ≤ rttMs) : Sane (s.average packetLossPct rttMs) :=
  ⟨h.positive, h.le_one, average_nonneg hloss h.loss, average_nonneg hrtt h.rtt,
    fun hfalse => absurd (hprimed.symm.trans hfalse) (by decide)⟩

theorem Sane.updateNetworkStats (h : Sane s) (packetLossPct rttMs : ℚ) (now : ℤ) :
    Sane (s.updateNetworkStats packetLossPct rttMs now) := by
  unfold AdaptiveBitrate.updateNetworkStats
  dsimp only
  have hloss : 0 ≤ max 0 (min packetLossPct 100) := le_max_left _ _
  have hrtt : 0 ≤ max rttMs 0 := le_max_right _ _
  split
  · exact h
  · split
    · exact ⟨h.positive, h.le_one, hloss, hrtt.trans (le_max_right _ _), fun hprimed => by cases hprimed⟩
    · rename_i hprimed
      exact (h.average (by simpa using hprimed) hloss hrtt).checkCongestion _ now

theorem factor_pos (p : Bool) {factor : ℚ} (h : 0 < factor) : 0 < if p then factor else 1 := by
  cases p with
  | true => exact h
  | false => exact one_pos

theorem factor_le (p : Bool) {factor : ℚ} (h : factor ≤ 1) : (if p then factor else 1) ≤ 1 := by
  cases p with
  | true => exact h
  | false => exact le_refl _

theorem Sane.updateStreamHealth (h : Sane s) (sample : HealthSample) (now : ℤ) :
    Sane (s.updateStreamHealth sample now) := by
  unfold AdaptiveBitrate.updateStreamHealth
  split
  · exact h
  · split
    · have hencode := factor_pos sample.slowEncode (show (0 : ℚ) < 88 / 100 by norm_num)
      have hfps := factor_pos sample.slowFps (show (0 : ℚ) < 88 / 100 by norm_num)
      have hdrops := factor_pos sample.drops (show (0 : ℚ) < 90 / 100 by norm_num)
      refine ⟨mul_pos (mul_pos (mul_pos h.positive hencode) hfps) hdrops, ?_, h.loss, h.rtt, h.unprimed⟩
      have hencode' := factor_le sample.slowEncode (show (88 / 100 : ℚ) ≤ 1 by norm_num)
      have hfps' := factor_le sample.slowFps (show (88 / 100 : ℚ) ≤ 1 by norm_num)
      have hdrops' := factor_le sample.drops (show (90 / 100 : ℚ) ≤ 1 by norm_num)
      exact mul_le_one₀ (mul_le_one₀ (mul_le_one₀ h.le_one hencode.le hencode') hfps.le hfps') hdrops.le hdrops'
    · split
      · exact ⟨h.positive, h.le_one, h.loss, h.rtt, h.unprimed⟩
      · split
        · refine ⟨lt_min ?_ one_pos, min_le_right _ _, h.loss, h.rtt, h.unprimed⟩
          exact add_pos h.positive (by norm_num [recoveryRate])
        · exact h

theorem sane_step (s : AdaptiveBitrate) (i : Input) (h : Sane s) : Sane (step s i) := by
  cases i with
  | networkStats packetLossPct rttMs now => exact h.updateNetworkStats packetLossPct rttMs now
  | streamHealth sample now => exact h.updateStreamHealth sample now
  | reset => exact ⟨one_pos, le_refl _, le_refl _, le_refl _, fun _ => rfl⟩

/-- The averages are only read. -/
theorem checkCongestion_frame (s : AdaptiveBitrate) (rttMs : ℚ) (now : ℤ) :
    (s.checkCongestion rttMs now).cfg = s.cfg ∧ (s.checkCongestion rttMs now).primed = s.primed ∧
      (s.checkCongestion rttMs now).ewmaLoss = s.ewmaLoss ∧ (s.checkCongestion rttMs now).ewmaRtt = s.ewmaRtt := by
  unfold AdaptiveBitrate.checkCongestion
  dsimp only
  split
  · exact ⟨rfl, rfl, rfl, rfl⟩
  · split
    · exact ⟨rfl, rfl, rfl, rfl⟩
    · exact ⟨rfl, rfl, rfl, rfl⟩

theorem updateNetworkStats_cfg (s : AdaptiveBitrate) (packetLossPct rttMs : ℚ) (now : ℤ) :
    (s.updateNetworkStats packetLossPct rttMs now).cfg = s.cfg := by
  unfold AdaptiveBitrate.updateNetworkStats
  dsimp only
  split
  · rfl
  · split
    · rfl
    · exact (checkCongestion_frame _ _ now).1

theorem updateStreamHealth_cfg (s : AdaptiveBitrate) (sample : HealthSample) (now : ℤ) :
    (s.updateStreamHealth sample now).cfg = s.cfg := by
  unfold AdaptiveBitrate.updateStreamHealth
  split
  · rfl
  · split
    · rfl
    · split
      · rfl
      · split
        · rfl
        · rfl

theorem cfg_step (s : AdaptiveBitrate) (i : Input) : (step s i).cfg = s.cfg := by
  cases i with
  | networkStats packetLossPct rttMs now => exact updateNetworkStats_cfg s packetLossPct rttMs now
  | streamHealth sample now => exact updateStreamHealth_cfg s sample now
  | reset => rfl

theorem sane_run (cfg : Config) (inputs : List Input) :
    Sane (inputs.foldl step (start cfg)) ∧ (inputs.foldl step (start cfg)).cfg = cfg :=
  (runs_true inputs).invariant (fun s => Sane s ∧ s.cfg = cfg)
    ⟨⟨one_pos, le_refl _, le_refl _, le_refl _, fun _ => rfl⟩, rfl⟩
    fun s i h _ => ⟨sane_step s i h.1, (cfg_step s i).trans h.2⟩

/-! ## The target -/

theorem Sane.inBounds (h : Sane s) (henabled : s.cfg.enabled = true) (hmin : 0 < s.cfg.minBitrate) : InBounds s := by
  refine ⟨h.positive, h.le_one, fun base hbase => ?_⟩
  unfold AdaptiveBitrate.getTargetBitrate
  rw [henabled]
  simp only [Bool.not_true, Bool.false_eq_true, if_false]
  rw [if_neg (by omega)]
  have hpositive : ¬max (min (min ⌊base * s.currentScale⌋ base) s.cfg.maxBitrate) s.cfg.minBitrate ≤ 0 := by omega
  rw [if_neg hpositive]
  omega

/-! ## A round without loss -/

theorem HealthSample.Healthy.flags (h : sample.Healthy) :
    sample.slowEncode = false ∧ sample.slowFps = false ∧ sample.drops = false := by
  obtain ⟨hfps, hencode, hdropped⟩ := h
  unfold HealthSample.slowEncode HealthSample.slowFps HealthSample.drops
  refine ⟨?_, ?_, ?_⟩
  · rw [decide_eq_false_iff_not, not_lt]
    exact max_le hencode (by norm_num)
  · rw [decide_eq_false_iff_not, not_lt]
    exact (le_min hfps (by norm_num)).trans (le_max_right _ _)
  · rw [decide_eq_false_iff_not, not_lt]
    exact max_le (by norm_num) ((min_le_left _ _).trans hdropped)

theorem updateStreamHealth_healthy (henabled : s.cfg.enabled = true) (h : sample.Healthy) (now : ℤ) :
    s.updateStreamHealth sample now =
      if !s.inRecovery then { s with inRecovery := true, recoveryStart := now }
      else if recoveryTimeout ≤ now - s.recoveryStart then
        { s with currentScale := min (s.currentScale + recoveryRate * (1 / 100)) 1 }
      else s := by
  obtain ⟨hencode, hfps, hdrops⟩ := h.flags
  unfold AdaptiveBitrate.updateStreamHealth
  rw [henabled, hencode, hfps, hdrops]
  rfl

theorem updateNetworkStats_zero (henabled : s.cfg.enabled = true) (hprimed : s.primed = true) (rttMs : ℚ) (now : ℤ) :
    s.updateNetworkStats 0 rttMs now = (s.average 0 (max rttMs 0)).checkCongestion (max rttMs 0) now := by
  have hzero : max (0 : ℚ) (min 0 100) = 0 := by norm_num
  unfold AdaptiveBitrate.updateNetworkStats
  rw [henabled, hprimed]
  dsimp only
  rw [hzero]
  rfl

theorem average_zero (s : AdaptiveBitrate) (rttMs : ℚ) :
    (s.average 0 rttMs).ewmaLoss = (1 - ewmaAlpha) * s.ewmaLoss := by
  show ewmaAlpha * 0 + (1 - ewmaAlpha) * s.ewmaLoss = _
  rw [mul_zero, zero_add]

/-- The round-trip time is no spike when it is reported next. -/
def NoSpike (rttMs : ℚ) (s : AdaptiveBitrate) : Prop :=
  max rttMs 0 ≤ 2 * (ewmaAlpha * max rttMs 0 + (1 - ewmaAlpha) * s.ewmaRtt)

/-- Half of the round-trip time in the average is enough. -/
theorem noSpike_of_half (h : max rttMs 0 ≤ 2 * s.ewmaRtt) : NoSpike rttMs s := by
  have hrtt : 0 ≤ max rttMs 0 := le_max_right _ _
  unfold NoSpike ewmaAlpha
  linarith

/-- A second report is no spike. -/
theorem noSpike_average (hrtt : 0 ≤ s.ewmaRtt) {s' : AdaptiveBitrate}
    (haverage : s'.ewmaRtt = (s.average 0 (max rttMs 0)).ewmaRtt) : NoSpike rttMs s' := by
  have hnonneg : 0 ≤ max rttMs 0 := le_max_right _ _
  unfold NoSpike
  rw [haverage]
  show max rttMs 0 ≤ 2 * (ewmaAlpha * max rttMs 0 + (1 - ewmaAlpha) *
    (ewmaAlpha * max rttMs 0 + (1 - ewmaAlpha) * s.ewmaRtt))
  unfold ewmaAlpha
  linarith

/-! ## While loss is left in the average -/

structure Lossy (s : AdaptiveBitrate) : Prop where
  enabled : s.cfg.enabled = true
  primed : s.primed = true
  loss : 0 < s.ewmaLoss
  rtt : 0 ≤ s.ewmaRtt

def roundPenalty (rttMs : ℚ) (s : AdaptiveBitrate) : ℚ :=
  lossPenalty ((1 - ewmaAlpha) * s.ewmaLoss) *
    rttPenalty (decide (2 * (ewmaAlpha * max rttMs 0 + (1 - ewmaAlpha) * s.ewmaRtt) < max rttMs 0))

/-- The report ends the recovery, and the sample only starts it again. -/
theorem round_lossy (h : Lossy s) (hhealthy : sample.Healthy) (rttMs : ℚ) (now interval : ℤ) :
    round rttMs sample now interval s =
      { s.average 0 (max rttMs 0) with
        currentScale := min (s.currentScale * roundPenalty rttMs s) 1
        inRecovery := true
        recoveryStart := now + interval } := by
  have hloss := average_zero s (max rttMs 0)
  have hpositive : 0 < (s.average 0 (max rttMs 0)).ewmaLoss := by
    rw [hloss]
    exact mul_pos (by norm_num [ewmaAlpha]) h.loss
  have hcongested : (s.average 0 (max rttMs 0)).checkCongestion (max rttMs 0) now =
      { s.average 0 (max rttMs 0) with
        inRecovery := false
        currentScale := min (s.currentScale * roundPenalty rttMs s) 1 } := by
    unfold AdaptiveBitrate.checkCongestion
    dsimp only
    rw [if_pos (by simp [hpositive]), hloss, roundPenalty, ← mul_assoc]
    rfl
  unfold round
  rw [updateNetworkStats_zero h.enabled h.primed, hcongested, updateStreamHealth_healthy ?_ hhealthy]
  · rfl
  · exact h.enabled

theorem Lossy.round (h : Lossy s) (hhealthy : sample.Healthy) (rttMs : ℚ) (now interval : ℤ) :
    Lossy (round rttMs sample now interval s) := by
  rw [round_lossy h hhealthy]
  refine ⟨h.enabled, h.primed, ?_, average_nonneg (le_max_right _ _) h.rtt⟩
  show 0 < (s.average 0 (max rttMs 0)).ewmaLoss
  rw [average_zero]
  exact mul_pos (by norm_num [ewmaAlpha]) h.loss

theorem roundPenalty_pos (rttMs : ℚ) (s : AdaptiveBitrate) : 0 < roundPenalty rttMs s :=
  mul_pos (lossPenalty_pos _) (rttPenalty_pos _)

theorem roundPenalty_le (rttMs : ℚ) (s : AdaptiveBitrate) : roundPenalty rttMs s ≤ 1 :=
  mul_le_one₀ (lossPenalty_le _) (rttPenalty_pos _).le (rttPenalty_le _)

theorem roundPenalty_eq_one : roundPenalty rttMs s = 1 ↔
    (1 - ewmaAlpha) * s.ewmaLoss ≤ 1 ∧ NoSpike rttMs s := by
  have hloss := lossPenalty_le ((1 - ewmaAlpha) * s.ewmaLoss)
  have hpositive := lossPenalty_pos ((1 - ewmaAlpha) * s.ewmaLoss)
  have hspike := rttPenalty_le (decide (2 * (ewmaAlpha * max rttMs 0 + (1 - ewmaAlpha) * s.ewmaRtt) < max rttMs 0))
  have hspike' : rttPenalty (decide (2 * (ewmaAlpha * max rttMs 0 + (1 - ewmaAlpha) * s.ewmaRtt) < max rttMs 0)) = 1 ↔
      NoSpike rttMs s := by
    rw [rttPenalty_eq_one, decide_eq_false_iff_not, not_lt, NoSpike]
  rw [← lossPenalty_eq_one, ← hspike']
  unfold roundPenalty
  constructor
  · intro h
    constructor
    · nlinarith
    · nlinarith
  · rintro ⟨hone, hone'⟩
    rw [hone, hone', mul_one]

/-- While loss is left, no round raises the scale. -/
theorem lossy_rounds (h : Lossy s) {samples : ℕ → HealthSample} (hhealthy : ∀ n, (samples n).Healthy)
    (rttMs : ℚ) (now interval : ℤ) (m : ℕ) :
    Lossy (afterRounds rttMs samples now interval s m) ∧
      (0 < s.currentScale → s.currentScale ≤ 1 →
        0 < (afterRounds rttMs samples now interval s m).currentScale ∧
        (afterRounds rttMs samples now interval s (m + 1)).currentScale ≤
          (round rttMs (samples 0) now interval s).currentScale) := by
  induction m with
  | zero =>
    refine ⟨h, fun hpositive _ => ⟨hpositive, ?_⟩⟩
    show (round rttMs (samples 0) (now + 2 * (0 : ℕ) * interval) interval s).currentScale ≤ _
    rw [Nat.cast_zero, mul_zero, zero_mul, add_zero]
  | succ m ih =>
    obtain ⟨hlossy, hscale⟩ := ih
    refine ⟨hlossy.round (hhealthy m) rttMs _ interval, fun hpositive hle => ?_⟩
    obtain ⟨hpositive', hbound⟩ := hscale hpositive hle
    have hnext : Lossy (afterRounds rttMs samples now interval s (m + 1)) :=
      hlossy.round (hhealthy m) rttMs (now + 2 * m * interval) interval
    have hpos : 0 < (afterRounds rttMs samples now interval s (m + 1)).currentScale := by
      show 0 < (round rttMs (samples m) (now + 2 * m * interval) interval _).currentScale
      rw [round_lossy hlossy (hhealthy m)]
      exact lt_min (mul_pos hpositive' (roundPenalty_pos _ _)) one_pos
    refine ⟨hpos, le_trans ?_ hbound⟩
    show (round rttMs (samples (m + 1)) _ interval (afterRounds rttMs samples now interval s (m + 1))).currentScale ≤ _
    rw [round_lossy hnext (hhealthy (m + 1))]
    exact (min_le_left _ _).trans (mul_le_of_le_one_right hpos.le (roundPenalty_le _ _))

/-- Where loss is left, only a scale that meets no penalty is 1 again. -/
theorem recoverable_of_recovers (h : Sane s) (henabled : s.cfg.enabled = true) {samples : ℕ → HealthSample}
    (hhealthy : ∀ n, (samples n).Healthy) (hrecovers : Recovers rttMs samples now interval s) :
    Recoverable rttMs s := by
  by_cases hzero : s.ewmaLoss = 0
  · exact .inl hzero
  · have hlossy : Lossy s := by
      refine ⟨henabled, ?_, lt_of_le_of_ne h.loss (Ne.symm hzero), h.rtt⟩
      rw [← Bool.not_eq_false]
      exact fun hfalse => hzero (h.unprimed hfalse)
    obtain ⟨n, hn⟩ := hrecovers
    have hround := ((lossy_rounds hlossy hhealthy rttMs now interval n).2 h.positive h.le_one).2
    rw [hn (n + 1) (Nat.le_succ n), round_lossy hlossy (hhealthy 0)] at hround
    have hproduct : 1 ≤ s.currentScale * roundPenalty rttMs s := hround.trans (min_le_left _ _)
    have hpenalty := roundPenalty_le rttMs s
    have hpenalty' := roundPenalty_pos rttMs s
    have hscale : s.currentScale = 1 := le_antisymm h.le_one (by nlinarith [h.positive])
    rw [hscale, one_mul] at hproduct
    exact .inr ⟨hscale, roundPenalty_eq_one.mp (le_antisymm hpenalty hproduct)⟩

/-- A scale of 1 that meets no penalty stays. -/
theorem recovers_of_steady (h : Lossy s) (hscale : s.currentScale = 1) (hloss : (1 - ewmaAlpha) * s.ewmaLoss ≤ 1)
    (hspike : NoSpike rttMs s) {samples : ℕ → HealthSample} (hhealthy : ∀ n, (samples n).Healthy) :
    Recovers rttMs samples now interval s := by
  have hsteady : ∀ m, Lossy (afterRounds rttMs samples now interval s m) ∧
      (afterRounds rttMs samples now interval s m).currentScale = 1 ∧
      (1 - ewmaAlpha) * (afterRounds rttMs samples now interval s m).ewmaLoss ≤ 1 ∧
      NoSpike rttMs (afterRounds rttMs samples now interval s m) := by
    intro m
    induction m with
    | zero => exact ⟨h, hscale, hloss, hspike⟩
    | succ m ih =>
      obtain ⟨hlossy, hscale, hloss, hspike⟩ := ih
      refine ⟨hlossy.round (hhealthy m) rttMs _ interval, ?_⟩
      show (round rttMs (samples m) _ interval _).currentScale = 1 ∧
        (1 - ewmaAlpha) * (round rttMs (samples m) _ interval _).ewmaLoss ≤ 1 ∧
        NoSpike rttMs (round rttMs (samples m) _ interval _)
      rw [round_lossy hlossy (hhealthy m)]
      refine ⟨?_, ?_, noSpike_average hlossy.rtt rfl⟩
      · show min _ 1 = 1
        rw [hscale, one_mul, roundPenalty_eq_one.mpr ⟨hloss, hspike⟩, min_self]
      · show (1 - ewmaAlpha) * (AdaptiveBitrate.average _ 0 (max rttMs 0)).ewmaLoss ≤ 1
        rw [average_zero]
        have hpositive := hlossy.loss
        unfold ewmaAlpha at hloss ⊢
        linarith
  exact ⟨0, fun m _ => (hsteady m).2.1⟩

/-! ## Without loss in the average -/

structure Clean (rttMs : ℚ) (s : AdaptiveBitrate) : Prop where
  enabled : s.cfg.enabled = true
  primed : s.primed = true
  loss : s.ewmaLoss = 0
  rtt : 0 ≤ s.ewmaRtt
  spike : NoSpike rttMs s

def recoveryFrom (s : AdaptiveBitrate) (now : ℤ) : ℤ := if s.inRecovery then s.recoveryStart else now

/-- The report starts the recovery, and the sample goes on with it. -/
theorem round_clean (h : Clean rttMs s) (hhealthy : sample.Healthy) (now interval : ℤ) :
    round rttMs sample now interval s =
      { s.average 0 (max rttMs 0) with
        inRecovery := true
        recoveryStart := recoveryFrom s now
        currentScale := if recoveryTimeout ≤ now + interval - recoveryFrom s now then
          min (s.currentScale + recoveryRate * (1 / 100)) 1 else s.currentScale } := by
  have hloss : (s.average 0 (max rttMs 0)).ewmaLoss = 0 := by
    rw [average_zero, h.loss, mul_zero]
  have hspike : decide (2 * (s.average 0 (max rttMs 0)).ewmaRtt < max rttMs 0) = false := by
    rw [decide_eq_false_iff_not, not_lt]
    exact h.spike
  have hquiet : ¬(decide (2 * (s.average 0 (max rttMs 0)).ewmaRtt < max rttMs 0) ||
      decide (0 < (s.average 0 (max rttMs 0)).ewmaLoss)) = true := by
    rw [hspike, hloss]
    simp
  have hcalm : (s.average 0 (max rttMs 0)).checkCongestion (max rttMs 0) now =
      { s.average 0 (max rttMs 0) with inRecovery := true, recoveryStart := recoveryFrom s now } := by
    unfold AdaptiveBitrate.checkCongestion
    dsimp only
    rw [if_neg hquiet, recoveryFrom]
    show (if (!s.inRecovery) = true then _ else _) = _
    cases hrecovery : s.inRecovery with
    | true =>
      rw [if_neg (by simp), if_pos rfl, ← hrecovery]
      rfl
    | false => rfl
  unfold round
  rw [updateNetworkStats_zero h.enabled h.primed, hcalm, updateStreamHealth_healthy ?_ hhealthy]
  · dsimp only
    rw [if_neg (by simp)]
    split
    · rfl
    · rfl
  · exact h.enabled

theorem Clean.round (h : Clean rttMs s) (hhealthy : sample.Healthy) (now interval : ℤ) :
    Clean rttMs (round rttMs sample now interval s) := by
  rw [round_clean h hhealthy]
  refine ⟨h.enabled, h.primed, ?_, average_nonneg (le_max_right _ _) h.rtt, noSpike_average h.rtt rfl⟩
  show (s.average 0 (max rttMs 0)).ewmaLoss = 0
  rw [average_zero, h.loss, mul_zero]

/-- The report of a round makes a state without loss clean. -/
theorem clean_updateNetworkStats (h : Sane s) (henabled : s.cfg.enabled = true) (hloss : s.ewmaLoss = 0) (rttMs : ℚ)
    (now : ℤ) : Clean rttMs (s.updateNetworkStats 0 rttMs now) := by
  cases hprimed : s.primed with
  | false =>
    have hzero : max (0 : ℚ) (min 0 100) = 0 := by norm_num
    have hfirst : s.updateNetworkStats 0 rttMs now =
        { s with ewmaLoss := 0, ewmaRtt := max minEwmaRttMs (max rttMs 0), primed := true } := by
      unfold AdaptiveBitrate.updateNetworkStats
      rw [henabled, hprimed]
      dsimp only
      rw [hzero]
      rfl
    have hrtt : 0 ≤ max rttMs 0 := le_max_right _ _
    have hfloor : max rttMs 0 ≤ max minEwmaRttMs (max rttMs 0) := le_max_right _ _
    rw [hfirst]
    refine ⟨henabled, rfl, rfl, hrtt.trans hfloor, noSpike_of_half ?_⟩
    show max rttMs 0 ≤ 2 * max minEwmaRttMs (max rttMs 0)
    linarith
  | true =>
    obtain ⟨hcfg, hprimed', hloss', hrtt'⟩ := checkCongestion_frame (s.average 0 (max rttMs 0)) (max rttMs 0) now
    rw [updateNetworkStats_zero henabled hprimed]
    refine ⟨(congrArg Config.enabled hcfg).trans henabled, hprimed'.trans hprimed, ?_, ?_,
      noSpike_average h.rtt hrtt'⟩
    · rw [hloss', average_zero, hloss, mul_zero]
    · rw [hrtt']
      exact average_nonneg (le_max_right _ _) h.rtt

theorem Clean.updateStreamHealth (h : Clean rttMs s) (hhealthy : sample.Healthy) (now : ℤ) :
    Clean rttMs (s.updateStreamHealth sample now) := by
  rw [updateStreamHealth_healthy h.enabled hhealthy]
  split
  · exact ⟨h.enabled, h.primed, h.loss, h.rtt, h.spike⟩
  · split
    · exact ⟨h.enabled, h.primed, h.loss, h.rtt, h.spike⟩
    · exact h

/-- One round makes a state without loss clean. -/
theorem clean_round (h : Sane s) (henabled : s.cfg.enabled = true) (hloss : s.ewmaLoss = 0)
    (hhealthy : sample.Healthy) (rttMs : ℚ) (now interval : ℤ) :
    Clean rttMs (round rttMs sample now interval s) :=
  (clean_updateNetworkStats h henabled hloss rttMs now).updateStreamHealth hhealthy (now + interval)

/-- A sequence that grows by one step after the other, up to 1. -/
theorem ramp_reaches {f : ℕ → ℚ} {growth : ℚ} {start : ℕ} (hgrowth : 0 < growth) (hnonneg : 0 ≤ f start)
    (hstep : ∀ m, start ≤ m → f (m + 1) = min (f m + growth) 1) : ∃ n, ∀ m, n ≤ m → f m = 1 := by
  have hle : ∀ j : ℕ, min (j * growth) 1 ≤ f (start + j) := by
    intro j
    induction j with
    | zero =>
      rw [Nat.cast_zero, zero_mul]
      exact (min_le_left _ _).trans hnonneg
    | succ j ih =>
      rw [← Nat.add_assoc, hstep (start + j) (Nat.le_add_right _ _), Nat.cast_succ]
      refine le_min ?_ (min_le_right _ _)
      rcases min_le_iff.mp ih with hj | hone
      · exact (min_le_left _ _).trans (by linarith)
      · exact (min_le_right _ _).trans (by linarith)
  obtain ⟨j, hj⟩ := exists_nat_ge (1 / growth)
  refine ⟨start + j + 1, fun m hm => ?_⟩
  obtain ⟨k, rfl⟩ := Nat.exists_eq_add_of_le hm
  have hsum : start + j + 1 + k = start + (j + k) + 1 := by omega
  rw [hsum, hstep _ (Nat.le_add_right _ _)]
  refine min_eq_right ?_
  have hmany : 1 ≤ ((j + k : ℕ) : ℚ) * growth := by
    have hone : 1 ≤ (j : ℚ) * growth := (div_le_iff₀ hgrowth).mp hj
    have hk : 0 ≤ (k : ℚ) * growth := mul_nonneg (Nat.cast_nonneg k) hgrowth.le
    rw [Nat.cast_add, add_mul]
    linarith
  have hbound := hle (j + k)
  rw [min_eq_right hmany] at hbound
  linarith

/-- Without loss the recovery starts, lasts, and brings the scale back to 1. -/
theorem recovers_of_no_loss (h : Sane s) (henabled : s.cfg.enabled = true) (hloss : s.ewmaLoss = 0)
    (hinterval : 0 < interval) {samples : ℕ → HealthSample} (hhealthy : ∀ n, (samples n).Healthy) :
    Recovers rttMs samples now interval s := by
  have hclean : ∀ m, Clean rttMs (afterRounds rttMs samples now interval s (m + 1)) := by
    intro m
    induction m with
    | zero => exact clean_round h henabled hloss (hhealthy 0) rttMs _ interval
    | succ m ih => exact ih.round (hhealthy (m + 1)) _ interval
  have hsucc : ∀ m, afterRounds rttMs samples now interval s (m + 2) = _ :=
    fun m => round_clean (hclean m) (hhealthy (m + 1)) (now + 2 * (m + 1 : ℕ) * interval) interval
  have hrecovery : ∀ m, (afterRounds rttMs samples now interval s (m + 2)).inRecovery = true := by
    intro m
    rw [hsucc]
  have hsame : ∀ m, (afterRounds rttMs samples now interval s (m + 2)).recoveryStart =
      (afterRounds rttMs samples now interval s 2).recoveryStart := by
    intro m
    induction m with
    | zero => rfl
    | succ m ih =>
      rw [← ih, hsucc (m + 1)]
      show recoveryFrom (afterRounds rttMs samples now interval s (m + 2)) _ = _
      rw [recoveryFrom, if_pos (hrecovery m)]
  have hpositive : ∀ m, 0 ≤ (afterRounds rttMs samples now interval s m).currentScale := by
    have hsane : ∀ m, Sane (afterRounds rttMs samples now interval s m) := by
      intro m
      induction m with
      | zero => exact h
      | succ m ih => exact (ih.updateNetworkStats 0 rttMs _).updateStreamHealth (samples m) _
    exact fun m => (hsane m).positive.le
  -- The rounds from which on the recovery has lasted for ten seconds.
  set origin := (afterRounds rttMs samples now interval s 2).recoveryStart with horigin
  have hramp : ∀ m, (recoveryTimeout + origin - now).toNat ≤ m →
      (afterRounds rttMs samples now interval s (m + 1 + 2)).currentScale =
        min ((afterRounds rttMs samples now interval s (m + 2)).currentScale + recoveryRate * (1 / 100)) 1 := by
    intro m hm
    have hfrom : recoveryFrom (afterRounds rttMs samples now interval s (m + 2))
        (now + 2 * (m + 1 + 1 : ℕ) * interval) = origin := by
      rw [recoveryFrom, if_pos (hrecovery m), hsame]
    have hlong : recoveryTimeout ≤ now + 2 * (m + 1 + 1 : ℕ) * interval + interval - origin := by
      have hrounds : ((m + 1 + 1 : ℕ) : ℤ) ≤ 2 * (m + 1 + 1 : ℕ) * interval := by nlinarith
      push_cast at hrounds ⊢
      omega
    rw [hsucc (m + 1)]
    show (if recoveryTimeout ≤ _ - recoveryFrom (afterRounds rttMs samples now interval s (m + 2)) _ then _ else _) = _
    rw [hfrom, if_pos hlong]
  obtain ⟨n, hn⟩ := @ramp_reaches (fun m => (afterRounds rttMs samples now interval s (m + 2)).currentScale)
    (recoveryRate * (1 / 100)) (recoveryTimeout + origin - now).toNat (by norm_num [recoveryRate])
    (hpositive _) hramp
  refine ⟨n + 2, fun m hm => ?_⟩
  obtain ⟨k, rfl⟩ := Nat.exists_eq_add_of_le' (Nat.le_of_add_left_le hm)
  exact hn k (Nat.le_of_add_le_add_right hm)

/-! ## All runs -/

/-- In every run the scale and the target stay in their bounds; and the scale recovers exactly from the states without
loss in their average, and from those whose scale is 1 and meets no penalty. -/
theorem bounded_and_recovers_iff {cfg : Config} (henabled : cfg.enabled = true) (hmin : 0 < cfg.minBitrate)
    (inputs : List Input) (rttMs : ℚ) {samples : ℕ → HealthSample} (hhealthy : ∀ n, (samples n).Healthy) (now : ℤ)
    {interval : ℤ} (hinterval : 0 < interval) :
    ((∀ l, l <+: inputs → InBounds (l.foldl step (start cfg))) ∧
      Recovers rttMs samples now interval (inputs.foldl step (start cfg))) ↔
        Recoverable rttMs (inputs.foldl step (start cfg)) := by
  obtain ⟨hsane, hcfg⟩ := sane_run cfg inputs
  have henabled' : (inputs.foldl step (start cfg)).cfg.enabled = true := (congrArg Config.enabled hcfg).trans henabled
  constructor
  · rintro ⟨-, hrecovers⟩
    exact recoverable_of_recovers hsane henabled' hhealthy hrecovers
  · intro hrecoverable
    refine ⟨fun l _ => ?_, ?_⟩
    · obtain ⟨hsane, hcfg⟩ := sane_run cfg l
      refine hsane.inBounds ((congrArg Config.enabled hcfg).trans henabled) ?_
      rw [hcfg]
      exact hmin
    · by_cases hloss : (inputs.foldl step (start cfg)).ewmaLoss = 0
      · exact recovers_of_no_loss hsane henabled' hloss hinterval hhealthy
      · obtain ⟨hscale, hpercent, hspike⟩ := hrecoverable.resolve_left hloss
        have hprimed : (inputs.foldl step (start cfg)).primed = true := by
          rw [← Bool.not_eq_false]
          exact fun hfalse => hloss (hsane.unprimed hfalse)
        exact recovers_of_steady ⟨henabled', hprimed, lt_of_le_of_ne hsane.loss (Ne.symm hloss), hsane.rtt⟩ hscale
          hpercent hspike hhealthy

def defaultConfig : Config := { enabled := true }

def steadySample : HealthSample := ⟨1, 5, 0⟩

theorem steadySample_healthy : steadySample.Healthy :=
  ⟨by norm_num [steadySample], by norm_num [steadySample], by norm_num [steadySample]⟩

/-- The encoder was slow once, and no loss was reported. -/
def slowOnce : List Input := [.networkStats 0 20 0, .streamHealth ⟨1, 20, 0⟩ 1]

theorem recovers_slowOnce : (∀ l, l <+: slowOnce → InBounds (l.foldl step (start defaultConfig))) ∧
    Recovers 20 (fun _ => steadySample) 2 1 (slowOnce.foldl step (start defaultConfig)) :=
  (bounded_and_recovers_iff rfl (by decide) slowOnce 20 (fun _ => steadySample_healthy) 2 (by decide)).mpr
    (.inl (by decide +kernel))

/-- One report of two percent loss is enough to keep the scale down. -/
theorem never_recovers :
    ¬Recovers 20 (fun _ => steadySample) 1 (10 ^ 9) (step (start defaultConfig) (.networkStats 2 20 0)) := by
  intro h
  have hsane : Sane (step (start defaultConfig) (.networkStats 2 20 0)) :=
    (sane_run defaultConfig [.networkStats 2 20 0]).1
  rcases recoverable_of_recovers hsane rfl (fun _ => steadySample_healthy) h with hloss | ⟨-, hpercent, -⟩
  · exact absurd hloss (by decide +kernel)
  · exact absurd hpercent (by decide +kernel)

end Sunshine.Bitrate
