import Mathlib.Algebra.Order.Ring.Rat
import Mathlib.Data.Rat.Floor

/-! The adaptive bitrate (`adaptive_bitrate.cpp`), over the rationals.

The averages of loss and round-trip time scale the bitrate down, and a stream without trouble lets it grow again
after ten seconds. `InBounds` and `Recovers` say what is expected of the scale. -/
namespace Sunshine.Bitrate
set_option autoImplicit false

def ewmaAlpha : ℚ := 3 / 10

def recoveryRate : ℚ := 4 / 10

def minEwmaRttMs : ℚ := 5

/-- Ten seconds; times are in nanoseconds. -/
def recoveryTimeout : ℤ := 10 * 10 ^ 9

structure Config where
  enabled : Bool := false
  minBitrate : ℤ := 2000
  maxBitrate : ℤ := 100000
  deriving DecidableEq, Repr

structure AdaptiveBitrate where
  cfg : Config
  ewmaLoss : ℚ := 0
  ewmaRtt : ℚ := 0
  currentScale : ℚ := 1
  primed : Bool := false
  inRecovery : Bool := false
  recoveryStart : ℤ := 0
  deriving DecidableEq, Repr

def lossPenalty (ewmaLoss : ℚ) : ℚ := if 5 < ewmaLoss then 1 / 2 else if 1 < ewmaLoss then 1 - ewmaLoss / 100 else 1

def rttPenalty (rttSpike : Bool) : ℚ := if rttSpike then 7 / 10 else 1

def AdaptiveBitrate.average (s : AdaptiveBitrate) (packetLossPct rttMs : ℚ) : AdaptiveBitrate :=
  { s with
    ewmaLoss := ewmaAlpha * packetLossPct + (1 - ewmaAlpha) * s.ewmaLoss
    ewmaRtt := ewmaAlpha * rttMs + (1 - ewmaAlpha) * s.ewmaRtt }

/-- The congestion check, with both averages up to date. -/
def AdaptiveBitrate.checkCongestion (s : AdaptiveBitrate) (rttMs : ℚ) (now : ℤ) : AdaptiveBitrate :=
  let rttSpike := decide (2 * s.ewmaRtt < rttMs)
  if rttSpike || decide (0 < s.ewmaLoss) then
    { s with
      inRecovery := false
      currentScale := min (s.currentScale * lossPenalty s.ewmaLoss * rttPenalty rttSpike) 1 }
  else if !s.inRecovery then { s with inRecovery := true, recoveryStart := now }
  else s

def AdaptiveBitrate.updateNetworkStats (s : AdaptiveBitrate) (packetLossPct rttMs : ℚ) (now : ℤ) : AdaptiveBitrate :=
  if !s.cfg.enabled then s
  else
    let packetLossPct := max 0 (min packetLossPct 100)
    let rttMs := max rttMs 0
    if !s.primed then { s with ewmaLoss := packetLossPct, ewmaRtt := max minEwmaRttMs rttMs, primed := true }
    else (s.average packetLossPct rttMs).checkCongestion rttMs now

structure HealthSample where
  fpsRatio : ℚ
  encodeTimeMs : ℚ
  droppedFrameRatio : ℚ
  deriving DecidableEq, Repr

def HealthSample.slowEncode (sample : HealthSample) : Bool := decide (11 < max sample.encodeTimeMs 0)

def HealthSample.slowFps (sample : HealthSample) : Bool := decide (max 0 (min sample.fpsRatio 4) < 88 / 100)

def HealthSample.drops (sample : HealthSample) : Bool := decide (5 / 100 < max 0 (min sample.droppedFrameRatio 1))

def AdaptiveBitrate.updateStreamHealth (s : AdaptiveBitrate) (sample : HealthSample) (now : ℤ) : AdaptiveBitrate :=
  if !s.cfg.enabled then s
  else if sample.slowEncode || sample.slowFps || sample.drops then
    { s with
      currentScale := s.currentScale * (if sample.slowEncode then 88 / 100 else 1) *
        (if sample.slowFps then 88 / 100 else 1) * if sample.drops then 90 / 100 else 1
      inRecovery := false }
  else if !s.inRecovery then { s with inRecovery := true, recoveryStart := now }
  else if recoveryTimeout ≤ now - s.recoveryStart then
    { s with currentScale := min (s.currentScale + recoveryRate * (1 / 100)) 1 }
  else s

def AdaptiveBitrate.getTargetBitrate (s : AdaptiveBitrate) (baseBitrate : ℤ) : ℤ :=
  if !s.cfg.enabled then max s.cfg.minBitrate (min baseBitrate s.cfg.maxBitrate)
  else if baseBitrate ≤ 0 then s.cfg.minBitrate
  else
    let result := max (min (min ⌊baseBitrate * s.currentScale⌋ baseBitrate) s.cfg.maxBitrate) s.cfg.minBitrate
    if result ≤ 0 then s.cfg.minBitrate else result

def AdaptiveBitrate.reset (s : AdaptiveBitrate) : AdaptiveBitrate :=
  { s with ewmaLoss := 0, ewmaRtt := 0, currentScale := 1, inRecovery := false, primed := false }

inductive Input where
  | networkStats (packetLossPct rttMs : ℚ) (now : ℤ)
  | streamHealth (sample : HealthSample) (now : ℤ)
  | reset
  deriving DecidableEq, Repr

def step (s : AdaptiveBitrate) : Input → AdaptiveBitrate
  | .networkStats packetLossPct rttMs now => s.updateNetworkStats packetLossPct rttMs now
  | .streamHealth sample now => s.updateStreamHealth sample now
  | .reset => s.reset

def start (cfg : Config) : AdaptiveBitrate := { cfg }

/-! ## What is expected -/

structure InBounds (s : AdaptiveBitrate) : Prop where
  positive : 0 < s.currentScale
  le_one : s.currentScale ≤ 1
  target : ∀ base, 0 < base → s.cfg.minBitrate ≤ s.getTargetBitrate base ∧
    s.getTargetBitrate base ≤ max s.cfg.minBitrate (min base s.cfg.maxBitrate)

/-- None of the thresholds is passed. -/
structure HealthSample.Healthy (sample : HealthSample) : Prop where
  fps : 88 / 100 ≤ sample.fpsRatio
  encode : sample.encodeTimeMs ≤ 11
  dropped : sample.droppedFrameRatio ≤ 5 / 100

/-- A report without loss, and a health sample after the interval. -/
def round (rttMs : ℚ) (sample : HealthSample) (now interval : ℤ) (s : AdaptiveBitrate) : AdaptiveBitrate :=
  (s.updateNetworkStats 0 rttMs now).updateStreamHealth sample (now + interval)

/-- The inputs arrive one interval after the other, from the time `now`. -/
def afterRounds (rttMs : ℚ) (samples : ℕ → HealthSample) (now interval : ℤ) (s : AdaptiveBitrate) :
    ℕ → AdaptiveBitrate
  | 0 => s
  | n + 1 => round rttMs (samples n) (now + 2 * n * interval) interval (afterRounds rttMs samples now interval s n)

/-- From some round on the scale is 1. -/
def Recovers (rttMs : ℚ) (samples : ℕ → HealthSample) (now interval : ℤ) (s : AdaptiveBitrate) : Prop :=
  ∃ n, ∀ m, n ≤ m → (afterRounds rttMs samples now interval s m).currentScale = 1

/-- No loss is left in the average; or the scale is 1, the loss average is no more than one percent after the next
report, and the round-trip time is no spike. -/
def Recoverable (rttMs : ℚ) (s : AdaptiveBitrate) : Prop :=
  s.ewmaLoss = 0 ∨
    s.currentScale = 1 ∧ (1 - ewmaAlpha) * s.ewmaLoss ≤ 1 ∧
      max rttMs 0 ≤ 2 * (ewmaAlpha * max rttMs 0 + (1 - ewmaAlpha) * s.ewmaRtt)

end Sunshine.Bitrate
