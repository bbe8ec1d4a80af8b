import Sunshine.Lib.Doubles
import Sunshine.Lib.Transitions

/-! The capture loop over the Desktop Duplication API, which paces its frames in groups: from the first frame of a group on,
each one is asked for a whole number of frame periods later.

`frames_paced_iff` says which settings and iterations keep the rate. -/
namespace Sunshine.FramePacing
open Doubles Transitions
set_option autoImplicit false

/-! ## The capture rate -/

/-- `DXGI_RATIONAL`, with terms of 32 bits. -/
structure Rational where
  numerator : ℕ
  denominator : ℕ
  deriving DecidableEq

/-- A division traps where the divisor is 0. -/
def divide (a b : ℕ) : Option ℕ := if b = 0 then none else some (a / b)

def modulo (a b : ℕ) : Option ℕ := if b = 0 then none else some (a % b)

/-- `display_refresh_rate_rounded`. -/
def rounded (refreshRate : Rational) : ℕ := lround (double (refreshRate.numerator / refreshRate.denominator))

/-- A strict rate of the client has a numerator that is not 0, and the display has at least 1 Hz. -/
structure Settings where
  clientFrameRate : ℕ
  clientFrameRateStrict : Rational
  displayRefreshRate : Rational
  client_pos : 0 < clientFrameRate
  strict_pos : 0 < clientFrameRateStrict.numerator → 0 < clientFrameRateStrict.denominator
  strict_small : clientFrameRateStrict.numerator < 2 ^ 32
  display_pos : 0 < displayRefreshRate.denominator
  display_fast : displayRefreshRate.denominator ≤ displayRefreshRate.numerator
  client_small : clientFrameRate < 2 ^ 31
  display_small : displayRefreshRate.numerator < 2 ^ 32
  rounded_small : rounded displayRefreshRate < 2 ^ 31
  multiple_small : displayRefreshRate.numerator * (clientFrameRate / rounded displayRefreshRate) < 2 ^ 32
  fraction_small : displayRefreshRate.denominator * (rounded displayRefreshRate / clientFrameRate) < 2 ^ 32

section Rate
variable (settings : Settings)

/-- The refresh rate, by the factor between the two rates where one divides the other. -/
def candidate : Option Rational :=
  (modulo settings.clientFrameRate (rounded settings.displayRefreshRate)).bind fun rest =>
    if rest = 0 then
      (divide settings.clientFrameRate (rounded settings.displayRefreshRate)).map fun factor =>
        ⟨settings.displayRefreshRate.numerator * factor % 2 ^ 32, settings.displayRefreshRate.denominator⟩
    else
      (modulo (rounded settings.displayRefreshRate) settings.clientFrameRate).bind fun rest =>
        if rest = 0 then
          (divide (rounded settings.displayRefreshRate) settings.clientFrameRate).map fun factor =>
            ⟨settings.displayRefreshRate.numerator, settings.displayRefreshRate.denominator * factor % 2 ^ 32⟩
        else some settings.displayRefreshRate

/-- The comparisons of doubles: the candidate's rate is below the client's, and above 0.99 of it. -/
def CloseBelow (client : ℕ) (candidate : Rational) : Prop :=
  double (candidate.numerator / candidate.denominator) < client ∧
    double (99 / 100) < double (double (candidate.numerator / candidate.denominator) / client)

instance (client : ℕ) (candidate : Rational) : Decidable (CloseBelow client candidate) :=
  inferInstanceAs (Decidable (_ ∧ _))

def adjustClientFrameRate : Option Rational :=
  if 0 < settings.clientFrameRateStrict.numerator then some settings.clientFrameRateStrict
  else if 1 < settings.displayRefreshRate.denominator then
    (candidate settings).map fun candidate =>
      if CloseBelow settings.clientFrameRate candidate then candidate else ⟨settings.clientFrameRate, 1⟩
  else some ⟨settings.clientFrameRate, 1⟩

/-- A multiple or an integer fraction. -/
def Scaled (refreshRate rate : Rational) : Prop := ∃ factor, 0 < factor ∧
  (rate = ⟨refreshRate.numerator * factor, refreshRate.denominator⟩ ∨
    rate = ⟨refreshRate.numerator, refreshRate.denominator * factor⟩)

def clientRate : Rational :=
  if 0 < settings.clientFrameRateStrict.numerator then settings.clientFrameRateStrict else ⟨settings.clientFrameRate, 1⟩

/-- The client's rate, or a scaled refresh rate that is below it by less than 1 %. -/
def ChosenWell (rate : Rational) : Prop := rate = clientRate settings ∨ Scaled settings.displayRefreshRate rate ∧
  rate.numerator < settings.clientFrameRate * rate.denominator ∧
  99 * (settings.clientFrameRate * rate.denominator) < 100 * rate.numerator

/-- No candidate is taken that is below the client's rate by 1 % exactly. -/
def OffEdge : Prop := settings.clientFrameRateStrict.numerator = 0 → 1 < settings.displayRefreshRate.denominator →
  ∀ rate, candidate settings = some rate → CloseBelow settings.clientFrameRate rate →
    99 * (settings.clientFrameRate * rate.denominator) ≠ 100 * rate.numerator

end Rate

/-! ## The loop -/

structure Image where
  id : ℕ
  frameTimestamp : Option ℤ
  deriving DecidableEq

inductive Failure where
  | reinit
  | error
  | interrupted
  deriving DecidableEq

/-- What `snapshot` comes to, with the image that it has set. -/
inductive Snapshot where
  | ok (image : Option Image)
  | timeout
  | failed (failure : Failure)
  deriving DecidableEq

def Snapshot.image? : Snapshot → Option Image
  | .ok image => image
  | _ => none

inductive Status where
  | ok
  | timeout
  | failed (failure : Failure)
  deriving DecidableEq

/-- The start of a group, and its images. -/
structure Group where
  start : ℤ
  images : ℕ

/-- `frame_pacing_group_frames` has 32 bits. -/
def Group.frames (group : Group) : ℕ := group.images % 2 ^ 32

/-- What an iteration meets: whether the factory is current, the clock when the sleep period is computed, by how much the
timer is late, the outcomes of the snapshot at the target and of the one that waits, the clock where an image has no timestamp, what
the callback returns, and what the release of the snapshot comes to. -/
structure Iteration where
  current : Bool
  now : ℤ
  late : ℕ
  paced : Snapshot
  fresh : Snapshot
  clock : ℤ
  pushed : Bool
  released : Status

def second : ℤ := 1000000000

section Iterate
variable (rate : Rational)

def sleepTarget (group : Group) : Option ℤ :=
  (divide (group.frames * rate.denominator) rate.numerator).bind fun seconds =>
    (modulo (group.frames * rate.denominator) rate.numerator).bind fun remainder =>
      (divide (1000000000 * (remainder % 2 ^ 32)) rate.numerator).map fun part : ℕ =>
        group.start + second * (seconds % 2 ^ 32 : ℕ) + (part : ℤ)

/-- How long `sleep_for` takes: a period of more than 5 s is refused, and another one is cut to multiples of 100 ns. -/
def sleepFor (period : ℤ) (late : ℕ) : ℤ := if 5 * second < period then late else period / 100 * 100 + late

/-- The capture up to a place: the group, the status, `img_out`, the time of the request at the target, and the snapshots
that were taken. -/
structure Capture where
  group : Option Group
  status : Status
  image : Option Image
  request : Option ℤ
  snapshots : List Snapshot

/-- The snapshot at the target. -/
def takePaced (group : Group) (time : ℤ) (paced : Snapshot) : Capture :=
  match paced with
  | .ok (some image) => ⟨some ⟨group.start, group.images + 1⟩, .ok, some image, some time, [paced]⟩
  | .ok none => ⟨none, .ok, none, some time, [paced]⟩
  | .timeout => ⟨none, .timeout, none, some time, [paced]⟩
  | .failed failure => ⟨none, .failed failure, none, some time, [paced]⟩

/-- The group goes on, if its next time has not been missed. -/
def continueGroup (group : Option Group) (iteration : Iteration) : Option Capture :=
  match group with
  | none => some ⟨none, .ok, none, none, []⟩
  | some group => (sleepTarget rate group).map fun target =>
    if target - iteration.now ≤ 0 then ⟨none, .timeout, none, none, []⟩
    else takePaced group (iteration.now + sleepFor (target - iteration.now) iteration.late) iteration.paced

/-- A new group starts, if necessary. -/
def startGroup (iteration : Iteration) (capture : Capture) : Capture :=
  if capture.status = .timeout ∨ capture.status = .ok ∧ capture.group.isNone then
    match iteration.fresh with
    | .ok (some image) =>
      ⟨some ⟨image.frameTimestamp.getD iteration.clock, 1⟩, .ok, some image, capture.request,
        capture.snapshots ++ [iteration.fresh]⟩
    | .ok none => ⟨capture.group, .ok, capture.image, capture.request, capture.snapshots ++ [iteration.fresh]⟩
    | .timeout => ⟨capture.group, .timeout, capture.image, capture.request, capture.snapshots ++ [iteration.fresh]⟩
    | .failed failure => ⟨capture.group, .failed failure, capture.image, capture.request, capture.snapshots ++ [iteration.fresh]⟩
  else capture

/-- The calls of `push_captured_image_cb`, and the status that the loop is left with. -/
structure Outcome where
  capture : Capture
  pushes : List (Option Image × Bool)
  left : Option Status

def pushImage (iteration : Iteration) (capture : Capture) (captured : Bool) : Outcome :=
  ⟨capture, [(capture.image, captured)],
    if iteration.pushed = false then some .ok
    else if iteration.released = .ok then none
    else some iteration.released⟩

def push (iteration : Iteration) (capture : Capture) : Outcome :=
  match capture.status with
  | .failed failure => ⟨capture, [], some (.failed failure)⟩
  | .timeout => pushImage iteration capture false
  | .ok => pushImage iteration capture true

/-- One iteration; none where a division traps. -/
def iterate (group : Option Group) (iteration : Iteration) : Option Outcome :=
  if iteration.current then
    (continueGroup rate group iteration).map fun capture => push iteration (startGroup iteration capture)
  else some ⟨⟨group, .ok, none, none, []⟩, [], some (.failed .reinit)⟩

structure Loop where
  group : Option Group
  left : Bool

def start : Loop := ⟨none, false⟩

/-- What comes after the loop was left has no effect. -/
def next (loop : Loop) (iteration : Iteration) : Loop :=
  if loop.left then loop
  else match iterate rate loop.group iteration with
    | some outcome => ⟨outcome.capture.group, outcome.left.isSome⟩
    | none => ⟨loop.group, true⟩

/-- The time of the next frame: the group's start and a period for each of its images, rounded down. -/
def due (group : Group) : ℤ := group.start + (group.images * rate.denominator * 1000000000 / rate.numerator : ℕ)

/-! ## What is to hold -/

/-- No division traps, the target is the due time, no frame is requested before, and there is one push, of the image that a
snapshot has delivered. -/
structure Kept (loop : Loop) (iteration : Iteration) : Prop where
  divides : loop.left = false → (iterate rate loop.group iteration).isSome = true
  target : loop.left = false → ∀ group, loop.group = some group → group.images < 2 ^ 32 →
    sleepTarget rate group = some (due rate group)
  request : loop.left = false → ∀ group outcome, loop.group = some group → group.images < 2 ^ 32 →
    iterate rate loop.group iteration = some outcome → ∀ time, outcome.capture.request = some time → due rate group ≤ time
  pushed : loop.left = false → ∀ outcome, iterate rate loop.group iteration = some outcome →
    (outcome.left = none → outcome.pushes.length = 1) ∧ ∀ image ∈ outcome.pushes,
      image.1 = outcome.capture.snapshots.findSome? Snapshot.image? ∧ image.2 = image.1.isSome

/-- The capture rate is well chosen, and every iteration keeps to it. -/
def FramesPaced (settings : Settings) (iterations : List Iteration) : Prop :=
  ∃ rate, adjustClientFrameRate settings = some rate ∧ ChosenWell settings rate ∧
    Runs (Kept rate) (next rate) start iterations

/-- `sleep_for` takes the period: it is not refused, and the timer makes up for what is cut off. -/
def Slept (period : ℤ) (late : ℕ) : Prop := if 5 * second < period then period ≤ late else period % 100 ≤ late

/-- The iteration comes to the snapshot that waits. -/
def TakesFresh (group : Option Group) (iteration : Iteration) : Prop :=
  match group with
  | none => True
  | some group => (∀ target, sleepTarget rate group = some target → target ≤ iteration.now) ∨
    iteration.paced = .timeout ∨ iteration.paced = .ok none

/-- The next frame is due less than 2^32 s behind the group's start, a wait for it is slept, and the snapshot that waits is not
successful without an image. -/
structure Timely (loop : Loop) (iteration : Iteration) : Prop where
  near : loop.left = false → ∀ group, loop.group = some group → group.images < 2 ^ 32 →
    group.images * rate.denominator < 2 ^ 32 * rate.numerator
  slept : loop.left = false → iteration.current = true → ∀ group, loop.group = some group → group.images < 2 ^ 32 →
    iteration.now < due rate group → Slept (due rate group - iteration.now) iteration.late
  image : loop.left = false → iteration.current = true → TakesFresh rate loop.group iteration → iteration.fresh ≠ .ok none

end Iterate

/-! ## Targets -/

section Steps
variable {rate : Rational} {group : Group} {loop : Loop} {iteration : Iteration} {capture : Capture} {outcome : Outcome}

theorem divide_pos {a b : ℕ} (hb : 0 < b) : divide a b = some (a / b) := if_neg hb.ne'

theorem modulo_pos {a b : ℕ} (hb : 0 < b) : modulo a b = some (a % b) := if_neg hb.ne'

theorem sleepTarget_some (hpos : 0 < rate.numerator) (hsmall : rate.numerator < 2 ^ 32) (group : Group) :
    sleepTarget rate group = some (group.start +
      second * (group.frames * rate.denominator / rate.numerator % 2 ^ 32 : ℕ) +
      (1000000000 * (group.frames * rate.denominator % rate.numerator) / rate.numerator : ℕ)) := by
  have hremainder : group.frames * rate.denominator % rate.numerator % 2 ^ 32 =
      group.frames * rate.denominator % rate.numerator :=
    Nat.mod_eq_of_lt ((Nat.mod_lt _ hpos).trans hsmall)
  unfold sleepTarget
  rw [divide_pos hpos, modulo_pos hpos, Option.bind_some, Option.bind_some, hremainder, divide_pos hpos, Option.map_some]

/-- Whole seconds and the rest make up the time. -/
theorem seconds_add_rest (n : ℕ) (hpos : 0 < rate.numerator) : n * 1000000000 / rate.numerator =
    1000000000 * (n / rate.numerator) + 1000000000 * (n % rate.numerator) / rate.numerator := by
  have hsplit : n * 1000000000 =
      1000000000 * (n % rate.numerator) + rate.numerator * (1000000000 * (n / rate.numerator)) := by
    calc n * 1000000000 = (n % rate.numerator + rate.numerator * (n / rate.numerator)) * 1000000000 := by
          rw [Nat.mod_add_div]
      _ = 1000000000 * (n % rate.numerator) + rate.numerator * (1000000000 * (n / rate.numerator)) := by ring
  rw [hsplit, Nat.add_mul_div_left _ _ hpos, Nat.add_comm]

/-- The target is the due time exactly if that is less than 2^32 s away. -/
theorem sleepTarget_eq_due_iff (hpos : 0 < rate.numerator) (hsmall : rate.numerator < 2 ^ 32)
    (himages : group.images < 2 ^ 32) : sleepTarget rate group = some (due rate group) ↔
      group.images * rate.denominator < 2 ^ 32 * rate.numerator := by
  have hframes : group.frames = group.images := Nat.mod_eq_of_lt himages
  rw [sleepTarget_some hpos hsmall, hframes, due, seconds_add_rest _ hpos, ← Nat.div_lt_iff_lt_mul hpos, second]
  generalize group.images * rate.denominator / rate.numerator = seconds
  generalize 1000000000 * (group.images * rate.denominator % rate.numerator) / rate.numerator = rest
  rw [Option.some_inj]
  push_cast
  omega

theorem le_sleepFor_iff {period : ℤ} {late : ℕ} : period ≤ sleepFor period late ↔ Slept period late := by
  unfold sleepFor Slept
  split_ifs
  · rfl
  · omega

/-! ## An iteration -/

theorem continueGroup_isSome (hpos : 0 < rate.numerator) (hsmall : rate.numerator < 2 ^ 32) (group : Option Group)
    (iteration : Iteration) : ∃ capture, continueGroup rate group iteration = some capture := by
  cases group with
  | none => exact ⟨_, rfl⟩
  | some group =>
    rw [continueGroup, sleepTarget_some hpos hsmall]
    exact ⟨_, rfl⟩

theorem iterate_isSome (hpos : 0 < rate.numerator) (hsmall : rate.numerator < 2 ^ 32) (group : Option Group)
    (iteration : Iteration) : (iterate rate group iteration).isSome = true := by
  obtain ⟨capture, hcapture⟩ := continueGroup_isSome hpos hsmall group iteration
  unfold iterate
  rw [hcapture]
  split_ifs
  · rfl
  · rfl

/-- An iteration that goes on has captured what it pushes. -/
theorem iterate_some (hcurrent : iteration.current = true) {group : Option Group}
    (h : iterate rate group iteration = some outcome) :
    ∃ capture, continueGroup rate group iteration = some capture ∧ outcome = push iteration (startGroup iteration capture) := by
  rw [iterate, if_pos hcurrent] at h
  obtain ⟨capture, hcapture, heq⟩ := Option.map_eq_some_iff.mp h
  exact ⟨capture, hcapture, heq.symm⟩

theorem iterate_stale (hcurrent : iteration.current = false) (group : Option Group) : iterate rate group iteration =
    some ⟨⟨group, .ok, none, none, []⟩, [], some (.failed .reinit)⟩ := by
  rw [iterate, hcurrent]
  rfl

theorem push_capture : (push iteration capture).capture = capture := by
  unfold push
  cases capture.status with
  | ok => rfl
  | timeout => rfl
  | failed failure => rfl

theorem startGroup_request : (startGroup iteration capture).request = capture.request := by
  unfold startGroup
  split_ifs
  · cases iteration.fresh with
    | ok image => cases image <;> rfl
    | timeout => rfl
    | failed failure => rfl
  · rfl

theorem takePaced_request (time : ℤ) (paced : Snapshot) : (takePaced group time paced).request = some time := by
  cases paced with
  | ok image => cases image <;> rfl
  | timeout => rfl
  | failed failure => rfl

/-- When the next frame of the group is requested. -/
theorem request_some_iff {target : ℤ} (htarget : sleepTarget rate group = some target)
    (h : iterate rate (some group) iteration = some outcome) {time : ℤ} : outcome.capture.request = some time ↔
      iteration.current = true ∧ iteration.now < target ∧
        iteration.now + sleepFor (target - iteration.now) iteration.late = time := by
  cases hcurrent : iteration.current with
  | false =>
    rw [iterate_stale hcurrent] at h
    rw [← Option.some.inj h]
    exact iff_of_false (fun hnone => Option.noConfusion rfl (heq_of_eq hnone)) fun hall => Bool.false_ne_true hall.1
  | true =>
    obtain ⟨capture, hcapture, rfl⟩ := iterate_some hcurrent h
    rw [push_capture, startGroup_request]
    rw [continueGroup, htarget, Option.map_some, Option.some_inj] at hcapture
    split_ifs at hcapture with hmissed
    · rw [← hcapture]
      exact iff_of_false (fun hnone => Option.noConfusion rfl (heq_of_eq hnone)) fun hall => by
        have hlt := hall.2.1
        omega
    · rw [← hcapture, takePaced_request, Option.some_inj]
      exact ⟨fun heq => ⟨rfl, by omega, heq⟩, fun hall => hall.2.2⟩

/-- A frame is requested when it is due exactly if the wait for it is slept. -/
theorem request_iff (htarget : sleepTarget rate group = some (due rate group))
    (h : iterate rate (some group) iteration = some outcome) :
    (∀ time, outcome.capture.request = some time → due rate group ≤ time) ↔
      (iteration.current = true → iteration.now < due rate group →
        Slept (due rate group - iteration.now) iteration.late) := by
  constructor
  · intro hall hcurrent hnow
    have hle := hall _ ((request_some_iff htarget h).mpr ⟨hcurrent, hnow, rfl⟩)
    exact le_sleepFor_iff.mp (by omega)
  · intro hslept time htime
    obtain ⟨hcurrent, hnow, rfl⟩ := (request_some_iff htarget h).mp htime
    have hle := le_sleepFor_iff.mpr (hslept hcurrent hnow)
    omega

/-! ## Pushes -/

/-- The image is the one that was delivered, and comes where the status is ok and there is a group. -/
structure Delivered (capture : Capture) : Prop where
  image : capture.image = capture.snapshots.findSome? Snapshot.image?
  ok : capture.status = .ok → capture.image.isSome = capture.group.isSome
  timeout : capture.status = .timeout → capture.image = none

theorem delivered_takePaced (time : ℤ) (paced : Snapshot) : Delivered (takePaced group time paced) := by
  cases paced with
  | ok image =>
    cases image with
    | none => exact ⟨rfl, fun _ => rfl, fun _ => rfl⟩
    | some image => exact ⟨rfl, fun _ => rfl, fun h => Status.noConfusion h⟩
  | timeout => exact ⟨rfl, fun h => Status.noConfusion h, fun _ => rfl⟩
  | failed failure => exact ⟨rfl, fun h => Status.noConfusion h, fun h => Status.noConfusion h⟩

theorem delivered_continueGroup {group : Option Group} (h : continueGroup rate group iteration = some capture) :
    Delivered capture := by
  cases group with
  | none =>
    obtain rfl := Option.some.inj h
    exact ⟨rfl, fun _ => rfl, fun _ => rfl⟩
  | some group =>
    obtain ⟨target, -, heq⟩ := Option.map_eq_some_iff.mp h
    split_ifs at heq with hmissed
    · rw [← heq]
      exact ⟨rfl, fun hstatus => Status.noConfusion hstatus, fun _ => rfl⟩
    · rw [← heq]
      exact delivered_takePaced _ _

abbrev Capture.Undecided (capture : Capture) : Prop :=
  capture.status = .timeout ∨ capture.status = .ok ∧ capture.group.isNone

theorem undecided_iff {group : Option Group} (h : continueGroup rate group iteration = some capture) :
    capture.Undecided ↔ TakesFresh rate group iteration := by
  cases group with
  | none =>
    obtain rfl := Option.some.inj h
    exact iff_of_true (.inr ⟨rfl, rfl⟩) trivial
  | some group =>
    obtain ⟨target, htarget, heq⟩ := Option.map_eq_some_iff.mp h
    have hmissed : (∀ target, sleepTarget rate group = some target → target ≤ iteration.now) ↔ target ≤ iteration.now :=
      ⟨fun hall => hall target htarget, fun hle target' htarget' => by
        rw [htarget] at htarget'
        rw [← Option.some.inj htarget']
        exact hle⟩
    unfold TakesFresh
    dsimp only
    rw [hmissed]
    split_ifs at heq with hle
    · rw [← heq]
      exact iff_of_true (.inl rfl) (.inl (by omega))
    · rw [← heq, or_iff_right (by omega)]
      cases iteration.paced with
      | ok image => cases image <;> simp [takePaced, Capture.Undecided]
      | timeout => exact iff_of_true (.inl rfl) (.inl rfl)
      | failed failure => simp [takePaced, Capture.Undecided]

theorem Delivered.image_none (h : Delivered capture) (hundecided : capture.Undecided) : capture.image = none := by
  obtain htimeout | ⟨hok, hgroup⟩ := hundecided
  · exact h.timeout htimeout
  · have hsome := h.ok hok
    rw [Option.isNone_iff_eq_none.mp hgroup] at hsome
    exact Option.isNone_iff_eq_none.mp (by cases himage : capture.image <;> simp_all)

/-- What is pushed is what was delivered, unless the snapshot that waits is successful without an image. -/
theorem pushes_iff (h : Delivered capture) : (∀ image ∈ (push iteration (startGroup iteration capture)).pushes,
    image.1 = (startGroup iteration capture).snapshots.findSome? Snapshot.image? ∧ image.2 = image.1.isSome) ↔
      (capture.Undecided → iteration.fresh ≠ .ok none) := by
  by_cases hundecided : capture.Undecided
  · have hnone := h.image_none hundecided
    have hsnapshots : capture.snapshots.findSome? Snapshot.image? = none := h.image ▸ hnone
    rw [startGroup, if_pos hundecided]
    cases hfresh : iteration.fresh with
    | ok image =>
      cases image with
      | none => simp [push, pushImage, hnone, hundecided]
      | some image => simp [push, pushImage, List.findSome?_append, hsnapshots, Snapshot.image?]
    | timeout => simp [push, pushImage, hnone, List.findSome?_append, hsnapshots, Snapshot.image?]
    | failed failure => simp [push]
  · rw [startGroup, if_neg hundecided]
    refine iff_of_true ?_ fun hyes => absurd hyes hundecided
    unfold push
    cases hstatus : capture.status with
    | ok =>
      have hgroup : capture.group.isSome = true := by
        rw [← Option.not_isNone, Bool.not_eq_true']
        exact Bool.eq_false_iff.mpr fun hisNone => hundecided (.inr ⟨hstatus, hisNone⟩)
      have himage := (h.ok hstatus).trans hgroup
      intro image hmem
      obtain rfl := List.mem_singleton.mp hmem
      exact ⟨h.image, himage.symm⟩
    | timeout => exact absurd (.inl hstatus) hundecided
    | failed failure => exact fun image hmem => absurd hmem List.not_mem_nil

theorem length_pushes (h : (push iteration capture).left = none) : (push iteration capture).pushes.length = 1 := by
  unfold push at h ⊢
  cases hstatus : capture.status with
  | ok => rfl
  | timeout => rfl
  | failed failure =>
    rw [hstatus] at h
    cases h

theorem pushed_iff (hpos : 0 < rate.numerator) (hsmall : rate.numerator < 2 ^ 32) (group : Option Group) :
    (∀ outcome, iterate rate group iteration = some outcome →
      (outcome.left = none → outcome.pushes.length = 1) ∧ ∀ image ∈ outcome.pushes,
        image.1 = outcome.capture.snapshots.findSome? Snapshot.image? ∧ image.2 = image.1.isSome) ↔
      (iteration.current = true → TakesFresh rate group iteration → iteration.fresh ≠ .ok none) := by
  cases hcurrent : iteration.current with
  | false =>
    rw [iterate_stale hcurrent]
    refine iff_of_true (fun outcome heq => ?_) fun h => absurd h Bool.false_ne_true
    rw [← Option.some.inj heq]
    exact ⟨fun h => Option.noConfusion rfl (heq_of_eq h), fun image hmem => absurd hmem List.not_mem_nil⟩
  | true =>
    obtain ⟨capture, hcapture⟩ := continueGroup_isSome hpos hsmall group iteration
    have houtcome : iterate rate group iteration = some (push iteration (startGroup iteration capture)) := by
      rw [iterate, if_pos hcurrent, hcapture]
      rfl
    rw [houtcome, ← undecided_iff hcapture]
    refine Iff.trans ?_ ((pushes_iff (delivered_continueGroup hcapture)).trans (imp_iff_right rfl).symm)
    constructor
    · intro h
      have hpushes := (h _ rfl).2
      rwa [push_capture] at hpushes
    · intro h outcome heq
      rw [← Option.some.inj heq, push_capture]
      exact ⟨length_pushes, h⟩

theorem iteration_kept_iff (hpos : 0 < rate.numerator) (hsmall : rate.numerator < 2 ^ 32) (loop : Loop) (iteration : Iteration) :
    Kept rate loop iteration ↔ Timely rate loop iteration := by
  constructor
  · rintro ⟨-, htarget, hrequest, hpushed⟩
    refine ⟨?_, ?_, ?_⟩
    · exact fun hleft group hgroup himages =>
        (sleepTarget_eq_due_iff hpos hsmall himages).mp (htarget hleft group hgroup himages)
    · intro hleft hcurrent group hgroup himages
      obtain ⟨outcome, houtcome⟩ := Option.isSome_iff_exists.mp (iterate_isSome hpos hsmall (some group) iteration)
      refine (request_iff (htarget hleft group hgroup himages) houtcome).mp (fun time => ?_) hcurrent
      exact hrequest hleft group outcome hgroup himages (hgroup ▸ houtcome) time
    · exact fun hleft => (pushed_iff hpos hsmall loop.group).mp (hpushed hleft)
  · rintro ⟨hnear, hslept, himage⟩
    have htarget : loop.left = false → ∀ group, loop.group = some group → group.images < 2 ^ 32 →
        sleepTarget rate group = some (due rate group) := fun hleft group hgroup himages =>
      (sleepTarget_eq_due_iff hpos hsmall himages).mpr (hnear hleft group hgroup himages)
    refine ⟨fun _ => iterate_isSome hpos hsmall loop.group iteration, htarget, ?_, ?_⟩
    · intro hleft group outcome hgroup himages houtcome
      rw [hgroup] at houtcome
      exact (request_iff (htarget hleft group hgroup himages) houtcome).mpr
        fun hcurrent hnow => hslept hleft hcurrent group hgroup himages hnow
    · exact fun hleft => (pushed_iff hpos hsmall loop.group).mpr (himage hleft)

end Steps

/-! ## The rate that is chosen -/

section Chosen
variable {settings : Settings} {rate : Rational}

theorem rounded_pos (settings : Settings) : 0 < rounded settings.displayRefreshRate := by
  have hden : (0 : ℚ) < settings.displayRefreshRate.denominator := Nat.cast_pos.mpr settings.display_pos
  have hone : (1 : ℚ) ≤ settings.displayRefreshRate.numerator / settings.displayRefreshRate.denominator :=
    (one_le_div hden).mpr (Nat.cast_le.mpr settings.display_fast)
  have hrounded := le_double (zero_lt_one.trans_le hone)
  refine Nat.floor_pos.mpr ?_
  linarith only [hone, hrounded]

/-- A rate whose numerator fits and whose terms are not 0. -/
structure Usable (rate : Rational) : Prop where
  numerator_pos : 0 < rate.numerator
  numerator_small : rate.numerator < 2 ^ 32
  denominator_pos : 0 < rate.denominator

/-- The candidate is computed without a trap and without overflow. -/
theorem candidate_scaled (settings : Settings) :
    ∃ rate, candidate settings = some rate ∧ Scaled settings.displayRefreshRate rate ∧ Usable rate := by
  have hrounded := rounded_pos settings
  have hclient := settings.client_pos
  have hnumerator : 0 < settings.displayRefreshRate.numerator := settings.display_pos.trans_le settings.display_fast
  unfold candidate
  rw [modulo_pos hrounded, modulo_pos hclient, divide_pos hrounded, divide_pos hclient]
  simp only [Option.bind_some, Option.map_some]
  split_ifs with hmultiple hfraction
  · have hfactor : 0 < settings.clientFrameRate / rounded settings.displayRefreshRate :=
      Nat.div_pos (Nat.le_of_dvd hclient (Nat.dvd_of_mod_eq_zero hmultiple)) hrounded
    rw [Nat.mod_eq_of_lt settings.multiple_small]
    exact ⟨_, rfl, ⟨_, hfactor, .inl rfl⟩, Nat.mul_pos hnumerator hfactor, settings.multiple_small, settings.display_pos⟩
  · have hfactor : 0 < rounded settings.displayRefreshRate / settings.clientFrameRate :=
      Nat.div_pos (Nat.le_of_dvd hrounded (Nat.dvd_of_mod_eq_zero hfraction)) hclient
    rw [Nat.mod_eq_of_lt settings.fraction_small]
    exact ⟨_, rfl, ⟨_, hfactor, .inr rfl⟩, hnumerator, settings.display_small, Nat.mul_pos settings.display_pos hfactor⟩
  · refine ⟨_, rfl, ⟨1, Nat.one_pos, .inl ?_⟩, hnumerator, settings.display_small, settings.display_pos⟩
    rw [Nat.mul_one]

/-- What the comparisons of doubles say of the exact rates. -/
theorem CloseBelow.exact {client : ℕ} (h : CloseBelow client rate) (hclient : 0 < client) (hsmall : client < 2 ^ 31)
    (husable : Usable rate) : rate.numerator < client * rate.denominator ∧
      99 * (client * rate.denominator) ≤ 100 * rate.numerator := by
  have hbelow : rate.numerator < client * rate.denominator :=
    lt_of_double_lt husable.numerator_pos husable.denominator_pos (husable.numerator_small.trans (by norm_num))
      (hsmall.trans (by norm_num)) h.1
  refine ⟨hbelow, ?_⟩
  by_contra hfar
  have hnumerator := husable.numerator_small
  have hle := @double_div_le _ _ _ 99 100 husable.numerator_pos husable.denominator_pos hclient (by norm_num) (by norm_num)
    (by omega) (not_le.mp hfar)
  exact absurd h.2 (not_lt.mpr (by exact_mod_cast hle))

theorem chosenWell_client (settings : Settings) : ChosenWell settings (clientRate settings) := .inl rfl

/-- A candidate is well chosen exactly if it is off the edge. -/
theorem chosenWell_candidate_iff (hstrict : settings.clientFrameRateStrict.numerator = 0)
    (hden : 1 < settings.displayRefreshRate.denominator) (hcandidate : candidate settings = some rate)
    (hscaled : Scaled settings.displayRefreshRate rate) (husable : Usable rate)
    (hclose : CloseBelow settings.clientFrameRate rate) : ChosenWell settings rate ↔ OffEdge settings := by
  obtain ⟨hbelow, hnear⟩ := hclose.exact settings.client_pos settings.client_small husable
  have hclient : clientRate settings = ⟨settings.clientFrameRate, 1⟩ := if_neg (by omega)
  constructor
  · rintro (heq | ⟨-, -, hlt⟩) - - rate' hrate' -
    · rw [heq, hclient] at hbelow
      exact absurd hbelow (by simp)
    · rw [hcandidate] at hrate'
      obtain rfl := Option.some.inj hrate'
      exact hlt.ne
  · intro hoff
    exact .inr ⟨hscaled, hbelow, lt_of_le_of_ne hnear (hoff hstrict hden rate hcandidate hclose)⟩

/-- A rate is always chosen, and well exactly off the edge. -/
theorem adjust_spec (settings : Settings) : ∃ rate, adjustClientFrameRate settings = some rate ∧ Usable rate ∧
    (ChosenWell settings rate ↔ OffEdge settings) := by
  have hclient : Usable ⟨settings.clientFrameRate, 1⟩ :=
    ⟨settings.client_pos, settings.client_small.trans (by norm_num), Nat.one_pos⟩
  unfold adjustClientFrameRate
  split_ifs with hstrict hden
  · have hrate : clientRate settings = settings.clientFrameRateStrict := if_pos hstrict
    refine ⟨_, rfl, ⟨hstrict, settings.strict_small, settings.strict_pos hstrict⟩, ?_⟩
    exact iff_of_true (hrate ▸ chosenWell_client settings) fun hzero => absurd hzero hstrict.ne'
  · obtain ⟨rate, hcandidate, hscaled, husable⟩ := candidate_scaled settings
    have hzero : settings.clientFrameRateStrict.numerator = 0 := Nat.eq_zero_of_not_pos hstrict
    rw [hcandidate, Option.map_some]
    split_ifs with hclose
    · exact ⟨rate, rfl, husable, chosenWell_candidate_iff hzero hden hcandidate hscaled husable hclose⟩
    · have hrate : clientRate settings = ⟨settings.clientFrameRate, 1⟩ := if_neg hstrict
      refine ⟨_, rfl, hclient, iff_of_true (hrate ▸ chosenWell_client settings) fun _ _ rate' hrate' hclose' => ?_⟩
      rw [hcandidate] at hrate'
      exact absurd (Option.some.inj hrate' ▸ hclose') hclose
  · have hrate : clientRate settings = ⟨settings.clientFrameRate, 1⟩ := if_neg hstrict
    exact ⟨_, rfl, hclient, iff_of_true (hrate ▸ chosenWell_client settings) fun _ hlt => absurd hlt hden⟩

end Chosen

/-- No candidate is taken on the edge, and every iteration is timely. -/
def Timed (settings : Settings) (iterations : List Iteration) : Prop := OffEdge settings ∧
  ∀ rate, adjustClientFrameRate settings = some rate → Runs (Timely rate) (next rate) start iterations

/-- The loop keeps its rate exactly if no candidate is taken on the edge of 1 % and all its iterations are timely. -/
theorem frames_paced_iff (settings : Settings) (iterations : List Iteration) :
    FramesPaced settings iterations ↔ Timed settings iterations := by
  obtain ⟨rate, hrate, husable, hchosen⟩ := adjust_spec settings
  have hkept : Runs (Kept rate) (next rate) start iterations ↔ Runs (Timely rate) (next rate) start iterations :=
    ⟨fun h => h.imp fun loop iteration => (iteration_kept_iff husable.numerator_pos husable.numerator_small loop iteration).mp,
      fun h => h.imp fun loop iteration => (iteration_kept_iff husable.numerator_pos husable.numerator_small loop iteration).mpr⟩
  constructor
  · rintro ⟨rate', hrate', hwell, hruns⟩
    rw [hrate] at hrate'
    obtain rfl := Option.some.inj hrate'
    refine ⟨hchosen.mp hwell, fun rate' hrate' => ?_⟩
    rw [hrate] at hrate'
    obtain rfl := Option.some.inj hrate'
    exact hkept.mp hruns
  · rintro ⟨hoff, hruns⟩
    exact ⟨rate, hrate, hchosen.mpr hoff, hkept.mpr (hruns rate hrate)⟩

/-! ## A film on a slow display -/

section Film

/-- 23.76 Hz, which is 0.99 of 24. -/
def filmRate : Rational := ⟨594, 25⟩

theorem double_filmRate : double (filmRate.numerator / filmRate.denominator) = 6687845446645187 / 2 ^ 48 := by
  have h := @double_eq_of (594 / 25) 4 6687845446645187 (by norm_num) (by norm_num) (by
    rw [abs_lt]
    norm_num)
  norm_num [filmRate] at h ⊢
  exact h

theorem rounded_filmRate : rounded filmRate = 24 := by
  unfold rounded
  rw [double_filmRate]
  refine (Nat.floor_eq_iff (by norm_num)).mpr ⟨by norm_num, by norm_num⟩

theorem closeBelow_filmRate : CloseBelow 24 filmRate := by
  have hquotient := @double_eq_of (6687845446645187 / 2 ^ 48 / 24) (-1) 8917127262193583 (by norm_num) (by norm_num) (by
    rw [abs_lt]
    norm_num)
  have hedge := @double_eq_of (99 / 100) (-1) 8917127262193582 (by norm_num) (by norm_num) (by
    rw [abs_lt]
    norm_num)
  unfold CloseBelow
  rw [double_filmRate, Nat.cast_ofNat, hquotient, hedge]
  norm_num

theorem film_fits : rounded filmRate < 2 ^ 31 ∧ filmRate.numerator * (24 / rounded filmRate) < 2 ^ 32 ∧
    filmRate.denominator * (rounded filmRate / 24) < 2 ^ 32 := by
  rw [rounded_filmRate]
  decide

def film : Settings where
  clientFrameRate := 24
  clientFrameRateStrict := ⟨0, 0⟩
  displayRefreshRate := filmRate
  client_pos := Nat.succ_pos 23
  strict_pos h := absurd h (Nat.lt_irrefl 0)
  strict_small := Nat.two_pow_pos 32
  display_pos := Nat.succ_pos 24
  display_fast := Nat.le_of_ble_eq_true rfl
  client_small := Nat.le_of_ble_eq_true rfl
  display_small := Nat.le_of_ble_eq_true rfl
  rounded_small := film_fits.1
  multiple_small := film_fits.2.1
  fraction_small := film_fits.2.2

/-- The display's rate is taken, although it is below the client's by 1 %. -/
theorem film_on_the_edge : ¬∀ (settings : Settings) (iterations : List Iteration), FramesPaced settings iterations := by
  intro hall
  obtain ⟨rate, hrate, hwell, -⟩ := hall film []
  obtain ⟨rate', hrate', -, hchosen⟩ := adjust_spec film
  rw [hrate] at hrate'
  have hoff := hchosen.mp (Option.some.inj hrate' ▸ hwell)
  have hcandidate : candidate film = some filmRate := by
    unfold candidate
    show (modulo 24 (rounded filmRate)).bind _ = _
    rw [show film.displayRefreshRate = filmRate from rfl, rounded_filmRate]
    rfl
  exact hoff rfl (by decide) filmRate hcandidate closeBelow_filmRate rfl

end Film

end Sunshine.FramePacing
