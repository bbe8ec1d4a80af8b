import Sunshine.Input.Scroll
import Mathlib.Algebra.BigOperators.Ring.List
import Mathlib.Algebra.Order.Ring.Abs
import Mathlib.Tactic.Linarith
import Mathlib.Tactic.Ring

/-! When a scrolled distance may be split: the batching and the accumulators only count its sum, the cast to
pixels keeps no remainder. -/
namespace Sunshine.Scrolling
open Batching (Packet Device Merge SameState step initial batching_preserves)
open Coalesce Remainders
set_option autoImplicit false

/-! ## Batching -/

section Batching

variable {axis : Axis} {p q r : Packet}

/-- The distance of a packet, zero where it is not of the axis. -/
def Axis.distance (axis : Axis) (p : Packet) : ℤ := ((axis.amount p).map Int16.toInt).getD 0

theorem Axis.distance_of_device (h : p.device ≠ axis.device) : axis.distance p = 0 := by
  cases axis <;> cases p <;> first | rfl | exact absurd rfl h

theorem merge_distance (h : Merge p q r) : axis.distance r = axis.distance p + axis.distance q := by
  cases h with
  | relMouseMove => cases axis <;> rfl
  | scroll hsum =>
    cases axis with
    | vertical => exact hsum
    | horizontal => rfl
  | hscroll hsum =>
    cases axis with
    | vertical => rfl
    | horizontal => exact hsum
  | sample hsame => cases hsame <;> cases axis <;> rfl

theorem absorbs_distance {l : List Packet} (h : Absorbs Merge p l r) :
    axis.distance r = axis.distance p + (l.map axis.distance).sum := by
  induction h with
  | nil p => exact (Int.add_zero _).symm
  | cons hmerge _ ih => rw [ih, merge_distance hmerge, List.map_cons, List.sum_cons, Int.add_assoc]

theorem coalesced_sum {queued handled : List Packet} (h : Coalesced Merge queued handled) :
    (handled.map axis.distance).sum = (queued.map axis.distance).sum := by
  induction h with
  | nil => rfl
  | cons habsorbs _ ih =>
    rw [List.map_cons, List.sum_cons, ih, absorbs_distance habsorbs, List.map_cons, List.map_append, List.sum_cons,
      List.sum_append, Int.add_assoc]

/-- What is merged from distances of one sign is of this sign. -/
theorem coalesced_forall {queued handled : List Packet} {good : ℤ → Prop} (h : Coalesced Merge queued handled)
    (hadd : ∀ a b, good a → good b → good (a + b)) (hgood : ∀ p ∈ queued, good (axis.distance p)) :
    ∀ p ∈ handled, good (axis.distance p) := by
  have habsorbed : ∀ {p r : Packet} {l : List Packet}, Absorbs Merge p l r → good (axis.distance p) →
      (∀ p ∈ l, good (axis.distance p)) → good (axis.distance r) := by
    intro p r l habsorbs
    induction habsorbs with
    | nil p => exact fun hp _ => hp
    | cons hmerge _ ih =>
      intro hp hl
      obtain ⟨hq, hl⟩ := List.forall_mem_cons.mp hl
      exact ih (by rw [merge_distance hmerge]; exact hadd _ _ hp hq) hl
  induction h with
  | nil => exact hgood
  | cons habsorbs _ ih =>
    obtain ⟨hp, hrest⟩ := List.forall_mem_cons.mp hgood
    obtain ⟨hl, hq⟩ := List.forall_mem_append.mp hrest
    exact List.forall_mem_cons.mpr ⟨habsorbed habsorbs hp hl, ih hq⟩

theorem sum_amounts (packets : List Packet) :
    ((axis.amounts packets).map Int16.toInt).sum = (packets.map axis.distance).sum := by
  induction packets with
  | nil => rfl
  | cons p packets ih =>
    unfold Axis.amounts at ih ⊢
    rw [List.map_cons, List.sum_cons, ← ih, List.filterMap_cons, Axis.distance]
    cases axis.amount p with
    | none => exact (Int.zero_add _).symm
    | some a => rfl

theorem forall_amounts {packets : List Packet} {good : ℤ → Prop} (hzero : good 0) :
    (∀ a ∈ (axis.amounts packets).map Int16.toInt, good a) ↔ ∀ p ∈ packets, good (axis.distance p) := by
  unfold Axis.amounts Axis.distance
  simp only [List.forall_mem_map, List.mem_filterMap, forall_exists_index, and_imp]
  constructor
  · intro h p hp
    cases hamount : axis.amount p with
    | none => exact hzero
    | some a => exact h a p hp hamount
  · intro h a p hp hamount
    have hgood := h p hp
    rw [hamount] at hgood
    exact hgood

theorem sum_device (packets : List Packet) :
    ((packets.filter (·.device = axis.device)).map axis.distance).sum = (packets.map axis.distance).sum := by
  induction packets with
  | nil => rfl
  | cons p packets ih =>
    by_cases h : p.device = axis.device
    · rw [List.filter_cons_of_pos (by simpa using h), List.map_cons, List.map_cons, List.sum_cons, List.sum_cons, ih]
    · rw [List.filter_cons_of_neg (by simpa using h), List.map_cons, List.sum_cons, Axis.distance_of_device h,
        Int.zero_add, ih]

theorem forall_device {packets : List Packet} {good : ℤ → Prop} (hzero : good 0) :
    (∀ p ∈ packets.filter (·.device = axis.device), good (axis.distance p)) ↔
      ∀ p ∈ packets, good (axis.distance p) := by
  constructor
  · intro h p hp
    by_cases hdevice : p.device = axis.device
    · exact h p (List.mem_filter.mpr ⟨hp, by simpa using hdevice⟩)
    · rw [Axis.distance_of_device hdevice]
      exact hzero
  · exact fun h p hp => h p (List.mem_filter.mp hp).1

theorem Way.coalesced (way : Way) (axis : Axis) : Coalesced Merge
    (way.queued.filter (·.device = axis.device)) (way.handled.filter (·.device = axis.device)) := by
  have hdevices := (batching_preserves way.events).devices axis.device
  rw [way.drained, List.append_nil] at hdevices
  exact hdevices

/-- The queue hands on the distance of a way, in its direction. -/
theorem Way.handled_sum (way : Way) (axis : Axis) :
    ((axis.amounts way.handled).map Int16.toInt).sum = (way.distances axis).sum := by
  unfold Way.distances
  rw [sum_amounts, sum_amounts, ← sum_device way.handled, ← sum_device way.queued, coalesced_sum (way.coalesced axis)]

theorem Way.handled_forall {way : Way} {axis : Axis} {good : ℤ → Prop} (hzero : good 0)
    (hadd : ∀ a b, good a → good b → good (a + b)) (h : ∀ a ∈ way.distances axis, good a) :
    ∀ a ∈ (axis.amounts way.handled).map Int16.toInt, good a := by
  unfold Way.distances at h
  rw [forall_amounts hzero, ← forall_device hzero] at h ⊢
  exact coalesced_forall (way.coalesced axis) hadd h

theorem Way.handled_oneSign {way : Way} {axis : Axis} (h : OneSign (way.distances axis)) :
    OneSign ((axis.amounts way.handled).map Int16.toInt) :=
  h.imp (Way.handled_forall (Int.le_refl 0) fun _ _ => Int.add_nonneg)
    (Way.handled_forall (Int.le_refl 0) fun _ _ => Int.add_nonpos)

end Batching

/-! ## The accumulators -/

section Accumulators

variable {config : Config} {axis : Axis}

/-- A wheel sees the amounts of its own packets. -/
theorem wheel_foldl (packets : List Packet) (s : State) :
    axis.wheel (packets.foldl (passthrough config) s) =
      (axis.amounts packets).foldl (fun w a => passthroughAmount config a w) (axis.wheel s) := by
  induction packets generalizing s with
  | nil => rfl
  | cons p packets ih =>
    rw [List.foldl_cons, ih]
    cases axis <;> cases p <;> rfl

theorem int16_bounds (a : Int16) : -32768 ≤ a.toInt ∧ a.toInt ≤ 32767 :=
  ⟨a.le_toInt, Int.le_of_lt_add_one a.toInt_lt⟩

/-- In high-resolution mode every amount is handed on. -/
theorem foldl_highResolution (hmouse : config.mouse = true) (hhigh : config.highResolutionScrolling = true)
    (amounts : List Int16) (w : Wheel) :
    (amounts.foldl (fun w a => passthroughAmount config a w) w).distances =
      w.distances ++ amounts.map Int16.toInt := by
  induction amounts generalizing w with
  | nil => exact (List.append_nil _).symm
  | cons a amounts ih =>
    rw [List.foldl_cons, ih, passthroughAmount, hmouse, hhigh]
    simp

theorem passthroughAmount_ticks (hmouse : config.mouse = true) (hlow : config.highResolutionScrolling = false)
    (a : Int16) (w : Wheel) : passthroughAmount config a w =
      { accumulated := rest (w.accumulated.value + a.toInt)
        distances := w.distances ++ if (w.accumulated.value + a.toInt).tdiv wheelDelta ≠ 0 then
          [(w.accumulated.value + a.toInt).tdiv wheelDelta * wheelDelta] else [] } := by
  unfold passthroughAmount
  rw [hmouse, hlow]
  rfl

/-- The ticks of one packet are at most 274. -/
theorem ticks_bounds (delta : ScrollDelta) (a : Int16) :
    -274 ≤ (delta.value + a.toInt).tdiv wheelDelta ∧ (delta.value + a.toInt).tdiv wheelDelta ≤ 274 := by
  obtain ⟨hlow, hhigh⟩ := int16_bounds a
  have hdelta : -120 < delta.value ∧ delta.value < 120 := ⟨delta.low, delta.high⟩
  unfold wheelDelta
  rcases Int.le_total 0 (delta.value + a.toInt) with h | h
  · rw [Int.tdiv_eq_ediv_of_nonneg h]
    omega
  · have hneg := Int.neg_tdiv (delta.value + a.toInt) 120
    rw [Int.tdiv_eq_ediv_of_nonneg (by omega)] at hneg
    omega

/-- Otherwise the accumulator carries what the ticks leave. -/
theorem foldl_ticks (hmouse : config.mouse = true) (hlow : config.highResolutionScrolling = false)
    (amounts : List Int16) (w : Wheel) :
    (amounts.foldl (fun w a => passthroughAmount config a w) w).accumulated.value =
      carry wheelDelta w.accumulated.value (amounts.map Int16.toInt) ∧
    ∃ ticks : List ℤ, (amounts.foldl (fun w a => passthroughAmount config a w) w).distances =
        w.distances ++ ticks.map (· * wheelDelta) ∧
      ticks.sum * wheelDelta + (amounts.foldl (fun w a => passthroughAmount config a w) w).accumulated.value =
        w.accumulated.value + (amounts.map Int16.toInt).sum ∧
      ∀ t ∈ ticks, -274 ≤ t ∧ t ≤ 274 := by
  induction amounts generalizing w with
  | nil => exact ⟨rfl, [], by simp⟩
  | cons a amounts ih =>
    rw [List.foldl_cons, passthroughAmount_ticks hmouse hlow]
    obtain ⟨hcarry, ticks, hdistances, hsum, hbounds⟩ := ih
      { accumulated := rest (w.accumulated.value + a.toInt)
        distances := w.distances ++ if (w.accumulated.value + a.toInt).tdiv wheelDelta ≠ 0 then
          [(w.accumulated.value + a.toInt).tdiv wheelDelta * wheelDelta] else [] }
    have hrest : (rest (w.accumulated.value + a.toInt)).value =
        (w.accumulated.value + a.toInt).tmod wheelDelta := by
      rw [Int.tmod_def, Int.mul_comm]
      rfl
    have hdiv := Int.tmod_add_tdiv_mul (w.accumulated.value + a.toInt) wheelDelta
    dsimp only at hcarry hdistances hsum
    rw [hrest] at hcarry hsum
    refine ⟨hcarry, ?_⟩
    by_cases hticks : (w.accumulated.value + a.toInt).tdiv wheelDelta ≠ 0
    · rw [if_pos hticks] at hdistances hsum ⊢
      rw [List.append_assoc] at hdistances
      refine ⟨(w.accumulated.value + a.toInt).tdiv wheelDelta :: ticks, hdistances, ?_,
        List.forall_mem_cons.mpr ⟨ticks_bounds w.accumulated a, hbounds⟩⟩
      rw [List.sum_cons, List.map_cons, List.sum_cons, Int.add_mul]
      omega
    · rw [if_neg hticks, List.append_nil] at hdistances hsum ⊢
      rw [not_not.mp hticks] at hdiv
      refine ⟨ticks, hdistances, ?_, hbounds⟩
      rw [List.map_cons, List.sum_cons]
      omega

end Accumulators

/-! ## Pixels -/

section Pixels

variable {config : Config} {mac : MacosInput} {axis : Axis}

theorem filterMap_sum {post : ℤ → Option (ℤ × ℤ)} {coordinate : ℤ × ℤ → ℤ} {pixels : ℤ → ℤ}
    (hpost : ∀ d, ((post d).map coordinate).getD 0 = pixels d) (distances : List ℤ) :
    ((distances.filterMap post).map coordinate).sum = (distances.map pixels).sum := by
  induction distances with
  | nil => rfl
  | cons d distances ih =>
    rw [List.map_cons, List.sum_cons, ← ih, ← hpost d, List.filterMap_cons]
    cases post d with
    | none => exact (Int.zero_add _).symm
    | some event => rfl

/-- What is not posted has no pixels. -/
theorem pixels_eq (axis : Axis) (mac : MacosInput) (distances : List ℤ) :
    axis.pixels mac distances = (distances.map (scrollPixels mac)).sum := by
  cases axis with
  | vertical =>
    refine filterMap_sum (fun d => ?_) distances
    unfold scroll postScroll
    by_cases h : scrollPixels mac d = 0 ∧ (0 : ℤ) = 0
    · rw [if_pos h, h.1]
      rfl
    · rw [if_neg h]
      rfl
  | horizontal =>
    refine filterMap_sum (fun d => ?_) distances
    unfold hscroll postScroll
    by_cases h : (0 : ℤ) = 0 ∧ scrollPixels mac d = 0
    · rw [if_pos h, h.2]
      rfl
    · rw [if_neg h]
      rfl

/-- A distance whose pixels are a whole number loses none to the division. -/
theorem scrollPixels_eq {d k : ℤ} (h : d * mac.pixelsPerDetent = k * wheelDelta) :
    scrollPixels mac d = k.bmod (2 ^ 32) := by
  unfold scrollPixels
  rw [h, Int.mul_tdiv_cancel _ (by decide)]

theorem mul_bmod_eq {a b : ℤ} (hlow : -2 ^ 31 ≤ a * b.bmod (2 ^ 32)) (hhigh : a * b.bmod (2 ^ 32) < 2 ^ 31) :
    (a * b).bmod (2 ^ 32) = a * b.bmod (2 ^ 32) := by
  rw [← Int.mul_bmod_bmod, Int.bmod_eq_of_le]
  · exact hlow
  · exact hhigh

theorem sum_scrollPixels {f g : ℤ → ℤ} {l : List ℤ} (h : ∀ t ∈ l, scrollPixels mac (f t) = g t) :
    ((l.map f).map (scrollPixels mac)).sum = (l.map g).sum := by
  rw [List.map_map]
  exact congrArg List.sum (List.map_congr_left h)

/-- The pixels of whole ticks are counted by the ticks. -/
theorem pixels_ticks (hkept : 274 * |mac.pixelsPerDetent.bmod (2 ^ 32)| < 2 ^ 31) {ticks : List ℤ}
    (hbounds : ∀ t ∈ ticks, -274 ≤ t ∧ t ≤ 274) :
    axis.pixels mac (ticks.map (· * wheelDelta)) = ticks.sum * mac.pixelsPerDetent.bmod (2 ^ 32) := by
  have htick : ∀ t ∈ ticks, scrollPixels mac (t * wheelDelta) = t * mac.pixelsPerDetent.bmod (2 ^ 32) := by
    intro t ht
    obtain ⟨hlow, hhigh⟩ := hbounds t ht
    have hmul : |t * mac.pixelsPerDetent.bmod (2 ^ 32)| < 2 ^ 31 := by
      rw [abs_mul]
      exact (Int.mul_le_mul_of_nonneg_right (abs_le.mpr ⟨hlow, hhigh⟩) (abs_nonneg _)).trans_lt hkept
    obtain ⟨hmul, hmul'⟩ := abs_lt.mp hmul
    rw [scrollPixels_eq (k := t * mac.pixelsPerDetent) (by ring)]
    exact mul_bmod_eq hmul.le hmul'
  rw [pixels_eq, sum_scrollPixels htick, List.sum_map_mul_right, List.map_id']

/-- Where a unit is a number of pixels, the pixels of the amounts are counted by the amounts. -/
theorem pixels_amounts (hdvd : wheelDelta ∣ mac.pixelsPerDetent)
    (hlow : -65536 < (mac.pixelsPerDetent / wheelDelta).bmod (2 ^ 32))
    (hhigh : (mac.pixelsPerDetent / wheelDelta).bmod (2 ^ 32) ≤ 65536) (amounts : List Int16) :
    axis.pixels mac (amounts.map Int16.toInt) =
      (amounts.map Int16.toInt).sum * (mac.pixelsPerDetent / wheelDelta).bmod (2 ^ 32) := by
  have hamount : ∀ d ∈ amounts.map Int16.toInt,
      scrollPixels mac (id d) = d * (mac.pixelsPerDetent / wheelDelta).bmod (2 ^ 32) := by
    refine List.forall_mem_map.mpr fun a _ => ?_
    obtain ⟨hlow', hhigh'⟩ := int16_bounds a
    have hunit : a.toInt * mac.pixelsPerDetent = a.toInt * (mac.pixelsPerDetent / wheelDelta) * wheelDelta := by
      rw [Int.mul_assoc, Int.ediv_mul_cancel hdvd]
    rw [id, scrollPixels_eq hunit]
    refine mul_bmod_eq ?_ ?_
    · rcases Int.le_total 0 a.toInt with ha | ha
      · nlinarith
      · nlinarith
    · rcases Int.le_total 0 a.toInt with ha | ha
      · nlinarith
      · nlinarith
  have hpixels := sum_scrollPixels hamount
  rw [List.map_id] at hpixels
  rw [pixels_eq, hpixels, List.sum_map_mul_right, List.map_id']

end Pixels

/-! ## Splitting -/

theorem splitIndependent_of_kept {config : Config} {mac : MacosInput} (h : PixelsKept config mac) :
    SplitIndependent config mac := by
  obtain ⟨hmouse, hkept⟩ := h
  intro axis vscroll hscroll first second hfirst hsecond htotal start w₁ w₂
  have hrun : ∀ way : Way, axis.wheel (way.run config vscroll hscroll) =
      (axis.amounts way.handled).foldl (fun w a => passthroughAmount config a w) start :=
    fun way => wheel_foldl way.handled _
  have hempty : start.distances = [] := by
    cases axis <;> rfl
  have h₁ : w₁ = _ := hrun first
  have h₂ : w₂ = _ := hrun second
  cases hhigh : config.highResolutionScrolling with
  | true =>
    rw [hhigh, if_pos rfl] at hkept
    have hd₁ := congrArg Wheel.distances h₁
    have hd₂ := congrArg Wheel.distances h₂
    rw [foldl_highResolution hmouse hhigh, hempty, List.nil_append] at hd₁ hd₂
    rw [hd₁, hd₂, pixels_amounts hkept.1 hkept.2.1 hkept.2.2, pixels_amounts hkept.1 hkept.2.1 hkept.2.2,
      first.handled_sum, second.handled_sum, htotal]
    simp
  | false =>
    rw [hhigh, if_neg Bool.false_ne_true] at hkept
    obtain ⟨hcarry₁, ticks₁, hd₁, hsum₁, hbounds₁⟩ := foldl_ticks hmouse hhigh (axis.amounts first.handled) start
    obtain ⟨hcarry₂, ticks₂, hd₂, hsum₂, hbounds₂⟩ := foldl_ticks hmouse hhigh (axis.amounts second.handled) start
    rw [← h₁] at hcarry₁ hd₁ hsum₁
    rw [← h₂] at hcarry₂ hd₂ hsum₂
    rw [carry_eq (by decide) (Way.handled_oneSign hfirst) start.accumulated.low start.accumulated.high,
      first.handled_sum] at hcarry₁
    rw [carry_eq (by decide) (Way.handled_oneSign hsecond) start.accumulated.low start.accumulated.high,
      second.handled_sum, ← htotal] at hcarry₂
    rw [first.handled_sum] at hsum₁
    rw [second.handled_sum, ← htotal] at hsum₂
    have hticks : ticks₁.sum = ticks₂.sum := by
      unfold wheelDelta at *
      omega
    rw [hempty, List.nil_append] at hd₁ hd₂
    rw [hd₁, hd₂, pixels_ticks hkept hbounds₁, pixels_ticks hkept hbounds₂, List.sum_map_mul_right,
      List.sum_map_mul_right, List.map_id', List.map_id', hticks]
    rw [hticks] at hsum₁
    simp [hsum₁]

/-! ## Packets that are drained one by one -/

section Separately

def scrollEvents (amounts : List Int16) : List Batching.Event :=
  amounts.flatMap fun a => [.passthrough (.scroll ⟨a, a⟩), .drain 1]

theorem foldl_scrollEvents (amounts : List Int16) {s : Batching.State} (hempty : s.inputQueue = []) :
    ((scrollEvents amounts).foldl step s).inputQueue = [] ∧
      ((scrollEvents amounts).foldl step s).queued = s.queued ++ amounts.map (fun a => .scroll ⟨a, a⟩) ∧
      ((scrollEvents amounts).foldl step s).passed.map Batching.Entry.packet =
        s.passed.map Batching.Entry.packet ++ amounts.map (fun a => .scroll ⟨a, a⟩) := by
  induction amounts generalizing s with
  | nil => exact ⟨hempty, (List.append_nil _).symm, (List.append_nil _).symm⟩
  | cons a amounts ih =>
    have hstep : step (step s (.passthrough (.scroll ⟨a, a⟩))) (.drain 1) =
        { queued := s.queued ++ [.scroll ⟨a, a⟩], inputQueue := []
          passed := s.passed ++ [⟨.scroll ⟨a, a⟩, [s.queued.length]⟩] } := by
      unfold step
      rw [hempty]
      rfl
    have hevents : (scrollEvents (a :: amounts)).foldl step s =
      (scrollEvents amounts).foldl step (step (step s (.passthrough (.scroll ⟨a, a⟩))) (.drain 1)) := rfl
    rw [hevents, hstep]
    obtain ⟨hqueue, hqueued, hpassed⟩ := ih (s := { queued := s.queued ++ [.scroll ⟨a, a⟩], inputQueue := []
                                                    passed := s.passed ++ [⟨.scroll ⟨a, a⟩, [s.queued.length]⟩] }) rfl
    refine ⟨hqueue, hqueued.trans ?_, hpassed.trans ?_⟩
    · simp
    · simp

def separately (amounts : List Int16) : Way :=
  ⟨scrollEvents amounts, (foldl_scrollEvents amounts rfl).1⟩

theorem amounts_scroll (amounts : List Int16) :
    Axis.vertical.amounts (amounts.map fun a => .scroll ⟨a, a⟩) = amounts := by
  induction amounts with
  | nil => rfl
  | cons a amounts ih => exact congrArg (a :: ·) ih

theorem separately_distances (amounts : List Int16) :
    (separately amounts).distances .vertical = amounts.map Int16.toInt := by
  have hqueued : (separately amounts).queued = _ := (foldl_scrollEvents amounts rfl).2.1
  rw [Way.distances, hqueued]
  exact congrArg (List.map Int16.toInt) (amounts_scroll amounts)

theorem separately_wheel (config : Config) (vscroll hscroll : ScrollDelta) (amounts : List Int16) :
    Axis.vertical.wheel ((separately amounts).run config vscroll hscroll) =
      amounts.foldl (fun w a => passthroughAmount config a w) ⟨vscroll, []⟩ := by
  have hhandled : (separately amounts).handled = _ := (foldl_scrollEvents amounts rfl).2.2
  unfold Way.run
  rw [wheel_foldl, hhandled]
  exact congrArg (List.foldl _ _) (amounts_scroll amounts)

end Separately

/-! ## Where the split counts -/

section Counts

variable {config : Config} {mac : MacosInput}

/-- Two ways without batching. -/
theorem SplitIndependent.separately (h : SplitIndependent config mac) (delta : ScrollDelta) {l₁ l₂ : List Int16}
    (h₁ : OneSign (l₁.map Int16.toInt)) (h₂ : OneSign (l₂.map Int16.toInt))
    (hsum : (l₁.map Int16.toInt).sum = (l₂.map Int16.toInt).sum) :
    let w₁ := l₁.foldl (fun w a => passthroughAmount config a w) ⟨delta, []⟩
    let w₂ := l₂.foldl (fun w a => passthroughAmount config a w) ⟨delta, []⟩
    (if config.highResolutionScrolling then w₁.distances.sum = (l₁.map Int16.toInt).sum
      else wheelDelta ∣ w₁.distances.sum ∧
        w₁.distances.sum + w₁.accumulated.value = delta.value + (l₁.map Int16.toInt).sum) ∧
      |(w₁.distances.map (scrollPixels mac)).sum - (w₂.distances.map (scrollPixels mac)).sum| ≤ 1 := by
  have hways := h .vertical delta delta (Scrolling.separately l₁) (Scrolling.separately l₂)
    (by rw [separately_distances]; exact h₁) (by rw [separately_distances]; exact h₂)
    (by rw [separately_distances, separately_distances]; exact hsum)
  simp only [separately_distances, separately_wheel, pixels_eq] at hways
  exact hways.2

def ScrollDelta.zero : ScrollDelta := ⟨0, by decide, by decide⟩

theorem SplitIndependent.mouse (h : SplitIndependent config mac) : config.mouse = true := by
  by_contra hmouse
  rw [Bool.not_eq_true] at hmouse
  have hone := (@SplitIndependent.separately _ _ h .zero [1] [1] (.inl (by decide)) (.inl (by decide)) rfl).1
  simp only [List.foldl_cons, List.foldl_nil, passthroughAmount, hmouse] at hone
  cases hhigh : config.highResolutionScrolling with
  | true =>
    rw [hhigh] at hone
    exact absurd hone (by decide)
  | false =>
    rw [hhigh] at hone
    exact absurd hone.2 (by decide)

/-- In high-resolution mode the pixels of the amounts themselves are compared. -/
theorem SplitIndependent.pixels (h : SplitIndependent config mac) (hhigh : config.highResolutionScrolling = true)
    {l₁ l₂ : List Int16} (h₁ : OneSign (l₁.map Int16.toInt)) (h₂ : OneSign (l₂.map Int16.toInt))
    (hsum : (l₁.map Int16.toInt).sum = (l₂.map Int16.toInt).sum) :
    |((l₁.map Int16.toInt).map (scrollPixels mac)).sum - ((l₂.map Int16.toInt).map (scrollPixels mac)).sum| ≤ 1 := by
  have hways := (h.separately .zero h₁ h₂ hsum).2
  rw [foldl_highResolution h.mouse hhigh, foldl_highResolution h.mouse hhigh] at hways
  exact hways

theorem pixelsPerDetent_pos (mac : MacosInput) : 0 < mac.pixelsPerDetent :=
  Int.mul_pos (Int.lt_of_lt_of_le Int.one_pos (Int.le_max_left ..))
    (Int.lt_of_lt_of_le Int.one_pos (Int.le_max_left ..))

theorem oneSign_replicate (n : ℕ) (a : Int16) : OneSign ((List.replicate n a).map Int16.toInt) := by
  rw [List.map_replicate]
  rcases Int.le_total 0 a.toInt with h | h
  · exact .inl fun b hb => (List.eq_of_mem_replicate hb).symm ▸ h
  · exact .inr fun b hb => (List.eq_of_mem_replicate hb).symm ▸ h

/-- One packet against packets of one unit, up or down. -/
theorem SplitIndependent.units (h : SplitIndependent config mac) (hhigh : config.highResolutionScrolling = true)
    (n : ℕ) (a b : Int16) (hsum : a.toInt = n * b.toInt) :
    |scrollPixels mac a.toInt - n * scrollPixels mac b.toInt| ≤ 1 := by
  have hpixels := @SplitIndependent.pixels _ _ h hhigh [a] (List.replicate n b) (oneSign_replicate 1 a)
    (oneSign_replicate n b) (by simpa using hsum)
  simpa using hpixels

/-- A unit that is not a number of pixels: of two detents unit by unit, the remainders are lost. -/
theorem SplitIndependent.dvd (h : SplitIndependent config mac) (hhigh : config.highResolutionScrolling = true) :
    wheelDelta ∣ mac.pixelsPerDetent := by
  have hunits := h.units hhigh 240 240 1 rfl
  have hpos := pixelsPerDetent_pos mac
  have hdetents : scrollPixels mac 240 = (2 * mac.pixelsPerDetent).bmod (2 ^ 32) := by
    refine scrollPixels_eq ?_
    unfold wheelDelta
    ring
  have hunit : scrollPixels mac 1 = (mac.pixelsPerDetent / 120).bmod (2 ^ 32) := by
    unfold scrollPixels wheelDelta
    rw [Int.one_mul, Int.tdiv_eq_ediv_of_nonneg hpos.le]
  have hwhole := Int.bdiv_add_bmod (2 * mac.pixelsPerDetent) (2 ^ 32)
  have hquotient := Int.bdiv_add_bmod (mac.pixelsPerDetent / 120) (2 ^ 32)
  have h240 : (240 : Int16).toInt = 240 := rfl
  have h1 : (1 : Int16).toInt = 1 := rfl
  rw [h240, h1, hdetents, hunit, abs_le] at hunits
  unfold wheelDelta
  omega

theorem SplitIndependent.bounds (h : SplitIndependent config mac) (hhigh : config.highResolutionScrolling = true) :
    -65536 < (mac.pixelsPerDetent / wheelDelta).bmod (2 ^ 32) ∧
      (mac.pixelsPerDetent / wheelDelta).bmod (2 ^ 32) ≤ 65536 := by
  have hunits := h.units hhigh 32768 (-32768) (-1) rfl
  have hdvd := Int.ediv_mul_cancel (h.dvd hhigh)
  have hpacket : scrollPixels mac (-32768) = (-32768 * (mac.pixelsPerDetent / wheelDelta)).bmod (2 ^ 32) :=
    scrollPixels_eq (by rw [Int.mul_assoc, hdvd])
  have hunit : scrollPixels mac (-1) = (-1 * (mac.pixelsPerDetent / wheelDelta)).bmod (2 ^ 32) :=
    scrollPixels_eq (by rw [Int.mul_assoc, hdvd])
  have h32768 : (-32768 : Int16).toInt = -32768 := rfl
  have h1 : (-1 : Int16).toInt = -1 := rfl
  rw [h32768, h1, hpacket, hunit, abs_le] at hunits
  generalize mac.pixelsPerDetent / wheelDelta = unit at hunits ⊢
  have hlow := @Int.le_bmod (-32768 * unit) (2 ^ 32) (by decide)
  have hlt := @Int.bmod_lt (-32768 * unit) (2 ^ 32) (by decide)
  have hpackets := Int.bdiv_add_bmod (-32768 * unit) (2 ^ 32)
  have hneg := Int.bdiv_add_bmod (-1 * unit) (2 ^ 32)
  have hpos := Int.bdiv_add_bmod unit (2 ^ 32)
  have hpos_low := @Int.le_bmod unit (2 ^ 32) (by decide)
  have hpos_lt := @Int.bmod_lt unit (2 ^ 32) (by decide)
  omega

/-- One packet on an accumulator that is almost full makes 274 ticks. -/
theorem foldl_full (hmouse : config.mouse = true) (hlow : config.highResolutionScrolling = false) :
    ([32767].foldl (fun w a => passthroughAmount config a w) ⟨⟨119, by decide, by decide⟩, []⟩).distances =
      [274 * wheelDelta] := by
  rw [List.foldl_cons, List.foldl_nil, passthroughAmount_ticks hmouse hlow]
  rfl

/-- The same distance in packets of a tick. -/
theorem foldl_detents (hmouse : config.mouse = true) (hlow : config.highResolutionScrolling = false) (n : ℕ)
    (distances : List ℤ) :
    ((List.replicate n 120).foldl (fun w a => passthroughAmount config a w)
      ⟨⟨119, by decide, by decide⟩, distances⟩) =
        ⟨⟨119, by decide, by decide⟩, distances ++ List.replicate n wheelDelta⟩ := by
  induction n generalizing distances with
  | zero => simp
  | succ n ih =>
    rw [List.replicate_succ, List.foldl_cons, passthroughAmount_ticks hmouse hlow]
    refine (ih (distances ++ [wheelDelta])).trans ?_
    rw [List.append_assoc, List.replicate_succ]
    rfl

def detentsAndSeven (n : ℕ) : List Int16 := List.replicate n 120 ++ [7]

theorem detentsAndSeven_oneSign (n : ℕ) : OneSign ((detentsAndSeven n).map Int16.toInt) := by
  refine .inl fun a ha => ?_
  obtain ⟨b, hb, rfl⟩ := List.mem_map.mp ha
  rcases List.mem_append.mp hb with hb | hb
  · rw [List.eq_of_mem_replicate hb]
    decide
  · rw [List.mem_singleton.mp hb]
    decide

theorem detentsAndSeven_sum (n : ℕ) : ((detentsAndSeven n).map Int16.toInt).sum = n * 120 + 7 := by
  unfold detentsAndSeven
  rw [List.map_append, List.map_replicate, List.sum_append, List.sum_replicate, nsmul_eq_mul]
  rfl

theorem foldl_detentsAndSeven (hmouse : config.mouse = true) (hlow : config.highResolutionScrolling = false) (n : ℕ) :
    ((detentsAndSeven n).foldl (fun w a => passthroughAmount config a w)
      ⟨⟨119, by decide, by decide⟩, []⟩).distances = List.replicate (n + 1) wheelDelta := by
  unfold detentsAndSeven
  rw [List.foldl_append, foldl_detents hmouse hlow, List.foldl_cons, List.foldl_nil,
    passthroughAmount_ticks hmouse hlow, List.replicate_succ']
  rfl

theorem SplitIndependent.ticks (h : SplitIndependent config mac) (hlow : config.highResolutionScrolling = false) :
    274 * |mac.pixelsPerDetent.bmod (2 ^ 32)| < 2 ^ 31 := by
  have hways := (h.separately ⟨119, by decide, by decide⟩ (oneSign_replicate 1 32767)
    (detentsAndSeven_oneSign 273) (detentsAndSeven_sum 273).symm).2
  rw [List.replicate_one, foldl_full h.mouse hlow, foldl_detentsAndSeven h.mouse hlow] at hways
  have hpacket : scrollPixels mac (274 * wheelDelta) = (274 * mac.pixelsPerDetent).bmod (2 ^ 32) :=
    scrollPixels_eq (by ring)
  have htick : scrollPixels mac wheelDelta = mac.pixelsPerDetent.bmod (2 ^ 32) := scrollPixels_eq (Int.mul_comm ..)
  rw [List.map_replicate, List.sum_replicate, List.map_singleton, List.sum_singleton, hpacket, htick, abs_le] at hways
  generalize hm : (274 * mac.pixelsPerDetent).bmod (2 ^ 32) = packet at hways
  generalize ht : mac.pixelsPerDetent.bmod (2 ^ 32) = tick at hways
  -- the packets' and the ticks' pixels differ by a multiple of 2 ^ 32, so a difference of at most one is none
  have hdvd : (2 ^ 32 : ℤ) ∣ packet - 274 * tick := by
    have hpackets : (2 ^ 32 : ℤ) ∣ 274 * mac.pixelsPerDetent - packet := hm ▸ Int.dvd_self_sub_bmod
    have hticks : (2 ^ 32 : ℤ) ∣ mac.pixelsPerDetent - tick := ht ▸ Int.dvd_self_sub_bmod
    have hsub := (hticks.mul_left 274).sub hpackets
    rwa [mul_sub, sub_sub_sub_cancel_left] at hsub
  have hsame : packet = 274 * tick := by
    refine sub_eq_zero.mp (Int.eq_zero_of_abs_lt_dvd hdvd ?_)
    rw [nsmul_eq_mul] at hways
    exact (abs_le.mpr hways).trans_lt (by norm_num)
  have hlow : -(2 ^ 31) ≤ packet := hm ▸ Int.le_bmod (by decide)
  have hhigh : packet < 2 ^ 31 := hm ▸ Int.bmod_lt (by decide)
  rw [hsame] at hlow hhigh
  rcases abs_cases tick with ⟨habs, _⟩ | ⟨habs, _⟩
  · rw [habs]
    omega
  · rw [habs]
    omega

theorem kept_of_splitIndependent (h : SplitIndependent config mac) : PixelsKept config mac := by
  refine ⟨h.mouse, ?_⟩
  cases hhigh : config.highResolutionScrolling with
  | true => exact ⟨h.dvd hhigh, h.bounds hhigh⟩
  | false => exact h.ticks hhigh

end Counts

theorem splitIndependent_iff (config : Config) (mac : MacosInput) :
    SplitIndependent config mac ↔ PixelsKept config mac :=
  ⟨kept_of_splitIndependent, splitIndependent_of_kept⟩

/-- With a line of ten pixels and five lines for a detent, a distance of 12 is five pixels, and twelve of 1 are none. -/
theorem pixels_lost : ¬SplitIndependent ⟨true, true⟩ ⟨10, 5⟩ := by
  intro h
  exact absurd (h.units rfl 12 12 1 rfl) (by decide)

end Sunshine.Scrolling
