import Mathlib.Data.List.Perm.Basic
import Sunshine.Lib.LastSeen
import Sunshine.Lib.Transitions

/-! The image pool of the capture thread: `trim_imgs` and `pull_free_image_callback` of `captureThread` in `video.cpp`.

A slot is empty or has an image; `held` is the number of references consumers have to each image. A pull is taken apart
at its reads of reference counts and of the clock, so consumers release and share images between any two of them, and
each step takes some time. `PoolOk` is what is seen in every state of every run. -/
namespace Sunshine.ImagePool
open LastSeen Transitions
set_option autoImplicit false

def captureBufferSize : ℕ := 12
/-- `trim_timeot`, three seconds in nanoseconds. -/
def trimTimeout : ℕ := 3000000000

/-- Where the capture thread is. `out` is `img_out`; `now` in the last two is the time the pull read. -/
inductive Phase where
  | idle
  | running
  | search (i : ℕ)
  | allocate
  | count (out i allocated used : ℕ)
  | record (out allocated used : ℕ)
  | trim (out j toTrim allocated trimTarget now : ℕ)
  | returning (out allocated now : ℕ)
  deriving DecidableEq

def Phase.out : Phase → Option ℕ
  | .idle | .running | .search _ | .allocate => none
  | .count out _ _ _ | .record out _ _ | .trim out _ _ _ _ _ | .returning out _ _ => some out

structure State where
  imgs : List (Option ℕ)
  held : ℕ → ℕ
  nextImg : ℕ
  timestamps : Table
  phase : Phase
  clock : ℕ
  recorded : List (ℕ × ℕ)

inductive Event where
  | pull
  | stopped
  | goOn (elapsed : ℕ)
  | release (img : ℕ)
  | share (img : ℕ)

def start : State := ⟨List.replicate captureBufferSize none, fun _ => 0, 0, [], .idle, 0, []⟩

/-- `use_count`: the slots, the consumers, and `img_out`. -/
def useCount (s : State) (img : ℕ) : ℕ :=
  s.imgs.count (some img) + s.held img + if s.phase.out = some img then 1 else 0

def allocatedCount (imgs : List (Option ℕ)) : ℕ := imgs.countP Option.isSome

def setHeld (held : ℕ → ℕ) (img references : ℕ) : ℕ → ℕ := fun other => if other = img then references else held other

/-- `erase` and `push_front`, unless the image is at the front. -/
def moveToFront (i img : ℕ) (imgs : List (Option ℕ)) : List (Option ℕ) :=
  if i = 0 then imgs else some img :: imgs.eraseIdx i

/-- One slot of the search for an allocated image nobody uses. -/
def searchStep (s : State) (i : ℕ) : State :=
  match s.imgs[i]? with
  | none => { s with phase := .allocate }
  | some none => { s with phase := .search (i + 1) }
  | some (some img) =>
    if useCount s img = 1 then { s with imgs := moveToFront i img s.imgs, phase := .count img 0 0 0 }
    else { s with phase := .search (i + 1) }

/-- The first empty slot gets a new image; where there is none the pool is full and the pull starts again. -/
def allocateStep (s : State) : State :=
  let i := s.imgs.idxOf none
  if i < s.imgs.length then
    { s with
      imgs := moveToFront i s.nextImg (s.imgs.set i (some s.nextImg))
      nextImg := s.nextImg + 1
      phase := .count s.nextImg 0 0 0 }
  else { s with phase := .running }

def countStep (s : State) (out i allocated used : ℕ) : State :=
  match s.imgs[i]? with
  | none => { s with phase := .record out allocated used }
  | some none => { s with phase := .count out (i + 1) allocated used }
  | some (some img) =>
    { s with phase := .count out (i + 1) (allocated + 1) (if 1 < useCount s img then used + 1 else used) }

def recordStep (s : State) (out allocated used : ℕ) : State :=
  let timestamps := see used s.clock s.timestamps
  let trimTarget := target trimTimeout s.clock used timestamps
  { s with
    timestamps := timestamps
    recorded := (used, s.clock) :: s.recorded
    phase := if trimTarget < allocated then .trim out s.imgs.length (allocated - trimTarget) allocated trimTarget s.clock
      else .returning out allocated s.clock }

/-- The loop of the trimming has ended. -/
def trimmed (s : State) (out allocated trimTarget now : ℕ) : State :=
  { s with timestamps := resize (trimTarget + 1) s.timestamps, phase := .returning out allocated now }

/-- One slot of the trimming, from the back. -/
def trimStep (s : State) (out j toTrim allocated trimTarget now : ℕ) : State :=
  match j with
  | 0 => trimmed s out allocated trimTarget now
  | j + 1 =>
    match s.imgs[j]?.join with
    | some img =>
      if useCount s img = 1 then
        let reset := { s with imgs := s.imgs.set j none }
        if toTrim - 1 = 0 then trimmed reset out allocated trimTarget now
        else { reset with phase := .trim out j (toTrim - 1) allocated trimTarget now }
      else { s with phase := .trim out j toTrim allocated trimTarget now }
    | none => { s with phase := .trim out j toTrim allocated trimTarget now }

/-- The next step of the pull that is going on; at its end the caller has the image. -/
def advance (s : State) : State :=
  match s.phase with
  | .idle => s
  | .running => { s with phase := .search 0 }
  | .search i => searchStep s i
  | .allocate => allocateStep s
  | .count out i allocated used => countStep s out i allocated used
  | .record out allocated used => recordStep s out allocated used
  | .trim out j toTrim allocated trimTarget now => trimStep s out j toTrim allocated trimTarget now
  | .returning out _ _ => { s with held := setHeld s.held out (s.held out + 1), phase := .idle }

/-- An event that cannot happen in a state leaves it as it is. -/
def next (s : State) : Event → State
  | .pull => if s.phase = .idle then { s with phase := .running } else s
  | .stopped => if s.phase = .running then { s with phase := .idle } else s
  | .goOn elapsed => advance { s with clock := s.clock + elapsed }
  | .release img => { s with held := setHeld s.held img (s.held img - 1) }
  | .share img => if 0 < s.held img then { s with held := setHeld s.held img (s.held img + 1) } else s

/-- An image a consumer holds stays in its slot, a pulled image is nobody else's, something is left to trim as long as
the trimming goes on, and after it the images are the fewer of those before it and the most that were in use. -/
structure PoolOk (s : State) : Prop where
  slots : s.imgs.length = captureBufferSize
  kept : ∀ img, 0 < s.held img → s.imgs.count (some img) = 1
  pulled : ∀ img, s.phase.out = some img → s.held img = 0 ∧ s.imgs.count (some img) = 1
  counted : ∀ out allocated used, s.phase = .record out allocated used → allocated = allocatedCount s.imgs
  trimming : ∀ out j toTrim allocated trimTarget now,
    s.phase = .trim out j toTrim allocated trimTarget now → 0 < toTrim
  trimmed : ∀ out allocated now, s.phase = .returning out allocated now →
    allocatedCount s.imgs = min allocated (largest trimTimeout now s.recorded)

/-! ## What every state keeps -/

variable {s : State} {imgs other : List (Option ℕ)} {held less : ℕ → ℕ} {out : Option ℕ} {nextImg img i : ℕ}

/-- An allocated image that only its slot refers to. -/
def free (held : ℕ → ℕ) (out : Option ℕ) : Option ℕ → Bool
  | none => false
  | some img => decide (held img = 0 ∧ out ≠ some img)

def unused (held : ℕ → ℕ) (out : Option ℕ) (imgs : List (Option ℕ)) : ℕ := imgs.countP (free held out)

structure Slots (imgs : List (Option ℕ)) (held : ℕ → ℕ) (nextImg : ℕ) : Prop where
  length : imgs.length = captureBufferSize
  once : ∀ img, imgs.count (some img) ≤ 1
  fresh : ∀ img, nextImg ≤ img → imgs.count (some img) = 0
  kept : ∀ img, 0 < held img → imgs.count (some img) = 1

def Pulled (imgs : List (Option ℕ)) (held : ℕ → ℕ) (out : Option ℕ) : Prop :=
  ∀ img, out = some img → held img = 0 ∧ imgs.count (some img) = 1

/-- What the loops have counted: an image that was unused stays so, and consumers only make more of them unused. -/
def PhaseOk (imgs : List (Option ℕ)) (held : ℕ → ℕ) (clock : ℕ) (recorded : List (ℕ × ℕ)) : Phase → Prop
  | .idle | .running | .search _ | .allocate => True
  | .count out i allocated used =>
    allocated = allocatedCount (imgs.take i) ∧ allocated ≤ used + unused held (some out) (imgs.take i)
  | .record out allocated used => allocated = allocatedCount imgs ∧ allocated ≤ used + unused held (some out) imgs
  | .trim out j toTrim allocated trimTarget now =>
    0 < toTrim ∧ toTrim ≤ unused held (some out) (imgs.take j) ∧ allocatedCount imgs = trimTarget + toTrim ∧
      trimTarget ≤ allocated ∧ trimTarget = largest trimTimeout now recorded ∧ now ≤ clock
  | .returning _ allocated now => allocatedCount imgs = min allocated (largest trimTimeout now recorded)

structure Invariant (s : State) : Prop where
  slots : Slots s.imgs s.held s.nextImg
  pulled : Pulled s.imgs s.held s.phase.out
  tracks : Tracks trimTimeout s.clock s.timestamps s.recorded
  phase : PhaseOk s.imgs s.held s.clock s.recorded s.phase

theorem invariant_start : Invariant start where
  slots := by
    have hnone : ∀ img, (List.replicate captureBufferSize (none : Option ℕ)).count (some img) = 0 := by
      intro img
      rw [List.count_replicate]
      simp
    refine ⟨List.length_replicate, fun img => ?_, fun img _ => hnone img, fun img hpos => ?_⟩
    · exact Nat.le_trans (Nat.le_of_eq (hnone img)) (Nat.zero_le 1)
    · exact absurd hpos (Nat.lt_irrefl 0)
  pulled := nofun
  tracks := tracks_nil
  phase := trivial

/-! ## The slots -/

theorem Slots.perm (h : Slots imgs held nextImg) (hperm : other.Perm imgs) : Slots other held nextImg where
  length := hperm.length_eq.trans h.length
  once img := by
    rw [hperm.count_eq]
    exact h.once img
  fresh img hle := by
    rw [hperm.count_eq]
    exact h.fresh img hle
  kept img hpos := by
    rw [hperm.count_eq]
    exact h.kept img hpos

theorem moveToFront_perm (himg : imgs[i]? = some (some img)) : (moveToFront i img imgs).Perm imgs := by
  obtain ⟨hi, hget⟩ := List.getElem?_eq_some_iff.mp himg
  unfold moveToFront
  split_ifs
  · exact List.Perm.refl imgs
  · rw [← hget]
    exact List.getElem_cons_eraseIdx_perm hi

theorem Slots.count_of_mem (h : Slots imgs held nextImg) (hmem : some img ∈ imgs) : imgs.count (some img) = 1 := by
  have hpos := List.count_pos_iff.mpr hmem
  have hle := h.once img
  omega

theorem count_set_new (himg : imgs[i]? = some none) (new : ℕ) :
    (imgs.set i (some new)).count (some img) = imgs.count (some img) + if new = img then 1 else 0 := by
  obtain ⟨hi, hget⟩ := List.getElem?_eq_some_iff.mp himg
  rw [List.count_set hi, hget]
  simp

theorem count_set_none (himg : imgs[i]? = some (some img)) (kept : ℕ) :
    (imgs.set i none).count (some kept) = imgs.count (some kept) - if img = kept then 1 else 0 := by
  obtain ⟨hi, hget⟩ := List.getElem?_eq_some_iff.mp himg
  rw [List.count_set hi, hget]
  simp

theorem Slots.held_zero (h : Slots imgs held nextImg) (hle : nextImg ≤ img) : held img = 0 := by
  by_contra hpos
  have hone := h.kept img (Nat.pos_of_ne_zero hpos)
  have hzero := h.fresh img hle
  omega

theorem Slots.alloc (h : Slots imgs held nextImg) (hi : imgs[i]? = some none) :
    Slots (imgs.set i (some nextImg)) held (nextImg + 1) where
  length := List.length_set.trans h.length
  once img := by
    rw [count_set_new hi]
    split_ifs with heq
    · have hzero := h.fresh nextImg (Nat.le_refl _)
      rw [heq] at hzero
      omega
    · exact h.once img
  fresh img hle := by
    rw [count_set_new hi, if_neg (by omega), h.fresh img (by omega)]
  kept img hpos := by
    have hne : nextImg ≠ img := by
      rintro rfl
      rw [h.held_zero (Nat.le_refl _)] at hpos
      exact absurd hpos (Nat.lt_irrefl 0)
    rw [count_set_new hi, if_neg hne]
    exact h.kept img hpos

theorem Slots.reset (h : Slots imgs held nextImg) (hi : imgs[i]? = some (some img)) (hheld : held img = 0) :
    Slots (imgs.set i none) held nextImg where
  length := List.length_set.trans h.length
  once other := by
    rw [count_set_none hi]
    exact Nat.le_trans (Nat.sub_le _ _) (h.once other)
  fresh other hle := by
    rw [count_set_none hi, h.fresh other hle, Nat.zero_sub]
  kept other hpos := by
    have hne : img ≠ other := by
      rintro rfl
      omega
    rw [count_set_none hi, if_neg hne]
    exact h.kept other hpos

theorem setHeld_self (held : ℕ → ℕ) (img references : ℕ) : setHeld held img references img = references := if_pos rfl

theorem setHeld_of_ne {kept : ℕ} (hne : kept ≠ img) (references : ℕ) : setHeld held img references kept = held kept :=
  if_neg hne

theorem Slots.consumers (h : Slots imgs held nextImg) (hkept : ∀ img, 0 < less img → imgs.count (some img) = 1) :
    Slots imgs less nextImg := ⟨h.length, h.once, h.fresh, hkept⟩

theorem useCount_eq_one (h : Slots s.imgs s.held s.nextImg) (hmem : some img ∈ s.imgs) :
    useCount s img = 1 ↔ free s.held s.phase.out (some img) := by
  have hone := h.count_of_mem hmem
  unfold useCount free
  rw [hone, decide_eq_true_iff]
  by_cases hout : s.phase.out = some img
  · rw [if_pos hout]
    exact ⟨fun htwo => by omega, fun hboth => absurd hout hboth.2⟩
  · rw [if_neg hout]
    exact ⟨fun hzero => ⟨by omega, hout⟩, fun hboth => by omega⟩

theorem one_le_useCount (h : Slots s.imgs s.held s.nextImg) (hmem : some img ∈ s.imgs) : 1 ≤ useCount s img := by
  have hone := h.count_of_mem hmem
  unfold useCount
  omega

theorem unused_mono (hless : ∀ img, held img = 0 → less img = 0) :
    unused held out imgs ≤ unused less out imgs := by
  apply List.countP_mono_left
  intro slot _ hslot
  cases slot with
  | none => exact hslot
  | some img =>
    unfold free at hslot ⊢
    rw [decide_eq_true_iff] at hslot ⊢
    exact ⟨hless img hslot.1, hslot.2⟩

/-! ## The steps of a pull -/

theorem Invariant.at_phase (h : Invariant s) {phase : Phase} (hphase : s.phase = phase) :
    Pulled s.imgs s.held phase.out ∧ PhaseOk s.imgs s.held s.clock s.recorded phase := by
  rw [← hphase]
  exact ⟨h.pulled, h.phase⟩

theorem Invariant.search (h : Invariant s) : Invariant (searchStep s i) := by
  unfold searchStep
  split
  case _ hi => exact ⟨h.slots, nofun, h.tracks, trivial⟩
  case _ hi => exact ⟨h.slots, nofun, h.tracks, trivial⟩
  case _ img hi =>
    split_ifs with hused
    · have hmem : some img ∈ s.imgs := List.mem_of_getElem? hi
      have hfree := (useCount_eq_one h.slots hmem).mp hused
      have hperm := moveToFront_perm hi
      refine ⟨h.slots.perm hperm, fun other hother => ?_, h.tracks, rfl, Nat.zero_le _⟩
      cases hother
      rw [hperm.count_eq]
      unfold free at hfree
      rw [decide_eq_true_iff] at hfree
      exact ⟨hfree.1, h.slots.count_of_mem hmem⟩
    · exact ⟨h.slots, nofun, h.tracks, trivial⟩

theorem Invariant.allocate (h : Invariant s) : Invariant (allocateStep s) := by
  unfold allocateStep
  dsimp only
  split_ifs with hi
  · have hnone : s.imgs[s.imgs.idxOf none]? = some none := by
      rw [List.getElem?_eq_getElem hi, List.getElem_idxOf]
    have hnew : (s.imgs.set (s.imgs.idxOf none) (some s.nextImg))[s.imgs.idxOf none]? = some (some s.nextImg) :=
      List.getElem?_set_self hi
    have hperm := moveToFront_perm hnew
    refine ⟨(h.slots.alloc hnone).perm hperm, fun other hother => ?_, h.tracks, rfl, Nat.zero_le _⟩
    cases hother
    refine ⟨h.slots.held_zero (Nat.le_refl _), ?_⟩
    rw [hperm.count_eq, count_set_new hnone, if_pos rfl, h.slots.fresh s.nextImg (Nat.le_refl _)]
  · exact ⟨h.slots, nofun, h.tracks, trivial⟩

theorem countP_take_succ (p : Option ℕ → Bool) {slot : Option ℕ} (hi : imgs[i]? = some slot) :
    (imgs.take (i + 1)).countP p = (imgs.take i).countP p + if p slot then 1 else 0 := by
  rw [List.take_add_one, hi, List.countP_append]
  exact congrArg _ List.countP_singleton

theorem Invariant.count {out allocated used : ℕ} (h : Invariant s)
    (hphase : s.phase = .count out i allocated used) : Invariant (countStep s out i allocated used) := by
  obtain ⟨hpulled, hallocated, hunused⟩ := h.at_phase hphase
  unfold countStep
  split
  case _ hi =>
    rw [List.take_of_length_le (List.getElem?_eq_none_iff.mp hi)] at hallocated hunused
    exact ⟨h.slots, hpulled, h.tracks, hallocated, hunused⟩
  case _ hi =>
    refine ⟨h.slots, hpulled, h.tracks, ?_, ?_⟩
    · exact hallocated.trans (countP_take_succ Option.isSome hi).symm
    · exact Nat.le_trans hunused (Nat.le_of_eq (congrArg _ (countP_take_succ (free s.held (some out)) hi).symm))
  case _ img hi =>
    have hmem : some img ∈ s.imgs := List.mem_of_getElem? hi
    have hone := one_le_useCount h.slots hmem
    have hfree := useCount_eq_one h.slots hmem
    rw [hphase] at hfree
    have hnext : allocated + 1 ≤ (if 1 < useCount s img then used + 1 else used) +
        unused s.held (some out) (s.imgs.take (i + 1)) := by
      unfold unused at hunused ⊢
      rw [countP_take_succ (free s.held (some out)) hi]
      by_cases hused : useCount s img = 1
      · have hslot : free s.held (some out) (some img) = true := hfree.mp hused
        rw [if_neg (by omega), if_pos hslot]
        omega
      · rw [if_pos (by omega)]
        omega
    refine ⟨h.slots, hpulled, h.tracks, ?_, hnext⟩
    rw [hallocated]
    exact (countP_take_succ Option.isSome hi).symm

theorem Invariant.record {out allocated used : ℕ} (h : Invariant s)
    (hphase : s.phase = .record out allocated used) : Invariant (recordStep s out allocated used) := by
  obtain ⟨hpulled, hallocated, hunused⟩ := h.at_phase hphase
  have htracks := h.tracks.see (Nat.le_refl s.clock) used
  have hvalue : (see used s.clock s.timestamps)[used]? = some (some s.clock) :=
    (getElem?_see _ _).mpr (.inl ⟨rfl, rfl⟩)
  have htarget := htracks.target_eq hvalue (by decide)
  have hle : used ≤ target trimTimeout s.clock used (see used s.clock s.timestamps) := le_target
  have hall : s.imgs.take s.imgs.length = s.imgs := List.take_of_length_le (Nat.le_refl _)
  unfold recordStep
  by_cases hmore : target trimTimeout s.clock used (see used s.clock s.timestamps) < allocated
  · simp only [if_pos hmore]
    refine ⟨h.slots, hpulled, htracks, Nat.sub_pos_of_lt hmore, ?_, ?_, Nat.le_of_lt hmore, htarget, Nat.le_refl _⟩
    · rw [hall]
      change allocated - target trimTimeout s.clock used (see used s.clock s.timestamps) ≤
        unused s.held (some out) s.imgs
      omega
    · change allocatedCount s.imgs = _
      rw [← hallocated]
      omega
  · simp only [if_neg hmore]
    refine ⟨h.slots, hpulled, htracks, ?_⟩
    change allocatedCount s.imgs = min allocated (largest trimTimeout s.clock ((used, s.clock) :: s.recorded))
    rw [← hallocated, ← htarget]
    omega

theorem allocatedCount_reset (hi : imgs[i]? = some (some img)) :
    allocatedCount (imgs.set i none) = allocatedCount imgs - 1 := by
  obtain ⟨hlt, hget⟩ := List.getElem?_eq_some_iff.mp hi
  unfold allocatedCount
  rw [List.countP_set hlt, hget]
  rfl

theorem pulled_reset (hpulled : Pulled imgs held out) (hi : imgs[i]? = some (some img)) (hne : out ≠ some img) :
    Pulled (imgs.set i none) held out := by
  intro other hother
  obtain ⟨hheld, hone⟩ := hpulled other hother
  have hother_ne : img ≠ other := by
    rintro rfl
    exact hne hother
  refine ⟨hheld, ?_⟩
  rw [count_set_none hi, if_neg hother_ne]
  exact hone

theorem unused_take_empty (hi : imgs[i]?.join = none) :
    unused held out (imgs.take (i + 1)) = unused held out (imgs.take i) := by
  unfold unused
  cases hslot : imgs[i]? with
  | none =>
    have hlength := List.getElem?_eq_none_iff.mp hslot
    rw [List.take_of_length_le hlength, List.take_of_length_le (Nat.le_succ_of_le hlength)]
  | some slot =>
    rw [hslot] at hi
    cases slot with
    | none => exact countP_take_succ _ hslot
    | some img => cases hi

theorem Invariant.trimmed {out allocated trimTarget now : ℕ} (hslots : Slots s.imgs s.held s.nextImg)
    (hpulled : Pulled s.imgs s.held (some out)) (htracks : Tracks trimTimeout s.clock s.timestamps s.recorded)
    (hcount : allocatedCount s.imgs = trimTarget) (hle : trimTarget ≤ allocated)
    (htarget : trimTarget = largest trimTimeout now s.recorded) (hnow : now ≤ s.clock) :
    Invariant (trimmed s out allocated trimTarget now) where
  slots := hslots
  pulled := hpulled
  tracks := by
    apply htracks.resize
    have hlater : largest trimTimeout s.clock s.recorded ≤ largest trimTimeout now s.recorded := largest_later hnow
    rw [← htarget] at hlater
    exact Nat.lt_succ_of_le hlater
  phase := by
    change allocatedCount s.imgs = min allocated (largest trimTimeout now s.recorded)
    rw [hcount, ← htarget]
    exact (Nat.min_eq_right hle).symm

theorem Invariant.trim {out j toTrim allocated trimTarget now : ℕ} (h : Invariant s)
    (hphase : s.phase = .trim out j toTrim allocated trimTarget now) :
    Invariant (trimStep s out j toTrim allocated trimTarget now) := by
  obtain ⟨hpulled, hpos, hunused, hcount, hle, htarget, hnow⟩ := h.at_phase hphase
  cases j with
  | zero =>
    have hnone : unused s.held (some out) (s.imgs.take 0) = 0 := rfl
    omega
  | succ j =>
    unfold trimStep
    dsimp only
    split
    case _ img himg =>
      have hi : s.imgs[j]? = some (some img) := Option.join_eq_some_iff.mp himg
      have hmem : some img ∈ s.imgs := List.mem_of_getElem? hi
      have hiff := useCount_eq_one h.slots hmem
      rw [hphase] at hiff
      have hfree : useCount s img = 1 ↔ free s.held (some out) (some img) = true := hiff
      unfold unused at hunused
      rw [countP_take_succ (free s.held (some out)) hi] at hunused
      by_cases hused : useCount s img = 1
      · have hslot := hfree.mp hused
        rw [if_pos hslot] at hunused
        unfold free at hslot
        rw [decide_eq_true_iff] at hslot
        have hslots := h.slots.reset hi hslot.1
        have hkept := pulled_reset hpulled hi hslot.2
        have hfewer := allocatedCount_reset hi
        rw [if_pos hused]
        by_cases hlast : toTrim - 1 = 0
        · rw [if_pos hlast]
          have hend : allocatedCount (s.imgs.set j none) = trimTarget := by omega
          exact Invariant.trimmed hslots hkept h.tracks hend hle htarget hnow
        · rw [if_neg hlast]
          refine ⟨hslots, hkept, h.tracks, Nat.pos_of_ne_zero hlast, ?_, ?_, hle, htarget, hnow⟩
          · rw [List.take_set_of_le (Nat.le_refl j)]
            change toTrim - 1 ≤ (s.imgs.take j).countP (free s.held (some out))
            omega
          · change allocatedCount (s.imgs.set j none) = trimTarget + (toTrim - 1)
            omega
      · have hslot : ¬free s.held (some out) (some img) := fun hslot => hused (hfree.mpr hslot)
        rw [if_neg hslot] at hunused
        rw [if_neg hused]
        exact ⟨h.slots, hpulled, h.tracks, hpos, hunused, hcount, hle, htarget, hnow⟩
    case _ hnone =>
      rw [unused_take_empty hnone] at hunused
      exact ⟨h.slots, hpulled, h.tracks, hpos, hunused, hcount, hle, htarget, hnow⟩

/-! ## Every event -/

theorem Invariant.returning {out allocated now : ℕ} (h : Invariant s)
    (hphase : s.phase = .returning out allocated now) :
    Invariant { s with held := setHeld s.held out (s.held out + 1), phase := .idle } := by
  have hpulled := (h.at_phase hphase).1
  have hkept : ∀ img, 0 < setHeld s.held out (s.held out + 1) img → s.imgs.count (some img) = 1 := by
    intro img hpos
    by_cases hout : img = out
    · rw [hout]
      exact (hpulled out rfl).2
    · rw [setHeld_of_ne hout] at hpos
      exact h.slots.kept img hpos
  exact ⟨h.slots.consumers hkept, nofun, h.tracks, trivial⟩

theorem Invariant.later (h : Invariant s) (elapsed : ℕ) :
    Invariant { s with clock := s.clock + elapsed } where
  slots := h.slots
  pulled := h.pulled
  tracks := h.tracks.later (Nat.le_add_right _ _)
  phase := by
    have hphase := h.phase
    change PhaseOk s.imgs s.held (s.clock + elapsed) s.recorded s.phase
    cases hat : s.phase with
    | trim out j toTrim allocated trimTarget now =>
      rw [hat] at hphase
      obtain ⟨hpos, hunused, hcount, hle, htarget, hnow⟩ := hphase
      exact ⟨hpos, hunused, hcount, hle, htarget, Nat.le_add_right_of_le hnow⟩
    | idle => trivial
    | running => trivial
    | search => trivial
    | allocate => trivial
    | count =>
      rw [hat] at hphase
      exact hphase
    | record =>
      rw [hat] at hphase
      exact hphase
    | returning =>
      rw [hat] at hphase
      exact hphase

theorem phaseOk_less {clock : ℕ} {recorded : List (ℕ × ℕ)} {phase : Phase} (h : PhaseOk imgs held clock recorded phase)
    (hless : ∀ img, held img = 0 → less img = 0) : PhaseOk imgs less clock recorded phase := by
  cases phase with
  | idle => trivial
  | running => trivial
  | search => trivial
  | allocate => trivial
  | count => exact ⟨h.1, Nat.le_trans h.2 (Nat.add_le_add_left (unused_mono hless) _)⟩
  | record => exact ⟨h.1, Nat.le_trans h.2 (Nat.add_le_add_left (unused_mono hless) _)⟩
  | trim => exact ⟨h.1, Nat.le_trans h.2.1 (unused_mono hless), h.2.2⟩
  | returning => exact h

/-- Consumers change the references of images they hold. -/
theorem Invariant.consumers (h : Invariant s) (hless : ∀ img, s.held img = 0 → less img = 0) :
    Invariant { s with held := less } where
  slots := by
    have hkept : ∀ img, 0 < less img → s.imgs.count (some img) = 1 := by
      intro img hpos
      apply h.slots.kept img
      by_contra hzero
      rw [hless img (Nat.eq_zero_of_not_pos hzero)] at hpos
      exact absurd hpos (Nat.lt_irrefl 0)
    exact h.slots.consumers hkept
  pulled img hout := ⟨hless img (h.pulled img hout).1, (h.pulled img hout).2⟩
  tracks := h.tracks
  phase := phaseOk_less h.phase hless

theorem Invariant.advance (h : Invariant s) : Invariant (advance s) := by
  unfold ImagePool.advance
  split
  case _ => exact h
  case _ => exact ⟨h.slots, nofun, h.tracks, trivial⟩
  case _ i hphase => exact h.search
  case _ hphase => exact h.allocate
  case _ out i allocated used hphase => exact h.count hphase
  case _ out allocated used hphase => exact h.record hphase
  case _ out j toTrim allocated trimTarget now hphase => exact h.trim hphase
  case _ out allocated now hphase => exact h.returning hphase

theorem invariant_next (s : State) (e : Event) (h : Invariant s) : Invariant (next s e) := by
  cases e with
  | pull =>
    unfold next
    dsimp only
    split_ifs
    · exact ⟨h.slots, nofun, h.tracks, trivial⟩
    · exact h
  | stopped =>
    unfold next
    dsimp only
    split_ifs
    · exact ⟨h.slots, nofun, h.tracks, trivial⟩
    · exact h
  | goOn elapsed => exact (h.later elapsed).advance
  | release img =>
    apply h.consumers
    intro other hzero
    by_cases heq : other = img
    · rw [← heq, setHeld_self, hzero]
    · rw [setHeld_of_ne heq]
      exact hzero
  | share img =>
    unfold next
    dsimp only
    split_ifs with hpos
    · apply h.consumers
      intro other hzero
      have hne : other ≠ img := by
        rintro rfl
        omega
      rw [setHeld_of_ne hne]
      exact hzero
    · exact h

theorem Invariant.poolOk (h : Invariant s) : PoolOk s where
  slots := h.slots.length
  kept := h.slots.kept
  pulled := h.pulled
  counted _ _ _ hphase := (h.at_phase hphase).2.1
  trimming _ _ _ _ _ _ hphase := (h.at_phase hphase).2.1
  trimmed _ _ _ hphase := (h.at_phase hphase).2

theorem poolOk_run (events : List Event) : PoolOk (events.foldl next start) := by
  have hruns : Runs (fun _ _ => True) next start events := runs_true events
  have hinvariant := hruns.invariant Invariant invariant_start fun s e h _ => invariant_next s e h
  exact hinvariant.poolOk

end Sunshine.ImagePool
