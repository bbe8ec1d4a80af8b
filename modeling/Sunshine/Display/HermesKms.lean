import Sunshine.Lib.Entries
import Sunshine.Lib.Ledger
import Sunshine.Lib.Pacing
import Sunshine.Lib.Transitions

/-! The capture loop of a Hermes-KMS card: each frame comes with a new DMA-BUF descriptor, which is closed or put into an
image of the pool.

`kept_iff` says in which runs, besides what holds in all of them, the last frame is shown. -/
namespace Sunshine.HermesKms
open Ledger Pacing Transitions
set_option autoImplicit false

/-- The minimum interval between delivered frames, in nanoseconds. -/
def frameInterval (framerate : ℤ) : ℤ := 1000000000 / max framerate 1

/-- A frame that was acquired, with its descriptor, `captured_at`, and `next_frame_due` at that time. -/
structure Frame where
  fd : ℕ
  capturedAt : ℤ
  due : ℤ
  deriving DecidableEq

abbrev Frame.early (frame : Frame) : Prop := frame.capturedAt < frame.due

/-- `images` are those that hold a descriptor, and `consumer` those that it holds, with the descriptor that each was
pushed with. -/
structure State where
  nextFrameDue : ℤ
  running : Bool
  images : List (ℕ × ℕ)
  consumer : List (ℕ × ℕ)
  fdCount : ℕ
  ops : List (Op ℕ)
  acquired : List Frame
  delivered : List Frame

def start (now : ℤ) : State where
  nextFrameDue := now
  running := true
  images := []
  consumer := []
  fdCount := 0
  ops := []
  acquired := []
  delivered := []

/-- What `pull_free_image_cb` comes to; `foreign` is an image of another class. -/
inductive Pulled where
  | refused
  | foreign
  | image (number : ℕ)

inductive Event where
  /-- `WAIT_FRAME` is interrupted. -/
  | interrupted
  /-- An `ioctl` fails, or there is no descriptor. -/
  | failed
  | frame (capturedAt : ℤ) (pulled : Pulled) (pushed : Bool)
  /-- The consumer gives an image back. -/
  | giveBack (image : ℕ)
  /-- An image that the consumer does not hold is destroyed. -/
  | destroyImage (image : ℕ)

def without (entries : List (ℕ × ℕ)) (image : ℕ) : List (ℕ × ℕ) := entries.filter fun entry => entry.1 ≠ image

/-- The descriptor is closed. -/
def close (s : State) (fd : ℕ) : State := { s with ops := s.ops ++ [.release fd] }

/-- The descriptor goes into the image, and the image to the consumer. -/
def store (s : State) (image : ℕ) (frame : Frame) : State := { s with
  images := (image, frame.fd) :: without s.images image
  consumer := (image, frame.fd) :: s.consumer
  ops := s.ops ++ releases (s.images.lookup image)
  delivered := s.delivered ++ [frame] }

/-- A frame in time, with its descriptor. -/
def deliver (s : State) (frame : Frame) (pulled : Pulled) (pushed : Bool) : State :=
  match pulled with
  | .refused | .foreign => { close s frame.fd with running := false }
  | .image image => { store s image frame with running := pushed }

/-- `ACQUIRE_FRAME`. -/
def acquire (s : State) (capturedAt : ℤ) : State := { s with
  fdCount := s.fdCount + 1
  ops := s.ops ++ [.acquire s.fdCount]
  acquired := s.acquired ++ [⟨s.fdCount, capturedAt, s.nextFrameDue⟩] }

/-- One iteration of the loop that acquires a frame; where the deadline does not get past the frame, it does not end. -/
def onFrame (interval : ℤ) (s : State) (capturedAt : ℤ) (pulled : Pulled) (pushed : Bool) : State :=
  if capturedAt < s.nextFrameDue then close (acquire s capturedAt) s.fdCount
  else
    match advance interval s.nextFrameDue capturedAt with
    | none => { acquire s capturedAt with running := false }
    | some due => deliver { acquire s capturedAt with nextFrameDue := due } ⟨s.fdCount, capturedAt, s.nextFrameDue⟩ pulled pushed

def next (interval : ℤ) (s : State) : Event → State
  | .interrupted => s
  | .failed => { s with running := false }
  | .frame capturedAt pulled pushed => onFrame interval s capturedAt pulled pushed
  | .giveBack image => { s with consumer := without s.consumer image }
  | .destroyImage image => { s with images := without s.images image, ops := s.ops ++ releases (s.images.lookup image) }

/-- The pool has only images that the consumer does not hold. -/
def enabled (s : State) : Event → Prop
  | .interrupted | .failed => s.running = true
  | .frame _ pulled _ => s.running = true ∧ ∀ image, pulled = .image image → image ∉ s.consumer.map Prod.fst
  | .giveBack image => image ∈ s.consumer.map Prod.fst
  | .destroyImage image => image ∉ s.consumer.map Prod.fst

/-- The descriptors are those of the images, or have been closed once; an image that the consumer holds still has its own;
the frames are delivered in order and apart; and the last frame is delivered also where it was early. -/
structure Kept (interval : ℤ) (s : State) : Prop where
  accounted : account 0 s.ops = some (s.images.map Prod.snd : List ℕ)
  owners : (s.images.map Prod.snd).Nodup
  consumer : ∀ entry ∈ s.consumer, entry ∈ s.images
  ordered : s.delivered.Sublist s.acquired
  spaced : Spaced interval (s.delivered.map Frame.capturedAt)
  shown : ∀ frame ∈ s.acquired.getLast?, frame.early → frame ∈ s.delivered

/-- The last frame was not early; and where the interval is empty, all were. -/
def InTime (interval : ℤ) (s : State) : Prop :=
  (∀ frame ∈ s.acquired.getLast?, ¬frame.early) ∧ (interval = 0 → ∀ frame ∈ s.acquired, frame.early)

/-! ## The invariant -/

section Invariant
variable {interval : ℤ} {s : State} {stuck : Option ℕ} {image : ℕ}

def descriptors (images : List (ℕ × ℕ)) : Multiset ℕ := images.map Prod.snd

/-- `stuck` is the descriptor of a loop that does not end. -/
structure Inv (interval : ℤ) (stuck : Option ℕ) (s : State) : Prop where
  accounted : account 0 s.ops = some (one stuck + descriptors s.images)
  keys : (s.images.map Prod.fst).Nodup
  owners : (s.images.map Prod.snd).Nodup
  old : ∀ entry ∈ s.images, entry.2 < s.fdCount
  consumer : ∀ entry ∈ s.consumer, entry ∈ s.images
  ordered : s.delivered.Sublist s.acquired
  spaced : Spaced interval (s.delivered.map Frame.capturedAt)
  paced : Paced interval s.nextFrameDue (s.delivered.map Frame.capturedAt)
  timely : ∀ frame ∈ s.delivered, ¬frame.early
  stopped : stuck ≠ none → s.running = false
  endless : stuck ≠ none ↔ interval = 0 ∧ ∃ frame ∈ s.acquired, ¬frame.early

theorem kept_iff_of_inv (h : Inv interval stuck s) : Kept interval s ↔ InTime interval s := by
  constructor
  · intro hkept
    refine ⟨fun frame hlast hearly => h.timely frame (hkept.shown frame hlast hearly) hearly, fun hzero frame hframe => ?_⟩
    by_contra hintime
    -- the descriptor of the frame in the loop is neither closed nor in an image
    obtain ⟨fd, rfl⟩ := Option.ne_none_iff_exists'.mp (h.endless.mpr ⟨hzero, frame, hframe, hintime⟩)
    have hsame := Option.some.inj (h.accounted.symm.trans hkept.accounted)
    have hcard := congrArg Multiset.card hsame
    simp [descriptors] at hcard
  · rintro ⟨hlast, hall⟩
    have hnone : stuck = none := by
      by_contra hstuck
      obtain ⟨hzero, frame, hframe, hintime⟩ := h.endless.mp hstuck
      exact hintime (hall hzero frame hframe)
    subst hnone
    refine ⟨?_, h.owners, h.consumer, h.ordered, h.spaced, fun frame hframe hearly => absurd hearly (hlast frame hframe)⟩
    rw [h.accounted]
    exact congrArg some (zero_add _)

theorem without_sublist (entries : List (ℕ × ℕ)) (image : ℕ) : (without entries image).Sublist entries := List.filter_sublist

theorem mem_without {entries : List (ℕ × ℕ)} {entry : ℕ × ℕ} :
    entry ∈ without entries image ↔ entry ∈ entries ∧ entry.1 ≠ image := by
  unfold without
  rw [List.mem_filter, decide_eq_true_iff]

/-- The descriptor of one image, and those of the others. -/
theorem descriptors_split {images : List (ℕ × ℕ)} (hkeys : (images.map Prod.fst).Nodup) (image : ℕ) :
    descriptors images = one (images.lookup image) + descriptors (without images image) := by
  induction images with
  | nil => rfl
  | cons entry images ih =>
    obtain ⟨key, fd⟩ := entry
    obtain ⟨hkey, hkeys⟩ := List.nodup_cons.mp hkeys
    by_cases heq : key = image
    · subst heq
      have hrest : without ((key, fd) :: images) key = images := by
        unfold without
        rw [List.filter_cons_of_neg (by simp), List.filter_eq_self]
        intro entry hentry
        exact decide_eq_true fun heq => hkey (List.mem_map.mpr ⟨entry, hentry, heq⟩)
      rw [hrest, List.lookup_cons_self]
      rfl
    · have hrest : without ((key, fd) :: images) image = (key, fd) :: without images image := by
        unfold without
        rw [List.filter_cons_of_pos (by simpa using heq)]
      have hlookup : ((key, fd) :: images).lookup image = images.lookup image :=
        Entries.lookup_cons_ne fun h => heq h.symm
      rw [hrest, hlookup]
      show {fd} + descriptors images = one (images.lookup image) + ({fd} + descriptors (without images image))
      rw [ih hkeys, add_left_comm]

/-! ## Steps -/

theorem frameInterval_nonneg (framerate : ℤ) : 0 ≤ frameInterval framerate :=
  Int.ediv_nonneg (by decide) (le_trans (by decide) (le_max_right framerate 1))

/-- While the loop runs, no descriptor is stuck. -/
theorem Inv.free (h : Inv interval stuck s) (hrunning : s.running = true) : stuck = none := by
  by_contra hstuck
  exact absurd ((h.stopped hstuck).symm.trans hrunning) (by decide)

theorem inv_failed (h : Inv interval stuck s) : Inv interval stuck { s with running := false } :=
  ⟨h.accounted, h.keys, h.owners, h.old, h.consumer, h.ordered, h.spaced, h.paced, h.timely, fun _ => rfl, h.endless⟩

theorem inv_giveBack (h : Inv interval stuck s) : Inv interval stuck { s with consumer := without s.consumer image } :=
  ⟨h.accounted, h.keys, h.owners, h.old, fun entry hentry => h.consumer entry (mem_without.mp hentry).1, h.ordered,
    h.spaced, h.paced, h.timely, h.stopped, h.endless⟩

theorem account_lookup (h : Inv interval stuck s) (image : ℕ) : account (one stuck + descriptors s.images)
    (releases (s.images.lookup image)) = some (one stuck + descriptors (without s.images image)) := by
  rw [descriptors_split h.keys image, add_left_comm]
  exact account_releases_only _ _

theorem inv_destroyImage (h : Inv interval stuck s) (hfree : image ∉ s.consumer.map Prod.fst) :
    Inv interval stuck { s with
      images := without s.images image
      ops := s.ops ++ releases (s.images.lookup image) } := by
  refine ⟨account_then h.accounted (account_lookup h image), h.keys.sublist ((without_sublist _ _).map _),
    h.owners.sublist ((without_sublist _ _).map _), fun entry hentry => h.old entry (mem_without.mp hentry).1,
    fun entry hentry => mem_without.mpr ⟨h.consumer entry hentry, fun heq => hfree ?_⟩, h.ordered, h.spaced, h.paced,
    h.timely, h.stopped, h.endless⟩
  exact List.mem_map.mpr ⟨entry, hentry, heq⟩

/-- A frame that is closed again, whether it moved the deadline or not. -/
theorem inv_closed (h : Inv interval none s) {capturedAt due : ℤ} (hdue : s.nextFrameDue ≤ due)
    (hendless : interval = 0 → capturedAt < s.nextFrameDue) (running : Bool) :
    Inv interval none { acquire s capturedAt with
      nextFrameDue := due
      ops := (acquire s capturedAt).ops ++ [.release s.fdCount]
      running := running } := by
  have hops : account 0 (s.ops ++ ([.acquire s.fdCount] ++ [.release s.fdCount])) =
      some (one none + descriptors s.images) := by
    refine account_then h.accounted ?_
    rw [List.singleton_append, account_acquire, account_release, account_nil]
  refine ⟨by simpa [acquire] using hops, h.keys, h.owners, fun entry hentry => Nat.lt_succ_of_lt (h.old entry hentry),
    h.consumer, h.ordered.trans (List.sublist_append_left _ _), h.spaced, fun i time htime => ?_, h.timely,
    fun hne => absurd rfl hne, iff_of_false (fun hne => hne rfl) ?_⟩
  · exact (h.paced i time htime).trans_le hdue
  · rintro ⟨hzero, frame, hframe, hintime⟩
    cases List.mem_append.mp hframe with
    | inl hframe => exact (h.endless.mpr ⟨hzero, frame, hframe, hintime⟩) rfl
    | inr hframe =>
      rw [List.mem_singleton.mp hframe] at hintime
      exact hintime (hendless hzero)

/-- The loop that does not end keeps the descriptor of its frame. -/
theorem inv_stuck (h : Inv interval none s) {capturedAt : ℤ} (hzero : interval = 0)
    (hintime : s.nextFrameDue ≤ capturedAt) :
    Inv interval (some s.fdCount) { acquire s capturedAt with running := false } := by
  refine ⟨?_, h.keys, h.owners, fun entry hentry => Nat.lt_succ_of_lt (h.old entry hentry), h.consumer,
    h.ordered.trans (List.sublist_append_left _ _), h.spaced, h.paced, h.timely, fun _ => rfl,
    iff_of_true (Option.some_ne_none _) ⟨hzero, ⟨s.fdCount, capturedAt, s.nextFrameDue⟩, ?_, hintime.not_gt⟩⟩
  · refine account_then h.accounted ?_
    rw [account_acquire, account_nil]
    exact congrArg (fun held => some ({s.fdCount} + held)) (zero_add (descriptors s.images))
  · exact List.mem_append_right _ (List.mem_singleton.mpr rfl)

theorem inv_store (h : Inv interval none s) {capturedAt due : ℤ} (hne : interval ≠ 0)
    (hintime : s.nextFrameDue ≤ capturedAt) (hdue : capturedAt < due) (hmoved : s.nextFrameDue + interval ≤ due)
    (hfree : image ∉ s.consumer.map Prod.fst) (running : Bool) :
    Inv interval none { store { acquire s capturedAt with nextFrameDue := due } image
      ⟨s.fdCount, capturedAt, s.nextFrameDue⟩ with running := running } := by
  have hsub := without_sublist s.images image
  have hold : ∀ entry ∈ without s.images image, entry.2 < s.fdCount := fun entry hentry =>
    h.old entry (mem_without.mp hentry).1
  refine ⟨?_, List.nodup_cons.mpr ⟨?_, h.keys.sublist (hsub.map _)⟩,
    List.nodup_cons.mpr ⟨?_, h.owners.sublist (hsub.map _)⟩, fun entry hentry => ?_, fun entry hentry => ?_,
    h.ordered.append_right _, ?_, ?_, fun frame hframe => ?_, fun hsome => absurd rfl hsome,
    iff_of_false (fun hsome => hsome rfl) fun hzero => hne hzero.1⟩
  · have hops : account 0 (s.ops ++ ([.acquire s.fdCount] ++ releases (s.images.lookup image))) =
        some (one none + descriptors ((image, s.fdCount) :: without s.images image)) := by
      refine account_then h.accounted ?_
      have hsplit : {s.fdCount} + (one none + descriptors s.images) =
          one (s.images.lookup image) + (one none + descriptors ((image, s.fdCount) :: without s.images image)) := by
        rw [descriptors_split h.keys image]
        show _ = one (s.images.lookup image) + (one none + ({s.fdCount} + descriptors (without s.images image)))
        rw [one_none, zero_add, zero_add, add_left_comm]
      rw [List.singleton_append, account_acquire, hsplit]
      exact account_releases_only _ _
    simpa [acquire, store] using hops
  · intro hmem
    obtain ⟨entry, hentry, heq⟩ := List.mem_map.mp hmem
    exact (mem_without.mp hentry).2 heq
  · intro hmem
    obtain ⟨entry, hentry, heq⟩ := List.mem_map.mp hmem
    exact absurd (hold entry hentry) (by rw [heq]; exact Nat.lt_irrefl _)
  · cases List.mem_cons.mp hentry with
    | inl heq =>
      rw [heq]
      exact Nat.lt_succ_self _
    | inr hentry => exact Nat.lt_succ_of_lt (hold entry hentry)
  · cases List.mem_cons.mp hentry with
    | inl heq =>
      rw [heq]
      exact List.mem_cons_self
    | inr hentry =>
      refine List.mem_cons_of_mem _ (mem_without.mpr ⟨h.consumer entry hentry, fun heq => hfree ?_⟩)
      exact List.mem_map.mpr ⟨entry, hentry, heq⟩
  · show Spaced interval ((s.delivered ++ [_]).map Frame.capturedAt)
    rw [List.map_append]
    exact spaced_append h.spaced h.paced hintime
  · show Paced interval due ((s.delivered ++ [_]).map Frame.capturedAt)
    rw [List.map_append]
    exact paced_append h.paced hdue hmoved
  · cases List.mem_append.mp hframe with
    | inl hframe => exact h.timely frame hframe
    | inr hframe =>
      rw [List.mem_singleton.mp hframe]
      exact hintime.not_gt

theorem inv_frame (hinterval : 0 ≤ interval) (h : Inv interval none s) {pulled : Pulled}
    (hfree : ∀ image, pulled = .image image → image ∉ s.consumer.map Prod.fst)
    (capturedAt : ℤ) (pushed : Bool) : ∃ stuck, Inv interval stuck (onFrame interval s capturedAt pulled pushed) := by
  unfold onFrame
  split_ifs with hearly
  · refine ⟨none, ?_⟩
    have hclosed := inv_closed h le_rfl (fun _ => hearly) s.running
    exact hclosed
  · have hintime : s.nextFrameDue ≤ capturedAt := not_lt.mp hearly
    cases hadvance : advance interval s.nextFrameDue capturedAt with
    | none =>
      have hzero : interval = 0 := by
        by_contra hne
        obtain ⟨due, hends⟩ := advance_ends (lt_of_le_of_ne hinterval (Ne.symm hne)) s.nextFrameDue capturedAt
        exact absurd (hadvance.symm.trans hends) (by simp)
      exact ⟨_, inv_stuck h hzero hintime⟩
    | some due =>
      obtain ⟨hdue, hmoved⟩ := advance_some hinterval hadvance
      have hne : interval ≠ 0 := by
        rintro rfl
        exact absurd ((catchUp_none le_rfl hintime _).symm.trans hadvance) (by simp)
      have hlater : s.nextFrameDue ≤ due := by linarith
      refine ⟨none, ?_⟩
      cases pulled with
      | refused => exact inv_closed h hlater (fun hzero => absurd hzero hne) false
      | foreign => exact inv_closed h hlater (fun hzero => absurd hzero hne) false
      | image image => exact inv_store h hne hintime hdue hmoved (hfree image rfl) pushed

theorem inv_next (hinterval : 0 ≤ interval) (h : ∃ stuck, Inv interval stuck s) {event : Event} (henabled : enabled s event) :
    ∃ stuck, Inv interval stuck (next interval s event) := by
  obtain ⟨stuck, h⟩ := h
  cases event with
  | interrupted => exact ⟨stuck, h⟩
  | failed => exact ⟨stuck, inv_failed h⟩
  | frame capturedAt pulled pushed =>
    obtain ⟨hrunning, hfree⟩ := henabled
    obtain rfl := h.free hrunning
    exact inv_frame hinterval h hfree capturedAt pushed
  | giveBack image => exact ⟨stuck, inv_giveBack h⟩
  | destroyImage image => exact ⟨stuck, inv_destroyImage h henabled⟩

end Invariant

/-! ## Runs -/

theorem inv_start (interval now : ℤ) : Inv interval none (start now) :=
  ⟨rfl, List.nodup_nil, List.nodup_nil, fun _ hentry => (by cases hentry), fun _ hentry => (by cases hentry),
    List.Sublist.refl _, spaced_nil _, paced_nil _ _, fun _ hframe => (by cases hframe), fun hsome => absurd rfl hsome,
    iff_of_false (fun hsome => hsome rfl) fun hframe => (by obtain ⟨-, _, hframe, -⟩ := hframe; cases hframe)⟩

/-- A run keeps everything exactly if its last frame was in time, and not caught in an empty interval. -/
theorem kept_iff (framerate now : ℤ) (events : List Event)
    (h : Runs enabled (next (frameInterval framerate)) (start now) events) :
    Kept (frameInterval framerate) (events.foldl (next (frameInterval framerate)) (start now)) ↔
      InTime (frameInterval framerate) (events.foldl (next (frameInterval framerate)) (start now)) := by
  obtain ⟨stuck, hinv⟩ := h.invariant (fun s => ∃ stuck, Inv (frameInterval framerate) stuck s) ⟨none, inv_start _ now⟩
    fun _ _ hs henabled => inv_next (frameInterval_nonneg framerate) hs henabled
  exact kept_iff_of_inv hinv

/-! ## A frame that came too early -/

section Early

/-- Two frames at 60 per second; the second is later. -/
def steady : List Event := [.frame 0 (.image 0) true, .giveBack 0, .frame 20000000 (.image 0) true]

theorem steady_kept : Kept (frameInterval 60) (steady.foldl (next (frameInterval 60)) (start 0)) := by
  refine (kept_iff 60 0 steady ?_).mpr ⟨?_, ?_⟩
  · exact ⟨⟨rfl, fun _ _ hmem => (by cases hmem)⟩, .head _, ⟨rfl, fun _ _ hmem => (by cases hmem)⟩, trivial⟩
  · intro frame hframe
    obtain rfl := Option.some.inj hframe
    show ¬(20000000 : ℤ) < 16666666
    decide
  · exact fun hzero => absurd hzero (by decide)

/-- The last change of the screen, 10 ms after another, is not shown. -/
theorem last_change_lost : ¬∀ events : List Event, Runs enabled (next (frameInterval 60)) (start 0) events →
    Kept (frameInterval 60) (events.foldl (next (frameInterval 60)) (start 0)) := by
  intro hall
  have hruns : Runs enabled (next (frameInterval 60)) (start 0) [.frame 0 (.image 0) true, .frame 10000000 (.image 1) true] :=
    ⟨⟨rfl, fun _ _ hmem => (by cases hmem)⟩, ⟨rfl, fun _ himage => (by cases himage; decide)⟩, trivial⟩
  have hshown := (hall _ hruns).shown ⟨1, 10000000, 16666666⟩ rfl (by decide)
  exact absurd hshown (by decide)

end Early

end Sunshine.HermesKms
