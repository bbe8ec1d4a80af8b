import Mathlib.Data.Finset.Card
import Sunshine.Video.CaptureSessions

/-! In which runs no session is stranded.

The reference count tells that nobody waits when a context is made or destroyed, and a queue that runs has
a thread in front of its guard. With these, every step but a raise leaves the sessions that wait within
reach of the thread; a raise does so if it hands over. -/
namespace Sunshine.CaptureSessions
open Transitions
set_option autoImplicit false

variable {parallel : Bool}

/-! ## The reference count -/

def threadRef (parallel : Bool) (phase : Phase) : ℕ :=
  if parallel = false ∧ phase.alive = true then 1 else 0

def Counted (parallel : Bool) (place : ℕ → Place) (refCount : ℕ) (phase : Phase) : Prop :=
  ∃ holders : Finset ℕ, (∀ i, i ∈ holders ↔ (place i).holds = true) ∧
    refCount = holders.card + threadRef parallel phase

section Counted
variable {place place' : ℕ → Place} {refCount i : ℕ} {phase phase' : Phase} {p : Place}

theorem Counted.same (h : Counted parallel place refCount phase)
    (hplace : ∀ i, (place' i).holds = (place i).holds)
    (hphase : threadRef parallel phase' = threadRef parallel phase) :
    Counted parallel place' refCount phase' := by
  obtain ⟨holders, hmem, hcount⟩ := h
  refine ⟨holders, fun i => ?_, ?_⟩
  · rw [hmem, hplace]
  · rw [hcount, hphase]

theorem Counted.thread (h : Counted parallel place refCount phase)
    (hphase : threadRef parallel phase' = threadRef parallel phase + 1) :
    Counted parallel place (refCount + 1) phase' := by
  obtain ⟨holders, hmem, hcount⟩ := h
  refine ⟨holders, hmem, ?_⟩
  rw [hcount, hphase, Nat.add_assoc]

theorem Counted.threadLeaves (h : Counted parallel place refCount phase)
    (hphase : threadRef parallel phase = threadRef parallel phase' + 1) :
    Counted parallel place (refCount - 1) phase' := by
  obtain ⟨holders, hmem, hcount⟩ := h
  refine ⟨holders, hmem, ?_⟩
  omega

theorem Counted.enter (h : Counted parallel place refCount phase) (hi : (place i).holds = false)
    (hp : p.holds = true) : Counted parallel (Function.update place i p) (refCount + 1) phase := by
  obtain ⟨holders, hmem, hcount⟩ := h
  have hnew : i ∉ holders := by
    rw [hmem, hi]
    exact Bool.false_ne_true
  refine ⟨insert i holders, fun j => ?_, ?_⟩
  · by_cases hj : j = i
    · subst hj
      simp [hp]
    · simp [hj, hmem]
  · rw [Finset.card_insert_of_notMem hnew, hcount, Nat.add_right_comm]

theorem Counted.leave (h : Counted parallel place refCount phase) (hi : (place i).holds = true)
    (hp : p.holds = false) : Counted parallel (Function.update place i p) (refCount - 1) phase := by
  obtain ⟨holders, hmem, hcount⟩ := h
  have hold : i ∈ holders := (hmem i).mpr hi
  have hpos : 0 < holders.card := Finset.card_pos.mpr ⟨i, hold⟩
  refine ⟨holders.erase i, fun j => ?_, ?_⟩
  · by_cases hj : j = i
    · subst hj
      simp [hp]
    · simp [hj, hmem]
  · rw [Finset.card_erase_of_mem hold]
    omega

theorem Counted.pos (h : Counted parallel place refCount phase) (hi : (place i).holds = true) :
    0 < refCount := by
  obtain ⟨holders, hmem, hcount⟩ := h
  have hpos : 0 < holders.card := Finset.card_pos.mpr ⟨i, (hmem i).mpr hi⟩
  omega

theorem Counted.noThread (h : Counted parallel place 0 phase) : threadRef parallel phase = 0 := by
  obtain ⟨holders, -, hcount⟩ := h
  omega

end Counted

/-- Placing a session where it holds as it did. -/
theorem put_holds (s : Capture) (i : ℕ) (p : Place) (hp : p.holds = (s.place i).holds) (j : ℕ) :
    ((s.put i p).place j).holds = (s.place j).holds := by
  by_cases hj : j = i
  · subst hj
    simp [Capture.put, hp]
  · simp [Capture.put, hj]

theorem enqueue_same (s : Capture) (i : ℕ) : (s.enqueue i).place = s.place ∧
    (s.enqueue i).told = s.told ∧ (s.enqueue i).refCount = s.refCount ∧
    (s.enqueue i).phase = s.phase ∧ (s.enqueue i).running = s.running ∧
    (s.enqueue i).contexts = s.contexts := by
  unfold Capture.enqueue
  split <;> exact ⟨rfl, rfl, rfl, rfl, rfl, rfl⟩

/-- The session that has made the context is there until the thread has its reference. -/
def Held (parallel : Bool) (s : Capture) : Prop :=
  parallel = false → s.phase = .starting →
    ∃ i, (s.place i = .entered ∨ s.place i = .waiting) ∧ s.told i = false

structure CaptureOk (parallel : Bool) (s : Capture) : Prop where
  counted : Counted parallel s.place s.refCount s.phase
  serves : s.running = true → s.phase.serves = true
  nodup : (s.queue ++ s.contexts).Nodup
  handed : ∀ i ∈ s.queue ++ s.contexts, s.place i ≠ .outside ∧ s.place i ≠ .entered
  fresh : ∀ i, s.place i = .outside ∨ s.place i = .entered → s.told i = false
  held : Held parallel s

theorem captureOk_initial : CaptureOk parallel {} where
  counted := ⟨∅, by simp [Place.holds], by cases parallel <;> rfl⟩
  serves h := by simp at h
  nodup := List.nodup_nil
  handed i hi := by simp at hi
  fresh i _ := rfl
  held _ h := by simp at h

theorem held_of_ne {s : Capture} (hphase : s.phase ≠ .starting) : Held parallel s :=
  fun _ hstarting => absurd hstarting hphase

/-! ## Steps -/

section Steps
variable {s t : Capture}

/-- A step of the thread, with the references as they are. -/
theorem CaptureOk.thread (h : CaptureOk parallel s) (hplace : t.place = s.place)
    (hcount : t.refCount = s.refCount) (hphase : threadRef parallel t.phase = threadRef parallel s.phase)
    (hserves : t.running = true → t.phase.serves = true) (hnodup : (t.queue ++ t.contexts).Nodup)
    (hmem : ∀ i ∈ t.queue ++ t.contexts, i ∈ s.queue ++ s.contexts)
    (htold : ∀ i, t.told i = true → s.told i = true ∨ i ∈ s.queue ++ s.contexts)
    (hheld : Held parallel t) : CaptureOk parallel t where
  counted := by
    rw [hplace, hcount]
    exact h.counted.same (fun _ => rfl) hphase
  serves := hserves
  nodup := hnodup
  handed i hi := by
    rw [hplace]
    exact h.handed i (hmem i hi)
  fresh i hi := by
    rw [hplace] at hi
    by_contra htrue
    rw [Bool.not_eq_false] at htrue
    rcases htold i htrue with hold | hin
    · rw [h.fresh i hi] at hold
      exact Bool.false_ne_true hold
    · rcases hi with hi | hi
      · exact (h.handed i hin).1 hi
      · exact (h.handed i hin).2 hi
  held := hheld

theorem put_fresh (h : CaptureOk parallel s) {i : ℕ} {p : Place} (hto : p ≠ .outside ∧ p ≠ .entered)
    (j : ℕ) (hj : (s.put i p).place j = .outside ∨ (s.put i p).place j = .entered) :
    s.told j = false := by
  by_cases hji : j = i
  · subst hji
    simp [Capture.put, hto] at hj
  · exact h.fresh j (by simpa [Capture.put, hji] using hj)

theorem put_handed (h : CaptureOk parallel s) {i : ℕ} {p : Place} (hto : p ≠ .outside ∧ p ≠ .entered)
    (j : ℕ) (hj : j ∈ s.queue ++ s.contexts) :
    (s.put i p).place j ≠ .outside ∧ (s.put i p).place j ≠ .entered := by
  by_cases hji : j = i
  · subst hji
    simpa [Capture.put] using hto
  · simpa [Capture.put, hji] using h.handed j hj

/-- A session that moves on behind its raise and keeps its reference. -/
theorem CaptureOk.move (h : CaptureOk parallel s) {i : ℕ} {p : Place} (hfrom : s.place i ≠ .entered)
    (hto : p ≠ .outside ∧ p ≠ .entered)
    (hholds : p.holds = (s.place i).holds)
    (hwait : parallel = false → s.place i = .waiting → s.told i = true) :
    CaptureOk parallel (s.put i p) where
  counted := h.counted.same (put_holds s i p hholds) rfl
  serves := h.serves
  nodup := h.nodup
  handed := put_handed h hto
  fresh := put_fresh h hto
  held hsync hstarting := by
    obtain ⟨k, hk, huntold⟩ := h.held hsync hstarting
    have hki : k ≠ i := by
      intro heq
      subst heq
      rcases hk with hk | hk
      · exact hfrom hk
      · rw [hwait hsync hk] at huntold
        exact Bool.noConfusion huntold
    exact ⟨k, by simpa [Capture.put, hki] using hk, huntold⟩

/-- The state with a reference more, and one session that comes to hold it. -/
theorem CaptureOk.enter (h : CaptureOk parallel s) {i : ℕ} (hi : s.place i = .outside) :
    CaptureOk parallel (s.ref.put i .entered) := by
  have huntold : s.told i = false := h.fresh i (.inl hi)
  have hfree : (s.place i).holds = false := by rw [hi]; rfl
  have hfresh : ∀ j, (Function.update s.place i .entered) j = .outside ∨
      (Function.update s.place i .entered) j = .entered → s.told j = false := by
    intro j hj
    by_cases hji : j = i
    · rw [hji]
      exact huntold
    · exact h.fresh j (by simpa [hji] using hj)
  unfold Capture.ref
  split
  · rename_i hzero
    have hnone : Counted parallel s.place 0 .starting := by
      have hcounted := h.counted
      rw [hzero] at hcounted
      refine hcounted.same (fun _ => rfl) ?_
      rw [hcounted.noThread]
      cases parallel <;> rfl
    exact
      { counted := hnone.enter hfree rfl
        serves := fun _ => rfl
        nodup := List.nodup_nil
        handed := fun j hj => absurd hj List.not_mem_nil
        fresh := hfresh
        held := fun _ _ => ⟨i, .inl (by simp [Capture.put]), huntold⟩ }
  · refine
      { counted := h.counted.enter hfree rfl
        serves := h.serves
        nodup := h.nodup
        handed := fun j hj => ?_
        fresh := hfresh
        held := fun _ _ => ⟨i, .inl (by simp [Capture.put]), huntold⟩ }
    have hji : j ≠ i := by
      intro heq
      subst heq
      exact (h.handed j hj).1 hi
    simpa [Capture.put, hji] using h.handed j hj

theorem CaptureOk.raise (h : CaptureOk parallel s) {i : ℕ} (hi : s.place i = .entered) :
    CaptureOk parallel ((s.enqueue i).put i (if parallel then .raised else .waiting)) := by
  obtain ⟨hplace, htold, hcount, hphase, hrunning, hcontexts⟩ := enqueue_same s i
  have hnew : i ∉ s.queue ++ s.contexts := fun hin => (h.handed i hin).2 hi
  have hqueue : ((s.enqueue i).queue ++ s.contexts).Nodup ∧
      ∀ j ∈ (s.enqueue i).queue ++ s.contexts, j = i ∨ j ∈ s.queue ++ s.contexts := by
    unfold Capture.enqueue
    split
    · have hkept : ((if maxContexts ≤ s.queue.length then [] else s.queue) ++ s.contexts).Sublist
          (s.queue ++ s.contexts) := by
        split
        · exact List.sublist_append_right _ _
        · exact List.Sublist.refl _
      generalize (if maxContexts ≤ s.queue.length then [] else s.queue) = kept at hkept
      have hperm : ((kept ++ [i]) ++ s.contexts).Perm (i :: (kept ++ s.contexts)) := by
        rw [List.append_assoc]
        exact List.perm_middle
      constructor
      · exact hperm.nodup_iff.mpr
          (List.nodup_cons.mpr ⟨fun hin => hnew (hkept.subset hin), h.nodup.sublist hkept⟩)
      · intro j hj
        rcases List.mem_cons.mp (hperm.mem_iff.mp hj) with heq | hin
        · exact .inl heq
        · exact .inr (hkept.subset hin)
    · exact ⟨h.nodup, fun j hj => .inr hj⟩
  refine
    { counted := ?_
      serves := fun hrun => ?_
      nodup := ?_
      handed := fun j hj => ?_
      fresh := fun j hj => ?_
      held := fun hsync hstarting => ?_ }
  · show Counted parallel ((s.enqueue i).put i _).place (s.enqueue i).refCount (s.enqueue i).phase
    rw [hcount, hphase]
    refine h.counted.same (fun j => ?_) rfl
    rw [put_holds, hplace]
    rw [hplace, hi]
    cases parallel <;> rfl
  · exact hphase ▸ h.serves (hrunning ▸ hrun)
  · show ((s.enqueue i).queue ++ (s.enqueue i).contexts).Nodup
    rw [hcontexts]
    exact hqueue.1
  · have hin : j ∈ (s.enqueue i).queue ++ s.contexts := by
      rw [← hcontexts]
      exact hj
    by_cases hji : j = i
    · subst hji
      cases parallel <;> simp [Capture.put]
    · rcases hqueue.2 j hin with heq | hold
      · exact absurd heq hji
      · simpa [Capture.put, hji, hplace] using h.handed j hold
  · show (s.enqueue i).told j = false
    rw [htold]
    by_cases hji : j = i
    · rw [hji]
      exact h.fresh i (.inr hi)
    · exact h.fresh j (by simpa [Capture.put, hji, hplace] using hj)
  · obtain ⟨k, hk, huntold⟩ := h.held hsync (hphase ▸ hstarting)
    refine ⟨k, ?_, by
      show (s.enqueue i).told k = false
      rw [htold]
      exact huntold⟩
    by_cases hki : k = i
    · subst hki
      simp [Capture.put, hsync]
    · simpa [Capture.put, hki, hplace] using hk

/-- A context that nobody refers to any more. -/
theorem captureOk_destroyed (hcounted : Counted parallel s.place s.refCount .absent)
    (hfresh : ∀ i, s.place i = .outside ∨ s.place i = .entered → s.told i = false) :
    CaptureOk parallel s.destroyed where
  counted := hcounted
  serves hrun := Bool.noConfusion hrun
  nodup := List.nodup_nil
  handed i hi := absurd hi List.not_mem_nil
  fresh := hfresh
  held := held_of_ne (by simp [Capture.destroyed])

theorem put_held (h : Held parallel s) {i : ℕ} {p : Place}
    (hfrom : s.place i ≠ .entered ∧ s.place i ≠ .waiting) : Held parallel (s.put i p) := by
  intro hsync hstarting
  obtain ⟨k, hk, huntold⟩ := h hsync hstarting
  have hki : k ≠ i := by
    intro heq
    subst heq
    exact hk.elim hfrom.1 hfrom.2
  exact ⟨k, by simpa [Capture.put, hki] using hk, huntold⟩

theorem CaptureOk.release (h : CaptureOk parallel s) {i : ℕ} (hi : s.place i = .leaving) :
    CaptureOk parallel ((s.unref parallel i).put i (if parallel then .released else .left)) := by
  have hholds : (s.place i).holds = true := by rw [hi]; rfl
  have hto : (if parallel then Place.released else .left) ≠ .outside ∧
      (if parallel then Place.released else .left) ≠ .entered := by
    cases parallel <;> simp
  have hfree : (if parallel then Place.released else .left).holds = false := by
    cases parallel <;> rfl
  generalize (if parallel then Place.released else .left) = p at hto hfree
  have hcounted := h.counted.leave hholds hfree
  have hheld : Held parallel (s.put i p) := put_held h.held (by simp [hi])
  unfold Capture.unref
  by_cases hlast : s.refCount - 1 ≠ 0
  · rw [if_pos hlast]
    exact ⟨hcounted, h.serves, h.nodup, put_handed h hto, put_fresh h hto, hheld⟩
  · rw [if_neg hlast]
    rw [not_ne_iff] at hlast
    by_cases hparallel : parallel = true
    · rw [if_pos hparallel]
      exact ⟨hcounted, fun hrun => Bool.noConfusion hrun, h.nodup, put_handed h hto, put_fresh h hto,
        hheld⟩
    · rw [if_neg hparallel]
      rw [hlast] at hcounted
      have habsent : Counted parallel (Function.update s.place i p) (s.refCount - 1) .absent := by
        rw [hlast]
        exact hcounted.same (fun _ => rfl) (by rw [hcounted.noThread]; simp [threadRef, Phase.alive])
      exact captureOk_destroyed (s := { s.put i p with refCount := s.refCount - 1 }) habsent
        (put_fresh h hto)

/-- The guard of `capture_async`, behind the release. -/
theorem CaptureOk.guard (h : CaptureOk parallel s) {i : ℕ} (hi : s.place i = .released) :
    CaptureOk parallel ((s.tell [i]).put i .left) where
  counted := h.counted.same (put_holds (s.tell [i]) i .left (by simp [Capture.tell, hi, Place.holds]))
    rfl
  serves := h.serves
  nodup := h.nodup
  handed := put_handed (i := i) (p := .left) h (by simp)
  fresh j hj := by
    have hold : s.told j = false := put_fresh (i := i) (p := .left) h (by simp) j hj
    have hji : j ≠ i := by
      intro heq
      subst heq
      simp [Capture.put] at hj
    simp [Capture.put, Capture.tell, hold, hji]
  held hsync hstarting := by
    obtain ⟨k, hk, huntold⟩ := h.held hsync hstarting
    have hki : k ≠ i := by
      intro heq
      subst heq
      simp [hi] at hk
    exact ⟨k, by simpa [Capture.put, Capture.tell, hki] using hk, by
      simp [Capture.put, Capture.tell, huntold, hki]⟩

/-- While the thread starts, the reference it takes is not the first one. -/
theorem CaptureOk.starting_referenced (h : CaptureOk false s) (hphase : s.phase = .starting) :
    s.refCount ≠ 0 := by
  obtain ⟨k, hk, -⟩ := h.held rfl hphase
  refine (h.counted.pos (i := k) ?_).ne'
  rcases hk with hk | hk <;> rw [hk] <;> rfl

theorem CaptureOk.starts (h : CaptureOk parallel s) (hphase : s.phase = .starting) :
    CaptureOk parallel { if parallel then s else s.ref with phase := .working } := by
  cases parallel with
  | true =>
    refine h.thread rfl rfl (by simp [threadRef]) (fun _ => rfl) h.nodup (fun _ hi => hi)
      (fun _ hi => .inl hi) (held_of_ne ?_)
    simp
  | false =>
    have href : s.ref = { s with refCount := s.refCount + 1 } :=
      if_neg (h.starting_referenced hphase)
    simp only [Bool.false_eq_true, if_false, href]
    exact
      { counted := h.counted.thread (by rw [hphase]; rfl)
        serves := fun _ => rfl
        nodup := h.nodup
        handed := h.handed
        fresh := h.fresh
        held := held_of_ne (by simp) }

theorem CaptureOk.releases (h : CaptureOk parallel s) (hphase : s.phase = .queueTold) :
    CaptureOk parallel (nextCapture parallel s .releases) := by
  have hstopped : s.running ≠ true := by
    intro hrun
    have hserves := h.serves hrun
    rw [hphase] at hserves
    exact Bool.noConfusion hserves
  cases parallel with
  | true =>
    refine h.thread rfl rfl (by simp [threadRef, nextCapture]) (fun hrun => absurd hrun hstopped)
      h.nodup (fun _ hi => hi) (fun _ hi => .inl hi) (held_of_ne ?_)
    simp [nextCapture]
  | false =>
    have hcounted : Counted false s.place (s.refCount - 1) .ended :=
      h.counted.threadLeaves (by rw [hphase]; rfl)
    simp only [nextCapture, Bool.false_eq_true, if_false]
    split
    · rename_i hzero
      rw [hzero] at hcounted
      exact captureOk_destroyed (s := { s with phase := .ended, refCount := 0 })
        (hcounted.same (fun _ => rfl) rfl) h.fresh
    · exact
        { counted := hcounted
          serves := fun hrun => absurd hrun hstopped
          nodup := h.nodup
          handed := h.handed
          fresh := h.fresh
          held := held_of_ne (by simp) }

theorem CaptureOk.takes (h : CaptureOk parallel s) (hphase : s.phase.serves = true)
    (hstarting : s.phase ≠ .starting) : CaptureOk parallel (nextCapture parallel s .takes) := by
  have hperm : (s.queue.tail ++ (s.contexts ++ s.queue.head?.toList)).Perm (s.queue ++ s.contexts) := by
    cases s.queue with
    | nil => simp
    | cons i q =>
      simp only [List.tail_cons, List.head?_cons, Option.toList_some]
      rw [← List.append_assoc]
      exact List.perm_append_singleton i (q ++ s.contexts)
  exact h.thread rfl rfl rfl (fun _ => hphase) (hperm.nodup_iff.mpr h.nodup)
    (fun i hi => hperm.mem_iff.mp hi) (fun _ hi => .inl hi) (held_of_ne hstarting)

theorem CaptureOk.drops (h : CaptureOk parallel s) {i : ℕ} (hi : i ∈ s.contexts)
    (hphase : s.phase.serves = true) (hstarting : s.phase ≠ .starting) :
    CaptureOk parallel (nextCapture parallel s (.drops i)) := by
  have hsub : (s.queue ++ s.contexts.erase i).Sublist (s.queue ++ s.contexts) :=
    (List.Sublist.refl _).append List.erase_sublist
  have hi' : i ∈ s.queue ++ s.contexts := List.mem_append_right _ hi
  cases parallel with
  | true =>
    exact h.thread rfl rfl rfl (fun _ => hphase) (h.nodup.sublist hsub) (fun j hj => hsub.subset hj)
      (fun _ hj => .inl hj) (held_of_ne hstarting)
  | false =>
    refine h.thread rfl rfl rfl (fun _ => hphase) (h.nodup.sublist hsub) (fun j hj => hsub.subset hj)
      (fun j hj => ?_) (held_of_ne hstarting)
    by_cases hji : j = i
    · rw [hji]
      exact .inr hi'
    · exact .inl (by simpa [nextCapture, hji] using hj)

end Steps

theorem threadRef_alive {p q : Phase} (h : p.alive = q.alive) :
    threadRef parallel p = threadRef parallel q := by
  rw [threadRef, h, threadRef]

theorem CaptureOk.next {s : Capture} (h : CaptureOk parallel s) (e : CaptureEvent)
    (hen : CaptureEnabled parallel s e) : CaptureOk parallel (nextCapture parallel s e) := by
  cases e with
  | enter i => exact h.enter hen.1
  | raise i => exact h.raise hen
  | check i =>
    have hi : s.place i = .raised := hen
    refine h.move (by simp [hi]) ?_ ?_ (fun _ hwait => ?_)
    · split <;> simp
    · rw [hi]
      split <;> rfl
    · rw [hi] at hwait
      cases hwait
  | view i =>
    exact h.move (by simp [hen.2.1]) (by simp) (by rw [hen.2.1]; rfl) (fun _ _ => hen.2.2)
  | quit i =>
    refine h.move (by simp [hen.2]) (by simp) (by rw [hen.2]; rfl) (fun hsync _ => ?_)
    rw [hen.1] at hsync
    cases hsync
  | release i => exact h.release hen.1
  | guard i => exact h.guard hen.1
  | joined i =>
    refine captureOk_destroyed (h.counted.same (fun _ => rfl) ?_) h.fresh
    rw [hen.2]
    rfl
  | starts => exact h.starts hen.1
  | takes =>
    obtain ⟨-, -, hphase⟩ := hen
    rcases hphase with hphase | ⟨-, hphase, -⟩
    · exact h.takes (by rw [hphase]; rfl) (by simp [hphase])
    · exact h.takes (by rw [hphase]; rfl) (by simp [hphase])
  | drops i =>
    obtain ⟨hi, hphase⟩ := hen
    have hphase : s.phase = .working ∨ s.phase = .reinitialising := by
      cases parallel with
      | true => exact hphase.1
      | false => exact .inl hphase.1
    rcases hphase with hphase | hphase
    · exact h.drops hi (by rw [hphase]; rfl) (by simp [hphase])
    · exact h.drops hi (by rw [hphase]; rfl) (by simp [hphase])
  | reinit =>
    refine h.thread rfl rfl (threadRef_alive ?_) (fun _ => rfl) h.nodup (fun _ hi => hi)
      (fun _ hi => .inl hi) (held_of_ne (by simp [nextCapture]))
    rw [show s.phase = .working from hen]
    rfl
  | reinitDone =>
    refine h.thread rfl rfl (threadRef_alive ?_) (fun _ => rfl) h.nodup (fun _ hi => hi)
      (fun _ hi => .inl hi) (held_of_ne (by simp [nextCapture]))
    rw [show s.phase = .reinitialising from hen]
    rfl
  | ends cause =>
    have hphase : s.phase = .working ∨ s.phase = .reinitialising := by
      cases cause with
      | lastGone => exact .inl hen.2.1
      | failed => exact hen
      | queueStopped => exact hen.2
    refine h.thread rfl rfl (threadRef_alive ?_) (fun _ => rfl) h.nodup (fun _ hi => hi)
      (fun _ hi => .inl hi) (held_of_ne (by simp [nextCapture]))
    rcases hphase with hphase | hphase <;> rw [hphase] <;> rfl
  | stopsQueue =>
    refine h.thread rfl rfl (threadRef_alive ?_) (fun hrun => Bool.noConfusion hrun) h.nodup
      (fun _ hi => hi) (fun _ hi => .inl hi) (held_of_ne (by simp [nextCapture]))
    rw [show s.phase = .ending from hen]
    rfl
  | tellsList =>
    have hphase : s.phase = .stopped := hen
    refine h.thread rfl rfl (threadRef_alive (by rw [hphase]; rfl)) (fun hrun => ?_) h.nodup
      (fun _ hi => hi) (fun i hi => ?_) (held_of_ne (by simp [nextCapture]))
    · have hserves := h.serves hrun
      rw [hphase] at hserves
      exact Bool.noConfusion hserves
    · simp only [nextCapture, Capture.tell, Bool.or_eq_true, List.contains_iff_mem] at hi
      exact hi.imp_right (List.mem_append_right _)
  | tellsQueue =>
    have hphase : s.phase = .listTold := hen
    refine h.thread rfl rfl (threadRef_alive (by rw [hphase]; rfl)) (fun hrun => ?_) h.nodup
      (fun _ hi => hi) (fun i hi => ?_) (held_of_ne (by simp [nextCapture]))
    · have hserves := h.serves hrun
      rw [hphase] at hserves
      exact Bool.noConfusion hserves
    · simp only [nextCapture, Capture.tell, Bool.or_eq_true, List.contains_iff_mem] at hi
      exact hi.imp_right (List.mem_append_left _)
  | releases => exact h.releases hen.1
  | shutdown i => exact ⟨h.counted, h.serves, h.nodup, h.handed, h.fresh, h.held⟩

/-! ## Sessions that wait -/

section Waiting
variable {s t : Capture}

theorem noneStranded_iff : NoneStranded s ↔ ∀ i, Waits s i → Reached s i := by
  unfold NoneStranded Stranded
  simp only [not_and_not_right]

/-- A step after which fewer sessions wait, those within reach as before. -/
theorem NoneStranded.keeps (h : NoneStranded s) (hwaits : ∀ i, Waits t i → Waits s i)
    (hreach : ∀ i, Waits t i → Reached s i → Reached t i) : NoneStranded t := by
  rw [noneStranded_iff] at h ⊢
  intro i hi
  exact hreach i hi (h i (hwaits i hi))

theorem waits_of_put {i : ℕ} {p : Place} (hp : p ≠ .waiting ∧ p ≠ .raised) {j : ℕ}
    (hj : Waits (s.put i p) j) : Waits s j := by
  have hji : j ≠ i := by
    intro heq
    subst heq
    simp [Waits, Capture.put, hp] at hj
  simpa [Waits, Capture.put, hji] using hj

theorem Waits.holds {i : ℕ} (h : Waits s i) : (s.place i).holds = true := by
  obtain ⟨-, hwaiting | ⟨hraised, -⟩⟩ := h
  · rw [hwaiting]
    rfl
  · rw [hraised]
    rfl

theorem CaptureOk.idle (h : CaptureOk parallel s) (hzero : s.refCount = 0) (i : ℕ) : ¬Waits s i := by
  intro hi
  have hpos := h.counted.pos hi.holds
  omega

theorem Phase.serves_readsList {phase : Phase} (h : phase.serves = true) : phase.readsList = true := by
  rw [Phase.readsList, h]
  rfl

theorem Phase.serves_readsQueue {phase : Phase} (h : phase.serves = true) : phase.readsQueue = true := by
  rw [Phase.readsQueue, serves_readsList h]
  rfl

theorem Reached.of_serves {i : ℕ} (h : Reached s i) (hphase : t.phase.serves = true)
    (hmem : i ∈ s.queue ++ s.contexts → i ∈ t.queue ++ t.contexts) : Reached t i := by
  have hin : i ∈ s.queue ++ s.contexts := by
    rcases h with ⟨hin, -⟩ | ⟨hin, -⟩
    · exact List.mem_append_left _ hin
    · exact List.mem_append_right _ hin
  rcases List.mem_append.mp (hmem hin) with hin | hin
  · exact .inl ⟨hin, Phase.serves_readsQueue hphase⟩
  · exact .inr ⟨hin, Phase.serves_readsList hphase⟩

theorem noneStranded_raise (h : CaptureOk parallel s) (hs : NoneStranded s) {i : ℕ}
    (hi : s.place i = .entered) : NoneStranded (nextCapture parallel s (.raise i)) ↔
      HandsOver parallel s (.raise i) := by
  have hnew : i ∉ s.queue ++ s.contexts := fun hin => (h.handed i hin).2 hi
  have huntold : s.told i = false := h.fresh i (.inr hi)
  have hwaits : ∀ j, j ≠ i → (Waits (nextCapture parallel s (.raise i)) j ↔ Waits s j) := by
    intro j hji
    obtain ⟨hplace, htold, -, -, hrunning, -⟩ := enqueue_same s i
    simp [Waits, nextCapture, Capture.put, hji, hplace, htold, hrunning]
  rw [noneStranded_iff] at hs ⊢
  by_cases hrun : s.running = true
  · -- The queue runs: the context is in it, and those that were cleared are nowhere.
    have hserves := h.serves hrun
    simp only [HandsOver, if_pos hrun]
    have hqueue : (nextCapture parallel s (.raise i)).queue =
        (if maxContexts ≤ s.queue.length then [] else s.queue) ++ [i] := by
      simp [nextCapture, Capture.put, Capture.enqueue, hrun]
    have hrest : (nextCapture parallel s (.raise i)).contexts = s.contexts ∧
        (nextCapture parallel s (.raise i)).phase = s.phase := by
      obtain ⟨-, -, -, hphase, -, hcontexts⟩ := enqueue_same s i
      exact ⟨hcontexts, hphase⟩
    constructor
    · intro hnone hfull j hj hwait
      have hji : j ≠ i := by
        intro heq
        exact hnew (heq ▸ List.mem_append_left _ hj)
      rcases hnone j ((hwaits j hji).mpr hwait) with ⟨hin, -⟩ | ⟨hin, -⟩
      · rw [hqueue, if_pos hfull, List.nil_append, List.mem_singleton] at hin
        exact hji hin
      · rw [hrest.1] at hin
        exact (List.nodup_append.mp h.nodup).2.2 j hj j hin rfl
    · intro hclears j hj
      by_cases hji : j = i
      · refine .inl ⟨?_, ?_⟩
        · rw [hqueue, hji]
          exact List.mem_append_right _ (List.mem_singleton_self i)
        · rw [hrest.2]
          exact Phase.serves_readsQueue hserves
      · have hwait := (hwaits j hji).mp hj
        rcases hs j hwait with ⟨hin, hreads⟩ | hin
        · have hroom : ¬maxContexts ≤ s.queue.length := fun hfull => hclears hfull j hin hwait
          refine .inl ⟨?_, ?_⟩
          · rw [hqueue, if_neg hroom]
            exact List.mem_append_left _ hin
          · rw [hrest.2]
            exact hreads
        · refine .inr ?_
          rw [hrest.1, hrest.2]
          exact hin
  · -- The queue is stopped: the raise changes nothing but the place of the session.
    simp only [HandsOver, if_neg hrun]
    have hsame : s.enqueue i = s := if_neg hrun
    cases hparallel : parallel with
    | true =>
      simp only [iff_true]
      intro j hj
      have hji : j ≠ i := by
        intro heq
        subst heq
        simp [Waits, nextCapture, hsame, Capture.put, hrun] at hj
      have hwait : Waits s j := by
        have hiff := hwaits j hji
        rw [hparallel] at hiff
        exact hiff.mp hj
      have hreach := hs j hwait
      simpa [Reached, nextCapture, hsame, Capture.put] using hreach
    | false =>
      simp only [Bool.false_eq_true, iff_false, not_forall]
      refine ⟨i, ?_, ?_⟩
      · exact ⟨by simpa [nextCapture, hsame, Capture.put] using huntold,
          .inl (by simp [nextCapture, hsame, Capture.put])⟩
      · intro hreach
        simp only [nextCapture, hsame] at hreach
        rcases hreach with ⟨hin, -⟩ | ⟨hin, -⟩
        · exact hnew (List.mem_append_left _ hin)
        · exact hnew (List.mem_append_right _ hin)

theorem noneStranded_release (h : CaptureOk parallel s) (hs : NoneStranded s) {i : ℕ}
    (hi : s.place i = .leaving) : NoneStranded (nextCapture parallel s (.release i)) := by
  have hok := h.release hi
  have hplace : (if parallel then Place.released else .left) ≠ .waiting ∧
      (if parallel then Place.released else .left) ≠ .raised := by
    cases parallel <;> simp
  by_cases hlast : s.refCount - 1 ≠ 0
  · have hunref : s.unref parallel i = { s with refCount := s.refCount - 1 } := if_pos hlast
    refine hs.keeps (fun j hj => ?_) (fun j _ hreach => ?_)
    · simp only [nextCapture, hunref] at hj
      exact waits_of_put (s := s) hplace hj
    · simpa [Reached, nextCapture, hunref, Capture.put] using hreach
  · have hzero : (nextCapture parallel s (.release i)).refCount = 0 := by
      rw [not_ne_iff] at hlast
      simp only [nextCapture, Capture.put, Capture.unref, hlast, ne_eq, not_true_eq_false, if_false]
      cases parallel <;> rfl
    exact fun j hj => hok.idle hzero j hj.1

theorem noneStranded_enter (h : CaptureOk parallel s) (hs : NoneStranded s) (i : ℕ) :
    NoneStranded (nextCapture parallel s (.enter i)) := by
  by_cases hzero : s.refCount = 0
  · intro j hj
    have hplace : s.ref.place = s.place ∧ s.ref.told = s.told := by
      unfold Capture.ref
      split <;> exact ⟨rfl, rfl⟩
    have hwait : Waits s.ref j := waits_of_put (by simp) hj.1
    have hholds := hwait.holds
    rw [hplace.1] at hholds
    have hpos := h.counted.pos hholds
    omega
  · have href : s.ref = { s with refCount := s.refCount + 1 } := if_neg hzero
    refine hs.keeps (fun j hj => ?_) (fun j _ hreach => ?_)
    · simp only [nextCapture, href] at hj
      exact waits_of_put (s := s) (by simp) hj
    · simpa [Reached, nextCapture, href, Capture.put] using hreach

theorem noneStranded_starts (h : CaptureOk parallel s) (hs : NoneStranded s)
    (hphase : s.phase = .starting) : NoneStranded (nextCapture parallel s .starts) := by
  cases parallel with
  | true => exact hs.keeps (fun _ hj => hj) (fun _ _ hreach => hreach.of_serves rfl id)
  | false =>
    have href : s.ref = { s with refCount := s.refCount + 1 } :=
      if_neg (h.starting_referenced hphase)
    have hnext : nextCapture false s .starts =
        { s with refCount := s.refCount + 1, phase := .working } := by
      simp [nextCapture, href]
    rw [hnext]
    exact hs.keeps (fun _ hj => hj) (fun _ _ hreach => hreach.of_serves rfl id)

theorem noneStranded_drops (hs : NoneStranded s) {i : ℕ} (hphase : s.phase.serves = true)
    (htold : parallel = true → s.told i = true) :
    NoneStranded (nextCapture parallel s (.drops i)) := by
  have hwaits : ∀ j, Waits (nextCapture parallel s (.drops i)) j → j ≠ i ∧ Waits s j := by
    intro j hj
    have hji : j ≠ i := by
      intro heq
      subst heq
      cases parallel with
      | true =>
        have huntold : s.told j = false := hj.1
        rw [htold rfl] at huntold
        cases huntold
      | false => simp [Waits, nextCapture] at hj
    refine ⟨hji, ?_⟩
    cases parallel with
    | true => exact hj
    | false => simpa [Waits, nextCapture, hji] using hj
  refine hs.keeps (fun j hj => (hwaits j hj).2) (fun j hj hreach => ?_)
  have hserves : (nextCapture parallel s (.drops i)).phase.serves = true := by
    cases parallel <;> exact hphase
  refine hreach.of_serves hserves (fun hin => ?_)
  have herase : j ∈ s.queue ++ s.contexts.erase i := by
    rw [List.mem_append] at hin ⊢
    exact hin.imp_right (List.mem_erase_of_ne (hwaits j hj).1).mpr
  cases parallel <;> exact herase

/-- What the guard tells the sessions of a list, they no longer wait for. -/
theorem waits_of_tell {l : List ℕ} {i : ℕ} (h : Waits (s.tell l) i) : Waits s i ∧ i ∉ l := by
  obtain ⟨htold, hplace⟩ := h
  simp only [Capture.tell, Bool.or_eq_false_iff] at htold
  refine ⟨⟨htold.1, hplace⟩, fun hin => ?_⟩
  rw [List.contains_iff_mem.mpr hin] at htold
  exact Bool.noConfusion htold.2

theorem noneStranded_next (h : CaptureOk parallel s) (hs : NoneStranded s) (e : CaptureEvent)
    (hen : CaptureEnabled parallel s e) :
    NoneStranded (nextCapture parallel s e) ↔ HandsOver parallel s e := by
  cases e with
  | raise i => exact noneStranded_raise h hs hen
  | enter i => exact iff_of_true (noneStranded_enter h hs i) trivial
  | check i =>
    refine iff_of_true (hs.keeps (fun j hj => ?_) (fun _ _ hreach => hreach)) trivial
    by_cases hji : j = i
    · subst hji
      have hj' : s.place j = .raised := hen
      by_cases hrun : s.running = true
      · exact ⟨hj.1, .inr ⟨hj', hrun⟩⟩
      · simp [Waits, nextCapture, Capture.put, hrun] at hj
    · simpa [Waits, nextCapture, Capture.put, hji] using hj
  | view i | quit i =>
    exact iff_of_true
      (hs.keeps (fun j hj => waits_of_put (by simp) hj) (fun _ _ hreach => hreach)) trivial
  | release i => exact iff_of_true (noneStranded_release h hs hen.1) trivial
  | guard i =>
    refine iff_of_true (hs.keeps (fun j hj => ?_) (fun _ _ hreach => hreach)) trivial
    exact (waits_of_tell (waits_of_put (s := s.tell [i]) (by simp) hj)).1
  | joined i =>
    refine iff_of_true (fun j hj => ?_) trivial
    have hplace : s.place j = .waiting := by
      simpa [Waits, nextCapture, Capture.destroyed] using hj.1.2
    rcases noneStranded_iff.mp hs j ⟨hj.1.1, .inl hplace⟩ with ⟨-, hreads⟩ | ⟨-, hreads⟩
    · rw [hen.2] at hreads
      cases hreads
    · rw [hen.2] at hreads
      cases hreads
  | starts => exact iff_of_true (noneStranded_starts h hs hen.1) trivial
  | takes =>
    refine iff_of_true (hs.keeps (fun _ hj => hj) (fun j _ hreach => ?_)) trivial
    refine hreach.of_serves (h.serves hen.1) (fun hin => ?_)
    simp only [nextCapture]
    cases hqueue : s.queue with
    | nil => exact absurd hqueue hen.2.1
    | cons k q =>
      rw [hqueue, List.cons_append, List.mem_cons, List.mem_append] at hin
      simp only [List.tail_cons, List.head?_cons, Option.toList_some, List.mem_append,
        List.mem_singleton]
      tauto
  | drops i =>
    obtain ⟨-, hphase⟩ := hen
    cases parallel with
    | true =>
      refine iff_of_true (noneStranded_drops hs ?_ (fun _ => hphase.2)) trivial
      rcases hphase.1 with hphase | hphase <;> rw [hphase] <;> rfl
    | false =>
      refine iff_of_true (noneStranded_drops hs ?_ (fun heq => Bool.noConfusion heq)) trivial
      rw [hphase.1]
      rfl
  | reinit | reinitDone | ends cause =>
    exact iff_of_true
      (hs.keeps (fun _ hj => hj) (fun _ _ hreach => hreach.of_serves rfl id)) trivial
  | stopsQueue =>
    have hphase : s.phase = .ending := hen
    refine iff_of_true (hs.keeps (fun j hj => ?_) (fun j _ hreach => ?_)) trivial
    · exact ⟨hj.1, .inl (by simpa [Waits, nextCapture] using hj.2)⟩
    · rcases hreach with ⟨hin, -⟩ | ⟨hin, -⟩
      · exact .inl ⟨hin, rfl⟩
      · exact .inr ⟨hin, rfl⟩
  | tellsList =>
    refine iff_of_true (hs.keeps (fun j hj => (waits_of_tell hj).1) (fun j hj hreach => ?_)) trivial
    rcases hreach with ⟨hin, -⟩ | ⟨hin, -⟩
    · exact .inl ⟨hin, rfl⟩
    · exact absurd hin (waits_of_tell hj).2
  | tellsQueue =>
    have hphase : s.phase = .listTold := hen
    refine iff_of_true (hs.keeps (fun j hj => (waits_of_tell hj).1) (fun j hj hreach => ?_)) trivial
    rcases hreach with ⟨hin, -⟩ | ⟨-, hreads⟩
    · exact absurd hin (waits_of_tell hj).2
    · rw [hphase] at hreads
      cases hreads
  | releases =>
    -- In front of the release everyone has been told, so nobody waits.
    refine iff_of_true (fun j hj => ?_) trivial
    have hwait : Waits s j := by
      obtain ⟨⟨htold, hplace⟩, -⟩ := hj
      simp only [nextCapture] at htold hplace
      split at htold
      · rename_i hparallel
        rw [if_pos hparallel] at hplace
        exact ⟨htold, hplace⟩
      · rename_i hsync
        rw [if_neg hsync] at hplace
        split at htold
        · rename_i hzero
          rw [if_pos hzero] at hplace
          exact ⟨htold, .inl (by simpa [Capture.destroyed] using hplace)⟩
        · rename_i hzero
          rw [if_neg hzero] at hplace
          exact ⟨htold, hplace⟩
    rcases noneStranded_iff.mp hs j hwait with ⟨-, hreads⟩ | ⟨-, hreads⟩
    · rw [hen.1] at hreads
      cases hreads
    · rw [hen.1] at hreads
      cases hreads
  | shutdown i =>
    exact iff_of_true (hs.keeps (fun _ hj => hj) (fun _ _ hreach => hreach)) trivial

end Waiting

/-! ## Runs -/

theorem noneStranded_initial : NoneStranded {} := by
  intro i hi
  simp [Stranded, Waits] at hi

/-- No state in front of, between or behind these events has a stranded session. -/
def NeverStranded (parallel : Bool) (s : Capture) (l : List CaptureEvent) : Prop :=
  ∀ m, m <+: l → NoneStranded (m.foldl (nextCapture parallel) s)

theorem neverStranded_run {s : Capture} (h : CaptureOk parallel s) (hs : NoneStranded s)
    (l : List CaptureEvent) (hrun : Runs (CaptureEnabled parallel) (nextCapture parallel) s l) :
    NeverStranded parallel s l ↔ Runs (HandsOver parallel) (nextCapture parallel) s l := by
  induction l generalizing s with
  | nil =>
    refine iff_of_true (fun m hm => ?_) trivial
    rw [List.prefix_nil.mp hm]
    exact hs
  | cons e l ih =>
    obtain ⟨hen, hrest⟩ := hrun
    have hstep := noneStranded_next h hs e hen
    constructor
    · intro hall
      have hnext : NoneStranded (nextCapture parallel s e) :=
        hall [e] (List.cons_prefix_cons.mpr ⟨rfl, List.nil_prefix⟩)
      refine ⟨hstep.mp hnext, (ih (h.next e hen) hnext hrest).mp (fun m hm => ?_)⟩
      exact hall (e :: m) (List.cons_prefix_cons.mpr ⟨rfl, hm⟩)
    · intro ⟨hhands, hruns⟩ m hm
      have hnext := hstep.mpr hhands
      cases m with
      | nil => exact hs
      | cons e' m =>
        obtain ⟨heq, hrestm⟩ := List.cons_prefix_cons.mp hm
        rw [heq]
        exact (ih (h.next e hen) hnext hrest).mpr hruns m hrestm

/-- No state of a run has a stranded session, exactly if every raise in it hands over. -/
theorem none_stranded_iff_hands_over (parallel : Bool) (l : List CaptureEvent)
    (hrun : Runs (CaptureEnabled parallel) (nextCapture parallel) {} l) :
    NeverStranded parallel {} l ↔ Runs (HandsOver parallel) (nextCapture parallel) {} l :=
  neverStranded_run captureOk_initial noneStranded_initial l hrun

/-- The second session comes while the first one leaves, and is told to end by the guard. -/
def handedOver : List CaptureEvent :=
  [.enter 0, .raise 0, .starts, .takes, .shutdown 0, .drops 0, .ends .lastGone, .enter 1, .raise 1,
    .stopsQueue, .view 0, .tellsList, .tellsQueue, .view 1]

theorem none_stranded_handed_over : NeverStranded false {} handedOver :=
  (none_stranded_iff_hands_over false handedOver (by decide +kernel)).mpr (by decide +kernel)

/-- The second session comes behind the stop of the queue: its context is in neither list, and it waits for a join
event that nobody will raise. -/
def stoppedBehind : List CaptureEvent :=
  [.enter 0, .raise 0, .starts, .takes, .shutdown 0, .drops 0, .ends .lastGone, .enter 1, .stopsQueue,
    .raise 1, .tellsList, .tellsQueue, .releases, .view 0, .release 0]

theorem session_stranded :
    Runs (CaptureEnabled false) (nextCapture false) {} stoppedBehind ∧
      Stranded (stoppedBehind.foldl (nextCapture false) {}) 1 := by
  decide +kernel

end Sunshine.CaptureSessions
