import Mathlib.Data.List.Nodup
import Sunshine.Video.CaptureThread

/-! What the capture thread keeps in every run in which a capture is started again only with a session
in the list.

The index of the display is inside the list after every refresh. The sessions that the callback has
still to come to do not have its frame yet, and those it has passed have it or have stopped. -/
namespace Sunshine.CaptureSessions
open Transitions
set_option autoImplicit false

/-! ## The display list -/

theorem indexOf_valid {displayNames : List String} (h : displayNames ≠ []) (name : String) :
    0 ≤ indexOf displayNames name ∧ indexOf displayNames name < displayNames.length := by
  have hpos : 0 < displayNames.length := List.length_pos_of_ne_nil h
  unfold indexOf
  cases hfound : displayNames.findIdx? fun other => other = name with
  | none =>
    simp only [Option.getD_none]
    omega
  | some k =>
    have hk : k < displayNames.length := (List.findIdx?_eq_some_iff_getElem.mp hfound).1
    simp only [Option.getD_some]
    omega

/-- After a refresh the index is inside the list, if it was before. -/
theorem refreshDisplays_valid {displayNames : List String} {index : ℤ}
    (h : displayNames ≠ [] → 0 ≤ index ∧ index < displayNames.length) (found again : List String)
    (outputName : String) :
    0 ≤ (refreshDisplays displayNames index found again outputName).2 ∧
      (refreshDisplays displayNames index found again outputName).2 <
        (refreshDisplays displayNames index found again outputName).1.length := by
  unfold refreshDisplays
  dsimp only
  split
  · rename_i hkept
    exact h hkept.2
  · apply indexOf_valid
    split
    · assumption
    · split
      · assumption
      · exact List.cons_ne_nil _ _

theorem toInt_of_lt {size : ℕ} (h : size < 2 ^ 31) : toInt size = size := by
  unfold toInt
  rw [Int.bmod_eq_of_le]
  · omega
  · omega

theorem clampDisplay_valid {displayNames : List String} (hpos : displayNames ≠ [])
    (hsize : displayNames.length < 2 ^ 31) (x : ℤ) : 0 ≤ lastDisplay displayNames ∧
      0 ≤ clampDisplay x displayNames ∧ clampDisplay x displayNames < displayNames.length := by
  have hlength : 0 < displayNames.length := List.length_pos_of_ne_nil hpos
  have hlast : lastDisplay displayNames = displayNames.length - 1 := by
    rw [lastDisplay, toInt_of_lt hsize]
  unfold clampDisplay
  rw [hlast]
  split
  · omega
  · split <;> omega

/-! ## The display and the list of sessions -/

/-- What does not concern the frames. -/
structure ListOk (s : CaptureThread) : Prop where
  inside : s.readOutside = false
  display : s.displayNames ≠ [] → 0 ≤ s.displayP ∧ s.displayP < s.displayNames.length
  first : s.doing = .initialDisplay → s.captureCtxs ≠ []
  attended : s.doing.reinitialises = true → s.running = true → s.captureCtxs ≠ []
  nodup : (s.queue ++ s.captureCtxs).Nodup
  handed : ∀ i ∈ s.queue ++ s.captureCtxs, s.place i ≠ .outside ∧ s.place i ≠ .entered

section Steps
variable {s t : CaptureThread}

/-- A step that leaves the displays as they are and takes no session into the list or the queue. -/
theorem ListOk.keeps (h : ListOk s) (hinside : t.readOutside = s.readOutside)
    (hdisplay : t.displayNames = s.displayNames ∧ t.displayP = s.displayP)
    (hfirst : t.doing = .initialDisplay → t.captureCtxs ≠ [])
    (hattended : t.doing.reinitialises = true → t.running = true → t.captureCtxs ≠ [])
    (hnodup : (t.queue ++ t.captureCtxs).Nodup)
    (hhanded : ∀ i ∈ t.queue ++ t.captureCtxs, i ∈ s.queue ++ s.captureCtxs ∧
      (s.place i ≠ .outside ∧ s.place i ≠ .entered → t.place i ≠ .outside ∧ t.place i ≠ .entered)) :
    ListOk t where
  inside := hinside.trans h.inside
  display := by
    rw [hdisplay.1, hdisplay.2]
    exact h.display
  first := hfirst
  attended := hattended
  nodup := hnodup
  handed i hi := (hhanded i hi).2 (h.handed i (hhanded i hi).1)

/-- A session that goes on to a place behind its raise. -/
theorem CaptureThread.put_handed {i : ℕ} {p : Place} (hp : p ≠ .outside ∧ p ≠ .entered) (j : ℕ)
    (h : s.place j ≠ .outside ∧ s.place j ≠ .entered) :
    (s.put i p).place j ≠ .outside ∧ (s.put i p).place j ≠ .entered := by
  by_cases hji : j = i
  · subst hji
    simpa [CaptureThread.put] using hp
  · simpa [CaptureThread.put, hji] using h

/-- The list is the same and the queue no more running than before. -/
theorem ListOk.move (h : ListOk s) {i : ℕ} {p : Place} (hp : p ≠ .outside ∧ p ≠ .entered)
    (ht : t.readOutside = s.readOutside ∧ t.displayNames = s.displayNames ∧ t.displayP = s.displayP ∧
      t.doing = s.doing ∧ t.queue = s.queue ∧ t.captureCtxs = s.captureCtxs ∧
      t.place = (s.put i p).place) (hrunning : t.running = true → s.running = true) : ListOk t := by
  obtain ⟨hinside, hnames, hindex, hdoing, hqueue, hctxs, hplace⟩ := ht
  refine h.keeps hinside ⟨hnames, hindex⟩ ?_ ?_ ?_ ?_
  · rw [hdoing, hctxs]
    exact h.first
  · rw [hdoing, hctxs]
    exact fun hreinit hrun => h.attended hreinit (hrunning hrun)
  · rw [hqueue, hctxs]
    exact h.nodup
  · rw [hqueue, hctxs, hplace]
    exact fun j hj => ⟨hj, CaptureThread.put_handed hp j⟩

/-- A step of the thread that changes no list. -/
theorem ListOk.goes (h : ListOk s)
    (ht : t.readOutside = s.readOutside ∧ t.displayNames = s.displayNames ∧ t.displayP = s.displayP ∧
      t.queue = s.queue ∧ t.captureCtxs = s.captureCtxs ∧ t.place = s.place)
    (hfirst : t.doing ≠ .initialDisplay)
    (hattended : t.doing.reinitialises = true → t.running = true → s.captureCtxs ≠ []) : ListOk t := by
  obtain ⟨hinside, hnames, hindex, hqueue, hctxs, hplace⟩ := ht
  refine h.keeps hinside ⟨hnames, hindex⟩ (fun heq => absurd heq hfirst) ?_ ?_ ?_
  · rw [hctxs]
    exact hattended
  · rw [hqueue, hctxs]
    exact h.nodup
  · rw [hqueue, hctxs, hplace]
    exact fun j hj => ⟨hj, id⟩

theorem ListOk.raise (h : ListOk s) {i : ℕ} (hi : s.place i = .entered) :
    ListOk (nextThread s (.raise i)) := by
  have hnew : i ∉ s.queue ++ s.captureCtxs := fun hin => (h.handed i hin).2 hi
  have hqueue : ∃ kept, kept.Sublist s.queue ∧ ((nextThread s (.raise i)).queue = kept ++ [i] ∨
      (nextThread s (.raise i)).queue = kept) := by
    simp only [nextThread]
    split
    · split
      · exact ⟨[], List.nil_sublist _, .inl rfl⟩
      · exact ⟨s.queue, List.Sublist.refl _, .inl rfl⟩
    · exact ⟨s.queue, List.Sublist.refl _, .inr rfl⟩
  obtain ⟨kept, hkept, hqueue⟩ := hqueue
  have hsub : (kept ++ s.captureCtxs).Sublist (s.queue ++ s.captureCtxs) :=
    hkept.append (List.Sublist.refl _)
  have hmem : ∀ j ∈ (nextThread s (.raise i)).queue ++ s.captureCtxs,
      j = i ∨ j ∈ s.queue ++ s.captureCtxs := by
    intro j hj
    rcases hqueue with hqueue | hqueue
    · rw [hqueue, List.append_assoc] at hj
      rcases List.mem_cons.mp (List.perm_middle.mem_iff.mp hj) with heq | hin
      · exact .inl heq
      · exact .inr (hsub.subset hin)
    · rw [hqueue] at hj
      exact .inr (hsub.subset hj)
  refine ⟨h.inside, h.display, h.first, h.attended, ?_, fun j hj => ?_⟩
  · show ((nextThread s (.raise i)).queue ++ s.captureCtxs).Nodup
    rcases hqueue with hqueue | hqueue
    · rw [hqueue, List.append_assoc]
      exact List.perm_middle.nodup_iff.mpr
        (List.nodup_cons.mpr ⟨fun hin => hnew (hsub.subset hin), h.nodup.sublist hsub⟩)
    · rw [hqueue]
      exact h.nodup.sublist hsub
  · have hplace : (nextThread s (.raise i)).place = (s.put i .raised).place := rfl
    rw [hplace]
    rcases hmem j hj with heq | hin
    · subst heq
      simp [CaptureThread.put]
    · exact CaptureThread.put_handed (by simp) j (h.handed j hin)

/-- The list behind the take of the first session of the queue. -/
theorem take_perm (queue ctxs : List ℕ) :
    (queue.tail ++ (ctxs ++ queue.head?.toList)).Perm (queue ++ ctxs) := by
  cases queue with
  | nil => simp
  | cons i q =>
    simp only [List.tail_cons, List.head?_cons, Option.toList_some]
    rw [← List.append_assoc]
    exact List.perm_append_singleton i (q ++ ctxs)

theorem ListOk.readDisplay (h : ListOk s) {next : ThreadAt} (hdisplay : 0 ≤ s.displayP ∧
    s.displayP < s.displayNames.length) (hctxs : s.captureCtxs ≠ []) :
    ListOk (s.readDisplay next) where
  inside := by
    simp [CaptureThread.readDisplay, h.inside, hdisplay, hctxs]
  display _ := hdisplay
  first _ := hctxs
  attended _ _ := hctxs
  nodup := h.nodup
  handed := h.handed

theorem ListOk.refresh (h : ListOk s) (found again : List String) (outputName : String) :
    ListOk (s.refresh found again outputName) where
  inside := h.inside
  display _ := refreshDisplays_valid h.display found again outputName
  first := h.first
  attended := h.attended
  nodup := h.nodup
  handed := h.handed

theorem ListOk.applySwitch (h : ListOk s) (hpos : s.displayNames ≠ [])
    (hsize : s.displayNames.length < 2 ^ 31) : ListOk s.applySwitch := by
  unfold CaptureThread.applySwitch
  split
  · exact h
  · rename_i x hx
    obtain ⟨hlast, hvalid⟩ := clampDisplay_valid hpos hsize x
    refine ⟨?_, fun _ => hvalid, h.first, h.attended, h.nodup, h.handed⟩
    have hnonneg : ¬lastDisplay s.displayNames < 0 := by omega
    simp [h.inside, hnonneg]

theorem applySwitch_same (s : CaptureThread) : s.applySwitch.displayNames = s.displayNames ∧
    s.applySwitch.captureCtxs = s.captureCtxs := by
  unfold CaptureThread.applySwitch
  split <;> exact ⟨rfl, rfl⟩

theorem refresh_ne_nil (h : ListOk s) (found again : List String) (outputName : String) :
    (s.refresh found again outputName).displayNames ≠ [] := by
  have hvalid := refreshDisplays_valid h.display found again outputName
  intro hnil
  have hlength : (refreshDisplays s.displayNames s.displayP found again outputName).1 = [] := hnil
  rw [hlength, List.length_nil] at hvalid
  omega

/-- An erased element of a list that is not the only one leaves something. -/
theorem eraseIdx_ne_nil {l : List ℕ} {k i : ℕ} (hk : l[k]? = some i) (hlast : k = 0 → l ≠ [i]) :
    l.eraseIdx k ≠ [] := by
  have hlt : k < l.length := (List.getElem?_eq_some_iff.mp hk).1
  intro hnil
  have hlength := List.length_eraseIdx_of_lt hlt
  rw [hnil, List.length_nil] at hlength
  have hk0 : k = 0 := by omega
  subst hk0
  cases l with
  | nil => simp at hlt
  | cons j q =>
    have hq : q = [] := hnil
    simp only [List.getElem?_cons_zero, Option.some.injEq] at hk
    exact hlast rfl (by rw [hq, hk])

theorem ListOk.erase (h : ListOk s) (k : ℕ) (hfirst : s.doing ≠ .initialDisplay)
    (hattended : s.doing.reinitialises = true → s.running = true → s.captureCtxs.eraseIdx k ≠ []) :
    ListOk { s with captureCtxs := s.captureCtxs.eraseIdx k } := by
  have hsub : (s.queue ++ s.captureCtxs.eraseIdx k).Sublist (s.queue ++ s.captureCtxs) :=
    (List.Sublist.refl _).append (List.eraseIdx_sublist _ _)
  exact h.keeps rfl ⟨rfl, rfl⟩ (fun heq => absurd heq hfirst) hattended (h.nodup.sublist hsub)
    (fun j hj => ⟨hsub.subset hj, id⟩)

theorem ListOk.visit (h : ListOk s) {frame : Option ℕ} {k : ℕ} (hdoing : s.doing = .pushing frame k) :
    ListOk (s.visit frame k) := by
  unfold CaptureThread.visit
  split
  · refine h.goes ⟨rfl, rfl, rfl, rfl, rfl, rfl⟩ ?_ ?_
    · dsimp only
      split <;> simp
    · dsimp only
      split <;> exact fun hreinit => Bool.noConfusion hreinit
  · split
    · split
      · exact h.goes ⟨rfl, rfl, rfl, rfl, rfl, rfl⟩ (by simp) (fun hreinit => Bool.noConfusion hreinit)
      · exact h.goes ⟨rfl, rfl, rfl, rfl, rfl, rfl⟩ (by simp) (fun hreinit => Bool.noConfusion hreinit)
    · refine h.erase k (by simp [hdoing]) (fun hreinit => ?_)
      rw [hdoing] at hreinit
      exact Bool.noConfusion hreinit

theorem ListOk.drain (h : ListOk s) {k : ℕ} (hdoing : s.doing = .draining k)
    (hattended : s.running = true → s.drainsLast = false) : ListOk (s.drain k) := by
  have hreinit : s.doing.reinitialises = true := by rw [hdoing]; rfl
  unfold CaptureThread.drain
  split
  · exact h.goes ⟨rfl, rfl, rfl, rfl, rfl, rfl⟩ (by simp) (fun _ => h.attended hreinit)
  · rename_i i hi
    split
    · exact h.goes ⟨rfl, rfl, rfl, rfl, rfl, rfl⟩ (by simp) (fun _ => h.attended hreinit)
    · rename_i hstopped
      refine h.erase k (by simp [hdoing]) (fun _ hrun => eraseIdx_ne_nil hi (fun hk hctxs => ?_))
      have hlast := hattended hrun
      subst hk
      rw [CaptureThread.drainsLast, hdoing, hctxs] at hlast
      simp [hstopped] at hlast

end Steps

theorem ListOk.next {s : CaptureThread} (h : ListOk s) (e : ThreadEvent) (hen : ThreadEnabled s e)
    (hattended : Attended s e) : ListOk (nextThread s e) := by
  cases e with
  | enter i =>
    have hi : s.place i = .outside := hen.1
    refine ⟨h.inside, h.display, h.first, h.attended, h.nodup, fun j hj => ?_⟩
    have hji : j ≠ i := by
      intro heq
      subst heq
      exact (h.handed j hj).1 hi
    simpa [nextThread, CaptureThread.put, hji] using h.handed j hj
  | raise i => exact h.raise hen
  | release i =>
    refine h.move (i := i) (p := .released) (by simp) ⟨rfl, rfl, rfl, rfl, rfl, rfl, rfl⟩ ?_
    intro hrun
    simp only [nextThread, Bool.and_eq_true] at hrun
    exact hrun.1
  | stopImages i =>
    exact h.move (i := i) (p := .left) (by simp) ⟨rfl, rfl, rfl, rfl, rfl, rfl, rfl⟩ id
  | switchDisplay x => exact ⟨h.inside, h.display, h.first, h.attended, h.nodup, h.handed⟩
  | pop =>
    obtain ⟨hdoing, hqueue⟩ := hen
    simp only [nextThread]
    split
    · rename_i hrun
      have hperm := take_perm s.queue []
      simp only [List.nil_append, List.append_nil] at hperm
      have hsub : s.queue.Sublist (s.queue ++ s.captureCtxs) := List.sublist_append_left _ _
      refine h.keeps rfl ⟨rfl, rfl⟩ (fun _ => ?_) (fun hreinit => Bool.noConfusion hreinit)
        (hperm.nodup_iff.mpr (h.nodup.sublist hsub))
        (fun j hj => ⟨hsub.subset (hperm.mem_iff.mp hj), id⟩)
      cases hq : s.queue with
      | nil => exact absurd hq (hqueue hrun)
      | cons i q => simp
    · exact h.goes ⟨rfl, rfl, rfl, rfl, rfl, rfl⟩ (by simp) (fun hreinit => Bool.noConfusion hreinit)
  | openDisplay found again outputName opens =>
    exact (h.refresh found again outputName).readDisplay
      (refreshDisplays_valid h.display found again outputName) (h.first hen)
  | head =>
    refine h.goes ⟨rfl, rfl, rfl, rfl, rfl, rfl⟩ ?_ ?_
    · simp only [nextThread]
      split <;> simp
    · simp only [nextThread]
      split <;> exact fun hreinit => Bool.noConfusion hreinit
  | push captured =>
    cases captured
    · exact h.goes ⟨rfl, rfl, rfl, rfl, rfl, rfl⟩ (by simp [nextThread])
        (fun hreinit => Bool.noConfusion hreinit)
    · exact h.goes ⟨rfl, rfl, rfl, rfl, rfl, rfl⟩ (by simp [nextThread])
        (fun hreinit => Bool.noConfusion hreinit)
  | visit =>
    have hpushing : s.doing.isPushing = true := hen
    simp only [nextThread]
    split
    · rename_i frame k hdoing
      exact h.visit hdoing
    · exact h
  | raiseImage =>
    simp only [nextThread]
    split
    · exact h.goes ⟨rfl, rfl, rfl, rfl, rfl, rfl⟩ (by simp) (fun hreinit => Bool.noConfusion hreinit)
    · exact h
  | take =>
    have hdoing : s.doing = .taking := hen
    have hreinit : ∀ q : Prop, s.doing.reinitialises = true → q := by
      intro q hq
      rw [hdoing] at hq
      exact Bool.noConfusion hq
    simp only [nextThread]
    split
    · have hperm := take_perm s.queue s.captureCtxs
      refine h.keeps rfl ⟨rfl, rfl⟩ (fun heq => ?_) (hreinit _) (hperm.nodup_iff.mpr h.nodup)
        (fun j hj => ⟨hperm.mem_iff.mp hj, id⟩)
      rw [hdoing] at heq
      cases heq
    · split
      · exact h.goes ⟨rfl, rfl, rfl, rfl, rfl, rfl⟩ (by simp) (fun hreinit => Bool.noConfusion hreinit)
      · exact h.goes ⟨rfl, rfl, rfl, rfl, rfl, rfl⟩ (by simp) (fun hreinit => Bool.noConfusion hreinit)
  | captureReturns status =>
    refine h.goes ⟨rfl, rfl, rfl, rfl, rfl, rfl⟩ ?_ ?_
    · simp only [nextThread]
      split <;> simp
    · intro hreinit hrun
      by_cases hagain : s.startsAgain status = true
      · exact hattended hrun hagain
      · simp only [nextThread, if_neg hagain] at hreinit
        exact Bool.noConfusion hreinit
  | checkShared shared =>
    have hreinit : s.doing.reinitialises = true := by
      rw [show s.doing = .checkingShared from hen]
      rfl
    refine h.goes ⟨rfl, rfl, rfl, rfl, rfl, rfl⟩ ?_ (fun _ => h.attended hreinit)
    simp only [nextThread]
    split <;> simp
  | drain =>
    simp only [nextThread]
    split
    · rename_i k hdoing
      exact h.drain hdoing hattended
    · exact h
  | resetDisplay found again outputName opens =>
    simp only [nextThread]
    split
    · rename_i hrun
      have hreinit : s.doing.reinitialises = true := by
        rw [show s.doing = .resetting from hen]
        rfl
      have hne := refresh_ne_nil h found again outputName
      have hswitch := (h.refresh found again outputName).applySwitch hne hattended
      obtain ⟨hnames, hctxs⟩ := applySwitch_same (s.refresh found again outputName)
      refine hswitch.readDisplay (hswitch.display ?_) ?_
      · rw [hnames]
        exact hne
      · rw [hctxs]
        exact h.attended hreinit hrun
    · exact h.goes ⟨rfl, rfl, rfl, rfl, rfl, rfl⟩ (by simp) (fun hreinit => Bool.noConfusion hreinit)
  | exits =>
    exact h.goes ⟨rfl, rfl, rfl, rfl, rfl, rfl⟩ (by simp [nextThread])
      (fun hreinit => Bool.noConfusion hreinit)

/-! ## Frames -/

/-- `WellKept` as far as frames go, with what carries it: a session the callback has still to come to does not have
its frame, and the one that it is about to raise is where the callback stands. -/
structure FramesOk (s : CaptureThread) : Prop where
  once : ∀ i, (s.images i).frames.Nodup
  registered : ∀ i, ∀ f ∈ (s.images i).frames, i ∈ s.registered f
  pushed : ∀ f, ∀ i ∈ s.registered f, (s.images i).running = true → i ∉ s.stillToVisit f →
    f ∈ (s.images i).frames
  future : ∀ f, s.frames ≤ f → s.registered f = []
  pending : ∀ f, ∀ i ∈ s.stillToVisit f, f ∉ (s.images i).frames ∧ i ∈ s.registered f
  raising : ∀ f k i, s.doing = .raising f k i → s.captureCtxs[k]? = some i

section FrameSteps
variable {s t : CaptureThread}

/-- A step that raises nothing; the callback comes past stopped sessions only. -/
theorem FramesOk.keeps (h : FramesOk s)
    (ht : t.registered = s.registered ∧ t.frames = s.frames)
    (himages : ∀ i, (t.images i).frames = (s.images i).frames ∧
      ((t.images i).running = true → (s.images i).running = true))
    (hvisit : ∀ f, ∀ i ∈ t.stillToVisit f, i ∈ s.stillToVisit f)
    (hpast : ∀ f, ∀ i ∈ s.stillToVisit f, (t.images i).running = true → i ∈ t.stillToVisit f)
    (hraising : ∀ f k i, t.doing = .raising f k i → t.captureCtxs[k]? = some i) : FramesOk t := by
  obtain ⟨hregistered, hframes⟩ := ht
  refine ⟨fun i => ?_, fun i f hf => ?_, fun f i hi hrun hpassed => ?_, ?_, fun f i hi => ?_, hraising⟩
  · rw [(himages i).1]
    exact h.once i
  · rw [hregistered]
    rw [(himages i).1] at hf
    exact h.registered i f hf
  · rw [(himages i).1]
    rw [hregistered] at hi
    exact h.pushed f i hi ((himages i).2 hrun) (fun hin => hpassed (hpast f i hin hrun))
  · rw [hregistered, hframes]
    exact h.future
  · rw [(himages i).1, hregistered]
    exact h.pending f i (hvisit f i hi)

/-- A step that leaves what the callback has still to do, and stops image events at most. -/
theorem FramesOk.same (h : FramesOk s)
    (ht : t.registered = s.registered ∧ t.frames = s.frames)
    (himages : ∀ i, (t.images i).frames = (s.images i).frames ∧
      ((t.images i).running = true → (s.images i).running = true))
    (hdoing : t.doing = s.doing) (hctxs : t.captureCtxs = s.captureCtxs) : FramesOk t := by
  have hvisit : ∀ f, t.stillToVisit f = s.stillToVisit f := by
    intro f
    unfold CaptureThread.stillToVisit
    rw [hdoing, hctxs]
  refine h.keeps ht himages (fun f i hi => ?_) (fun f i hi _ => ?_) (fun f k i hraising => ?_)
  · rw [← hvisit]
    exact hi
  · rw [hvisit]
    exact hi
  · rw [hctxs]
    rw [hdoing] at hraising
    exact h.raising f k i hraising

/-- What the callback has still to do is nothing outside it. -/
def ThreadAt.inCallback : ThreadAt → Bool
  | .pushing (some _) _ | .raising .. => true
  | _ => false

theorem stillToVisit_outside (h : s.doing.inCallback = false) (f : ℕ) : s.stillToVisit f = [] := by
  unfold CaptureThread.stillToVisit
  split
  · rename_i hdoing
    rw [hdoing] at h
    cases h
  · rename_i hdoing
    rw [hdoing] at h
    cases h
  · rfl

/-- A step from outside the callback's loop to outside it. -/
theorem FramesOk.outside (h : FramesOk s) (ht : t.registered = s.registered ∧ t.frames = s.frames)
    (himages : ∀ i, (t.images i).frames = (s.images i).frames ∧
      ((t.images i).running = true → (s.images i).running = true))
    (hfrom : s.doing.inCallback = false) (hto : t.doing.inCallback = false) : FramesOk t := by
  refine h.keeps ht himages (fun f i hi => ?_) (fun f i hi => ?_) (fun f k i hraising => ?_)
  · rw [stillToVisit_outside hto] at hi
    cases hi
  · rw [stillToVisit_outside hfrom] at hi
    cases hi
  · rw [hraising] at hto
    cases hto

theorem drop_eraseIdx (l : List ℕ) (k : ℕ) : (l.eraseIdx k).drop k = l.drop (k + 1) := by
  induction l generalizing k with
  | nil => simp
  | cons i l ih =>
    cases k with
    | zero => rfl
    | succ k => exact ih k

theorem drop_cons_of_getElem? {l : List ℕ} {k i : ℕ} (h : l[k]? = some i) :
    l.drop k = i :: l.drop (k + 1) := by
  obtain ⟨hk, hi⟩ := List.getElem?_eq_some_iff.mp h
  rw [← hi]
  exact List.drop_eq_getElem_cons hk

theorem drop_nil_of_getElem? {l : List ℕ} {k : ℕ} (h : l[k]? = none) : l.drop k = [] :=
  List.drop_eq_nil_of_le (List.getElem?_eq_none_iff.mp h)

theorem FramesOk.push (h : FramesOk s) (hdoing : s.doing = .capturing) :
    FramesOk (nextThread s (.push true)) := by
  have hbefore : ∀ f, s.stillToVisit f = [] := stillToVisit_outside (by rw [hdoing]; rfl)
  have hnew : ∀ i, s.frames ∉ (s.images i).frames := by
    intro i hin
    have hregistered := h.registered i s.frames hin
    rw [h.future s.frames le_rfl] at hregistered
    cases hregistered
  have hvisit : ∀ f, (nextThread s (.push true)).stillToVisit f =
      if s.frames = f then s.captureCtxs else [] := fun f => by
    simp [CaptureThread.stillToVisit, nextThread]
  have hregistered : (nextThread s (.push true)).registered =
    Function.update s.registered s.frames s.captureCtxs := rfl
  refine ⟨h.once, fun i f hf => ?_, fun f i hi hrun hpassed => ?_, fun f hf => ?_, fun f i hi => ?_,
    fun f k i hraising => ?_⟩
  · have hne : f ≠ s.frames := fun heq => hnew i (heq ▸ hf)
    rw [hregistered, Function.update_of_ne hne]
    exact h.registered i f hf
  · rw [hvisit] at hpassed
    rw [hregistered] at hi
    by_cases hf : f = s.frames
    · rw [hf, Function.update_self] at hi
      rw [if_pos hf.symm] at hpassed
      exact absurd hi hpassed
    · rw [Function.update_of_ne hf] at hi
      exact h.pushed f i hi hrun (by rw [hbefore]; exact List.not_mem_nil)
  · have hlt : s.frames + 1 ≤ f := hf
    rw [hregistered, Function.update_of_ne (by omega)]
    exact h.future f (by omega)
  · rw [hvisit] at hi
    split at hi
    · rename_i hf
      subst hf
      refine ⟨hnew i, ?_⟩
      rw [hregistered, Function.update_self]
      exact hi
    · cases hi
  · cases hraising

theorem FramesOk.visit (h : FramesOk s) {frame : Option ℕ} {k : ℕ} (hdoing : s.doing = .pushing frame k) :
    FramesOk (s.visit frame k) := by
  unfold CaptureThread.visit
  split
  · rename_i hend
    refine h.keeps ⟨rfl, rfl⟩ (fun _ => ⟨rfl, id⟩) (fun f i hi => ?_) (fun f i hi _ => ?_) (fun f k' i hr => ?_)
    · rw [stillToVisit_outside] at hi
      · cases hi
      · dsimp only
        split <;> rfl
    · cases frame with
      | none => simp [CaptureThread.stillToVisit, hdoing] at hi
      | some g => simp [CaptureThread.stillToVisit, hdoing, drop_nil_of_getElem? hend] at hi
    · dsimp only at hr
      split at hr <;> cases hr
  · rename_i i hi
    split
    · cases frame with
      | none =>
        exact h.outside ⟨rfl, rfl⟩ (fun _ => ⟨rfl, id⟩) (by rw [hdoing]; rfl) rfl
      | some f =>
        -- The callback stands at the same session, between the check and the raise.
        have hsame : ∀ f', CaptureThread.stillToVisit { s with doing := .raising f k i } f' =
            s.stillToVisit f' := by
          intro f'
          simp [CaptureThread.stillToVisit, hdoing]
        refine h.keeps ⟨rfl, rfl⟩ (fun _ => ⟨rfl, id⟩) (fun f' j hj => ?_) (fun f' j hj _ => ?_)
          (fun f' k' j hr => ?_)
        · rw [← hsame]
          exact hj
        · rw [hsame]
          exact hj
        · cases hr
          exact hi
    · rename_i hstopped
      have hdrop := drop_cons_of_getElem? hi
      cases frame with
      | none =>
        exact h.outside ⟨rfl, rfl⟩ (fun _ => ⟨rfl, id⟩) (by rw [hdoing]; rfl) (by dsimp only; rw [hdoing]; rfl)
      | some f =>
        refine h.keeps ⟨rfl, rfl⟩ (fun _ => ⟨rfl, id⟩) (fun f' j hj => ?_) (fun f' j hj hrun => ?_)
          (fun f' k' j hr => ?_)
        · simp only [CaptureThread.stillToVisit, hdoing, drop_eraseIdx] at hj ⊢
          split at hj
          · rw [if_pos (by assumption), hdrop]
            exact List.mem_cons_of_mem _ hj
          · cases hj
        · simp only [CaptureThread.stillToVisit, hdoing, drop_eraseIdx] at hj ⊢
          split at hj
          · rw [if_pos (by assumption)]
            rw [hdrop, List.mem_cons] at hj
            rcases hj with heq | hj
            · subst heq
              exact absurd hrun hstopped
            · exact hj
          · cases hj
        · rw [show s.doing = .raising f' k' j from hr] at hdoing
          cases hdoing

/-- The raise of a frame to the session at which the callback stands. -/
theorem FramesOk.raiseImage (h : FramesOk s) (hlist : ListOk s) {f k i : ℕ}
    (hdoing : s.doing = .raising f k i) : FramesOk (nextThread s .raiseImage) := by
  have hi := h.raising f k i hdoing
  have hdrop := drop_cons_of_getElem? hi
  have hbefore : ∀ f', s.stillToVisit f' = if f = f' then i :: s.captureCtxs.drop (k + 1) else [] := by
    intro f'
    simp [CaptureThread.stillToVisit, hdoing, hdrop]
  have hnext : nextThread s .raiseImage = { s with
      doing := .pushing (some f) (k + 1)
      images := Function.update s.images i ((s.images i).raise f) } := by
    simp only [nextThread, hdoing]
  have hafter : ∀ f', (nextThread s .raiseImage).stillToVisit f' =
      if f = f' then s.captureCtxs.drop (k + 1) else [] := by
    intro f'
    rw [hnext]
    rfl
  have hpending : f ∉ (s.images i).frames ∧ i ∈ s.registered f := by
    apply h.pending f i
    rw [hbefore, if_pos rfl]
    exact List.mem_cons_self
  have hrest : i ∉ s.captureCtxs.drop (k + 1) := by
    have hnodup := (List.nodup_append.mp hlist.nodup).2.1.sublist (List.drop_sublist k _)
    rw [hdrop] at hnodup
    exact (List.nodup_cons.mp hnodup).1
  have himages : ∀ j, j ≠ i → (nextThread s .raiseImage).images j = s.images j := by
    intro j hji
    rw [hnext]
    exact Function.update_of_ne hji _ _
  have himage : (nextThread s .raiseImage).images i = (s.images i).raise f := by
    rw [hnext]
    exact Function.update_self _ _ _
  have hsame : (nextThread s .raiseImage).registered = s.registered ∧
      (nextThread s .raiseImage).frames = s.frames := by
    rw [hnext]
    exact ⟨rfl, rfl⟩
  obtain ⟨hregistered, hframes⟩ := hsame
  refine ⟨fun j => ?_, fun j f' hf' => ?_, fun f' j hj hrun hpassed => ?_, ?_, fun f' j hj => ?_,
    fun f' k' j hr => ?_⟩
  · by_cases hji : j = i
    · rw [hji, himage]
      unfold ImageEvent.raise
      split
      · exact List.nodup_append.mpr ⟨h.once i, List.nodup_singleton f, fun a ha b hb => by
          rw [List.mem_singleton] at hb
          intro hab
          exact hpending.1 (hb ▸ hab ▸ ha)⟩
      · exact h.once i
    · rw [himages j hji]
      exact h.once j
  · rw [hregistered]
    by_cases hji : j = i
    · subst hji
      rw [himage] at hf'
      unfold ImageEvent.raise at hf'
      split at hf'
      · rcases List.mem_append.mp hf' with hold | hnew
        · exact h.registered j f' hold
        · rw [List.mem_singleton.mp hnew]
          exact hpending.2
      · exact h.registered j f' hf'
    · rw [himages j hji] at hf'
      exact h.registered j f' hf'
  · rw [hregistered] at hj
    rw [hafter] at hpassed
    by_cases hji : j = i
    · subst hji
      rw [himage] at hrun ⊢
      have hrun' : (s.images j).running = true := by
        unfold ImageEvent.raise at hrun
        split at hrun <;> assumption
      rw [ImageEvent.raise, if_pos hrun']
      by_cases hf : f = f'
      · exact List.mem_append_right _ (List.mem_singleton.mpr hf.symm)
      · refine List.mem_append_left _ (h.pushed f' j hj hrun' ?_)
        rw [hbefore, if_neg hf]
        exact List.not_mem_nil
    · rw [himages j hji] at hrun ⊢
      refine h.pushed f' j hj hrun ?_
      rw [hbefore]
      by_cases hf : f = f'
      · rw [if_pos hf, List.mem_cons, not_or]
        rw [if_pos hf] at hpassed
        exact ⟨hji, hpassed⟩
      · rw [if_neg hf]
        exact List.not_mem_nil
  · rw [hregistered, hframes]
    exact h.future
  · rw [hafter] at hj
    split at hj
    · rename_i hf
      have hji : j ≠ i := fun heq => hrest (heq ▸ hj)
      rw [himages j hji, hregistered]
      apply h.pending f' j
      rw [hbefore, if_pos hf]
      exact List.mem_cons_of_mem _ hj
    · cases hj
  · rw [hnext] at hr
    cases hr

theorem FramesOk.drain (h : FramesOk s) {k : ℕ} (hdoing : s.doing = .draining k) :
    FramesOk (s.drain k) := by
  have hfrom : s.doing.inCallback = false := by rw [hdoing]; rfl
  unfold CaptureThread.drain
  split
  · exact h.outside ⟨rfl, rfl⟩ (fun _ => ⟨rfl, id⟩) hfrom rfl
  · split
    · exact h.outside ⟨rfl, rfl⟩ (fun _ => ⟨rfl, id⟩) hfrom rfl
    · exact h.outside ⟨rfl, rfl⟩ (fun _ => ⟨rfl, id⟩) hfrom hfrom

end FrameSteps

theorem FramesOk.next {s : CaptureThread} (h : FramesOk s) (hlist : ListOk s) (e : ThreadEvent)
    (hen : ThreadEnabled s e) : FramesOk (nextThread s e) := by
  cases e with
  | enter i | raise i | release i | switchDisplay x =>
    exact h.same ⟨rfl, rfl⟩ (fun _ => ⟨rfl, id⟩) rfl rfl
  | stopImages i =>
    refine h.same ⟨rfl, rfl⟩ (fun j => ?_) rfl rfl
    by_cases hji : j = i
    · subst hji
      simp [nextThread, ImageEvent.stop]
    · simp [nextThread, hji]
  | pop =>
    have hfrom : s.doing.inCallback = false := by rw [hen.1]; rfl
    simp only [nextThread]
    split
    · exact h.outside ⟨rfl, rfl⟩ (fun _ => ⟨rfl, id⟩) hfrom rfl
    · exact h.outside ⟨rfl, rfl⟩ (fun _ => ⟨rfl, id⟩) hfrom rfl
  | openDisplay found again outputName opens =>
    refine h.outside ⟨rfl, rfl⟩ (fun _ => ⟨rfl, id⟩) ?_ ?_
    · rw [show s.doing = .initialDisplay from hen]
      rfl
    · cases opens <;> rfl
  | head =>
    refine h.outside ⟨rfl, rfl⟩ (fun _ => ⟨rfl, id⟩) ?_ ?_
    · rw [show s.doing = .loopHead from hen]
      rfl
    · simp only [nextThread]
      split <;> rfl
  | push captured =>
    have hdoing : s.doing = .capturing := hen
    cases captured with
    | true => exact h.push hdoing
    | false => exact h.outside ⟨rfl, rfl⟩ (fun _ => ⟨rfl, id⟩) (by rw [hdoing]; rfl) rfl
  | visit =>
    simp only [nextThread]
    split
    · rename_i frame k hdoing
      exact h.visit hdoing
    · exact h
  | raiseImage =>
    cases hdoing : s.doing with
    | raising f k i => exact h.raiseImage hlist hdoing
    | _ =>
      have hraising : s.doing.isRaising = true := hen
      rw [hdoing] at hraising
      cases hraising
  | take =>
    have hfrom : s.doing.inCallback = false := by
      rw [show s.doing = .taking from hen]
      rfl
    simp only [nextThread]
    split
    · exact h.outside ⟨rfl, rfl⟩ (fun _ => ⟨rfl, id⟩) hfrom hfrom
    · split
      · exact h.outside ⟨rfl, rfl⟩ (fun _ => ⟨rfl, id⟩) hfrom rfl
      · exact h.outside ⟨rfl, rfl⟩ (fun _ => ⟨rfl, id⟩) hfrom rfl
  | captureReturns status =>
    refine h.outside ⟨rfl, rfl⟩ (fun _ => ⟨rfl, id⟩) ?_ ?_
    · rcases hen with hdoing | hdoing <;> rw [hdoing] <;> rfl
    · simp only [nextThread]
      split <;> rfl
  | checkShared shared =>
    refine h.outside ⟨rfl, rfl⟩ (fun _ => ⟨rfl, id⟩) ?_ ?_
    · rw [show s.doing = .checkingShared from hen]
      rfl
    · cases shared <;> rfl
  | drain =>
    simp only [nextThread]
    split
    · rename_i k hdoing
      exact h.drain hdoing
    · exact h
  | resetDisplay found again outputName opens =>
    have hfrom : s.doing.inCallback = false := by
      rw [show s.doing = .resetting from hen]
      rfl
    simp only [nextThread]
    split
    · have hsame : ∀ t : CaptureThread, t.applySwitch.registered = t.registered ∧
          t.applySwitch.frames = t.frames ∧ t.applySwitch.images = t.images := by
        intro t
        unfold CaptureThread.applySwitch
        split <;> exact ⟨rfl, rfl, rfl⟩
      obtain ⟨hregistered, hframes, himages⟩ := hsame (s.refresh found again outputName)
      refine h.outside ⟨hregistered, hframes⟩ (fun i => ?_) hfrom ?_
      · rw [show ∀ next, (CaptureThread.readDisplay _ next).images = _ from fun _ => himages]
        exact ⟨rfl, id⟩
      · cases opens <;> rfl
    · exact h.outside ⟨rfl, rfl⟩ (fun _ => ⟨rfl, id⟩) hfrom rfl
  | exits =>
    refine h.outside ⟨rfl, rfl⟩ (fun i => ?_) ?_ rfl
    · simp only [nextThread]
      split
      · exact ⟨rfl, fun hrun => Bool.noConfusion hrun⟩
      · exact ⟨rfl, id⟩
    · rw [show s.doing = .exiting from hen]
      rfl

/-! ## Runs -/

/-- The state behind these events, of a thread that has just been started. -/
def afterThread (l : List ThreadEvent) : CaptureThread := l.foldl nextThread {}

/-- An image event that is stopped gets no frame any more. -/
theorem images_stopped_next {s : CaptureThread} {i : ℕ} (h : (s.images i).running = false)
    (e : ThreadEvent) : (nextThread s e).images i = s.images i := by
  have hstop : (s.images i).stop = s.images i := by
    rw [ImageEvent.stop, ← h]
  cases e with
  | stopImages j =>
    by_cases hji : i = j
    · subst hji
      simp [nextThread, hstop]
    · simp [nextThread, hji]
  | raiseImage =>
    simp only [nextThread]
    split
    · rename_i f k j hdoing
      by_cases hji : i = j
      · subst hji
        simp [ImageEvent.raise, h]
      · simp [hji]
    · rfl
  | exits =>
    simp only [nextThread]
    split
    · exact hstop
    · rfl
  | pop | visit | take | drain | resetDisplay found again outputName opens | push captured =>
    simp only [nextThread, CaptureThread.visit, CaptureThread.drain, CaptureThread.applySwitch]
    repeat' split
    all_goals rfl
  | _ => rfl

theorem images_stopped {s : CaptureThread} {i : ℕ} (h : (s.images i).running = false)
    (l : List ThreadEvent) : (l.foldl nextThread s).images i = s.images i := by
  induction l generalizing s with
  | nil => rfl
  | cons e l ih =>
    have hstep := images_stopped_next h e
    rw [List.foldl_cons, ih (by rw [hstep]; exact h), hstep]

theorem listOk_initial : ListOk {} where
  inside := rfl
  display h := absurd rfl h
  first h := by cases h
  attended h := by cases h
  nodup := List.nodup_nil
  handed i hi := by cases hi

theorem framesOk_initial : FramesOk {} where
  once _ := List.nodup_nil
  registered _ _ hf := by cases hf
  pushed _ _ hi := by cases hi
  future _ _ := rfl
  pending _ _ hi := by cases hi
  raising _ _ _ h := by cases h

/-- In a run in which every capture that is started again is attended, the state is well kept, and no session has
got a frame since its image event was stopped. -/
theorem capture_thread_well_kept (l : List ThreadEvent)
    (hrun : Runs (fun s e => ThreadEnabled s e ∧ Attended s e) nextThread {} l) :
    WellKept (afterThread l) ∧ ∀ m, m <+: l → ∀ i, ((afterThread m).images i).running = false →
      (afterThread l).images i = (afterThread m).images i := by
  constructor
  · obtain ⟨hlist, hframes⟩ := hrun.invariant (fun s => ListOk s ∧ FramesOk s)
      ⟨listOk_initial, framesOk_initial⟩
      (fun s e hs he => ⟨hs.1.next e he.1 he.2, hs.2.next hs.1 e he.1⟩)
    exact ⟨hlist.inside, hframes.once, hframes.registered, hframes.pushed⟩
  · rintro m ⟨rest, rfl⟩ i hstopped
    unfold afterThread
    rw [List.foldl_append]
    exact images_stopped hstopped rest

/-- Two sessions; one stops, and a display switch starts the capture again for the other. -/
def switchedDisplay : List ThreadEvent :=
  [.enter 0, .raise 0, .pop, .openDisplay ["DP-1", "DP-2"] [] "DP-2" true, .enter 1, .raise 1, .head,
    .push true, .visit, .raiseImage, .visit, .take, .switchDisplay (-3), .take, .captureReturns .ok,
    .checkShared true, .release 0, .stopImages 0, .drain, .drain, .drain, .checkShared false,
    .resetDisplay [] [] "" true, .head, .push true, .visit, .raiseImage, .visit]

theorem capture_thread_well_kept_switched : WellKept (afterThread switchedDisplay) ∧
    ∀ m, m <+: switchedDisplay → ∀ i, ((afterThread m).images i).running = false →
      (afterThread switchedDisplay).images i = (afterThread m).images i :=
  capture_thread_well_kept switchedDisplay (by decide +kernel)

/-- The first session ends while the second one has its reference but has not raised its context; the capture is
started again, and there is no session whose configuration the display could be opened with. -/
def unattended : List ThreadEvent :=
  [.enter 0, .raise 0, .pop, .openDisplay ["DP-1"] [] "" true, .head, .enter 1, .release 0,
    .stopImages 0, .push true, .visit, .visit, .take, .captureReturns .reinit, .checkShared false,
    .resetDisplay ["DP-1"] [] "" true]

theorem front_of_empty_list : Runs ThreadEnabled nextThread {} unattended ∧
    ¬WellKept (afterThread unattended) := by
  refine ⟨by decide +kernel, fun h => ?_⟩
  have hinside := h.inside
  revert hinside
  decide +kernel

end Sunshine.CaptureSessions
