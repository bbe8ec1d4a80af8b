import Sunshine.Lib.Threads
import Sunshine.Lib.Transitions
import Sunshine.ThreadSafe.Shared

/-! Runs of `shared_t`: what its sections and its handles keep, and the two steps that break it.

A constructor callback that fails leaves its element in the buffer, and the next `ref` creates another one over it. -/
namespace Sunshine.ThreadSafe.Shared
open Transitions
set_option autoImplicit false

variable {s : State} {l : Locked} {h h' : Handle} {i j k : ℕ} {ok : Bool}

/-! ## Calls -/

theorem proper_append (alive : Bool) (front back : List Call) :
    proper alive (front ++ back) = (proper alive front && proper (front.foldl occupy alive) back) := by
  induction front generalizing alive with
  | nil => rfl
  | cons call front ih => cases call <;> simp [proper, occupy, ih, Bool.and_assoc]

theorem calls_locked (handles : List Handle) : calls (s.locked l handles) = calls s ++ l.calls := by
  simp [calls, State.locked]

theorem occupied_locked (handles : List Handle) : occupied (s.locked l handles) = l.calls.foldl occupy (occupied s) := by
  rw [occupied, calls_locked, List.foldl_append, occupied]

theorem proper_locked (handles : List Handle) (honce : proper false (calls s) = true) :
    proper false (calls (s.locked l handles)) = proper (occupied s) l.calls := by
  rw [calls_locked, proper_append, honce, Bool.true_and, occupied]

/-! ## Sections -/

/-- Between no handle and the first, `ref` creates and constructs; between two it counts. -/
theorem ref_zero (hzero : s.count = 0) : ref true s = (⟨true, 0, 1, [.create, .construct true]⟩, .owning) ∧
    ref false s = (⟨true, 0, 0, [.create, .construct false]⟩, .null) := by
  constructor
  · simp [ref, hzero]
  · simp [ref, hzero]

theorem ref_pos (hpos : 0 < s.count) : ref ok s = (⟨true, s.count, (s.count + 1) % 4294967296, []⟩, .owning) := by
  have hzero : s.count ≠ 0 := by omega
  simp [ref, hzero]

theorem release_one (hone : s.count = 1) : release s = ⟨false, 1, 0, [.destruct, .destroy]⟩ := by
  simp [release, hone]

theorem release_more (hmore : 1 < s.count) (hsmall : s.count < 4294967296) :
    release s = ⟨false, s.count, s.count - 1, []⟩ := by
  have hafter : (s.count + 4294967295) % 4294967296 = s.count - 1 := by omega
  have hzero : s.count - 1 ≠ 0 := by omega
  simp only [release, hafter, if_neg hzero]

theorem ref_right (ok : Bool) : (ref ok s).1.Right := by
  by_cases hzero : s.count = 0
  · cases ok with
    | true => rw [(ref_zero hzero).1]; exact ⟨by simp, by simp⟩
    | false => rw [(ref_zero hzero).2]; exact ⟨by simp, by simp⟩
  · rw [ref_pos (by omega)]
    exact ⟨by simp [hzero], by simp⟩

theorem release_right (hpos : 0 < s.count) (hsmall : s.count < 4294967296) : (release s).Right := by
  by_cases hone : s.count = 1
  · rw [release_one hone]
    exact ⟨by simp, by simp⟩
  · rw [release_more (by omega) hsmall]
    exact ⟨by simp, by simp [hone]⟩

/-! ## Handles -/

/-- The number of owners when one handle changes. -/
theorem countP_set {handles : List Handle} (hget : handles[i]? = some h) (h' : Handle) :
    (handles.set i h').countP Handle.counts + h.counts.toNat = handles.countP Handle.counts + h'.counts.toNat := by
  obtain ⟨front, back, rfl, rfl⟩ := Threads.split_of_getElem hget
  rw [List.set_append_right _ _ le_rfl, Nat.sub_self, List.set_cons_zero]
  simp only [List.countP_append, List.countP_cons]
  cases h.counts <;> cases h'.counts <;> simp <;> omega

theorem countP_push (handles : List Handle) (h : Handle) :
    (handles ++ [h]).countP Handle.counts = handles.countP Handle.counts + h.counts.toNat := by
  rw [List.countP_append]
  cases hcounts : h.counts <;> simp [hcounts]

theorem owners_pos (hget : s.handles[i]? = some h) (hcounts : h.counts = true) : 0 < owners s :=
  List.countP_pos_iff.mpr ⟨h, List.mem_of_getElem? hget, hcounts⟩

/-- Where a copy reads its source there is an owner. -/
def Sourced (handles : List Handle) : Prop := ∀ i, .copying i ∈ handles → handles[i]? = some .owning

theorem sourced_push {handles : List Handle} (hsourced : Sourced handles) (hnew : ∀ i, h = .copying i → handles[i]? = some .owning) :
    Sourced (handles ++ [h]) := by
  intro i hmem
  have hsource : handles[i]? = some .owning := by
    obtain hold | hlast := List.mem_append.mp hmem
    · exact hsourced i hold
    · exact hnew i (List.mem_singleton.mp hlast).symm
  rw [List.getElem?_append_left (List.getElem?_eq_some_iff.mp hsource).1]
  exact hsource

theorem sourced_set {handles : List Handle} (hsourced : Sourced handles) (hnew : ∀ j, h' ≠ .copying j)
    (hread : .copying i ∉ handles ∨ h' = .owning) : Sourced (handles.set i h') := by
  intro j hmem
  have hold : .copying j ∈ handles := by
    obtain hmem | heq := List.mem_or_eq_of_mem_set hmem
    · exact hmem
    · exact absurd heq.symm (hnew j)
  have hsource := hsourced j hold
  by_cases hsame : i = j
  · obtain hunread | rfl := hread
    · exact absurd (hsame ▸ hold) hunread
    · rw [hsame, List.getElem?_set_self (List.getElem?_eq_some_iff.mp hsource).1]
  · rw [List.getElem?_set_ne hsame]
    exact hsource

/-- What steps between right states keep. -/
structure Inv (s : State) : Prop where
  small : s.count < 4294967296
  sourced : Sourced s.handles
  occupied : 0 < s.count → occupied s = true

theorem inv_initial : Inv {} where
  small := by decide
  sourced _ hmem := absurd hmem List.not_mem_nil
  occupied hpos := absurd hpos (Nat.lt_irrefl 0)

/-! ## Steps that take a reference -/

/-- A reference that is taken is right if the buffer is free when it has to be, and the count has room. -/
theorem acquire_right_iff (hright : Right s) {handles : List Handle}
    (howners : handles.countP Handle.counts = owners s + (ref ok s).2.counts.toNat) :
    Right (s.locked (ref ok s).1 handles) ↔ s.count + 1 < 4294967296 ∧ (s.count = 0 → occupied s = false) := by
  have hsections : ∀ l ∈ (s.locked (ref ok s).1 handles).sections, l.Right := by
    intro l hl
    obtain hold | hnew := List.mem_append.mp hl
    · exact hright.sections l hold
    · rw [List.mem_singleton.mp hnew]
      exact ref_right ok
  have honce := proper_locked handles (l := (ref ok s).1) hright.once
  have hcounted := hright.counted
  by_cases hzero : s.count = 0
  · have hcalls : proper (occupied s) (ref ok s).1.calls = !occupied s := by
      cases ok with
      | true => rw [(ref_zero hzero).1]; simp [proper]
      | false => rw [(ref_zero hzero).2]; simp [proper]
    have hcount : (ref ok s).1.after = handles.countP Handle.counts := by
      rw [howners, ← hcounted, hzero]
      cases ok with
      | true => rw [(ref_zero hzero).1]; rfl
      | false => rw [(ref_zero hzero).2]; rfl
    rw [hcalls] at honce
    constructor
    · intro h
      refine ⟨by omega, fun _ => ?_⟩
      simpa using honce.symm.trans h.once
    · rintro ⟨-, hfree⟩
      exact ⟨hcount, hsections, by rw [honce, hfree hzero]; rfl⟩
  · have hafter : (s.locked (ref ok s).1 handles).count = (s.count + 1) % 4294967296 := by
      rw [State.locked, ref_pos (by omega)]
    have hcalls : proper (occupied s) (ref ok s).1.calls = true := by
      rw [ref_pos (by omega)]
      rfl
    have howners' : owners (s.locked (ref ok s).1 handles) = s.count + 1 := by
      rw [hcounted]
      unfold State.locked owners at *
      rw [howners, ref_pos (by omega)]
      rfl
    constructor
    · intro h
      refine ⟨?_, fun h0 => absurd h0 hzero⟩
      have hsame := hafter.symm.trans (h.counted.trans howners')
      omega
    · rintro ⟨hroom, -⟩
      refine ⟨?_, hsections, honce.trans hcalls⟩
      rw [hafter, howners', Nat.mod_eq_of_lt hroom]

theorem acquire_inv (hinv : Inv s) {handles : List Handle} (hsourced : Sourced handles) :
    Inv (s.locked (ref ok s).1 handles) where
  small := by
    have hsmall := hinv.small
    by_cases hzero : s.count = 0
    · cases ok with
      | true => rw [(ref_zero hzero).1]; exact Nat.one_lt_two.trans (by decide)
      | false => rw [(ref_zero hzero).2]; exact Nat.zero_lt_of_lt hsmall
    · rw [ref_pos (by omega)]
      exact Nat.mod_lt _ (by omega)
  sourced := hsourced
  occupied hpos := by
    rw [occupied_locked]
    by_cases hzero : s.count = 0
    · cases ok with
      | true => rw [(ref_zero hzero).1]; rfl
      | false =>
        rw [(ref_zero hzero).2] at hpos
        exact absurd hpos (Nat.lt_irrefl 0)
    · rw [ref_pos (by omega)]
      exact hinv.occupied (by omega)

/-! ## Steps that give one up -/

theorem drop_right (hright : Right s) (hinv : Inv s) (hget : s.handles[i]? = some .owning) (hcounts : h'.counts = false) :
    Right (s.locked (release s) (s.handles.set i h')) := by
  have hpos : 0 < s.count := hright.counted ▸ owners_pos hget rfl
  have howners := countP_set hget h'
  have hcount : (release s).after + 1 = s.count := by
    by_cases hone : s.count = 1
    · rw [release_one hone, hone]
    · rw [release_more (by omega) hinv.small]
      dsimp only
      omega
  constructor
  case counted =>
    have hold := hright.counted
    simp only [State.locked, owners] at hold ⊢
    rw [hcounts] at howners
    simp only [Handle.counts, Bool.toNat_true, Bool.toNat_false] at howners
    omega
  case sections =>
    intro l hl
    obtain hold | hnew := List.mem_append.mp hl
    · exact hright.sections l hold
    · rw [List.mem_singleton.mp hnew]
      exact release_right hpos hinv.small
  case once =>
    rw [proper_locked _ hright.once, hinv.occupied hpos]
    by_cases hone : s.count = 1
    · rw [release_one hone]
      rfl
    · rw [release_more (by omega) hinv.small]
      rfl

theorem drop_inv (hright : Right s) (hinv : Inv s) (hget : s.handles[i]? = some .owning)
    (hsourced : Sourced (s.handles.set i h')) : Inv (s.locked (release s) (s.handles.set i h')) where
  small := Nat.mod_lt _ (by decide)
  sourced := hsourced
  occupied hleft := by
    have hpos : 0 < s.count := hright.counted ▸ owners_pos hget rfl
    rw [occupied_locked]
    by_cases hone : s.count = 1
    · rw [release_one hone] at hleft
      exact absurd hleft (Nat.lt_irrefl 0)
    · rw [release_more (by omega) hinv.small]
      exact hinv.occupied hpos

/-! ## Steps outside the lock -/

theorem local_right (hright : Right s) {handles : List Handle} (howners : handles.countP Handle.counts = owners s) :
    Right { s with handles := handles } := ⟨hright.counted.trans howners.symm, hright.sections, hright.once⟩

theorem local_inv (hinv : Inv s) {handles : List Handle} (hsourced : Sourced handles) : Inv { s with handles := handles } :=
  ⟨hinv.small, hsourced, hinv.occupied⟩

/-! ## Runs -/

theorem complete_cases (hcomplete : s.complete i) : s.handles[i]? = some .owning ∨ s.handles[i]? = some .null := by
  obtain ⟨h, hget, hkind⟩ := hcomplete
  cases h with
  | null => exact Or.inr hget
  | owning => exact Or.inl hget
  | copying source => exact absurd hkind (by simp [Handle.complete])
  | handing => exact absurd hkind (by simp [Handle.complete])
  | gone => exact absurd hkind (by simp [Handle.complete])

theorem ref_handle (ok : Bool) (s : State) : (ref ok s).2 = .owning ∨ (ref ok s).2 = .null := by
  by_cases hzero : s.count = 0
  · cases ok with
    | true => exact Or.inl (by rw [(ref_zero hzero).1])
    | false => exact Or.inr (by rw [(ref_zero hzero).2])
  · exact Or.inl (by rw [ref_pos (by omega)])

theorem step_ref (hright : Right s) (hinv : Inv s) (ok : Bool) :
    (Right (next s (.ref ok)) ↔ Clear s (.ref ok)) ∧ Inv (next s (.ref ok)) := by
  refine ⟨acquire_right_iff hright (countP_push _ _), acquire_inv hinv (sourced_push hinv.sourced fun i hi => ?_)⟩
  obtain heq | heq := ref_handle ok s
  · exact absurd (heq.symm.trans hi) (by simp)
  · exact absurd (heq.symm.trans hi) (by simp)

theorem step_copy (hright : Right s) (hinv : Inv s) (hcomplete : s.complete i) :
    Right (next s (.copy i)) ∧ Inv (next s (.copy i)) := by
  obtain hget | hget := complete_cases hcomplete
  · simp only [next, hget]
    refine ⟨local_right hright (countP_push _ _), local_inv hinv (sourced_push hinv.sourced fun j hj => ?_)⟩
    exact Handle.copying.inj hj ▸ hget
  · simp only [next, hget]
    exact ⟨local_right hright (countP_push _ _), local_inv hinv (sourced_push hinv.sourced fun j hj => absurd hj (by simp))⟩

theorem step_copyRef (hright : Right s) (hinv : Inv s) (hget : s.handles[k]? = some (.copying i)) (ok : Bool) :
    (Right (next s (.copyRef k ok)) ↔ Clear s (.copyRef k ok)) ∧ Inv (next s (.copyRef k ok)) := by
  have hsource := hinv.sourced i (List.mem_of_getElem? hget)
  -- the source holds a reference, so the temporary handle takes another one
  have hpos : 0 < s.count := hright.counted ▸ owners_pos hsource rfl
  have howners : (s.handles.set k .handing).countP Handle.counts = owners s + (ref ok s).2.counts.toNat := by
    rw [ref_pos hpos]
    exact countP_set hget .handing
  have hunread : .copying k ∉ s.handles := fun hmem => absurd (hget.symm.trans (hinv.sourced k hmem)) (by simp)
  refine ⟨(acquire_right_iff hright howners).trans ⟨fun h => h.1, fun h => ⟨h, fun hzero => absurd hzero hpos.ne'⟩⟩,
    acquire_inv hinv (sourced_set hinv.sourced (by simp) (Or.inl hunread))⟩

theorem step_copyDone (hright : Right s) (hinv : Inv s) (hget : s.handles[k]? = some .handing) :
    Right (next s (.copyDone k)) ∧ Inv (next s (.copyDone k)) := by
  refine ⟨local_right hright ?_, local_inv hinv (sourced_set hinv.sourced (by simp) (Or.inr rfl))⟩
  exact Nat.add_right_cancel (countP_set hget .owning)

theorem step_moveConstruct (hright : Right s) (hinv : Inv s) (hcomplete : s.complete i) (hunread : s.unread i) :
    Right (next s (.moveConstruct i)) ∧ Inv (next s (.moveConstruct i)) := by
  obtain hget | hget := complete_cases hcomplete
  · simp only [next, hget]
    have hset : Sourced (s.handles.set i .null) := sourced_set hinv.sourced (by simp) (Or.inl hunread)
    refine ⟨local_right hright ?_, local_inv hinv (sourced_push hset fun j hj => absurd hj (by simp))⟩
    rw [countP_push]
    exact countP_set hget .null
  · simp only [next, hget]
    exact ⟨local_right hright (countP_push _ _), local_inv hinv (sourced_push hinv.sourced fun j hj => absurd hj (by simp))⟩

theorem step_drop (hright : Right s) (hinv : Inv s) (hget : s.handles[i]? = some .owning) (hunread : s.unread i)
    (hcounts : h'.counts = false) (hcopies : ∀ j, h' ≠ .copying j) :
    Right (s.locked (release s) (s.handles.set i h')) ∧ Inv (s.locked (release s) (s.handles.set i h')) :=
  ⟨drop_right hright hinv hget hcounts,
    drop_inv hright hinv hget (sourced_set hinv.sourced hcopies (Or.inl hunread))⟩

theorem step_swap (hright : Right s) (hinv : Inv s) (hnull : s.handles[i]? = some .null) (hget : s.handles[j]? = some h)
    (hcopies : ∀ k, h ≠ .copying k) (hunread : s.unread i) (hunread' : s.unread j) :
    Right { s with handles := (s.handles.set i h).set j .null } ∧ Inv { s with handles := (s.handles.set i h).set j .null } := by
  have hmid : (s.handles.set i h)[j]? = some h := by
    by_cases hsame : i = j
    · rw [hsame, List.getElem?_set_self (List.getElem?_eq_some_iff.mp hget).1]
    · rw [List.getElem?_set_ne hsame, hget]
  have hfirst := countP_set hnull h
  have hsecond := countP_set hmid .null
  have hmidUnread : .copying j ∉ s.handles.set i h := by
    intro hmem
    obtain hold | heq := List.mem_or_eq_of_mem_set hmem
    · exact hunread' hold
    · exact hcopies j heq.symm
  refine ⟨local_right hright ?_, local_inv hinv ?_⟩
  · simp only [Handle.counts, Bool.toNat_false] at hfirst hsecond
    unfold owners
    omega
  · exact sourced_set (sourced_set hinv.sourced hcopies (Or.inl hunread)) (by simp) (Or.inl hmidUnread)

theorem step_moveAssign (hright : Right s) (hinv : Inv s) (hcomplete : s.complete i) (hunread : s.unread i)
    (hcomplete' : s.complete j) (hunread' : s.unread j) :
    Right (next s (.moveAssign i j)) ∧ Inv (next s (.moveAssign i j)) := by
  obtain hget | hget := complete_cases hcomplete
  · simp only [next, hget]
    exact step_drop hright hinv hget hunread rfl (by simp)
  · obtain hget' | hget' := complete_cases hcomplete'
    · simp only [next, hget, hget']
      exact step_swap hright hinv hget hget' (by simp) hunread hunread'
    · simp only [next, hget, hget']
      exact step_swap hright hinv hget hget' (by simp) hunread hunread'

theorem step_destroy (hright : Right s) (hinv : Inv s) (hcomplete : s.complete i) (hunread : s.unread i) :
    Right (next s (.destroy i)) ∧ Inv (next s (.destroy i)) := by
  obtain hget | hget := complete_cases hcomplete
  · simp only [next, hget]
    exact step_drop hright hinv hget hunread rfl (by simp)
  · simp only [next, hget]
    refine ⟨local_right hright ?_, local_inv hinv (sourced_set hinv.sourced (by simp) (Or.inl hunread))⟩
    exact Nat.add_right_cancel (countP_set hget .gone)

/-- A step is right if it is clear, and only then. -/
theorem step_iff (e : Event) (hinv : Inv s) (hright : Right s) (henabled : Enabled s e) :
    (Right (next s e) ↔ Clear s e) ∧ Inv (next s e) := by
  have hsure : Right (next s e) ∧ Inv (next s e) → Clear s e → (Right (next s e) ↔ Clear s e) ∧ Inv (next s e) :=
    fun h hclear => ⟨⟨fun _ => hclear, fun _ => h.1⟩, h.2⟩
  cases e with
  | ref ok => exact step_ref hright hinv ok
  | copy i => exact hsure (step_copy hright hinv henabled) trivial
  | copyRef k ok =>
    obtain ⟨i, hget⟩ := henabled
    exact step_copyRef hright hinv hget ok
  | copyDone k => exact hsure (step_copyDone hright hinv henabled) trivial
  | moveConstruct i => exact hsure (step_moveConstruct hright hinv henabled.1 henabled.2) trivial
  | moveAssign i j =>
    exact hsure (step_moveAssign hright hinv henabled.1.1 henabled.1.2 henabled.2.1 henabled.2.2) trivial
  | destroy i => exact hsure (step_destroy hright hinv henabled.1 henabled.2) trivial

theorem right_initial : Right {} := ⟨rfl, fun _ hl => absurd hl List.not_mem_nil, rfl⟩

/-- Two handles and a copy, and everything given up again. -/
def sharing : List Event :=
  [.ref true, .ref true, .copy 0, .copyRef 2 true, .copyDone 2, .moveConstruct 1, .moveAssign 0 3, .moveAssign 0 3, .destroy 0,
    .destroy 2]

end Sunshine.ThreadSafe.Shared
