import Mathlib.Tactic.Tauto
import Sunshine.Lib.Transitions
import Sunshine.Platform.TouchSlots

/-! Runs of touch events and repeats.

A released slot counts until the next compaction, an event that sets no flag still claims a slot, and a failed injection
leaves the edge flags of its event: `touches_sound` is about the runs in which none of the three is injected. -/
namespace Sunshine.TouchSlots
open Compaction Transitions
set_option autoImplicit false

section
variable {raw : Raw} {pointerId : UInt32} {front back holes : List Slot} {slot : Slot} {eventType : EventType}

/-! ## What holds between the steps -/

/-- Behind the slots that count none is in use, and no edge flag is left. -/
structure Settled (raw : Raw) : Prop where
  length : raw.touchInfo.length = 10
  behind : ∀ slot ∈ raw.touchInfo.drop raw.activeTouchSlots, slot.isEmpty = true
  distinct : ((used raw).map Slot.pointerId).Nodup
  edges : ∀ slot ∈ raw.touchInfo, slot.pointerFlags.edges = pointerFlagNone

theorem Settled.few (h : Settled raw) : (used raw).length ≤ 10 := by
  rw [← h.length]
  exact List.length_filter_le _ _

theorem settled_of_empty (hlength : raw.touchInfo.length = 10) (hempty : ∀ slot ∈ raw.touchInfo, slot.isEmpty = true) :
    Settled raw := by
  refine ⟨hlength, fun slot hslot => hempty slot (List.mem_of_mem_drop hslot), ?_, fun slot hslot => ?_⟩
  · have hnone : used raw = [] := List.filter_eq_nil_iff.mpr fun slot hslot => by simp [hempty slot hslot]
    rw [hnone]
    exact List.nodup_nil
  · rw [(isEmpty_iff slot).mp (hempty slot hslot)]
    rfl

/-- The slot of a pointer in the table: those in use are around it, and holes behind them. -/
structure Place (raw : Raw) (pointerId : UInt32) (front : List Slot) (slot : Slot) (back holes : List Slot) : Prop where
  touchInfo : raw.touchInfo = front ++ slot :: (back ++ holes)
  active : raw.activeTouchSlots = (front ++ slot :: back).length
  length : raw.touchInfo.length = 10
  pointer : slot.pointerId = pointerId
  others : ∀ other ∈ front ++ back, other.isEmpty = false
  holes : ∀ other ∈ holes, other.isEmpty = true
  distinct : ((front ++ slot :: back).map Slot.pointerId).Nodup
  edges : ∀ other ∈ front ++ slot :: back, other.pointerFlags.edges = pointerFlagNone

theorem mem_around {other : Slot} : other ∈ front ++ slot :: back ↔ other = slot ∨ other ∈ front ++ back := by
  rw [List.mem_append, List.mem_cons, List.mem_append]
  tauto

/-- The pointer of another slot is another pointer. -/
theorem Place.pointer_ne (h : Place raw pointerId front slot back holes) {other : Slot} (hother : other ∈ front ++ back) :
    other.pointerId ≠ pointerId := by
  have hdistinct := h.distinct
  rw [List.map_append, List.map_cons, List.nodup_middle, List.nodup_cons, ← List.map_append] at hdistinct
  rw [← h.pointer]
  exact fun heq => hdistinct.1 (heq ▸ List.mem_map_of_mem hother)

variable (eventType) in
theorem Place.array_eq (h : Place raw pointerId front slot back holes) (succeeds : Bool) :
    (injectTouch eventType pointerId succeeds raw front.length).2 = ⟨.event eventType pointerId,
        front ++ slot.populate eventType :: (back ++ holes), raw.activeTouchSlots⟩ ∧
      (injectTouch eventType pointerId succeeds raw front.length).2.array =
        front ++ slot.populate eventType :: back := by
  have htable : raw.touchInfo.modify front.length (Slot.populate eventType) =
      front ++ slot.populate eventType :: (back ++ holes) := by
    rw [h.touchInfo, modify_here]
  have hinjection : (injectTouch eventType pointerId succeeds raw front.length).2 =
      ⟨.event eventType pointerId, front ++ slot.populate eventType :: (back ++ holes), raw.activeTouchSlots⟩ := by
    rw [← htable]
    unfold injectTouch
    cases succeeds <;> rfl
  have hlength : (front ++ slot :: back).length = (front ++ slot.populate eventType :: back).length := by simp
  refine ⟨hinjection, ?_⟩
  rw [hinjection, Injection.array, h.active, hlength, ← List.cons_append, ← List.append_assoc, List.take_left]

theorem Place.array_ids (h : Place raw pointerId front slot back holes) (succeeds : Bool) :
    (injectTouch eventType pointerId succeeds raw front.length).2.array.map Slot.pointerId =
      (front ++ slot :: back).map Slot.pointerId := by
  rw [(h.array_eq eventType succeeds).2]
  simp only [List.map_append, List.map_cons]
  rfl

/-- An event that leaves a flag in its slot is injected soundly. -/
theorem Place.sound (h : Place raw pointerId front slot back holes) (hused : (slot.populate eventType).isEmpty = false)
    (succeeds : Bool) : Sound (injectTouch eventType pointerId succeeds raw front.length).2 := by
  obtain ⟨hinjection, harray⟩ := h.array_eq eventType succeeds
  refine ⟨?_, fun other hother => ?_, ?_, fun other hother htouching => ?_, fun other hother => ?_⟩
  · have htotal := h.length
    rw [harray]
    rw [h.touchInfo] at htotal
    simp only [List.length_append, List.length_cons] at htotal ⊢
    omega
  · rw [harray, mem_around] at hother
    cases hother with
    | inl hown =>
      rw [hown]
      exact hused
    | inr hother => exact h.others other hother
  · rw [h.array_ids]
    exact h.distinct
  · rw [hinjection] at hother
    rw [harray]
    rw [← List.cons_append, ← List.append_assoc, List.mem_append] at hother
    refine hother.resolve_right fun hhole => ?_
    exact ne_none_of_touching _ htouching ((isEmpty_iff other).mp (h.holes other hhole))
  · rw [harray, mem_around] at hother
    rw [hinjection]
    cases hother with
    | inl hown =>
      subst hown
      have hedges := h.edges slot (mem_around.mpr (.inl rfl))
      have hid : (slot.populate eventType).pointerId = pointerId := h.pointer
      rw [allowedEdges, if_pos hid]
      exact populate_edges eventType slot.pointerFlags hedges
    | inr hother =>
      rw [allowedEdges, if_neg (h.pointer_ne hother), h.edges other (mem_around.mpr (.inr hother))]
      exact List.mem_singleton_self _

theorem Place.settled_of (h : Place raw pointerId front slot back holes) {slot' : Slot} {task : Bool}
    (hid : slot'.pointerId = slot.pointerId) (hedges : slot'.pointerFlags.edges = pointerFlagNone) :
    Settled { raw with touchInfo := front ++ slot' :: (back ++ holes), touchRepeatTask := task } := by
  have hlength := h.length
  rw [h.touchInfo] at hlength
  have hmem {other : Slot} (hother : other ∈ front ++ slot' :: (back ++ holes)) :
      other ∈ front ++ slot' :: back ∨ other ∈ holes := by
    rw [← List.cons_append, ← List.append_assoc, List.mem_append] at hother
    exact hother
  refine ⟨?_, fun other hother => ?_, ?_, fun other hother => ?_⟩
  · simp only [List.length_append, List.length_cons] at hlength ⊢
    exact hlength
  · have hdrop : (front ++ slot' :: (back ++ holes)).drop raw.activeTouchSlots = holes := by
      have hactive : raw.activeTouchSlots = (front ++ slot' :: back).length := by
        rw [h.active]
        simp
      rw [hactive, ← List.cons_append, ← List.append_assoc, List.drop_left]
    exact h.holes other (hdrop ▸ hother)
  · have hnone : holes.filter (!·.isEmpty) = [] :=
      List.filter_eq_nil_iff.mpr fun other hother => by simp [h.holes other hother]
    have hids : (front ++ slot' :: back).map Slot.pointerId = (front ++ slot :: back).map Slot.pointerId := by
      simp only [List.map_append, List.map_cons, hid]
    have hfilter : (front ++ slot' :: (back ++ holes)).filter (!·.isEmpty) =
        (front ++ slot' :: back).filter (!·.isEmpty) := by
      rw [← List.cons_append, ← List.append_assoc, List.filter_append, hnone, List.append_nil]
    show (List.map Slot.pointerId ((front ++ slot' :: (back ++ holes)).filter (!·.isEmpty))).Nodup
    rw [hfilter]
    refine List.Nodup.sublist (List.filter_sublist.map Slot.pointerId) ?_
    rw [hids]
    exact h.distinct
  · cases hmem hother with
    | inl hother =>
      cases mem_around.mp hother with
      | inl hown =>
        rw [hown]
        exact hedges
      | inr hother => exact h.edges other (mem_around.mpr (.inr hother))
    | inr hhole =>
      rw [(isEmpty_iff other).mp (h.holes other hhole)]
      rfl

/-- Behind an injection that has succeeded, or an event that sets no flag, no edge flag is left. -/
theorem Place.settled (h : Place raw pointerId front slot back holes) {succeeds : Bool}
    (hsucceeds : setsFlags (!slot.isEmpty) eventType = true → succeeds = true) :
    Settled (injectTouch eventType pointerId succeeds raw front.length).1 := by
  have htable : raw.touchInfo.modify front.length (Slot.populate eventType) =
      front ++ slot.populate eventType :: (back ++ holes) := by
    rw [h.touchInfo, modify_here]
  unfold injectTouch
  rw [htable]
  cases succeeds with
  | true =>
    dsimp only
    rw [if_pos rfl, modify_here]
    exact h.settled_of rfl (clearEdges_edges _)
  | false =>
    have hsets : setsFlags (!slot.isEmpty) eventType = false := Bool.eq_false_iff.mpr fun hsets =>
      Bool.false_ne_true (hsucceeds hsets)
    have hsame : slot.populate eventType = slot := by
      have hflags := populate_eq eventType slot.pointerFlags
      rw [Slot.isEmpty, ← decide_not] at hsets
      rw [Slot.populate, hflags hsets]
    dsimp only
    rw [if_neg Bool.false_ne_true, hsame]
    exact h.settled_of rfl (h.edges slot (mem_around.mpr (.inl rfl)))

/-! ## Cancelling all touches -/

theorem cancelAll_idle (raw : Raw) : Idle (cancelAllActiveTouches raw).1 ∧
    (cancelAllActiveTouches raw).1.touchInfo.length = raw.touchInfo.length := by
  obtain ⟨holes, hcompacted, -, htotal⟩ := performTouchCompaction_eq { raw with touchRepeatTask := false }
  unfold cancelAllActiveTouches
  rw [hcompacted]
  refine ⟨⟨fun slot hslot => ?_, rfl, rfl⟩, ?_⟩
  · obtain ⟨-, -, rfl⟩ := List.mem_map.mp hslot
    rfl
  · rw [List.length_map, List.length_append]
    exact htotal

/-- All pointers in use are cancelled together, if there are any. -/
theorem cancelAll_sound (h : Settled raw) :
    (cancelAllActiveTouches raw).2 = [] ∧ used raw = [] ∨
      ∃ injection, (cancelAllActiveTouches raw).2 = [injection] ∧ Sound injection ∧
        ∀ slot ∈ used raw, slot.pointerId ∈ injection.array.map Slot.pointerId := by
  obtain ⟨holes, hcompacted, hholes, htotal⟩ := performTouchCompaction_eq { raw with touchRepeatTask := false }
  have hsame : used { raw with touchRepeatTask := false } = used raw := rfl
  rw [hsame] at hcompacted htotal
  by_cases hnone : 0 < (used raw).length
  · have hinjection : (cancelAllActiveTouches raw).2 = [⟨.cancelAll,
        (used raw).map (Slot.populate .cancelAll) ++ holes, (used raw).length⟩] := by
      unfold cancelAllActiveTouches
      rw [hcompacted]
      dsimp only
      rw [if_pos hnone, List.take_left, List.drop_left]
    have harray : Injection.array ⟨.cancelAll, (used raw).map (Slot.populate .cancelAll) ++ holes,
        (used raw).length⟩ = (used raw).map (Slot.populate .cancelAll) := by
      rw [Injection.array]
      exact List.take_left' (List.length_map _)
    have hids : ((used raw).map (Slot.populate .cancelAll)).map Slot.pointerId = (used raw).map Slot.pointerId := by
      rw [List.map_map]
      rfl
    refine .inr ⟨_, hinjection, ⟨?_, fun slot hslot => ?_, ?_, fun slot hslot htouching => ?_, fun slot hslot => ?_⟩,
      fun slot hslot => ?_⟩
    · rw [harray, List.length_map]
      exact h.few
    · rw [harray] at hslot
      obtain ⟨slot', hslot', rfl⟩ := List.mem_map.mp hslot
      rw [isEmpty_false_iff]
      exact populate_used .cancelAll _ (.inr rfl)
    · rw [harray, hids]
      exact h.distinct
    · rw [harray]
      refine (List.mem_append.mp hslot).resolve_right fun hhole => ?_
      exact ne_none_of_touching _ htouching ((isEmpty_iff slot).mp (hholes slot hhole))
    · rw [harray] at hslot
      obtain ⟨slot', hslot', rfl⟩ := List.mem_map.mp hslot
      exact populate_edges .cancelAll _ (h.edges slot' (mem_used.mp hslot').1)
    · rw [harray, hids]
      exact List.mem_map_of_mem hslot
  · have hempty : (cancelAllActiveTouches raw).2 = [] := by
      unfold cancelAllActiveTouches
      rw [hcompacted]
      exact if_neg hnone
    exact .inl ⟨hempty, List.length_eq_zero_iff.mp (Nat.le_zero.mp (Nat.not_lt.mp hnone))⟩

/-! ## Finding the slot -/

theorem used_idle (h : Idle raw) : used raw = [] :=
  List.filter_eq_nil_iff.mpr fun slot hslot => by simp [h.empty slot hslot]

/-- With no slot in use a pointer is new, and gets the first slot. -/
theorem pointerById_idle (h : Idle raw) (hlength : raw.touchInfo.length = 10) (pointerId : UInt32) :
    known raw pointerId = false ∧ ∃ holes, (∀ other ∈ holes, other.isEmpty = true) ∧
      (used raw).length + 1 + holes.length = raw.touchInfo.length ∧
      pointerById raw pointerId =
        ({ raw with
            touchInfo := used raw ++ ⟨pointerId, pointerFlagNone⟩ :: holes
            activeTouchSlots := (used raw).length + 1 }, some (used raw).length) := by
  have hnone := used_idle h
  have hnew : known raw pointerId = false := Bool.eq_false_iff.mpr fun hknown => by
    obtain ⟨slot, hslot, -⟩ := known_iff.mp hknown
    rw [hnone] at hslot
    cases hslot
  refine ⟨hnew, (pointerById_new hnew).resolve_right fun hfull => ?_⟩
  have hzero := hfull.1
  rw [hnone, hlength] at hzero
  cases hzero

/-- A pointer always gets a slot. -/
theorem findPointer_some (raw : Raw) (pointerId : UInt32) (h : raw.touchInfo.length = 10) :
    ∃ i, (findPointer raw pointerId).2.2 = some i ∧ (findPointer raw pointerId).1.touchInfo.length = 10 := by
  unfold findPointer
  cases hknown : known raw pointerId with
  | true =>
    obtain ⟨front, slot, back, holes, hused, -, -, htotal, hfound⟩ := pointerById_known hknown
    rw [hfound]
    refine ⟨_, rfl, ?_⟩
    rw [hused, h] at htotal
    simp only [List.length_append, List.length_cons] at htotal ⊢
    omega
  | false =>
    rcases pointerById_new hknown with ⟨holes, -, htotal, hfound⟩ | ⟨hfull, hfound⟩
    · rw [hfound]
      refine ⟨_, rfl, ?_⟩
      rw [h] at htotal
      simp only [List.length_append, List.length_cons]
      omega
    · rw [hfound]
      dsimp only
      obtain ⟨hidle, hlength⟩ := cancelAll_idle { raw with touchInfo := used raw, activeTouchSlots := (used raw).length }
      generalize (cancelAllActiveTouches { raw with touchInfo := used raw, activeTouchSlots := (used raw).length }).1 =
        cancelled at hidle hlength
      have hlength' : cancelled.touchInfo.length = 10 := hlength.trans (hfull.trans h)
      obtain ⟨-, holes, -, htotal, hfound'⟩ := pointerById_idle hidle hlength' pointerId
      rw [hfound']
      refine ⟨_, rfl, ?_⟩
      rw [hlength'] at htotal
      simp only [List.length_append, List.length_cons]
      omega

/-- A new pointer has the slot behind those in use. -/
theorem place_new (h : Settled raw) {holes : List Slot} (hnew : known raw pointerId = false)
    (hholes : ∀ other ∈ holes, other.isEmpty = true) (htotal : (used raw).length + 1 + holes.length = raw.touchInfo.length) :
    Place { raw with
      touchInfo := used raw ++ ⟨pointerId, pointerFlagNone⟩ :: holes
      activeTouchSlots := (used raw).length + 1 } pointerId (used raw) ⟨pointerId, pointerFlagNone⟩ [] holes where
  touchInfo := rfl
  active := by simp
  length := by
    have hlength := h.length
    simp only [List.length_append, List.length_cons]
    omega
  pointer := rfl
  others := fun other hother => by
    rw [List.append_nil] at hother
    exact (mem_used.mp hother).2
  holes := hholes
  distinct := by
    rw [List.map_append, List.map_cons, List.nodup_middle, List.map_nil, List.append_nil, List.nodup_cons]
    refine ⟨fun hmem => ?_, h.distinct⟩
    obtain ⟨slot, hslot, hid⟩ := List.mem_map.mp hmem
    exact known_eq_false hnew slot hslot hid
  edges := fun other hother => by
    rw [mem_around, List.append_nil] at hother
    cases hother with
    | inl hown =>
      rw [hown]
      rfl
    | inr hother => exact h.edges other (mem_used.mp hother).1

/-- A known pointer has its slot among those in use. -/
theorem place_known (h : Settled raw) (hused : used raw = front ++ slot :: back) (hid : slot.pointerId = pointerId)
    (hholes : ∀ other ∈ holes, other.isEmpty = true) (htotal : (used raw).length + holes.length = raw.touchInfo.length) :
    Place { raw with touchInfo := front ++ slot :: (back ++ holes), activeTouchSlots := (used raw).length }
      pointerId front slot back holes where
  touchInfo := rfl
  active := congrArg List.length hused
  length := by
    have hlength := h.length
    rw [hused] at htotal
    simp only [List.length_append, List.length_cons] at htotal ⊢
    omega
  pointer := hid
  others := fun other hother => by
    have hmem : other ∈ used raw := by
      rw [hused]
      exact mem_around.mpr (.inr hother)
    exact (mem_used.mp hmem).2
  holes := hholes
  distinct := by
    rw [← hused]
    exact h.distinct
  edges := fun other hother => by
    rw [← hused] at hother
    exact h.edges other (mem_used.mp hother).1

/-- What comes of finding the slot: its place, and what was in use is in the array or has been cancelled. -/
theorem findPointer_place (h : Settled raw) (pointerId : UInt32) : ∃ front slot back holes,
    Place (findPointer raw pointerId).1 pointerId front slot back holes ∧
      (findPointer raw pointerId).2.2 = some front.length ∧ slot.isEmpty = !known raw pointerId ∧
      ((findPointer raw pointerId).2.1 = [] ∧
          (∀ other ∈ used raw, other.pointerId ∈ (front ++ slot :: back).map Slot.pointerId) ∨
        ∃ injection, (findPointer raw pointerId).2.1 = [injection] ∧ Sound injection ∧
          ∀ other ∈ used raw, other.pointerId ∈ injection.array.map Slot.pointerId) := by
  unfold findPointer
  cases hknown : known raw pointerId with
  | true =>
    obtain ⟨front, slot, back, holes, hused, hid, hholes, htotal, hfound⟩ := pointerById_known hknown
    have hslot : slot ∈ used raw := by
      rw [hused]
      exact mem_around.mpr (.inl rfl)
    rw [hfound]
    refine ⟨front, slot, back, holes, place_known h hused hid hholes htotal, rfl, (mem_used.mp hslot).2,
      .inl ⟨rfl, fun other hother => ?_⟩⟩
    rw [← hused]
    exact List.mem_map_of_mem hother
  | false =>
    rcases pointerById_new hknown with ⟨holes, hholes, htotal, hfound⟩ | ⟨hfull, hfound⟩
    · rw [hfound]
      refine ⟨used raw, ⟨pointerId, pointerFlagNone⟩, [], holes, place_new h hknown hholes htotal, rfl, rfl,
        .inl ⟨rfl, fun other hother => ?_⟩⟩
      exact List.mem_map_of_mem (List.mem_append_left _ hother)
    · rw [hfound]
      dsimp only
      have hself : used { raw with touchInfo := used raw, activeTouchSlots := (used raw).length } = used raw :=
        List.filter_eq_self.mpr fun slot hslot => (List.mem_filter.mp hslot).2
      have hsettled : Settled { raw with touchInfo := used raw, activeTouchSlots := (used raw).length } := by
        refine ⟨hfull.trans h.length, fun slot hslot => ?_, ?_, fun slot hslot => h.edges slot (mem_used.mp hslot).1⟩
        · rw [List.drop_length] at hslot
          cases hslot
        · rw [hself]
          exact h.distinct
      obtain ⟨hidle, hlength⟩ := cancelAll_idle { raw with touchInfo := used raw, activeTouchSlots := (used raw).length }
      have hcancelled := cancelAll_sound hsettled
      rw [hself] at hcancelled
      generalize cancelAllActiveTouches { raw with touchInfo := used raw, activeTouchSlots := (used raw).length } =
        cancelled at hidle hlength hcancelled ⊢
      have hlength' : cancelled.1.touchInfo.length = 10 := hlength.trans (hfull.trans h.length)
      obtain ⟨hnew, holes, hholes, htotal, hfound'⟩ := pointerById_idle hidle hlength' pointerId
      rw [hfound']
      have hplace := place_new (settled_of_empty hlength' hidle.empty) hnew hholes htotal
      refine ⟨_, _, _, _, hplace, rfl, rfl, .inr ?_⟩
      rcases hcancelled with ⟨-, hunused⟩ | hinjection
      · rw [hunused, h.length] at hfull
        cases hfull
      · exact hinjection

/-! ## One step -/

theorem pointerById_touch (raw : Raw) (pointerId : UInt32) : (pointerById raw pointerId).1.touch = raw.touch := by
  unfold pointerById
  dsimp only
  split
  · rfl
  · split <;> rfl

theorem findPointer_touch (raw : Raw) (pointerId : UInt32) : (findPointer raw pointerId).1.touch = raw.touch := by
  have hfirst := pointerById_touch raw pointerId
  unfold findPointer
  generalize pointerById raw pointerId = found at hfirst
  obtain ⟨raw', _ | i⟩ := found
  · have hagain := pointerById_touch (cancelAllActiveTouches raw').1 pointerId
    exact hagain.trans hfirst
  · exact hfirst

/-- There is always a slot, and behind a cancel-all the client is idle. -/
theorem step_some (hlength : raw.touchInfo.length = 10) (hidle : raw.touch = false → Idle raw) (event : Event) :
    ∃ result, step raw event = some result ∧ result.1.touchInfo.length = 10 ∧
      (result.1.touch = false → Idle result.1) ∧
      ∀ system pointerId, event = .touch system .cancelAll pointerId → Idle result.1 := by
  cases event with
  | repetition =>
    cases hpending : raw.touchRepeatTask with
    | false =>
      have hstep : step raw .repetition = some (raw, []) := by
        rw [step, hpending]
        exact if_neg Bool.false_ne_true
      exact ⟨_, hstep, hlength, hidle, fun _ _ h => nomatch h⟩
    | true =>
      have hstep : step raw .repetition = some (repeatTouch raw) := if_pos hpending
      refine ⟨_, hstep, hlength, fun habsent => ?_, fun _ _ h => nomatch h⟩
      rw [(hidle habsent).repetition] at hpending
      cases hpending
  | touch system eventType pointerId =>
    rw [step, touchUpdate]
    by_cases habsent : raw.touch = false ∧ (eventType = .cancelAll ∨ system.creates = false)
    · rw [if_pos habsent]
      exact ⟨_, rfl, hlength, hidle, fun _ _ _ => hidle habsent.1⟩
    · rw [if_neg habsent]
      dsimp only
      by_cases hcancel : eventType = .cancelAll
      · obtain ⟨hidle', hlength'⟩ := cancelAll_idle { raw with touch := true, touchRepeatTask := false }
        rw [if_pos hcancel]
        exact ⟨_, rfl, hlength'.trans hlength, fun _ => hidle', fun _ _ _ => hidle'⟩
      · obtain ⟨i, hfound, hlength'⟩ :=
          findPointer_some { raw with touch := true, touchRepeatTask := false } pointerId hlength
        have htouch := findPointer_touch { raw with touch := true, touchRepeatTask := false } pointerId
        rw [if_neg hcancel]
        generalize findPointer { raw with touch := true, touchRepeatTask := false } pointerId = found at hfound hlength' htouch
        obtain ⟨raw', injected, place⟩ := found
        obtain rfl : place = some i := hfound
        refine ⟨_, rfl, ?_, fun hno => ?_, fun _ _ heq => ?_⟩
        · unfold injectTouch
          dsimp only
          split_ifs
          · rw [List.length_modify, List.length_modify]
            exact hlength'
          · rw [List.length_modify]
            exact hlength'
        · have hkept : (injectTouch eventType pointerId system.succeeds raw' i).1.touch = raw'.touch := by
            unfold injectTouch
            dsimp only
            split_ifs <;> rfl
          rw [hkept] at hno
          exact nomatch htouch.symm.trans hno
        · injection heq with _ heq
          exact absurd heq hcancel

/-- A repeat that fits hands over what is settled. -/
theorem repeat_sound (h : Settled raw) (hcounted : ∀ slot ∈ raw.touchInfo.take raw.activeTouchSlots, slot.isEmpty = false) :
    SoundStep raw (repeatTouch raw).2 := by
  have harray {slot : Slot} (hslot : slot ∈ used raw) : slot ∈ raw.touchInfo.take raw.activeTouchSlots := by
    obtain ⟨hmem, hused⟩ := mem_used.mp hslot
    rw [← List.take_append_drop raw.activeTouchSlots raw.touchInfo] at hmem
    refine (List.mem_append.mp hmem).resolve_right fun hbehind => ?_
    rw [h.behind slot hbehind] at hused
    cases hused
  have hall : (raw.touchInfo.take raw.activeTouchSlots).filter (!·.isEmpty) =
      raw.touchInfo.take raw.activeTouchSlots :=
    List.filter_eq_self.mpr fun slot hslot => by simp [hcounted slot hslot]
  have hsub : (raw.touchInfo.take raw.activeTouchSlots).Sublist (used raw) := by
    rw [← hall]
    exact (List.take_sublist _ _).filter _
  refine ⟨fun injection hinjection => ?_, fun injection hinjection slot hslot => ?_⟩
  · obtain rfl := List.mem_singleton.mp hinjection
    refine ⟨Nat.le_trans hsub.length_le h.few, hcounted, h.distinct.sublist (hsub.map _), fun slot hslot htouching => ?_,
      fun slot hslot => ?_⟩
    · exact harray (mem_used.mpr ⟨hslot, (isEmpty_false_iff slot).mpr (ne_none_of_touching _ htouching)⟩)
    · rw [h.edges slot (List.mem_of_mem_take hslot)]
      exact List.mem_singleton_self _
  · obtain rfl := Option.some.inj hinjection
    exact List.mem_map_of_mem (harray hslot)

theorem soundStep_nil : SoundStep raw [] := ⟨List.forall_mem_nil _, fun _ hnone => nomatch hnone⟩

theorem cancelAll_step (h : Settled raw) :
    SoundStep raw (cancelAllActiveTouches raw).2 ∧ Settled (cancelAllActiveTouches raw).1 := by
  obtain ⟨hidle, hlength⟩ := cancelAll_idle raw
  refine ⟨?_, settled_of_empty (hlength.trans h.length) hidle.empty⟩
  rcases cancelAll_sound h with ⟨hnone, -⟩ | ⟨injection, hone, hsound, hkept⟩
  · rw [hnone]
    exact soundStep_nil
  · rw [hone]
    refine ⟨List.forall_mem_singleton.mpr hsound, fun injection' hinjection => ?_⟩
    obtain rfl := Option.some.inj hinjection
    exact hkept

/-- An event that sets flags on a new pointer's slot is injected for the slot its pointer is given. -/
theorem injectTouch_step (h : Settled raw) {succeeds : Bool}
    (hnew : known raw pointerId = false → setsFlags false eventType = true)
    (hsucceeds : setsFlags (known raw pointerId) eventType = true → succeeds = true) :
    ∃ i, (findPointer raw pointerId).2.2 = some i ∧
      SoundStep raw ((findPointer raw pointerId).2.1 ++
        [(injectTouch eventType pointerId succeeds (findPointer raw pointerId).1 i).2]) ∧
      Settled (injectTouch eventType pointerId succeeds (findPointer raw pointerId).1 i).1 := by
  obtain ⟨front, slot, back, holes, hplace, hfound, hslot, hinjected⟩ := findPointer_place h pointerId
  have hused : (slot.populate eventType).isEmpty = false := by
    rw [isEmpty_false_iff]
    refine populate_used eventType slot.pointerFlags ?_
    cases hcase : known raw pointerId with
    | true =>
      rw [hcase, Bool.not_true, isEmpty_false_iff] at hslot
      exact .inl hslot
    | false => exact .inr (hnew hcase)
  have hsettled : Settled (injectTouch eventType pointerId succeeds (findPointer raw pointerId).1 front.length).1 := by
    refine hplace.settled fun hsets => hsucceeds ?_
    rwa [hslot, Bool.not_not] at hsets
  have hsound := hplace.sound hused succeeds
  refine ⟨front.length, hfound, ?_, hsettled⟩
  rcases hinjected with ⟨hnone, hkept⟩ | ⟨injection, hone, hsound', hkept⟩
  · rw [hnone, List.nil_append]
    refine ⟨List.forall_mem_singleton.mpr hsound, fun injection hinjection => ?_⟩
    obtain rfl := Option.some.inj hinjection
    rw [hplace.array_ids]
    exact hkept
  · rw [hone, List.singleton_append]
    refine ⟨List.forall_mem_cons.mpr ⟨hsound', List.forall_mem_singleton.mpr hsound⟩, fun injection' hinjection => ?_⟩
    obtain rfl := Option.some.inj hinjection
    exact hkept

theorem step_sound (h : Settled raw) {event : Event} (hfits : Fits raw event) {result : Raw × List Injection}
    (hstep : step raw event = some result) : SoundStep raw result.2 ∧ Settled result.1 := by
  cases event with
  | repetition =>
    cases hpending : raw.touchRepeatTask with
    | false =>
      have hsame : step raw .repetition = some (raw, []) := by
        rw [step, hpending]
        exact if_neg Bool.false_ne_true
      obtain rfl := Option.some.inj (hsame.symm.trans hstep)
      exact ⟨soundStep_nil, h⟩
    | true =>
      have hrepeat : step raw .repetition = some (repeatTouch raw) := if_pos hpending
      obtain rfl := Option.some.inj (hrepeat.symm.trans hstep)
      exact ⟨repeat_sound h (hfits hpending), ⟨h.length, h.behind, h.distinct, h.edges⟩⟩
  | touch system eventType pointerId =>
    rw [step, touchUpdate] at hstep
    by_cases habsent : raw.touch = false ∧ (eventType = .cancelAll ∨ system.creates = false)
    · rw [if_pos habsent] at hstep
      obtain rfl := Option.some.inj hstep
      exact ⟨soundStep_nil, h⟩
    · rw [if_neg habsent] at hstep
      dsimp only at hstep
      have hsettled : Settled { raw with touch := true, touchRepeatTask := false } :=
        ⟨h.length, h.behind, h.distinct, h.edges⟩
      by_cases hcancel : eventType = .cancelAll
      · rw [if_pos hcancel] at hstep
        obtain rfl := Option.some.inj hstep
        obtain ⟨hsound, hsettled'⟩ := cancelAll_step hsettled
        exact ⟨⟨hsound.sound, hsound.kept⟩, hsettled'⟩
      · have hdevice : raw.touch = true ∨ system.creates = true := by
          by_contra hneither
          rw [not_or, Bool.not_eq_true, Bool.not_eq_true] at hneither
          exact habsent ⟨hneither.1, .inr hneither.2⟩
        obtain ⟨hnew, hsucceeds⟩ := hfits hdevice hcancel
        obtain ⟨i, hfound, hsound, hsettled'⟩ := injectTouch_step hsettled hnew hsucceeds
        rw [if_neg hcancel] at hstep
        generalize findPointer { raw with touch := true, touchRepeatTask := false } pointerId = found at *
        obtain ⟨raw', injected, place⟩ := found
        obtain rfl : place = some i := hfound
        obtain rfl := Option.some.inj hstep
        exact ⟨⟨hsound.sound, hsound.kept⟩, hsettled'⟩

end

/-! ## Runs -/

/-- In every run a pointer has a slot and a cancel-all leaves the client idle; and in a run whose steps all fit, what is
injected is sound. -/
theorem touches_sound (m : List Event) (event : Event) : ∃ result, step (m.foldl next initial) event = some result ∧
    (∀ system pointerId, event = .touch system .cancelAll pointerId → Idle result.1) ∧
    (Runs Fits next initial (m ++ [event]) → SoundStep (m.foldl next initial) result.2) := by
  have hempty : ∀ slot ∈ initial.touchInfo, slot.isEmpty = true := by
    intro slot hslot
    rw [List.eq_of_mem_replicate hslot]
    rfl
  have hnext {raw : Raw} {e : Event} {result : Raw × List Injection} (hstep : step raw e = some result) :
      next raw e = result.1 := by
    rw [next, hstep]
    rfl
  have hreached : (m.foldl next initial).touchInfo.length = 10 ∧
      ((m.foldl next initial).touch = false → Idle (m.foldl next initial)) := by
    refine (runs_true m).invariant (fun raw => raw.touchInfo.length = 10 ∧ (raw.touch = false → Idle raw))
      ⟨rfl, fun _ => ⟨hempty, rfl, rfl⟩⟩ fun raw e hraw _ => ?_
    obtain ⟨result, hstep, hlength, hidle, -⟩ := step_some hraw.1 hraw.2 e
    rw [hnext hstep]
    exact ⟨hlength, hidle⟩
  obtain ⟨result, hstep, -, -, hcancel⟩ := step_some hreached.1 hreached.2 event
  refine ⟨result, hstep, hcancel, fun hruns => ?_⟩
  obtain ⟨hfront, hlast⟩ := Runs.append_iff.mp hruns
  have hsettled : (m.foldl next initial).touchInfo.length = 10 ∧
      ((m.foldl next initial).touch = false → Idle (m.foldl next initial)) ∧ Settled (m.foldl next initial) := by
    refine hfront.invariant (fun raw => raw.touchInfo.length = 10 ∧ (raw.touch = false → Idle raw) ∧ Settled raw)
      ⟨rfl, fun _ => ⟨hempty, rfl, rfl⟩, settled_of_empty rfl hempty⟩ fun raw e hraw hfits => ?_
    obtain ⟨result, hstep, hlength, hidle, -⟩ := step_some hraw.1 hraw.2.1 e
    rw [hnext hstep]
    exact ⟨hlength, hidle, (step_sound hraw.2.2 hfits hstep).2⟩
  exact (step_sound hsettled.2.2 hlast.1 hstep).1

/-- An event with a device that can be created and an injection that succeeds. -/
def sent (eventType : EventType) (pointerId : UInt32) : Event := .touch ⟨true, true⟩ eventType pointerId

instance decidableFits : ∀ (raw : Raw) (event : Event), Decidable (Fits raw event)
  | raw, .touch system eventType pointerId =>
    inferInstanceAs (Decidable (raw.touch = true ∨ system.creates = true → eventType ≠ .cancelAll →
      (known raw pointerId = false → setsFlags false eventType = true) ∧
        (setsFlags (known raw pointerId) eventType = true → system.succeeds = true)))
  | raw, .repetition =>
    inferInstanceAs (Decidable (raw.touchRepeatTask = true →
      ∀ slot ∈ raw.touchInfo.take raw.activeTouchSlots, slot.isEmpty = false))

theorem touches_sound_two : Runs Fits next initial ([sent .down 1, sent .down 2] ++ [.repetition]) ∧
    ∃ result, step ([sent .down 1, sent .down 2].foldl next initial) .repetition = some result ∧
      SoundStep ([sent .down 1, sent .down 2].foldl next initial) result.2 := by
  have hruns : Runs Fits next initial ([sent .down 1, sent .down 2] ++ [.repetition]) := by decide
  obtain ⟨result, hstep, -, hsound⟩ := touches_sound [sent .down 1, sent .down 2] .repetition
  exact ⟨hruns, result, hstep, hsound hruns⟩

/-- What is handed over in the step behind a run. -/
def arrays (m : List Event) (event : Event) : Option (List (List Slot)) :=
  (step (m.foldl next initial) event).map fun result => result.2.map Injection.array

/-- A released slot is repeated, a new pointer is injected with no flags, and the flag of an event whose injection has
failed is handed over with the next. -/
theorem touches_unsound :
    arrays [sent .down 1, sent .down 2, sent .up 1] .repetition =
        some [[⟨1, pointerFlagNone⟩, ⟨2, { pointerFlagNone with inRange := true, inContact := true }⟩]] ∧
      arrays [] (sent .buttonOnly 1) = some [[⟨1, pointerFlagNone⟩]] ∧
      arrays [.touch ⟨true, false⟩ .down 1] (sent .move 1) =
        some [[⟨1, ⟨true, true, true, true, false, false⟩⟩]] := by
  decide

end Sunshine.TouchSlots
