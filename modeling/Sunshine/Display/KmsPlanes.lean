import Sunshine.Display.KmsNames
import Sunshine.Lib.Entries
import Mathlib.Data.List.Infix

/-! What the two loops over the planes come to: the names and the monitors' indices in closed form, and the search as one
over all used planes. -/
namespace Sunshine.KmsNames
open Rtsp Texts Picks Entries
set_option autoImplicit false

section Closed
variable {Kind : Type} (types : TypeNames Kind) (config : Config)

/-- Neither without a framebuffer nor a cursor. -/
def isUsed (plane : Plane) : Bool := ¬(plane.fbId = 0 ∨ plane.isCursor)

def permitted (card : Card Kind) (plane : Plane) : Bool := card.fb plane.fbId ≠ some 0

def readable (card : Card Kind) (plane : Plane) : Bool := card.fb plane.fbId ≠ none ∧ card.crtc plane.crtcId = true

/-- The used planes of a card that can be read, up to the first one without permission. -/
def namedPlanes (card : Card Kind) (planes : List Plane) : List Plane :=
  ((planes.filter isUsed).takeWhile (permitted card)).filter (readable card)

theorem namedPlanes_cons (card : Card Kind) (plane : Plane) (rest : List Plane) : namedPlanes card (plane :: rest) =
    if plane.fbId = 0 ∨ plane.isCursor then namedPlanes card rest
    else if card.fb plane.fbId = none then namedPlanes card rest
    else if card.fb plane.fbId = some 0 then []
    else if card.crtc plane.crtcId = false then namedPlanes card rest
    else plane :: namedPlanes card rest := by
  unfold namedPlanes
  by_cases hused : plane.fbId = 0 ∨ plane.isCursor
  · rw [if_pos hused, List.filter_cons_of_neg (by simp [isUsed, hused])]
  rw [if_neg hused, List.filter_cons_of_pos (by simp [isUsed, hused])]
  by_cases hnone : card.fb plane.fbId = none
  · rw [if_pos hnone, List.takeWhile_cons_of_pos (by simp [permitted, hnone]),
      List.filter_cons_of_neg (by simp [readable, hnone])]
  rw [if_neg hnone]
  by_cases hzero : card.fb plane.fbId = some 0
  · rw [if_pos hzero, List.takeWhile_cons_of_neg (by simp [permitted, hzero])]
    rfl
  rw [if_neg hzero, List.takeWhile_cons_of_pos (by simp [permitted, hzero])]
  by_cases hcrtc : card.crtc plane.crtcId = false
  · rw [if_pos hcrtc, List.filter_cons_of_neg (by simp [readable, hcrtc])]
  · rw [if_neg hcrtc, List.filter_cons_of_pos (by simp [readable, hnone, hcrtc])]

/-! ## Labels -/

/-- What tells the connectors apart. -/
def Monitor.key (monitor : Monitor Kind) : Kind × ℕ := (monitor.type, monitor.index)

def labelOf (map : CrtcToMonitor Kind) (crtcId : ℕ) : Option (Kind × ℕ) := (map.lookup crtcId).map Monitor.key

def labelName (label : Option (Kind × ℕ)) (count : ℕ) : Text :=
  match label with
  | some key => formatKmsConnectorName types key.1 key.2
  | none => Nat.toDigits 10 count

/-- The loop's writes to the map. -/
def stamp (count : ℕ) (map : CrtcToMonitor Kind) : List Plane → CrtcToMonitor Kind
  | [] => map
  | plane :: rest => stamp (count + 1) (setMonitorIndex plane.crtcId count map) rest

theorem nameOf_eq (map : CrtcToMonitor Kind) (crtcId count : ℕ) :
    nameOf types (map.lookup crtcId) count = labelName types (labelOf map crtcId) count := by
  unfold nameOf labelName labelOf
  cases map.lookup crtcId with
  | none => rfl
  | some monitor => rfl

theorem lookup_setMonitorIndex (crtcId count : ℕ) (map : CrtcToMonitor Kind) (other : ℕ) :
    (setMonitorIndex crtcId count map).lookup other = (map.lookup other).map fun monitor =>
      if other = crtcId then { monitor with monitorIndex := count } else monitor := by
  induction map with
  | nil => rfl
  | cons entry map ih =>
    obtain ⟨key, monitor⟩ := entry
    unfold setMonitorIndex at ih ⊢
    rw [List.map_cons]
    by_cases hother : other = key
    · subst hother
      dsimp only
      split_ifs with hcrtc
      · rw [List.lookup_cons_self, List.lookup_cons_self]
        rfl
      · rw [List.lookup_cons_self, List.lookup_cons_self]
        rfl
    · have hentry : (if (key, monitor).1 = crtcId then ((key, monitor).1, { (key, monitor).2 with monitorIndex := count })
          else (key, monitor)).1 = key := by
        split_ifs
        · rfl
        · rfl
      rw [lookup_cons_ne (by rw [hentry]; exact hother), lookup_cons_ne hother, ih]

theorem labelOf_setMonitorIndex (crtcId count : ℕ) (map : CrtcToMonitor Kind) (other : ℕ) :
    labelOf (setMonitorIndex crtcId count map) other = labelOf map other := by
  unfold labelOf
  rw [lookup_setMonitorIndex, Option.map_map]
  congr 1
  funext monitor
  rw [Function.comp_apply]
  split_ifs
  · rfl
  · rfl

theorem namePlanes_eq (card : Card Kind) (map : CrtcToMonitor Kind) (count : ℕ) (planes : List Plane) :
    namePlanes types card map count planes =
      (((namedPlanes card planes).zipIdx count).map fun place =>
        { name := labelName types (labelOf map place.1.crtcId) place.2, card := card, plane := place.1 },
        stamp count map (namedPlanes card planes)) := by
  induction planes generalizing map count with
  | nil => rfl
  | cons plane rest ih =>
    rw [namePlanes, namedPlanes_cons]
    split_ifs with hused hnone hzero hcrtc
    · exact ih map count
    · exact ih map count
    · rfl
    · exact ih map count
    · rw [ih, List.zipIdx_cons, List.map_cons, nameOf_eq]
      simp only [labelOf_setMonitorIndex]
      rfl

/-- The index that is written last stays. -/
theorem lookup_stamp {planes : List Plane} {k : ℕ} {plane : Plane} {key : Kind × ℕ} {count : ℕ} {map : CrtcToMonitor Kind}
    (hplane : planes[k]? = some plane) (hlast : ∀ j other, k < j → planes[j]? = some other → other.crtcId ≠ plane.crtcId)
    (hkey : labelOf map plane.crtcId = some key) :
    (stamp count map planes).lookup plane.crtcId = some { type := key.1, index := key.2, monitorIndex := count + k } := by
  induction planes generalizing k count map with
  | nil => cases hplane
  | cons first rest ih =>
    rw [stamp]
    cases k with
    | zero =>
      obtain rfl := Option.some.inj hplane
      have hrest : ∀ other ∈ rest, other.crtcId ≠ first.crtcId := by
        intro other hother
        obtain ⟨j, hj⟩ := List.mem_iff_getElem?.mp hother
        exact hlast (j + 1) other (Nat.zero_lt_succ j) hj
      have hkept : ∀ (planes : List Plane), (∀ other ∈ planes, other.crtcId ≠ first.crtcId) →
          ∀ (count : ℕ) (map : CrtcToMonitor Kind),
            (stamp count map planes).lookup first.crtcId = map.lookup first.crtcId := by
        intro planes
        induction planes with
        | nil => exact fun _ _ _ => rfl
        | cons other planes ih =>
          intro hne count map
          rw [stamp, ih fun o ho => hne o (List.mem_cons_of_mem _ ho), lookup_setMonitorIndex]
          simp only [if_neg (hne other List.mem_cons_self).symm, Option.map_id']
      obtain ⟨monitor, hmonitor, rfl⟩ := Option.map_eq_some_iff.mp hkey
      rw [hkept rest hrest, lookup_setMonitorIndex, hmonitor, Option.map_some, if_pos rfl]
      rfl
    | succ k =>
      rw [ih hplane (fun j other hj hother => hlast (j + 1) other (Nat.succ_lt_succ hj) hother)
        ((labelOf_setMonitorIndex _ _ _ _).trans hkey), Nat.add_assoc, Nat.add_comm 1 k]

theorem keys_setMonitorIndex (crtcId count : ℕ) (map : CrtcToMonitor Kind) :
    (setMonitorIndex crtcId count map).map (fun entry => entry.2.key) = map.map fun entry => entry.2.key := by
  unfold setMonitorIndex
  rw [List.map_map]
  refine List.map_congr_left fun entry _ => ?_
  rw [Function.comp_apply]
  split_ifs
  · rfl
  · rfl

theorem keys_stamp (planes : List Plane) (count : ℕ) (map : CrtcToMonitor Kind) :
    (stamp count map planes).map (fun entry => entry.2.key) = map.map fun entry => entry.2.key := by
  induction planes generalizing count map with
  | nil => rfl
  | cons plane rest ih => rw [stamp, ih, keys_setMonitorIndex]

end Closed

end Sunshine.KmsNames
