import Mathlib.Data.List.Nodup
import Sunshine.Lib.Compaction

/-! The touch slots of Windows: `touch_update`, `repeat_touch` and `cancel_all_active_touches`.

A slot is in use while it has a flag. The slots in use are compacted to the front before each event, and those that count
are handed over; `Sound` is what the system asks of them. -/
namespace Sunshine.TouchSlots
open Compaction
set_option autoImplicit false

/-! ## Slots -/

/-- The `POINTER_FLAG` bits that are ever set. -/
structure PointerFlags where
  inRange : Bool
  inContact : Bool
  down : Bool
  update : Bool
  up : Bool
  canceled : Bool
  deriving DecidableEq, Repr

def pointerFlagNone : PointerFlags := ⟨false, false, false, false, false, false⟩

/-- `POINTER_INFO` of a slot. -/
structure Slot where
  pointerId : UInt32
  pointerFlags : PointerFlags
  deriving DecidableEq, Repr

def Slot.isEmpty (slot : Slot) : Bool := slot.pointerFlags = pointerFlagNone

/-- The `LI_TOUCH_EVENT` values. -/
inductive EventType where
  | hover
  | down
  | up
  | move
  | cancel
  | buttonOnly
  | hoverLeave
  | cancelAll
  | unknown
  deriving DecidableEq, Repr

/-- The client's part of the touch input: whether there is a virtual device, the slots, how many of them count, and
whether a repeat is pending. -/
structure Raw where
  touch : Bool
  touchInfo : List Slot
  activeTouchSlots : ℕ
  touchRepeatTask : Bool

def initial : Raw := ⟨false, List.replicate 10 ⟨0, pointerFlagNone⟩, 0, false⟩

/-- What an injection is for. -/
inductive Cause where
  | event (eventType : EventType) (pointerId : UInt32)
  | cancelAll
  | repetition
  deriving DecidableEq

/-- A call of `inject_synthetic_pointer_input`, with all slots as they are then. -/
structure Injection where
  cause : Cause
  touchInfo : List Slot
  activeTouchSlots : ℕ

/-- The slots that are handed over. -/
def Injection.array (injection : Injection) : List Slot := injection.touchInfo.take injection.activeTouchSlots

def performTouchCompaction (raw : Raw) : Raw :=
  let compacted := compact Slot.isEmpty raw.touchInfo.length raw.touchInfo
  { raw with touchInfo := compacted.1, activeTouchSlots := compacted.2 }

def pointerById (raw : Raw) (pointerId : UInt32) : Raw × Option ℕ :=
  let raw := performTouchCompaction raw
  match raw.touchInfo.findIdx? fun slot => slot.pointerId = pointerId && !slot.isEmpty with
  | some i => (raw, some i)
  | none =>
    match raw.touchInfo.findIdx? Slot.isEmpty with
    | some i =>
      ({ raw with
          touchInfo := raw.touchInfo.modify i fun slot => { slot with pointerId := pointerId }
          activeTouchSlots := i + 1 }, some i)
    | none => (raw, none)

def populateCommonPointerInfo (eventType : EventType) (flags : PointerFlags) : PointerFlags :=
  match eventType with
  | .hover => { flags with inContact := false, inRange := true, update := true }
  | .down => { flags with inRange := true, inContact := true, down := true }
  | .up => { flags with inContact := false, inRange := false, up := true }
  | .move => { flags with inRange := true, inContact := true, update := true }
  | .cancel | .cancelAll =>
    let flags := if flags.inContact then { flags with up := true } else { flags with update := true }
    { flags with inContact := false, inRange := false, canceled := true }
  | .hoverLeave => { flags with inContact := false, inRange := false, update := true }
  | .buttonOnly => if flags ≠ pointerFlagNone then { flags with update := true } else flags
  | .unknown => flags

def Slot.populate (eventType : EventType) (slot : Slot) : Slot :=
  { slot with pointerFlags := populateCommonPointerInfo eventType slot.pointerFlags }

/-- Without `EDGE_TRIGGERED_POINTER_FLAGS`. -/
def PointerFlags.clearEdges (flags : PointerFlags) : PointerFlags :=
  { flags with down := false, up := false, canceled := false, update := false }

def Slot.clearEdges (slot : Slot) : Slot := { slot with pointerFlags := slot.pointerFlags.clearEdges }

def repeatTouch (raw : Raw) : Raw × List Injection :=
  ({ raw with touchRepeatTask := true }, [⟨.repetition, raw.touchInfo, raw.activeTouchSlots⟩])

def cancelAllActiveTouches (raw : Raw) : Raw × List Injection :=
  let raw := performTouchCompaction { raw with touchRepeatTask := false }
  let cancelled := (raw.touchInfo.take raw.activeTouchSlots).map (Slot.populate .cancelAll) ++
    raw.touchInfo.drop raw.activeTouchSlots
  ({ raw with touchInfo := raw.touchInfo.map fun _ => ⟨0, pointerFlagNone⟩, activeTouchSlots := 0 },
    if 0 < raw.activeTouchSlots then [⟨.cancelAll, cancelled, raw.activeTouchSlots⟩] else [])

/-- The slot of the pointer; where there is none left, all touches are cancelled first. -/
def findPointer (raw : Raw) (pointerId : UInt32) : Raw × List Injection × Option ℕ :=
  match pointerById raw pointerId with
  | (raw, some i) => (raw, [], some i)
  | (raw, none) =>
    let cancelled := cancelAllActiveTouches raw
    let found := pointerById cancelled.1 pointerId
    (found.1, cancelled.2, found.2)

/-- The event is injected for the slot `i`. -/
def injectTouch (eventType : EventType) (pointerId : UInt32) (succeeds : Bool) (raw : Raw) (i : ℕ) :
    Raw × Injection :=
  let raw := { raw with touchInfo := raw.touchInfo.modify i (Slot.populate eventType) }
  let injection := ⟨.event eventType pointerId, raw.touchInfo, raw.activeTouchSlots⟩
  if succeeds then
    let touchInfo := raw.touchInfo.modify i Slot.clearEdges
    ({ raw with
        touchInfo := touchInfo
        touchRepeatTask := 1 < raw.activeTouchSlots || touchInfo[i]?.any fun slot => !slot.isEmpty }, injection)
  else (raw, injection)

/-- Whether a device can be created, and whether the injection of the event succeeds. -/
structure System where
  creates : Bool
  succeeds : Bool

/-- There is no result where the slot would be null. -/
def touchUpdate (system : System) (eventType : EventType) (pointerId : UInt32) (raw : Raw) :
    Option (Raw × List Injection) :=
  if raw.touch = false ∧ (eventType = .cancelAll ∨ system.creates = false) then some (raw, [])
  else
    let raw := { raw with touch := true, touchRepeatTask := false }
    if eventType = .cancelAll then some (cancelAllActiveTouches raw)
    else
      match findPointer raw pointerId with
      | (raw, injected, some i) =>
        let result := injectTouch eventType pointerId system.succeeds raw i
        some (result.1, injected ++ [result.2])
      | (_, _, none) => none

/-! ## Runs -/

inductive Event where
  | touch (system : System) (eventType : EventType) (pointerId : UInt32)
  | repetition

/-- A repeat runs only if it is pending. -/
def step (raw : Raw) : Event → Option (Raw × List Injection)
  | .touch system eventType pointerId => touchUpdate system eventType pointerId raw
  | .repetition => if raw.touchRepeatTask then some (repeatTouch raw) else some (raw, [])

def next (raw : Raw) (event : Event) : Raw := ((step raw event).map Prod.fst).getD raw

/-! ## What is injected -/

def PointerFlags.edges (flags : PointerFlags) : PointerFlags := { flags with inRange := false, inContact := false }

/-- The edge flags that an event may set. -/
def ownEdges : EventType → List PointerFlags
  | .hover | .move | .hoverLeave => [{ pointerFlagNone with update := true }]
  | .down => [{ pointerFlagNone with down := true }]
  | .up => [{ pointerFlagNone with up := true }]
  | .cancel | .cancelAll =>
    [{ pointerFlagNone with up := true, canceled := true }, { pointerFlagNone with update := true, canceled := true }]
  | .buttonOnly => [{ pointerFlagNone with update := true }, pointerFlagNone]
  | .unknown => [pointerFlagNone]

/-- The edge flags that a slot may have in an injection: those of the event, in its own slot. -/
def allowedEdges (slot : Slot) : Cause → List PointerFlags
  | .event eventType pointerId => if slot.pointerId = pointerId then ownEdges eventType else [pointerFlagNone]
  | .cancelAll => ownEdges .cancelAll
  | .repetition => [pointerFlagNone]

structure Sound (injection : Injection) : Prop where
  few : injection.array.length ≤ 10
  used : ∀ slot ∈ injection.array, slot.isEmpty = false
  distinct : (injection.array.map Slot.pointerId).Nodup
  complete : ∀ slot ∈ injection.touchInfo,
    slot.pointerFlags.inRange = true ∨ slot.pointerFlags.inContact = true → slot ∈ injection.array
  edges : ∀ slot ∈ injection.array, slot.pointerFlags.edges ∈ allowedEdges slot injection.cause

/-- The slots in use. -/
def used (raw : Raw) : List Slot := raw.touchInfo.filter (!·.isEmpty)

/-- No slot is in use and no repeat is pending. -/
structure Idle (raw : Raw) : Prop where
  empty : ∀ slot ∈ raw.touchInfo, slot.isEmpty = true
  active : raw.activeTouchSlots = 0
  repetition : raw.touchRepeatTask = false

/-- The injections of a step are sound, and the first has every pointer that was in use. -/
structure SoundStep (raw : Raw) (injected : List Injection) : Prop where
  sound : ∀ injection ∈ injected, Sound injection
  kept : ∀ injection ∈ injected.head?, ∀ slot ∈ used raw, slot.pointerId ∈ injection.array.map Slot.pointerId

def known (raw : Raw) (pointerId : UInt32) : Bool :=
  raw.touchInfo.any fun slot => slot.pointerId = pointerId && !slot.isEmpty

def setsFlags (known : Bool) : EventType → Bool
  | .unknown => false
  | .buttonOnly => known
  | _ => true

/-- A new pointer comes with an event that sets flags, and the injection of an event that sets flags succeeds; a repeat
comes while all slots that count are in use. -/
def Fits (raw : Raw) : Event → Prop
  | .touch system eventType pointerId =>
    raw.touch = true ∨ system.creates = true → eventType ≠ .cancelAll →
      (known raw pointerId = false → setsFlags false eventType = true) ∧
        (setsFlags (known raw pointerId) eventType = true → system.succeeds = true)
  | .repetition =>
    raw.touchRepeatTask = true → ∀ slot ∈ raw.touchInfo.take raw.activeTouchSlots, slot.isEmpty = false

/-! ## Flags -/

instance decidableForallFlags (p : PointerFlags → Prop) [DecidablePred p] : Decidable (∀ flags, p flags) :=
  decidable_of_iff (∀ a b c d e f, p ⟨a, b, c, d, e, f⟩)
    ⟨fun h flags => h flags.1 flags.2 flags.3 flags.4 flags.5 flags.6, fun h _ _ _ _ _ _ => h _⟩

instance decidableForallEvent (p : EventType → Prop) [DecidablePred p] : Decidable (∀ eventType, p eventType) :=
  decidable_of_iff (∀ eventType ∈ [EventType.hover, .down, .up, .move, .cancel, .buttonOnly, .hoverLeave, .cancelAll,
      .unknown], p eventType)
    ⟨fun h eventType => h eventType (by cases eventType <;> decide), fun h eventType _ => h eventType⟩

theorem populate_used : ∀ (eventType : EventType) (flags : PointerFlags),
    flags ≠ pointerFlagNone ∨ setsFlags false eventType = true →
      populateCommonPointerInfo eventType flags ≠ pointerFlagNone := by
  decide

theorem populate_edges : ∀ (eventType : EventType) (flags : PointerFlags), flags.edges = pointerFlagNone →
    (populateCommonPointerInfo eventType flags).edges ∈ ownEdges eventType := by
  decide

theorem clearEdges_edges : ∀ flags : PointerFlags, flags.clearEdges.edges = pointerFlagNone := by
  decide

theorem ne_none_of_touching : ∀ flags : PointerFlags, flags.inRange = true ∨ flags.inContact = true →
    flags ≠ pointerFlagNone := by
  decide

/-- An event that may set no flag leaves the flags as they are. -/
theorem populate_eq : ∀ (eventType : EventType) (flags : PointerFlags),
    setsFlags (decide (flags ≠ pointerFlagNone)) eventType = false →
      populateCommonPointerInfo eventType flags = flags := by
  decide

theorem isEmpty_iff (slot : Slot) : slot.isEmpty = true ↔ slot.pointerFlags = pointerFlagNone := decide_eq_true_iff

theorem isEmpty_false_iff (slot : Slot) : slot.isEmpty = false ↔ slot.pointerFlags ≠ pointerFlagNone :=
  decide_eq_false_iff_not

/-! ## Compaction -/

section
variable {raw : Raw} {pointerId : UInt32} {front back holes : List Slot} {slot : Slot} {eventType : EventType}

theorem mem_used {slot : Slot} : slot ∈ used raw ↔ slot ∈ raw.touchInfo ∧ slot.isEmpty = false := by
  rw [used, List.mem_filter, Bool.not_eq_true']

theorem performTouchCompaction_eq (raw : Raw) : ∃ holes,
    performTouchCompaction raw =
        { raw with touchInfo := used raw ++ holes, activeTouchSlots := (used raw).length } ∧
      (∀ slot ∈ holes, slot.isEmpty = true) ∧ (used raw).length + holes.length = raw.touchInfo.length := by
  have hle : raw.touchInfo.length ≤ raw.touchInfo.length := Nat.le_refl _
  obtain ⟨holes, htable, hholes, hcount, htotal⟩ := compact_eq Slot.isEmpty _ hle
  refine ⟨holes, ?_, hholes, htotal⟩
  rw [performTouchCompaction, htable, hcount]
  rfl

theorem known_iff : known raw pointerId = true ↔ ∃ slot ∈ used raw, slot.pointerId = pointerId := by
  rw [known, List.any_eq_true]
  constructor
  · rintro ⟨slot, hslot, hboth⟩
    rw [Bool.and_eq_true, decide_eq_true_iff, Bool.not_eq_true'] at hboth
    exact ⟨slot, mem_used.mpr ⟨hslot, hboth.2⟩, hboth.1⟩
  · rintro ⟨slot, hslot, hid⟩
    obtain ⟨hmem, hused⟩ := mem_used.mp hslot
    exact ⟨slot, hmem, by simp [hid, hused]⟩

theorem known_eq_false (h : known raw pointerId = false) : ∀ slot ∈ used raw, slot.pointerId ≠ pointerId := by
  intro slot hslot hid
  rw [known_iff.mpr ⟨slot, hslot, hid⟩] at h
  cases h

/-- A pointer that is known has its slot among those in use. -/
theorem pointerById_known (h : known raw pointerId = true) : ∃ front slot back holes,
    used raw = front ++ slot :: back ∧ slot.pointerId = pointerId ∧ (∀ other ∈ holes, other.isEmpty = true) ∧
      (used raw).length + holes.length = raw.touchInfo.length ∧
      pointerById raw pointerId =
        ({ raw with touchInfo := front ++ slot :: (back ++ holes), activeTouchSlots := (used raw).length },
          some front.length) := by
  obtain ⟨holes, hcompacted, hholes, htotal⟩ := performTouchCompaction_eq raw
  obtain ⟨slot₀, hslot₀, hid₀⟩ := known_iff.mp h
  cases hfound : (used raw ++ holes).findIdx? fun slot => slot.pointerId = pointerId && !slot.isEmpty with
  | none =>
    have hnot := List.findIdx?_eq_none_iff.mp hfound slot₀ (List.mem_append_left _ hslot₀)
    simp [hid₀, (mem_used.mp hslot₀).2] at hnot
  | some i =>
    obtain ⟨front, slot, rest, hsplit, rfl, hslot, -⟩ := findIdx?_split hfound
    rw [Bool.and_eq_true, decide_eq_true_iff, Bool.not_eq_true'] at hslot
    obtain ⟨back, hused, rfl⟩ : ∃ back, used raw = front ++ slot :: back ∧ rest = back ++ holes := by
      rcases List.append_eq_append_iff.mp hsplit with ⟨middle, hfront, hholes'⟩ | ⟨middle, hused, hrest⟩
      · have hmem : slot ∈ holes := by
          rw [hholes']
          exact List.mem_append_right _ List.mem_cons_self
        rw [hholes slot hmem] at hslot
        cases hslot.2
      · cases middle with
        | nil =>
          have hmem : slot ∈ holes := by
            rw [← List.nil_append holes, ← hrest]
            exact List.mem_cons_self
          rw [hholes slot hmem] at hslot
          cases hslot.2
        | cons slot' back =>
          obtain ⟨rfl, rfl⟩ := List.cons.inj hrest
          exact ⟨back, hused, rfl⟩
    refine ⟨front, slot, back, holes, hused, hslot.1, hholes, htotal, ?_⟩
    rw [pointerById, hcompacted]
    simp only [hfound]
    rw [hsplit]

/-- A pointer that is not known gets the first slot behind those in use, if there is one. -/
theorem pointerById_new (h : known raw pointerId = false) :
    (∃ holes, (∀ other ∈ holes, other.isEmpty = true) ∧
        (used raw).length + 1 + holes.length = raw.touchInfo.length ∧
        pointerById raw pointerId =
          ({ raw with
              touchInfo := used raw ++ ⟨pointerId, pointerFlagNone⟩ :: holes
              activeTouchSlots := (used raw).length + 1 }, some (used raw).length)) ∨
      (used raw).length = raw.touchInfo.length ∧
        pointerById raw pointerId =
          ({ raw with touchInfo := used raw, activeTouchSlots := (used raw).length }, none) := by
  obtain ⟨holes, hcompacted, hholes, htotal⟩ := performTouchCompaction_eq raw
  have hnone : (used raw ++ holes).findIdx? (fun slot => slot.pointerId = pointerId && !slot.isEmpty) = none := by
    refine List.findIdx?_eq_none_iff.mpr fun slot hslot => ?_
    cases List.mem_append.mp hslot with
    | inl hslot => simp [known_eq_false h slot hslot]
    | inr hslot => simp [hholes slot hslot]
  have hnot : ∀ slot ∈ used raw, slot.isEmpty = false := fun slot hslot => (mem_used.mp hslot).2
  cases holes with
  | nil =>
    rw [List.append_nil] at hcompacted hnone
    refine .inr ⟨htotal, ?_⟩
    have hfull : (used raw).findIdx? Slot.isEmpty = none := List.findIdx?_eq_none_iff.mpr hnot
    rw [pointerById, hcompacted]
    simp only [hnone, hfull]
  | cons hole holes =>
    obtain ⟨hhole, hholes'⟩ := List.forall_mem_cons.mp hholes
    have hfirst : (used raw ++ hole :: holes).findIdx? Slot.isEmpty = some (used raw).length := by
      rw [List.findIdx?_append, List.findIdx?_eq_none_iff.mpr hnot, List.findIdx?_cons, if_pos hhole]
      simp
    refine .inl ⟨holes, hholes', ?_, ?_⟩
    · rw [← htotal, List.length_cons]
      omega
    · rw [pointerById, hcompacted]
      simp only [hnone, hfirst]
      rw [modify_here, (isEmpty_iff hole).mp hhole]

end

end Sunshine.TouchSlots
