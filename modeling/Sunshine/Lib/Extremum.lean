import Mathlib.Data.List.Basic
import Mathlib.Order.Defs.Unbundled

/-! A cell that keeps the foremost of the values offered to it, by threads that each run a loop of compare-and-exchange.

A thread loads the cell; as long as its value comes before what it has loaded it tries to exchange the one for the other,
and loads again when that fails. An exchange may fail for no reason. The empty cell stands behind every value. -/
namespace Sunshine.Extremum
set_option autoImplicit false

/-- How far the loop of a thread has come. -/
inductive Progress (A : Type) where
  | pending
  | loaded (cur : Option A)
  | settled
  deriving DecidableEq

section Loop

variable {A : Type} (r : A → A → Prop)

/-- The value is to replace what is in the cell. -/
def Before (value : A) (cur : Option A) : Prop := ∀ a ∈ cur, r value a

variable [DecidableRel r] [DecidableEq A]

instance decidableBefore (value : A) (cur : Option A) : Decidable (Before r value cur) :=
  match cur with
  | none => .isTrue fun _ hnone => absurd hnone (Option.not_mem_none _)
  | some a => decidable_of_iff (r value a) ⟨fun h _ hmem => Option.some.inj hmem ▸ h, fun h => h a rfl⟩

def load (value : A) (cell : Option A) : Progress A := if Before r value cell then .loaded cell else .settled

/-- `compare_exchange_weak` and the test of the loop. -/
def exchange (spurious : Bool) (value : A) (cur cell : Option A) : Progress A × Option A :=
  if ¬spurious ∧ cell = cur then (.settled, some value) else (load r value cell, cell)

/-- One access of the loop. -/
def access (spurious : Bool) (value : A) (cell : Option A) : Progress A → Progress A × Option A
  | .pending => (load r value cell, cell)
  | .loaded cur => exchange r spurious value cur cell
  | .settled => (.settled, cell)

end Loop

section Cell

variable {A : Type} {r : A → A → Prop}

/-- The cell has one of the values, and none of those that have been settled comes before it. -/
structure Keeps (r : A → A → Prop) (threads : List (A × Progress A)) (cell : Option A) : Prop where
  mem : ∀ a ∈ cell, ∃ t ∈ threads, t.1 = a
  settled : ∀ t ∈ threads, t.2 = .settled → ¬Before r t.1 cell
  loaded : ∀ t ∈ threads, ∀ cur, t.2 = .loaded cur → Before r t.1 cur

variable {threads front back : List (A × Progress A)} {cell : Option A} {value : A} {progress : Progress A}

theorem keeps_nil : Keeps r [] none where
  mem _ hnone := absurd hnone (Option.not_mem_none _)
  settled _ hmem := absurd hmem List.not_mem_nil
  loaded _ hmem := absurd hmem List.not_mem_nil

theorem Keeps.offer (h : Keeps r threads cell) (value : A) : Keeps r (threads ++ [(value, .pending)]) cell where
  mem a ha := by
    obtain ⟨t, hmem, heq⟩ := h.mem a ha
    exact ⟨t, List.mem_append_left _ hmem, heq⟩
  settled t hmem hsettled := by
    obtain hold | hnew := List.mem_append.mp hmem
    · exact h.settled t hold hsettled
    · rw [List.mem_singleton.mp hnew] at hsettled
      exact absurd hsettled (by simp)
  loaded t hmem cur hcur := by
    obtain hold | hnew := List.mem_append.mp hmem
    · exact h.loaded t hold cur hcur
    · rw [List.mem_singleton.mp hnew] at hcur
      exact absurd hcur (by simp)

theorem mem_split {t : A × Progress A} : t ∈ front ++ (value, progress) :: back ↔ t ∈ front ++ back ∨ t = (value, progress) := by
  simp only [List.mem_append, List.mem_cons]
  tauto

/-- A loop that goes on without an exchange. -/
theorem Keeps.advance (h : Keeps r (front ++ (value, progress) :: back) cell) {progress' : Progress A}
    (hsettled : progress' = .settled → ¬Before r value cell) (hloaded : ∀ cur, progress' = .loaded cur → Before r value cur) :
    Keeps r (front ++ (value, progress') :: back) cell where
  mem a ha := by
    obtain ⟨t, hmem, heq⟩ := h.mem a ha
    obtain hother | rfl := mem_split.mp hmem
    · exact ⟨t, mem_split.mpr (Or.inl hother), heq⟩
    · exact ⟨_, mem_split.mpr (Or.inr rfl), heq⟩
  settled t hmem ht := by
    obtain hother | rfl := mem_split.mp hmem
    · exact h.settled t (mem_split.mpr (Or.inl hother)) ht
    · exact hsettled ht
  loaded t hmem cur hcur := by
    obtain hother | rfl := mem_split.mp hmem
    · exact h.loaded t (mem_split.mpr (Or.inl hother)) cur hcur
    · exact hloaded cur hcur

/-- An exchange that succeeds: what was settled before stays settled, as the new value comes before the old. -/
theorem Keeps.exchanged [IsStrictOrder A r] (h : Keeps r (front ++ (value, .loaded cell) :: back) cell) :
    Keeps r (front ++ (value, .settled) :: back) (some value) where
  mem a ha := ⟨_, mem_split.mpr (Or.inr rfl), Option.some.inj ha⟩
  settled t hmem ht := by
    intro hbefore
    have hfirst : r t.1 value := hbefore value rfl
    obtain hother | rfl := mem_split.mp hmem
    · have hvalue := h.loaded _ (mem_split.mpr (Or.inr rfl)) cell rfl
      exact h.settled t (mem_split.mpr (Or.inl hother)) ht fun a ha => trans_of r hfirst (hvalue a ha)
    · exact irrefl _ hfirst
  loaded t hmem cur hcur := by
    obtain hother | rfl := mem_split.mp hmem
    · exact h.loaded t (mem_split.mpr (Or.inl hother)) cur hcur
    · exact absurd hcur (by simp)

/-- When all loops are through, the cell has a value that no other comes before. -/
theorem Keeps.foremost (h : Keeps r threads cell) (hsettled : ∀ t ∈ threads, t.2 = .settled) (hsome : threads ≠ []) :
    ∃ a ∈ threads.map Prod.fst, cell = some a ∧ ∀ b ∈ threads.map Prod.fst, ¬r b a := by
  obtain ⟨t, more, rfl⟩ := List.exists_cons_of_ne_nil hsome
  cases cell with
  | none =>
    refine absurd (fun a hnone => absurd hnone (Option.not_mem_none a)) (h.settled t List.mem_cons_self ?_)
    exact hsettled t List.mem_cons_self
  | some a =>
    obtain ⟨source, hmem, heq⟩ := h.mem a rfl
    refine ⟨a, List.mem_map.mpr ⟨source, hmem, heq⟩, rfl, fun b hb hr => ?_⟩
    obtain ⟨other, hother, rfl⟩ := List.mem_map.mp hb
    refine h.settled other hother (hsettled other hother) fun c hc => ?_
    exact Option.some.inj hc ▸ hr

variable [DecidableRel r]

theorem load_settled (hsettled : load r value cell = .settled) : ¬Before r value cell := by
  intro hbefore
  rw [load, if_pos hbefore] at hsettled
  exact absurd hsettled (by simp)

theorem load_loaded {cur : Option A} (hloaded : load r value cell = .loaded cur) : Before r value cur := by
  by_cases hbefore : Before r value cell
  · rw [load, if_pos hbefore] at hloaded
    exact Progress.loaded.inj hloaded ▸ hbefore
  · rw [load, if_neg hbefore] at hloaded
    exact absurd hloaded (by simp)

/-- Every access of a loop keeps the cell right. -/
theorem Keeps.access [DecidableEq A] [IsStrictOrder A r] (h : Keeps r (front ++ (value, progress) :: back) cell) (spurious : Bool) :
    Keeps r (front ++ (value, (access r spurious value cell progress).1) :: back) (access r spurious value cell progress).2 := by
  cases progress with
  | pending => exact h.advance load_settled fun _ => load_loaded
  | settled => exact h
  | loaded cur =>
    by_cases hsame : ¬spurious ∧ cell = cur
    · obtain rfl := hsame.2
      have hexchange : exchange r spurious value cell cell = (.settled, some value) := if_pos hsame
      simp only [Extremum.access, hexchange]
      exact h.exchanged
    · have hexchange : exchange r spurious value cur cell = (load r value cell, cell) := if_neg hsame
      simp only [Extremum.access, hexchange]
      exact h.advance load_settled fun _ => load_loaded

end Cell
end Sunshine.Extremum
