import Mathlib.Data.List.Count
import Mathlib.Data.List.Infix

/-! Brackets and the ones that match them.

`close` finds the bracket that matches an open one by counting, and `close_eq_some_iff` says what that is: what stands
between the two is balanced. -/
namespace Sunshine.Brackets
set_option autoImplicit false

variable {α : Type} [DecidableEq α] {opening closing : α} {text inside rest : List α} {n : ℕ}

/-- No bracket closes more than `n` in excess of what is open in front of it, and all that is open is closed but
for `n`. -/
structure Excess (opening closing : α) (n : ℕ) (l : List α) : Prop where
  within : ∀ front, front <+: l → front.count closing ≤ n + front.count opening
  total : l.count closing = n + l.count opening

/-- As many brackets are closed as are opened, and none before it is open. -/
abbrev Balanced (opening closing : α) (l : List α) : Prop := Excess opening closing 0 l

/-- How many brackets the first element leaves to close. -/
def toClose (opening closing : α) (n : ℕ) (a : α) : ℕ := if a = opening then n + 1 else if a = closing then n - 1 else n

/-- What stands in front of the bracket that matches an open one, `n` brackets being open inside it, and what stands
behind it. -/
def close (opening closing : α) : ℕ → List α → Option (List α × List α)
  | _, [] => none
  | n, a :: l =>
    if a = closing ∧ n = 0 then some ([], l)
    else
      (close opening closing (toClose opening closing n a) l).map fun found => (a :: found.1, found.2)

theorem excess_nil : Excess opening closing n [] ↔ n = 0 := by
  constructor
  · intro h
    simpa using h.total.symm
  · rintro rfl
    refine ⟨fun front hfront => ?_, rfl⟩
    rw [List.prefix_nil.mp hfront]
    exact Nat.le_refl _

theorem excess_cons (hne : opening ≠ closing) (a : α) : Excess opening closing n (a :: text) ↔
    ¬(a = closing ∧ n = 0) ∧ Excess opening closing (toClose opening closing n a) text := by
  have hextend (front : List α) (hfront : front <+: text) : a :: front <+: a :: text :=
    List.cons_prefix_cons.mpr ⟨rfl, hfront⟩
  have hcount : a = closing ∧ n = 0 ∨ ∀ l : List α, (l.count closing ≤ toClose opening closing n a + l.count opening ↔
      (a :: l).count closing ≤ n + (a :: l).count opening) ∧
      (l.count closing = toClose opening closing n a + l.count opening ↔
        (a :: l).count closing = n + (a :: l).count opening) := by
    unfold toClose
    by_cases hopening : a = opening
    · subst hopening
      refine .inr fun l => ?_
      rw [if_pos rfl, List.count_cons_self, List.count_cons_of_ne hne]
      omega
    · rw [if_neg hopening]
      by_cases hclosing : a = closing
      · subst hclosing
        by_cases hn : n = 0
        · exact .inl ⟨rfl, hn⟩
        · refine .inr fun l => ?_
          rw [if_pos rfl, List.count_cons_self, List.count_cons_of_ne hne.symm]
          omega
      · refine .inr fun l => ?_
        rw [if_neg hclosing, List.count_cons_of_ne hopening, List.count_cons_of_ne hclosing]
        exact ⟨Iff.rfl, Iff.rfl⟩
  constructor
  · intro h
    have hopen : ¬(a = closing ∧ n = 0) := by
      rintro ⟨rfl, rfl⟩
      have hfirst := h.within [a] (hextend [] List.nil_prefix)
      rw [List.count_cons_self, List.count_cons_of_ne hne.symm] at hfirst
      cases hfirst
    have hcount' := hcount.resolve_left hopen
    exact ⟨hopen, fun front hfront => (hcount' front).1.mpr (h.within _ (hextend front hfront)),
      (hcount' text).2.mpr h.total⟩
  · rintro ⟨hopen, hwithin, htotal⟩
    have hcount' := hcount.resolve_left hopen
    refine ⟨fun front hfront => ?_, (hcount' text).2.mp htotal⟩
    rcases List.prefix_cons_iff.mp hfront with rfl | ⟨front', rfl, hfront'⟩
    · exact Nat.zero_le _
    · exact (hcount' front').1.mp (hwithin front' hfront')

/-- The bracket that is found is the one with what is balanced in front of it. -/
theorem close_eq_some_iff (hne : opening ≠ closing) : close opening closing n text = some (inside, rest) ↔
    text = inside ++ closing :: rest ∧ Excess opening closing n inside := by
  induction text generalizing n inside with
  | nil => exact iff_of_false nofun fun h => by simp at h
  | cons a text ih =>
    rw [close]
    by_cases hend : a = closing ∧ n = 0
    · obtain ⟨rfl, rfl⟩ := hend
      rw [if_pos ⟨rfl, rfl⟩, Option.some.injEq, Prod.mk.injEq]
      constructor
      · rintro ⟨rfl, rfl⟩
        exact ⟨rfl, excess_nil.mpr rfl⟩
      · rintro ⟨heq, hexcess⟩
        cases inside with
        | nil => exact ⟨rfl, (List.cons.inj heq).2⟩
        | cons b inside =>
          obtain ⟨rfl, -⟩ := List.cons.inj heq
          exact absurd ⟨rfl, rfl⟩ ((excess_cons hne _).mp hexcess).1
    · rw [if_neg hend, Option.map_eq_some_iff]
      constructor
      · rintro ⟨⟨front, behind⟩, hfound, heq⟩
        obtain ⟨rfl, rfl⟩ := Prod.mk.inj heq
        obtain ⟨rfl, hexcess⟩ := ih.mp hfound
        exact ⟨rfl, (excess_cons hne a).mpr ⟨hend, hexcess⟩⟩
      · rintro ⟨heq, hexcess⟩
        cases inside with
        | nil => exact absurd ⟨(List.cons.inj heq).1, excess_nil.mp hexcess⟩ hend
        | cons b front =>
          obtain ⟨rfl, htext⟩ := List.cons.inj heq
          exact ⟨(front, rest), ih.mpr ⟨htext, ((excess_cons hne _).mp hexcess).2⟩, rfl⟩

/-- There is no bracket to match if what stands in front of every one is not balanced. -/
theorem close_eq_none_iff (hne : opening ≠ closing) : close opening closing n text = none ↔
    ∀ inside rest, text = inside ++ closing :: rest → ¬Excess opening closing n inside := by
  constructor
  · intro h inside rest htext hexcess
    rw [(close_eq_some_iff hne).mpr ⟨htext, hexcess⟩] at h
    cases h
  · intro h
    cases hfound : close opening closing n text with
    | none => rfl
    | some found =>
      obtain ⟨htext, hexcess⟩ := (close_eq_some_iff hne).mp hfound
      exact absurd hexcess (h _ _ htext)

/-- The bracket that matches is one. -/
theorem Excess.unique (hne : opening ≠ closing) {inside' rest' : List α} (h : Excess opening closing n inside)
    (h' : Excess opening closing n inside') (heq : inside ++ closing :: rest = inside' ++ closing :: rest') :
    inside = inside' ∧ rest = rest' := by
  have hclose : close opening closing n (inside ++ closing :: rest) = some (inside, rest) :=
    (close_eq_some_iff hne).mpr ⟨rfl, h⟩
  have hclose' : close opening closing n (inside ++ closing :: rest) = some (inside', rest') :=
    (close_eq_some_iff hne).mpr ⟨heq, h'⟩
  exact Prod.mk.inj (Option.some.inj (hclose.symm.trans hclose'))

end Sunshine.Brackets
