import Mathlib.Data.List.Perm.Basic

/-! Candidates that are tried one after the other.

A candidate is accepted, or it is passed over and the next one is tried, or it stops the search. `tryAll` says
whether some candidate was accepted before the search stopped, and `tryAll_perm_iff` for which candidates
the order makes no difference. -/
namespace Sunshine.Trials
set_option autoImplicit false

inductive Trial (ε : Type*) where
  | accepted
  | passed (error : ε)
  | stopped (error : ε)

section Search

variable {α ε : Type*} (trial : α → Trial ε)

/-- No error, or the last one. -/
def tryAll (last : ε) : List α → Option ε
  | [] => some last
  | a :: l =>
    match trial a with
    | .accepted => none
    | .passed error => tryAll error l
    | .stopped error => some error

variable {trial}

/-- Some candidate is accepted, and those before it are passed over. -/
theorem tryAll_eq_none_iff (last : ε) (l : List α) :
    tryAll trial last l = none ↔ ∃ before a after, l = before ++ a :: after ∧ trial a = .accepted ∧
      ∀ b ∈ before, ∃ error, trial b = .passed error := by
  induction l generalizing last with
  | nil => simp [tryAll]
  | cons a l ih =>
    unfold tryAll
    constructor
    · intro h
      cases htrial : trial a with
      | accepted => exact ⟨[], a, l, rfl, htrial, fun b hb => by cases hb⟩
      | passed error =>
        rw [htrial] at h
        obtain ⟨before, b, after, rfl, hb, hbefore⟩ := (ih error).mp h
        exact ⟨a :: before, b, after, rfl, hb, List.forall_mem_cons.mpr ⟨⟨error, htrial⟩, hbefore⟩⟩
      | stopped error =>
        rw [htrial] at h
        cases h
    · rintro ⟨before, b, after, heq, hb, hbefore⟩
      cases before with
      | nil =>
        obtain ⟨rfl, rfl⟩ := List.cons.inj heq
        rw [hb]
      | cons c before =>
        obtain ⟨rfl, rfl⟩ := List.cons.inj heq
        obtain ⟨⟨error, hpassed⟩, hbefore⟩ := List.forall_mem_cons.mp hbefore
        rw [hpassed]
        exact (ih error).mpr ⟨before, b, after, rfl, hb, hbefore⟩

theorem exists_of_tryAll {last : ε} {l : List α} (h : tryAll trial last l = none) :
    ∃ a ∈ l, trial a = .accepted := by
  obtain ⟨before, a, after, rfl, ha, -⟩ := (tryAll_eq_none_iff last l).mp h
  exact ⟨a, List.mem_append_right _ List.mem_cons_self, ha⟩

/-- Where nothing stops the search, the accepted candidate is found. -/
theorem tryAll_of_accepted {last : ε} {l : List α} {a : α} (hmem : a ∈ l) (ha : trial a = .accepted)
    (hgoes : ∀ b ∈ l, ∀ error, trial b ≠ .stopped error) : tryAll trial last l = none := by
  induction l generalizing last with
  | nil => cases hmem
  | cons b l ih =>
    obtain ⟨hb, hl⟩ := List.forall_mem_cons.mp hgoes
    unfold tryAll
    cases htrial : trial b with
    | accepted => rfl
    | passed error =>
      rcases List.mem_cons.mp hmem with rfl | hmem
      · rw [ha] at htrial
        cases htrial
      · exact ih hmem hl
    | stopped error => exact absurd htrial (hb error)

/-- All orders agree exactly if there is not a candidate to accept beside one that stops the search. -/
theorem tryAll_perm_iff (last : ε) (l : List α) :
    (∀ order : List α, order.Perm l → (tryAll trial last order = none ↔ ∃ a ∈ l, trial a = .accepted)) ↔
      ((∃ a ∈ l, trial a = .accepted) → ∀ b ∈ l, ∀ error, trial b ≠ .stopped error) := by
  constructor
  · intro h haccepted b hb error hstopped
    obtain ⟨before, after, rfl⟩ := List.append_of_mem hb
    have hfirst : tryAll trial last (b :: (before ++ after)) = some error := by
      unfold tryAll
      rw [hstopped]
    have hnone := (h (b :: (before ++ after)) List.perm_middle.symm).mpr haccepted
    rw [hfirst] at hnone
    cases hnone
  · intro h order hperm
    constructor
    · intro hnone
      obtain ⟨a, ha, haccepted⟩ := exists_of_tryAll hnone
      exact ⟨a, hperm.mem_iff.mp ha, haccepted⟩
    · rintro ⟨a, ha, haccepted⟩
      exact tryAll_of_accepted (hperm.mem_iff.mpr ha) haccepted
        fun b hb => h ⟨a, ha, haccepted⟩ b (hperm.mem_iff.mp hb)

end Search

end Sunshine.Trials
