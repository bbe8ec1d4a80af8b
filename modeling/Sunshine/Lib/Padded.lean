import Mathlib.Data.List.GetD
import Mathlib.Order.PiLex

/-! Lists padded with a default value to sequences without an end, in the lexicographic order.

`compareParts` goes through two lists of one length; `compareParts_signs` says that it gives the order of the
sequences, so the laws of the order are those of `Pi.Lex`. -/
namespace Sunshine.Padded
set_option autoImplicit false

variable {α : Type} {zero : α} {a b : α} {l m : List α}

def padded (zero : α) (l : List α) : Lex (ℕ → α) := toLex fun i => l.getD i zero

/-- The list made longer. -/
def resize (n : ℕ) (zero : α) (l : List α) : List α := l.take n ++ List.replicate (n - l.length) zero

theorem resize_length (n : ℕ) : (resize n zero l).length = n := by
  unfold resize
  rw [List.length_append, List.length_take, List.length_replicate]
  omega

theorem padded_apply (i : ℕ) : padded zero l i = l.getD i zero := rfl

theorem padded_resize {n : ℕ} (hle : l.length ≤ n) : padded zero (resize n zero l) = padded zero l := by
  funext i
  rw [padded_apply, padded_apply, resize, List.take_of_length_le hle]
  by_cases hi : i < l.length
  · rw [List.getD_append _ _ _ _ hi]
  · rw [List.getD_append_right _ _ _ _ (Nat.le_of_not_lt hi), List.getD_eq_default _ _ (Nat.le_of_not_lt hi)]
    by_cases hmore : i - l.length < (List.replicate (n - l.length) zero).length
    · rw [List.getD_eq_getElem _ _ hmore, List.getElem_replicate]
    · rw [List.getD_eq_default _ _ (Nat.le_of_not_lt hmore)]

section
variable [LinearOrder α]

/-- The sign of the first difference. -/
def compareParts : List α → List α → ℤ
  | a :: l, b :: m => if a < b then -1 else if b < a then 1 else compareParts l m
  | _, _ => 0

theorem padded_cons_lt_iff :
    padded zero (a :: l) < padded zero (b :: m) ↔ a < b ∨ a = b ∧ padded zero l < padded zero m := by
  constructor
  · rintro ⟨i, hbefore, hless⟩
    cases i with
    | zero => exact .inl hless
    | succ i =>
      have hhead : a = b := hbefore 0 (Nat.succ_pos i)
      exact .inr ⟨hhead, i, fun j hj => hbefore (j + 1) (Nat.succ_lt_succ hj), hless⟩
  · intro hless
    cases hless with
    | inl hhead => exact ⟨0, fun j hj => absurd hj (Nat.not_lt_zero j), hhead⟩
    | inr hboth =>
      obtain ⟨hhead, i, hbefore, hless⟩ := hboth
      refine ⟨i + 1, fun j hj => ?_, hless⟩
      cases j with
      | zero => exact hhead
      | succ j => exact hbefore j (Nat.lt_of_succ_lt_succ hj)

variable (zero) in
/-- The sign of the comparison is the order of the sequences. -/
theorem compareParts_signs (hlength : l.length = m.length) :
    compareParts l m = -1 ∧ padded zero l < padded zero m ∨ compareParts l m = 0 ∧ padded zero l = padded zero m ∨
      compareParts l m = 1 ∧ padded zero m < padded zero l := by
  induction l generalizing m with
  | nil =>
    obtain rfl := List.length_eq_zero_iff.mp hlength.symm
    exact .inr (.inl ⟨rfl, rfl⟩)
  | cons a l ih =>
    cases m with
    | nil => cases hlength
    | cons b m =>
      have hrest := ih (Nat.succ.inj hlength)
      rw [compareParts, padded_cons_lt_iff, padded_cons_lt_iff]
      cases lt_trichotomy a b with
      | inl hless =>
        rw [if_pos hless]
        exact .inl ⟨rfl, .inl hless⟩
      | inr hmore =>
        cases hmore with
        | inl heq =>
          subst heq
          rw [if_neg (lt_irrefl a), if_neg (lt_irrefl a)]
          refine hrest.imp (fun hless => ⟨hless.1, .inr ⟨rfl, hless.2⟩⟩) (Or.imp (fun hsame => ⟨hsame.1, ?_⟩)
            fun hgreater => ⟨hgreater.1, .inr ⟨rfl, hgreater.2⟩⟩)
          funext i
          cases i with
          | zero => rfl
          | succ i => exact congrFun hsame.2 i
        | inr hgreater =>
          rw [if_neg hgreater.le.not_gt, if_pos hgreater]
          exact .inr (.inr ⟨rfl, .inl hgreater⟩)

end

end Sunshine.Padded
