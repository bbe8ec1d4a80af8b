import Mathlib.Data.List.Destutter

/-! The changes of a value that is reported again and again.

`changes a l` keeps of `l` what differs from the value before it, when the value was `a` at first. A sequence
is its own changes exactly when it alternates, and its last value says where it has come to. -/
namespace Sunshine.Changes
set_option autoImplicit false

variable {α : Type}

/-- Beginning at `a`, no two values in a row are the same. -/
def Alternates (a : α) (l : List α) : Prop := (a :: l).IsChain (· ≠ ·)

theorem Alternates.concat {a b : α} {l : List α} (h : Alternates a l) (hb : l.getLastD a ≠ b) :
    Alternates a (l ++ [b]) := by
  induction l generalizing a with
  | nil => exact List.isChain_cons_cons.mpr ⟨hb, List.isChain_singleton b⟩
  | cons c l ih =>
    obtain ⟨hc, hl⟩ := List.isChain_cons_cons.mp h
    rw [List.getLastD_cons] at hb
    exact List.isChain_cons_cons.mpr ⟨hc, ih hl hb⟩

theorem Alternates.front {a : α} {l m : List α} (h : Alternates a (l ++ m)) : Alternates a l :=
  @List.IsChain.left_of_append _ _ (a :: l) m h

variable [DecidableEq α]

instance (a : α) (l : List α) : Decidable (Alternates a l) :=
  inferInstanceAs (Decidable ((a :: l).IsChain (· ≠ ·)))

def changes (a : α) (l : List α) : List α := (l.destutter' (· ≠ ·) a).tail

@[simp] theorem changes_nil (a : α) : changes a [] = [] := rfl

theorem cons_changes (a : α) (l : List α) : a :: changes a l = l.destutter' (· ≠ ·) a := by
  unfold changes
  induction l generalizing a with
  | nil => rfl
  | cons b l ih =>
    by_cases h : a ≠ b
    · rw [List.destutter'_cons_pos l h]
      rfl
    · rw [List.destutter'_cons_neg l h]
      exact ih a

theorem changes_cons (a b : α) (l : List α) :
    changes a (b :: l) = if b = a then changes a l else b :: changes b l := by
  by_cases h : b = a
  · have hsame : ¬a ≠ b := not_not.mpr h.symm
    rw [if_pos h, changes, List.destutter'_cons_neg l hsame, changes]
  · have hother : a ≠ b := Ne.symm h
    rw [if_neg h, changes, List.destutter'_cons_pos l hother, List.tail_cons, cons_changes]

theorem changes_append (a : α) (l m : List α) : changes a (l ++ m) = changes a l ++ changes (l.getLastD a) m := by
  induction l generalizing a with
  | nil => rfl
  | cons b l ih =>
    rw [List.cons_append, changes_cons, changes_cons, List.getLastD_cons]
    by_cases h : b = a
    · rw [if_pos h, if_pos h, ih a, h]
    · rw [if_neg h, if_neg h, ih b, List.cons_append]

theorem changes_concat (a : α) (l : List α) (b : α) :
    changes a (l ++ [b]) = changes a l ++ if b = l.getLastD a then [] else [b] := by
  rw [changes_append, changes_cons, changes_nil, changes_nil]

theorem alternates_changes (a : α) (l : List α) : Alternates a (changes a l) := by
  unfold Alternates
  rw [cons_changes]
  exact List.isChain_destutter' _ l a

theorem getLastD_changes (a : α) (l : List α) : (changes a l).getLastD a = l.getLastD a := by
  induction l generalizing a with
  | nil => rfl
  | cons b l ih =>
    rw [changes_cons, List.getLastD_cons]
    by_cases h : b = a
    · rw [if_pos h, ih a, h]
    · rw [if_neg h, List.getLastD_cons, ih b]

end Sunshine.Changes
