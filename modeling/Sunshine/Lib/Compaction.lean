import Mathlib.Data.List.Basic

/-! Moving what is in use to the front of a list, by swaps with the holes.

`compact` goes over the places and swaps each hole with the first element in use behind it, until there is none.
`compact_eq` is what comes of it: the elements in use in their order, and holes behind them. -/
namespace Sunshine.Compaction
set_option autoImplicit false

variable {α : Type*} (hole : α → Bool)

/-- The first element in use, and the list with `a` in its place. -/
def swapFirst (a : α) : List α → Option (α × List α)
  | [] => none
  | b :: l => if hole b then (swapFirst a l).map fun swapped => (swapped.1, b :: swapped.2) else some (b, a :: l)

/-- At most `n` places of the list, and how many of them are in use. -/
def compact : ℕ → List α → List α × ℕ
  | 0, l => (l, 0)
  | _ + 1, [] => ([], 0)
  | n + 1, a :: l =>
    if hole a then
      match swapFirst hole a l with
      | some (b, l) => (b :: (compact n l).1, (compact n l).2 + 1)
      | none => (a :: l, 0)
    else (a :: (compact n l).1, (compact n l).2 + 1)

variable {hole} {a : α} {l : List α}

theorem swapFirst_none (h : swapFirst hole a l = none) : ∀ b ∈ l, hole b = true := by
  induction l with
  | nil => exact List.forall_mem_nil _
  | cons b l ih =>
    rw [swapFirst] at h
    split_ifs at h with hb
    exact List.forall_mem_cons.mpr ⟨hb, ih (Option.map_eq_none_iff.mp h)⟩

/-- The swap leaves the elements in use as they are, but for the one that it takes. -/
theorem swapFirst_some (ha : hole a = true) {b : α} {l' : List α} (h : swapFirst hole a l = some (b, l')) :
    hole b = false ∧ l.filter (!hole ·) = b :: l'.filter (!hole ·) ∧ l'.length = l.length := by
  induction l generalizing l' with
  | nil => cases h
  | cons c l ih =>
    rw [swapFirst] at h
    split_ifs at h with hc
    · obtain ⟨⟨b', l''⟩, hswap, heq⟩ := Option.map_eq_some_iff.mp h
      obtain ⟨rfl, rfl⟩ := Prod.mk.inj heq
      obtain ⟨hb, hfilter, hlength⟩ := ih hswap
      refine ⟨hb, ?_, congrArg (· + 1) hlength⟩
      rw [List.filter_cons_of_neg (by simp [hc]), List.filter_cons_of_neg (by simp [hc]), hfilter]
    · obtain ⟨rfl, rfl⟩ := Prod.mk.inj (Option.some.inj h)
      refine ⟨Bool.eq_false_iff.mpr hc, ?_, rfl⟩
      rw [List.filter_cons_of_pos (by simp [hc]), List.filter_cons_of_neg (by simp [ha])]

variable (hole) in
theorem compact_eq (n : ℕ) (h : l.length ≤ n) : ∃ holes, (compact hole n l).1 = l.filter (!hole ·) ++ holes ∧
    (∀ b ∈ holes, hole b = true) ∧ (compact hole n l).2 = (l.filter (!hole ·)).length ∧
    (l.filter (!hole ·)).length + holes.length = l.length := by
  induction n generalizing l with
  | zero =>
    obtain rfl := List.length_eq_zero_iff.mp (Nat.le_zero.mp h)
    exact ⟨[], rfl, List.forall_mem_nil _, rfl, rfl⟩
  | succ n ih =>
    cases l with
    | nil => exact ⟨[], rfl, List.forall_mem_nil _, rfl, rfl⟩
    | cons a l =>
      have hn : l.length ≤ n := Nat.le_of_succ_le_succ h
      rw [compact]
      cases ha : hole a with
      | true =>
        rw [if_pos rfl, List.filter_cons_of_neg (by simp [ha])]
        cases hswap : swapFirst hole a l with
        | none =>
          have hholes := swapFirst_none hswap
          have hnone : l.filter (!hole ·) = [] := List.filter_eq_nil_iff.mpr fun b hb => by simp [hholes b hb]
          rw [hnone]
          exact ⟨a :: l, rfl, List.forall_mem_cons.mpr ⟨ha, hholes⟩, rfl, Nat.zero_add _⟩
        | some swapped =>
          obtain ⟨b, l'⟩ := swapped
          obtain ⟨hb, hfilter, hlength⟩ := swapFirst_some ha hswap
          obtain ⟨holes, heq, hholes, hcount, htotal⟩ := ih (Nat.le_trans (Nat.le_of_eq hlength) hn)
          rw [hfilter]
          refine ⟨holes, congrArg (b :: ·) heq, hholes, congrArg (· + 1) hcount, ?_⟩
          simp only [List.length_cons]
          omega
      | false =>
        obtain ⟨holes, heq, hholes, hcount, htotal⟩ := ih hn
        rw [if_neg Bool.false_ne_true, List.filter_cons_of_pos (by simp [ha])]
        refine ⟨holes, congrArg (a :: ·) heq, hholes, congrArg (· + 1) hcount, ?_⟩
        simp only [List.length_cons]
        omega

/-! ## One place of a list -/

theorem findIdx?_split {p : α → Bool} {i : ℕ} (h : l.findIdx? p = some i) :
    ∃ front a back, l = front ++ a :: back ∧ front.length = i ∧ p a = true ∧ ∀ b ∈ front, p b = false := by
  induction l generalizing i with
  | nil => cases h
  | cons b l ih =>
    rw [List.findIdx?_cons] at h
    split_ifs at h with hb
    · exact ⟨[], b, l, rfl, Option.some.inj h, hb, List.forall_mem_nil _⟩
    · obtain ⟨j, hj, rfl⟩ := Option.map_eq_some_iff.mp h
      obtain ⟨front, a, back, rfl, rfl, ha, hfront⟩ := ih hj
      exact ⟨b :: front, a, back, rfl, rfl, ha, List.forall_mem_cons.mpr ⟨Bool.eq_false_iff.mpr hb, hfront⟩⟩

theorem modify_here (f : α → α) (front : List α) (a : α) (back : List α) :
    (front ++ a :: back).modify front.length f = front ++ f a :: back := by
  induction front with
  | nil => rfl
  | cons b front ih => exact congrArg (b :: ·) ih

end Sunshine.Compaction
