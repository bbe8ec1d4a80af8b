import Mathlib.Data.List.Chain

/-! Consecutive numbers modulo `m`: `numbers m start n` are the `n` numbers from `start` on.

A list that starts with `start` is consecutive exactly if it is that list, and two runs of numbers are consecutive one
behind the other exactly if the second starts where the first ends. -/
namespace Sunshine.Cyclic
set_option autoImplicit false

variable {m start lo n k : ℕ} {l : List ℕ}

def numbers (m start n : ℕ) : List ℕ := (List.range n).map fun x => (start + x) % m

/-- Each number is the one before it plus one. -/
def Consecutive (m : ℕ) (l : List ℕ) : Prop := l.IsChain fun a b => b = (a + 1) % m

@[simp]
theorem numbers_length : (numbers m start n).length = n := by simp [numbers]

@[simp]
theorem numbers_zero : numbers m start 0 = [] := rfl

theorem numbers_add : numbers m start (n + k) = numbers m start n ++ numbers m (start + n) k := by
  unfold numbers
  rw [List.range_add, List.map_append, List.map_map]
  refine congrArg _ (List.map_congr_left fun x _ => ?_)
  rw [Function.comp_apply, Nat.add_assoc]

theorem numbers_succ : numbers m start (n + 1) = start % m :: numbers m (start + 1) n := by
  rw [Nat.add_comm n 1, numbers_add]
  rfl

theorem numbers_getElem? (i : ℕ) (hi : i < n) : (numbers m start n)[i]? = some ((start + i) % m) := by
  unfold numbers
  rw [List.getElem?_map, List.getElem?_range hi]
  rfl

theorem take_numbers : (numbers m start n).take k = numbers m start (min k n) := by
  unfold numbers
  rw [← List.map_take, List.take_range]

theorem consecutive_numbers : Consecutive m (numbers m start n) := by
  induction n generalizing start with
  | zero => exact List.isChain_nil
  | succ n ih =>
    rw [numbers_succ]
    refine List.isChain_cons.mpr ⟨fun a ha => ?_, ih⟩
    cases n with
    | zero => cases ha
    | succ n =>
      rw [numbers_succ] at ha
      rw [← Option.some.inj ha, Nat.mod_add_mod]

/-- The numbers of a consecutive list are those from its first one on. -/
theorem Consecutive.eq_numbers (h : Consecutive m l) (hstart : ∀ a ∈ l.head?, a = start % m) :
    l = numbers m start l.length := by
  induction l generalizing start with
  | nil => rfl
  | cons a l ih =>
    obtain ⟨hnext, hrest⟩ := List.isChain_cons.mp h
    have ha := hstart a rfl
    rw [List.length_cons, numbers_succ, ← ha]
    refine congrArg _ (ih hrest fun b hb => ?_)
    rw [hnext b hb, ha, Nat.mod_add_mod]

theorem getLast?_numbers (hn : 0 < n) : (numbers m start n).getLast? = some ((start + (n - 1)) % m) := by
  rw [List.getLast?_eq_getElem?, numbers_length]
  exact numbers_getElem? (n - 1) (by omega)

/-- A run of numbers behind another. -/
theorem consecutive_append_iff :
    Consecutive m (numbers m start n ++ numbers m lo k) ↔ n = 0 ∨ k = 0 ∨ lo % m = (start + n) % m := by
  cases n with
  | zero =>
    rw [numbers_zero, List.nil_append]
    exact iff_of_true consecutive_numbers (.inl rfl)
  | succ n =>
    cases k with
    | zero =>
      rw [numbers_zero, List.append_nil]
      exact iff_of_true consecutive_numbers (.inr (.inl rfl))
    | succ k =>
      have hlast : (numbers m start (n + 1)).getLast? = some ((start + n) % m) := getLast?_numbers (Nat.succ_pos n)
      have hhead : (numbers m lo (k + 1)).head? = some (lo % m) := by rw [numbers_succ, List.head?_cons]
      unfold Consecutive
      rw [List.isChain_append, hlast, hhead]
      constructor
      · rintro ⟨_, _, hlink⟩
        refine .inr (.inr ?_)
        rw [hlink _ rfl _ rfl, Nat.mod_add_mod, Nat.add_assoc]
      · rintro (hn | hk | hlink)
        · cases hn
        · cases hk
        · refine ⟨consecutive_numbers, consecutive_numbers, ?_⟩
          rintro _ ⟨⟩ _ ⟨⟩
          rw [hlink, Nat.mod_add_mod, Nat.add_assoc]

/-- No number comes twice among `m` consecutive ones. -/
theorem numbers_ne {i j : ℕ} (hj : j < n) (hlt : i < j) (hnear : j - i < m) :
    (numbers m start n)[i]? ≠ (numbers m start n)[j]? := by
  rw [numbers_getElem? i (by omega), numbers_getElem? j hj]
  intro heq
  have hdvd := Nat.dvd_of_mod_eq_zero (Nat.sub_mod_eq_zero_of_mod_eq (Option.some.inj heq).symm)
  have hle := Nat.le_of_dvd (by omega) hdvd
  omega

end Sunshine.Cyclic
