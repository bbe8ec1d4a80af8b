import Mathlib.Data.List.Basic
import Mathlib.Tactic.Ring
import Mathlib.Tactic.Linarith

/-! Cutting a list into consecutive slices of one width, the last one possibly shorter.

`slices w l` is the cut, `Sliced w L` says that `L` has the shape of such a cut, and the two agree:
a cut has the shape (`sliced_slices`), and a list of that shape is the cut of its own
concatenation (`slices_flatten`). Everything else here is a consequence: cutting at a multiple of
the width first changes nothing (`slices_append`), and putting a fixed prefix in front of every
slice gives the slices of the longer width (`slices_prefixed`). -/
namespace Sunshine.Slices
set_option autoImplicit false

variable {α : Type}

/-! ## Counting slices -/

/-- `⌈n / w⌉`, as `n / w` plus one for a remainder. -/
def sliceCount (w n : ℕ) : ℕ := n / w + if n % w ≠ 0 then 1 else 0

theorem sliceCount_eq (w n : ℕ) (hw : 0 < w) : sliceCount w n = (n + (w - 1)) / w := by
  have hn := Nat.div_add_mod n w
  have hm := Nat.mod_lt n hw
  unfold sliceCount
  by_cases h : n % w = 0
  · have e : n + (w - 1) = w * (n / w) + (w - 1) := by omega
    rw [if_neg (by simp [h]), e, Nat.mul_add_div hw, Nat.div_eq_of_lt (by omega : w - 1 < w)]
  · have e : n + (w - 1) = w * (n / w) + w + (n % w - 1) := by omega
    rw [if_pos h, e, ← Nat.mul_succ, Nat.mul_add_div hw,
      Nat.div_eq_of_lt (by omega : n % w - 1 < w)]

theorem sliceCount_le_iff (w n k : ℕ) (hw : 0 < w) : sliceCount w n ≤ k ↔ n ≤ k * w := by
  rw [sliceCount_eq w n hw, Nat.div_le_iff_le_mul_add_pred hw, Nat.mul_comm w k]
  constructor <;> intro h <;> omega

theorem lt_sliceCount_iff (w n k : ℕ) (hw : 0 < w) : k < sliceCount w n ↔ k * w < n := by
  rw [← not_le, sliceCount_le_iff w n k hw, not_le]

theorem le_sliceCount_mul (w n : ℕ) (hw : 0 < w) : n ≤ sliceCount w n * w :=
  (sliceCount_le_iff w n _ hw).mp le_rfl

theorem sliceCount_zero (w : ℕ) : sliceCount w 0 = 0 := by simp [sliceCount]

theorem sliceCount_pos (w n : ℕ) (hw : 0 < w) (hn : 0 < n) : 0 < sliceCount w n := by
  rw [lt_sliceCount_iff w n 0 hw, Nat.zero_mul]
  exact hn

theorem sliceCount_add_mul (w n k : ℕ) (hw : 0 < w) :
    sliceCount w (k * w + n) = k + sliceCount w n := by
  unfold sliceCount
  rw [Nat.mul_comm k w, Nat.mul_add_div hw, Nat.mul_add_mod, Nat.add_assoc]

theorem sliceCount_of_le (w n : ℕ) (hn : 0 < n) (h : n ≤ w) : sliceCount w n = 1 := by
  have hw : 0 < w := by omega
  have h1 := (sliceCount_le_iff w n 1 hw).mpr (by omega)
  have h2 := sliceCount_pos w n hw hn
  omega

theorem sliceCount_sub (w n : ℕ) (hw : 0 < w) (h : w < n) :
    sliceCount w n = sliceCount w (n - w) + 1 := by
  have e : n = 1 * w + (n - w) := by omega
  conv_lhs => rw [e]
  rw [sliceCount_add_mul w (n - w) 1 hw, Nat.add_comm]

/-! ## The cut -/

def slices (w : ℕ) (l : List α) : List (List α) :=
  (List.range (sliceCount w l.length)).map fun i => (l.drop (i * w)).take w

theorem slices_length (w : ℕ) (l : List α) : (slices w l).length = sliceCount w l.length := by
  simp [slices]

theorem slices_nil (w : ℕ) : slices w ([] : List α) = [] := by
  simp [slices, sliceCount_zero]

theorem slices_cons (w : ℕ) (hw : 0 < w) (l : List α) (hl : l ≠ []) :
    slices w l = l.take w :: slices w (l.drop w) := by
  have hpos : 0 < l.length := List.length_pos_iff.mpr hl
  have hcount : sliceCount w l.length = sliceCount w (l.drop w).length + 1 := by
    rw [List.length_drop]
    by_cases h : w < l.length
    · exact sliceCount_sub w l.length hw h
    · rw [sliceCount_of_le w l.length hpos (by omega), show l.length - w = 0 by omega,
        sliceCount_zero]
  unfold slices
  rw [hcount, List.range_succ_eq_map, List.map_cons, List.map_map, Nat.zero_mul, List.drop_zero]
  congr 1
  apply List.map_congr_left
  intro i _
  simp only [Function.comp_apply, List.drop_drop]
  rw [show (i + 1) * w = w + i * w by ring]

theorem flatten_pieces (a k : ℕ) (l : List α) :
    ((List.range k).map fun x => (l.drop (x * a)).take a).flatten = l.take (k * a) := by
  induction k with
  | zero => simp
  | succ k ih =>
    rw [List.range_succ, List.map_append, List.flatten_append, ih, Nat.succ_mul, List.take_add]
    simp

theorem flatten_slices (w : ℕ) (hw : 0 < w) (l : List α) : (slices w l).flatten = l := by
  unfold slices
  rw [flatten_pieces, List.take_of_length_le (le_sliceCount_mul w l.length hw)]

/-! ## The shape of a cut -/

/-- Every part but the last has width `w`; the last one is not empty and not longer. -/
def Sliced (w : ℕ) : List (List α) → Prop
  | [] => True
  | [x] => 0 < x.length ∧ x.length ≤ w
  | x :: y :: rest => x.length = w ∧ Sliced w (y :: rest)

theorem Sliced.tail {w : ℕ} {x : List α} {L : List (List α)} (h : Sliced w (x :: L)) :
    Sliced w L := by
  cases L with
  | nil => exact trivial
  | cons y rest => exact h.2

theorem Sliced.cons {w : ℕ} {x : List α} {L : List (List α)} (hx : x.length = w) (hw : 0 < w)
    (h : Sliced w L) : Sliced w (x :: L) := by
  cases L with
  | nil => exact ⟨by omega, by omega⟩
  | cons y rest => exact ⟨hx, h⟩

theorem sliced_of_length {w : ℕ} {L : List (List α)} (hw : 0 < w) (h : ∀ x ∈ L, x.length = w) :
    Sliced w L := by
  induction L with
  | nil => exact trivial
  | cons x rest ih =>
    exact Sliced.cons (h x (List.mem_cons_self ..)) hw (ih fun y hy => h y (List.mem_cons_of_mem x hy))

theorem Sliced.length_le {w : ℕ} {L : List (List α)} (h : Sliced w L) (x : List α)
    (hx : x ∈ L) : 0 < w → 0 < x.length ∧ x.length ≤ w := by
  intro hw
  induction L with
  | nil => simp at hx
  | cons y rest ih =>
    rcases List.mem_cons.mp hx with rfl | hr
    · cases rest with
      | nil => exact h
      | cons z rest => exact ⟨by have := h.1; omega, by have := h.1; omega⟩
    · exact ih h.tail hr

theorem sliced_slices (w : ℕ) (hw : 0 < w) (l : List α) : Sliced w (slices w l) := by
  induction hn : l.length using Nat.strong_induction_on generalizing l with
  | _ n ih =>
    by_cases hl : l = []
    · subst hl
      rw [slices_nil]
      exact trivial
    · have hpos : 0 < l.length := List.length_pos_iff.mpr hl
      rw [slices_cons w hw l hl]
      have htail := ih (l.drop w).length (by rw [List.length_drop]; omega) (l.drop w) rfl
      by_cases hlong : w < l.length
      · exact Sliced.cons (by rw [List.length_take]; omega) hw htail
      · rw [List.drop_eq_nil_of_le (by omega : l.length ≤ w), slices_nil]
        exact ⟨by rw [List.length_take]; omega, by rw [List.length_take]; omega⟩

theorem slices_flatten (w : ℕ) (hw : 0 < w) (L : List (List α)) (h : Sliced w L) :
    slices w L.flatten = L := by
  induction L with
  | nil => exact slices_nil w
  | cons x rest ih =>
    have hx := h.length_le x (List.mem_cons_self ..) hw
    have hne : (x :: rest).flatten ≠ [] := by
      rw [List.flatten_cons]
      intro e
      have := congrArg List.length e
      simp only [List.length_append, List.length_nil] at this
      omega
    rw [slices_cons w hw _ hne, List.flatten_cons]
    cases rest with
    | nil =>
      rw [List.flatten_nil, List.append_nil, List.take_of_length_le hx.2,
        List.drop_eq_nil_of_le hx.2, slices_nil]
    | cons y rest =>
      have hw' : x.length = w := h.1
      rw [← hw', List.take_left, List.drop_left, hw', ih h.tail]

/-! ## Consequences -/

/-- Slices of equal width come first when the front part is a whole number of them. -/
theorem slices_append (w : ℕ) (hw : 0 < w) (a b : List α) (k : ℕ) (ha : a.length = k * w) :
    slices w (a ++ b) = slices w a ++ slices w b := by
  induction k generalizing a with
  | zero =>
    have hnil : a = [] := List.length_eq_zero_iff.mp (by rw [ha, Nat.zero_mul])
    rw [hnil, slices_nil, List.nil_append, List.nil_append]
  | succ k ih =>
    have hlen : w ≤ a.length := by rw [ha, Nat.succ_mul]; omega
    have hne : a ≠ [] := by
      intro e
      rw [e, List.length_nil] at hlen
      omega
    rw [slices_cons w hw a hne, slices_cons w hw (a ++ b) (by simp [hne]),
      List.take_append_of_le_length hlen, List.drop_append_of_le_length hlen,
      ih (a.drop w) (by rw [List.length_drop, ha, Nat.succ_mul]; omega), List.cons_append]

theorem dvd_length_flatten (w : ℕ) (L : List (List α)) (h : ∀ b ∈ L, w ∣ b.length) :
    w ∣ L.flatten.length := by
  induction L with
  | nil => exact Dvd.intro_left 0 (Nat.zero_mul w)
  | cons b L ih =>
    rw [List.flatten_cons, List.length_append]
    exact Nat.dvd_add (h b (List.mem_cons_self ..)) (ih fun c hc => h c (List.mem_cons_of_mem b hc))

/-- Slicing block by block is slicing the whole, when all blocks but the last are whole slices. -/
theorem slices_blocks (w : ℕ) (hw : 0 < w) (front : List (List α)) (last : List α)
    (hf : ∀ b ∈ front, w ∣ b.length) :
    slices w (front ++ [last]).flatten = (front ++ [last]).flatMap (slices w) := by
  induction front with
  | nil => simp
  | cons b front ih =>
    obtain ⟨k, hk⟩ := hf b (List.mem_cons_self ..)
    rw [List.cons_append, List.flatten_cons, List.flatMap_cons,
      slices_append w hw b _ k (by rw [hk, Nat.mul_comm]),
      ih (fun c hc => hf c (List.mem_cons_of_mem b hc))]

theorem Sliced.map_prepend {w : ℕ} (pre : List α) {L : List (List α)} (h : Sliced w L) :
    Sliced (pre.length + w) (L.map (pre ++ ·)) := by
  induction L with
  | nil => exact trivial
  | cons x rest ih =>
    cases rest with
    | nil =>
      obtain ⟨h1, h2⟩ := h
      refine ⟨?_, ?_⟩ <;> rw [List.length_append] <;> omega
    | cons y rest =>
      refine ⟨?_, ih h.tail⟩
      rw [List.length_append, h.1]

theorem slices_prefixed (w : ℕ) (hw : 0 < w) (pre l : List α) :
    slices (pre.length + w) ((slices w l).flatMap (pre ++ ·)) = (slices w l).map (pre ++ ·) := by
  rw [List.flatMap_def]
  exact slices_flatten _ (by omega) _ ((sliced_slices w hw l).map_prepend pre)

theorem length_flatMap_prepend (pre : List α) (L : List (List α)) :
    (L.flatMap (pre ++ ·)).length = L.length * pre.length + L.flatten.length := by
  induction L with
  | nil => simp
  | cons x rest ih =>
    rw [List.flatMap_cons, List.length_append, List.length_append, ih, List.length_cons,
      List.flatten_cons, List.length_append]
    ring

theorem getLast_slices (w : ℕ) (hw : 0 < w) (l : List α) (hl : l ≠ []) :
    ∃ front last, slices w l = front ++ [last] ∧ (∀ x ∈ front, x.length = w) ∧
      last.length = if l.length % w = 0 then w else l.length % w := by
  induction hn : l.length using Nat.strong_induction_on generalizing l with
  | _ n ih =>
    subst hn
    have hpos : 0 < l.length := List.length_pos_iff.mpr hl
    rw [slices_cons w hw l hl]
    by_cases hlong : w < l.length
    · have hne : l.drop w ≠ [] := by
        intro e
        have := congrArg List.length e
        rw [List.length_drop, List.length_nil] at this
        omega
      obtain ⟨front, last, he, hf, hlast⟩ :=
        ih (l.drop w).length (by rw [List.length_drop]; omega) (l.drop w) hne rfl
      refine ⟨l.take w :: front, last, by rw [he, List.cons_append], ?_, ?_⟩
      · intro x hx
        rcases List.mem_cons.mp hx with rfl | hx
        · rw [List.length_take]; omega
        · exact hf x hx
      · have hmod : l.length % w = (l.length - w) % w := by
          rw [Nat.mod_eq_sub_mod (by omega)]
        rw [hlast, List.length_drop, hmod]
    · refine ⟨[], l.take w, ?_, by simp, ?_⟩
      · rw [List.drop_eq_nil_of_le (by omega), slices_nil, List.nil_append]
      · rw [List.length_take]
        by_cases he : l.length = w
        · rw [he, Nat.mod_self, if_pos rfl, Nat.min_self]
        · rw [Nat.mod_eq_of_lt (by omega), if_neg (by omega)]
          omega

end Sunshine.Slices
