import Mathlib.Data.List.DropRight
import Mathlib.Tactic.Common

/-! What a first-in first-out queue has of what it took in.

`Kept` says that the elements taken in are those that have left, followed by the contents, and that the elements given
out are among those that have left, in the same order. Where every element of the last `n` is given out or still there,
the contents are these without the elements given out: `Kept.eq_filter`. -/
namespace Sunshine.Fifo
set_option autoImplicit false

variable {β : Type*} {x : β} {taken given contents front : List β}

structure Kept (taken given contents : List β) : Prop where
  split : ∃ gone, taken = gone ++ contents ∧ given.Sublist gone

/-- Each element of the list is given out or still there. -/
def Accounted (recent given contents : List β) : Prop := ∀ x ∈ recent, x ∈ given ∨ x ∈ contents

theorem kept_nil : Kept ([] : List β) [] [] := ⟨[], rfl, List.Sublist.refl []⟩

namespace Kept

theorem push (h : Kept taken given contents) (x : β) : Kept (taken ++ [x]) given (contents ++ [x]) := by
  obtain ⟨gone, hsplit, hgiven⟩ := h.split
  exact ⟨gone, by rw [hsplit, List.append_assoc], hgiven⟩

/-- The front leaves without being given out. -/
theorem lose (h : Kept taken given (front ++ contents)) : Kept taken given contents := by
  obtain ⟨gone, hsplit, hgiven⟩ := h.split
  exact ⟨gone ++ front, by rw [hsplit, List.append_assoc], hgiven.trans (List.sublist_append_left gone front)⟩

theorem give (h : Kept taken given (x :: contents)) : Kept taken (given ++ [x]) contents := by
  obtain ⟨gone, hsplit, hgiven⟩ := h.split
  exact ⟨gone ++ [x], by rw [hsplit, List.append_assoc, List.singleton_append], hgiven.append_right [x]⟩

theorem suffix (h : Kept taken given contents) : contents <:+ taken := by
  obtain ⟨gone, hsplit, -⟩ := h.split
  exact ⟨gone, hsplit.symm⟩

theorem given_sublist (h : Kept taken given contents) : given.Sublist taken := by
  obtain ⟨gone, hsplit, hgiven⟩ := h.split
  rw [hsplit]
  exact hgiven.trans (List.sublist_append_left gone contents)

theorem not_given (h : Kept taken given contents) (hnodup : taken.Nodup) (hx : x ∈ contents) : x ∉ given := by
  obtain ⟨gone, rfl, hgiven⟩ := h.split
  intro hmem
  exact (List.nodup_append.mp hnodup).2.2 x (hgiven.subset hmem) x hx rfl

section Filter

variable {p : β → Bool}

theorem filter_contents (h : Kept taken given contents) (hnodup : taken.Nodup)
    (hp : ∀ x ∈ taken, p x = true ↔ x ∉ given) : contents.filter p = contents := by
  rw [List.filter_eq_self]
  intro x hx
  exact (hp x (h.suffix.subset hx)).mpr (h.not_given hnodup hx)

/-- What is neither given out nor still there comes before the contents. -/
theorem suffix_filter (h : Kept taken given contents) (hnodup : taken.Nodup)
    (hp : ∀ x ∈ taken, p x = true ↔ x ∉ given) : contents <:+ taken.filter p := by
  obtain ⟨gone, hsplit, -⟩ := h.split
  have hcontents := h.filter_contents hnodup hp
  refine ⟨gone.filter p, ?_⟩
  rw [hsplit, List.filter_append, hcontents]

theorem eq_filter (h : Kept taken given contents) (hnodup : taken.Nodup) (hp : ∀ x ∈ taken, p x = true ↔ x ∉ given)
    {recent : List β} (hrecent : recent <:+ taken) (hcontents : contents <:+ recent)
    (haccounted : Accounted recent given contents) : contents = recent.filter p := by
  obtain ⟨older, hsplit⟩ := hcontents
  have holder : older.filter p = [] := by
    rw [List.filter_eq_nil_iff]
    intro x hx hpx
    have hmem : x ∈ recent := by
      rw [← hsplit]
      exact List.mem_append_left contents hx
    rcases haccounted x hmem with hgiven | hcontents
    · exact (hp x (hrecent.subset hmem)).mp hpx hgiven
    · have hnodup' : (older ++ contents).Nodup := hsplit ▸ hnodup.sublist hrecent.sublist
      exact (List.nodup_append.mp hnodup').2.2 x hx x hcontents rfl
  rw [← hsplit, List.filter_append, holder, List.nil_append, h.filter_contents hnodup hp]

end Filter

end Kept

/-! ## The last elements -/

theorem rtake_suffix (l : List β) (n : ℕ) : l.rtake n <:+ l := List.drop_suffix _ l

theorem suffix_rtake {l : List β} {n : ℕ} (h : contents <:+ l) (hlength : contents.length ≤ n) :
    contents <:+ l.rtake n := by
  rw [List.suffix_iff_eq_drop.mp h]
  unfold List.rtake
  exact List.drop_suffix_drop_left l (Nat.sub_le_sub_left hlength _)

/-- A full queue that loses its oldest element has the last elements. -/
theorem tail_push_eq_rtake {l : List β} {n : ℕ} (h : contents <:+ l) (hlength : contents.length = n) (hpos : 0 < n) :
    contents.tail ++ [x] = (l ++ [x]).rtake n := by
  obtain ⟨n, rfl⟩ := Nat.exists_eq_succ_of_ne_zero (Nat.ne_of_gt hpos)
  rw [List.rtake_concat_succ, List.suffix_iff_eq_drop.mp h, hlength, List.tail_drop]
  unfold List.rtake
  have hle := h.length_le
  congr 2
  omega

theorem mem_rtake_concat {l : List β} {n : ℕ} {y : β} (hy : y ∈ (l ++ [x]).rtake n) : y ∈ l.rtake n ∨ y = x := by
  cases n with
  | zero => simp at hy
  | succ n =>
    rw [List.rtake_concat_succ, List.mem_append, List.mem_singleton] at hy
    refine hy.imp_left fun hmem => ?_
    unfold List.rtake at hmem ⊢
    exact (List.drop_suffix_drop_left l (by omega)).subset hmem

theorem Accounted.push {recent recent' : List β} (h : Accounted recent given contents)
    (hrecent : ∀ y ∈ recent', y ∈ recent ∨ y = x) : Accounted recent' given (contents ++ [x]) := by
  intro y hy
  rcases hrecent y hy with hmem | rfl
  · exact (h y hmem).imp_right fun hc => List.mem_append_left [x] hc
  · exact .inr (List.mem_append_right contents (List.mem_singleton_self y))

theorem Accounted.give {recent : List β} (h : Accounted recent given (x :: contents)) :
    Accounted recent (given ++ [x]) contents := by
  intro y hy
  rcases h y hy with hgiven | hc
  · exact .inl (List.mem_append_left [x] hgiven)
  · rcases List.mem_cons.mp hc with rfl | hc
    · exact .inl (List.mem_append_right given (List.mem_singleton_self y))
    · exact .inr hc

end Sunshine.Fifo
