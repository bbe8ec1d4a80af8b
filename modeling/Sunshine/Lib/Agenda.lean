import Mathlib.Data.List.Perm.Basic
import Mathlib.Order.Lattice

/-! Lists in descending order of a key, the least key last.

`place` puts a new element in front of the first smaller one. `sift` moves an element whose key has grown towards the
front; an element whose key has shrunk stays where it is, and the order is lost. -/
namespace Sunshine.Agenda
set_option autoImplicit false

variable {α κ : Type*} [LinearOrder κ] {key : α → κ} {x y : α} {l front back : List α}

def Descending (key : α → κ) (l : List α) : Prop := l.Pairwise fun a b => key b ≤ key a

theorem descending_append : Descending key (front ++ back) ↔
    Descending key front ∧ Descending key back ∧ ∀ a ∈ front, ∀ b ∈ back, key b ≤ key a :=
  List.pairwise_append

theorem descending_cons : Descending key (x :: l) ↔ (∀ a ∈ l, key a ≤ key x) ∧ Descending key l :=
  List.pairwise_cons

theorem Descending.sublist (h : Descending key l) (hsub : front.Sublist l) : Descending key front :=
  List.Pairwise.sublist hsub h

/-- The last element has the least key. -/
theorem Descending.last_le (h : Descending key (l ++ [x])) (hy : y ∈ l ++ [x]) : key x ≤ key y := by
  obtain ⟨-, -, hle⟩ := descending_append.mp h
  rcases List.mem_append.mp hy with hy | hy
  · exact hle y hy x List.mem_cons_self
  · rw [List.mem_singleton.mp hy]

/-! ## A new element -/

def place (key : α → κ) (x : α) : List α → List α
  | [] => [x]
  | y :: l => if key y < key x then x :: y :: l else y :: place key x l

theorem place_perm (x : α) (l : List α) : (place key x l).Perm (x :: l) := by
  induction l with
  | nil => exact List.Perm.refl _
  | cons y l ih =>
    unfold place
    split
    · exact List.Perm.refl _
    · exact (ih.cons y).trans (List.Perm.swap x y l)

theorem descending_place (h : Descending key l) (x : α) : Descending key (place key x l) := by
  induction l with
  | nil => exact List.pairwise_singleton _ _
  | cons y l ih =>
    obtain ⟨hy, hl⟩ := descending_cons.mp h
    unfold place
    split
    · rename_i hlt
      refine descending_cons.mpr ⟨fun a ha => ?_, h⟩
      rcases List.mem_cons.mp ha with rfl | ha
      · exact hlt.le
      · exact (hy a ha).trans hlt.le
    · rename_i hle
      refine descending_cons.mpr ⟨fun a ha => ?_, ih hl⟩
      rcases List.mem_cons.mp ((place_perm x l).mem_iff.mp ha) with rfl | ha
      · exact not_lt.mp hle
      · exact hy a ha

/-! ## An element with a new key -/

/-- The element at the end of `front`, given in reverse, is compared with the one before it, and so on; the larger
one of the two goes on. -/
def sift (key : α → κ) (x : α) : List α → List α → List α
  | [], back => x :: back
  | y :: front, back =>
    if key y < key x then sift key x front (y :: back) else sift key y front (x :: back)

theorem sift_perm (x : α) (front back : List α) : (sift key x front back).Perm (x :: (front ++ back)) := by
  induction front generalizing x back with
  | nil => exact List.Perm.refl _
  | cons y front ih =>
    unfold sift
    split
    · refine (ih x (y :: back)).trans (List.Perm.cons x ?_)
      exact List.perm_middle
    · refine (ih y (x :: back)).trans ?_
      exact (List.Perm.cons y List.perm_middle).trans (List.Perm.swap x y _)

/-- The element stays in front of what was behind it. -/
theorem sublist_sift (x : α) (front back : List α) : (x :: back).Sublist (sift key x front back) := by
  induction front generalizing x back with
  | nil => exact List.Sublist.refl _
  | cons y front ih =>
    unfold sift
    split
    · exact (List.Sublist.cons_cons x (List.sublist_cons_self y back)).trans (ih x (y :: back))
    · exact (List.sublist_cons_self y (x :: back)).trans (ih y (x :: back))

/-- Behind larger elements nothing moves. -/
theorem sift_stays {front : List α} (h : Descending key (front.reverse ++ [x])) :
    sift key x front back = front.reverse ++ x :: back := by
  induction front generalizing x back with
  | nil => rfl
  | cons y front ih =>
    rw [List.reverse_cons, List.append_assoc, List.singleton_append] at h ⊢
    have hle : ¬key y < key x :=
      not_lt.mpr ((descending_cons.mp (descending_append.mp h).2.1).1 x List.mem_cons_self)
    unfold sift
    rw [if_neg hle]
    exact ih (h.sublist (List.Sublist.append_left (List.Sublist.cons_cons y (List.nil_sublist _)) _))

/-- The other elements stay in their order. -/
theorem sift_split {front : List α} (h : Descending key front.reverse) :
    ∃ before after, sift key x front back = before ++ x :: after ∧ before ++ after = front.reverse ++ back := by
  induction front generalizing back with
  | nil => exact ⟨[], back, rfl, rfl⟩
  | cons y front ih =>
    by_cases hlt : key y < key x
    · rw [List.reverse_cons] at h
      obtain ⟨before, after, hsift, happend⟩ := @ih (y :: back) (descending_append.mp h).1
      unfold sift
      rw [if_pos hlt]
      refine ⟨before, after, hsift, ?_⟩
      rw [happend, List.reverse_cons, List.append_assoc, List.singleton_append]
    · refine ⟨(y :: front).reverse, back, sift_stays ?_, rfl⟩
      refine descending_append.mpr ⟨h, List.pairwise_singleton _ _, fun a ha b hb => ?_⟩
      rw [List.mem_singleton.mp hb]
      rw [List.reverse_cons] at h ha
      exact (not_lt.mp hlt).trans (h.last_le ha)

theorem sift_descending {front : List α} (h : Descending key (front.reverse ++ back))
    (hback : ∀ y ∈ back, key y ≤ key x) : Descending key (sift key x front back) := by
  induction front generalizing back with
  | nil => exact descending_cons.mpr ⟨hback, h⟩
  | cons y front ih =>
    by_cases hlt : key y < key x
    · rw [List.reverse_cons, List.append_assoc, List.singleton_append] at h
      unfold sift
      rw [if_pos hlt]
      exact ih h (List.forall_mem_cons.mpr ⟨hlt.le, hback⟩)
    · obtain ⟨hfront, hrest, hle⟩ := descending_append.mp h
      have hx : ∀ a ∈ (y :: front).reverse, key x ≤ key a := by
        intro a ha
        rw [List.reverse_cons] at hfront ha
        exact (not_lt.mp hlt).trans (hfront.last_le ha)
      rw [sift_stays (descending_append.mpr ⟨hfront, List.pairwise_singleton _ _,
        fun a ha b hb => (List.mem_singleton.mp hb).symm ▸ hx a ha⟩)]
      exact descending_append.mpr ⟨hfront, descending_cons.mpr ⟨hback, hrest⟩,
        fun a ha => List.forall_mem_cons.mpr ⟨hx a ha, hle a ha⟩⟩

/-- The order is kept exactly if the key is still the larger one of those behind. -/
theorem sift_descending_iff {front : List α} (h : Descending key (front.reverse ++ back)) :
    Descending key (sift key x front back) ↔ ∀ y ∈ back, key y ≤ key x := by
  constructor
  · exact fun hsift => (descending_cons.mp (hsift.sublist (sublist_sift x front back))).1
  · exact sift_descending h

end Sunshine.Agenda
