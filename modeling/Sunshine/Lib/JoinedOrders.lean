import Mathlib.Data.List.Pairwise
import Mathlib.Order.Lattice

/-! Comparisons as sorting wants them, and the comparison that joins several coordinates by "or".

`joined_strictWeakOrder_iff`: on a list the joined comparison is a strict weak order exactly if no two elements are one in
front of the other in one coordinate and behind it in another. `orderIndependent_iff` is the same for what a sort makes of
the permutations of a list. -/
namespace Sunshine.JoinedOrders
set_option autoImplicit false

variable {α β : Type}

/-! ## Sorting -/

section Sorting

variable {before : α → α → Bool} {sort : List α → List α} {l : List α}

structure StrictWeakOrder (before : α → α → Bool) (l : List α) : Prop where
  irrefl : ∀ a ∈ l, before a a = false
  asymm : ∀ a ∈ l, ∀ b ∈ l, before a b = true → before b a = false
  trans : ∀ a ∈ l, ∀ b ∈ l, ∀ c ∈ l, before a b = true → before b c = true → before a c = true
  incomparable : ∀ a ∈ l, ∀ b ∈ l, ∀ c ∈ l, before a b = false → before b a = false → before b c = false →
    before c b = false → before a c = false ∧ before c a = false

/-- What a sort is asked for: nothing on lists where the comparison is no strict weak order. -/
structure Sorts (before : α → α → Bool) (sort : List α → List α) : Prop where
  perm : ∀ l, StrictWeakOrder before l → (sort l).Perm l
  ordered : ∀ l, StrictWeakOrder before l → (sort l).Pairwise fun a b => before b a = false

/-- The list can be sorted, and however it is enumerated the result is the same. -/
def OrderIndependent (before : α → α → Bool) (sort : List α → List α) (l : List α) : Prop :=
  StrictWeakOrder before l ∧ ∀ l', l'.Perm l → sort l' = sort l

theorem StrictWeakOrder.perm (h : StrictWeakOrder before l) {l' : List α} (hperm : l'.Perm l) : StrictWeakOrder before l' where
  irrefl a ha := h.irrefl a (hperm.mem_iff.mp ha)
  asymm a ha b hb := h.asymm a (hperm.mem_iff.mp ha) b (hperm.mem_iff.mp hb)
  trans a ha b hb c hc := h.trans a (hperm.mem_iff.mp ha) b (hperm.mem_iff.mp hb) c (hperm.mem_iff.mp hc)
  incomparable a ha b hb c hc :=
    h.incomparable a (hperm.mem_iff.mp ha) b (hperm.mem_iff.mp hb) c (hperm.mem_iff.mp hc)

theorem StrictWeakOrder.notAfter_trans (h : StrictWeakOrder before l) {a b c : α} (ha : a ∈ l) (hb : b ∈ l) (hc : c ∈ l)
    (hab : before b a = false) (hbc : before c b = false) : before c a = false := by
  by_contra hne
  have hca : before c a = true := by simpa using hne
  have hba : before a b = false := by
    by_contra hab'
    have hcb := h.trans c hc a ha b hb hca (by simpa using hab')
    rw [hbc] at hcb
    exact Bool.false_ne_true hcb
  have hcb : before b c = false := by
    by_contra hbc'
    have hba' := h.trans b hb c hc a ha (by simpa using hbc') hca
    rw [hab] at hba'
    exact Bool.false_ne_true hba'
  exact hne (h.incomparable a ha b hb c hc hba hab hcb hbc).2

/-- Where the comparison is a strict weak order on the elements of a list, it need not be one elsewhere. -/
theorem sorts_mergeSort (before : α → α → Bool) : Sorts before fun l => l.mergeSort fun a b => !before b a := by
  refine ⟨fun l _ => List.mergeSort_perm l _, fun l h => ?_⟩
  have hsub : (l.attach.mergeSort fun a b => !before b.1 a.1).Pairwise fun a b => (!before b.1 a.1) = true := by
    refine List.pairwise_mergeSort (fun a b c hab hbc => ?_) (fun a b => ?_) l.attach
    · rw [Bool.not_eq_true'] at hab hbc ⊢
      exact h.notAfter_trans a.2 b.2 c.2 hab hbc
    · cases hab : before a.1 b.1 with
      | false => exact Bool.or_true _
      | true => simp [h.asymm a.1 a.2 b.1 b.2 hab]
  have hmap : (l.attach.mergeSort fun a b => !before b.1 a.1).map Subtype.val = l.mergeSort fun a b => !before b a := by
    rw [List.map_mergeSort (s := fun a b => !before b a) fun a _ b _ => rfl, List.attach_map_subtype_val]
  rw [← hmap]
  exact List.pairwise_map.mpr (hsub.imp fun hab => by simpa using hab)

end Sorting

/-! ## Joined comparisons -/

section Joined

variable [LinearOrder β] {coords : List (α → β)} {l : List α} {a b : α}

/-- In front in some coordinate. -/
def joined (coords : List (α → β)) (a b : α) : Bool := coords.any fun coord => coord a < coord b

/-- Of any two elements one is not behind the other in any coordinate. -/
def InLine (coords : List (α → β)) (l : List α) : Prop :=
  ∀ a ∈ l, ∀ b ∈ l, (∀ coord ∈ coords, coord a ≤ coord b) ∨ ∀ coord ∈ coords, coord b ≤ coord a

def Distinct (coords : List (α → β)) (l : List α) : Prop := l.Pairwise fun a b => ∃ coord ∈ coords, coord a ≠ coord b

theorem joined_iff : joined coords a b = true ↔ ∃ coord ∈ coords, coord a < coord b := by
  unfold joined
  rw [List.any_eq_true]
  exact exists_congr fun coord => and_congr_right fun _ => decide_eq_true_iff

theorem joined_eq_false_iff : joined coords a b = false ↔ ∀ coord ∈ coords, coord b ≤ coord a := by
  rw [← Bool.not_eq_true, joined_iff]
  simp only [not_exists, not_and, not_lt]

/-- In a line, an element that is in front in some coordinate is behind in none. -/
theorem InLine.le_of_joined (h : InLine coords l) (ha : a ∈ l) (hb : b ∈ l) (hab : joined coords a b = true) :
    ∀ coord ∈ coords, coord a ≤ coord b := by
  obtain ⟨coord, hcoord, hlt⟩ := joined_iff.mp hab
  exact (h a ha b hb).resolve_right fun hle => absurd (hle coord hcoord) (not_le.mpr hlt)

theorem joined_strictWeakOrder_iff (coords : List (α → β)) (l : List α) :
    StrictWeakOrder (joined coords) l ↔ InLine coords l := by
  constructor
  · intro h a ha b hb
    by_cases hba : joined coords b a = true
    · exact .inr (joined_eq_false_iff.mp (h.asymm b hb a ha hba))
    · exact .inl (joined_eq_false_iff.mp (by simpa using hba))
  · intro h
    refine ⟨fun a _ => ?_, fun a ha b hb hab => ?_, fun a ha b hb c hc hab hbc => ?_,
      fun a ha b hb c hc hab hba hbc hcb => ?_⟩
    · exact joined_eq_false_iff.mpr fun _ _ => le_rfl
    · exact joined_eq_false_iff.mpr (h.le_of_joined ha hb hab)
    · obtain ⟨coord, hcoord, hlt⟩ := joined_iff.mp hab
      exact joined_iff.mpr ⟨coord, hcoord, hlt.trans_le (h.le_of_joined hb hc hbc coord hcoord)⟩
    · rw [joined_eq_false_iff] at hab hba hbc hcb ⊢
      rw [joined_eq_false_iff]
      exact ⟨fun coord hcoord => (hbc coord hcoord).trans (hab coord hcoord),
        fun coord hcoord => (hba coord hcoord).trans (hcb coord hcoord)⟩

omit [LinearOrder β] in
/-- Elements that no coordinate tells apart are the same. -/
theorem Distinct.eq (h : Distinct coords l) (ha : a ∈ l) (hb : b ∈ l) (hsame : ∀ coord ∈ coords, coord a = coord b) :
    a = b := by
  by_contra hne
  have hsymm : Std.Symm fun a b : α => ∃ coord ∈ coords, coord a ≠ coord b :=
    ⟨fun a b ⟨coord, hcoord, hdiff⟩ => ⟨coord, hcoord, hdiff.symm⟩⟩
  obtain ⟨coord, hcoord, hdiff⟩ := List.Pairwise.forall h ha hb hne
  exact hdiff (hsame coord hcoord)

theorem orderIndependent_iff {sort : List α → List α} (hsort : Sorts (joined coords) sort) (hdistinct : Distinct coords l) :
    OrderIndependent (joined coords) sort l ↔ InLine coords l := by
  unfold OrderIndependent
  rw [joined_strictWeakOrder_iff]
  refine and_iff_left_of_imp fun hline l' hperm => ?_
  have horder := (joined_strictWeakOrder_iff coords l).mpr hline
  have horder' := horder.perm hperm
  refine List.Perm.eq_of_pairwise (fun a b ha hb hab hba => ?_) (hsort.ordered l' horder') (hsort.ordered l horder)
    ((hsort.perm l' horder').trans (hperm.trans (hsort.perm l horder).symm))
  have ha' : a ∈ l := hperm.mem_iff.mp ((hsort.perm l' horder').mem_iff.mp ha)
  have hb' : b ∈ l := (hsort.perm l horder).mem_iff.mp hb
  exact hdistinct.eq ha' hb' fun coord hcoord =>
    le_antisymm (joined_eq_false_iff.mp hab coord hcoord) (joined_eq_false_iff.mp hba coord hcoord)

end Joined

end Sunshine.JoinedOrders
