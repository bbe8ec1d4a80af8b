import Mathlib.Data.List.Induction
import Mathlib.Data.List.Infix

/-! Two values are read from a list whose elements may give the one or the other: a later one takes the place of an earlier
one, and the reading stops where both were given. -/
namespace Sunshine.ReadUntil
set_option autoImplicit false

section Reading

variable {α β : Type} (first second : α → Option β)

def assign (found : Option β × Option β) (a : α) : Option β × Option β :=
  ((first a).or found.1, (second a).or found.2)

def readUntil : Option β × Option β → List α → Option β × Option β
  | found, [] => found
  | found, a :: l =>
    let found := assign first second found a
    if found.1.isSome ∧ found.2.isSome then found else readUntil found l

/-- The last value of a list. -/
def lastOf (l : List α) : Option β := (l.filterMap first).getLast?

theorem lastOf_concat (l : List α) (a : α) : lastOf first (l ++ [a]) = (first a).or (lastOf first l) := by
  unfold lastOf
  rw [List.filterMap_append]
  cases hfirst : first a with
  | none => simp [hfirst]
  | some b => simp [hfirst]

end Reading

section Said

variable {α β : Type} (R S : α → β → Prop)

def Given (l : List α) : Prop := ∃ a ∈ l, ∃ b, R a b

def Both (l : List α) : Prop := Given R l ∧ Given S l

/-- The part of a list up to where both were given. -/
structure Read (front l : List α) : Prop where
  reached : front <+: l
  going : ∀ shorter, shorter <+: front → shorter ≠ front → ¬Both R S shorter
  stopped : front = l ∨ Both R S front

def Last (l : List α) (b : β) : Prop := ∃ before a after, l = before ++ a :: after ∧ R a b ∧ ¬Given R after

/-- A value that stands where the reading stops. -/
def Stands (l : List α) (b : β) : Prop := ∃ front, Read R S front l ∧ Last R front b

variable {R S}

/-- The reading stops at one place only. -/
theorem Read.unique {front other l : List α} (h : Read R S front l) (h' : Read R S other l) : front = other := by
  have hle : ∀ {p q : List α}, Read R S p l → Read R S q l → p <+: q → p = q := by
    intro p q hp hq hpre
    by_contra hne
    cases hp.stopped with
    | inl heq => exact hne (hpre.eq_of_length (Nat.le_antisymm hpre.length_le (heq ▸ hq.reached.length_le)))
    | inr hboth => exact hq.going p hpre hne hboth
  cases List.prefix_or_prefix_of_prefix h.reached h'.reached with
  | inl hpre => exact hle h h' hpre
  | inr hpre => exact (hle h' h hpre).symm

theorem last_concat (l : List α) (a : α) (b : β) :
    Last R (l ++ [a]) b ↔ R a b ∨ (∀ d, ¬R a d) ∧ Last R l b := by
  constructor
  · rintro ⟨before, c, after, hsplit, hc, hafter⟩
    rcases List.eq_nil_or_concat after with rfl | ⟨after, d, rfl⟩
    · have hlast := (List.append_inj' hsplit rfl).2
      rw [List.cons.injEq] at hlast
      exact .inl (hlast.1 ▸ hc)
    · rw [List.concat_eq_append, ← List.cons_append, ← List.append_assoc] at hsplit
      obtain ⟨hl, hlast⟩ := List.append_inj' hsplit rfl
      rw [List.cons.injEq] at hlast
      refine .inr ⟨fun e he => hafter ⟨d, by simp, e, hlast.1 ▸ he⟩, before, c, after, hl, hc, fun ⟨e, he, hR⟩ => ?_⟩
      exact hafter ⟨e, by simp [he], hR⟩
  · rintro (ha | ⟨hnot, before, c, after, rfl, hc, hafter⟩)
    · exact ⟨l, a, [], rfl, ha, fun ⟨e, he, _⟩ => List.not_mem_nil he⟩
    · refine ⟨before, c, after ++ [a], by simp, hc, fun ⟨d, hd, e, he⟩ => ?_⟩
      cases List.mem_append.mp hd with
      | inl hd => exact hafter ⟨d, hd, e, he⟩
      | inr hd => exact hnot e (List.mem_singleton.mp hd ▸ he)

variable {first second : α → Option β} (hfirst : ∀ a b, first a = some b ↔ R a b) (hsecond : ∀ a b, second a = some b ↔ S a b)
include hfirst

theorem lastOf_iff (l : List α) (b : β) : lastOf first l = some b ↔ Last R l b := by
  induction l using List.reverseRecOn with
  | nil =>
    refine iff_of_false (by simp [lastOf]) fun h => ?_
    obtain ⟨before, a, after, hsplit, -⟩ := h
    exact List.append_ne_nil_of_right_ne_nil before (List.cons_ne_nil a after) hsplit.symm
  | append_singleton l a ih =>
    rw [lastOf_concat, last_concat, ← ih]
    cases ha : first a with
    | none =>
      have hnot : ∀ b, ¬R a b := fun b hb => absurd (ha.symm.trans ((hfirst a b).mpr hb)) (by simp)
      rw [Option.none_or]
      exact ⟨fun h => .inr ⟨hnot, h⟩, fun h => (h.resolve_left (hnot b)).2⟩
    | some d =>
      have hd : R a d := (hfirst a d).mp ha
      rw [Option.some_or]
      constructor
      · intro h
        exact .inl ((hfirst a b).mp (ha.trans h))
      · rintro (hb | ⟨hnot, -⟩)
        · exact ha.symm.trans ((hfirst a b).mpr hb)
        · exact absurd hd (hnot d)

theorem isSome_lastOf (l : List α) : (lastOf first l).isSome = true ↔ Given R l := by
  induction l using List.reverseRecOn with
  | nil => exact iff_of_false (by simp [lastOf]) fun ⟨a, ha, _⟩ => List.not_mem_nil ha
  | append_singleton l a ih =>
    rw [lastOf_concat, Option.isSome_or, Bool.or_eq_true, ih, Option.isSome_iff_exists]
    simp only [hfirst]
    constructor
    · rintro (⟨b, hb⟩ | ⟨c, hc, b, hb⟩)
      · exact ⟨a, by simp, b, hb⟩
      · exact ⟨c, by simp [hc], b, hb⟩
    · rintro ⟨c, hc, b, hb⟩
      cases List.mem_append.mp hc with
      | inl hc => exact .inr ⟨c, hc, b, hb⟩
      | inr hc => exact .inl ⟨b, List.mem_singleton.mp hc ▸ hb⟩

include hsecond

theorem both_iff (l : List α) : Both R S l ↔ (lastOf first l).isSome = true ∧ (lastOf second l).isSome = true := by
  rw [isSome_lastOf hfirst, isSome_lastOf hsecond]
  rfl

/-- What is read behind a part where not both were given. -/
theorem exists_read (seen l : List α) (hopen : ∀ shorter, shorter <+: seen → ¬Both R S shorter) :
    ∃ front, Read R S front (seen ++ l) ∧
      readUntil first second (lastOf first seen, lastOf second seen) l = (lastOf first front, lastOf second front) := by
  induction l generalizing seen with
  | nil =>
    rw [List.append_nil]
    exact ⟨seen, ⟨List.prefix_rfl, fun shorter hshorter _ => hopen shorter hshorter, .inl rfl⟩, rfl⟩
  | cons a l ih =>
    have hassign : assign first second (lastOf first seen, lastOf second seen) a =
        (lastOf first (seen ++ [a]), lastOf second (seen ++ [a])) := by
      rw [lastOf_concat, lastOf_concat]
      rfl
    have hsplit : seen ++ a :: l = seen ++ [a] ++ l := by simp
    rw [readUntil, hassign, hsplit]
    dsimp only
    split_ifs with hboth
    · rw [← both_iff hfirst hsecond] at hboth
      refine ⟨seen ++ [a], ⟨List.prefix_append _ _, fun shorter hshorter hne => ?_, .inr hboth⟩, rfl⟩
      exact hopen shorter ((List.prefix_concat_iff.mp hshorter).resolve_left hne)
    · rw [← both_iff hfirst hsecond] at hboth
      refine ih (seen ++ [a]) fun shorter hshorter => ?_
      cases List.prefix_concat_iff.mp hshorter with
      | inl heq => exact heq ▸ hboth
      | inr hold => exact hopen shorter hold

theorem readUntil_iff (l : List α) (b : β) : (readUntil first second (none, none) l).1 = some b ↔ Stands R S l b := by
  have hopen : ∀ shorter : List α, shorter <+: [] → ¬Both R S shorter := by
    rintro shorter hshorter ⟨⟨a, ha, -⟩, -⟩
    rw [List.prefix_nil.mp hshorter] at ha
    exact List.not_mem_nil ha
  obtain ⟨front, hread, hvalue⟩ := exists_read hfirst hsecond [] l hopen
  rw [List.nil_append] at hread
  have hrun : readUntil first second (none, none) l = (lastOf first front, lastOf second front) := hvalue
  rw [hrun, lastOf_iff hfirst]
  constructor
  · intro hlast
    exact ⟨front, hread, hlast⟩
  · rintro ⟨other, hother, hlast⟩
    exact hread.unique hother ▸ hlast

end Said

end Sunshine.ReadUntil
