import Mathlib.Data.List.Basic

/-! The first member of a list that applies, and what holds of the members up to it. -/
namespace Sunshine.FirstMatch
set_option autoImplicit false

variable {α : Type} {applies ok : α → Prop} {a b : α} {l : List α}

/-- Nothing in front of `a` applies. -/
def Reached (applies : α → Prop) (l : List α) (a : α) : Prop :=
  ∃ front rest, l = front ++ a :: rest ∧ ∀ b ∈ front, ¬applies b

def FirstIs (applies : α → Prop) (l : List α) (a : α) : Prop := Reached applies l a ∧ applies a

/-- What is reached is as it should be. -/
def UpToFirst (applies ok : α → Prop) (l : List α) : Prop := ∀ a, Reached applies l a → ok a

theorem not_reached_nil : ¬Reached applies [] a := by
  rintro ⟨front, rest, hsplit, -⟩
  cases front with
  | nil => cases hsplit
  | cons b front => cases hsplit

theorem reached_cons : Reached applies (b :: l) a ↔ a = b ∨ ¬applies b ∧ Reached applies l a := by
  constructor
  · rintro ⟨front, rest, hsplit, hfront⟩
    cases front with
    | nil => exact .inl (List.cons.inj hsplit).1.symm
    | cons c front =>
      obtain ⟨rfl, hrest⟩ := List.cons.inj hsplit
      obtain ⟨hb, hfront⟩ := List.forall_mem_cons.mp hfront
      exact .inr ⟨hb, front, rest, hrest, hfront⟩
  · rintro (rfl | ⟨hb, front, rest, rfl, hfront⟩)
    · exact ⟨[], l, rfl, nofun⟩
    · exact ⟨b :: front, rest, rfl, List.forall_mem_cons.mpr ⟨hb, hfront⟩⟩

theorem firstIs_cons_of (hb : applies b) : FirstIs applies (b :: l) b := ⟨reached_cons.mpr (.inl rfl), hb⟩

theorem FirstIs.cons (h : FirstIs applies l a) (hb : ¬applies b) : FirstIs applies (b :: l) a :=
  ⟨reached_cons.mpr (.inr ⟨hb, h.1⟩), h.2⟩

theorem upToFirst_nil : UpToFirst applies ok [] := fun _ hreached => absurd hreached not_reached_nil

theorem upToFirst_cons : UpToFirst applies ok (b :: l) ↔ ok b ∧ (¬applies b → UpToFirst applies ok l) := by
  unfold UpToFirst
  simp only [reached_cons]
  constructor
  · exact fun h => ⟨h b (.inl rfl), fun hb a hreached => h a (.inr ⟨hb, hreached⟩)⟩
  · rintro ⟨hb, hrest⟩ a (rfl | ⟨hnot, hreached⟩)
    · exact hb
    · exact hrest hnot a hreached

theorem split_of_findIdx? {p : α → Bool} {i : ℕ} (h : l.findIdx? p = some i) :
    ∃ front b back, l = front ++ b :: back ∧ i = front.length ∧ (∀ a ∈ front, p a = false) ∧ p b = true := by
  induction l generalizing i with
  | nil => cases h
  | cons c l ih =>
    rw [List.findIdx?_cons] at h
    by_cases hc : p c = true
    · rw [if_pos hc] at h
      obtain rfl := Option.some.inj h
      exact ⟨[], c, l, rfl, rfl, by simp, hc⟩
    · rw [if_neg hc, Option.map_eq_some_iff] at h
      obtain ⟨j, hj, rfl⟩ := h
      obtain ⟨front, b, back, rfl, rfl, hfront, hb⟩ := ih hj
      exact ⟨c :: front, b, back, rfl, rfl, List.forall_mem_cons.mpr ⟨Bool.eq_false_iff.mpr hc, hfront⟩, hb⟩

end Sunshine.FirstMatch

/-! A list without its repetitions: of the elements with one key, the first stays where it is. -/
namespace Sunshine.KeepFirst
set_option autoImplicit false

variable {α κ : Type} [DecidableEq κ] (key : α → κ)

/-- The elements whose key was not seen before. -/
def keepFirst : List κ → List α → List α
  | _, [] => []
  | seen, a :: l => if key a ∈ seen then keepFirst seen l else a :: keepFirst (key a :: seen) l

theorem keepFirst_sublist (seen : List κ) (l : List α) : (keepFirst key seen l).Sublist l := by
  induction l generalizing seen with
  | nil => exact List.Sublist.refl []
  | cons a l ih =>
    rw [keepFirst]
    split_ifs
    · exact (ih seen).cons a
    · exact (ih (key a :: seen)).cons_cons a

/-- The keys that are left are those that were not seen before. -/
theorem mem_keys_keepFirst (seen : List κ) (l : List α) (k : κ) :
    k ∈ (keepFirst key seen l).map key ↔ k ∉ seen ∧ k ∈ l.map key := by
  induction l generalizing seen with
  | nil => simp [keepFirst]
  | cons a l ih =>
    rw [keepFirst]
    split_ifs with hseen
    · rw [ih, List.map_cons, List.mem_cons]
      refine and_congr_right fun hk => ⟨.inr, fun h => h.resolve_left fun heq => hk (heq ▸ hseen)⟩
    · rw [List.map_cons, List.map_cons, List.mem_cons, List.mem_cons, ih, List.mem_cons, not_or]
      constructor
      · rintro (rfl | ⟨⟨-, hk⟩, hl⟩)
        · exact ⟨hseen, .inl rfl⟩
        · exact ⟨hk, .inr hl⟩
      · rintro ⟨hk, hl⟩
        by_cases heq : k = key a
        · exact .inl heq
        · exact .inr ⟨⟨heq, hk⟩, hl.resolve_left heq⟩

theorem nodup_keepFirst (seen : List κ) (l : List α) : ((keepFirst key seen l).map key).Nodup := by
  induction l generalizing seen with
  | nil => exact List.nodup_nil
  | cons a l ih =>
    rw [keepFirst]
    split_ifs
    · exact ih seen
    · refine List.nodup_cons.mpr ⟨fun hmem => ?_, ih (key a :: seen)⟩
      exact ((mem_keys_keepFirst key (key a :: seen) l (key a)).mp hmem).1 List.mem_cons_self

end Sunshine.KeepFirst
