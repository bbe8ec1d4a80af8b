import Mathlib.Data.List.Induction

/-! Runs of a labelled transition function.

`Runs p next s l` says that the events `l` can be taken one after the other from `s`, each meeting
`p` in the state it is taken in. A guarded run is a run of the conjunction of what is enabled and
the guard; `Runs.invariant` is the induction over either. -/
namespace Sunshine.Transitions
set_option autoImplicit false

variable {σ α : Type} {p q : σ → α → Prop} {next : σ → α → σ}

def Runs (p : σ → α → Prop) (next : σ → α → σ) : σ → List α → Prop
  | _, [] => True
  | s, a :: l => p s a ∧ Runs p next (next s a) l

instance decidableRuns [h : ∀ s a, Decidable (p s a)] :
    ∀ (s : σ) (l : List α), Decidable (Runs p next s l)
  | _, [] => inferInstanceAs (Decidable True)
  | s, a :: l => @instDecidableAnd _ _ (h s a) (decidableRuns (next s a) l)

/-- What holds at the start and is kept by every step holds at the end. -/
theorem Runs.invariant {s : σ} {l : List α} (h : Runs p next s l) (I : σ → Prop) (hs : I s)
    (hstep : ∀ s a, I s → p s a → I (next s a)) : I (l.foldl next s) := by
  induction l generalizing s with
  | nil => exact hs
  | cons a l ih => exact ih h.2 (hstep s a hs h.1)

/-- Where every step lowers a measure, the run is no longer than it. -/
theorem Runs.length_le {s : σ} {l : List α} (h : Runs p next s l) (I : σ → Prop) (measure : σ → ℕ) (hs : I s)
    (hstep : ∀ s a, I s → p s a → I (next s a) ∧ measure (next s a) < measure s) : l.length ≤ measure s := by
  induction l generalizing s with
  | nil => exact Nat.zero_le _
  | cons a l ih =>
    obtain ⟨hI, hlt⟩ := hstep s a hs h.1
    exact Nat.lt_of_le_of_lt (ih h.2 hI) hlt

theorem runs_true {s : σ} (l : List α) : Runs (fun _ _ => True) next s l := by
  induction l generalizing s with
  | nil => trivial
  | cons a l ih => exact ⟨trivial, ih⟩

theorem Runs.imp {s : σ} {l : List α} (h : Runs p next s l) (hpq : ∀ s a, p s a → q s a) :
    Runs q next s l := by
  induction l generalizing s with
  | nil => trivial
  | cons a l ih => exact ⟨hpq s a h.1, ih h.2⟩

theorem Runs.and {s : σ} {l : List α} (hp : Runs p next s l) (hq : Runs q next s l) :
    Runs (fun s a => p s a ∧ q s a) next s l := by
  induction l generalizing s with
  | nil => trivial
  | cons a l ih => exact ⟨⟨hp.1, hq.1⟩, ih hp.2 hq.2⟩

theorem Runs.append_iff {s : σ} {l m : List α} :
    Runs p next s (l ++ m) ↔ Runs p next s l ∧ Runs p next (l.foldl next s) m := by
  induction l generalizing s with
  | nil => simp [Runs]
  | cons a l ih => simp only [List.cons_append, Runs, List.foldl_cons, ih, and_assoc]

theorem Runs.front {s : σ} {l m : List α} (h : Runs p next s (l ++ m)) : Runs p next s l :=
  (Runs.append_iff.mp h).1

/-- Every step of a run is taken behind some front of it. -/
theorem runs_iff_each {s : σ} {l : List α} :
    Runs p next s l ↔ ∀ front a rest, l = front ++ a :: rest → p (front.foldl next s) a := by
  induction l generalizing s with
  | nil => exact iff_of_true trivial fun front a rest h => absurd h.symm (List.append_ne_nil_of_right_ne_nil front (by simp))
  | cons b l ih =>
    rw [Runs, ih]
    constructor
    · rintro ⟨hb, hl⟩ front a rest heq
      cases front with
      | nil =>
        obtain ⟨rfl, -⟩ := List.cons.inj heq
        exact hb
      | cons c front =>
        obtain ⟨rfl, hrest⟩ := List.cons.inj heq
        exact hl front a rest hrest
    · intro h
      exact ⟨h [] b l rfl, fun front a rest heq => h (b :: front) a rest (congrArg (b :: ·) heq)⟩

/-- A step may be shown to meet `p` where all those before it do. -/
theorem runs_of_fronts {s : σ} {l : List α}
    (h : ∀ front a rest, l = front ++ a :: rest → Runs p next s front → p (front.foldl next s) a) : Runs p next s l := by
  induction l using List.reverseRecOn with
  | nil => trivial
  | append_singleton l a ih =>
    have hfront : Runs p next s l := ih fun front b rest hsplit => h front b (rest ++ [a]) (by rw [hsplit]; simp)
    exact Runs.append_iff.mpr ⟨hfront, h l a [] rfl hfront, trivial⟩

/-- Where each step leads to a good state exactly if it meets `q`, the states of a run are good exactly if all its
steps do; `I` is what steps between good states keep. -/
theorem Runs.always_good_iff {s : σ} {l : List α} (h : Runs p next s l) (I good : σ → Prop) (hs : I s) (hgood : good s)
    (hkeep : ∀ s a, I s → good s → p s a → good (next s a) → I (next s a))
    (hstep : ∀ s a, I s → good s → p s a → (good (next s a) ↔ q s a)) :
    (∀ m, m <+: l → good (m.foldl next s)) ↔ Runs q next s l := by
  induction l generalizing s with
  | nil =>
    refine ⟨fun _ => trivial, fun _ m hm => ?_⟩
    rw [List.prefix_nil.mp hm]
    exact hgood
  | cons a l ih =>
    obtain ⟨ha, hl⟩ := h
    constructor
    · intro hall
      have hnext : good (next s a) := hall [a] (List.prefix_append [a] l)
      refine ⟨(hstep s a hs hgood ha).mp hnext, (ih hl (hkeep s a hs hgood ha hnext) hnext).mp fun m hm => ?_⟩
      exact hall (a :: m) ((List.prefix_cons_inj a).mpr hm)
    · rintro ⟨hq, hruns⟩ m hm
      have hnext := (hstep s a hs hgood ha).mpr hq
      cases m with
      | nil => exact hgood
      | cons b m =>
        obtain ⟨rfl, hrest⟩ := List.cons_prefix_cons.mp hm
        exact (ih hl (hkeep s b hs hgood ha hnext) hnext).mpr hruns m hrest

/-- The same where `I` is what all steps keep. -/
theorem Runs.always_iff {s : σ} {l : List α} (h : Runs p next s l) (I good : σ → Prop) (hs : I s) (hgood : good s)
    (hkeep : ∀ s a, I s → p s a → I (next s a))
    (hstep : ∀ s a, I s → good s → p s a → (good (next s a) ↔ q s a)) :
    (∀ m, m <+: l → good (m.foldl next s)) ↔ Runs q next s l :=
  h.always_good_iff I good hs hgood (fun s a hI _ ha _ => hkeep s a hI ha) hstep

section Component

variable {β τ : Type} {part : σ → τ} {step : τ → β → τ} {input : σ → α → Option β}

/-! ## A part that steps with the whole -/

/-- The inputs that a part gets in a run of the whole. -/
def fed (next : σ → α → σ) (input : σ → α → Option β) : σ → List α → List β
  | _, [] => []
  | s, a :: l => (input s a).toList ++ fed next input (next s a) l

/-- Where the part makes a step of its own on every input it gets, it is a run over them. -/
theorem part_foldl (hpart : ∀ s a, part (next s a) = (input s a).toList.foldl step (part s)) (s : σ) (l : List α) :
    part (l.foldl next s) = (fed next input s l).foldl step (part s) := by
  induction l generalizing s with
  | nil => rfl
  | cons a l ih => rw [List.foldl_cons, ih, hpart, fed, List.foldl_append]

end Component

end Sunshine.Transitions
