import Mathlib.Data.List.Basic

/-! Weakest preconditions of computations that may fail.

`Yields x post` says that `x` does not fail and that `post` holds of its result. The rules are equivalences, so
they work in both directions: to show that a computation goes through, and to read off what it needed. -/
namespace Sunshine.Outcomes
set_option autoImplicit false

variable {ε α β σ : Type}

def Yields (x : Except ε α) (post : α → Prop) : Prop := ∃ a, x = .ok a ∧ post a

@[simp] theorem yields_ok {a : α} {post : α → Prop} : Yields (.ok a : Except ε α) post ↔ post a := by
  constructor
  · rintro ⟨b, hb, h⟩
    obtain rfl := Except.ok.inj hb
    exact h
  · intro h
    exact ⟨a, rfl, h⟩

@[simp] theorem yields_pure {a : α} {post : α → Prop} : Yields (pure a : Except ε α) post ↔ post a := yields_ok

@[simp] theorem yields_error {e : ε} {post : α → Prop} : Yields (.error e : Except ε α) post ↔ False := by
  constructor
  · rintro ⟨a, ha, -⟩
    cases ha
  · exact False.elim

@[simp] theorem yields_bind {x : Except ε α} {f : α → Except ε β} {post : β → Prop} :
    Yields (x >>= f) post ↔ Yields x fun a => Yields (f a) post := by
  cases x with
  | error e =>
    rw [yields_error]
    exact yields_error
  | ok a =>
    rw [yields_ok]
    exact Iff.rfl

@[simp] theorem yields_ite {p : Prop} [Decidable p] {x y : Except ε α} {post : α → Prop} :
    Yields (if p then x else y) post ↔ (p → Yields x post) ∧ (¬p → Yields y post) := by
  by_cases h : p
  · simp [h]
  · simp [h]

theorem Yields.mono {x : Except ε α} {post post' : α → Prop} (h : Yields x post) (hpost : ∀ a, post a → post' a) :
    Yields x post' := by
  obtain ⟨a, ha, h⟩ := h
  exact ⟨a, ha, hpost a h⟩

theorem yields_forM {f : α → Except ε Unit} {l : List α} {p : α → Prop}
    (hf : ∀ a, Yields (f a) (fun _ => True) ↔ p a) : Yields (forM l f) (fun _ => True) ↔ ∀ a ∈ l, p a := by
  induction l with
  | nil => exact iff_of_true ⟨(), rfl, trivial⟩ nofun
  | cons a l ih =>
    rw [List.forM_cons, yields_bind, List.forall_mem_cons, ← hf, ← ih]
    constructor
    · rintro ⟨u, hu, h⟩
      exact ⟨⟨u, hu, trivial⟩, h⟩
    · rintro ⟨⟨u, hu, -⟩, h⟩
      exact ⟨u, hu, h⟩

/-- The invariant rule: what every step keeps holds behind the last one. -/
theorem yields_foldlM {inv : σ → Prop} {step : σ → α → Except ε σ} {l : List α} {s : σ} (hs : inv s)
    (hstep : ∀ a ∈ l, ∀ s, inv s → Yields (step s a) inv) : Yields (l.foldlM step s) inv := by
  induction l generalizing s with
  | nil => exact ⟨s, rfl, hs⟩
  | cons a l ih =>
    obtain ⟨hfirst, hrest⟩ := List.forall_mem_cons.mp hstep
    rw [List.foldlM_cons, yields_bind]
    exact (hfirst s hs).mono fun s' hs' => ih hs' hrest

end Sunshine.Outcomes
