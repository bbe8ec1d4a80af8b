import Mathlib.Data.List.Basic
import Mathlib.Data.List.Perm.Basic
import Sunshine.Lib.Outcomes

/-! Coalescing queues: the element at the front absorbs later ones.

`coalesce f a l` walks over `l` and asks `f` about each element: it is merged into the front, left where
it is, or ends the walk. `Coalesced merge q p` says that `p` comes from `q` by merging runs of neighbours
into the first of the run. `coalesce_walk` says what the front absorbs and what it leaves. `coalesceM` is the walk
with questions that may fail. -/
namespace Sunshine.Coalesce
open Outcomes
set_option autoImplicit false

variable {α κ : Type}

inductive Verdict (α : Type) where
  | batched (a : α)
  | notBatchable
  | terminateBatch

def coalesce (f : α → α → Verdict α) (a : α) : List α → α × List α
  | [] => (a, [])
  | b :: l =>
    match f a b with
    | .terminateBatch => (a, b :: l)
    | .batched c => coalesce f c l
    | .notBatchable => ((coalesce f a l).1, b :: (coalesce f a l).2)

/-- The elements of `l`, one after the other, are merged into `a` and give `c`. -/
inductive Absorbs (merge : α → α → α → Prop) : α → List α → α → Prop
  | nil (a : α) : Absorbs merge a [] a
  | cons {a b c d : α} {l : List α} : merge a b c → Absorbs merge c l d → Absorbs merge a (b :: l) d

inductive Coalesced (merge : α → α → α → Prop) : List α → List α → Prop
  | nil : Coalesced merge [] []
  | cons {a c : α} {l q p : List α} : Absorbs merge a l c → Coalesced merge q p →
      Coalesced merge (a :: (l ++ q)) (c :: p)

section Relations

variable {merge : α → α → α → Prop}

theorem Coalesced.refl (q : List α) : Coalesced merge q q := by
  induction q with
  | nil => exact .nil
  | cons a q ih => exact .cons (.nil a) ih

theorem Coalesced.append {q p q' p' : List α} (h : Coalesced merge q p) (h' : Coalesced merge q' p') :
    Coalesced merge (q ++ q') (p ++ p') := by
  induction h with
  | nil => exact h'
  | cons habsorbs _ ih =>
    rw [List.cons_append, List.cons_append, List.append_assoc]
    exact .cons habsorbs ih

theorem Coalesced.snoc {q p l : List α} {a c : α} (h : Coalesced merge q p) (habsorbs : Absorbs merge a l c) :
    Coalesced merge (q ++ a :: l) (p ++ [c]) := by
  have hlast := Coalesced.cons habsorbs (.nil : Coalesced merge [] [])
  rw [List.append_nil] at hlast
  exact h.append hlast

end Relations

/-- What is merged may be looked at through a map. -/
theorem Absorbs.map {β : Type} {merge : α → α → α → Prop} {merge' : β → β → β → Prop} {g : α → β}
    (hmerge : ∀ a b c, merge a b c → merge' (g a) (g b) (g c)) {a c : α} {l : List α}
    (h : Absorbs merge a l c) : Absorbs merge' (g a) (l.map g) (g c) := by
  induction h with
  | nil a => exact .nil (g a)
  | cons hfirst _ ih => exact .cons (hmerge _ _ _ hfirst) ih

/-! ## The walk -/

/-- `f` merges inside a class of `key`, by `merge`, and leaves other classes where they are; what it does
not end at is `near` the front. -/
structure Respects (f : α → α → Verdict α) (key : α → κ) (merge : α → α → α → Prop)
    (near : α → α → Prop) : Prop where
  batched : ∀ {a b c : α}, f a b = .batched c →
    key b = key a ∧ key c = key a ∧ merge a b c ∧ near a b ∧ ∀ x, near c x → near a x
  notBatchable : ∀ {a b : α}, f a b = .notBatchable → key b ≠ key a ∧ near a b

/-- The front walks over some first elements, absorbs those of its class and leaves the others. -/
theorem coalesce_walk [DecidableEq κ] {f : α → α → Verdict α} {key : α → κ} {merge : α → α → α → Prop}
    {near : α → α → Prop} (h : Respects f key merge near) (a : α) (l : List α) :
    ∃ walked rest, l = walked ++ rest ∧
      Absorbs merge a (walked.filter (key · = key a)) (coalesce f a l).1 ∧
      (coalesce f a l).2 = walked.filter (key · ≠ key a) ++ rest ∧ ∀ b ∈ walked, near a b := by
  fun_induction coalesce f a l with
  | case1 a => exact ⟨[], [], rfl, .nil a, rfl, nofun⟩
  | case2 a b l _ => exact ⟨[], b :: l, rfl, .nil a, rfl, nofun⟩
  | case3 a b l c hbatched ih =>
    obtain ⟨hkey, hfront, hmerge, hnear, hmono⟩ := h.batched hbatched
    rw [hfront] at ih
    obtain ⟨walked, rest, rfl, habsorbs, hleft, hwalked⟩ := ih
    refine ⟨b :: walked, rest, rfl, ?_, ?_, ?_⟩
    · rw [List.filter_cons_of_pos (by simpa using hkey)]
      exact .cons hmerge habsorbs
    · rw [List.filter_cons_of_neg (by simpa using hkey), hleft]
    · exact List.forall_mem_cons.mpr ⟨hnear, fun x hx => hmono x (hwalked x hx)⟩
  | case4 a b l hskipped ih =>
    obtain ⟨hkey, hnear⟩ := h.notBatchable hskipped
    obtain ⟨walked, rest, rfl, habsorbs, hleft, hwalked⟩ := ih
    refine ⟨b :: walked, rest, rfl, ?_, ?_, List.forall_mem_cons.mpr ⟨hnear, hwalked⟩⟩
    · rwa [List.filter_cons_of_neg (by simpa using hkey)]
    · rw [List.filter_cons_of_pos (by simpa using hkey), hleft, List.cons_append]

/-- What no merge gives is at the front unmerged. -/
theorem coalesce_front {f : α → α → Verdict α} {P : α → Prop}
    (h : ∀ a b c, f a b = .batched c → ¬P c) (a : α) (l : List α) (hP : P (coalesce f a l).1) :
    (coalesce f a l).1 = a := by
  fun_induction coalesce f a l with
  | case1 a => rfl
  | case2 a b l _ => rfl
  | case3 a b l c hbatched ih =>
    rw [ih hP] at hP
    exact absurd hP (h a b c hbatched)
  | case4 a b l _ ih => exact ih hP

/-! ## Questions that may fail -/

def coalesceM {ε : Type} (f : α → α → Except ε (Verdict α)) (a : α) : List α → Except ε (α × List α)
  | [] => pure (a, [])
  | b :: l => do
    match ← f a b with
    | .terminateBatch => pure (a, b :: l)
    | .batched c => coalesceM f c l
    | .notBatchable => do
      let r ← coalesceM f a l
      pure (r.1, b :: r.2)

/-- Among good elements no question fails, and those that are left are good. -/
theorem yields_coalesceM {ε : Type} {f : α → α → Except ε (Verdict α)} {good : α → Prop}
    (hf : ∀ a b, good a → good b → Yields (f a b) fun verdict => ∀ c, verdict = .batched c → good c)
    {a : α} {l : List α} (ha : good a) (hl : ∀ b ∈ l, good b) :
    Yields (coalesceM f a l) fun r => good r.1 ∧ ∀ b ∈ r.2, good b := by
  induction l generalizing a with
  | nil => exact yields_pure.mpr ⟨ha, nofun⟩
  | cons b l ih =>
    obtain ⟨hb, hl⟩ := List.forall_mem_cons.mp hl
    rw [coalesceM, yields_bind]
    refine (hf a b ha hb).mono fun verdict hverdict => ?_
    cases verdict with
    | terminateBatch => exact yields_pure.mpr ⟨ha, List.forall_mem_cons.mpr ⟨hb, hl⟩⟩
    | batched c => exact ih (hverdict c rfl) hl
    | notBatchable =>
      rw [yields_bind]
      exact (ih ha hl).mono fun r hr => yields_pure.mpr ⟨hr.1, List.forall_mem_cons.mpr ⟨hb, hr.2⟩⟩

end Sunshine.Coalesce
