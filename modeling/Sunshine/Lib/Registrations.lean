import Mathlib.Data.List.Nodup
import Mathlib.Logic.Function.Basic
import Mathlib.Tactic.Common

/-! A table of owners whose registrations and removals are carried out later, in the order raised.

`joined` and `left` say what each owner has raised so far. While no owner registers under a key that another one holds,
each removal finds the entry of its own owner, and an owner that has joined and not left is in the table or still to be
entered. -/
namespace Sunshine.Registrations
set_option autoImplicit false

variable {ι κ : Type*}

inductive Change (ι κ : Type*) where
  | register (i : ι) (k : κ)
  | remove (i : ι) (k : κ)
  deriving DecidableEq

structure Table (joined left : ι → κ → Prop) (queue : List (Change ι κ)) (entry : κ → Option ι) : Prop where
  nodup : queue.Nodup
  registers : ∀ i k, .register i k ∈ queue → joined i k ∧ entry k ≠ some i
  removes : ∀ front back i k, queue = front ++ .remove i k :: back →
    left i k ∧ (entry k = some i ∨ .register i k ∈ front)
  entries : ∀ i k, entry k = some i → joined i k
  stays : ∀ i k, joined i k → ¬left i k → entry k = some i ∨ .register i k ∈ queue

namespace Table

variable {joined joined' left left' : ι → κ → Prop} {queue : List (Change ι κ)} {entry : κ → Option ι} {i : ι} {k : κ}

theorem empty (hjoined : ∀ i k, ¬joined i k) : Table joined left [] fun _ => none := by
  refine ⟨List.nodup_nil, ?_, ?_, ?_, fun i k hi => absurd hi (hjoined i k)⟩
  · intro i k hmem
    cases hmem
  · intro front back i k hsplit
    simp at hsplit
  · intro i k hentry
    cases hentry

theorem left_of_mem (h : Table joined left queue entry) (hmem : .remove i k ∈ queue) : left i k := by
  obtain ⟨front, back, hsplit⟩ := List.append_of_mem hmem
  exact (h.removes front back i k hsplit).1

theorem of_iff (h : Table joined left queue entry) (hjoined : ∀ i k, joined' i k ↔ joined i k)
    (hleft : ∀ i k, left' i k ↔ left i k) : Table joined' left' queue entry := by
  have heq : joined' = joined := funext fun i => funext fun k => propext (hjoined i k)
  have heq' : left' = left := funext fun i => funext fun k => propext (hleft i k)
  rw [heq, heq']
  exact h

theorem register (h : Table joined left queue entry) (hnew : ¬joined i k)
    (hjoined : ∀ j l, joined' j l ↔ joined j l ∨ j = i ∧ l = k) :
    Table joined' left (queue ++ [.register i k]) entry := by
  have hkeep : ∀ j l, joined j l → joined' j l := fun j l hj => (hjoined j l).mpr (.inl hj)
  constructor
  · refine List.nodup_append.mpr ⟨h.nodup, List.nodup_singleton _, fun a ha b hb heq => ?_⟩
    rw [heq, List.mem_singleton.mp hb] at ha
    exact hnew (h.registers i k ha).1
  · intro j l hmem
    rcases List.mem_append.mp hmem with hold | hlast
    · exact ⟨hkeep j l (h.registers j l hold).1, (h.registers j l hold).2⟩
    · obtain ⟨rfl, rfl⟩ := Change.register.inj (List.mem_singleton.mp hlast)
      exact ⟨(hjoined j l).mpr (.inr ⟨rfl, rfl⟩), fun hentry => hnew (h.entries j l hentry)⟩
  · intro front back j l hsplit
    cases List.eq_nil_or_concat' back with
    | inl hnil =>
      rw [hnil] at hsplit
      cases (List.cons.inj (List.append_inj_right' hsplit rfl)).1
    | inr hconcat =>
      obtain ⟨rest, x, rfl⟩ := hconcat
      rw [← List.cons_append, ← List.append_assoc] at hsplit
      exact h.removes front rest j l (List.append_inj_left' hsplit rfl)
  · intro j l hentry
    exact hkeep j l (h.entries j l hentry)
  · intro j l hj hleft
    rcases (hjoined j l).mp hj with hold | ⟨rfl, rfl⟩
    · exact (h.stays j l hold hleft).imp_right fun hmem => List.mem_append_left _ hmem
    · exact .inr (List.mem_append_right _ List.mem_cons_self)

theorem remove (h : Table joined left queue entry) (hin : joined i k) (hnew : ¬left i k)
    (hleft : ∀ j l, left' j l ↔ left j l ∨ j = i ∧ l = k) :
    Table joined left' (queue ++ [.remove i k]) entry := by
  constructor
  · refine List.nodup_append.mpr ⟨h.nodup, List.nodup_singleton _, fun a ha b hb heq => ?_⟩
    rw [heq, List.mem_singleton.mp hb] at ha
    exact hnew (h.left_of_mem ha)
  · intro j l hmem
    rcases List.mem_append.mp hmem with hold | hlast
    · exact h.registers j l hold
    · cases List.mem_singleton.mp hlast
  · intro front back j l hsplit
    cases List.eq_nil_or_concat' back with
    | inl hnil =>
      rw [hnil] at hsplit
      have hlast := List.append_inj_right' hsplit rfl
      obtain ⟨rfl, rfl⟩ := Change.remove.inj (List.cons.inj hlast).1
      rw [← List.append_inj_left' hsplit rfl]
      exact ⟨(hleft i k).mpr (.inr ⟨rfl, rfl⟩), h.stays i k hin hnew⟩
    | inr hconcat =>
      obtain ⟨rest, x, rfl⟩ := hconcat
      rw [← List.cons_append, ← List.append_assoc] at hsplit
      obtain ⟨hold, hfound⟩ := h.removes front rest j l (List.append_inj_left' hsplit rfl)
      exact ⟨(hleft j l).mpr (.inl hold), hfound⟩
  · exact h.entries
  · intro j l hj hstays
    have hold : ¬left j l := fun hl => hstays ((hleft j l).mpr (.inl hl))
    exact (h.stays j l hj hold).imp_right fun hmem => List.mem_append_left _ hmem

section Drain

variable [DecidableEq κ]

theorem drain_register (h : Table joined left (.register i k :: queue) entry) (hfree : entry k = none) :
    Table joined left queue (Function.update entry k (some i)) := by
  obtain ⟨hnot, hnodup⟩ := List.nodup_cons.mp h.nodup
  have hkeep : ∀ j l, entry l = some j → Function.update entry k (some i) l = some j := by
    intro j l hentry
    rw [Function.update_of_ne, hentry]
    rintro rfl
    rw [hfree] at hentry
    cases hentry
  constructor
  · exact hnodup
  · intro j l hmem
    obtain ⟨hjoined, hentry⟩ := h.registers j l (List.mem_cons_of_mem _ hmem)
    refine ⟨hjoined, fun hupdate => ?_⟩
    by_cases hl : l = k
    · subst hl
      rw [Function.update_self, Option.some.injEq] at hupdate
      exact hnot (hupdate ▸ hmem)
    · rw [Function.update_of_ne hl] at hupdate
      exact hentry hupdate
  · intro front back j l hsplit
    obtain ⟨hleft, hfound⟩ := h.removes (.register i k :: front) back j l (congrArg (List.cons _) hsplit)
    refine ⟨hleft, ?_⟩
    rcases hfound with hentry | hmem
    · exact .inl (hkeep j l hentry)
    · rcases List.mem_cons.mp hmem with heq | hmem
      · obtain ⟨rfl, rfl⟩ := Change.register.inj heq
        exact .inl (Function.update_self ..)
      · exact .inr hmem
  · intro j l hupdate
    by_cases hl : l = k
    · subst hl
      rw [Function.update_self, Option.some.injEq] at hupdate
      exact hupdate ▸ (h.registers i l List.mem_cons_self).1
    · rw [Function.update_of_ne hl] at hupdate
      exact h.entries j l hupdate
  · intro j l hj hleft
    rcases h.stays j l hj hleft with hentry | hmem
    · exact .inl (hkeep j l hentry)
    · rcases List.mem_cons.mp hmem with heq | hmem
      · obtain ⟨rfl, rfl⟩ := Change.register.inj heq
        exact .inl (Function.update_self ..)
      · exact .inr hmem

/-- A removal erases the entry of its own owner. -/
theorem drain_remove (h : Table joined left (.remove i k :: queue) entry) :
    entry k = some i ∧ Table joined left queue (Function.update entry k none) := by
  obtain ⟨hnot, hnodup⟩ := List.nodup_cons.mp h.nodup
  obtain ⟨hi, hfound⟩ := h.removes [] queue i k rfl
  have hentry : entry k = some i := hfound.resolve_right (List.not_mem_nil)
  refine ⟨hentry, hnodup, ?_, ?_, ?_, ?_⟩
  · intro j l hmem
    obtain ⟨hjoined, hne⟩ := h.registers j l (List.mem_cons_of_mem _ hmem)
    refine ⟨hjoined, fun hupdate => ?_⟩
    by_cases hl : l = k
    · rw [hl, Function.update_self] at hupdate
      cases hupdate
    · rw [Function.update_of_ne hl] at hupdate
      exact hne hupdate
  · intro front back j l hsplit
    obtain ⟨hleft, hfound⟩ := h.removes (.remove i k :: front) back j l (congrArg (List.cons _) hsplit)
    refine ⟨hleft, ?_⟩
    rcases hfound with hother | hmem
    · have hl : l ≠ k := by
        rintro rfl
        rw [hentry, Option.some.injEq] at hother
        rw [hother, hsplit] at hnot
        exact hnot (List.mem_append_right _ List.mem_cons_self)
      rw [Function.update_of_ne hl]
      exact .inl hother
    · exact .inr ((List.mem_cons.mp hmem).resolve_left (by simp))
  · intro j l hupdate
    by_cases hl : l = k
    · rw [hl, Function.update_self] at hupdate
      cases hupdate
    · rw [Function.update_of_ne hl] at hupdate
      exact h.entries j l hupdate
  · intro j l hj hleft
    rcases h.stays j l hj hleft with hother | hmem
    · have hl : l ≠ k := by
        rintro rfl
        rw [hentry, Option.some.injEq] at hother
        exact hleft (hother ▸ hi)
      rw [Function.update_of_ne hl]
      exact .inl hother
    · exact .inr ((List.mem_cons.mp hmem).resolve_left (by simp))

end Drain

end Table

end Sunshine.Registrations
