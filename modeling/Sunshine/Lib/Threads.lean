import Mathlib.Data.List.Basic
import Mathlib.Algebra.Order.Ring.Nat
import Mathlib.Tactic.Common

/-! Threads over a shared state, with one mutex and one token that at most one thread has.

A thread is given by where it is. Its next access happens at once; one that `locks` waits until no other thread is
inside the mutex. -/
namespace Sunshine.Threads
set_option autoImplicit false

/-- One access of a thread: where it is behind it, the shared state, and the thread it creates. -/
structure Move (τ σ : Type) where
  thread : τ
  shared : σ
  child : Option τ

structure Program (τ σ ι : Type) where
  advance : ι → τ → σ → Move τ σ
  /-- The next access is made under the mutex. -/
  locks : τ → Bool
  /-- The mutex is held before the next access. -/
  inside : τ → Bool
  /-- The thread has the token. -/
  holds : τ → Bool
  taken : σ → Bool

structure State (τ σ : Type) where
  threads : List τ
  locked : Bool
  shared : σ
  deriving DecidableEq

variable {τ σ ι : Type} (p : Program τ σ ι)

def Program.Free (t : τ) (s : State τ σ) : Prop := p.locks t = true → p.inside t = true ∨ s.locked = false

instance (t : τ) (s : State τ σ) : Decidable (p.Free t s) := inferInstanceAs (Decidable (_ → _))

def Program.run (i : ℕ) (x : ι) (s : State τ σ) : State τ σ :=
  match s.threads[i]? with
  | none => s
  | some t =>
    let move := p.advance x t s.shared
    { threads := s.threads.set i move.thread ++ move.child.toList
      locked := if p.locks t then p.inside move.thread else s.locked
      shared := move.shared }

/-- What a step has to account for: a section of the mutex is entered and left by accesses under it, and the token is
where the shared state says. -/
structure Program.Accounts (t : τ) (g : σ) (move : Move τ σ) : Prop where
  locks_of_inside : p.inside t = true → p.locks t = true
  outside : p.locks t = false → p.inside move.thread = false
  child : ∀ c ∈ move.child, p.inside c = false
  token : (p.holds t).toNat + (p.taken move.shared).toNat =
    (p.holds move.thread).toNat + (move.child.elim false p.holds).toNat + (p.taken g).toNat

/-- The holders of the token and the threads inside the mutex, as the shared state and the mutex have them. -/
structure Program.Counted (s : State τ σ) : Prop where
  holder : s.threads.countP p.holds = (p.taken s.shared).toNat
  insider : s.threads.countP p.inside = s.locked.toNat

variable {p} {s : State τ σ} {t : τ} {front back : List τ}

theorem split_of_getElem {l : List τ} {i : ℕ} (h : l[i]? = some t) :
    ∃ front back, l = front ++ t :: back ∧ front.length = i := by
  obtain ⟨hi, hget⟩ := List.getElem?_eq_some_iff.mp h
  refine ⟨l.take i, l.drop (i + 1), ?_, List.length_take_of_le hi.le⟩
  rw [← hget, ← List.drop_eq_getElem_cons hi, List.take_append_drop]

theorem getElem_of_split {l : List τ} (hsplit : l = front ++ t :: back) : l[front.length]? = some t := by
  rw [hsplit, List.getElem?_append_right le_rfl, Nat.sub_self, List.getElem?_cons_zero]

theorem run_split (x : ι) (hsplit : s.threads = front ++ t :: back) :
    p.run front.length x s =
      { threads := front ++ (p.advance x t s.shared).thread :: back ++ (p.advance x t s.shared).child.toList
        locked := if p.locks t then p.inside (p.advance x t s.shared).thread else s.locked
        shared := (p.advance x t s.shared).shared } := by
  have hget := getElem_of_split hsplit
  have hset : s.threads.set front.length (p.advance x t s.shared).thread =
      front ++ (p.advance x t s.shared).thread :: back := by
    rw [hsplit, List.set_append_right _ _ le_rfl, Nat.sub_self, List.set_cons_zero]
  simp only [Program.run, hget, hset]

namespace Program.Counted

theorem taken_of_holds (h : p.Counted s) (ht : t ∈ s.threads) (hholds : p.holds t = true) : p.taken s.shared = true := by
  have hpos := List.countP_pos_iff.mpr ⟨t, ht, hholds⟩
  rw [h.holder] at hpos
  cases htaken : p.taken s.shared with
  | true => rfl
  | false => simp [htaken] at hpos

theorem not_holds (h : p.Counted s) (ht : t ∈ s.threads) (hfree : p.taken s.shared = false) : p.holds t = false := by
  cases hholds : p.holds t with
  | false => rfl
  | true =>
    have htaken := h.taken_of_holds ht hholds
    simp [hfree] at htaken

theorem countP_le_one (h : p.Counted s) : s.threads.countP p.holds ≤ 1 := by
  rw [h.holder]
  exact Bool.toNat_le _

/-- Where one thread is counted already, no other is. -/
theorem others {holds : τ → Bool} (hcount : (front ++ t :: back).countP holds ≤ 1) (hholds : holds t = true) :
    ∀ u ∈ front ++ back, holds u = false := by
  intro u hu
  rw [List.countP_append, List.countP_cons, if_pos hholds] at hcount
  have hnone : (front ++ back).countP holds = 0 := by
    rw [List.countP_append]
    omega
  simpa using List.countP_eq_zero.mp hnone u hu

theorem not_holds_others (h : p.Counted s) (hsplit : s.threads = front ++ t :: back) (hholds : p.holds t = true) :
    ∀ u ∈ front ++ back, p.holds u = false :=
  others (hsplit ▸ h.countP_le_one) hholds

theorem not_inside_others (h : p.Counted s) (hsplit : s.threads = front ++ t :: back)
    (hfree : p.Free t s) (hlocks : p.locks t = true) : ∀ u ∈ front ++ back, p.inside u = false := by
  rcases hfree hlocks with hinside | hunlocked
  · refine others (hsplit ▸ ?_) hinside
    rw [h.insider]
    exact Bool.toNat_le _
  · intro u hu
    have hzero := h.insider
    rw [hunlocked, Bool.toNat_false, List.countP_eq_zero, hsplit] at hzero
    have hmem : u ∈ front ++ t :: back := by
      rw [List.mem_append, List.mem_cons]
      exact (List.mem_append.mp hu).imp id .inr
    simpa using hzero u hmem

/-- The count behind a move. -/
theorem countP_move (front back : List τ) (t : τ) (q : τ → Bool) (move : Move τ σ) :
    (front ++ move.thread :: back ++ move.child.toList).countP q + (q t).toNat =
      (front ++ t :: back).countP q + (q move.thread).toNat + (move.child.elim false q).toNat := by
  cases move.child with
  | none =>
    simp only [Option.toList_none, List.append_nil, List.countP_append, List.countP_cons, Option.elim_none]
    cases q move.thread <;> cases q t <;> simp <;> omega
  | some c =>
    simp only [Option.toList_some, List.countP_append, List.countP_cons, List.countP_nil, Option.elim_some]
    cases q move.thread <;> cases q t <;> cases q c <;> simp <;> omega

theorem run (h : p.Counted s) (hsplit : s.threads = front ++ t :: back) (hfree : p.Free t s) (x : ι)
    (ha : p.Accounts t s.shared (p.advance x t s.shared)) : p.Counted (p.run front.length x s) := by
  have htoken := ha.token
  rw [run_split x hsplit]
  constructor
  · have hcount := countP_move front back t p.holds (p.advance x t s.shared)
    rw [← hsplit, h.holder] at hcount
    dsimp only
    omega
  · have hcount := countP_move front back t p.inside (p.advance x t s.shared)
    have hchild : ((p.advance x t s.shared).child.elim false p.inside) = false := by
      cases hc : (p.advance x t s.shared).child with
      | none => rfl
      | some c => exact ha.child c hc
    rw [← hsplit, h.insider, hchild, Bool.toNat_false, Nat.add_zero] at hcount
    dsimp only
    cases hlocks : p.locks t with
    | false =>
      have hout := ha.outside hlocks
      have hin : p.inside t = false := by
        cases hin : p.inside t with
        | false => rfl
        | true => simp [ha.locks_of_inside hin] at hlocks
      rw [hout, hin] at hcount
      simpa using hcount
    | true =>
      rw [if_pos rfl]
      rcases hfree hlocks with hin | hunlocked
      · have hlocked : s.locked = true := by
          have hpos : 0 < s.threads.countP p.inside := by
            rw [List.countP_pos_iff, hsplit]
            exact ⟨t, by simp, hin⟩
          rw [h.insider] at hpos
          cases hl : s.locked with
          | true => rfl
          | false => simp [hl] at hpos
        rw [hin, hlocked] at hcount
        simp only [Bool.toNat_true] at hcount
        omega
      · have hin : p.inside t = false := by
          have hzero := h.insider
          rw [hunlocked, Bool.toNat_false, List.countP_eq_zero] at hzero
          simpa using hzero t (by simp [hsplit])
        rw [hin, hunlocked] at hcount
        simpa using hcount

/-- A thread that begins has neither the token nor the mutex. -/
theorem call (h : p.Counted s) (hholds : p.holds t = false) (hinside : p.inside t = false) :
    p.Counted { s with threads := s.threads ++ [t] } := by
  constructor
  · show List.countP p.holds (s.threads ++ [t]) = _
    rw [List.countP_append, h.holder]
    simp [hholds]
  · show List.countP p.inside (s.threads ++ [t]) = _
    rw [List.countP_append, h.insider]
    simp [hinside]

/-- What holds of every thread is kept by a step if the step keeps it of the thread itself, of the one it creates,
and of every other that has not the token or the mutex that the step needs. -/
theorem each_run (h : p.Counted s) (hsplit : s.threads = front ++ t :: back) (hfree : p.Free t s)
    (x : ι) (L : τ → σ → Prop) (heach : ∀ u ∈ s.threads, L u s.shared)
    (hthread : L (p.advance x t s.shared).thread (p.advance x t s.shared).shared)
    (hchild : ∀ c ∈ (p.advance x t s.shared).child, L c (p.advance x t s.shared).shared)
    (hothers : ∀ u ∈ s.threads, L u s.shared → (p.holds t = true → p.holds u = false) →
      (p.locks t = true → p.inside u = false) → L u (p.advance x t s.shared).shared) :
    ∀ u ∈ (p.run front.length x s).threads, L u (p.run front.length x s).shared := by
  rw [run_split x hsplit]
  have hrest : ∀ u ∈ front ++ back, L u (p.advance x t s.shared).shared := by
    intro u hu
    have hmem : u ∈ s.threads := by
      rw [hsplit, List.mem_append, List.mem_cons]
      exact (List.mem_append.mp hu).imp id .inr
    exact hothers u hmem (heach u hmem) (fun hholds => h.not_holds_others hsplit hholds u hu)
      fun hlocks => h.not_inside_others hsplit hfree hlocks u hu
  intro u hu
  simp only [List.mem_append, List.mem_cons, Option.mem_toList] at hu
  rcases hu with (hu | rfl | hu) | hu
  · exact hrest u (List.mem_append_left _ hu)
  · exact hthread
  · exact hrest u (List.mem_append_right _ hu)
  · exact hchild u hu

end Program.Counted

end Sunshine.Threads
