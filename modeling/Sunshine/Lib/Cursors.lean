import Mathlib.Data.List.Basic

/-! Iterators into a text, as positions: reading at one, searching from one and copying between two.

A read outside the text is a fault, and so is a loop that takes more turns than it is given. Each rule is about a
position that is the length of what stands in front of it. -/
namespace Sunshine.Cursors
set_option autoImplicit false

inductive Fault where
  | outside
  | endless
  deriving DecidableEq, Repr

variable {α : Type} {front middle rest : List α} {a : α} {p : α → Bool}

def read (text : List α) (pos : ℕ) : Except Fault α :=
  match text[pos]? with
  | some a => .ok a
  | none => .error .outside

/-- What stands between two positions. -/
def copy (text : List α) (first last : ℕ) : Except Fault (List α) :=
  if first ≤ last ∧ last ≤ text.length then .ok ((text.take last).drop first) else .error .outside

/-- `std::find_if` over `n` elements from `pos` on. -/
def findIf (text : List α) (p : α → Bool) (pos : ℕ) : ℕ → Except Fault ℕ
  | 0 => .ok pos
  | n + 1 => do
    let a ← read text pos
    if p a then return pos else findIf text p (pos + 1) n

/-- `std::find_if` up to the end of the text. -/
def find (text : List α) (p : α → Bool) (pos : ℕ) : Except Fault ℕ := findIf text p pos (text.length - pos)

@[simp]
theorem ok_bind {ε β γ : Type} (b : β) (f : β → Except ε γ) : (.ok b >>= f) = f b := rfl

@[simp]
theorem error_bind {ε β γ : Type} (e : ε) (f : β → Except ε γ) : (.error e >>= f) = .error e := rfl

theorem read_here (front : List α) (a : α) (rest : List α) : read (front ++ a :: rest) front.length = .ok a := by
  unfold read
  rw [List.getElem?_append_right (Nat.le_refl _), Nat.sub_self]
  rfl

theorem copy_here (front middle rest : List α) :
    copy (front ++ (middle ++ rest)) front.length (front ++ middle).length = .ok middle := by
  unfold copy
  have hlength : front.length ≤ (front ++ middle).length ∧
      (front ++ middle).length ≤ (front ++ (middle ++ rest)).length := by
    simp only [List.length_append]
    omega
  rw [if_pos hlength, ← List.append_assoc, List.take_left, List.drop_left]

theorem copy_outside {text : List α} {first last : ℕ} (h : text.length < last) :
    copy text first last = .error .outside := if_neg fun hin => by omega

theorem findIf_here (n : ℕ) (hn : n ≤ rest.length) (front : List α) :
    findIf (front ++ rest) p front.length n =
      .ok (front ++ (rest.take n).takeWhile fun a => !p a).length := by
  induction n generalizing front rest with
  | zero => simp [findIf]
  | succ n ih =>
    cases rest with
    | nil => cases hn
    | cons a rest =>
      rw [findIf, read_here, ok_bind, List.take_succ_cons]
      cases ha : p a with
      | true =>
        rw [if_pos rfl, List.takeWhile_cons_of_neg (by simp [ha]), List.append_nil]
        rfl
      | false =>
        have hnext := ih (Nat.le_of_succ_le_succ hn) (front ++ [a])
        rw [List.append_assoc, List.singleton_append, List.length_append, List.length_singleton] at hnext
        rw [if_neg Bool.false_ne_true, hnext, List.takeWhile_cons_of_pos (by simp [ha]), List.append_assoc,
          List.singleton_append]

/-- The search stops in front of the first element with the property, or at the end. -/
theorem find_here (front rest : List α) (p : α → Bool) :
    find (front ++ rest) p front.length = .ok (front ++ rest.takeWhile fun a => !p a).length := by
  have hcount : (front ++ rest).length - front.length = rest.length := by
    rw [List.length_append, Nat.add_sub_cancel_left]
  rw [find, hcount, findIf_here _ (Nat.le_refl _), List.take_length]

/-- An element without the property is passed over. -/
theorem find_skip (front : List α) (rest : List α) (ha : p a = false) :
    find (front ++ a :: rest) p front.length = find (front ++ a :: rest) p (front ++ [a]).length := by
  have hskip := find_here (front ++ [a]) rest p
  rw [List.append_assoc, List.singleton_append] at hskip
  rw [find_here, hskip, List.takeWhile_cons_of_pos (by simp [ha]), List.append_assoc, List.singleton_append]

end Sunshine.Cursors
