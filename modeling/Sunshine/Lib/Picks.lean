import Mathlib.Data.List.Nodup
import Mathlib.Tactic.Common

/-! A search that leaves out a number of items and takes the next good one, passing over those that lack something: for
which numbering of the good items it takes each under its own number. -/
namespace Sunshine.Picks
set_option autoImplicit false

inductive Status where
  | good
  | lacking
  | broken

variable {α : Type} (status : α → Status)

/-- What the search does with the item that it stops at. -/
def settle (a : α) (next : Option α) : Status → Option α
  | .good => some a
  | .lacking => next
  | .broken => none

/-- An item that lacks something is passed over; a broken one ends the search. -/
def pick : ℕ → List α → Option α
  | _, [] => none
  | skip + 1, _ :: rest => pick skip rest
  | 0, a :: rest => settle a (pick 0 rest) (status a)

/-- No other item stands before the named ones, except that items that lack something may stand before the last. -/
def Fits (items named : List α) : Prop :=
  ∃ front lost back rest, items = front ++ (lost ++ (back ++ rest)) ∧ named = front ++ back ∧ back.length ≤ 1 ∧
    ∀ a ∈ lost, status a = .lacking

variable {status} {items named : List α} {a : α}

theorem pick_append (front rest : List α) : pick status front.length (front ++ rest) = pick status 0 rest := by
  induction front with
  | nil => rfl
  | cons _ front ih => exact ih

theorem pick_good (h : status a = .good) (rest : List α) : pick status 0 (a :: rest) = some a := by
  rw [pick, h]
  rfl

theorem pick_lost {lost : List α} (h : ∀ b ∈ lost, status b = .lacking) (rest : List α) :
    pick status 0 (lost ++ rest) = pick status 0 rest := by
  induction lost with
  | nil => rfl
  | cons b lost ih =>
    rw [List.cons_append, pick, h b List.mem_cons_self]
    exact ih fun b hb => h b (List.mem_cons_of_mem _ hb)

/-- What is taken stands behind items that lack something. -/
theorem lost_of_pick (h : pick status 0 items = some a) :
    ∃ lost rest, items = lost ++ a :: rest ∧ ∀ b ∈ lost, status b = .lacking := by
  induction items with
  | nil => cases h
  | cons b items ih =>
    rw [pick] at h
    cases hb : status b with
    | good =>
      rw [hb] at h
      obtain rfl := Option.some.inj h
      exact ⟨[], items, rfl, fun _ hmem => (by cases hmem)⟩
    | lacking =>
      rw [hb] at h
      obtain ⟨lost, rest, rfl, hlost⟩ := ih h
      exact ⟨b :: lost, rest, rfl, List.forall_mem_cons.mpr ⟨hb, hlost⟩⟩
    | broken =>
      rw [hb] at h
      cases h

theorem fits_of_picks (hgood : ∀ a ∈ named, status a = .good) (hnodup : named.Nodup)
    (h : ∀ k < named.length, pick status k items = named[k]?) : Fits status items named := by
  induction named generalizing items with
  | nil => exact ⟨[], [], [], items, rfl, rfl, Nat.zero_le _, fun _ hmem => (by cases hmem)⟩
  | cons v named ih =>
    obtain ⟨lost, rest, rfl, hlost⟩ := lost_of_pick (h 0 (Nat.zero_lt_succ _))
    cases lost with
    | nil =>
      -- the item is named first, and the others are counted from it on
      obtain ⟨front, lost, back, rest', rfl, hnamed, hback, hlacking⟩ := ih
        (fun a ha => hgood a (List.mem_cons_of_mem _ ha)) hnodup.of_cons fun k hk => h (k + 1) (Nat.succ_lt_succ hk)
      exact ⟨v :: front, lost, back, rest', rfl, by rw [hnamed]; rfl, hback, hlacking⟩
    | cons b lost =>
      cases named with
      | nil => exact ⟨[], b :: lost, [v], rest, rfl, rfl, Nat.le_refl _, hlost⟩
      | cons w named =>
        -- one item later the same one is taken again
        have hsecond := h 1 (Nat.succ_lt_succ (Nat.zero_lt_succ _))
        have hpicked : pick status 1 (b :: lost ++ v :: rest) = some v := by
          show pick status 0 (lost ++ v :: rest) = some v
          rw [pick_lost fun b hb => hlost b (List.mem_cons_of_mem _ hb), pick_good (hgood v List.mem_cons_self)]
        have hsame : v = w := Option.some.inj (hpicked.symm.trans hsecond)
        rw [hsame] at hnodup
        exact absurd List.mem_cons_self (List.nodup_cons.mp hnodup).1

theorem picks_of_fits (hgood : ∀ a ∈ named, status a = .good) (h : Fits status items named) (k : ℕ)
    (hk : k < named.length) : pick status k items = named[k]? := by
  obtain ⟨front, lost, back, rest, rfl, rfl, hback, hlost⟩ := h
  by_cases hfront : k < front.length
  · -- counted among the items without a gap
    have hsplit : front = front.take k ++ front.get ⟨k, hfront⟩ :: front.drop (k + 1) := by
      rw [List.get_eq_getElem, List.getElem_cons_drop, List.take_append_drop]
    have hmem : front.get ⟨k, hfront⟩ ∈ front ++ back := List.mem_append_left _ (List.get_mem _ _)
    have hpick := @pick_append _ status (front.take k)
      (front.get ⟨k, hfront⟩ :: front.drop (k + 1) ++ (lost ++ (back ++ rest)))
    rw [List.length_take, Nat.min_eq_left (Nat.le_of_lt hfront), ← List.append_assoc, ← hsplit] at hpick
    rw [hpick, List.cons_append, pick_good (hgood _ hmem), List.getElem?_append_left hfront]
    exact (List.getElem?_eq_getElem hfront).symm
  · rw [List.length_append] at hk
    obtain rfl : k = front.length := by omega
    cases back with
    | nil => exact absurd hk (Nat.lt_irrefl _)
    | cons v back =>
      have hmem : v ∈ front ++ v :: back := List.mem_append_right _ List.mem_cons_self
      rw [pick_append, pick_lost hlost, List.cons_append, pick_good (hgood v hmem), List.getElem?_append_right (Nat.le_refl _),
        Nat.sub_self]
      rfl

/-- Each named item is taken under its own number if and only if the items fit. -/
theorem picks_iff (hgood : ∀ a ∈ named, status a = .good) (hnodup : named.Nodup) :
    (∀ k < named.length, pick status k items = named[k]?) ↔ Fits status items named :=
  ⟨fits_of_picks hgood hnodup, fun h k hk => picks_of_fits hgood h k hk⟩

end Sunshine.Picks
