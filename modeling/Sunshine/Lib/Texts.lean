import Mathlib.Data.Int.Notation
import Mathlib.Data.List.Basic
import Mathlib.Data.List.DropRight
import Mathlib.Data.List.TakeWhile

/-! Searching a text for another one, splitting it at a separator and reading decimal integers the way `std::search`,
`std::getline` and `std::from_chars` do. -/
namespace Sunshine.Texts
set_option autoImplicit false

/-- The first place where `needle` starts. -/
def search {α : Type} [DecidableEq α] (needle : List α) : List α → Option ℕ
  | [] => if needle = [] then some 0 else none
  | a :: l => if needle.isPrefixOf (a :: l) then some 0 else (search needle l).map (· + 1)

/-- `std::getline` up to the end: nothing behind a separator at the end. -/
def getlines {α : Type} [DecidableEq α] (separator : α) : List α → List (List α)
  | [] => []
  | a :: rest =>
    if a = separator then [] :: getlines separator rest
    else
      match getlines separator rest with
      | [] => [[a]]
      | segment :: segments => (a :: segment) :: segments

theorem getlines_empty {α : Type} [DecidableEq α] (separator : α) : getlines separator [] = [] := rfl

theorem getlines_step {α : Type} [DecidableEq α] (separator a : α) (rest : List α) :
    getlines separator (a :: rest) =
      if a = separator then [] :: getlines separator rest
      else
        match getlines separator rest with
        | [] => [[a]]
        | segment :: segments => (a :: segment) :: segments := rfl

theorem getlines_sublist {α : Type} [DecidableEq α] (separator : α) (text : List α) :
    ∀ segment ∈ getlines separator text, segment.Sublist text := by
  induction text with
  | nil => simp [getlines_empty]
  | cons ch rest ih =>
    rw [getlines_step]
    split
    · intro segment mem
      rcases List.mem_cons.mp mem with rfl | later
      · exact List.nil_sublist _
      · exact (ih segment later).cons ch
    · cases segments : getlines separator rest with
      | nil => simp
      | cons first more =>
        intro segment mem
        rcases List.mem_cons.mp mem with rfl | later
        · exact (ih first (by simp [segments])).cons_cons ch
        · exact (ih segment (by simp [segments, later])).cons ch

/-- The first of several segments stands in front of the first separator. -/
theorem getlines_cons {α : Type} [DecidableEq α] (separator : α) (text first second : List α) (more : List (List α))
    (segments : getlines separator text = first :: second :: more) :
    separator ∉ first ∧ ∃ rest, text = first ++ separator :: rest ∧ getlines separator rest = second :: more := by
  induction text generalizing first with
  | nil => simp [getlines_empty] at segments
  | cons ch text ih =>
    rw [getlines_step] at segments
    by_cases same : ch = separator
    · rw [if_pos same, List.cons.injEq] at segments
      exact ⟨by simp [← segments.1], text, by simp [← segments.1, same], segments.2⟩
    · rw [if_neg same] at segments
      cases rest : getlines separator text with
      | nil => simp [rest] at segments
      | cons front others =>
        rw [rest] at segments
        simp only [List.cons.injEq] at segments
        obtain ⟨rfl, rfl⟩ := segments
        obtain ⟨plain, behind, split, later⟩ := ih front rest
        refine ⟨?_, behind, by rw [split, List.cons_append], later⟩
        rw [List.mem_cons, not_or]
        exact ⟨fun eq => same eq.symm, plain⟩

theorem getlines_append {α : Type} [DecidableEq α] {separator : α} {item : List α} (plain : separator ∉ item)
    (rest : List α) : getlines separator (item ++ separator :: rest) = item :: getlines separator rest := by
  induction item with
  | nil => exact if_pos rfl
  | cons ch item ih =>
    rw [List.mem_cons, not_or] at plain
    rw [List.cons_append, getlines_step, if_neg fun same => plain.1 same.symm, ih plain.2]

theorem getlines_last {α : Type} [DecidableEq α] {separator : α} {item : List α} (plain : separator ∉ item)
    (some : item ≠ []) : getlines separator item = [item] := by
  induction item with
  | nil => exact absurd rfl some
  | cons ch item ih =>
    rw [List.mem_cons, not_or] at plain
    rw [getlines_step, if_neg fun same => plain.1 same.symm]
    by_cases last : item = []
    · rw [last, getlines_empty]
    · rw [ih plain.2 last]

/-- The segments in front of a separator are those of the text that ends there. -/
theorem getlines_split {α : Type} [DecidableEq α] {separator : α} (front rest : List α) :
    getlines separator (front ++ separator :: rest) =
      getlines separator (front ++ [separator]) ++ getlines separator rest := by
  induction front with
  | nil => simp [getlines_step, getlines_empty]
  | cons ch front ih =>
    rw [List.cons_append, List.cons_append, getlines_step, getlines_step]
    by_cases same : ch = separator
    · rw [if_pos same, if_pos same, ih, List.cons_append]
    · rw [if_neg same, if_neg same, ih]
      cases segments : getlines separator (front ++ [separator]) with
      | nil =>
        have lost : getlines separator (front ++ [separator]) ≠ [] := by
          cases front with
          | nil => simp [getlines_step]
          | cons other front =>
            rw [List.cons_append, getlines_step]
            split
            · simp
            · split <;> simp
        exact absurd segments lost
      | cons segment more => rfl

/-- Equality that does not tell upper case from lower case. -/
def iequals (a b : List Char) : Bool := a.map Char.toLower = b.map Char.toLower

def isDigit (ch : Char) : Bool := '0' ≤ ch ∧ ch ≤ '9'

def digitsValue (digits : List Char) : ℕ :=
  digits.foldl (fun value ch => value * 10 + (ch.toNat - '0'.toNat)) 0

/-- A value with what comes behind it, if it lies between `low` and `high`. -/
def inRange (low high value : ℤ) (rest : List Char) : Option (ℤ × List Char) :=
  if low ≤ value ∧ value ≤ high then some (value, rest) else none

/-- The integer at the start of a text. -/
def fromChars (low high : ℤ) (number : List Char) : Option (ℤ × List Char) :=
  let unsigned := if number.head? = some '-' then number.tail else number
  let digits := unsigned.takeWhile isDigit
  let sign : ℤ := if number.head? = some '-' then -1 else 1
  if digits = [] then none
  else inRange low high (sign * digitsValue digits) (unsigned.dropWhile isDigit)

/-! ## Decimal numerals -/

theorem isDigit_toDigits {n : ℕ} {ch : Char} (h : ch ∈ Nat.toDigits 10 n) : isDigit ch = true := by
  obtain ⟨hlower, hupper⟩ := (Bool.and_eq_true _ _).mp (Nat.isDigit_of_mem_toDigits (by decide) (by decide) h)
  exact decide_eq_true ⟨of_decide_eq_true hlower, of_decide_eq_true hupper⟩

theorem digitsValue_toDigits (n : ℕ) : digitsValue (Nat.toDigits 10 n) = n := by
  have hvalue : Nat.ofDigitChars 10 (Nat.toDigits 10 n) 0 = n := Nat.ofDigitChars_ten_toDigits
  rw [Nat.ofDigitChars_eq_foldl] at hvalue
  simp only [Nat.mul_comm 10] at hvalue
  exact hvalue

theorem toDigits_injective : Function.Injective (Nat.toDigits 10) :=
  Function.LeftInverse.injective digitsValue_toDigits

/-- A numeral in the range is read back. -/
theorem fromChars_toDigits {low high : ℤ} {n : ℕ} (hlow : low ≤ n) (hhigh : n ≤ high) :
    fromChars low high (Nat.toDigits 10 n) = some ((n : ℤ), []) := by
  have hhead : (Nat.toDigits 10 n).head? ≠ some '-' := fun hhead =>
    absurd (isDigit_toDigits (List.mem_of_head? hhead)) (by decide)
  have htake : (Nat.toDigits 10 n).takeWhile isDigit = Nat.toDigits 10 n :=
    List.takeWhile_eq_self_iff.mpr fun _ => isDigit_toDigits
  have hdrop : (Nat.toDigits 10 n).dropWhile isDigit = [] := List.dropWhile_eq_nil_iff.mpr fun _ => isDigit_toDigits
  unfold fromChars
  simp only [if_neg hhead, htake, hdrop, if_neg Nat.toDigits_ne_nil, digitsValue_toDigits, Int.one_mul]
  exact if_pos ⟨hlow, hhigh⟩

theorem search_step {α : Type} [DecidableEq α] (needle : List α) (a : α) (l : List α) :
    search needle (a :: l) = if needle.isPrefixOf (a :: l) then some 0 else (search needle l).map (· + 1) := rfl

theorem search_split {α : Type} [DecidableEq α] {needle text : List α} {place : ℕ} (h : search needle text = some place) :
    text = text.take place ++ (needle ++ text.drop (place + needle.length)) := by
  induction text generalizing place with
  | nil =>
    rw [search] at h
    split_ifs at h with hneedle
    rw [hneedle]
    simp
  | cons a l ih =>
    rw [search_step] at h
    split_ifs at h with hpre
    · obtain ⟨rest, hrest⟩ := List.isPrefixOf_iff_prefix.mp hpre
      obtain rfl := Option.some.inj h
      rw [← hrest, Nat.zero_add, List.drop_left, List.take_zero, List.nil_append]
    · obtain ⟨later, hlater, rfl⟩ := Option.map_eq_some_iff.mp h
      rw [Nat.add_right_comm, List.take_succ_cons, List.drop_succ_cons, List.cons_append, ← ih hlater]

/-- Behind a text without its first element, a needle is found at once. -/
theorem search_append {α : Type} [DecidableEq α] {a : α} {front : List α} (needle rest : List α) (h : a ∉ front) :
    search (a :: needle) (front ++ (a :: needle ++ rest)) = some front.length := by
  induction front with
  | nil => exact if_pos (List.isPrefixOf_iff_prefix.mpr (List.prefix_append (a :: needle) rest))
  | cons b front ih =>
    obtain ⟨hne, hfront⟩ := not_or.mp (List.mem_cons.not.mp h)
    have hpre : ¬(a :: needle).isPrefixOf (b :: (front ++ (a :: needle ++ rest))) = true := by
      rw [List.isPrefixOf_iff_prefix, List.cons_prefix_cons]
      exact fun hboth => hne hboth.1
    rw [List.cons_append, search_step, if_neg hpre, ih hfront]
    rfl

end Sunshine.Texts

/-! What `List.rdropWhile` does to joined lists, and a list trimmed at both ends. -/
namespace Sunshine.Trimming
set_option autoImplicit false

theorem rdropWhile_append {α : Type} (p : α → Bool) (a b : List α) (h : ∃ x ∈ b, p x = false) :
    (a ++ b).rdropWhile p = a ++ b.rdropWhile p := by
  obtain ⟨x, hx, hp⟩ := h
  have hne : (b.reverse.dropWhile p).isEmpty = false := by
    rw [List.isEmpty_eq_false_iff, ne_eq, List.dropWhile_eq_nil_iff]
    intro hall
    have htrue := hall x (List.mem_reverse.mpr hx)
    rw [hp] at htrue
    cases htrue
  unfold List.rdropWhile
  rw [List.reverse_append, List.dropWhile_append, hne, if_neg Bool.false_ne_true,
    List.reverse_append, List.reverse_reverse]

theorem rdropWhile_append_all {α : Type} (p : α → Bool) (a b : List α) (h : ∀ x ∈ b, p x = true) :
    (a ++ b).rdropWhile p = a.rdropWhile p := by
  unfold List.rdropWhile
  rw [List.reverse_append, List.dropWhile_append_of_pos fun x hx => h x (List.mem_reverse.mp hx)]

theorem rdropWhile_cons {α : Type} (p : α → Bool) (x : α) (b : List α) (h : p x = false) :
    (x :: b).rdropWhile p = x :: b.rdropWhile p := by
  by_cases hb : ∃ y ∈ b, p y = false
  · exact rdropWhile_append p [x] b hb
  · have hall : ∀ y ∈ b, p y = true := by
      intro y hy
      by_contra hny
      exact hb ⟨y, hy, Bool.eq_false_iff.mpr hny⟩
    have hsingle := rdropWhile_append_all p [x] b hall
    rw [List.singleton_append, List.rdropWhile_singleton, if_neg (by rw [h]; nofun)] at hsingle
    rw [hsingle, List.rdropWhile_eq_nil_iff.mpr hall]

/-- What does not start or end with what is dropped comes back. -/
theorem trim_around {α : Type} (p : α → Bool) {before body behind : List α}
    (hbefore : ∀ x ∈ before, p x = true) (hbehind : ∀ x ∈ behind, p x = true)
    (hhead : ∀ x ∈ body.head?, p x = false) (hlast : ∀ x ∈ body.getLast?, p x = false) :
    ((before ++ body ++ behind).dropWhile p).rdropWhile p = body := by
  rw [List.append_assoc, List.dropWhile_append_of_pos hbefore]
  cases body with
  | nil =>
    rw [List.nil_append, List.dropWhile_eq_nil_iff.mpr hbehind, List.rdropWhile_nil]
  | cons first rest =>
    have hfirst : ¬p first = true := by
      rw [hhead first rfl]
      exact Bool.false_ne_true
    rw [List.cons_append, List.dropWhile_cons_of_neg hfirst, ← List.cons_append, rdropWhile_append_all p _ _ hbehind,
      List.rdropWhile_eq_self_iff]
    intro hne
    rw [hlast _ (List.getLast?_eq_getLast_of_ne_nil hne)]
    exact Bool.false_ne_true

end Sunshine.Trimming
