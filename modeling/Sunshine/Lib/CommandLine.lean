import Mathlib.Data.List.Basic
import Mathlib.Data.Nat.Notation

/-! Microsoft's convention for reading the arguments off a command line, and cmd's caret in front of a character, over
any alphabet. A quoting is proved to be read back from the rules about `readFrom` and `Reads`. -/
namespace Sunshine.CommandLine
set_option autoImplicit false

/-- The characters the convention names. -/
structure Marks (α : Type) where
  quote : α
  backslash : α
  blank : α → Bool
  quote_ne : quote ≠ backslash
  blank_quote : blank quote = false
  blank_backslash : blank backslash = false

inductive Place where
  | between
  | plain
  | quoted
  | closed
  deriving DecidableEq

/-- Where a character of an argument leads. -/
def Place.inside : Place → Place
  | .between => .plain
  | .plain => .plain
  | .quoted => .quoted
  | .closed => .plain

/-- Where a quotation mark leads that opens or closes. -/
def Place.turned : Place → Place
  | .between => .quoted
  | .plain => .quoted
  | .quoted => .closed
  | .closed => .quoted

/-- A second quotation mark behind a closing one stands for itself, and the quotation goes on. -/
def Place.doubled {α : Type} (quote : α) : Place → List α
  | .between => []
  | .plain => []
  | .quoted => []
  | .closed => [quote]

section Reading
variable {α : Type} [DecidableEq α] (marks : Marks α)

/-- Reads on with `arg` read of an argument and `n` backslashes behind it that are not settled. -/
def readFrom (place : Place) (n : ℕ) (arg : List α) : List α → List (List α)
  | [] => if place = .between then [] else [arg ++ List.replicate n marks.backslash]
  | c :: rest =>
    if c = marks.backslash then readFrom place.inside (n + 1) arg rest
    else if c = marks.quote then
      if n % 2 = 1 then
        readFrom place.inside 0 (arg ++ List.replicate (n / 2) marks.backslash ++ [marks.quote]) rest
      else readFrom place.turned 0 (arg ++ List.replicate (n / 2) marks.backslash ++ place.doubled marks.quote) rest
    else if marks.blank c ∧ place ≠ .quoted then
      if place = .between then readFrom .between 0 [] rest
      else (arg ++ List.replicate n marks.backslash) :: readFrom .between 0 [] rest
    else readFrom place.inside 0 (arg ++ List.replicate n marks.backslash ++ [c]) rest

def split (text : List α) : List (List α) := readFrom marks .between 0 [] text

/-- An argument can end in front of `rest`. -/
def Ends (rest : List α) : Prop := ∀ c ∈ rest.head?, marks.blank c = true

variable {marks}

omit [DecidableEq α] in
theorem ne_of_blank {c : α} (h : marks.blank c = true) : c ≠ marks.backslash ∧ c ≠ marks.quote := by
  constructor
  · rintro rfl
    rw [marks.blank_backslash] at h
    cases h
  · rintro rfl
    rw [marks.blank_quote] at h
    cases h

theorem readFrom_nil (place : Place) (n : ℕ) (arg : List α) :
    readFrom marks place n arg [] = if place = .between then [] else [arg ++ List.replicate n marks.backslash] := rfl

theorem readFrom_cons (place : Place) (n : ℕ) (arg : List α) (c : α) (rest : List α) :
    readFrom marks place n arg (c :: rest) =
      if c = marks.backslash then readFrom marks place.inside (n + 1) arg rest
      else if c = marks.quote then
        if n % 2 = 1 then
          readFrom marks place.inside 0 (arg ++ List.replicate (n / 2) marks.backslash ++ [marks.quote]) rest
        else
          readFrom marks place.turned 0 (arg ++ List.replicate (n / 2) marks.backslash ++ place.doubled marks.quote) rest
      else if marks.blank c ∧ place ≠ .quoted then
        if place = .between then readFrom marks .between 0 [] rest
        else (arg ++ List.replicate n marks.backslash) :: readFrom marks .between 0 [] rest
      else readFrom marks place.inside 0 (arg ++ List.replicate n marks.backslash ++ [c]) rest := rfl

theorem split_nil : split marks [] = [] := rfl

theorem split_blank {c : α} (h : marks.blank c = true) (rest : List α) : split marks (c :: rest) = split marks rest := by
  unfold split
  rw [readFrom_cons, if_neg (ne_of_blank h).1, if_neg (ne_of_blank h).2, if_pos ⟨h, by decide⟩, if_pos rfl]

/-- At its end an argument is given out with the backslashes that are left. -/
theorem readFrom_ends {place : Place} (hbetween : place ≠ .between) (hquoted : place ≠ .quoted) (n : ℕ)
    (arg : List α) {rest : List α} (hrest : Ends marks rest) :
    readFrom marks place n arg rest = (arg ++ List.replicate n marks.backslash) :: split marks rest := by
  cases rest with
  | nil => rw [readFrom_nil, if_neg hbetween, split_nil]
  | cons c rest =>
    have hc : marks.blank c = true := hrest c rfl
    rw [readFrom_cons, if_neg (ne_of_blank hc).1, if_neg (ne_of_blank hc).2, if_pos ⟨hc, hquoted⟩, if_neg hbetween,
      split_blank hc]
    rfl

theorem readFrom_backslashes {place : Place} (hplace : place.inside = place) (n k : ℕ) (arg rest : List α) :
    readFrom marks place n arg (List.replicate k marks.backslash ++ rest) = readFrom marks place (n + k) arg rest := by
  induction k generalizing n with
  | zero => rfl
  | succ k ih =>
    rw [List.replicate_succ, List.cons_append, readFrom_cons, if_pos rfl, hplace, ih]
    congr 1
    omega

/-! ## Inside of a quotation -/

theorem readFrom_escaped (k : ℕ) (arg rest : List α) :
    readFrom marks .quoted 0 arg (List.replicate (2 * k + 1) marks.backslash ++ marks.quote :: rest) =
      readFrom marks .quoted 0 (arg ++ (List.replicate k marks.backslash ++ [marks.quote])) rest := by
  rw [readFrom_backslashes rfl, readFrom_cons, if_neg marks.quote_ne, if_pos rfl, if_pos (by omega),
    show (0 + (2 * k + 1)) / 2 = k by omega, List.append_assoc]
  rfl

theorem readFrom_closing (k : ℕ) (arg rest : List α) :
    readFrom marks .quoted 0 arg (List.replicate (2 * k) marks.backslash ++ marks.quote :: rest) =
      readFrom marks .closed 0 (arg ++ List.replicate k marks.backslash) rest := by
  rw [readFrom_backslashes rfl, readFrom_cons, if_neg marks.quote_ne, if_pos rfl, if_neg (by omega),
    show (0 + 2 * k) / 2 = k by omega, Place.doubled, List.append_nil, Place.turned]

theorem readFrom_ordinary {c : α} (hbackslash : c ≠ marks.backslash) (hquote : c ≠ marks.quote) (k : ℕ)
    (arg rest : List α) :
    readFrom marks .quoted 0 arg (List.replicate k marks.backslash ++ c :: rest) =
      readFrom marks .quoted 0 (arg ++ (List.replicate k marks.backslash ++ [c])) rest := by
  rw [readFrom_backslashes rfl, readFrom_cons, if_neg hbackslash, if_neg hquote, if_neg (fun h => h.2 rfl), Nat.zero_add,
    List.append_assoc]
  rfl

/-! ## Written arguments -/

/-- `text` is read as `args`, whatever may stand behind it. -/
def Reads (marks : Marks α) (text : List α) (args : List (List α)) : Prop :=
  ∀ rest, Ends marks rest → split marks (text ++ rest) = args ++ split marks rest

theorem reads_nil : Reads marks [] [] := fun _ _ => rfl

theorem readFrom_plain {text : List α} (htext : ∀ c ∈ text, c ≠ marks.quote ∧ marks.blank c = false) (n : ℕ)
    (arg : List α) {rest : List α} (hrest : Ends marks rest) :
    readFrom marks .plain n arg (text ++ rest) =
      (arg ++ List.replicate n marks.backslash ++ text) :: split marks rest := by
  induction text generalizing n arg with
  | nil => rw [List.nil_append, readFrom_ends (by decide) (by decide) n arg hrest, List.append_nil]
  | cons c text ih =>
    obtain ⟨⟨hquote, hblank⟩, htext⟩ := List.forall_mem_cons.mp htext
    rw [List.cons_append, readFrom_cons]
    by_cases hc : c = marks.backslash
    · rw [if_pos hc, Place.inside, ih htext, List.replicate_succ', hc]
      simp
    · rw [if_neg hc, if_neg hquote, if_neg (fun h => by rw [hblank] at h; cases h.1), Place.inside, ih htext]
      simp

/-- Without blanks and quotation marks a text is an argument as it is. -/
theorem reads_plain {text : List α} (htext : ∀ c ∈ text, c ≠ marks.quote ∧ marks.blank c = false)
    (hne : text ≠ []) : Reads marks text [text] := by
  intro rest hrest
  cases text with
  | nil => exact absurd rfl hne
  | cons c text =>
    obtain ⟨⟨hquote, hblank⟩, htext⟩ := List.forall_mem_cons.mp htext
    rw [split, List.cons_append, readFrom_cons]
    by_cases hc : c = marks.backslash
    · rw [if_pos hc, Place.inside, readFrom_plain htext _ _ hrest, hc]
      rfl
    · rw [if_neg hc, if_neg hquote, if_neg (fun h => by rw [hblank] at h; cases h.1), Place.inside,
        readFrom_plain htext _ _ hrest]
      rfl

theorem reads_quoted {body arg : List α}
    (hbody : ∀ rest, readFrom marks .quoted 0 [] (body ++ marks.quote :: rest) = readFrom marks .closed 0 arg rest) :
    Reads marks (marks.quote :: (body ++ [marks.quote])) [arg] := by
  intro rest hrest
  have hopen : split marks (marks.quote :: (body ++ [marks.quote]) ++ rest) =
      readFrom marks .quoted 0 [] (body ++ marks.quote :: rest) := by
    rw [split, List.cons_append, readFrom_cons, if_neg marks.quote_ne, if_pos rfl, if_neg (by decide),
      List.append_assoc body]
    rfl
  rw [hopen, hbody]
  rw [readFrom_ends (by decide) (by decide) 0 arg hrest, List.replicate_zero, List.append_nil]
  rfl

/-- Texts that are joined by a blank are read one after the other. -/
theorem split_intercalate {β : Type} {blank : α} (hblank : marks.blank blank = true) {write : β → List α}
    {back : β → List (List α)} (values : List β) (h : ∀ v ∈ values, Reads marks (write v) (back v)) :
    split marks ([blank].intercalate (values.map write)) = values.flatMap back := by
  induction values with
  | nil => rfl
  | cons v values ih =>
    obtain ⟨hv, hvalues⟩ := List.forall_mem_cons.mp h
    cases values with
    | nil =>
      have hlast := hv [] (by simp [Ends])
      rw [List.append_nil, split_nil] at hlast
      simpa using hlast
    | cons w values =>
      have hrest : Ends marks (blank :: [blank].intercalate ((w :: values).map write)) := by
        intro c hc
        obtain rfl := Option.some.inj hc
        exact hblank
      rw [List.map_cons, List.map_cons, List.intercalate_cons_cons, List.append_assoc, List.singleton_append,
        ← List.map_cons, hv _ hrest, split_blank hblank, ih hvalues]
      rfl

end Reading

/-- A list comes back if each of its members does. -/
theorem flatMap_eq_self_iff {α : Type} {back : α → List α} (hback : ∀ a, (back a).length ≤ 1) (l : List α) :
    l.flatMap back = l ↔ ∀ a ∈ l, back a = [a] := by
  have hlength : ∀ l : List α, (l.flatMap back).length ≤ l.length := by
    intro l
    induction l with
    | nil => exact Nat.le_refl 0
    | cons a l ih =>
      have ha := hback a
      rw [List.flatMap_cons, List.length_append, List.length_cons]
      omega
  induction l with
  | nil => simp
  | cons a l ih =>
    have ih' : l.flatMap back = l ↔ ∀ a ∈ l, back a = [a] := ih
    rw [List.flatMap_cons, List.forall_mem_cons, ← ih']
    constructor
    · intro h
      cases hb : back a with
      | nil =>
        have hshort := hlength l
        rw [hb, List.nil_append] at h
        rw [h, List.length_cons] at hshort
        omega
      | cons x more =>
        have hone := hback a
        rw [hb, List.length_cons] at hone
        obtain rfl : more = [] := List.eq_nil_of_length_eq_zero (by omega)
        rw [hb, List.singleton_append, List.cons.injEq] at h
        exact ⟨by rw [h.1], h.2⟩
    · rintro ⟨ha, hl⟩
      rw [ha, hl, List.singleton_append]

/-! ## Carets -/

section Carets
variable {α : Type} [DecidableEq α] (caret : α) (special : α → Bool)

/-- Drops each caret that escapes; `escaped` says that one stands in front. -/
def unescape (escaped : Bool) : List α → List α
  | [] => []
  | c :: rest =>
    if escaped = false ∧ c = caret then unescape true rest else c :: unescape false rest

/-- The characters that no caret escapes, without the carets that do. -/
def bare (escaped : Bool) : List α → List α
  | [] => []
  | c :: rest =>
    if escaped = true then bare false rest else if c = caret then bare true rest else c :: bare false rest

def caretEscape (text : List α) : List α := text.flatMap fun c => if special c then [caret, c] else [c]

variable {caret special}

theorem unescape_caretEscape (hcaret : special caret = true) (text : List α) :
    unescape caret false (caretEscape caret special text) = text := by
  unfold caretEscape
  induction text with
  | nil => rfl
  | cons c text ih =>
    rw [List.flatMap_cons]
    by_cases hc : special c = true
    · rw [if_pos hc]
      simp [unescape, ih]
    · have hne : c ≠ caret := fun e => hc (e ▸ hcaret)
      rw [if_neg hc]
      simp [unescape, hne, ih]

theorem bare_caretEscape (hcaret : special caret = true) (text : List α) :
    ∀ c ∈ bare caret false (caretEscape caret special text), special c = false := by
  unfold caretEscape
  induction text with
  | nil => simp [bare]
  | cons c text ih =>
    rw [List.flatMap_cons]
    by_cases hc : special c = true
    · rw [if_pos hc]
      simpa [bare] using ih
    · have hne : c ≠ caret := fun e => hc (e ▸ hcaret)
      rw [if_neg hc]
      simpa [bare, hne, hc] using ih

omit [DecidableEq α] in
theorem caretEscape_plain {text : List α} (h : ∀ c ∈ text, special c = false) : caretEscape caret special text = text := by
  unfold caretEscape
  induction text with
  | nil => rfl
  | cons c text ih =>
    obtain ⟨hc, htext⟩ := List.forall_mem_cons.mp h
    rw [List.flatMap_cons, ih htext, hc]
    rfl

omit [DecidableEq α] in
theorem caretEscape_append {front back : List α} {c : α} (hfront : ∀ c ∈ front, special c = false)
    (hc : special c = true) :
    caretEscape caret special (front ++ c :: back) = front ++ [caret, c] ++ caretEscape caret special back := by
  have hplain := @caretEscape_plain α caret special front hfront
  unfold caretEscape at hplain ⊢
  rw [List.flatMap_append, hplain, List.flatMap_cons, if_pos hc, List.append_assoc]

end Carets

end Sunshine.CommandLine
