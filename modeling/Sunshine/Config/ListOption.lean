import Sunshine.Config.Parse
import Sunshine.Lib.Brackets
import Sunshine.Lib.Cursors

/-! `list_string_f`: the items of an option that is a list.

Behind a nested list the loop passes over one character more, which is the comma, a blank or the closing bracket; where
the text ends there, it reads past the end. Blanks behind an item stay in it. `listString_iff` says for which texts the
reads stay inside, and for which lists the items come back. -/
namespace Sunshine.Config
open Brackets Cursors
set_option autoImplicit false

/-! ## The loop -/

/-- The loop of `skip_list` up to the end of the text. -/
def skipListAt (text : Text) : ℕ → ℕ → ℕ → Except Fault ℕ
  | 0, _, _ => .error .endless
  | turns + 1, skipper, stack =>
    if skipper ≠ text.length ∧ stack ≠ 0 then do
      let ch ← read text skipper
      skipListAt text turns (skipper + 1) (if ch = '[' then stack + 1 else if ch = ']' then stack - 1 else stack)
    else return skipper

/-- Behind the loop of `list_string_f`. -/
def lastItem (text : Text) (begin pos : ℕ) (input : List Text) : Except Fault (List Text) :=
  if pos ≠ begin then do
    let item ← copy text begin pos
    return input ++ [item]
  else return input

def itemLoop (text : Text) : ℕ → ℕ → ℕ → List Text → Except Fault (List Text)
  | 0, _, _, _ => .error .endless
  | turns + 1, begin, pos, input =>
    if pos < text.length then do
      let ch ← read text pos
      if ch = '[' then do
        let skipped ← skipListAt text (text.length + 1) (pos + 1) 1
        itemLoop text turns begin (skipped + 1) input
      else if ch = ']' then lastItem text begin pos input
      else if ch = ',' then do
        let item ← copy text begin pos
        let pos ← find text (fun ch => !whitespace ch) (pos + 1)
        itemLoop text turns pos pos (input ++ [item])
      else itemLoop text turns begin (pos + 1) input
    else lastItem text begin pos input

/-- `list_string_f` with the value of its variable. -/
def listStringF (string : Text) (input : List Text) : Except Fault (List Text) :=
  if string = [] then return input
  else do
    let ch ← read string 0
    let begin ← find string (fun ch => !whitespace ch) (if ch = '[' then 1 else 0)
    if begin = string.length then return []
    else itemLoop string (string.length + 1) begin begin []

/-! ## Lists -/

/-- A word, or a list of its own. -/
inductive Item where
  | word (text : Text) (nonempty : text ≠ []) (plain : ∀ ch ∈ text, ch ≠ '[' ∧ ch ≠ ']' ∧ ch ≠ ',')
    (head : ∀ ch ∈ text.head?, whitespace ch = false) (last : ∀ ch ∈ text.getLast?, whitespace ch = false)
  | list (inside : Text) (balanced : Balanced '[' ']' inside)

def Item.text : Item → Text
  | .word text .. => text
  | .list inside _ => '[' :: (inside ++ [']'])

def Item.isWord : Item → Bool
  | .word .. => true
  | .list .. => false

/-- An item with the blanks around it. -/
structure Entry where
  before : Text
  item : Item
  behind : Text
  before_blank : ∀ ch ∈ before, whitespace ch = true
  behind_blank : ∀ ch ∈ behind, whitespace ch = true

def Entry.text (entry : Entry) : Text := entry.before ++ entry.item.text ++ entry.behind

/-- The entries, each behind a comma, and the bracket that closes the list. -/
def moreText : List Entry → Text
  | [] => [']']
  | entry :: entries => ',' :: (entry.text ++ moreText entries)

/-- The entries, with a comma between any two of them, and the bracket that closes the list. -/
def entriesText : List Entry → Text
  | [] => [']']
  | entry :: entries => entry.text ++ moreText entries

structure ListText where
  blank : Text
  entries : List Entry
  blank_only : ∀ ch ∈ blank, whitespace ch = true

def ListText.text (l : ListText) : Text := '[' :: (l.blank ++ entriesText l.entries)

def ListText.items (l : ListText) : List Text := l.entries.map fun entry => entry.item.text

/-- A word with no blanks behind it. -/
def Entry.Plain (entry : Entry) : Prop := entry.item.isWord = true ∧ entry.behind = []

/-- Where a pass over the brackets stands: outside the nested lists, inside of one with more open in it, or just
behind one. -/
inductive Place where
  | outside
  | inside (depth : ℕ)
  | behind

/-- The text ends inside a nested list or just behind one. The character behind a nested list is not looked at, and a
closing bracket that is looked at ends the pass. -/
def overruns : Place → Text → Bool
  | .outside, [] => false
  | .inside _, [] => true
  | .behind, [] => true
  | .outside, ch :: text => if ch = ']' then false else overruns (if ch = '[' then .inside 0 else .outside) text
  | .inside depth, ch :: text =>
    overruns (if ch = ']' ∧ depth = 0 then .behind else .inside (toClose '[' ']' depth ch)) text
  | .behind, _ :: text => overruns .outside text

/-- What the loop reads of the text: what is behind an opening bracket it begins with. -/
def body (string : Text) : Text := if string.head? = some '[' then string.tail else string

/-! ## Where the reads are -/

section
variable {front pending rest : Text} {input : List Text}

theorem overruns_inside (depth : ℕ) (text : Text) : overruns (.inside depth) text =
    (close '[' ']' depth text).elim true fun found => overruns .behind found.2 := by
  induction text generalizing depth with
  | nil => rfl
  | cons ch text ih =>
    rw [overruns, close]
    by_cases hend : ch = ']' ∧ depth = 0
    · rw [if_pos hend, if_pos hend]
      rfl
    · rw [if_neg hend, if_neg hend, ih]
      cases close '[' ']' (toClose '[' ']' depth ch) text with
      | none => rfl
      | some found => rfl

theorem whitespace_plain {ch : Char} (hch : whitespace ch = true) : ch ≠ '[' ∧ ch ≠ ']' ∧ ch ≠ ',' := by
  refine ⟨?_, ?_, ?_⟩
  · rintro rfl
    exact absurd hch (by decide)
  · rintro rfl
    exact absurd hch (by decide)
  · rintro rfl
    exact absurd hch (by decide)

theorem overruns_blank {blank : Text} (hblank : ∀ ch ∈ blank, whitespace ch = true) (text : Text) :
    overruns .outside (blank ++ text) = overruns .outside text := by
  induction blank with
  | nil => rfl
  | cons ch blank ih =>
    obtain ⟨hopening, hclosing, -⟩ := whitespace_plain (hblank ch List.mem_cons_self)
    rw [List.cons_append, overruns, if_neg hclosing, if_neg hopening]
    exact ih fun ch' hmem => hblank ch' (List.mem_cons_of_mem _ hmem)

theorem skipListAt_here (turns depth : ℕ) (hturns : rest.length < turns) (front : Text) :
    skipListAt (front ++ rest) turns front.length (depth + 1) =
      .ok ((close '[' ']' depth rest).elim (front ++ rest) fun found => front ++ found.1 ++ [']']).length := by
  induction turns generalizing front rest depth with
  | zero => cases hturns
  | succ turns ih =>
    rw [skipListAt]
    cases rest with
    | nil =>
      rw [List.append_nil, if_neg (by simp)]
      rfl
    | cons ch rest =>
      have hgo : front.length ≠ (front ++ ch :: rest).length ∧ depth + 1 ≠ 0 := ⟨by simp, Nat.succ_ne_zero depth⟩
      rw [if_pos hgo, read_here, ok_bind, close]
      have hlength : front.length + 1 = (front ++ [ch]).length := by
        rw [List.length_append, List.length_singleton]
      by_cases hend : ch = ']' ∧ depth = 0
      · obtain ⟨rfl, rfl⟩ := hend
        have hpos : 0 < turns := Nat.zero_lt_of_lt (Nat.lt_of_succ_lt_succ hturns)
        obtain ⟨m, rfl⟩ := Nat.exists_eq_succ_of_ne_zero (Nat.ne_of_gt hpos)
        rw [if_neg (show ¬ ']' = '[' by decide), if_pos rfl, if_pos ⟨rfl, rfl⟩, skipListAt,
          if_neg fun h => h.2 rfl, hlength]
        show Except.ok _ = Except.ok (front ++ [] ++ [']']).length
        rw [List.append_nil]
      · have hstack : (if ch = '[' then depth + 1 + 1 else if ch = ']' then depth + 1 - 1 else depth + 1) =
            toClose '[' ']' depth ch + 1 := by
          unfold toClose
          split_ifs with hopening hclosing
          · rfl
          · have hdepth : depth ≠ 0 := fun hzero => hend ⟨hclosing, hzero⟩
            omega
          · rfl
        have hnext := ih (toClose '[' ']' depth ch) (Nat.lt_of_succ_lt_succ hturns) (front ++ [ch])
        rw [List.append_assoc, List.singleton_append] at hnext
        rw [hstack, if_neg hend, hlength, hnext]
        cases close '[' ']' (toClose '[' ']' depth ch) rest with
        | none => rfl
        | some found => simp

/-! ### One turn of the loop -/

/-- What the loop does at a position with `ch` there. -/
theorem itemLoop_here (front pending : Text) (ch : Char) (rest : Text) (turns : ℕ) (input : List Text) :
    itemLoop (front ++ (pending ++ ch :: rest)) (turns + 1) front.length (front ++ pending).length input =
      if ch = '[' then do
        let skipped ← skipListAt (front ++ (pending ++ [ch] ++ rest)) ((front ++ (pending ++ [ch] ++ rest)).length + 1)
          (front ++ (pending ++ [ch])).length 1
        itemLoop (front ++ (pending ++ [ch] ++ rest)) turns front.length (skipped + 1) input
      else if ch = ']' then
        lastItem (front ++ (pending ++ ch :: rest)) front.length (front ++ pending).length input
      else if ch = ',' then
        itemLoop (front ++ (pending ++ [ch]) ++ rest) turns
          (front ++ (pending ++ [ch]) ++ rest.takeWhile whitespace).length
          (front ++ (pending ++ [ch]) ++ rest.takeWhile whitespace).length (input ++ [pending])
      else itemLoop (front ++ (pending ++ [ch] ++ rest)) turns front.length (front ++ (pending ++ [ch])).length input := by
  have hread := read_here (front ++ pending) ch rest
  rw [List.append_assoc] at hread
  have hnext : (front ++ pending).length + 1 = (front ++ (pending ++ [ch])).length := by
    simp only [List.length_append, List.length_singleton, Nat.add_assoc]
  have htext : front ++ (pending ++ ch :: rest) = front ++ (pending ++ [ch] ++ rest) := by simp
  have hfind := find_here (front ++ (pending ++ [ch])) rest fun ch => !whitespace ch
  simp only [Bool.not_not] at hfind
  rw [itemLoop, if_pos (by simp), hread, ok_bind, copy_here, ok_bind, hnext, htext, ← List.append_assoc front, hfind,
    ok_bind]

theorem itemLoop_closing (front pending rest : Text) (turns : ℕ) (input : List Text) :
    itemLoop (front ++ (pending ++ ']' :: rest)) (turns + 1) front.length (front ++ pending).length input =
      lastItem (front ++ (pending ++ ']' :: rest)) front.length (front ++ pending).length input := by
  rw [itemLoop_here, if_neg (by decide), if_pos rfl]

/-- The blanks behind the comma are in front of the next item. -/
theorem itemLoop_comma (front pending rest : Text) (turns : ℕ) (input : List Text) :
    itemLoop (front ++ (pending ++ ',' :: rest)) (turns + 1) front.length (front ++ pending).length input =
      itemLoop (front ++ (pending ++ [',']) ++ rest.takeWhile whitespace ++ ([] ++ rest.dropWhile whitespace)) turns
        (front ++ (pending ++ [',']) ++ rest.takeWhile whitespace).length
        (front ++ (pending ++ [',']) ++ rest.takeWhile whitespace ++ []).length (input ++ [pending]) := by
  rw [itemLoop_here, if_neg (by decide), if_neg (by decide), if_pos rfl, List.nil_append,
    List.append_assoc _ (rest.takeWhile whitespace) (rest.dropWhile whitespace), List.takeWhile_append_dropWhile,
    List.append_nil]

theorem itemLoop_plain {ch : Char} (hch : ch ≠ '[' ∧ ch ≠ ']' ∧ ch ≠ ',') (front pending rest : Text) (turns : ℕ)
    (input : List Text) :
    itemLoop (front ++ (pending ++ ch :: rest)) (turns + 1) front.length (front ++ pending).length input =
      itemLoop (front ++ (pending ++ [ch] ++ rest)) turns front.length (front ++ (pending ++ [ch])).length input := by
  rw [itemLoop_here, if_neg hch.1, if_neg hch.2.1, if_neg hch.2.2]

theorem itemLoop_opening (front pending rest : Text) (turns : ℕ) (input : List Text) :
    itemLoop (front ++ (pending ++ '[' :: rest)) (turns + 1) front.length (front ++ pending).length input =
      itemLoop (front ++ (pending ++ ['['] ++ rest)) turns front.length
        (((close '[' ']' 0 rest).elim (front ++ (pending ++ ['['] ++ rest)) fun found =>
          front ++ (pending ++ ['[']) ++ found.1 ++ [']']).length + 1) input := by
  have hturns : rest.length < (front ++ (pending ++ ['['] ++ rest)).length + 1 := by
    simp only [List.length_append]
    omega
  have hskip := skipListAt_here _ 0 hturns (front ++ (pending ++ ['[']))
  rw [List.append_assoc front, Nat.zero_add] at hskip
  rw [itemLoop_here, if_pos rfl, hskip, ok_bind]

/-- Behind a nested list one character is taken with it. -/
theorem itemLoop_list {inside : Text} (hinside : Balanced '[' ']' inside) (front pending : Text) (ch : Char)
    (rest : Text) (turns : ℕ) (input : List Text) :
    itemLoop (front ++ (pending ++ '[' :: (inside ++ ']' :: ch :: rest))) (turns + 1) front.length
        (front ++ pending).length input =
      itemLoop (front ++ (pending ++ '[' :: (inside ++ [']', ch]) ++ rest)) turns front.length
        (front ++ (pending ++ '[' :: (inside ++ [']', ch]))).length input := by
  have hclose : close '[' ']' 0 (inside ++ ']' :: ch :: rest) = some (inside, ch :: rest) :=
    (close_eq_some_iff (by decide)).mpr ⟨rfl, hinside⟩
  have hlength : (front ++ (pending ++ ['[']) ++ inside ++ [']']).length + 1 =
      (front ++ (pending ++ '[' :: (inside ++ [']', ch]))).length := by
    simp only [List.length_append, List.length_cons, List.length_nil]
    omega
  have htext : front ++ (pending ++ ['['] ++ (inside ++ ']' :: ch :: rest)) =
      front ++ (pending ++ '[' :: (inside ++ [']', ch]) ++ rest) := by simp
  rw [itemLoop_opening, hclose, Option.elim_some, hlength, htext]

/-! ### The rest of the loop -/

/-- What the loop gives: a fault if the rest overruns, and more items if not. The first of them has what is pending. -/
def Gives (pending rest : Text) (input : List Text) (result : Except Fault (List Text)) : Prop :=
  overruns .outside rest = true ∧ result = .error .outside ∨
    overruns .outside rest = false ∧ ∃ more, result = .ok (input ++ more) ∧
      (pending ≠ [] → ∃ item ∈ more.head?, pending.length ≤ item.length)

theorem Gives.of_longer {pending' rest' : Text} {result : Except Fault (List Text)} (h : Gives pending' rest' input result)
    (hover : overruns .outside rest = overruns .outside rest') (hlength : pending.length ≤ pending'.length) :
    Gives pending rest input result := by
  unfold Gives
  rw [hover]
  refine Or.imp_right (fun hin => ?_) h
  obtain ⟨hinside, more, hresult, hhead⟩ := hin
  refine ⟨hinside, more, hresult, fun hpending => ?_⟩
  have hpending' : pending' ≠ [] := by
    rintro rfl
    exact hpending (List.length_eq_zero_iff.mp (Nat.le_zero.mp hlength))
  obtain ⟨item, hitem, hle⟩ := hhead hpending'
  exact ⟨item, hitem, hlength.trans hle⟩

theorem lastItem_gives (hinside : overruns .outside rest = false) (front : Text) :
    Gives pending rest input
      (lastItem (front ++ (pending ++ rest)) front.length (front ++ pending).length input) := by
  unfold lastItem
  by_cases hpending : pending = []
  · subst hpending
    rw [List.append_nil, if_neg (not_not.mpr rfl)]
    exact .inr ⟨hinside, [], by rw [List.append_nil]; rfl, fun h => absurd rfl h⟩
  · have hne : (front ++ pending).length ≠ front.length := by
      have hpos := List.length_pos_iff.mpr hpending
      rw [List.length_append]
      omega
    rw [if_pos hne, copy_here, ok_bind]
    exact .inr ⟨hinside, [pending], rfl, fun _ => ⟨pending, rfl, Nat.le_refl _⟩⟩

theorem itemLoop_outside {text : Text} {turns begin pos : ℕ} (hturns : 0 < turns) (hbegin : begin ≤ text.length)
    (hpos : text.length < pos) : itemLoop text turns begin pos input = .error .outside := by
  obtain ⟨turns, rfl⟩ := Nat.exists_eq_succ_of_ne_zero (Nat.ne_of_gt hturns)
  rw [itemLoop, if_neg (Nat.not_lt.mpr hpos.le), lastItem, if_pos (Nat.ne_of_gt (hbegin.trans_lt hpos)),
    copy_outside hpos, error_bind]

theorem overruns_opening (rest : Text) : overruns .outside ('[' :: rest) = (close '[' ']' 0 rest).elim true
    fun found => overruns .behind found.2 := by
  rw [← overruns_inside]
  rfl

/-- A comma ends the pending item, and the next one begins behind the blanks. -/
theorem Gives.comma {result : Except Fault (List Text)}
    (h : Gives [] (rest.dropWhile whitespace) (input ++ [pending]) result) : Gives pending (',' :: rest) input result := by
  have hover : overruns .outside (',' :: rest) = overruns .outside (rest.dropWhile whitespace) := by
    rw [overruns, if_neg (by decide), if_neg (by decide)]
    conv_lhs => rw [← List.takeWhile_append_dropWhile (p := whitespace) (l := rest)]
    exact overruns_blank (fun ch hch => List.mem_takeWhile_imp hch) _
  unfold Gives
  rw [hover]
  refine Or.imp_right (fun hin => ?_) h
  obtain ⟨hinside, more, hresult, -⟩ := hin
  refine ⟨hinside, pending :: more, ?_, fun _ => ⟨pending, rfl, Nat.le_refl _⟩⟩
  rw [hresult, List.append_assoc, List.singleton_append]

theorem itemLoop_gives (turns : ℕ) (hturns : rest.length < turns) (front pending : Text) (input : List Text) :
    Gives pending rest input
      (itemLoop (front ++ (pending ++ rest)) turns front.length (front ++ pending).length input) := by
  induction turns generalizing front pending rest input with
  | zero => cases hturns
  | succ turns ih =>
    cases rest with
    | nil =>
      rw [itemLoop, if_neg (by simp)]
      exact lastItem_gives rfl front
    | cons ch rest =>
      have hrest : rest.length < turns := Nat.lt_of_succ_lt_succ hturns
      have hlonger (more : Text) : pending.length ≤ (pending ++ more).length := by
        rw [List.length_append]
        exact Nat.le_add_right _ _
      by_cases hopening : ch = '['
      · subst hopening
        have hover := overruns_opening rest
        cases hclose : close '[' ']' 0 rest with
        | none =>
          rw [hclose] at hover
          rw [itemLoop_opening, hclose]
          refine .inl ⟨hover, itemLoop_outside (Nat.zero_lt_of_lt hrest) ?_ (Nat.lt_succ_self _)⟩
          rw [List.length_append]
          exact Nat.le_add_right _ _
        | some found =>
          obtain ⟨inside, behind⟩ := found
          obtain ⟨rfl, hinside⟩ := (close_eq_some_iff (by decide)).mp hclose
          rw [hclose] at hover
          cases behind with
          | nil =>
            rw [itemLoop_opening, hclose]
            refine .inl ⟨hover, itemLoop_outside (Nat.zero_lt_of_lt hrest) ?_ ?_⟩
            · rw [List.length_append]
              exact Nat.le_add_right _ _
            · simp
          | cons ch rest =>
            have hlength : rest.length < turns := by
              simp only [List.length_append, List.length_cons] at hrest
              omega
            rw [itemLoop_list hinside]
            exact (ih hlength front _ input).of_longer hover (hlonger _)
      · by_cases hclosing : ch = ']'
        · subst hclosing
          rw [itemLoop_closing]
          exact lastItem_gives rfl front
        · have hover : overruns .outside (ch :: rest) = overruns .outside rest := by
            rw [overruns, if_neg hclosing, if_neg hopening]
          by_cases hcomma : ch = ','
          · subst hcomma
            have hlength : (rest.dropWhile whitespace).length < turns :=
              (List.length_dropWhile_le whitespace rest).trans_lt hrest
            rw [itemLoop_comma]
            exact (ih hlength (front ++ (pending ++ [',']) ++ rest.takeWhile whitespace) [] (input ++ [pending])).comma
          · rw [itemLoop_plain ⟨hopening, hclosing, hcomma⟩]
            exact (ih hrest front _ input).of_longer hover (hlonger _)
end

/-! ## The items of a list -/

section
variable {front pending rest : Text} {input : List Text}

theorem itemLoop_word {middle : Text} (hmiddle : ∀ ch ∈ middle, ch ≠ '[' ∧ ch ≠ ']' ∧ ch ≠ ',') (turns : ℕ) :
    itemLoop (front ++ (pending ++ (middle ++ rest))) (turns + middle.length) front.length (front ++ pending).length
        input =
      itemLoop (front ++ (pending ++ middle ++ rest)) turns front.length (front ++ (pending ++ middle)).length input := by
  induction middle generalizing pending with
  | nil => simp
  | cons ch middle ih =>
    have hnext := @ih (pending ++ [ch]) fun ch' hmem => hmiddle ch' (List.mem_cons_of_mem _ hmem)
    rw [List.append_assoc pending, List.singleton_append, List.append_assoc pending [ch] middle,
      List.singleton_append] at hnext
    rw [List.length_cons, ← Nat.add_assoc, List.cons_append, itemLoop_plain (hmiddle ch List.mem_cons_self),
      List.append_assoc pending, List.singleton_append]
    exact hnext

theorem Item.text_ne_nil (item : Item) : item.text ≠ [] := by
  cases item with
  | word text hne _ _ _ => exact hne
  | list inside _ => exact List.cons_ne_nil _ _

theorem Item.head_text (item : Item) : ∀ ch ∈ item.text.head?, whitespace ch = false := by
  cases item with
  | word text _ _ hhead _ => exact hhead
  | list inside _ =>
    intro ch hch
    obtain rfl := Option.some.inj hch
    rfl

/-- The blanks are in front of the item. -/
theorem blanks_item {blank : Text} (hblank : ∀ ch ∈ blank, whitespace ch = true) (item : Item) (text : Text) :
    (blank ++ (item.text ++ text)).dropWhile whitespace = item.text ++ text := by
  induction blank with
  | nil =>
    have hhead := item.head_text
    cases htext : item.text with
    | nil => exact absurd htext item.text_ne_nil
    | cons ch more =>
      rw [htext] at hhead
      exact List.dropWhile_cons_of_neg (by rw [hhead ch rfl]; exact Bool.false_ne_true)
  | cons ch blank ih =>
    rw [List.cons_append, List.dropWhile_cons_of_pos (hblank ch List.mem_cons_self)]
    exact ih fun ch' hmem => hblank ch' (List.mem_cons_of_mem _ hmem)

theorem moreText_ne_nil (entries : List Entry) : moreText entries ≠ [] := by
  cases entries with
  | nil => exact List.cons_ne_nil _ _
  | cons entry entries => exact List.cons_ne_nil _ _

variable (front input) in
/-- A word is pending with the blanks behind it when what follows the entry is reached. -/
theorem itemLoop_wordEntry {entry : Entry} (hword : entry.item.isWord = true) (turns : ℕ)
    (hturns : (entry.item.text ++ (entry.behind ++ rest)).length < turns) :
    ∃ turns', rest.length < turns' ∧
      itemLoop (front ++ ([] ++ (entry.item.text ++ (entry.behind ++ rest)))) turns front.length (front ++ []).length
          input =
        itemLoop (front ++ (entry.item.text ++ entry.behind ++ rest)) turns' front.length
          (front ++ (entry.item.text ++ entry.behind)).length input := by
  have hplain : ∀ ch ∈ entry.item.text, ch ≠ '[' ∧ ch ≠ ']' ∧ ch ≠ ',' := by
    cases hitem : entry.item with
    | word text _ hplain _ _ => exact hplain
    | list inside _ =>
      rw [hitem] at hword
      cases hword
  have hmiddle : ∀ ch ∈ entry.item.text ++ entry.behind, ch ≠ '[' ∧ ch ≠ ']' ∧ ch ≠ ',' := by
    intro ch hch
    cases List.mem_append.mp hch with
    | inl hch => exact hplain ch hch
    | inr hch => exact whitespace_plain (entry.behind_blank ch hch)
  rw [← List.append_assoc, List.length_append] at hturns
  obtain ⟨more, hmore⟩ := Nat.exists_eq_add_of_lt hturns
  have hsplit : turns = rest.length + more + 1 + (entry.item.text ++ entry.behind).length := by omega
  refine ⟨rest.length + more + 1, by omega, ?_⟩
  rw [hsplit, ← List.append_assoc entry.item.text]
  exact itemLoop_word hmiddle (rest.length + more + 1)

variable (front input) in
/-- Of an entry that is not plain, more than the item is pending before the item can end. -/
theorem itemLoop_long {entry : Entry} (hentry : ¬entry.Plain) (hrest : rest ≠ []) (turns : ℕ)
    (hturns : (entry.item.text ++ (entry.behind ++ rest)).length < turns) :
    ∃ pending rest' turns', entry.item.text.length < pending.length ∧ rest'.length < turns' ∧
      itemLoop (front ++ ([] ++ (entry.item.text ++ (entry.behind ++ rest)))) turns front.length (front ++ []).length
          input =
        itemLoop (front ++ (pending ++ rest')) turns' front.length (front ++ pending).length input := by
  cases hword : entry.item.isWord with
  | true =>
    obtain ⟨turns', hturns', hloop⟩ := itemLoop_wordEntry front input hword turns hturns
    refine ⟨entry.item.text ++ entry.behind, rest, turns', ?_, hturns', hloop⟩
    have hpos := List.length_pos_iff.mpr fun hnil => hentry ⟨hword, hnil⟩
    rw [List.length_append]
    omega
  | false =>
    obtain ⟨ch, more, hmore⟩ := List.exists_cons_of_ne_nil (List.append_ne_nil_of_right_ne_nil entry.behind hrest)
    obtain ⟨turns, rfl⟩ := Nat.exists_eq_succ_of_ne_zero (Nat.ne_of_gt (Nat.zero_lt_of_lt hturns))
    rw [hmore] at hturns ⊢
    cases hitem : entry.item with
    | word =>
      rw [hitem] at hword
      cases hword
    | list inside hinside =>
      rw [hitem] at hturns
      have htext : Item.text (.list inside hinside) ++ ch :: more = '[' :: (inside ++ ']' :: ch :: more) := by
        simp [Item.text]
      refine ⟨'[' :: (inside ++ [']', ch]), more, turns, ?_, ?_, ?_⟩
      · simp [Item.text]
      · rw [List.length_append, List.length_cons] at hturns
        omega
      · rw [htext]
        exact itemLoop_list hinside front [] ch more turns input

theorem Gives.ne_ok {result : Except Fault (List Text)} (h : Gives pending rest input result) {text : Text}
    (htext : text.length < pending.length) (more : List Text) : result ≠ .ok (input ++ text :: more) := by
  rintro rfl
  cases h with
  | inl h => cases h.2
  | inr h =>
    obtain ⟨-, more', hmore', hhead⟩ := h
    obtain rfl := List.append_cancel_left (Except.ok.inj hmore')
    obtain ⟨item, hitem, hle⟩ := hhead (List.ne_nil_of_length_pos (Nat.zero_lt_of_lt htext))
    obtain rfl := Option.some.inj hitem
    omega

theorem itemLoop_entries (entry : Entry) (entries : List Entry) (turns : ℕ)
    (hturns : (entry.item.text ++ (entry.behind ++ moreText entries)).length < turns) (front : Text)
    (input : List Text) :
    itemLoop (front ++ ([] ++ (entry.item.text ++ (entry.behind ++ moreText entries)))) turns front.length
        (front ++ []).length input =
        .ok (input ++ (entry :: entries).map fun entry => entry.item.text) ↔
      ∀ entry' ∈ entry :: entries, entry'.Plain := by
  induction entries generalizing entry turns front input with
  | nil =>
    by_cases hentry : entry.Plain
    · obtain ⟨turns', hturns', hloop⟩ := itemLoop_wordEntry front input hentry.1 turns hturns
      obtain ⟨turns', rfl⟩ := Nat.exists_eq_succ_of_ne_zero (Nat.ne_of_gt (Nat.zero_lt_of_lt hturns'))
      have hne : (front ++ entry.item.text).length ≠ front.length := by
        have hpos := List.length_pos_iff.mpr entry.item.text_ne_nil
        rw [List.length_append]
        omega
      refine iff_of_true ?_ (List.forall_mem_singleton.mpr hentry)
      rw [hloop, hentry.2, List.append_nil, moreText, itemLoop_closing, lastItem, if_pos hne, copy_here]
      rfl
    · refine iff_of_false ?_ fun hall => hentry (hall entry List.mem_cons_self)
      obtain ⟨pending, rest, turns', hlong, hrest, hloop⟩ :=
        itemLoop_long front input hentry (moreText_ne_nil []) turns hturns
      rw [hloop]
      exact (itemLoop_gives turns' hrest front pending input).ne_ok hlong _
  | cons next entries ih =>
    by_cases hentry : entry.Plain
    · obtain ⟨turns', hturns', hloop⟩ := itemLoop_wordEntry front input hentry.1 turns hturns
      obtain ⟨turns', rfl⟩ := Nat.exists_eq_succ_of_ne_zero (Nat.ne_of_gt (Nat.zero_lt_of_lt hturns'))
      have hnext : (next.text ++ moreText entries).dropWhile whitespace =
          next.item.text ++ (next.behind ++ moreText entries) := by
        unfold Entry.text
        rw [List.append_assoc, List.append_assoc]
        exact blanks_item next.before_blank next.item _
      have hlength : (next.item.text ++ (next.behind ++ moreText entries)).length < turns' := by
        rw [← hnext]
        exact (List.length_dropWhile_le _ _).trans_lt (Nat.lt_of_succ_lt_succ hturns')
      have hitems : input ++ (entry :: next :: entries).map (fun entry => entry.item.text) =
          input ++ [entry.item.text] ++ (next :: entries).map fun entry => entry.item.text :=
        List.append_cons input _ _
      rw [hloop, hentry.2, List.append_nil, moreText, itemLoop_comma, hnext, hitems,
        ih next turns' hlength]
      exact ⟨fun hall => List.forall_mem_cons.mpr ⟨hentry, hall⟩, fun hall => (List.forall_mem_cons.mp hall).2⟩
    · refine iff_of_false ?_ fun hall => hentry (hall entry List.mem_cons_self)
      obtain ⟨pending, rest, turns', hlong, hrest, hloop⟩ :=
        itemLoop_long front input hentry (moreText_ne_nil (next :: entries)) turns hturns
      rw [hloop]
      exact (itemLoop_gives turns' hrest front pending input).ne_ok hlong _

/-! ## The option -/

/-- The loop begins behind an opening bracket and blanks. -/
theorem listStringF_eq {string : Text} (hstring : string ≠ []) (input : List Text) :
    ∃ front, string = front ++ (body string).dropWhile whitespace ∧ listStringF string input =
      if (body string).dropWhile whitespace = [] then .ok []
      else itemLoop (front ++ ([] ++ (body string).dropWhile whitespace)) (string.length + 1) front.length
        (front ++ []).length [] := by
  obtain ⟨ch, more, rfl⟩ := List.exists_cons_of_ne_nil hstring
  have hbody : body (ch :: more) = if ch = '[' then more else ch :: more := by
    unfold body
    exact if_congr (by rw [List.head?_cons, Option.some_inj]) rfl rfl
  have hsplit : (if ch = '[' then ['['] else []) ++ body (ch :: more) = ch :: more := by
    rw [hbody]
    split_ifs with hch
    · rw [hch]
      rfl
    · rfl
  have hfrom : (if ch = '[' then 1 else 0) = (if ch = '[' then ['['] else [] : Text).length := by
    split_ifs <;> rfl
  have hfind : find (ch :: more) (fun ch => !whitespace ch) (if ch = '[' then ['['] else [] : Text).length =
      .ok ((if ch = '[' then ['['] else []) ++ (body (ch :: more)).takeWhile whitespace).length := by
    conv_lhs => rw [← hsplit]
    rw [find_here]
    simp only [Bool.not_not]
  have hwhole : ch :: more = (if ch = '[' then ['['] else []) ++ (body (ch :: more)).takeWhile whitespace ++
      (body (ch :: more)).dropWhile whitespace := by
    rw [List.append_assoc, List.takeWhile_append_dropWhile, hsplit]
  refine ⟨_, hwhole, ?_⟩
  rw [listStringF, if_neg hstring, show read (ch :: more) 0 = .ok ch from read_here [] ch more, ok_bind, hfrom, hfind,
    ok_bind, List.append_nil, List.nil_append, ← hwhole]
  refine if_congr ?_ rfl rfl
  have hlength := congrArg List.length hwhole
  rw [List.length_append] at hlength
  constructor
  · intro heq
    exact List.length_eq_zero_iff.mp (by omega)
  · intro hnil
    rw [hnil, List.length_nil] at hlength
    exact hlength.symm

/-- Every text is gone through, and the reads leave it where it overruns. -/
theorem listStringF_reads (string : Text) (input : List Text) :
    overruns .outside (body string) = true ∧ listStringF string input = .error .outside ∨
      overruns .outside (body string) = false ∧ ∃ items, listStringF string input = .ok items := by
  by_cases hstring : string = []
  · subst hstring
    exact .inr ⟨rfl, input, rfl⟩
  · obtain ⟨front, hwhole, heq⟩ := listStringF_eq hstring input
    have hblank : overruns .outside (body string) = overruns .outside ((body string).dropWhile whitespace) := by
      conv_lhs => rw [← List.takeWhile_append_dropWhile (p := whitespace) (l := body string)]
      exact overruns_blank (fun ch hch => List.mem_takeWhile_imp hch) _
    rw [heq, hblank]
    by_cases hend : (body string).dropWhile whitespace = []
    · rw [if_pos hend, hend]
      exact .inr ⟨rfl, [], rfl⟩
    · have hturns : ((body string).dropWhile whitespace).length < string.length + 1 := by
        have hlength := congrArg List.length hwhole
        rw [List.length_append] at hlength
        omega
      rw [if_neg hend]
      cases itemLoop_gives _ hturns front [] [] with
      | inl hfault => exact .inl hfault
      | inr hitems =>
        obtain ⟨hinside, more, hmore, -⟩ := hitems
        exact .inr ⟨hinside, _, hmore⟩

theorem listStringF_items_iff (l : ListText) (input : List Text) :
    listStringF l.text input = .ok l.items ↔ ∀ entry ∈ l.entries, entry.Plain := by
  have hne : l.text ≠ [] := List.cons_ne_nil _ _
  obtain ⟨front, hwhole, heq⟩ := listStringF_eq hne input
  have hbody : (body l.text).dropWhile whitespace = (entriesText l.entries).dropWhile whitespace := by
    show (l.blank ++ entriesText l.entries).dropWhile whitespace = _
    exact List.dropWhile_append_of_pos l.blank_only
  rw [heq, hbody]
  rw [hbody] at hwhole
  have hlength := congrArg List.length hwhole
  unfold ListText.items
  cases hentries : l.entries with
  | nil =>
    have hrest : (entriesText []).dropWhile whitespace = [']'] := by decide
    rw [hrest, if_neg (List.cons_ne_nil _ _), itemLoop_closing]
    exact iff_of_true (by simp [lastItem]; rfl) (List.forall_mem_nil _)
  | cons entry entries =>
    have hrest : (entriesText (entry :: entries)).dropWhile whitespace =
        entry.item.text ++ (entry.behind ++ moreText entries) := by
      rw [entriesText, Entry.text, List.append_assoc, List.append_assoc]
      exact blanks_item entry.before_blank entry.item _
    have hne : entry.item.text ++ (entry.behind ++ moreText entries) ≠ [] :=
      List.append_ne_nil_of_left_ne_nil entry.item.text_ne_nil _
    rw [hentries, hrest, List.length_append] at hlength
    rw [hrest, if_neg hne]
    exact itemLoop_entries entry entries _ (by omega) front []

/-- The value is read with no read behind its end, and of a list the items are given, trimmed and with the nested lists
whole, if and only if the value does not overrun and, where it is a list, all its items are words with no blanks
behind. -/
theorem listStringF_iff (string : Text) (input : List Text) :
    listStringF string input ≠ .error .endless ∧
      ((∃ items, listStringF string input = .ok items ∧ ∀ l : ListText, l.text = string → items = l.items) ↔
        overruns .outside (body string) = false ∧
          ∀ l : ListText, l.text = string → ∀ entry ∈ l.entries, entry.Plain) := by
  cases listStringF_reads string input with
  | inl hfault =>
    obtain ⟨hover, hresult⟩ := hfault
    rw [hover, hresult]
    exact ⟨by decide, iff_of_false (fun h => nomatch h.choose_spec.1) fun h => nomatch h.1⟩
  | inr hinside =>
    obtain ⟨hover, items, hresult⟩ := hinside
    rw [hover, hresult]
    refine ⟨(nomatch ·), ?_⟩
    constructor
    · rintro ⟨items', hitems', hall⟩
      obtain rfl := Except.ok.inj hitems'
      refine ⟨rfl, fun l htext => (listStringF_items_iff l input).mp ?_⟩
      rw [htext, hresult, hall l htext]
    · rintro ⟨-, hall⟩
      refine ⟨items, rfl, fun l htext => ?_⟩
      have hitems := (listStringF_items_iff l input).mpr (hall l htext)
      rw [htext, hresult] at hitems
      exact Except.ok.inj hitems

/-- The comma behind a nested list is taken with it, and so is what follows; a nested list at the end of the value is
read past. -/
theorem listStringF_nested :
    (∃ l : ListText, l.text = "[[a],b]".toList ∧ l.items = ["[a]".toList, "b".toList]) ∧
      listStringF "[[a],b]".toList [] = .ok ["[a],b".toList] ∧
      listStringF "[[a]".toList [] = .error .outside := by
  have hnone : ∀ ch ∈ ([] : Text), whitespace ch = true := List.forall_mem_nil _
  have hb : ∀ ch ∈ some 'b', whitespace ch = false := by
    rintro ch ⟨⟩
    rfl
  have ha : Balanced '[' ']' ['a'] := by
    refine ⟨fun front hfront => ?_, rfl⟩
    rw [List.count_eq_zero_of_not_mem fun hmem => absurd (hfront.subset hmem) (by simp)]
    exact Nat.zero_le _
  exact ⟨⟨⟨[], [⟨[], .list ['a'] ha, [], hnone, hnone⟩,
    ⟨[], .word ['b'] (List.cons_ne_nil _ _) (by simp) hb hb, [], hnone, hnone⟩], hnone⟩, rfl, rfl⟩, rfl, rfl⟩
end

end Sunshine.Config
