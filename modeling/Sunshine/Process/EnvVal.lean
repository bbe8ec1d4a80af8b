import Sunshine.Lib.Brackets
import Sunshine.Lib.Cursors
import Sunshine.Process.Parse

/-! `parse_env_val` with its iterators, and what it makes of a text.

`Expands` is the text read from left to right, a variable going up to the parenthesis that matches its own. The
iterators stay in the text, but for the one that reads its terminator, and give just that: `parseEnvVal_expands`. -/
namespace Sunshine.EnvVal
open Brackets Cursors Process
set_option autoImplicit false

/-- The characters of a string may be read, and its terminator. -/
def readTerminated (text : Text) (pos : ℕ) : Except Fault Char :=
  if pos = text.length then .ok '\x00' else read text pos

/-- The loop of `find_match`. -/
def findMatchLoop (text : Text) : ℕ → ℕ → ℤ → Except Fault ℕ
  | 0, _, _ => .error .endless
  | turns + 1, begin, stack => do
    let ch ← readTerminated text begin
    let stack := if ch = '(' then stack + 1 else if ch = ')' then stack - 1 else stack
    if begin ≠ text.length ∧ stack ≠ 0 then findMatchLoop text turns (begin + 1) stack else return begin

/-- `find_match`; none where it throws. -/
def findMatch (text : Text) (begin : ℕ) : Except Fault (Option ℕ) := do
  let begin ← findMatchLoop text (text.length + 1) begin 0
  return if begin = text.length then none else some begin

section
variable (value : Text → Text)

/-- The loop of `parse_env_val`; `pos` is the first character that is not written yet. -/
def parseLoop (text : Text) : ℕ → ℕ → ℕ → Text → Except Fault (Option Text)
  | 0, _, _, _ => .error .endless
  | turns + 1, pos, dollar, ss =>
    if dollar ≠ text.length then
      let next := dollar + 1
      if next ≠ text.length then do
        let ch ← read text next
        if ch = '(' then do
          let written ← copy text pos dollar
          let varEnd ← findMatch text next
          match varEnd with
          | none => return none
          | some varEnd => do
            let varName ← copy text (next + 1) varEnd
            let dollar ← find text (· = '$') varEnd
            parseLoop text turns (varEnd + 1) dollar (ss ++ written ++ value varName)
        else if ch = '$' then do
          let written ← copy text pos next
          let dollar ← find text (· = '$') (next + 1)
          parseLoop text turns (next + 1) dollar (ss ++ written)
        else do
          let dollar ← find text (· = '$') next
          parseLoop text turns pos dollar ss
      else parseLoop text turns pos next ss
    else do
      let written ← copy text pos dollar
      return some (ss ++ written)

/-- `parse_env_val`; `value` is what a variable has, and none where it throws. -/
def parseEnvVal (text : Text) : Except Fault (Option Text) := do
  let dollar ← find text (· = '$') 0
  parseLoop value text (text.length + 1) 0 dollar []

/-! ## What a text expands to -/

/-- The text goes on with neither of the two marks a dollar sign stands in front of. -/
def Lone (rest : Text) : Prop := ∀ ch ∈ rest.head?, ch ≠ '(' ∧ ch ≠ '$'

inductive Expands : Text → Text → Prop
  | nil : Expands [] []
  | dollar {rest out : Text} (h : Expands rest out) : Expands ('$' :: '$' :: rest) ('$' :: out)
  | variable {name rest out : Text} (hname : Balanced '(' ')' name) (h : Expands rest out) :
    Expands ('$' :: '(' :: (name ++ ')' :: rest)) (value name ++ out)
  | copied {ch : Char} {rest out : Text} (hch : ch = '$' → Lone rest) (h : Expands rest out) :
    Expands (ch :: rest) (ch :: out)

end

/-- Somewhere the text has a variable whose parenthesis is not closed. -/
inductive Unclosed : Text → Prop
  | here {rest : Text} (hopen : ∀ name behind, rest = name ++ ')' :: behind → ¬Balanced '(' ')' name) :
    Unclosed ('$' :: '(' :: rest)
  | dollar {rest : Text} (h : Unclosed rest) : Unclosed ('$' :: '$' :: rest)
  | variable {name rest : Text} (hname : Balanced '(' ')' name) (h : Unclosed rest) :
    Unclosed ('$' :: '(' :: (name ++ ')' :: rest))
  | copied {ch : Char} {rest : Text} (hch : ch = '$' → Lone rest) (h : Unclosed rest) : Unclosed (ch :: rest)

/-- The text with every dollar sign twice. -/
def doubled (text : Text) : Text := text.flatMap fun ch => if ch = '$' then ['$', '$'] else [ch]

/-! ## The parenthesis that matches -/

variable {front rest : Text}

theorem readTerminated_here (front : Text) (ch : Char) (rest : Text) :
    readTerminated (front ++ ch :: rest) front.length = .ok ch := by
  have hne : front.length ≠ (front ++ ch :: rest).length := by simp
  rw [readTerminated, if_neg hne, read_here]

/-- What `find_match` counts is one more than what is left to close. -/
theorem stack_eq (n : ℕ) (ch : Char) (hopen : ¬(ch = ')' ∧ n = 0)) :
    (if ch = '(' then (n : ℤ) + 1 + 1 else if ch = ')' then (n : ℤ) + 1 - 1 else (n : ℤ) + 1) =
      (toClose '(' ')' n ch : ℤ) + 1 := by
  unfold toClose
  split_ifs with hopening hclosing
  · push_cast
    rfl
  · have hn : n ≠ 0 := fun hzero => hopen ⟨hclosing, hzero⟩
    omega
  · rfl

theorem findMatchLoop_here (turns n : ℕ) (hturns : rest.length < turns) (front : Text) :
    findMatchLoop (front ++ rest) turns front.length (n + 1) =
      .ok ((close '(' ')' n rest).elim (front ++ rest) fun found => front ++ found.1).length := by
  induction turns generalizing front rest n with
  | zero => cases hturns
  | succ turns ih =>
    cases rest with
    | nil =>
      rw [List.append_nil, findMatchLoop, readTerminated, if_pos rfl, ok_bind, if_neg (by simp)]
      simp [close, pure, Except.pure]
    | cons ch rest =>
      have hnext := ih (toClose '(' ')' n ch) (Nat.lt_of_succ_lt_succ hturns) (front ++ [ch])
      rw [List.append_assoc, List.singleton_append, List.length_append, List.length_singleton] at hnext
      have hne : front.length ≠ (front ++ ch :: rest).length := by simp
      rw [findMatchLoop, readTerminated_here, ok_bind, close]
      by_cases hend : ch = ')' ∧ n = 0
      · obtain ⟨rfl, rfl⟩ := hend
        simp [pure, Except.pure]
      · have hstack : (toClose '(' ')' n ch : ℤ) + 1 ≠ 0 := by omega
        simp only [stack_eq n ch hend, if_pos (And.intro hne hstack), if_neg hend]
        rw [hnext]
        cases close '(' ')' (toClose '(' ')' n ch) rest with
        | none => simp
        | some found => simp

/-- It finds the parenthesis that matches the one it starts at. -/
theorem findMatch_here (front rest : Text) : findMatch (front ++ '(' :: rest) front.length =
    .ok ((close '(' ')' 0 rest).map fun found => (front ++ '(' :: found.1).length) := by
  have hloop : findMatchLoop (front ++ '(' :: rest) ((front ++ '(' :: rest).length + 1) front.length 0 =
      findMatchLoop (front ++ '(' :: rest) (front ++ '(' :: rest).length (front.length + 1) 1 := by
    have hne : front.length ≠ (front ++ '(' :: rest).length := by simp
    rw [findMatchLoop, readTerminated_here, ok_bind]
    simp only [if_true, Int.zero_add]
    rw [if_pos ⟨hne, by decide⟩]
  have hturns : rest.length < (front ++ '(' :: rest).length := by
    rw [List.length_append, List.length_cons]
    omega
  have hsnoc : (front ++ ['(']).length = front.length + 1 := by rw [List.length_append, List.length_singleton]
  have hfound := findMatchLoop_here (front ++ '(' :: rest).length 0 hturns (front ++ ['('])
  rw [List.append_assoc, List.singleton_append, hsnoc] at hfound
  have hone : ((0 : ℕ) : ℤ) + 1 = 1 := rfl
  rw [hone] at hfound
  rw [findMatch, hloop, hfound, ok_bind]
  cases hclose : close '(' ')' 0 rest with
  | none => simp [pure, Except.pure]
  | some found =>
    obtain ⟨rfl, -⟩ := (close_eq_some_iff (by decide)).mp hclose
    simp [pure, Except.pure]

/-! ## The loop -/

section
variable {value : Text → Text}

theorem Expands.plain {plain out : Text} (hplain : ∀ ch ∈ plain, ch ≠ '$') (h : Expands value rest out) :
    Expands value (plain ++ rest) (plain ++ out) := by
  induction plain with
  | nil => exact h
  | cons ch plain ih =>
    have hch := hplain ch List.mem_cons_self
    exact .copied (fun heq => absurd heq hch) (ih fun ch' hmem => hplain ch' (List.mem_cons_of_mem _ hmem))

theorem Unclosed.plain {plain : Text} (hplain : ∀ ch ∈ plain, ch ≠ '$') (h : Unclosed rest) :
    Unclosed (plain ++ rest) := by
  induction plain with
  | nil => exact h
  | cons ch plain ih =>
    have hch := hplain ch List.mem_cons_self
    exact .copied (fun heq => absurd heq hch) (ih fun ch' hmem => hplain ch' (List.mem_cons_of_mem _ hmem))

/-- The result is what the text expands to, behind what is written already, or the text has no expansion. -/
def Reads (value : Text → Text) (text written : Text) (result : Except Fault (Option Text)) : Prop :=
  (∃ out, Expands value text out ∧ result = .ok (some (written ++ out))) ∨ Unclosed text ∧ result = .ok none

variable {written out : Text} {result : Except Fault (Option Text)}

theorem Reads.map {text text' written' : Text} (h : Reads value text (written ++ written') result)
    (hexpands : ∀ out, Expands value text out → Expands value text' (written' ++ out))
    (hunclosed : Unclosed text → Unclosed text') : Reads value text' written result := by
  rcases h with ⟨out, hout, hresult⟩ | ⟨hopen, hresult⟩
  · exact .inl ⟨written' ++ out, hexpands out hout, by rw [hresult, List.append_assoc]⟩
  · exact .inr ⟨hunclosed hopen, hresult⟩

theorem parseLoop_end (turns : ℕ) (front pending ss : Text) :
    parseLoop value (front ++ pending) (turns + 1) front.length (front ++ pending).length ss =
      .ok (some (ss ++ pending)) := by
  have hcopy := copy_here front pending []
  rw [List.append_nil] at hcopy
  rw [parseLoop, if_neg (not_not.mpr rfl), hcopy]
  rfl

/-- What the loop gives from the search for the next dollar sign on. -/
def ReadsOn (value : Text → Text) (text : Text) (turns : ℕ) : Prop :=
  ∀ front pending rest ss, text = front ++ (pending ++ rest) → rest.length < turns → Reads value rest (ss ++ pending)
    (find text (· = '$') (front ++ pending).length >>= fun dollar => parseLoop value text turns front.length dollar ss)

/-- A variable up to its closing parenthesis is written, and the search goes on there. -/
theorem ReadsOn.variable {turns : ℕ} {text before name behind : Text} (h : ReadsOn value text turns)
    (htext : text = before ++ (name ++ ')' :: behind)) (hturns : behind.length < turns)
    (hname : Balanced '(' ')' name) (written : Text) :
    Reads value ('$' :: '(' :: (name ++ ')' :: behind)) written
      (copy text before.length (before ++ name).length >>= fun varName =>
        find text (· = '$') (before ++ name).length >>= fun dollar =>
          parseLoop value text turns ((before ++ name).length + 1) dollar (written ++ value varName)) := by
  have hcopy : copy text before.length (before ++ name).length = .ok name := by
    rw [htext]
    exact copy_here before name _
  have hskip : find text (· = '$') (before ++ name).length =
      find text (· = '$') (before ++ name ++ [')']).length := by
    rw [htext, ← List.append_assoc]
    exact find_skip (before ++ name) behind (by decide)
  have hlength : (before ++ name).length + 1 = (before ++ name ++ [')']).length := by
    simp [Nat.add_assoc]
  have hon := h (before ++ name ++ [')']) [] behind (written ++ value name) (by simp [htext]) hturns
  rw [List.append_nil, List.append_nil] at hon
  rw [hcopy, ok_bind, hskip, hlength]
  exact hon.map (fun out hout => .variable hname hout) (.variable hname)

/-- Of two dollar signs one is written. -/
theorem ReadsOn.dollar {turns : ℕ} {text front pending rest : Text} (h : ReadsOn value text turns)
    (htext : text = front ++ (pending ++ '$' :: '$' :: rest)) (hturns : rest.length < turns) (ss : Text) :
    Reads value ('$' :: '$' :: rest) (ss ++ pending)
      (copy text front.length ((front ++ pending).length + 1) >>= fun written =>
        find text (· = '$') ((front ++ pending).length + 1 + 1) >>= fun dollar =>
          parseLoop value text turns ((front ++ pending).length + 1 + 1) dollar (ss ++ written)) := by
  have hfront : (front ++ pending).length + 1 = (front ++ (pending ++ ['$'])).length := by
    simp [Nat.add_assoc]
  have hcopy : copy text front.length ((front ++ pending).length + 1) = .ok (pending ++ ['$']) := by
    rw [hfront, htext]
    have hhere := copy_here front (pending ++ ['$']) ('$' :: rest)
    rwa [List.append_assoc, List.singleton_append] at hhere
  have hlength : (front ++ pending).length + 1 + 1 = (front ++ (pending ++ ['$', '$'])).length := by
    simp [Nat.add_assoc]
  have hon := h (front ++ (pending ++ ['$', '$'])) [] rest (ss ++ pending ++ ['$']) (by simp [htext]) hturns
  rw [List.append_nil, List.append_nil] at hon
  rw [hcopy, ok_bind, hlength, ← List.append_assoc ss]
  exact hon.map (fun out hout => .dollar hout) .dollar

/-- A dollar sign in front of something else is written with it. -/
theorem ReadsOn.lone {turns : ℕ} {text front pending rest : Text} (h : ReadsOn value text turns)
    (htext : text = front ++ (pending ++ '$' :: rest)) (hturns : rest.length < turns) (hlone : Lone rest) (ss : Text) :
    Reads value ('$' :: rest) (ss ++ pending)
      (find text (· = '$') ((front ++ pending).length + 1) >>= fun dollar =>
        parseLoop value text turns front.length dollar ss) := by
  have hfront : (front ++ pending).length + 1 = (front ++ (pending ++ ['$'])).length := by
    simp [Nat.add_assoc]
  have hon := h front (pending ++ ['$']) rest ss (by simp [htext]) hturns
  rw [← List.append_assoc] at hon
  rw [hfront]
  exact hon.map (fun out hout => .copied (fun _ => hlone) hout) (.copied fun _ => hlone)

/-- One turn at a dollar sign. -/
theorem parseLoop_turn {turns : ℕ} {text front pending rest ss : Text} (ih : ReadsOn value text turns)
    (htext : text = front ++ (pending ++ '$' :: rest)) (hturns : rest.length < turns) :
    Reads value ('$' :: rest) (ss ++ pending)
      (parseLoop value text (turns + 1) front.length (front ++ pending).length ss) := by
  have hdollar : (front ++ pending).length ≠ text.length := by
    rw [htext]
    simp
  have hfront : (front ++ pending).length + 1 = (front ++ (pending ++ ['$'])).length := by
    simp [Nat.add_assoc]
  rw [parseLoop, if_pos hdollar]
  cases rest with
  | nil =>
    obtain ⟨m, rfl⟩ := Nat.exists_eq_succ_of_ne_zero (Nat.ne_of_gt hturns)
    have hend : ¬(front ++ pending).length + 1 ≠ text.length := by
      rw [hfront, htext, not_not]
    simp only [if_neg hend]
    rw [hfront, htext, parseLoop_end, ← List.append_assoc]
    exact .inl ⟨['$'], .copied (fun _ => nofun) .nil, rfl⟩
  | cons ch rest =>
    have hnext : (front ++ pending).length + 1 ≠ text.length := by
      rw [hfront, htext]
      simp
    have hread : read text ((front ++ pending).length + 1) = .ok ch := by
      rw [hfront, htext]
      have hhere := read_here (front ++ (pending ++ ['$'])) ch rest
      simp only [List.append_assoc, List.singleton_append] at hhere ⊢
      exact hhere
    simp only [if_pos hnext, hread, ok_bind]
    by_cases hopening : ch = '('
    · subst hopening
      have hcopy : copy text front.length (front ++ pending).length = .ok pending := by
        rw [htext]
        exact copy_here front pending _
      have hmatch : findMatch text ((front ++ pending).length + 1) =
          .ok ((close '(' ')' 0 rest).map fun found => (front ++ (pending ++ ['$']) ++ '(' :: found.1).length) := by
        rw [hfront, ← findMatch_here, htext]
        simp
      rw [if_pos rfl, hcopy, ok_bind, hmatch, ok_bind]
      cases hclose : close '(' ')' 0 rest with
      | none =>
        refine .inr ⟨.here fun name behind hrest hname => ?_, rfl⟩
        exact (close_eq_none_iff (by decide)).mp hclose name behind hrest hname
      | some found =>
        obtain ⟨name, behind⟩ := found
        obtain ⟨rfl, hname⟩ := (close_eq_some_iff (by decide)).mp hclose
        obtain ⟨before, hbefore⟩ : ∃ before, before = front ++ (pending ++ ['$', '(']) := ⟨_, rfl⟩
        have hvarBegin : (front ++ pending).length + 1 + 1 = before.length := by simp [hbefore, Nat.add_assoc]
        have hvarEnd : (front ++ (pending ++ ['$']) ++ '(' :: name).length = (before ++ name).length := by
          simp [hbefore]
        simp only [Option.map_some, hvarBegin, hvarEnd]
        have hbehind : behind.length < turns := by
          simp only [List.length_cons, List.length_append] at hturns
          omega
        exact ih.variable (by simp [htext, hbefore]) hbehind hname (ss ++ pending)
    · rw [if_neg hopening]
      by_cases htwo : ch = '$'
      · subst htwo
        rw [if_pos rfl]
        exact ih.dollar htext (Nat.lt_of_succ_lt hturns) ss
      · rw [if_neg htwo]
        have hlone : Lone (ch :: rest) := by
          intro ch' hch'
          obtain rfl := Option.some.inj hch'
          exact ⟨hopening, htwo⟩
        exact ih.lone htext hturns hlone ss

/-- The induction is on the turns that are left: each takes at least one character off the rest. -/
theorem parseLoop_readsOn (text : Text) (turns : ℕ) : ReadsOn value text turns := by
  induction turns with
  | zero =>
    intro front pending rest ss _ hturns
    cases hturns
  | succ turns ih =>
    intro front pending rest ss htext hturns
    obtain ⟨plain, behind, hrest, hplain, hbehind⟩ : ∃ plain behind, rest = plain ++ behind ∧
        plain = (rest.takeWhile fun ch => !decide (ch = '$')) ∧ behind = rest.dropWhile fun ch => !decide (ch = '$') :=
      ⟨_, _, List.takeWhile_append_dropWhile.symm, rfl, rfl⟩
    have hfree : ∀ ch ∈ plain, ch ≠ '$' := by
      intro ch hch
      rw [hplain] at hch
      simpa using List.mem_takeWhile_imp hch
    have hfind : find text (· = '$') (front ++ pending).length = .ok (front ++ (pending ++ plain)).length := by
      rw [htext, ← List.append_assoc, find_here, ← hplain, List.append_assoc]
    have htext' : text = front ++ (pending ++ plain ++ behind) := by rw [htext, hrest, List.append_assoc]
    have hloop : Reads value behind (ss ++ pending ++ plain)
        (parseLoop value text (turns + 1) front.length (front ++ (pending ++ plain)).length ss) := by
      rw [List.append_assoc]
      cases hdollar : behind with
      | nil =>
        rw [hdollar, List.append_nil] at htext'
        rw [htext', parseLoop_end]
        exact .inl ⟨[], .nil, by rw [List.append_nil]⟩
      | cons ch behind' =>
        have hch : ch = '$' := by
          have hhead := List.head?_dropWhile_not (fun ch => !decide (ch = '$')) rest
          rw [← hbehind, hdollar] at hhead
          simpa using hhead
        rw [hch]
        refine parseLoop_turn ih (by rw [htext', hdollar, hch]) ?_
        rw [hrest, hdollar, List.length_append, List.length_cons] at hturns
        omega
    rw [hfind, ok_bind, hrest]
    exact hloop.map (fun out hout => hout.plain hfree) fun hopen => hopen.plain hfree

theorem parseEnvVal_reads (value : Text → Text) (text : Text) : Reads value text [] (parseEnvVal value text) :=
  parseLoop_readsOn text (text.length + 1) [] [] text [] rfl (Nat.lt_succ_self _)

/-! ## A text has one expansion or none -/

theorem expands_nil : Expands value [] out ↔ out = [] := by
  constructor
  · intro h
    cases h with
    | nil => rfl
  · rintro rfl
    exact .nil

theorem not_lone {ch : Char} {rest : Text} (hch : ch = '(' ∨ ch = '$') : ¬Lone (ch :: rest) := by
  intro hlone
  obtain ⟨hopening, hdollar⟩ := hlone ch rfl
  exact hch.elim hopening hdollar

theorem expands_dollar : Expands value ('$' :: '$' :: rest) out ↔ ∃ out', out = '$' :: out' ∧ Expands value rest out' := by
  constructor
  · intro h
    cases h with
    | dollar h => exact ⟨_, rfl, h⟩
    | copied hlone h => exact absurd (hlone rfl) (not_lone (.inr rfl))
  · rintro ⟨out', rfl, h⟩
    exact .dollar h

theorem expands_variable : Expands value ('$' :: '(' :: rest) out ↔ ∃ name behind out',
    rest = name ++ ')' :: behind ∧ Balanced '(' ')' name ∧ out = value name ++ out' ∧ Expands value behind out' := by
  constructor
  · intro h
    generalize htext : '$' :: '(' :: rest = text at h
    cases h with
    | nil => cases htext
    | dollar h => cases htext
    | «variable» hname h =>
      obtain rfl := (List.cons.inj (List.cons.inj htext).2).2
      exact ⟨_, _, _, rfl, hname, rfl, h⟩
    | copied hlone h =>
      obtain ⟨rfl, rfl⟩ := List.cons.inj htext
      exact absurd (hlone rfl) (not_lone (.inl rfl))
  · rintro ⟨name, behind, out', rfl, hname, rfl, h⟩
    exact .variable hname h

theorem expands_copied {ch : Char} (hch : ch = '$' → Lone rest) :
    Expands value (ch :: rest) out ↔ ∃ out', out = ch :: out' ∧ Expands value rest out' := by
  constructor
  · intro h
    cases h with
    | dollar h => exact absurd (hch rfl) (not_lone (.inr rfl))
    | «variable» hname h => exact absurd (hch rfl) (not_lone (.inl rfl))
    | copied hlone h => exact ⟨_, rfl, h⟩
  · rintro ⟨out', rfl, h⟩
    exact .copied hch h

theorem unclosed_variable : Unclosed ('$' :: '(' :: rest) ↔
    (∀ name behind, rest = name ++ ')' :: behind → ¬Balanced '(' ')' name) ∨
      ∃ name behind, rest = name ++ ')' :: behind ∧ Balanced '(' ')' name ∧ Unclosed behind := by
  constructor
  · intro h
    generalize htext : '$' :: '(' :: rest = text at h
    cases h with
    | here hopen =>
      obtain rfl := (List.cons.inj (List.cons.inj htext).2).2
      exact .inl hopen
    | dollar h => cases htext
    | «variable» hname h =>
      obtain rfl := (List.cons.inj (List.cons.inj htext).2).2
      exact .inr ⟨_, _, rfl, hname, h⟩
    | copied hlone h =>
      obtain ⟨rfl, rfl⟩ := List.cons.inj htext
      exact absurd (hlone rfl) (not_lone (.inl rfl))
  · rintro (hopen | ⟨name, behind, rfl, hname, h⟩)
    · exact .here hopen
    · exact .variable hname h

theorem Expands.unique {text out' : Text} (h : Expands value text out) (h' : Expands value text out') : out = out' := by
  induction h generalizing out' with
  | nil => exact (expands_nil.mp h').symm
  | dollar _ ih =>
    obtain ⟨rest', rfl, hrest⟩ := expands_dollar.mp h'
    rw [ih hrest]
  | «variable» hname _ ih =>
    obtain ⟨name', behind', rest', heq, hname', rfl, hrest⟩ := expands_variable.mp h'
    obtain ⟨rfl, rfl⟩ := hname.unique (by decide) hname' heq
    rw [ih hrest]
  | copied hch _ ih =>
    obtain ⟨rest', rfl, hrest⟩ := (expands_copied hch).mp h'
    rw [ih hrest]

theorem Expands.not_unclosed {text : Text} (h : Expands value text out) : ¬Unclosed text := by
  intro hopen
  induction h with
  | nil => cases hopen
  | dollar _ ih =>
    cases hopen with
    | dollar h => exact ih h
    | copied hlone h => exact not_lone (.inr rfl) (hlone rfl)
  | «variable» hname _ ih =>
    rcases unclosed_variable.mp hopen with hnone | ⟨name', behind', heq, hname', h⟩
    · exact hnone _ _ rfl hname
    · obtain ⟨rfl, rfl⟩ := hname.unique (by decide) hname' heq
      exact ih h
  | copied hch _ ih =>
    cases hopen with
    | here hopen => exact not_lone (.inl rfl) (hch rfl)
    | dollar h => exact not_lone (.inr rfl) (hch rfl)
    | «variable» hname h => exact not_lone (.inl rfl) (hch rfl)
    | copied hlone h => exact ih h

theorem expands_doubled (value : Text → Text) (text : Text) : Expands value (doubled text) text := by
  induction text with
  | nil => exact .nil
  | cons ch text ih =>
    unfold doubled at ih ⊢
    rw [List.flatMap_cons]
    by_cases hch : ch = '$'
    · rw [if_pos hch, hch]
      exact .dollar ih
    · rw [if_neg hch]
      exact .copied (fun heq => absurd heq hch) ih

end

/-! ## The scan of the model of `parse` -/

section
variable (env : Environment)

theorem scanEnvVal_dollar (rest : Text) :
    scanEnvVal env none ('$' :: '$' :: rest) = (scanEnvVal env none rest).map fun out => '$' :: out := rfl

theorem scanEnvVal_cons (n : ℕ) (name : Text) (ch : Char) (rest : Text) :
    scanEnvVal env (some (n, name)) (ch :: rest) =
      if ch = ')' ∧ n = 0 then (scanEnvVal env none rest).map fun out => getEnv env name ++ out
      else scanEnvVal env (some (toClose '(' ')' n ch, name ++ [ch])) rest := rfl

theorem close_cons (n : ℕ) (ch : Char) (rest : Text) :
    close '(' ')' n (ch :: rest) =
      if ch = ')' ∧ n = 0 then some ([], rest)
      else (close '(' ')' (toClose '(' ')' n ch) rest).map fun found => (ch :: found.1, found.2) := rfl

theorem scanEnvVal_variable (n : ℕ) (name text : Text) : scanEnvVal env (some (n, name)) text =
    (close '(' ')' n text).bind fun found =>
      (scanEnvVal env none found.2).map fun out => getEnv env (name ++ found.1) ++ out := by
  induction text generalizing n name with
  | nil => rfl
  | cons ch text ih =>
    rw [scanEnvVal_cons, close_cons]
    by_cases hend : ch = ')' ∧ n = 0
    · rw [if_pos hend, if_pos hend, Option.bind_some, List.append_nil]
    · rw [if_neg hend, if_neg hend, ih]
      cases close '(' ')' (toClose '(' ')' n ch) text with
      | none => rfl
      | some found => simp

theorem scanEnvVal_opening (rest : Text) : scanEnvVal env none ('$' :: '(' :: rest) =
    (close '(' ')' 0 rest).bind fun found => (scanEnvVal env none found.2).map fun out => getEnv env found.1 ++ out := by
  exact scanEnvVal_variable env 0 [] rest

theorem scanEnvVal_copied {ch : Char} {rest : Text} (hch : ch = '$' → Lone rest) :
    scanEnvVal env none (ch :: rest) = (scanEnvVal env none rest).map fun out => ch :: out := by
  rw [scanEnvVal]
  · rintro behind rfl rfl
    exact not_lone (.inr rfl) (hch rfl)
  · rintro behind rfl rfl
    exact not_lone (.inl rfl) (hch rfl)

theorem scanEnvVal_expands {text out : Text} (h : Expands (getEnv env) text out) :
    scanEnvVal env none text = some out := by
  induction h with
  | nil => rfl
  | dollar _ ih =>
    rw [scanEnvVal_dollar, ih]
    rfl
  | «variable» hname _ ih =>
    rw [scanEnvVal_opening, (close_eq_some_iff (by decide)).mpr ⟨rfl, hname⟩, Option.bind_some, ih]
    rfl
  | copied hch _ ih =>
    rw [scanEnvVal_copied env hch, ih]
    rfl

theorem scanEnvVal_unclosed {text : Text} (h : Unclosed text) : scanEnvVal env none text = none := by
  induction h with
  | here hopen => rw [scanEnvVal_opening, (close_eq_none_iff (by decide)).mpr hopen, Option.bind_none]
  | dollar _ ih =>
    rw [scanEnvVal_dollar, ih]
    rfl
  | «variable» hname _ ih =>
    rw [scanEnvVal_opening, (close_eq_some_iff (by decide)).mpr ⟨rfl, hname⟩, Option.bind_some, ih]
    rfl
  | copied hch _ ih =>
    rw [scanEnvVal_copied env hch, ih]
    rfl

/-- The iterators do what `parse` takes `parse_env_val` to do. -/
theorem parseEnvVal_scan (text : Text) : parseEnvVal (getEnv env) text = .ok (Process.parseEnvVal env text) := by
  rw [Process.parseEnvVal]
  rcases parseEnvVal_reads (getEnv env) text with ⟨out, hout, hresult⟩ | ⟨hopen, hresult⟩
  · rw [hresult, scanEnvVal_expands env hout]
    rfl
  · rw [hresult, scanEnvVal_unclosed env hopen]

end

/-- `parse_env_val` ends, reads nothing outside the text and gives what the text expands to, or throws if a variable
is not closed. A text with every dollar sign doubled comes back. -/
theorem parseEnvVal_expands (value : Text → Text) (text : Text) :
    (∃ result, parseEnvVal value text = .ok result) ∧
      (∀ out, parseEnvVal value text = .ok (some out) ↔ Expands value text out) ∧
      (parseEnvVal value text = .ok none ↔ Unclosed text) ∧
      parseEnvVal value (doubled text) = .ok (some text) := by
  have hdoubled : parseEnvVal value (doubled text) = .ok (some text) := by
    rcases parseEnvVal_reads value (doubled text) with ⟨out, hout, hresult⟩ | ⟨hopen, -⟩
    · rw [hresult, hout.unique (expands_doubled value text)]
      rfl
    · exact absurd hopen (expands_doubled value text).not_unclosed
  rcases parseEnvVal_reads value text with ⟨out, hout, hresult⟩ | ⟨hopen, hresult⟩
  · refine ⟨⟨_, hresult⟩, fun out' => ?_, ?_, hdoubled⟩
    · rw [hresult, List.nil_append, Except.ok.injEq, Option.some.injEq]
      constructor
      · rintro rfl
        exact hout
      · exact hout.unique
    · rw [hresult]
      exact iff_of_false nofun hout.not_unclosed
  · refine ⟨⟨_, hresult⟩, fun out => ?_, ?_, hdoubled⟩
    · rw [hresult]
      exact iff_of_false nofun fun hout => hout.not_unclosed hopen
    · rw [hresult]
      exact iff_of_true rfl hopen

end Sunshine.EnvVal
