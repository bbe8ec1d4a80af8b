import Sunshine.Lib.Globs

/-! The udev rule for the virtual input devices of a seat: `assign_device_to_seat` writes it, and udev reads it.

The rules of udev that this needs are written down here: quoted values, patterns, and substitutions in what is assigned.
`seat_rule_iff` says for which seats the rule tags their own devices only. -/
namespace Sunshine.SeatRule
open Globs
set_option autoImplicit false

abbrev Text := List Char

/-! ## The rule -/

def seat0 : Text := "seat0".toList

def seatValid (seat : Text) : Bool := seat ≠ [] ∧ seat ≠ seat0

def seatSafeForRule (seat : Text) : Bool := '"' ∉ seat ∧ '\\' ∉ seat ∧ '\n' ∉ seat

/-- Up to the rule, `assign_device_to_seat` refuses nothing else. -/
def accepts (seat : Text) : Bool := seatValid seat && seatSafeForRule seat

def header : Text := "# Auto-generated by SolarFlare for input seat isolation\n".toList

def placeholder : Text := "@SEAT@".toList

/-- `RULE_TEMPLATE`. -/
def ruleTemplate : Text :=
  ("SUBSYSTEM==\"input\", KERNEL==\"event*|js*\", ATTRS\x7bname\x7d==\"* (@SEAT@)\", TAG+=\"seat\", " ++
    "ENV\x7bID_SEAT\x7d=\"@SEAT@\"\n").toList

/-- The loop over the template. -/
def fill (seat : Text) : ℕ → Text → Text
  | 0, _ => []
  | _ + 1, [] => []
  | fuel + 1, c :: text =>
    if placeholder.isPrefixOf (c :: text) then seat ++ fill seat fuel (text.drop 5) else c :: fill seat fuel text

def buildRuleContent (seat : Text) : Text := header ++ fill seat ruleTemplate.length ruleTemplate

/-- `inputtino_name_for_seat`. -/
def nameForSeat (base seat : Text) : Text :=
  if seat = [] ∨ seat = seat0 then base else base ++ " (".toList ++ seat ++ [')']

/-! ## udev -/

inductive Operator where
  | equal
  | notEqual
  | add
  | remove
  | assign
  | assignFinal
  deriving DecidableEq

structure Pair where
  key : Text
  operator : Operator
  value : Text
  deriving DecidableEq

def readOperator : Text → Option (Operator × Text)
  | '=' :: '=' :: text => some (.equal, text)
  | '!' :: '=' :: text => some (.notEqual, text)
  | '+' :: '=' :: text => some (.add, text)
  | '-' :: '=' :: text => some (.remove, text)
  | ':' :: '=' :: text => some (.assignFinal, text)
  | '=' :: text => some (.assign, text)
  | _ => none

def isKeyChar (c : Char) : Bool := c ∉ ['=', '!', '+', '-', ':', ' ', '\t', ',', '"']

def isGap (c : Char) : Bool := c ∈ [' ', '\t', ',']

/-- The value up to the closing quote. -/
def readValue (key : Text) (operator : Operator) (quoted : Text) : Option (Pair × Text) :=
  match quoted.dropWhile fun c => c ≠ '"' with
  | [] => none
  | _ :: rest => some (⟨key, operator, quoted.takeWhile fun c => c ≠ '"'⟩, rest)

def readPair (text : Text) : Option (Pair × Text) :=
  match readOperator (text.dropWhile isKeyChar) with
  | some (operator, '"' :: quoted) => readValue (text.takeWhile isKeyChar) operator quoted
  | _ => none

def readPairs : ℕ → Text → Option (List Pair)
  | 0, _ => none
  | fuel + 1, text =>
    if text.dropWhile isGap = [] then some []
    else (readPair (text.dropWhile isGap)).bind fun read => (readPairs fuel read.2).map fun pairs => read.1 :: pairs

/-- A comment is a rule without pairs. -/
def readRule (line : Text) : Option (List Pair) := if line.head? = some '#' then some [] else readPairs (line.length + 1) line

def readRules (content : Text) : List (List Pair) := (content.splitOn '\n').filterMap readRule

/-- What a substitution stands for: the character itself where it is doubled, or a value of the device. -/
inductive Substitution (Name : Type) where
  | itself (c : Char)
  | value (name : Name)

/-- The brackets of a pattern, and the substitutions at the front of a text: two characters at least. -/
structure Udev (Name : Type) where
  brackets : Brackets
  substitution : Text → Option (Substitution Name × Text)
  length_substitution : ∀ text found rest, substitution text = some (found, rest) → rest.length + 2 ≤ text.length

structure Device where
  subsystem : Text
  kernel : Text
  name : Text

def Device.attribute? (device : Device) (key : Text) : Option Text :=
  if key = "SUBSYSTEM".toList then some device.subsystem
  else if key = "KERNEL".toList then some device.kernel
  else if key = "ATTRS\x7bname\x7d".toList then some device.name
  else none

section Udev
variable {Name : Type} (udev : Udev Name)

/-- A value with its substitutions. -/
def substitute (values : Name → Text) : ℕ → Text → Text
  | 0, _ => []
  | _ + 1, [] => []
  | fuel + 1, c :: text =>
    match udev.substitution (c :: text) with
    | some (.itself c', rest) => c' :: substitute values fuel rest
    | some (.value name, rest) => values name ++ substitute values fuel rest
    | none => c :: substitute values fuel text

def holds (device : Device) (pair : Pair) : Bool :=
  match pair.operator with
  | .equal => (device.attribute? pair.key).any (valueMatch udev.brackets pair.value)
  | .notEqual => (device.attribute? pair.key).any fun text => !valueMatch udev.brackets pair.value text
  | _ => true

/-- The seat that a rule assigns. -/
def ruleSeat (values : Name → Text) (device : Device) (rule : List Pair) : Option Text :=
  if rule.all (holds udev device) then
    ((rule.filter fun pair => pair.key = "ENV\x7bID_SEAT\x7d".toList ∧ pair.operator = .assign).getLast?).map fun pair =>
      substitute udev values pair.value.length pair.value
  else none

/-- The seat that a device gets from the rules, the last of which counts. -/
def assignedSeat (values : Name → Text) (content : Text) (device : Device) : Option Text :=
  ((readRules content).filterMap (ruleSeat udev values device)).getLast?

/-- An event or joystick node. -/
def InputNode (device : Device) : Prop :=
  valueMatch udev.brackets "input".toList device.subsystem = true ∧
    valueMatch udev.brackets "event*|js*".toList device.kernel = true

/-- The devices named for the seat are matched and no others, the seat assigned is the seat, and no device named for the
other seat is matched. -/
structure TagsOwn (seat other : Text) : Prop where
  own : ∀ values device, InputNode udev device →
    ((assignedSeat udev values (buildRuleContent seat) device).isSome = true ↔ ∃ base, device.name = nameForSeat base seat)
  assigns : ∀ values device found, assignedSeat udev values (buildRuleContent seat) device = some found → found = seat
  others : ∀ values device base, device.name = nameForSeat base other →
    assignedSeat udev values (buildRuleContent seat) device = none

/-- The seat, in its parentheses, is no pattern, and no substitution starts in it. -/
structure Plain (seat : Text) : Prop where
  literal : Literal udev.brackets (" (".toList ++ seat ++ [')'])
  unsubstituted : ∀ c text, c :: text <:+ seat → udev.substitution (c :: text) = none

end Udev

/-- Neither seat ends with the other as it stands in a name. -/
def Apart (seat other : Text) : Prop := ¬" (".toList ++ seat <:+ other ∧ ¬" (".toList ++ other <:+ seat

/-! ## Reading the rule -/

/-- The rule up to the first seat, between the two, and behind the second. -/
def beforeSeat : Text := "SUBSYSTEM==\"input\", KERNEL==\"event*|js*\", ATTRS\x7bname\x7d==\"* (".toList

def betweenSeats : Text := ")\", TAG+=\"seat\", ENV\x7bID_SEAT\x7d=\"".toList

set_option maxRecDepth 8000 in
theorem fill_template (seat : Text) : fill seat ruleTemplate.length ruleTemplate =
    beforeSeat ++ (seat ++ (betweenSeats ++ (seat ++ ['"', '\n']))) := by
  unfold ruleTemplate beforeSeat betweenSeats
  rw [String.toList_append]
  repeat rw [String.toList_ofList]
  rfl

def ruleLine (seat : Text) : Text := beforeSeat ++ (seat ++ (betweenSeats ++ (seat ++ ['"'])))

def namePattern (seat : Text) : Text := '*' :: (" (".toList ++ seat ++ [')'])

def namePair (seat : Text) : Pair := ⟨"ATTRS\x7bname\x7d".toList, .equal, namePattern seat⟩

def rulePairs (seat : Text) : List Pair := [
  ⟨"SUBSYSTEM".toList, .equal, "input".toList⟩, ⟨"KERNEL".toList, .equal, "event*|js*".toList⟩,
  namePair seat, ⟨"TAG".toList, .add, "seat".toList⟩,
  ⟨"ENV\x7bID_SEAT\x7d".toList, .assign, seat⟩]

theorem takeWhile_stop {p : Char → Bool} {front : Text} {c : Char} {rest : Text} (hfront : ∀ c ∈ front, p c = true)
    (hc : p c = false) : (front ++ c :: rest).takeWhile p = front := by
  rw [List.takeWhile_append_of_pos hfront, List.takeWhile_cons_of_neg (by simp [hc]), List.append_nil]

theorem dropWhile_stop {p : Char → Bool} {front : Text} {c : Char} {rest : Text} (hfront : ∀ c ∈ front, p c = true)
    (hc : p c = false) : (front ++ c :: rest).dropWhile p = c :: rest := by
  rw [List.dropWhile_append_of_pos hfront, List.dropWhile_cons_of_neg (by simp [hc])]

/-- An operator as it is written. -/
structure Written (operator : Operator) (first : Char) (others : Text) : Prop where
  read : ∀ text, readOperator (first :: (others ++ '"' :: text)) = some (operator, '"' :: text)
  noKey : isKeyChar first = false

theorem written_equal : Written .equal '=' ['='] := ⟨fun _ => rfl, rfl⟩

theorem written_add : Written .add '+' ['='] := ⟨fun _ => rfl, rfl⟩

theorem written_assign : Written .assign '=' [] := ⟨fun _ => rfl, rfl⟩

theorem readPair_written {operator : Operator} {first : Char} {others : Text} (hwritten : Written operator first others)
    {key value : Text} (hkey : ∀ c ∈ key, isKeyChar c = true) (hvalue : '"' ∉ value) (rest : Text) :
    readPair (key ++ first :: (others ++ '"' :: (value ++ '"' :: rest))) = some (⟨key, operator, value⟩, rest) := by
  have hquote : ∀ c ∈ value, (fun c => decide (c ≠ '"')) c = true := fun c hc => decide_eq_true fun h => hvalue (h ▸ hc)
  unfold readPair
  rw [dropWhile_stop hkey hwritten.noKey, hwritten.read, takeWhile_stop hkey hwritten.noKey]
  show readValue key operator (value ++ '"' :: rest) = _
  unfold readValue
  rw [dropWhile_stop hquote (by decide), takeWhile_stop hquote (by decide)]

theorem readPairs_written {operator : Operator} {first : Char} {others : Text} (hwritten : Written operator first others)
    {gap value : Text} {initial : Char} {key : Text} (hgap : gap.all isGap = true) (hinitial : isGap initial = false)
    (hkey : (initial :: key).all isKeyChar = true) (hvalue : '"' ∉ value) (fuel : ℕ) (rest : Text) :
    readPairs (fuel + 1) (gap ++ (initial :: key) ++ first :: (others ++ '"' :: (value ++ '"' :: rest))) =
      (readPairs fuel rest).map fun pairs => ⟨initial :: key, operator, value⟩ :: pairs := by
  have htext : (gap ++ (initial :: key) ++ first :: (others ++ '"' :: (value ++ '"' :: rest))).dropWhile isGap =
      (initial :: key) ++ first :: (others ++ '"' :: (value ++ '"' :: rest)) := by
    rw [List.append_assoc]
    exact dropWhile_stop (List.all_eq_true.mp hgap) hinitial
  rw [readPairs, htext, if_neg (by simp), readPair_written hwritten (List.all_eq_true.mp hkey) hvalue]
  rfl

theorem readPairs_end (fuel : ℕ) : readPairs (fuel + 1) [] = some [] := rfl

/-- The rule of a seat without quotes has its five pairs. -/
theorem readRule_ruleLine {seat : Text} (hquote : '"' ∉ seat) : readRule (ruleLine seat) = some (rulePairs seat) := by
  have hpattern : '"' ∉ namePattern seat := by
    unfold namePattern
    rw [String.toList_ofList]
    simp [hquote]
  have hline : ruleLine seat = [] ++ ('S' :: "UBSYSTEM".toList) ++ '=' :: (['='] ++ '"' :: ("input".toList ++ '"' ::
      (", ".toList ++ ('K' :: "ERNEL".toList) ++ '=' :: (['='] ++ '"' :: ("event*|js*".toList ++ '"' ::
      (", ".toList ++ ('A' :: "TTRS\x7bname\x7d".toList) ++ '=' :: (['='] ++ '"' :: (namePattern seat ++ '"' ::
      (", ".toList ++ ('T' :: "AG".toList) ++ '+' :: (['='] ++ '"' :: ("seat".toList ++ '"' ::
      (", ".toList ++ ('E' :: "NV\x7bID_SEAT\x7d".toList) ++ '=' :: ([] ++ '"' :: (seat ++ '"' :: [])))))))))))))) := by
    unfold ruleLine beforeSeat betweenSeats namePattern
    repeat rw [String.toList_ofList]
    simp only [List.cons_append, List.nil_append, List.append_assoc]
  have hhead : (ruleLine seat).head? ≠ some '#' := by
    rw [hline]
    exact fun h => absurd (Option.some.inj h) (by decide)
  obtain ⟨fuel, hfuel⟩ : ∃ fuel, (ruleLine seat).length + 1 = fuel + 6 := by
    refine ⟨(ruleLine seat).length - 5, ?_⟩
    have hlong : 5 ≤ (ruleLine seat).length := by
      rw [hline]
      simp only [List.nil_append, List.cons_append, List.length_cons, List.length_append]
      omega
    omega
  rw [readRule, if_neg hhead, hfuel, hline]
  rw [readPairs_written written_equal (by decide +kernel) (by decide +kernel) (by decide +kernel) (by decide +kernel),
    readPairs_written written_equal (by decide +kernel) (by decide +kernel) (by decide +kernel) (by decide +kernel),
    readPairs_written written_equal (by decide +kernel) (by decide +kernel) (by decide +kernel) hpattern,
    readPairs_written written_add (by decide +kernel) (by decide +kernel) (by decide +kernel) (by decide +kernel),
    readPairs_written written_assign (by decide +kernel) (by decide +kernel) (by decide +kernel) hquote, readPairs_end]
  rfl

/-! ## The seat that is assigned -/

section Assigned
variable {Name : Type} {udev : Udev Name} {values : Name → Text} {device : Device} {seat other : Text}

theorem lines_content (hnewline : '\n' ∉ seat) : (buildRuleContent seat).splitOn '\n' =
    ["# Auto-generated by SolarFlare for input seat isolation".toList, ruleLine seat, []] := by
  have hcontent : buildRuleContent seat = "# Auto-generated by SolarFlare for input seat isolation".toList ++
      '\n' :: (ruleLine seat ++ '\n' :: []) := by
    unfold buildRuleContent header ruleLine
    rw [fill_template]
    repeat rw [String.toList_ofList]
    simp only [List.cons_append, List.nil_append, List.append_assoc]
  have hline : '\n' ∉ ruleLine seat := by
    unfold ruleLine beforeSeat betweenSeats
    repeat rw [String.toList_ofList]
    simp [hnewline]
  have hstop : ∀ text : Text, '\n' ∉ text → ∀ c ∈ text, (c == '\n') = false := fun text htext c hc =>
    beq_eq_false_iff_ne.mpr fun h => htext (h ▸ hc)
  rw [hcontent, List.splitOn_eq_splitOnP, List.splitOnP_append_cons_of_forall_mem (hstop _ (by decide +kernel)) '\n' rfl,
    List.splitOnP_append_cons_of_forall_mem (hstop _ hline) '\n' rfl]
  rfl

theorem all_holds_iff : (rulePairs seat).all (holds udev device) = true ↔
    InputNode udev device ∧ valueMatch udev.brackets (namePattern seat) device.name = true := by
  have hsubsystem : device.attribute? "SUBSYSTEM".toList = some device.subsystem := if_pos rfl
  have hkernel : device.attribute? "KERNEL".toList = some device.kernel :=
    (if_neg (by decide)).trans (if_pos rfl)
  have hname : device.attribute? "ATTRS\x7bname\x7d".toList = some device.name :=
    (if_neg (by decide)).trans ((if_neg (by decide)).trans (if_pos rfl))
  unfold rulePairs namePair InputNode
  simp only [List.all_cons, List.all_nil, holds, hsubsystem, hkernel, hname, Option.any_some, Bool.and_true,
    Bool.and_eq_true, and_assoc]

/-- The rule assigns the seat, with its substitutions, to the devices that it matches. -/
theorem assignedSeat_content (haccepts : accepts seat = true) (values : Name → Text) (device : Device) :
    assignedSeat udev values (buildRuleContent seat) device =
      if (rulePairs seat).all (holds udev device) = true then some (substitute udev values seat.length seat) else none := by
  have hsafe : '"' ∉ seat ∧ '\\' ∉ seat ∧ '\n' ∉ seat :=
    of_decide_eq_true (Bool.and_eq_true _ _ ▸ haccepts : seatValid seat = true ∧ seatSafeForRule seat = true).2
  have hheader : readRule "# Auto-generated by SolarFlare for input seat isolation".toList = some [] := if_pos (by decide)
  have hempty : readRule [] = some [] := rfl
  have hnothing : ruleSeat udev values device [] = none := rfl
  have hassigns : (rulePairs seat).filter (fun pair => pair.key = "ENV\x7bID_SEAT\x7d".toList ∧ pair.operator = .assign) =
      [⟨"ENV\x7bID_SEAT\x7d".toList, .assign, seat⟩] := by
    unfold rulePairs
    have hname : ¬(fun pair : Pair => decide (pair.key = "ENV\x7bID_SEAT\x7d".toList ∧ pair.operator = .assign))
        (namePair seat) = true :=
      fun h => Operator.noConfusion (of_decide_eq_true h).2
    rw [List.filter_cons_of_neg (by decide), List.filter_cons_of_neg (by decide),
      @List.filter_cons_of_neg _
        (fun pair : Pair => decide (pair.key = "ENV\x7bID_SEAT\x7d".toList ∧ pair.operator = .assign)) (namePair seat) _ hname,
      List.filter_cons_of_neg (by decide), @List.filter_cons_of_pos _
        (fun pair : Pair => decide (pair.key = "ENV\x7bID_SEAT\x7d".toList ∧ pair.operator = .assign))
        ⟨"ENV\x7bID_SEAT\x7d".toList, .assign, seat⟩ _ (decide_eq_true ⟨rfl, rfl⟩), List.filter_nil]
  unfold assignedSeat readRules
  rw [lines_content hsafe.2.2]
  simp only [List.filterMap_cons, List.filterMap_nil, hheader, hempty, readRule_ruleLine hsafe.1, hnothing]
  unfold ruleSeat
  rw [hassigns]
  split_ifs
  · rfl
  · rfl

theorem substitute_plain {text : Text} (h : ∀ c rest, c :: rest <:+ text → udev.substitution (c :: rest) = none) {fuel : ℕ}
    (hfuel : text.length ≤ fuel) : substitute udev values fuel text = text := by
  induction text generalizing fuel with
  | nil => cases fuel <;> rfl
  | cons c text ih =>
    obtain ⟨fuel, rfl⟩ : ∃ n, fuel = n + 1 := ⟨fuel - 1, by rw [List.length_cons] at hfuel; omega⟩
    have hrest := ih (fun c' rest hrest => h c' rest (hrest.trans (List.suffix_cons c text))) (Nat.le_of_succ_le_succ hfuel)
    rw [substitute, h c text (List.suffix_refl _)]
    exact congrArg (c :: ·) hrest

/-- Where all values are empty, a substitution makes the text shorter. -/
theorem length_substitute (fuel : ℕ) (text : Text) (hfuel : text.length ≤ fuel) :
    (substitute udev (fun _ => []) fuel text).length ≤ text.length ∧
      ((∃ c rest, c :: rest <:+ text ∧ udev.substitution (c :: rest) ≠ none) →
        (substitute udev (fun _ => []) fuel text).length < text.length) := by
  induction fuel generalizing text with
  | zero =>
    obtain rfl := List.length_eq_zero_iff.mp (Nat.le_zero.mp hfuel)
    exact ⟨le_rfl, fun ⟨c, rest, hrest, _⟩ => absurd hrest (by simp)⟩
  | succ fuel ih =>
    cases text with
    | nil => exact ⟨le_rfl, fun ⟨c, rest, hrest, _⟩ => absurd hrest (by simp)⟩
    | cons c text =>
      have hfuel' : text.length ≤ fuel := Nat.le_of_succ_le_succ hfuel
      rw [substitute, List.length_cons]
      split
      · next c' rest hfound =>
        have hlength := udev.length_substitution _ _ _ hfound
        rw [List.length_cons] at hlength
        have hrest := (ih rest (by omega)).1
        rw [List.length_cons]
        exact ⟨by omega, fun _ => by omega⟩
      · next name rest hfound =>
        have hlength := udev.length_substitution _ _ _ hfound
        rw [List.length_cons] at hlength
        have hrest := (ih rest (by omega)).1
        rw [List.nil_append]
        exact ⟨by omega, fun _ => by omega⟩
      · next hnone =>
        obtain ⟨hle, hlt⟩ := ih text hfuel'
        rw [List.length_cons]
        refine ⟨Nat.succ_le_succ hle, fun ⟨c', rest, hsuffix, hfound⟩ => Nat.succ_lt_succ (hlt ⟨c', rest, ?_, hfound⟩)⟩
        refine (List.suffix_cons_iff.mp hsuffix).resolve_left fun heq => ?_
        rw [heq] at hfound
        exact hfound hnone

/-! ## Which seats are safe -/

theorem nameForSeat_eq (haccepts : accepts seat = true) (base : Text) :
    nameForSeat base seat = base ++ (" (".toList ++ seat ++ [')']) := by
  have hvalid : seat ≠ [] ∧ seat ≠ seat0 :=
    of_decide_eq_true (Bool.and_eq_true _ _ ▸ haccepts : seatValid seat = true ∧ seatSafeForRule seat = true).1
  rw [nameForSeat, if_neg (not_or.mpr hvalid)]
  simp only [List.append_assoc]

theorem inputNode_event (udev : Udev Name) (name : Text) :
    InputNode udev ⟨"input".toList, "event0".toList, name⟩ := by
  unfold InputNode
  repeat rw [String.toList_ofList]
  exact ⟨rfl, rfl⟩

theorem isSome_assignedSeat (haccepts : accepts seat = true) (hnode : InputNode udev device) :
    (assignedSeat udev values (buildRuleContent seat) device).isSome = true ↔
      valueMatch udev.brackets (namePattern seat) device.name = true := by
  rw [assignedSeat_content haccepts]
  have hall := @all_holds_iff _ udev device seat
  split_ifs with h
  · exact iff_of_true rfl (hall.mp h).2
  · exact iff_of_false Bool.false_ne_true fun hname => h (hall.mpr ⟨hnode, hname⟩)

theorem own_iff (haccepts : accepts seat = true) :
    (∀ (values : Name → Text) (device : Device), InputNode udev device →
      ((assignedSeat udev values (buildRuleContent seat) device).isSome = true ↔
        ∃ base, device.name = nameForSeat base seat)) ↔ Literal udev.brackets (" (".toList ++ seat ++ [')']) := by
  have hnamed : ∀ name : Text, (∃ base, name = nameForSeat base seat) ↔ " (".toList ++ seat ++ [')'] <:+ name := by
    intro name
    simp only [nameForSeat_eq haccepts]
    exact ⟨fun ⟨base, h⟩ => ⟨base, h.symm⟩, fun ⟨base, h⟩ => ⟨base, h.symm⟩⟩
  rw [← suffix_pattern_iff]
  constructor
  · intro h name
    have hnode := inputNode_event udev name
    exact (isSome_assignedSeat haccepts hnode).symm.trans ((h (fun _ => []) _ hnode).trans (hnamed name))
  · intro h values device hnode
    exact (isSome_assignedSeat haccepts hnode).trans ((h device.name).trans (hnamed device.name).symm)

theorem suffix_open_iff (text text' : Text) : " (".toList ++ text <:+ " (".toList ++ text' ↔
    text = text' ∨ " (".toList ++ text <:+ text' := by
  rw [String.toList_ofList]
  show ' ' :: '(' :: text <:+ ' ' :: '(' :: text' ↔ text = text' ∨ ' ' :: '(' :: text <:+ text'
  rw [List.suffix_cons_iff, List.suffix_cons_iff]
  simp

/-- A name of the one seat ends as the names of the other exactly if one seat ends with the other. -/
theorem apart_iff (hne : other ≠ seat) :
    (∀ base, ¬" (".toList ++ seat ++ [')'] <:+ base ++ (" (".toList ++ other ++ [')'])) ↔ Apart seat other := by
  have hclose : ∀ base : Text, (" (".toList ++ seat ++ [')'] <:+ base ++ (" (".toList ++ other ++ [')'])) ↔
      " (".toList ++ seat <:+ base ++ (" (".toList ++ other) := by
    intro base
    rw [← List.append_assoc]
    exact List.suffix_append_self_iff
  simp only [hclose]
  constructor
  · intro h
    refine ⟨fun hsuffix => h [] ((suffix_open_iff seat other).mpr (.inr hsuffix)), fun hsuffix => ?_⟩
    obtain ⟨front, hfront⟩ := (suffix_open_iff other seat).mpr (.inr hsuffix)
    exact h front (hfront ▸ List.suffix_refl _)
  · rintro ⟨hseat, hother⟩ base hsuffix
    obtain hlong | hshort := le_total (" (".toList ++ seat).length (" (".toList ++ other).length
    · have hend := List.suffix_of_suffix_length_le hsuffix (List.suffix_append base _) hlong
      exact ((suffix_open_iff seat other).mp hend).elim (fun heq => hne heq.symm) hseat
    · have hend := List.suffix_of_suffix_length_le (List.suffix_append base _) hsuffix hshort
      exact ((suffix_open_iff other seat).mp hend).elim hne hother

end Assigned

/-- A seat that is accepted gets its own devices, beside those of another seat, exactly if it is neither a pattern nor has
substitutions, and neither seat ends with the other. -/
theorem seat_rule_iff {Name : Type} (udev : Udev Name) (seat other : Text) (haccepts : accepts seat = true)
    (hother : accepts other = true) (hne : other ≠ seat) :
    TagsOwn udev seat other ↔ Plain udev seat ∧ Apart seat other := by
  have hnode := inputNode_event udev
  constructor
  · rintro ⟨hown, hassigns, hothers⟩
    have hliteral := (own_iff haccepts).mp hown
    refine ⟨⟨hliteral, fun c text hsuffix => ?_⟩, (apart_iff hne).mp fun base hends => ?_⟩
    · by_contra hfound
      have hshort := (length_substitute seat.length seat le_rfl).2 ⟨c, text, hsuffix, hfound⟩
      have hsome := (hown (fun _ => []) _ (hnode (nameForSeat [] seat))).mpr ⟨[], rfl⟩
      obtain ⟨found, hfound'⟩ := Option.isSome_iff_exists.mp hsome
      have hsame := hassigns _ _ found hfound'
      rw [assignedSeat_content haccepts] at hfound'
      split_ifs at hfound'
      rw [(Option.some.inj hfound').trans hsame] at hshort
      exact Nat.lt_irrefl _ hshort
    · have hnone := hothers (fun _ => []) _ base (nameForSeat_eq hother base ▸ rfl :
        (⟨"input".toList, "event0".toList, base ++ (" (".toList ++ other ++ [')'])⟩ : Device).name = nameForSeat base other)
      have hsome := (@isSome_assignedSeat Name udev (fun _ => []) _ seat haccepts (hnode _)).mpr (valueMatch_literal hliteral |>.mpr hends)
      rw [hnone] at hsome
      exact Bool.noConfusion hsome
  · rintro ⟨⟨hliteral, hplain⟩, hapart⟩
    refine ⟨(own_iff haccepts).mpr hliteral, fun values device found hfound => ?_, fun values device base hname => ?_⟩
    · rw [assignedSeat_content haccepts] at hfound
      split_ifs at hfound
      rw [← Option.some.inj hfound]
      exact substitute_plain hplain le_rfl
    · rw [assignedSeat_content haccepts]
      refine if_neg fun hall => ?_
      have hends := (valueMatch_literal hliteral).mp (all_holds_iff.mp hall).2
      rw [hname, nameForSeat_eq hother] at hends
      exact (apart_iff hne).mpr hapart base hends

/-! ## udev as far as two seats need it -/

section Seats

/-- Brackets are read up to the next closing one, which may stand first; ranges and the like are left out. -/
def readBracket (text : Text) : Option ((Char → Bool) × Text) :=
  match text with
  | [] => none
  | first :: others =>
    match others.dropWhile fun c => c ≠ ']' with
    | [] => none
    | _ :: rest => some (fun c => c ∈ first :: others.takeWhile fun c => c ≠ ']', rest)

theorem length_dropWhile_le (p : Char → Bool) (text : Text) : (text.dropWhile p).length ≤ text.length :=
  (List.dropWhile_suffix p).length_le

theorem length_readBracket (text : Text) (accepted : Char → Bool) (rest : Text)
    (h : readBracket text = some (accepted, rest)) : rest.length < text.length := by
  unfold readBracket at h
  cases text with
  | nil => cases h
  | cons first others =>
    dsimp only at h
    cases hdrop : others.dropWhile fun c => c ≠ ']' with
    | nil =>
      rw [hdrop] at h
      cases h
    | cons c behind =>
      rw [hdrop] at h
      obtain ⟨-, rfl⟩ := Prod.mk.inj (Option.some.inj h)
      have hlength := length_dropWhile_le (fun c => decide (c ≠ ']')) others
      rw [hdrop, List.length_cons] at hlength
      rw [List.length_cons]
      omega

/-- Doubled characters, and the name of the kernel. -/
def readSubstitution : Text → Option (Substitution Unit × Text)
  | '%' :: '%' :: rest => some (.itself '%', rest)
  | '$' :: '$' :: rest => some (.itself '$', rest)
  | '%' :: 'k' :: rest => some (.value (), rest)
  | _ => none

theorem length_readSubstitution (text : Text) (found : Substitution Unit) (rest : Text)
    (h : readSubstitution text = some (found, rest)) : rest.length + 2 ≤ text.length := by
  unfold readSubstitution at h
  split at h
  · cases h
    rfl
  · cases h
    rfl
  · cases h
    rfl
  · cases h

theorem readSubstitution_none {c : Char} (hpercent : c ≠ '%') (hdollar : c ≠ '$') (text : Text) :
    readSubstitution (c :: text) = none := by
  unfold readSubstitution
  split
  · next heq => exact absurd (List.cons.inj heq).1 hpercent
  · next heq => exact absurd (List.cons.inj heq).1 hdollar
  · next heq => exact absurd (List.cons.inj heq).1 hpercent
  · rfl

def smallUdev : Udev Unit where
  brackets := ⟨readBracket, length_readBracket⟩
  substitution := readSubstitution
  length_substitution := length_readSubstitution

def seat1 : Text := ['s', 'e', 'a', 't', '1']

def seat2 : Text := ['s', 'e', 'a', 't', '2']

/-- A star in the seat. -/
def seatStar : Text := ['s', 'e', 'a', 't', '*']

theorem seat1_tags_own : TagsOwn smallUdev seat1 seat2 := by
  refine (seat_rule_iff smallUdev seat1 seat2 (by decide) (by decide) (by decide)).mpr ⟨⟨?_, ?_⟩, ?_⟩
  · rw [String.toList_ofList]
    refine ⟨⟨by decide, fun rest hrest => absurd (hrest.subset List.mem_cons_self) (by decide)⟩, by decide, by decide⟩
  · intro c text hsuffix
    have hmem := hsuffix.subset List.mem_cons_self
    have hpercent : '%' ∉ seat1 := by decide
    have hdollar : '$' ∉ seat1 := by decide
    exact readSubstitution_none (fun h => hpercent (h ▸ hmem)) (fun h => hdollar (h ▸ hmem)) text
  · unfold Apart
    rw [String.toList_ofList]
    decide

/-- The devices of the second seat are tagged with the one that has a star. -/
theorem star_tags_others : ¬∀ seat other : Text, accepts seat = true → accepts other = true → other ≠ seat →
    TagsOwn smallUdev seat other := by
  intro hall
  have htags := hall seatStar seat2 (by decide) (by decide) (by decide)
  have hliteral := (own_iff (by decide)).mp htags.own
  exact hliteral.flat.1 (List.mem_append_left _ (List.mem_append_right _ (by decide)))

end Seats

end Sunshine.SeatRule
