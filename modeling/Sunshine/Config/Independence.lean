import Sunshine.Config.Options

/-! Whether the options of a file are read independently of each other.

Where a text ends decides it: in a blank rest, in a line, or in a list that is not closed. What follows a closed text
is read as if it stood alone, unless only a lone carriage return is between them; an open list takes all that follows:
`independent_iff`. -/
namespace Sunshine.Config
set_option autoImplicit false

inductive LineBreak where
  | lf
  | crlf
  | cr
  deriving DecidableEq, Repr

def LineBreak.text : LineBreak → Text
  | .lf => ['\n']
  | .crlf => ['\r', '\n']
  | .cr => ['\r']

/-- Where the last pass over a text stands: with nothing but blanks left, in a line that goes to the end of the text, or
in a list that is not closed. -/
inductive Ending where
  | blank
  | line
  | list
  deriving DecidableEq, Repr

def endingAt (pos : Text) : Ending :=
  if pos.dropWhile whitespace = [] then .blank
  else if leavesOpen pos then .list
  else if (parseOption pos).1 = [] then .line
  else .blank

def ending (file : Text) : Ending := ((positions file).getLast?.map endingAt).getD .blank

section Following

variable {file rest : Text}

theorem ending_last (hfile : file ≠ []) (hnext : nextLine (parseOption file).1 = []) :
    ending file = endingAt file := by
  rw [ending, positions_eq hfile, hnext]
  rfl

theorem ending_next (hfile : file ≠ []) (hnext : nextLine (parseOption file).1 ≠ []) :
    ending file = ending (nextLine (parseOption file).1) := by
  rw [ending, ending, positions_eq hfile, positions_eq hnext, List.getLast?_cons_cons]

theorem options_rest_tail (hrest : EndsLine rest) : options rest.tail = options rest := by
  obtain ⟨ch, more, rfl, hch⟩ := hrest
  exact (options_whitespace (by rw [whitespace, hch, Bool.or_true]) more).symm

/-- Past a line end that is in the text itself. -/
theorem nextLine_cut {endl : Text} (hendl : endl ≠ []) (rest : Text) :
    nextLine (endl ++ rest) = nextLine endl ++ rest ∨
      nextLine endl = [] ∧ nextLine (endl ++ rest) = rest.tail := by
  obtain ⟨ch, more, rfl⟩ := List.exists_cons_of_ne_nil hendl
  rw [List.cons_append, nextLine, nextLine]
  by_cases hcr : ch = '\r'
  · rw [if_pos hcr, if_pos hcr]
    cases more with
    | nil => exact .inr ⟨rfl, List.drop_one⟩
    | cons c more => exact .inl rfl
  · rw [if_neg hcr, if_neg hcr]
    exact .inl rfl

theorem options_of_blank (h : ∀ ch ∈ file, whitespace ch = true) : options file = [] := by
  have hblank := options_blank h []
  rwa [List.append_nil] at hblank

/-- One pass over a text with a visible character that leaves no list open: the option is found, and the passes go on
in the rest of the text or behind it. -/
theorem options_pass (hvisible : file.dropWhile whitespace ≠ []) (hclosed : leavesOpen file = false)
    (hrest : EndsLine rest) : options (file ++ rest) =
      (parseOption file).2.toList ++ options (nextLine ((parseOption file).1 ++ rest)) := by
  have hne : file ++ rest ≠ [] := by
    intro hnil
    rw [(List.append_eq_nil_iff.mp hnil).1] at hvisible
    exact hvisible rfl
  rw [options_eq hne, parseOption_cut hvisible hclosed hrest]

theorem ne_nil_of_visible (hvisible : file.dropWhile whitespace ≠ []) : file ≠ [] := by
  rintro rfl
  exact hvisible rfl

/-- What the end of a text says of the options found in it and in what follows. -/
def Follows (file rest : Text) : Ending → Prop
  | .blank => options (file ++ rest) = options file ++ options rest
  | .line => options (file ++ rest) = options file ++ options (nextLine rest)
  | .list => (∀ ch ∈ rest, ch ≠ ']') → (options (file ++ rest)).length ≤ (options file).length + 1

theorem endingAt_visible (hvisible : file.dropWhile whitespace ≠ []) (hclosed : leavesOpen file = false) :
    endingAt file = if (parseOption file).1 = [] then .line else .blank := by
  rw [endingAt, if_neg hvisible, hclosed, if_neg Bool.false_ne_true]

theorem follows_blank (hblank : file.dropWhile whitespace = []) : Follows file rest (ending file) := by
  have hall := List.dropWhile_eq_nil_iff.mp hblank
  have hending : ending file = .blank := by
    by_cases hfile : file = []
    · rw [hfile]
      rfl
    · have hnot : isOption file = false := by
        rw [isOption, hblank]
        rfl
      have hend : lineEnd file = [] := by
        rw [lineEnd, hblank]
        rfl
      have hnext : nextLine (parseOption file).1 = [] := by
        rw [parseOption_not hnot, hend]
        rfl
      rw [ending_last hfile hnext, endingAt, if_pos hblank]
  rw [hending]
  show options (file ++ rest) = options file ++ options rest
  rw [options_blank hall, options_of_blank hall, List.nil_append]

theorem follows_list (hrest : EndsLine rest) (hvisible : file.dropWhile whitespace ≠ [])
    (hopen : leavesOpen file = true) : Follows file rest (ending file) := by
  have hfile := ne_nil_of_visible hvisible
  have hend := parseOption_open_end hopen
  have hending : ending file = .list := by
    rw [ending_last hfile (by rw [hend]; rfl), endingAt, if_neg hvisible, if_pos hopen]
  rw [hending]
  intro hbrackets
  have hne : file ++ rest ≠ [] := List.append_ne_nil_of_left_ne_nil hfile rest
  rw [options_eq hne, parseOption_open hopen hvisible hrest hbrackets]
  show ((parseOption (file ++ rest)).2.toList ++ []).length ≤ _
  rw [List.append_nil]
  cases (parseOption (file ++ rest)).2 with
  | none => exact Nat.zero_le _
  | some var => exact Nat.succ_le_succ (Nat.zero_le _)

theorem follows_line (hrest : EndsLine rest) (hvisible : file.dropWhile whitespace ≠ [])
    (hclosed : leavesOpen file = false) (hend : (parseOption file).1 = []) : Follows file rest (ending file) := by
  have hfile := ne_nil_of_visible hvisible
  have hending : ending file = .line := by
    rw [ending_last hfile (by rw [hend]; rfl), endingAt_visible hvisible hclosed, if_pos hend]
  rw [hending]
  show options (file ++ rest) = options file ++ options (nextLine rest)
  rw [options_pass hvisible hclosed hrest, options_eq hfile, hend, List.append_assoc]
  rfl

/-- The text goes on behind the line, with the rest of it or with what follows. -/
theorem follows_next (hrest : EndsLine rest) (hvisible : file.dropWhile whitespace ≠ [])
    (hclosed : leavesOpen file = false) (hend : (parseOption file).1 ≠ [])
    (ih : Follows (nextLine (parseOption file).1) rest (ending (nextLine (parseOption file).1))) :
    Follows file rest (ending file) := by
  have hfile := ne_nil_of_visible hvisible
  have hpass := options_pass hvisible hclosed hrest
  have hoptions := options_eq hfile
  by_cases hnext : nextLine (parseOption file).1 = []
  · have hending : ending file = .blank := by
      rw [ending_last hfile hnext, endingAt_visible hvisible hclosed, if_neg hend]
    rw [hnext] at hoptions
    rw [hending]
    show options (file ++ rest) = options file ++ options rest
    rw [hpass, hoptions, List.append_assoc]
    rcases nextLine_cut hend rest with heq | ⟨-, heq⟩
    · rw [heq, hnext]
      rfl
    · rw [heq, options_rest_tail hrest]
      rfl
  · have heq := (nextLine_cut hend rest).resolve_right fun hnil => hnext hnil.1
    rw [heq] at hpass
    rw [ending_next hfile hnext]
    cases hending : ending (nextLine (parseOption file).1) with
    | blank =>
      rw [hending] at ih
      show options (file ++ rest) = options file ++ options rest
      rw [hpass, hoptions, List.append_assoc]
      exact congrArg _ ih
    | line =>
      rw [hending] at ih
      show options (file ++ rest) = options file ++ options (nextLine rest)
      rw [hpass, hoptions, List.append_assoc]
      exact congrArg _ ih
    | list =>
      rw [hending] at ih
      intro hbrackets
      have hle := ih hbrackets
      rw [hpass, hoptions, List.length_append, List.length_append]
      omega

/-- By the passes over the text. -/
theorem follows (hrest : EndsLine rest) (file : Text) : Follows file rest (ending file) := by
  induction hlength : file.length using Nat.strong_induction_on generalizing file with
  | _ n ih =>
    by_cases hvisible : file.dropWhile whitespace = []
    · exact follows_blank hvisible
    · cases hopen : leavesOpen file with
      | true => exact follows_list hrest hvisible hopen
      | false =>
        by_cases hend : (parseOption file).1 = []
        · exact follows_line hrest hvisible hopen hend
        · have hnext := nextPass_lt (ne_nil_of_visible hvisible)
          exact follows_next hrest hvisible hopen hend (ih _ (hlength ▸ hnext) _ rfl)

end Following

/-! ## What follows a line break -/

theorem LineBreak.endsLine (eol : LineBreak) (following : Text) : EndsLine (eol.text ++ following) := by
  cases eol with
  | lf => exact ⟨'\n', following, rfl, rfl⟩
  | crlf => exact ⟨'\r', '\n' :: following, rfl, rfl⟩
  | cr => exact ⟨'\r', following, rfl, rfl⟩

theorem options_break (eol : LineBreak) (following : Text) : options (eol.text ++ following) = options following := by
  refine options_blank (fun ch hch => ?_) following
  cases eol with
  | lf => simp_all [LineBreak.text, whitespace, endline]
  | crlf =>
    simp only [LineBreak.text, List.mem_cons, List.not_mem_nil, or_false] at hch
    rcases hch with rfl | rfl <;> rfl
  | cr => simp_all [LineBreak.text, whitespace, endline]

/-- What follows the text is read as if it stood alone. -/
def Independent (file : Text) (eol : LineBreak) : Prop :=
  ∀ following, options (file ++ eol.text ++ following) = options file ++ options following

def twoOptions : Text := "a=b\na=b".toList

theorem independent_iff (file : Text) (eol : LineBreak) :
    Independent file eol ↔ ending file = .blank ∨ ending file = .line ∧ eol ≠ .cr := by
  have hfollows (following : Text) := follows (eol.endsLine following) file
  unfold Independent
  simp only [List.append_assoc]
  cases hending : ending file with
  | blank =>
    refine iff_of_true (fun following => ?_) (.inl rfl)
    have hblank := hfollows following
    rw [hending] at hblank
    rw [hblank, options_break]
  | line =>
    have hline (following : Text) : options (file ++ (eol.text ++ following)) =
        options file ++ options (nextLine (eol.text ++ following)) := by
      have hfollowing := hfollows following
      rwa [hending] at hfollowing
    cases eol with
    | lf => exact iff_of_true hline (.inr ⟨rfl, by simp⟩)
    | crlf => exact iff_of_true hline (.inr ⟨rfl, by simp⟩)
    | cr =>
      refine iff_of_false (fun hall => ?_) (by simp)
      have hlost := (hline twoOptions).symm.trans (hall twoOptions)
      rw [List.append_cancel_left_eq] at hlost
      exact absurd hlost (by decide)
  | list =>
    refine iff_of_false (fun hall => ?_) (by simp)
    have hopen := hfollows twoOptions
    rw [hending] at hopen
    have hbrackets : ∀ ch ∈ eol.text ++ twoOptions, ch ≠ ']' := by
      have hall : (eol.text ++ twoOptions).all (· != ']') = true := by cases eol <;> rfl
      intro ch hch
      exact bne_iff_ne.mp (List.all_eq_true.mp hall ch hch)
    have hle := hopen hbrackets
    have htwo : (options twoOptions).length = 2 := by decide
    rw [hall twoOptions, List.length_append, htwo] at hle
    omega

end Sunshine.Config
