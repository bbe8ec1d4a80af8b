import Mathlib.Data.List.Infix
import Sunshine.Lib.Entries

/-! Paths through directories and symbolic links.

A file system says what is at each location; `resolve` follows the names of a path through it, a link by what it says.
Where it arrives there is no link on the way (`resolve_real`), such a location is found as it is (`resolve_of_real`), and
whatever lies in front of names that are found is a directory (`resolve_front`). `within_iff` is about the texts of two
locations: one begins with the other and goes on with a slash exactly where it lies below it. -/
namespace Sunshine.RealPaths
open Entries
set_option autoImplicit false

abbrev Name := List Char

/-- A name of a directory entry. -/
def Proper (name : Name) : Prop := name ≠ [] ∧ name ≠ ['.'] ∧ name ≠ ['.', '.'] ∧ '/' ∉ name

inductive Node (α : Type) where
  | dir
  | file (content : α)
  | link (target : List Char)
  deriving DecidableEq

/-- What is at each location, from the root on; only directories have something below. -/
structure FileSystem (α : Type) where
  node : List Name → Option (Node α)
  root : node [] = some .dir
  parent : ∀ path name, node (path ++ [name]) ≠ none → node path = some .dir
  proper : ∀ path name, node (path ++ [name]) ≠ none → Proper name

instance (name : Name) : Decidable (Proper name) :=
  inferInstanceAs (Decidable (name ≠ [] ∧ name ≠ ['.'] ∧ name ≠ ['.', '.'] ∧ '/' ∉ name))

/-- The root and what is at these locations. -/
def nodeOf {α : Type} (entries : List (List Name × Node α)) (path : List Name) : Option (Node α) :=
  if path = [] then some .dir else entries.lookup path

/-- A file system of finitely many locations, each in a directory. -/
def FileSystem.ofEntries {α : Type} (entries : List (List Name × Node α))
    (h : ∀ entry ∈ entries, nodeOf entries entry.1.dropLast = some .dir ∧ ∀ name ∈ entry.1, Proper name) :
    FileSystem α where
  node := nodeOf entries
  root := rfl
  parent path name hnode := by
    rw [nodeOf, if_neg (List.append_ne_nil_of_right_ne_nil path (List.cons_ne_nil name []))] at hnode
    obtain ⟨found, hfound⟩ := Option.ne_none_iff_exists'.mp hnode
    have hdir := (h _ (mem_of_lookup hfound)).1
    rwa [List.dropLast_concat] at hdir
  proper path name hnode := by
    rw [nodeOf, if_neg (List.append_ne_nil_of_right_ne_nil path (List.cons_ne_nil name []))] at hnode
    obtain ⟨found, hfound⟩ := Option.ne_none_iff_exists'.mp hnode
    exact (h _ (mem_of_lookup hfound)).2 name (List.mem_append_right path List.mem_cons_self)

/-! ## Texts -/

/-- The names between the slashes. -/
def names (text : List Char) : List Name := (text.splitOn '/').filter (· ≠ [])

/-- The names of a path; a slash behind the last one leaves an empty name at the end. -/
def elements (text : List Char) : List Name :=
  if text.getLast? = some '/' ∧ names text ≠ [] then names text ++ [[]] else names text

/-- The absolute path of these names. -/
def text (path : List Name) : List Char := '/' :: ['/'].intercalate path

theorem names_slash (front back : List Char) : names (front ++ '/' :: back) = names front ++ names back := by
  rw [names, List.splitOn_append_cons_self, List.filter_append]
  rfl

theorem names_text {path : List Name} (h : ∀ name ∈ path, Proper name) : names (text path) = path := by
  cases path with
  | nil => rfl
  | cons name rest =>
    have hkept : (name :: rest).filter (· ≠ []) = name :: rest :=
      List.filter_eq_self.mpr fun other hother => decide_eq_true (h other hother).1
    have hsplit : (['/'].intercalate (name :: rest)).splitOn '/' = name :: rest :=
      List.splitOn_intercalate '/' (fun other hother => (h other hother).2.2.2) (List.cons_ne_nil name rest)
    rw [text, ← List.nil_append ('/' :: _), names_slash]
    exact (congrArg (List.filter (· ≠ [])) hsplit).trans hkept

theorem text_append {path rest : List Name} (hpath : path ≠ []) (hrest : rest ≠ []) :
    text (path ++ rest) = text path ++ text rest := by
  have hjoin : ∀ path : List Name, path ≠ [] →
      ['/'].intercalate (path ++ rest) = ['/'].intercalate path ++ text rest := by
    intro path hpath
    induction path with
    | nil => exact absurd rfl hpath
    | cons name path ih =>
      by_cases hnil : path = []
      · subst hnil
        rw [List.cons_append, List.nil_append, List.intercalate_cons_of_ne_nil hrest, List.intercalate_singleton,
          List.append_assoc]
        rfl
      · rw [List.cons_append, List.intercalate_cons_of_ne_nil (List.append_ne_nil_of_left_ne_nil hnil rest), ih hnil,
          List.intercalate_cons_of_ne_nil hnil]
        simp only [List.append_assoc]
  rw [text, hjoin path hpath]
  rfl

/-- `/` lies above everything, and else a slash is behind the text of the upper location. -/
def within (requested root : List Char) : Bool :=
  if requested = root then true
  else if root.length < requested.length ∧ root.isPrefixOf requested then
    if root = ['/'] then true else requested[root.length]? = some '/'
  else false

theorem within_iff {path root : List Name} (hpath : ∀ name ∈ path, Proper name) (hroot : ∀ name ∈ root, Proper name) :
    within (text path) (text root) = true ↔ root <+: path := by
  have hnames := names_text hpath
  have hnames' := names_text hroot
  unfold within
  constructor
  · intro hwithin
    split_ifs at hwithin with heq hlonger hslash
    · rw [← hnames, ← hnames', heq]
    · rw [hslash] at hnames'
      rw [← hnames']
      exact List.nil_prefix
    · obtain ⟨rest, hrest⟩ := List.isPrefixOf_iff_prefix.mp hlonger.2
      rw [← hrest, List.getElem?_append_right le_rfl, Nat.sub_self] at hwithin
      cases rest with
      | nil => simp at hwithin
      | cons ch rest =>
        obtain rfl : ch = '/' := by simpa using hwithin
        rw [← hrest, names_slash, hnames'] at hnames
        exact ⟨names rest, hnames⟩
  · rintro ⟨rest, rfl⟩
    by_cases hrest : rest = []
    · rw [hrest, List.append_nil, if_pos rfl]
    · by_cases hnil : root = []
      · subst hnil
        have hbehind : ['/'].intercalate rest ≠ [] := by
          intro hempty
          rw [List.nil_append, text, hempty] at hnames
          exact hrest hnames.symm
        have hlonger : 1 < (text rest).length := Nat.succ_lt_succ (List.length_pos_iff.mpr hbehind)
        have hother : text rest ≠ text [] := fun heq => absurd (congrArg List.length heq) (Nat.ne_of_gt hlonger)
        have hroot : text [] = ['/'] := rfl
        rw [List.nil_append, if_neg hother, if_pos ⟨hlonger, rfl⟩, if_pos hroot]
      · have hlonger : (text root).length < (text root ++ text rest).length := by simp [text]
        have hprefix : (text root).isPrefixOf (text root ++ text rest) = true :=
          List.isPrefixOf_iff_prefix.mpr (List.prefix_append _ _)
        rw [text_append hnil hrest, if_neg fun heq => by simp [text] at heq, if_pos ⟨hlonger, hprefix⟩,
          List.getElem?_append_right le_rfl, Nat.sub_self]
        split_ifs <;> rfl

/-! ## Following a path -/

inductive Resolved where
  | found (path : List Name)
  | missing
  | loops
  deriving DecidableEq

section Walk

variable {α : Type} (fs : FileSystem α)

/-- Where a link goes on: at the root, or at the directory that it is in. -/
def startOf (cur : List Name) (target : List Char) : List Name := if target.head? = some '/' then [] else cur

/-- From a directory along the names; `follow` goes on at a link, with what is behind it. -/
def walk (follow : List Name → List Name → Resolved) : List Name → List Name → Resolved
  | cur, [] => .found cur
  | cur, name :: rest =>
    if name = [] ∨ name = ['.'] then walk follow cur rest
    else if name = ['.', '.'] then walk follow cur.dropLast rest
    else
      match fs.node (cur ++ [name]) with
      | none => .missing
      | some .dir => walk follow (cur ++ [name]) rest
      | some (.file _) => if rest = [] then .found (cur ++ [name]) else .missing
      | some (.link target) => follow (startOf cur target) (elements target ++ rest)

/-- With a bound on the links on the way. -/
def resolve : ℕ → List Name → List Name → Resolved
  | 0 => walk fs fun _ _ => .loops
  | maxLinks + 1 => walk fs (resolve maxLinks)

/-- A location without a link on the way. -/
def Real (path : List Name) : Prop := fs.node path = some .dir ∨ ∃ content, fs.node path = some (.file content)

end Walk

variable {α : Type} {fs : FileSystem α} {follow : List Name → List Name → Resolved} {maxLinks : ℕ}
  {cur path rest front back : List Name} {name : Name}

theorem resolve_zero : resolve fs 0 = walk fs fun _ _ => .loops := rfl

theorem resolve_succ (maxLinks : ℕ) : resolve fs (maxLinks + 1) = walk fs (resolve fs maxLinks) := rfl

theorem walk_nil (cur : List Name) : walk fs follow cur [] = .found cur := rfl

theorem walk_same (h : name = [] ∨ name = ['.']) (rest : List Name) :
    walk fs follow cur (name :: rest) = walk fs follow cur rest := if_pos h

theorem walk_up (rest : List Name) :
    walk fs follow cur (['.', '.'] :: rest) = walk fs follow cur.dropLast rest := rfl

theorem walk_name (h : ¬ (name = [] ∨ name = ['.'])) (hup : name ≠ ['.', '.']) (rest : List Name) :
    walk fs follow cur (name :: rest) =
      match fs.node (cur ++ [name]) with
      | none => .missing
      | some .dir => walk fs follow (cur ++ [name]) rest
      | some (.file _) => if rest = [] then .found (cur ++ [name]) else .missing
      | some (.link target) => follow (startOf cur target) (elements target ++ rest) := by
  rw [walk, if_neg h, if_neg hup]

theorem Proper.walk (h : Proper name) : ¬ (name = [] ∨ name = ['.']) := fun hsame => hsame.elim h.1 h.2.1

/-- What is in front of a location is a directory. -/
theorem node_front (h : fs.node (front ++ back) ≠ none) (hback : back ≠ []) : fs.node front = some .dir := by
  induction back using List.reverseRecOn with
  | nil => exact absurd rfl hback
  | append_singleton back name ih =>
    rw [← List.append_assoc] at h
    have hdir := fs.parent (front ++ back) name h
    by_cases hnil : back = []
    · rwa [hnil, List.append_nil] at hdir
    · exact ih (by rw [hdir]; exact Option.some_ne_none _) hnil

theorem dir_dropLast (h : fs.node cur = some .dir) : fs.node cur.dropLast = some .dir := by
  cases cur using List.reverseRecOn with
  | nil => exact h
  | append_singleton cur name =>
    rw [List.dropLast_concat]
    exact fs.parent cur name (by rw [h]; exact Option.some_ne_none _)

theorem dir_startOf (h : fs.node cur = some .dir) (target : List Char) : fs.node (startOf cur target) = some .dir := by
  unfold startOf
  split_ifs
  · exact fs.root
  · exact h

theorem Real.node_ne_none (h : Real fs path) : fs.node path ≠ none := by
  obtain hdir | ⟨content, hfile⟩ := h
  · rw [hdir]
    exact Option.some_ne_none _
  · rw [hfile]
    exact Option.some_ne_none _

theorem Real.proper (h : Real fs path) : ∀ name ∈ path, Proper name := by
  intro name hname
  obtain ⟨front, back, rfl⟩ := List.append_of_mem hname
  refine fs.proper front name ?_
  have hnode := h.node_ne_none
  rw [List.append_cons] at hnode
  by_cases hback : back = []
  · rwa [hback, List.append_nil] at hnode
  · rw [node_front hnode hback]
    exact Option.some_ne_none _

/-- What the walk has, if following a link has it. -/
theorem walk_real (hfollow : ∀ cur rest path, fs.node cur = some .dir → follow cur rest = .found path → Real fs path)
    (hcur : fs.node cur = some .dir) (h : walk fs follow cur rest = .found path) : Real fs path := by
  induction rest generalizing cur with
  | nil =>
    obtain rfl : cur = path := Resolved.found.inj h
    exact .inl hcur
  | cons name rest ih =>
    by_cases hsame : name = [] ∨ name = ['.']
    · rw [walk_same hsame] at h
      exact ih hcur h
    · by_cases hup : name = ['.', '.']
      · subst hup
        exact ih (dir_dropLast hcur) h
      · rw [walk_name hsame hup] at h
        cases hnode : fs.node (cur ++ [name]) with
        | none =>
          rw [hnode] at h
          cases h
        | some node =>
          rw [hnode] at h
          cases node with
          | dir => exact ih hnode h
          | file content =>
            dsimp only at h
            split_ifs at h with hnil
            obtain rfl := Resolved.found.inj h
            exact .inr ⟨content, hnode⟩
          | link target => exact hfollow _ _ _ (dir_startOf hcur target) h

theorem resolve_real (hcur : fs.node cur = some .dir) (h : resolve fs maxLinks cur rest = .found path) : Real fs path := by
  induction maxLinks generalizing cur rest path with
  | zero => exact walk_real (fun _ _ _ _ hloops => by cases hloops) hcur h
  | succ maxLinks ih => exact walk_real (fun _ _ _ => ih) hcur h

theorem walk_of_real (cur : List Name) (h : Real fs (cur ++ rest)) : walk fs follow cur rest = .found (cur ++ rest) := by
  induction rest generalizing cur with
  | nil => rw [walk_nil, List.append_nil]
  | cons name rest ih =>
    have hproper := h.proper name (by simp)
    rw [List.append_cons] at h ⊢
    rw [walk_name hproper.walk hproper.2.2.1]
    by_cases hnil : rest = []
    · subst hnil
      rw [List.append_nil] at h
      obtain hdir | ⟨content, hfile⟩ := h
      · rw [hdir, List.append_nil]
        exact walk_nil _
      · rw [hfile, List.append_nil]
        exact if_pos rfl
    · rw [node_front h.node_ne_none hnil]
      exact ih _ h

/-- A location without links is found as it is. -/
theorem resolve_of_real (h : Real fs path) : resolve fs maxLinks [] path = .found path := by
  cases maxLinks with
  | zero => exact walk_of_real [] h
  | succ maxLinks => exact walk_of_real [] h

/-! ### A path in two parts -/

/-- `whole` goes on with `back` at the directory that `first` has found; else nothing is found. -/
def Joined (fs : FileSystem α) (back : List Name) (first whole : Resolved) : Prop :=
  (∃ path maxLinks, first = .found path ∧ fs.node path = some .dir ∧ whole = resolve fs maxLinks path back) ∨
    (∀ path, first = .found path → fs.node path ≠ some .dir) ∧ ∀ path, whole ≠ .found path

theorem joined_missing {first : Resolved} (h : ∀ path, first = .found path → fs.node path ≠ some .dir) :
    Joined fs back first .missing := .inr ⟨h, fun _ hfound => by cases hfound⟩

theorem walk_joined (hself : ∃ maxLinks, walk fs follow = resolve fs maxLinks) (hback : back ≠ [])
    (hfollow : ∀ cur front, fs.node cur = some .dir →
      Joined fs back (follow cur front) (follow cur (front ++ back)))
    (hcur : fs.node cur = some .dir) : Joined fs back (walk fs follow cur front) (walk fs follow cur (front ++ back)) := by
  induction front generalizing cur with
  | nil =>
    obtain ⟨maxLinks, heq⟩ := hself
    exact .inl ⟨cur, maxLinks, rfl, hcur, by rw [heq]; rfl⟩
  | cons name rest ih =>
    rw [List.cons_append]
    by_cases hsame : name = [] ∨ name = ['.']
    · rw [walk_same hsame, walk_same hsame]
      exact ih hcur
    · by_cases hup : name = ['.', '.']
      · subst hup
        exact ih (dir_dropLast hcur)
      · rw [walk_name hsame hup, walk_name hsame hup]
        cases hnode : fs.node (cur ++ [name]) with
        | none => exact joined_missing fun _ hfound => by cases hfound
        | some node =>
          cases node with
          | dir => exact ih hnode
          | file content =>
            have hmore : rest ++ back ≠ [] := List.append_ne_nil_of_right_ne_nil rest hback
            dsimp only
            rw [if_neg hmore]
            refine joined_missing fun path hfound hdir => ?_
            split_ifs at hfound
            obtain rfl := Resolved.found.inj hfound
            rw [hnode] at hdir
            cases hdir
          | link target =>
            dsimp only
            rw [← List.append_assoc]
            exact hfollow _ _ (dir_startOf hcur target)

theorem resolve_joined (maxLinks : ℕ) (hcur : fs.node cur = some .dir) (hback : back ≠ []) (front : List Name) :
    Joined fs back (resolve fs maxLinks cur front) (resolve fs maxLinks cur (front ++ back)) := by
  induction maxLinks generalizing cur front with
  | zero =>
    refine walk_joined ⟨0, resolve_zero⟩ hback (fun cur front hcur => .inr ⟨?_, ?_⟩) hcur
    · exact fun _ hfound => by cases hfound
    · exact fun _ hfound => by cases hfound
  | succ maxLinks ih => exact walk_joined ⟨maxLinks + 1, resolve_succ maxLinks⟩ hback (fun _ front hcur => ih hcur front) hcur

/-- What is in front of names that are found is found, and it is a directory. -/
theorem resolve_front (hback : back ≠ []) (h : resolve fs maxLinks [] (front ++ back) = .found path) :
    ∃ dir, resolve fs maxLinks [] front = .found dir ∧ fs.node dir = some .dir := by
  obtain ⟨dir, _, hfront, hdir, -⟩ | ⟨-, hnot⟩ := resolve_joined maxLinks fs.root hback front
  · exact ⟨dir, hfront, hdir⟩
  · exact absurd h (hnot path)

/-- A slash behind a directory. -/
theorem resolve_slash (h : resolve fs maxLinks [] path = .found front) (hdir : fs.node front = some .dir) :
    resolve fs maxLinks [] (path ++ [[]]) = .found front := by
  obtain ⟨dir, more, hfront, -, hwhole⟩ | ⟨hnot, -⟩ :=
    resolve_joined maxLinks fs.root (List.cons_ne_nil _ _ : [[]] ≠ []) path
  · obtain rfl := Resolved.found.inj (h.symm.trans hfront)
    rw [hwhole]
    cases more <;> rfl
  · exact absurd hdir (hnot front h)

/-! ## Paths that need not exist -/

/-- A name behind a path, without a look at what there is. -/
def normalStep (cur : List Name) (name : Name) : List Name :=
  if name = [] ∨ name = ['.'] then cur else if name = ['.', '.'] then cur.dropLast else cur ++ [name]

/-- `lexically_normal`, with a slash at the end where the last name goes. -/
def normal (cur rest : List Name) : List Name :=
  if rest.getLast? ∈ [some [], some ['.'], some ['.', '.']] then rest.foldl normalStep cur ++ [[]]
  else rest.foldl normalStep cur

section Canonical

variable (fs : FileSystem α) (maxLinks : ℕ)

/-- The location of the longest front that exists, and the names behind it. -/
def existing (done real : List Name) : List Name → Option (List Name × List Name)
  | [] => some (real, [])
  | name :: rest =>
    match resolve fs maxLinks [] (done ++ [name]) with
    | .found path => existing (done ++ [name]) path rest
    | .missing => some (real, name :: rest)
    | .loops => none

/-- `none` where it throws. -/
def weaklyCanonical (path : List Name) : Option (List Name) :=
  match resolve fs maxLinks [] path with
  | .found real => some real
  | .loops => none
  | .missing => (existing fs maxLinks [] [] path).map fun split => normal split.1 split.2

end Canonical

theorem weaklyCanonical_found (h : resolve fs maxLinks [] path = .found rest) :
    weaklyCanonical fs maxLinks path = some rest := by
  rw [weaklyCanonical, h]

/-- Both without their common front. -/
def dropCommon : List Name → List Name → List Name × List Name
  | name :: path, name' :: base => if name = name' then dropCommon path base else (name :: path, name' :: base)
  | path, base => (path, base)

/-- `lexically_relative` of absolute paths without dots. -/
def relative (path base : List Name) : List Name :=
  let (path, base) := dropCommon path base
  let up := (base.filter (· ≠ [])).length
  if up = 0 ∧ (path = [] ∨ path.head? = some []) then [['.']] else List.replicate up ['.', '.'] ++ path

end Sunshine.RealPaths
