import Mathlib.Data.List.Nodup
import Sunshine.Lib.FirstMatch
import Sunshine.Lib.ReadUntil
import Sunshine.Process.GameFiles

/-! `game_scanner`: the games that Steam, Lutris and Heroic have installed, read from their files.

The parser of JSON is a parameter; a document is what it returns, its objects with each key once and in order. The file
system answers all that it is asked.

`entry_by_entry_iff` says for which files every entry with a name is found under that name. -/
namespace Sunshine.GameScanner
open Json GameFiles KeepFirst ReadUntil
set_option autoImplicit false

/-! ## Files -/

/-- What a scan sees: `get_home`, empty if there is none, `fs::exists`, the paths that a `fs::directory_iterator` goes through,
and the content of a file that can be opened. -/
structure Disk where
  home : Bytes
  isThere : Bytes → Bool
  list : Bytes → List Bytes
  read : Bytes → Option Bytes

inductive Launcher where
  | steam
  | lutris
  | heroic
  deriving DecidableEq

def Launcher.text : Launcher → Bytes
  | .steam => ascii "steam"
  | .lutris => ascii "lutris"
  | .heroic => ascii "heroic"

structure GameEntry where
  name : Bytes
  path : Bytes
  launcher : Launcher
  coverUrl : Bytes
  deriving DecidableEq

def slash : UInt8 := 47
def dot : UInt8 := 46

/-- `operator/` of paths, for a relative one on the right. -/
def join (path : Bytes) (relative : String) : Bytes :=
  if path = [] ∨ path.getLast? = some slash then path ++ ascii relative else path ++ slash :: ascii relative

def filename (path : Bytes) : Bytes := (path.reverse.takeWhile (· ≠ slash)).reverse

/-- `path::extension`; a name that starts with its only dot has none. -/
def extension (path : Bytes) : Bytes :=
  let tail := (filename path).reverse.takeWhile (· ≠ dot)
  if tail.length + 1 < (filename path).length then dot :: tail.reverse else []

/-- A value that a line has for a key, if it is not empty. -/
def fieldOf (key : String) (pair : Bytes × Bytes) : Option Bytes :=
  if pair.1 = ascii key ∧ pair.2 ≠ [] then some pair.2 else none

/-- The loop over the lines of a file; an empty string counts as none. -/
def readFields (pairOf : Bytes → Bytes × Bytes) (second : String) (content : Bytes) : Option Bytes × Option Bytes :=
  readUntil (fun line => fieldOf "name" (pairOf line)) (fun line => fieldOf second (pairOf line)) (none, none) (lines content)

/-! ## Steam -/

/-- The text up to the next quote, and what is behind it. -/
def cutQuote (text : Bytes) : Option (Bytes × Bytes) :=
  match text.dropWhile (· ≠ quote) with
  | [] => none
  | _ :: rest => some (text.takeWhile (· ≠ quote), rest)

def parseVdfKvLine (line : Bytes) : Bytes × Bytes :=
  ((cutQuote line).bind fun q1 => (cutQuote q1.2).bind fun q2 => (cutQuote q2.2).bind fun q3 => (cutQuote q3.2).map fun q4 =>
    (q2.1, q4.1)).getD ([], [])

def candidateDirs (home : Bytes) : List Bytes :=
  [join (join home ".steam") "steam", join (join (join home ".local") "share") "Steam",
    join (join (join (join (join home ".var") "app") "com.valvesoftware.Steam") "data") "Steam",
    join (join (join (join (join home "snap") "steam") "common") ".steam") "steam"]

def vdfPath (dir : Bytes) : Bytes := join (join dir "steamapps") "libraryfolders.vdf"

def libraries (disk : Disk) (steamData : Bytes) : List Bytes :=
  (((disk.read (vdfPath steamData)).elim [] lines).filterMap fun line =>
    (fieldOf "path" (parseVdfKvLine line)).map fun value => join value "steamapps") ++ [join steamData "steamapps"]

/-- The manifests, each with the library it lies in. -/
def manifests (disk : Disk) : List (Bytes × Bytes) :=
  if disk.home = [] then []
  else
    match (candidateDirs disk.home).find? fun dir => disk.isThere (vdfPath dir) with
    | none => []
    | some steamData =>
      ((libraries disk steamData).filter disk.isThere).flatMap fun lib =>
        ((disk.list lib).filter fun path => extension path = ascii ".acf").filterMap fun path =>
          (disk.read path).map fun content => (lib, content)

def steamEntry (file : Bytes × Bytes) : Option GameEntry :=
  let found := readFields parseVdfKvLine "appid" file.2
  found.1.map fun name => {
    name := name
    path := file.1
    launcher := .steam
    coverUrl := found.2.elim [] fun appid =>
      ascii "https://steamcdn-a.akamaihd.net/steam/apps/" ++ appid ++ ascii "/header.jpg" }

def scanSteam (disk : Disk) : List GameEntry := (manifests disk).filterMap steamEntry

/-! ## Lutris -/

/-- The key and the value of a line, where the loop does not skip it. -/
def lutrisPair (line : Bytes) : Bytes × Bytes :=
  let trimmed := line.dropWhile fun b => b = 32 ∨ b = 9
  ((Texts.search (ascii ": ") trimmed).map fun at_ => (trimmed.take at_, trimmed.drop (at_ + 2))).getD ([], [])

/-- The configurations with their paths. -/
def configs (disk : Disk) : List (Bytes × Bytes) :=
  if disk.home = [] then []
  else
    ([join (join (join (join disk.home ".local") "share") "lutris") "games",
      join (join (join disk.home ".config") "lutris") "games"].filter disk.isThere).flatMap fun dir =>
        ((disk.list dir).filter fun path => extension path = ascii ".yml").filterMap fun path =>
          (disk.read path).map fun content => (path, content)

def lutrisEntry (file : Bytes × Bytes) : Option GameEntry :=
  let found := readFields lutrisPair "slug" file.2
  found.1.map fun name => {
    name := name
    path := found.2.elim file.1 fun slug => ascii "lutris lutris:" ++ slug
    launcher := .lutris
    coverUrl := found.2.elim [] fun slug => ascii "https://lutris.net/games/banner/" ++ slug ++ ascii ".jpg" }

def scanLutris (disk : Disk) : List GameEntry := (configs disk).filterMap lutrisEntry

/-! ## Heroic -/

section Heroic

variable {N : Type} (parse : Bytes → Option (Value N))

/-- The exception of `get` for a value of another type. -/
inductive TypeError where
  | notAString

/-- The first of the keys that an entry contains. -/
def firstOf (keys : List Bytes) (entry : Value N) : Option (Value N) := keys.findSome? entry.find

/-- `get<std::string>` of the first of the keys, empty if there is none of them. -/
def getString (keys : List Bytes) (entry : Value N) : Except TypeError Bytes :=
  match firstOf keys entry with
  | none => .ok []
  | some (.string text) => .ok text
  | some _ => .error .notAString

def pathKeys : List Bytes := [ascii "install_path", ascii "install_folder"]
def coverKeys : List Bytes := [ascii "art_cover", ascii "art_square"]

/-- `process_entry`, with what it puts behind the games. -/
def processEntry (entry : Value N) : Except TypeError (Option GameEntry) :=
  (getString nameKeys entry).bind fun name =>
    if name = [] then .ok none
    else (getString pathKeys entry).bind fun path => (getString coverKeys entry).map fun coverUrl =>
      some ⟨name, path, .heroic, coverUrl⟩

/-- The loop over the entries of a file; an exception leaves it, and the games before it stay. -/
def processEntries : List (Value N) → List GameEntry
  | [] => []
  | entry :: rest =>
    match processEntry entry with
    | .error _ => []
    | .ok game => game.toList ++ processEntries rest

def jsonCandidates (heroicDir : Bytes) : List Bytes :=
  [join (join heroicDir "gog_store") "installed.json", join (join heroicDir "legendaryConfig") "installed.json",
    join (join heroicDir "gog_store") "library.json", join (join heroicDir "legendaryConfig") "library.json",
    join heroicDir "sideload_apps.json"]

def documents (disk : Disk) : List (Value N) :=
  let heroicDir := join (join disk.home ".config") "heroic"
  if disk.home = [] ∨ disk.isThere heroicDir = false then []
  else ((jsonCandidates heroicDir).filter disk.isThere).filterMap fun path => (disk.read path).bind parse

def scanHeroic (disk : Disk) : List GameEntry := (documents parse disk).flatMap fun data => processEntries (entriesOf data)

/-! ## All of them -/

/-- `name + '\0' + launcher` -/
def GameEntry.key (game : GameEntry) : Bytes := game.name ++ 0 :: game.launcher.text

def scanAll (disk : Disk) : List GameEntry :=
  keepFirst GameEntry.key [] (scanSteam disk ++ scanLutris disk ++ scanHeroic parse disk)

end Heroic

/-! ## What stands in the files -/

/-- A line whose second and fourth piece between quotes are a key and a value. -/
def ShowsVdf (key : String) (line value : Bytes) : Prop :=
  value ≠ [] ∧ ∃ a b rest, quote ∉ a ∧ quote ∉ b ∧ quote ∉ value ∧
    line = a ++ quote :: (ascii key ++ quote :: (b ++ quote :: (value ++ quote :: rest)))

/-- A line that is a key, a colon, a space and a value, indented or not. -/
def ShowsYaml (key : String) (line value : Bytes) : Prop :=
  value ≠ [] ∧ ∃ indent, (∀ b ∈ indent, b = 32 ∨ b = 9) ∧ line = indent ++ (ascii key ++ (ascii ": " ++ value))

theorem fieldOf_iff (key : String) (pair : Bytes × Bytes) (value : Bytes) :
    fieldOf key pair = some value ↔ value ≠ [] ∧ pair = (ascii key, value) := by
  unfold fieldOf
  constructor
  · intro h
    split_ifs at h with hpair
    obtain rfl := Option.some.inj h
    exact ⟨hpair.2, Prod.ext hpair.1 rfl⟩
  · rintro ⟨hvalue, rfl⟩
    exact if_pos ⟨rfl, hvalue⟩

theorem cutQuote_append {a : Bytes} (h : quote ∉ a) (rest : Bytes) : cutQuote (a ++ quote :: rest) = some (a, rest) := by
  have hall : ∀ b ∈ a, decide (b ≠ quote) = true := fun b hb => decide_eq_true fun heq => h (heq ▸ hb)
  unfold cutQuote
  rw [List.dropWhile_append_of_pos hall, List.takeWhile_append_of_pos hall]
  simp

theorem cutQuote_iff (text a rest : Bytes) : cutQuote text = some (a, rest) ↔ quote ∉ a ∧ text = a ++ quote :: rest := by
  constructor
  · intro h
    by_cases hquote : quote ∈ text
    · obtain ⟨front, back, rfl, hfront⟩ := List.eq_append_cons_of_mem hquote
      rw [cutQuote_append hfront, Option.some.injEq, Prod.mk.injEq] at h
      obtain ⟨rfl, rfl⟩ := h
      exact ⟨hfront, rfl⟩
    · have hall : ∀ b ∈ text, decide (b ≠ quote) = true := fun b hb => decide_eq_true fun heq => hquote (heq ▸ hb)
      rw [cutQuote, List.dropWhile_eq_nil_iff.mpr hall] at h
      cases h
  · rintro ⟨ha, rfl⟩
    exact cutQuote_append ha rest

theorem parseVdfKvLine_iff {key : String} (hkey : quote ∉ ascii key) (line value : Bytes) :
    fieldOf key (parseVdfKvLine line) = some value ↔ ShowsVdf key line value := by
  rw [fieldOf_iff]
  refine and_congr_right fun hvalue => ?_
  unfold parseVdfKvLine
  constructor
  · intro h
    cases hread : (cutQuote line).bind fun q1 => (cutQuote q1.2).bind fun q2 => (cutQuote q2.2).bind fun q3 =>
        (cutQuote q3.2).map fun q4 => (q2.1, q4.1) with
    | none =>
      rw [hread] at h
      exact absurd (Prod.mk.inj h).2.symm hvalue
    | some pair =>
      rw [hread] at h
      simp only [Option.bind_eq_some_iff, Option.map_eq_some_iff] at hread
      obtain ⟨⟨a, l1⟩, h1, ⟨k, l2⟩, h2, ⟨b, l3⟩, h3, ⟨v, rest⟩, h4, rfl⟩ := hread
      obtain ⟨rfl, rfl⟩ := Prod.mk.inj h
      obtain ⟨ha, rfl⟩ := (cutQuote_iff _ _ _).mp h1
      obtain ⟨-, rfl⟩ := (cutQuote_iff _ _ _).mp h2
      obtain ⟨hb, rfl⟩ := (cutQuote_iff _ _ _).mp h3
      obtain ⟨hv, rfl⟩ := (cutQuote_iff _ _ _).mp h4
      exact ⟨a, b, rest, ha, hb, hv, rfl⟩
  · rintro ⟨a, b, rest, ha, hb, hv, rfl⟩
    simp only [cutQuote_append ha, cutQuote_append hkey, cutQuote_append hb, cutQuote_append hv, Option.bind_some,
      Option.map_some, Option.getD_some]

theorem lutrisPair_iff {key : String} {first : UInt8} {rest : Bytes} (hkey : ascii key = first :: rest)
    (hfirst : ¬(first = 32 ∨ first = 9)) (hcolon : (58 : UInt8) ∉ ascii key) (line value : Bytes) :
    fieldOf key (lutrisPair line) = some value ↔ ShowsYaml key line value := by
  rw [fieldOf_iff]
  refine and_congr_right fun hvalue => ?_
  unfold lutrisPair
  dsimp only
  constructor
  · intro h
    have hindent := List.takeWhile_append_dropWhile (p := fun b => decide (b = 32 ∨ b = 9)) (l := line)
    cases hread : Texts.search (ascii ": ") (line.dropWhile fun b => b = 32 ∨ b = 9) with
    | none =>
      rw [hread] at h
      exact absurd (Prod.mk.inj h).2.symm hvalue
    | some place =>
      rw [hread] at h
      obtain ⟨hk, hv⟩ := Prod.mk.inj h
      have hsplit := Texts.search_split hread
      refine ⟨line.takeWhile fun b => b = 32 ∨ b = 9, fun b hb => by simpa using List.mem_takeWhile_imp hb, ?_⟩
      rw [← hk, ← hv]
      exact hindent.symm.trans (congrArg _ hsplit)
  · rintro ⟨indent, hindent, rfl⟩
    have hall : ∀ b ∈ indent, decide (b = 32 ∨ b = 9) = true := fun b hb => decide_eq_true (hindent b hb)
    have hdrop : (indent ++ (ascii key ++ (ascii ": " ++ value))).dropWhile (fun b => decide (b = 32 ∨ b = 9)) =
        ascii key ++ (ascii ": " ++ value) := by
      rw [List.dropWhile_append_of_pos hall, hkey, List.cons_append, List.dropWhile_cons_of_neg]
      exact fun hblank => hfirst (of_decide_eq_true hblank)
    have hsearch : Texts.search (ascii ": ") (ascii key ++ (ascii ": " ++ value)) = some (ascii key).length :=
      Texts.search_append [32] value hcolon
    rw [hdrop, hsearch, Option.map_some, Option.getD_some, List.take_left' rfl, ← List.drop_drop, List.drop_left' rfl]
    rfl

/-- A value that stands in a manifest as its name. -/
def InManifest (content name : Bytes) : Prop := Stands (ShowsVdf "name") (ShowsVdf "appid") (lines content) name

def InConfig (content name : Bytes) : Prop := Stands (ShowsYaml "name") (ShowsYaml "slug") (lines content) name

theorem manifest_name_iff (content name : Bytes) :
    (readFields parseVdfKvLine "appid" content).1 = some name ↔ InManifest content name :=
  readUntil_iff (fun line value => parseVdfKvLine_iff (by decide) line value)
    (fun line value => parseVdfKvLine_iff (by decide) line value) (lines content) name

theorem config_name_iff (content name : Bytes) :
    (readFields lutrisPair "slug" content).1 = some name ↔ InConfig content name :=
  readUntil_iff (fun line value => lutrisPair_iff rfl (by decide) (by decide) line value)
    (fun line value => lutrisPair_iff rfl (by decide) (by decide) line value) (lines content) name

section Entries

variable {N : Type}

/-- The first of the keys that an entry contains is no string. -/
def Odd (keys : List Bytes) (entry : Value N) : Prop := ∃ value, firstOf keys entry = some value ∧ ∀ text, value ≠ .string text

/-- The first of the keys for a name that an entry contains is this one. -/
def Named (entry : Value N) (name : Bytes) : Prop := name ≠ [] ∧ firstOf nameKeys entry = some (.string name)

/-- An entry with a value of another type where a string is read. -/
def Unfit (entry : Value N) : Prop :=
  Odd nameKeys entry ∨ (∃ name, Named entry name) ∧ (Odd pathKeys entry ∨ Odd coverKeys entry)

/-- A name of a document that has no unfit entry up to it. -/
def InDocument (data : Value N) (name : Bytes) : Prop :=
  ∃ front entry back, entriesOf data = front ++ entry :: back ∧ (∀ e ∈ front, ¬Unfit e) ∧ ¬Unfit entry ∧ Named entry name

theorem getString_odd {keys : List Bytes} {entry : Value N} (h : Odd keys entry) :
    getString keys entry = .error .notAString := by
  obtain ⟨value, hvalue, hother⟩ := h
  unfold getString
  rw [hvalue]
  cases value with
  | string text => exact absurd rfl (hother text)
  | _ => rfl

theorem getString_even {keys : List Bytes} {entry : Value N} (h : ¬Odd keys entry) :
    ∃ text, getString keys entry = .ok text ∧
      ∀ name, name ≠ [] → (text = name ↔ firstOf keys entry = some (.string name)) := by
  unfold getString
  cases hfirst : firstOf keys entry with
  | none => exact ⟨[], rfl, fun name hname => iff_of_false hname.symm nofun⟩
  | some value =>
    cases value with
    | string text => exact ⟨text, rfl, fun name _ => by rw [Option.some.injEq, Value.string.injEq]⟩
    | _ => exact absurd ⟨_, hfirst, nofun⟩ h

theorem processEntry_unfit {entry : Value N} (h : Unfit entry) : processEntry entry = .error .notAString := by
  unfold processEntry
  rcases h with hname | ⟨⟨name, hname, hfirst⟩, hodd⟩
  · rw [getString_odd hname]
    rfl
  · have hread : getString nameKeys entry = .ok name := by
      unfold getString
      rw [hfirst]
    rw [hread]
    refine (if_neg hname).trans ?_
    by_cases hpath : Odd pathKeys entry
    · rw [getString_odd hpath]
      rfl
    · obtain ⟨path, hpath', -⟩ := getString_even hpath
      rw [hpath', getString_odd (hodd.resolve_left hpath)]
      rfl

/-- What a fit entry adds is its name, if it has one. -/
theorem processEntry_fit {entry : Value N} (h : ¬Unfit entry) :
    ∃ game, processEntry entry = .ok game ∧ (∀ g ∈ game.toList, g.launcher = .heroic) ∧
      ∀ name, (∃ g ∈ game.toList, g.name = name) ↔ Named entry name := by
  obtain ⟨hname, hrest⟩ := not_or.mp h
  obtain ⟨text, htext, hnamed⟩ := getString_even hname
  unfold processEntry
  rw [htext]
  by_cases hempty : text = []
  · refine ⟨none, if_pos hempty, fun g hg => absurd hg List.not_mem_nil, fun name => ?_⟩
    refine iff_of_false (fun ⟨g, hg, _⟩ => List.not_mem_nil hg) fun ⟨hne, hfirst⟩ => ?_
    exact hne (((hnamed name hne).mpr hfirst).symm.trans hempty)
  · have hthis : Named entry text := ⟨hempty, (hnamed text hempty).mp rfl⟩
    obtain ⟨hpath, hcover⟩ := not_or.mp fun hodd => hrest ⟨⟨text, hthis⟩, hodd⟩
    obtain ⟨path, hpath', -⟩ := getString_even hpath
    obtain ⟨coverUrl, hcover', -⟩ := getString_even hcover
    refine ⟨some ⟨text, path, .heroic, coverUrl⟩, (if_neg hempty).trans ?_, fun g hg => ?_, fun name => ?_⟩
    · rw [hpath', hcover']
      rfl
    · rw [List.mem_singleton.mp hg]
    · constructor
      · rintro ⟨g, hg, rfl⟩
        obtain rfl := List.mem_singleton.mp hg
        exact hthis
      · rintro ⟨hne, hfirst⟩
        exact ⟨_, List.mem_singleton.mpr rfl, (hnamed name hne).mpr hfirst⟩

theorem processEntries_iff (entries : List (Value N)) (name : Bytes) :
    (∃ g ∈ processEntries entries, g.name = name) ↔
      ∃ front entry back, entries = front ++ entry :: back ∧ (∀ e ∈ front, ¬Unfit e) ∧ ¬Unfit entry ∧ Named entry name := by
  induction entries with
  | nil => simp [processEntries]
  | cons entry rest ih =>
    rw [processEntries]
    by_cases hunfit : Unfit entry
    · rw [processEntry_unfit hunfit]
      refine iff_of_false (fun ⟨g, hg, _⟩ => List.not_mem_nil hg) ?_
      rintro ⟨front, e, back, hsplit, hfront, he, -⟩
      cases front with
      | nil => exact he ((List.cons.inj hsplit).1 ▸ hunfit)
      | cons f front => exact hfront f List.mem_cons_self ((List.cons.inj hsplit).1 ▸ hunfit)
    · obtain ⟨game, hgame, -, hname⟩ := processEntry_fit hunfit
      rw [hgame]
      simp only [List.mem_append, or_and_right, exists_or]
      rw [hname name, ih]
      constructor
      · rintro (hthis | ⟨front, e, back, rfl, hfront, he, hlater⟩)
        · exact ⟨[], entry, rest, rfl, fun e he => absurd he List.not_mem_nil, hunfit, hthis⟩
        · exact ⟨entry :: front, e, back, rfl, List.forall_mem_cons.mpr ⟨hunfit, hfront⟩, he, hlater⟩
      · rintro ⟨front, e, back, hsplit, hfront, he, hthis⟩
        cases front with
        | nil => exact .inl ((List.cons.inj hsplit).1 ▸ hthis)
        | cons f front =>
          exact .inr ⟨front, e, back, (List.cons.inj hsplit).2, fun g hg => hfront g (List.mem_cons_of_mem f hg), he, hthis⟩

theorem heroic_of_mem {entries : List (Value N)} {g : GameEntry} (h : g ∈ processEntries entries) : g.launcher = .heroic := by
  induction entries with
  | nil => exact absurd h List.not_mem_nil
  | cons entry rest ih =>
    rw [processEntries] at h
    by_cases hunfit : Unfit entry
    · rw [processEntry_unfit hunfit] at h
      exact absurd h List.not_mem_nil
    · obtain ⟨game, hgame, hlauncher, -⟩ := processEntry_fit hunfit
      rw [hgame] at h
      cases List.mem_append.mp h with
      | inl hthis => exact hlauncher g hthis
      | inr hlater => exact ih hlater

end Entries

/-! ## What is returned -/

def Launcher.rank : Launcher → ℕ
  | .steam => 0
  | .lutris => 1
  | .heroic => 2

theorem launcher_of_last {a b : Launcher} (h : a.text.getLast? = b.text.getLast?) : a = b := by
  revert h
  cases a <;> cases b <;> decide

theorem getLast?_key (g : GameEntry) : g.key.getLast? = g.launcher.text.getLast? := by
  unfold GameEntry.key
  cases g.launcher <;> exact List.getLast?_append_of_ne_nil _ (List.cons_ne_nil _ _)

/-- No name can be taken for another one with its launcher. -/
theorem key_inj {g h : GameEntry} : g.key = h.key ↔ g.name = h.name ∧ g.launcher = h.launcher := by
  constructor
  · intro heq
    have hlauncher : g.launcher = h.launcher :=
      launcher_of_last ((getLast?_key g).symm.trans ((congrArg List.getLast? heq).trans (getLast?_key h)))
    unfold GameEntry.key at heq
    rw [hlauncher] at heq
    exact ⟨List.append_inj_left' heq rfl, hlauncher⟩
  · rintro ⟨hname, hlauncher⟩
    unfold GameEntry.key
    rw [hname, hlauncher]

section Scans

theorem exists_name_filterMap (entryOf : Bytes × Bytes → Option GameEntry) (files : List (Bytes × Bytes)) (name : Bytes) :
    (∃ g ∈ files.filterMap entryOf, g.name = name) ↔ ∃ file ∈ files, (entryOf file).map GameEntry.name = some name := by
  simp only [List.mem_filterMap, Option.map_eq_some_iff]
  constructor
  · rintro ⟨g, ⟨file, hfile, hentry⟩, hname⟩
    exact ⟨file, hfile, g, hentry, hname⟩
  · rintro ⟨file, hfile, g, hentry, hname⟩
    exact ⟨g, ⟨file, hfile, hentry⟩, hname⟩

theorem steamEntry_name (file : Bytes × Bytes) :
    (steamEntry file).map GameEntry.name = (readFields parseVdfKvLine "appid" file.2).1 := by
  unfold steamEntry
  dsimp only
  rw [Option.map_map]
  exact Option.map_id'

theorem lutrisEntry_name (file : Bytes × Bytes) :
    (lutrisEntry file).map GameEntry.name = (readFields lutrisPair "slug" file.2).1 := by
  unfold lutrisEntry
  dsimp only
  rw [Option.map_map]
  exact Option.map_id'

variable {N : Type} (parse : Bytes → Option (Value N)) (disk : Disk)

/-- A game of this name and launcher is among those that are returned. -/
def Returned (launcher : Launcher) (name : Bytes) : Prop := ∃ g ∈ scanAll parse disk, g.launcher = launcher ∧ g.name = name

/-- What is scanned of one launcher. -/
def scanOf : Launcher → List GameEntry
  | .steam => scanSteam disk
  | .lutris => scanLutris disk
  | .heroic => scanHeroic parse disk

theorem launcher_of_scanOf {launcher : Launcher} {g : GameEntry} (h : g ∈ scanOf parse disk launcher) :
    g.launcher = launcher := by
  cases launcher with
  | steam =>
    obtain ⟨file, -, hentry⟩ := List.mem_filterMap.mp h
    obtain ⟨name, -, rfl⟩ := Option.map_eq_some_iff.mp hentry
    rfl
  | lutris =>
    obtain ⟨file, -, hentry⟩ := List.mem_filterMap.mp h
    obtain ⟨name, -, rfl⟩ := Option.map_eq_some_iff.mp hentry
    rfl
  | heroic =>
    obtain ⟨data, -, hentry⟩ := List.mem_flatMap.mp h
    exact heroic_of_mem hentry

theorem mem_scans (g : GameEntry) :
    g ∈ scanSteam disk ++ scanLutris disk ++ scanHeroic parse disk ↔ g ∈ scanOf parse disk g.launcher := by
  rw [List.mem_append, List.mem_append]
  constructor
  · rintro ((hg | hg) | hg)
    · exact (@launcher_of_scanOf N parse disk .steam g hg).symm ▸ hg
    · exact (@launcher_of_scanOf N parse disk .lutris g hg).symm ▸ hg
    · exact (@launcher_of_scanOf N parse disk .heroic g hg).symm ▸ hg
  · intro hg
    cases hlauncher : g.launcher with
    | steam => exact .inl (.inl (by rwa [hlauncher] at hg))
    | lutris => exact .inl (.inr (by rwa [hlauncher] at hg))
    | heroic => exact .inr (by rwa [hlauncher] at hg)

/-- Leaving out repetitions loses no name of a launcher. -/
theorem returned_iff (launcher : Launcher) (name : Bytes) :
    Returned parse disk launcher name ↔ ∃ g ∈ scanOf parse disk launcher, g.name = name := by
  have hkeys := mem_keys_keepFirst GameEntry.key [] (scanSteam disk ++ scanLutris disk ++ scanHeroic parse disk)
  have hsub := keepFirst_sublist GameEntry.key [] (scanSteam disk ++ scanLutris disk ++ scanHeroic parse disk)
  constructor
  · rintro ⟨g, hg, rfl, hname⟩
    exact ⟨g, (mem_scans parse disk g).mp (hsub.subset hg), hname⟩
  · rintro ⟨g, hg, hname⟩
    obtain rfl := launcher_of_scanOf parse disk hg
    have hmem := List.mem_map_of_mem (f := GameEntry.key) ((mem_scans parse disk g).mpr hg)
    obtain ⟨h, hh, hkey⟩ := List.mem_map.mp ((hkeys g.key).mpr ⟨List.not_mem_nil, hmem⟩)
    obtain ⟨hname', hlauncher⟩ := key_inj.mp hkey
    exact ⟨h, hh, hlauncher, hname'.trans hname⟩

theorem returned_steam_iff (name : Bytes) :
    Returned parse disk .steam name ↔ ∃ file ∈ manifests disk, InManifest file.2 name := by
  rw [returned_iff, scanOf, scanSteam, exists_name_filterMap]
  simp only [steamEntry_name, manifest_name_iff]

theorem returned_lutris_iff (name : Bytes) :
    Returned parse disk .lutris name ↔ ∃ file ∈ configs disk, InConfig file.2 name := by
  rw [returned_iff, scanOf, scanLutris, exists_name_filterMap]
  simp only [lutrisEntry_name, config_name_iff]

theorem returned_heroic_iff (name : Bytes) :
    Returned parse disk .heroic name ↔ ∃ data ∈ documents parse disk, InDocument data name := by
  rw [returned_iff, scanOf, scanHeroic]
  simp only [List.mem_flatMap]
  constructor
  · rintro ⟨g, ⟨data, hdata, hg⟩, hname⟩
    exact ⟨data, hdata, (processEntries_iff _ _).mp ⟨g, hg, hname⟩⟩
  · rintro ⟨data, hdata, hname⟩
    obtain ⟨g, hg, hthis⟩ := (processEntries_iff _ _).mpr hname
    exact ⟨g, ⟨data, hdata, hg⟩, hthis⟩

theorem pairwise_rank : (scanAll parse disk).Pairwise fun g h => g.launcher.rank ≤ h.launcher.rank := by
  have hone : ∀ {l : List GameEntry} {launcher : Launcher}, (∀ g ∈ l, g.launcher = launcher) →
      l.Pairwise fun g h => g.launcher.rank ≤ h.launcher.rank := by
    intro l launcher hl
    exact List.pairwise_of_forall_mem_list fun g hg h hh => by rw [hl g hg, hl h hh]
  have hsteam : ∀ g ∈ scanSteam disk, g.launcher = .steam := fun g hg => launcher_of_scanOf parse disk hg
  have hlutris : ∀ g ∈ scanLutris disk, g.launcher = .lutris := fun g hg => launcher_of_scanOf parse disk hg
  have hheroic : ∀ g ∈ scanHeroic parse disk, g.launcher = .heroic := fun g hg => launcher_of_scanOf parse disk hg
  refine List.Pairwise.sublist (keepFirst_sublist _ _ _) ?_
  refine List.pairwise_append.mpr ⟨List.pairwise_append.mpr ⟨hone hsteam, hone hlutris, ?_⟩, hone hheroic, ?_⟩
  · intro g hg h hh
    rw [hsteam g hg, hlutris h hh]
    decide
  · intro g hg h hh
    rw [hheroic h hh]
    cases g.launcher <;> decide

theorem nodup_scanAll : ((scanAll parse disk).map fun g => (g.name, g.launcher)).Nodup := by
  have hkeys := nodup_keepFirst GameEntry.key [] (scanSteam disk ++ scanLutris disk ++ scanHeroic parse disk)
  have hmap : (scanAll parse disk).map GameEntry.key =
      ((scanAll parse disk).map fun g => (g.name, g.launcher)).map fun pair => pair.1 ++ 0 :: pair.2.text := by
    rw [List.map_map]
    rfl
  exact List.Nodup.of_map _ (hmap ▸ hkeys)

/-! ## Entry by entry -/

/-- Whatever the files hold, the games are in the order of the launchers and without repetitions, and every entry with a
name is among them. -/
structure EntryByEntry : Prop where
  ordered : (scanAll parse disk).Pairwise fun g h => g.launcher.rank ≤ h.launcher.rank
  distinct : ((scanAll parse disk).map fun g => (g.name, g.launcher)).Nodup
  steam : ∀ file ∈ manifests disk, ∀ name, name ≠ [] → manifestNames file.2 = [name] → Returned parse disk .steam name
  lutris : ∀ file ∈ configs disk, ∀ name, name ≠ [] → configNames (lines file.2) = [some name] →
    Returned parse disk .lutris name
  heroic : ∀ data ∈ documents parse disk, ∀ entry ∈ entriesOf data, ∀ name, entryName entry = some name →
    Returned parse disk .heroic name

/-- Every name of a game also stands where the scanner looks for it: between the quotes of a manifest, behind the key of a
configuration, in a document that has no unfit entry up to it. -/
structure Readable : Prop where
  steam : ∀ file ∈ manifests disk, ∀ name, name ≠ [] → manifestNames file.2 = [name] →
    ∃ other ∈ manifests disk, InManifest other.2 name
  lutris : ∀ file ∈ configs disk, ∀ name, name ≠ [] → configNames (lines file.2) = [some name] →
    ∃ other ∈ configs disk, InConfig other.2 name
  heroic : ∀ data ∈ documents parse disk, ∀ entry ∈ entriesOf data, ∀ name, entryName entry = some name →
    ∃ other ∈ documents parse disk, InDocument other name

theorem entry_by_entry_iff : EntryByEntry parse disk ↔ Readable parse disk := by
  constructor
  · intro h
    exact {
      steam := fun file hfile name hne hname => (returned_steam_iff parse disk name).mp (h.steam file hfile name hne hname)
      lutris := fun file hfile name hne hname => (returned_lutris_iff parse disk name).mp (h.lutris file hfile name hne hname)
      heroic := fun data hdata entry hentry name hname =>
        (returned_heroic_iff parse disk name).mp (h.heroic data hdata entry hentry name hname) }
  · intro h
    exact {
      ordered := pairwise_rank parse disk
      distinct := nodup_scanAll parse disk
      steam := fun file hfile name hne hname => (returned_steam_iff parse disk name).mpr (h.steam file hfile name hne hname)
      lutris := fun file hfile name hne hname => (returned_lutris_iff parse disk name).mpr (h.lutris file hfile name hne hname)
      heroic := fun data hdata entry hentry name hname =>
        (returned_heroic_iff parse disk name).mpr (h.heroic data hdata entry hentry name hname) }

end Scans

/-- A document of three entries; the title of the second is a number. -/
def oddTitle : Value ℕ :=
  .array [.object [(ascii "title", .string (ascii "A"))], .object [(ascii "title", .number 5)],
    .object [(ascii "title", .string (ascii "B"))]]

/-- Nothing but documents of Heroic. -/
def heroicDisk : Disk where
  home := ascii "/h"
  isThere := fun _ => true
  list := fun _ => []
  read := fun _ => some []

theorem odd_title_hides :
    ¬∀ (N : Type) (parse : Bytes → Option (Value N)) (disk : Disk), EntryByEntry parse disk := by
  intro hall
  have hthere : oddTitle ∈ documents (fun _ => some oddTitle) heroicDisk := List.mem_cons_self
  have hentry : Value.object [(ascii "title", .string (ascii "B"))] ∈ entriesOf oddTitle :=
    List.mem_cons_of_mem _ (List.mem_cons_of_mem _ List.mem_cons_self)
  obtain ⟨g, hg, -, hname⟩ := (hall ℕ (fun _ => some oddTitle) heroicDisk).heroic oddTitle hthere _ hentry (ascii "B") rfl
  have hothers : ∀ g ∈ scanAll (fun _ => some oddTitle) heroicDisk, g.name ≠ ascii "B" := by decide
  exact hothers g hg hname

end Sunshine.GameScanner
