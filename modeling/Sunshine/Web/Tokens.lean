import Sunshine.Config.Lines
import Sunshine.Lib.Entries
import Sunshine.Lib.Texts

/-! API tokens: `createToken`, the line it tells the administrator to add to `sunshine.conf`, `parse_api_tokens` and
the authentication by a token.

`createToken_unloaded` says that the line never adds the token. -/
namespace Sunshine.Tokens
open Config Texts Entries Trimming
set_option autoImplicit false

/-! ## Scopes -/

inductive ApiScope where
  | configGet
  | configSet
  | appsGet
  | appsLaunch
  | appsClose
  | clientsList
  | clientsPair
  | clientsUnpair
  | logsGet
  | displayReset
  | tokensManage
  | star
  deriving DecidableEq

/-- `to_string`. -/
def ApiScope.text : ApiScope → Text
  | .configGet => "config:get".toList
  | .configSet => "config:set".toList
  | .appsGet => "apps:get".toList
  | .appsLaunch => "apps:launch".toList
  | .appsClose => "apps:close".toList
  | .clientsList => "clients:list".toList
  | .clientsPair => "clients:pair".toList
  | .clientsUnpair => "clients:unpair".toList
  | .logsGet => "logs:get".toList
  | .displayReset => "display:reset".toList
  | .tokensManage => "tokens:manage".toList
  | .star => "*".toList

def apiScopes : List ApiScope :=
  [.configGet, .configSet, .appsGet, .appsLaunch, .appsClose, .clientsList, .clientsPair, .clientsUnpair, .logsGet,
    .displayReset, .tokensManage, .star]

def apiScopeFromString (s : Text) : Option ApiScope := apiScopes.find? fun scope => s = scope.text

/-! ## Reading the tokens -/

structure ApiToken where
  name : Text
  tokenHash : Text
  salt : Text
  scopes : List ApiScope
  deriving DecidableEq

def trim (text : Text) : Text := (text.dropWhile whitespace).rdropWhile whitespace

def parseScopes (text : Text) : List ApiScope := ((getlines ',' text).map trim).filterMap apiScopeFromString

def parseEntry (entry : Text) : Option ApiToken :=
  match getlines '\t' entry with
  | [name, tokenHash, salt, scopes] =>
    if name = [] ∨ tokenHash = [] ∨ salt = [] then none
    else if parseScopes scopes = [] then none
    else some ⟨name, tokenHash, salt, parseScopes scopes⟩
  | _ => none

def parseApiTokens (temp : Text) : List ApiToken :=
  (((getlines '|' temp).map trim).filter (· ≠ [])).filterMap parseEntry

def apiTokensKey : Text := "api_tokens".toList

/-- The tokens of a configuration file. -/
def loadTokens (fileContent : Text) : List ApiToken :=
  ((parseConfig fileContent).lookup apiTokensKey).elim [] parseApiTokens

/-! ## Minting -/

def hexDigit (digits : String) (value : ℕ) : Char := (digits.toList[value]?).getD '0'

def hexEncode (raw : List UInt8) : Text :=
  raw.flatMap fun c =>
    [hexDigit "0123456789abcdef" (c.toNat / 16), hexDigit "0123456789abcdef" (c.toNat % 16)]

/-- `util::hex`, from the last byte to the first. -/
def utilHex (bytes : List UInt8) : Text :=
  bytes.reverse.flatMap fun c =>
    [hexDigit "0123456789ABCDEF" (c.toNat / 16), hexDigit "0123456789ABCDEF" (c.toNat % 16)]

structure MintedToken where
  plaintext : Text
  hash : Text
  salt : Text

section Hash

variable (hash : Text → List UInt8)

/-- From the random bytes; `hash` is `crypto::hash`. -/
def mintApiToken (plainRaw saltRaw : List UInt8) : MintedToken :=
  ⟨hexEncode plainRaw, utilHex (hash (hexEncode plainRaw ++ ':' :: hexEncode saltRaw)), hexEncode saltRaw⟩

/-! ## `createToken` -/

inductive Json where
  | string (text : Text)
  | array (items : List Json)
  | other

/-- The body of the request: no JSON, no object, or an object with these members. -/
inductive Body where
  | invalid
  | notObject
  | object (name scopes : Option Json)

inductive Refused where
  | badRequest (message : String)
  | typeError

/-- What the request comes to: the answer, and the line in the log. -/
structure Created where
  name : Text
  plaintext : Text
  scopes : List ApiScope
  line : Text

def readScopes : List Json → Except Refused (List ApiScope)
  | [] => .ok []
  | .string text :: rest =>
    match apiScopeFromString text with
    | none => .error (.badRequest ("Unknown scope: '" ++ String.ofList text ++ "'"))
    | some scope => (readScopes rest).map (scope :: ·)
  | _ :: _ => .error (.badRequest "Each scope must be a string")

def cfgEntry (name : Text) (minted : MintedToken) (scopes : List ApiScope) : Text :=
  name ++ '\t' :: minted.hash ++ '\t' :: minted.salt ++ '\t' :: [','].intercalate (scopes.map ApiScope.text)

def logFront : Text := "  api_tokens += \"".toList

/-- The line that the log tells the administrator to add. -/
def logLine (cfgEntry : Text) : Text := logFront ++ cfgEntry ++ ['"']

def createToken (apiTokens : List ApiToken) (body : Body) (plainRaw saltRaw : List UInt8) :
    Except Refused Created :=
  match body with
  | .invalid => .error (.badRequest "Invalid JSON body")
  | .notObject => .error .typeError
  | .object name scopesIn =>
    match name.getD (.string []) with
    | .string name =>
      if name = [] then .error (.badRequest "Token name is required")
      else if apiTokens.any (·.name = name) then .error (.badRequest "Token name already exists")
      else
        match scopesIn with
        | some (.array (item :: items)) =>
          match readScopes (item :: items) with
          | .error refused => .error refused
          | .ok scopes =>
            let minted := mintApiToken hash plainRaw saltRaw
            .ok ⟨name, minted.plaintext, scopes, logLine (cfgEntry name minted scopes)⟩
        | _ => .error (.badRequest "At least one scope is required")
    | _ => .error .typeError

/-! ## `authenticate_bearer` -/

structure AuthResult where
  tokenName : Text
  grantedScopes : List ApiScope
  isAdmin : Bool

/-- The result of an authenticated request. -/
def authenticateBearer (apiTokens : List ApiToken) (authorization : Option Text) : Option AuthResult :=
  match authorization with
  | none => none
  | some raw =>
    if raw.length < 7 ∨ (raw.take 7).map Char.toLower ≠ "bearer ".toList then none
    else
      let presented := trim (raw.drop 7)
      if presented = [] then none
      else
        (apiTokens.find? fun token => utilHex (hash (presented ++ ':' :: token.salt)) = token.tokenHash).map
          fun token => ⟨token.name, token.scopes, token.scopes.contains .star⟩

/-! ## The line -/

/-- The file ends with a complete line: what is added behind it is read on from what it says. -/
def Complete (file : Text) : Prop :=
  ∀ rest, parseConfig (file ++ '\n' :: rest) = parseLoop rest.length rest (parseConfig file)

def addLine (file line : Text) : Text := file ++ '\n' :: (line ++ ['\n'])

/-- The line adds the token, and its plaintext authenticates with its scopes. -/
structure Agrees (file : Text) (created : Created) (minted : MintedToken) : Prop where
  loaded : loadTokens (addLine file created.line) =
    loadTokens file ++ [⟨created.name, minted.hash, minted.salt, created.scopes⟩]
  authenticates : (authenticateBearer hash (loadTokens (addLine file created.line))
    (some ("Bearer ".toList ++ created.plaintext))).map AuthResult.grantedScopes = some created.scopes

/-! ## Tabs -/

theorem not_tab_hexDigit (digits : String) (none : '\t' ∉ digits.toList) (value : ℕ) : hexDigit digits value ≠ '\t' := by
  rw [hexDigit]
  cases found : digits.toList[value]? with
  | none => decide
  | some digit =>
    rintro rfl
    exact none (List.mem_of_getElem? found)

theorem not_tab_hexEncode (raw : List UInt8) : '\t' ∉ hexEncode raw := by
  intro mem
  obtain ⟨c, -, digit⟩ := List.mem_flatMap.mp mem
  have plain (value : ℕ) := not_tab_hexDigit "0123456789abcdef" (by decide) value
  simp only [List.mem_cons, List.not_mem_nil, or_false] at digit
  rcases digit with high | low
  · exact plain _ high.symm
  · exact plain _ low.symm

theorem not_tab_utilHex (bytes : List UInt8) : '\t' ∉ utilHex bytes := by
  intro mem
  obtain ⟨c, -, digit⟩ := List.mem_flatMap.mp mem
  have plain (value : ℕ) := not_tab_hexDigit "0123456789ABCDEF" (by decide) value
  simp only [List.mem_cons, List.not_mem_nil, or_false] at digit
  rcases digit with high | low
  · exact plain _ high.symm
  · exact plain _ low.symm

theorem not_tab_scopes (scopes : List ApiScope) : '\t' ∉ [','].intercalate (scopes.map ApiScope.text) := by
  have each (scope : ApiScope) : '\t' ∉ scope.text := by cases scope <;> decide +kernel
  induction scopes with
  | nil => simp
  | cons scope scopes ih =>
    cases scopes with
    | nil => simpa using each scope
    | cons next rest =>
      rw [List.map_cons, List.map_cons, List.intercalate_cons_cons]
      simp only [List.mem_append, not_or]
      exact ⟨⟨each scope, by decide⟩, by simpa using ih⟩

/-- The text behind the name holds two tabs. -/
theorem count_tab_cfgEntry (name : Text) (plainRaw saltRaw : List UInt8) (scopes : List ApiScope) :
    ∃ behind, cfgEntry name (mintApiToken hash plainRaw saltRaw) scopes = name ++ '\t' :: behind ∧
      behind.count '\t' = 2 := by
  refine ⟨(mintApiToken hash plainRaw saltRaw).hash ++ '\t' :: ((mintApiToken hash plainRaw saltRaw).salt ++
    '\t' :: [','].intercalate (scopes.map ApiScope.text)), ?_, ?_⟩
  · rw [cfgEntry]
    simp only [List.append_assoc, List.cons_append]
  simp only [mintApiToken, List.count_append, List.count_cons, List.count_eq_zero.mpr (not_tab_utilHex _),
    List.count_eq_zero.mpr (not_tab_hexEncode _), List.count_eq_zero.mpr (not_tab_scopes _)]
  decide

/-! ## Tokens in a text -/

/-- A token that is read stands in the text with three tabs behind its name. -/
theorem parseApiTokens_sublist (temp : Text) (token : ApiToken) (mem : token ∈ parseApiTokens temp) :
    '\t' ∉ token.name ∧ ∃ behind, (token.name ++ '\t' :: behind).Sublist temp ∧ 2 ≤ behind.count '\t' := by
  obtain ⟨entry, entryMem, parsed⟩ := List.mem_filterMap.mp mem
  obtain ⟨segment, segmentMem, rfl⟩ := List.mem_map.mp (List.mem_of_mem_filter entryMem)
  have part : (trim segment).Sublist temp :=
    ((List.rdropWhile_prefix whitespace _).sublist.trans (List.dropWhile_sublist _)).trans
      (getlines_sublist '|' temp segment segmentMem)
  rw [parseEntry] at parsed
  split at parsed
  · rename_i name tokenHash salt scopes segments
    split_ifs at parsed
    obtain rfl := Option.some.inj parsed
    obtain ⟨plain, first, split, afterName⟩ := getlines_cons '\t' _ name tokenHash [salt, scopes] segments
    obtain ⟨-, second, rfl, afterHash⟩ := getlines_cons '\t' _ tokenHash salt [scopes] afterName
    obtain ⟨-, third, rfl, -⟩ := getlines_cons '\t' _ salt scopes [] afterHash
    rw [split] at part
    refine ⟨plain, _, part, ?_⟩
    simp only [List.count_append, List.count_cons_self]
    omega
  · cases parsed

/-- Behind less than the name there are too few tabs for a token with it. -/
theorem not_mem_parseApiTokens (name behind : Text) (nonempty : name ≠ []) (tabs : behind.count '\t' = 2)
    (temp : Text) (part : temp.Sublist (name.tail ++ '\t' :: behind)) (token : ApiToken)
    (mem : token ∈ parseApiTokens temp) : token.name ≠ name := by
  rintro rfl
  obtain ⟨plain, more, whole, count⟩ := parseApiTokens_sublist temp token mem
  obtain ⟨front, back, split, frontPart, backPart⟩ := List.sublist_append_iff.mp (whole.trans part)
  obtain ⟨extra, same, -⟩ | ⟨left, same, rest⟩ := List.append_eq_append_iff.mp split
  · have long := congrArg List.length same
    have short := frontPart.length_le
    have := List.length_pos_iff.mpr nonempty
    simp only [List.length_append, List.length_tail] at long short
    omega
  · -- some of the name is left for the text behind the tab
    cases left with
    | nil =>
      have short := frontPart.length_le
      have := List.length_pos_iff.mpr nonempty
      have long := congrArg List.length same
      simp only [List.append_nil, List.length_tail] at long short
      omega
    | cons ch left =>
      rw [rest, List.cons_append, List.cons_sublist_cons'] at backPart
      obtain later | ⟨rfl, -⟩ := backPart
      · have few := later.count_le '\t'
        simp only [List.count_cons, List.count_append, beq_self_eq_true, if_true, tabs] at few
        omega
      · rw [same] at plain
        exact plain (by simp)

/-! ## The line in the file -/

theorem tail_dropWhile_sublist (p : Char → Bool) (text : Text) : (text.dropWhile p).tail.Sublist text.tail := by
  cases text with
  | nil => exact List.Sublist.refl _
  | cons ch text =>
    rw [List.dropWhile_cons]
    split
    · exact (List.tail_sublist _).trans (List.dropWhile_sublist p)
    · exact List.Sublist.refl _

/-- The key that the reader sees on the line. -/
def printedKey : Text := "api_tokens +".toList

theorem printedKey_eq : printedKey = ['a', 'p', 'i', '_', 't', 'o', 'k', 'e', 'n', 's', ' ', '+'] := rfl

theorem printedKey_plain : ∀ ch ∈ printedKey, ch ≠ '=' ∧ ch ≠ '#' ∧ endline ch = false := by
  rw [printedKey_eq]
  simp [endline]

/-- A line `key= "…`: the key is the text before the sign, and the pass ends with the line. -/
theorem parseOption_quoted (tail : Text) :
    ∃ value, parseOption (printedKey ++ '=' :: ' ' :: '"' :: tail) =
      (tail.dropWhile fun ch => !endline ch, some (printedKey, value)) := by
  have start : (printedKey ++ '=' :: ' ' :: '"' :: tail).dropWhile whitespace =
      printedKey ++ '=' :: ' ' :: '"' :: tail := by
    rw [printedKey_eq]
    exact List.dropWhile_cons_of_neg (by decide)
  have inLine (more : Text) : ((printedKey ++ '=' :: ' ' :: '"' :: more).takeWhile fun ch => !endline ch) =
      printedKey ++ '=' :: ' ' :: '"' :: more.takeWhile fun ch => !endline ch := by
    rw [List.takeWhile_append_of_pos fun ch mem => by simp [(printedKey_plain ch mem).2.2],
      List.takeWhile_cons_of_pos (by decide), List.takeWhile_cons_of_pos (by decide),
      List.takeWhile_cons_of_pos (by decide)]
  have noComment (more : Text) : (printedKey ++ '=' :: ' ' :: '"' :: more).takeWhile (· ≠ '#') =
      printedKey ++ '=' :: ' ' :: '"' :: more.takeWhile (· ≠ '#') := by
    rw [List.takeWhile_append_of_pos fun ch mem => by simp [(printedKey_plain ch mem).2.1],
      List.takeWhile_cons_of_pos (by decide), List.takeWhile_cons_of_pos (by decide),
      List.takeWhile_cons_of_pos (by decide)]
  obtain ⟨more, body⟩ : ∃ more, optionBody (printedKey ++ '=' :: ' ' :: '"' :: tail) =
      printedKey ++ '=' :: ' ' :: '"' :: more := by
    refine ⟨((tail.takeWhile fun ch => !endline ch).takeWhile (· ≠ '#')).rdropWhile whitespace, ?_⟩
    rw [optionBody, inLine, noComment, rdropWhile_append _ _ _ ⟨'"', by simp, by decide⟩,
      show ∀ l : Text, '=' :: ' ' :: '"' :: l = ['=', ' '] ++ '"' :: l from fun l => rfl,
      rdropWhile_append _ _ _ ⟨'"', by simp, by decide⟩, rdropWhile_cons _ _ _ (by decide)]
    rfl
  have name : (printedKey ++ '=' :: ' ' :: '"' :: more).takeWhile (· ≠ '=') = printedKey := by
    rw [List.takeWhile_append_of_pos fun ch mem => by simp [(printedKey_plain ch mem).1],
      List.takeWhile_cons_of_neg (by decide), List.append_nil]
  have dropped (text : Text) : (printedKey ++ '=' :: ' ' :: '"' :: text).drop (printedKey.length + 1) =
      ' ' :: '"' :: text := by
    rw [← List.drop_drop, List.drop_left]
    rfl
  have endl : ((printedKey ++ '=' :: ' ' :: '"' :: tail).dropWhile fun ch => !endline ch) =
      tail.dropWhile fun ch => !endline ch := by
    rw [List.dropWhile_append_of_pos fun ch mem => by simp [(printedKey_plain ch mem).2.2],
      List.dropWhile_cons_of_pos (by decide), List.dropWhile_cons_of_pos (by decide),
      List.dropWhile_cons_of_pos (by decide)]
  have blank (text : Text) : (' ' :: '"' :: text).takeWhile spaceTab = [' '] := by
    rw [List.takeWhile_cons_of_pos (by decide), List.takeWhile_cons_of_neg (by decide)]
  have short := (List.dropWhile_sublist (fun ch => !endline ch) (l := tail)).length_le
  have trimmed : toText false (printedKey.rdropWhile spaceTab) = printedKey := by decide
  have between : (printedKey ++ '=' :: ' ' :: '"' :: tail).drop (printedKey.length + 1 + 1) = '"' :: tail := by
    rw [← List.drop_drop, dropped]
    rfl
  have named : ¬ (printedKey = printedKey ++ '=' :: ' ' :: '"' :: more ∨ printedKey = []) := by
    rintro (whole | empty)
    · simpa using congrArg List.length whole
    · exact absurd empty (by decide)
  have value : ¬ ('"' :: tail).length = (tail.dropWhile fun ch => !endline ch).length := by
    rw [List.length_cons]
    omega
  refine ⟨toText false (('"' :: tail).take
    (('"' :: tail).length - (tail.dropWhile fun ch => !endline ch).length)), ?_⟩
  rw [parseOption]
  simp only [start, body, name, endl, dropped, blank, trimmed, List.length_singleton, between]
  rw [if_neg named, if_neg value, if_neg (by simp)]

/-- The reader sets another key, and goes on inside of the entry. -/
theorem parseLoop_logLine (entry : Text) (vars : List (Text × Text)) :
    ∃ fuel pos value, parseLoop (logLine entry ++ ['\n']).length (logLine entry ++ ['\n']) vars =
        parseLoop fuel pos (emplace vars (printedKey, value)) ∧
      pos.Sublist (entry ++ ['"', '\n']).tail := by
  have line : logLine entry ++ ['\n'] =
      ' ' :: ' ' :: (printedKey ++ '=' :: ' ' :: '"' :: (entry ++ ['"', '\n'])) := by
    have front : logFront = ' ' :: ' ' :: (printedKey ++ ['=', ' ', '"']) := rfl
    rw [logLine, front]
    simp only [List.append_assoc, List.cons_append, List.nil_append]
  have blanks (text : Text) : parseOption (' ' :: ' ' :: text) = parseOption text := by
    have dropped : (' ' :: ' ' :: text).dropWhile whitespace = text.dropWhile whitespace := by
      rw [List.dropWhile_cons_of_pos (by decide), List.dropWhile_cons_of_pos (by decide)]
    simp only [parseOption, dropped]
  obtain ⟨value, read⟩ := parseOption_quoted (entry ++ ['"', '\n'])
  refine ⟨(' ' :: (printedKey ++ '=' :: ' ' :: '"' :: (entry ++ ['"', '\n']))).length,
    nextLine ((entry ++ ['"', '\n']).dropWhile fun ch => !endline ch), value, ?_, ?_⟩
  · rw [line, List.length_cons, parseLoop, if_neg (List.cons_ne_nil _ _), blanks, read]
    rfl
  · exact (nextLine_sublist _).trans (tail_dropWhile_sublist _ _)

theorem loadTokens_of_lookup (file : Text) (temp : Option Text)
    (found : (parseConfig file).lookup apiTokensKey = temp) : loadTokens file = temp.elim [] parseApiTokens := by
  rw [loadTokens, found]

/-- The line of an accepted request does not load its token. -/
theorem loadTokens_logLine (file name : Text) (complete : Complete file) (nonempty : name ≠ [])
    (plainRaw saltRaw : List UInt8) (scopes : List ApiScope) (token : ApiToken) (same : token.name = name) :
    loadTokens (addLine file (logLine (cfgEntry name (mintApiToken hash plainRaw saltRaw) scopes))) ≠
      loadTokens file ++ [token] := by
  obtain ⟨behind, entry, tabs⟩ := count_tab_cfgEntry hash name plainRaw saltRaw scopes
  obtain ⟨fuel, pos, value, reads, part⟩ :=
    parseLoop_logLine (cfgEntry name (mintApiToken hash plainRaw saltRaw) scopes) (parseConfig file)
  have read := (complete (logLine (cfgEntry name (mintApiToken hash plainRaw saltRaw) scopes) ++ ['\n'])).trans reads
  intro loaded
  cases before : (parseConfig file).lookup apiTokensKey with
  | some temp =>
    -- the first line of a key counts
    have still : (parseConfig (addLine file (logLine (cfgEntry name (mintApiToken hash plainRaw saltRaw)
        scopes)))).lookup apiTokensKey = some temp := by
      rw [addLine, read]
      exact parseLoop_lookup _ _ _ _ _ (emplace_lookup _ _ _ _ before)
    rw [loadTokens_of_lookup _ _ still, loadTokens_of_lookup _ _ before] at loaded
    simpa using congrArg List.length loaded
  | none =>
    rw [loadTokens_of_lookup file _ before, Option.elim_none, List.nil_append] at loaded
    cases after : (parseConfig (addLine file (logLine (cfgEntry name (mintApiToken hash plainRaw saltRaw)
        scopes)))).lookup apiTokensKey with
    | none =>
      rw [loadTokens_of_lookup _ _ after] at loaded
      cases loaded
    | some temp =>
      rw [loadTokens_of_lookup _ _ after, Option.elim_some] at loaded
      have mem := mem_of_lookup after
      rw [addLine, read] at mem
      rcases parseLoop_sublist fuel pos _ _ mem with old | new
      · rcases mem_emplace _ _ _ old with old | other
        · exact lookup_of_mem old before
        · have keys : apiTokensKey = printedKey := congrArg Prod.fst other
          exact absurd keys (by decide)
      · rw [entry, List.append_assoc, List.cons_append, List.tail_append_of_ne_nil nonempty] at part
        exact not_mem_parseApiTokens name (behind ++ ['"', '\n']) nonempty (by simp [tabs]) temp (new.trans part)
          token (by simp [loaded]) same

theorem createToken_created (apiTokens : List ApiToken) (body : Body) (plainRaw saltRaw : List UInt8)
    (created : Created) (accepted : createToken hash apiTokens body plainRaw saltRaw = .ok created) :
    created.name ≠ [] ∧
      created.line = logLine (cfgEntry created.name (mintApiToken hash plainRaw saltRaw) created.scopes) := by
  cases body with
  | invalid => cases accepted
  | notObject => cases accepted
  | object name scopes =>
    rw [createToken] at accepted
    split at accepted
    · split_ifs at accepted with empty known
      split at accepted
      · split at accepted
        · cases accepted
        · cases accepted
          exact ⟨empty, rfl⟩
      · cases accepted
    · cases accepted

/-- Whatever is created and whatever the file says: the line that is printed does not add the token to it. -/
theorem createToken_unloaded (apiTokens : List ApiToken) (body : Body) (plainRaw saltRaw : List UInt8)
    (created : Created) (accepted : createToken hash apiTokens body plainRaw saltRaw = .ok created) (file : Text)
    (complete : Complete file) : ¬ Agrees hash file created (mintApiToken hash plainRaw saltRaw) := by
  intro agrees
  obtain ⟨nonempty, line⟩ := createToken_created hash apiTokens body plainRaw saltRaw created accepted
  have loaded := agrees.loaded
  rw [line] at loaded
  exact loadTokens_logLine hash file created.name complete nonempty plainRaw saltRaw created.scopes _ rfl loaded

end Hash

/-! ## Files of plain lines -/

theorem parseLoop_newline (rest : Text) (vars : List (Text × Text)) :
    parseLoop ('\n' :: rest).length ('\n' :: rest) vars = parseLoop rest.length rest vars := by
  have blank : parseOption ('\n' :: rest) = parseOption rest := by
    have dropped : ('\n' :: rest).dropWhile whitespace = rest.dropWhile whitespace :=
      List.dropWhile_cons_of_pos (by decide)
    simp only [parseOption, dropped]
  rw [List.length_cons, parseLoop, if_neg (List.cons_ne_nil _ _), blank]
  cases rest with
  | nil => rfl
  | cons ch rest =>
    have shorter : (nextLine (parseOption (ch :: rest)).1).length ≤ rest.length := by
      have pass := parseOption_length_le (ch :: rest)
      have line := nextLine_length (parseOption (ch :: rest)).1
      rw [List.length_cons] at pass
      omega
    rw [List.length_cons, parseLoop_fuel (rest.length + 1) _ _ (shorter.trans (Nat.le_succ _)), parseLoop,
      if_neg (List.cons_ne_nil _ _)]
    exact (parseLoop_fuel _ _ _ shorter).symm

theorem parseLoop_plainLine (key text rest : Text) (plain : PlainKey key ∧ PlainText text)
    (vars : List (Text × Text)) :
    parseLoop (lineOf key text rest).length (lineOf key text rest) vars =
      parseLoop rest.length rest (emplace vars (key, text)) := by
  obtain ⟨endl, read, next⟩ : ∃ endl, parseOption (lineOf key text rest) = (endl, some (key, text)) ∧
      nextLine endl = rest := parseOption_plain plain.1 plain.2
  have longer := length_lineOf key text rest
  have nonempty : lineOf key text rest ≠ [] := List.ne_nil_of_length_pos (by omega)
  obtain ⟨fuel, length⟩ := Nat.exists_eq_succ_of_ne_zero (show (lineOf key text rest).length ≠ 0 by omega)
  rw [length, parseLoop, if_neg nonempty, read]
  simp only [next, Option.elim_some]
  exact parseLoop_fuel fuel rest _ (by omega)

theorem lineOf_append (key text rest more : Text) : lineOf key text rest ++ more = lineOf key text (rest ++ more) := by
  simp only [lineOf, List.append_assoc, List.cons_append]

theorem parseLoop_linesOf (lines : List (Text × Text)) (plain : ∀ line ∈ lines, PlainKey line.1 ∧ PlainText line.2)
    (more : Text) (vars : List (Text × Text)) :
    parseLoop (linesOf lines ++ more).length (linesOf lines ++ more) vars =
      parseLoop more.length more (parseLoop (linesOf lines).length (linesOf lines) vars) := by
  induction lines generalizing vars with
  | nil => rfl
  | cons line lines ih =>
    have here := plain line (List.mem_cons_self ..)
    rw [linesOf, lineOf_append, parseLoop_plainLine _ _ _ here, parseLoop_plainLine _ _ _ here]
    exact ih (fun later mem => plain later (List.mem_cons_of_mem line mem)) _

theorem complete_linesOf (lines : List (Text × Text)) (plain : ∀ line ∈ lines, PlainKey line.1 ∧ PlainText line.2) :
    Complete (linesOf lines) := by
  intro rest
  rw [parseConfig, parseLoop_linesOf lines plain, parseLoop_newline]
  rfl

/-! ## A token -/

namespace CiBot

/-- The digest of the text that is minted here. -/
def digest : List UInt8 :=
  [10, 136, 47, 159, 198, 178, 199, 31, 31, 234, 13, 73, 142, 139, 69, 202, 40, 150, 78, 144, 93, 240, 208, 63, 52,
    221, 204, 47, 129, 191, 33, 137]

def hash (_ : Text) : List UInt8 := digest

def plainRaw : List UInt8 := List.replicate 32 0

def saltRaw : List UInt8 := List.replicate 16 0

def body : Body := .object (some (.string ['c', 'i'])) (some (.array [.string "config:get".toList]))

def created : Created :=
  ⟨['c', 'i'], hexEncode plainRaw, [.configGet],
    logLine (cfgEntry ['c', 'i'] (mintApiToken hash plainRaw saltRaw) [.configGet])⟩

/-- One token is there already. -/
def file : Text := linesOf [(apiTokensKey, ['b', 'o', 't', '\t', 'A', '\t', 'B', '\t', '*'])]

theorem createToken_body : createToken hash [] body plainRaw saltRaw = .ok created := rfl

theorem complete_file : Complete file := by
  refine complete_linesOf _ fun line mem => ?_
  rw [List.mem_singleton.mp mem]
  have key : apiTokensKey = ['a', 'p', 'i', '_', 't', 'o', 'k', 'e', 'n', 's'] := by decide
  constructor
  · rw [key]
    constructor <;> simp [endline, spaceTab]
  · refine ⟨by simp, _, _, rfl, by decide, ?_⟩
    simp [endline]

end CiBot

open CiBot in
theorem createToken_unloaded_ciBot : ¬ Agrees CiBot.hash file created (mintApiToken CiBot.hash plainRaw saltRaw) :=
  createToken_unloaded CiBot.hash [] body plainRaw saltRaw created createToken_body file complete_file

open CiBot in
/-- In an empty file the line loads no token with the name, the hash, the salt and the scope that were minted. -/
theorem line_notLoaded :
    createToken CiBot.hash [] body plainRaw saltRaw = .ok created ∧
      loadTokens (addLine [] created.line) ≠ loadTokens [] ++
        [⟨['c', 'i'], (mintApiToken CiBot.hash plainRaw saltRaw).hash, hexEncode saltRaw, [.configGet]⟩] :=
  ⟨createToken_body, loadTokens_logLine CiBot.hash [] ['c', 'i'] (complete_linesOf [] (by simp)) (by simp) plainRaw
    saltRaw [.configGet] _ rfl⟩

end Sunshine.Tokens
