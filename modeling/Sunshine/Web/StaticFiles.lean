import Sunshine.Lib.RealPaths
import Sunshine.Web.Handlers

/-! The files of the web interface that are sent to a browser.

A request names a file below the web directory, in its own words: with dots, with names that do not exist, through links.
What is compared with the allowed root are the texts of the two real locations. -/
namespace Sunshine.StaticFiles
open Config RealPaths Web
set_option autoImplicit false

/-! ## `is_safe_path` -/

section Safe

variable {α : Type} (fs : FileSystem α) (maxLinks : ℕ)

def isPathWithinRoot (requested root : List Name) : Bool :=
  match weaklyCanonical fs maxLinks root, weaklyCanonical fs maxLinks requested with
  | some canonRoot, some canonRequested => within (text canonRequested) (text canonRoot)
  | _, _ => false

def pathExists (path : List Name) : Bool :=
  match resolve fs maxLinks [] path with
  | .found _ => true
  | .missing => false
  | .loops => false

def isSafePath (path root : List Name) : Bool :=
  if !pathExists fs maxLinks root then false
  else if !pathExists fs maxLinks path then false
  else isPathWithinRoot fs maxLinks path root

end Safe

/-! ## The answer -/

def mimeTypes : List (String × String) :=
  [("css", "text/css"), ("gif", "image/gif"), ("htm", "text/html"), ("html", "text/html"), ("ico", "image/x-icon"),
    ("jpeg", "image/jpeg"), ("jpg", "image/jpeg"), ("js", "application/javascript"), ("json", "application/json"),
    ("png", "image/png"), ("svg", "image/svg+xml"), ("ttf", "font/ttf"), ("txt", "text/plain"), ("woff2", "font/woff2"),
    ("xml", "text/xml")]

/-- From the last dot on, if that does not begin the name. -/
def extension (name : Name) : Text :=
  let stem := name.rdropWhile (· ≠ '.')
  if name = ['.', '.'] ∨ stem.length ≤ 1 then [] else '.' :: name.drop stem.length

/-- The name of a build has a hash of its content: letters, digits, underscores and dashes behind a dash. -/
def hashedStem (stem : Text) : Bool :=
  (List.range stem.length).any fun i =>
    1 ≤ i && stem[i]? = some '-' && (stem.take i).all (fun ch => ch ≠ '\n' && ch ≠ '\r') &&
      8 ≤ (stem.drop (i + 1)).length && (stem.drop (i + 1)).all wordCharacter

/-- `^assets/(?!locale/).+-[A-Za-z0-9_-]{8,}\.(js|css)$`. -/
def hashedAsset (relativePath : Text) : Bool :=
  "assets/".toList.isPrefixOf relativePath && !"locale/".toList.isPrefixOf (relativePath.drop 7) &&
    [".js".toList, ".css".toList].any fun ending =>
      ending.isSuffixOf (relativePath.drop 7) &&
        hashedStem ((relativePath.drop 7).take ((relativePath.drop 7).length - ending.length))

def cacheControlForWebPath (relativePath : Text) : String :=
  if hashedAsset relativePath then "public, max-age=31536000, immutable" else "no-cache"

def staticResponseHeaders (contentType cacheControl : String) : List (String × String) :=
  [("Content-Type", contentType), ("Cache-Control", cacheControl), ("X-Frame-Options", "DENY"),
    ("Content-Security-Policy", "frame-ancestors 'none';"),
    ("Strict-Transport-Security", "max-age=31536000; includeSubDomains")]

/-- `failed`: an exception of the file system. -/
inductive Answer (α : Type) where
  | ok (content : α) (headers : List (String × String))
  | notFound
  | badRequest
  | failed
  deriving DecidableEq

/-- The headers for a file with this path below the web directory, if its type is known. -/
def headersOf (relPath : List Name) : Option (List (String × String)) :=
  let extension := extension (relPath.getLastD [])
  if extension.length < 2 then none
  else (mimeTypes.lookup (String.ofList (extension.drop 1))).map fun mimeType =>
    staticResponseHeaders mimeType (cacheControlForWebPath (['/'].intercalate relPath))

section Serve

variable {α : Type} (fs : FileSystem α) (maxLinks : ℕ) (webDir : List Name)

/-- A path behind the slash of the web directory. -/
def webPath (rest : List Name) : List Name := webDir ++ if rest = [] then [[]] else rest

def serveWebFile (requestPath : Text) (allowedRoot : List Name) : Answer α :=
  match weaklyCanonical fs maxLinks (webPath webDir (elements requestPath)) with
  | none => .failed
  | some filePath =>
    match resolve fs maxLinks [] filePath with
    | .loops => .failed
    | .missing => .notFound
    | .found real =>
      match fs.node real with
      | some (.file content) =>
        if !isSafePath fs maxLinks filePath allowedRoot then .badRequest
        else
          match weaklyCanonical fs maxLinks filePath, weaklyCanonical fs maxLinks (webPath webDir []) with
          | some path, some web => (headersOf (relative path web)).elim .badRequest (.ok content)
          | _, _ => .failed
      | _ => .notFound

def getAsset (requestPath : Text) : Answer α :=
  serveWebFile fs maxLinks webDir requestPath (webPath webDir ["assets".toList])

def getWebStatic (requestPath : Text) : Answer α :=
  if elements requestPath = ["sw.js".toList] then
    serveWebFile fs maxLinks webDir requestPath (webPath webDir ["sw.js".toList])
  else if (elements requestPath).head? = some "images".toList then
    serveWebFile fs maxLinks webDir requestPath (webPath webDir ["images".toList])
  else .badRequest

end Serve

/-! ## What is served -/

variable {α : Type} {fs : FileSystem α} {maxLinks : ℕ} {webDir path root real allowedRoot : List Name}
  {requestPath : Text} {content : α} {headers : List (String × String)}

theorem pathExists_iff : pathExists fs maxLinks path = true ↔ ∃ real, resolve fs maxLinks [] path = .found real := by
  rw [pathExists]
  cases resolve fs maxLinks [] path with
  | found real => exact ⟨fun _ => ⟨real, rfl⟩, fun _ => rfl⟩
  | missing => exact ⟨fun h => absurd h Bool.false_ne_true, fun ⟨_, h⟩ => by cases h⟩
  | loops => exact ⟨fun h => absurd h Bool.false_ne_true, fun ⟨_, h⟩ => by cases h⟩

/-- The texts are compared as the locations lie. -/
theorem isSafePath_iff : isSafePath fs maxLinks path root = true ↔
    ∃ real realRoot, resolve fs maxLinks [] path = .found real ∧ resolve fs maxLinks [] root = .found realRoot ∧
      realRoot <+: real := by
  unfold isSafePath
  constructor
  · intro hsafe
    by_cases hroot : pathExists fs maxLinks root = true
    · by_cases hpath : pathExists fs maxLinks path = true
      · obtain ⟨realRoot, hrealRoot⟩ := pathExists_iff.mp hroot
        obtain ⟨real, hreal⟩ := pathExists_iff.mp hpath
        rw [hroot, hpath, isPathWithinRoot, weaklyCanonical_found hrealRoot, weaklyCanonical_found hreal] at hsafe
        have hwithin : within (text real) (text realRoot) = true := hsafe
        exact ⟨real, realRoot, hreal, hrealRoot,
          (within_iff (resolve_real fs.root hreal).proper (resolve_real fs.root hrealRoot).proper).mp hwithin⟩
      · rw [hroot, Bool.eq_false_iff.mpr hpath] at hsafe
        exact absurd hsafe Bool.false_ne_true
    · rw [Bool.eq_false_iff.mpr hroot] at hsafe
      exact absurd hsafe Bool.false_ne_true
  · rintro ⟨real, realRoot, hreal, hrealRoot, hprefix⟩
    rw [pathExists_iff.mpr ⟨_, hreal⟩, pathExists_iff.mpr ⟨_, hrealRoot⟩, isPathWithinRoot, weaklyCanonical_found hrealRoot,
      weaklyCanonical_found hreal]
    exact (within_iff (resolve_real fs.root hreal).proper (resolve_real fs.root hrealRoot).proper).mpr hprefix

/-- The file at the location, if it may be sent. -/
structure Serves (fs : FileSystem α) (maxLinks : ℕ) (webDir allowedRoot real : List Name) (content : α)
    (headers : List (String × String)) : Prop where
  file : fs.node real = some (.file content)
  inside : ∃ root, resolve fs maxLinks [] allowedRoot = .found root ∧ root <+: real
  headers : ∃ web, weaklyCanonical fs maxLinks (webPath webDir []) = some web ∧ headersOf (relative real web) = some headers

/-- The request comes to a path that is looked up once more, with its links. -/
theorem serveWebFile_ok :
    serveWebFile fs maxLinks webDir requestPath allowedRoot = .ok content headers ↔
      ∃ filePath real, weaklyCanonical fs maxLinks (webPath webDir (elements requestPath)) = some filePath ∧
        resolve fs maxLinks [] filePath = .found real ∧
        Serves fs maxLinks webDir allowedRoot real content headers := by
  unfold serveWebFile
  constructor
  · intro h
    cases hpath : weaklyCanonical fs maxLinks (webPath webDir (elements requestPath)) with
    | none =>
      rw [hpath] at h
      cases h
    | some filePath =>
      rw [hpath] at h
      dsimp only at h
      cases hreal : resolve fs maxLinks [] filePath with
      | missing =>
        rw [hreal] at h
        cases h
      | loops =>
        rw [hreal] at h
        cases h
      | found real =>
        rw [hreal] at h
        dsimp only at h
        obtain ⟨found, hfile⟩ : ∃ found, fs.node real = some (.file found) := by
          obtain hdir | hfile := resolve_real fs.root hreal
          · rw [hdir] at h
            cases h
          · exact hfile
        rw [hfile] at h
        dsimp only at h
        split_ifs at h with hsafe
        rw [weaklyCanonical_found hreal] at h
        have hinside := isSafePath_iff.mp (by simpa using hsafe)
        obtain ⟨real', root, hreal', hroot, hprefix⟩ := hinside
        obtain rfl := Resolved.found.inj (hreal.symm.trans hreal')
        cases hweb : weaklyCanonical fs maxLinks (webPath webDir []) with
        | none =>
          rw [hweb] at h
          cases h
        | some web =>
          rw [hweb] at h
          dsimp only at h
          cases hheaders : headersOf (relative real web) with
          | none =>
            rw [hheaders] at h
            cases h
          | some sent =>
            rw [hheaders] at h
            obtain ⟨rfl, rfl⟩ := Answer.ok.inj h
            exact ⟨filePath, real, rfl, hreal, hfile, ⟨root, hroot, hprefix⟩, web, hweb, hheaders⟩
  · rintro ⟨filePath, real, hpath, hreal, hfile, ⟨root, hroot, hprefix⟩, web, hweb, hheaders⟩
    have hsafe : isSafePath fs maxLinks filePath allowedRoot = true :=
      isSafePath_iff.mpr ⟨real, root, hreal, hroot, hprefix⟩
    rw [hpath]
    dsimp only
    rw [hreal]
    dsimp only
    rw [hfile]
    dsimp only
    rw [hsafe, weaklyCanonical_found hreal, hweb]
    dsimp only
    rw [hheaders]
    rfl

theorem webPath_cons (webDir : List Name) (name : Name) (rest : List Name) :
    webPath webDir (name :: rest) = webDir ++ name :: rest := by
  rw [webPath, if_neg (List.cons_ne_nil name rest)]

/-- Below a directory in the web directory, as it really lies. -/
def Below (fs : FileSystem α) (maxLinks : ℕ) (webDir : List Name) (name : Name) (real : List Name) : Prop :=
  ∃ root, resolve fs maxLinks [] (webDir ++ [name]) = .found root ∧ root <+: real

theorem asset_below (h : getAsset fs maxLinks webDir requestPath = .ok content headers) :
    ∃ real, fs.node real = some (.file content) ∧ Below fs maxLinks webDir "assets".toList real := by
  rw [getAsset, webPath_cons] at h
  obtain ⟨-, real, -, -, hserves⟩ := serveWebFile_ok.mp h
  exact ⟨real, hserves.file, hserves.inside⟩

/-- The service worker is the one file of its path, wherever a link of this name leads. -/
theorem webStatic_below (h : getWebStatic fs maxLinks webDir requestPath = .ok content headers) :
    ∃ real, fs.node real = some (.file content) ∧
      (Below fs maxLinks webDir "images".toList real ∨
        resolve fs maxLinks [] (webDir ++ ["sw.js".toList]) = .found real) := by
  rw [getWebStatic, webPath_cons, webPath_cons] at h
  split_ifs at h with hworker himages
  · obtain ⟨filePath, real, hpath, hreal, hserves⟩ := serveWebFile_ok.mp h
    rw [hworker, webPath_cons] at hpath
    obtain ⟨root, hroot, -⟩ := hserves.inside
    rw [weaklyCanonical_found hroot] at hpath
    obtain rfl := Option.some.inj hpath
    rw [resolve_of_real (resolve_real fs.root hroot)] at hreal
    obtain rfl := Resolved.found.inj hreal
    exact ⟨_, hserves.file, .inr hroot⟩
  · obtain ⟨-, real, -, -, hserves⟩ := serveWebFile_ok.mp h
    exact ⟨real, hserves.file, .inl hserves.inside⟩

/-- No request gets anything out of a file system but the files that really lie in the two directories, and the service
worker. -/
theorem static_confined (fs : FileSystem α) (maxLinks : ℕ) (webDir : List Name) (requestPath : Text) (content : α)
    (headers : List (String × String))
    (h : getAsset fs maxLinks webDir requestPath = .ok content headers ∨
      getWebStatic fs maxLinks webDir requestPath = .ok content headers) :
    ∃ real, fs.node real = some (.file content) ∧
      (Below fs maxLinks webDir "assets".toList real ∨ Below fs maxLinks webDir "images".toList real ∨
        resolve fs maxLinks [] (webDir ++ ["sw.js".toList]) = .found real) := by
  obtain hasset | hstatic := h
  · obtain ⟨real, hfile, hbelow⟩ := asset_below hasset
    exact ⟨real, hfile, .inl hbelow⟩
  · obtain ⟨real, hfile, hbelow⟩ := webStatic_below hstatic
    exact ⟨real, hfile, .inr hbelow⟩

/-- Where the path of a request leads to something, an asset is sent exactly if that is a file of a known type that
really lies in the directory. -/
theorem asset_served_iff (fs : FileSystem α) (maxLinks : ℕ) (webDir : List Name) (requestPath : Text) (real : List Name)
    (hreal : resolve fs maxLinks [] (webPath webDir (elements requestPath)) = .found real) (content : α)
    (headers : List (String × String)) :
    getAsset fs maxLinks webDir requestPath = .ok content headers ↔
      fs.node real = some (.file content) ∧ Below fs maxLinks webDir "assets".toList real ∧
        ∃ web, resolve fs maxLinks [] webDir = .found web ∧ headersOf (relative real web) = some headers := by
  have hcanon := weaklyCanonical_found hreal
  have hagain : resolve fs maxLinks [] real = .found real := resolve_of_real (resolve_real fs.root hreal)
  have hweb {web root : List Name} (hweb : resolve fs maxLinks [] webDir = .found web)
      (hroot : resolve fs maxLinks [] (webDir ++ ["assets".toList]) = .found root) :
      weaklyCanonical fs maxLinks (webPath webDir []) = some web := by
    obtain ⟨dir, hdir, hnode⟩ := resolve_front (List.cons_ne_nil _ _) hroot
    obtain rfl := Resolved.found.inj (hweb.symm.trans hdir)
    exact weaklyCanonical_found (resolve_slash hweb hnode)
  rw [getAsset, webPath_cons, serveWebFile_ok]
  constructor
  · rintro ⟨filePath, found, hpath, hfound, hserves⟩
    obtain rfl := Option.some.inj (hcanon.symm.trans hpath)
    obtain rfl := Resolved.found.inj (hagain.symm.trans hfound)
    obtain ⟨root, hroot, hprefix⟩ := hserves.inside
    obtain ⟨web, hcanonWeb, hheaders⟩ := hserves.headers
    obtain ⟨dir, hdir, -⟩ := resolve_front (List.cons_ne_nil _ _) hroot
    obtain rfl := Option.some.inj ((hweb hdir hroot).symm.trans hcanonWeb)
    exact ⟨hserves.file, ⟨root, hroot, hprefix⟩, dir, hdir, hheaders⟩
  · rintro ⟨hfile, ⟨root, hroot, hprefix⟩, web, hfoundWeb, hheaders⟩
    exact ⟨real, real, hcanon, hagain, hfile, ⟨root, hroot, hprefix⟩, web, hweb hfoundWeb hroot, hheaders⟩

/-! ## A web directory with links -/

/-- The assets are elsewhere, behind a link, with a link to a file beside them. -/
def linked : FileSystem String :=
  FileSystem.ofEntries
    [(["w".toList], .dir), (["w".toList, "assets".toList], .link "../r".toList), (["r".toList], .dir),
      (["r".toList, "a.css".toList], .file "p"), (["r".toList, "b.css".toList], .link "/s.css".toList),
      (["s.css".toList], .file "secret")]
    (by decide)

theorem linked_found : resolve linked 40 [] (webPath ["w".toList] (elements "/assets/./a.css".toList)) =
    .found ["r".toList, "a.css".toList] := by
  decide +kernel

theorem linked_served : getAsset linked 40 ["w".toList] "/assets/./a.css".toList =
    .ok "p" (staticResponseHeaders "text/css" "no-cache") :=
  (asset_served_iff linked 40 ["w".toList] "/assets/./a.css".toList ["r".toList, "a.css".toList] linked_found "p"
    _).mpr ⟨rfl, ⟨["r".toList], by decide +kernel, by decide +kernel⟩, ["w".toList], by decide +kernel, by decide +kernel⟩

/-- Not what the link to the secret leads to. -/
theorem linked_confined : ∃ real, linked.node real = some (.file "p") ∧
    (Below linked 40 ["w".toList] "assets".toList real ∨ Below linked 40 ["w".toList] "images".toList real ∨
      resolve linked 40 [] ["w".toList, "sw.js".toList] = .found real) :=
  static_confined linked 40 ["w".toList] "/assets/a.css".toList "p" (staticResponseHeaders "text/css" "no-cache")
    (.inl (by decide +kernel))

example : getAsset linked 40 ["w".toList] "/assets/b.css".toList = .badRequest := by decide +kernel

end Sunshine.StaticFiles
