import Mathlib.Data.List.Nodup
import Sunshine.Lib.Texts
import Sunshine.Process.Commands

/-! `parse`: the apps file, and the ids that its apps are given.

An id is the hash of a text, the name of the app with the hash of its image; an app whose id is taken
is given that of the text with its index behind it, whether that one is taken or not. The truncated
CRC-32 is a parameter. -/
namespace Sunshine.Process
set_option autoImplicit false

/-! ## Values of the environment -/

/-- `env[name].to_string()` -/
def getEnv (env : Environment) (name : Text) : Text :=
  match env.find? fun entry => entry.1 = name with
  | none => []
  | some entry => entry.2

/-- The loop of `parse_env_val`. Inside a variable the name so far is kept with the depth that
`find_match` counts; the end of the text is then a missing bracket. -/
def scanEnvVal (env : Environment) : Option (ℕ × Text) → Text → Option Text
  | none, '$' :: '$' :: rest => (scanEnvVal env none rest).map fun out => '$' :: out
  | none, '$' :: '(' :: rest => scanEnvVal env (some (0, [])) rest
  | none, ch :: rest => (scanEnvVal env none rest).map fun out => ch :: out
  | none, [] => some []
  | some (depth, name), ch :: rest =>
    if ch = ')' ∧ depth = 0 then (scanEnvVal env none rest).map fun out => getEnv env name ++ out
    else
      let depth := if ch = '(' then depth + 1 else if ch = ')' then depth - 1 else depth
      scanEnvVal env (some (depth, name ++ [ch])) rest
  | some _, [] => none

/-- `parse_env_val`; none where it throws. -/
def parseEnvVal (env : Environment) (value : Text) : Option Text := scanEnvVal env none value

/-! ## Images -/

/-- What is read of the file system: whether a path exists, the first eight bytes of a file, and its
SHA-256 in hexadecimal digits. -/
structure FileSystem where
  pathExists : Text → Bool
  header : Text → Option (List ℕ)
  sha256 : Text → Option Text

def assetsDir : Text := "/usr/share/sunshine".toList

def defaultAppImagePath : Text := assetsDir ++ "/box.png".toList

def pngSignature : List ℕ := [0x89, 0x50, 0x4E, 0x47, 0x0D, 0x0A, 0x1A, 0x0A]

def checkValidPng (fs : FileSystem) (path : Text) : Bool := fs.header path = some pngSignature

/-- `path::filename`: what is behind the last slash. -/
def filename (path : Text) : Text := (path.reverse.takeWhile (· ≠ '/')).reverse

/-- `path::extension`: from the last dot of the file name, unless that is its first character or the
name is `..`. -/
def pathExtension (path : Text) : Text :=
  let name := filename path
  let ext := (name.reverse.takeWhile (· ≠ '.')).reverse
  if ext.length + 1 < name.length ∧ name ≠ "..".toList then '.' :: ext else []

/-- `path::operator/` -/
def joinPath (dir path : Text) : Text :=
  match path with
  | '/' :: _ => path
  | _ => dir ++ '/' :: path

def validateAppImagePath (fs : FileSystem) (path : Text) : Text :=
  if path = [] then defaultAppImagePath
  else if (pathExtension path).map Char.toLower ≠ ".png".toList then defaultAppImagePath
  else if fs.pathExists (joinPath assetsDir path) then
    if checkValidPng fs (joinPath assetsDir path) then joinPath assetsDir path
    else defaultAppImagePath
  else if path = "./assets/steam.png".toList then assetsDir ++ "/steam.png".toList
  else if fs.pathExists path = false then defaultAppImagePath
  else if checkValidPng fs path = false then defaultAppImagePath
  else path

/-- The text that `calculate_app_id` hashes, without the index. -/
def hashedText (fs : FileSystem) (name imagePath : Text) : Text :=
  let filePath := validateAppImagePath fs imagePath
  if filePath = defaultAppImagePath then name
  else name ++ (fs.sha256 filePath).getD filePath

/-! ## The apps file -/

structure PrepNode where
  doCmd : Option Text := none
  undoCmd : Option Text := none
  elevated : Option Bool := none
  deriving DecidableEq

/-- A child of `apps`. Everything but the name is optional. -/
structure AppNode where
  prepCmd : Option (List PrepNode) := none
  detached : Option (List Text) := none
  excludeGlobalPrepCmd : Option Bool := none
  output : Option Text := none
  name : Option Text := none
  cmd : Option Text := none
  imagePath : Option Text := none
  workingDir : Option Text := none
  elevated : Option Bool := none
  autoDetach : Option Bool := none
  waitAll : Option Bool := none
  exitTimeout : Option ℤ := none
  encoderPreset : Option ℤ := none
  deriving DecidableEq

/-- What `read_json` makes of the file. -/
structure AppsTree where
  apps : Option (List AppNode)
  env : Option (List (Text × Text))
  deriving DecidableEq

section
variable (fs : FileSystem) (hash : Text → ℕ) (globalPrepCmds : List PrepCmd)

/-- `calculate_app_id`: the ids without and with the index. -/
def calculateAppId (name imagePath : Text) (index : ℕ) : Text × Text :=
  let text := hashedText fs name imagePath
  (toText (hash text), toText (hash (text ++ toText index)))

def parsePrep (env : Environment) (doCmd undoCmd : Text) (elevated : Bool) : Option PrepCmd := do
  let doCmd ← parseEnvVal env doCmd
  let undoCmd ← parseEnvVal env undoCmd
  return { doCmd, undoCmd, elevated }

/-- A value that is parsed if it is there, and empty if not. -/
def parseOptional (env : Environment) : Option Text → Option Text
  | none => some []
  | some value => parseEnvVal env value

/-- The app of a node, but for its id. -/
def parseApp (env : Environment) (node : AppNode) : Option Ctx := do
  let nameRaw ← node.name
  let name ← parseEnvVal env nameRaw
  let globalPrep ← if node.excludeGlobalPrepCmd.getD false then some []
    else globalPrepCmds.mapM fun prep => parsePrep env prep.doCmd prep.undoCmd prep.elevated
  let ownPrep ← (node.prepCmd.getD []).mapM fun prep =>
    parsePrep env (prep.doCmd.getD []) (prep.undoCmd.getD []) (prep.elevated.getD false)
  let detached ← (node.detached.getD []).mapM (parseEnvVal env)
  let output ← parseOptional env node.output
  let cmd ← parseOptional env node.cmd
  let workingDir ← parseOptional env node.workingDir
  let imagePath ← parseOptional env node.imagePath
  return { Ctx.empty with
    prepCmds := globalPrep ++ ownPrep, detached, name, cmd, workingDir, output, imagePath
    elevated := node.elevated.getD false
    autoDetach := node.autoDetach.getD true
    waitAll := node.waitAll.getD true
    exitTimeout := node.exitTimeout.getD 5
    encoderPresetOverride := node.encoderPreset.getD (-1) }

/-- The id an app is given: the one with the index if the other is taken. -/
def chooseId (ids : List Text) (possible : Text × Text) : Text :=
  if possible.1 ∈ ids then possible.2 else possible.1

/-- The loop over the nodes, with the ids given so far and the index. -/
def parseApps (env : Environment) : List AppNode → List Text → ℕ → Option (List Ctx)
  | [], _, _ => some []
  | node :: rest, ids, i => do
    let ctx ← parseApp globalPrepCmds env node
    let id := chooseId ids (calculateAppId fs hash ctx.name ctx.imagePath i)
    let apps ← parseApps env rest (id :: ids) (i + 1)
    return { ctx with id } :: apps

/-- The variables of `env`, each with the ones before it. -/
def parseEnv (this : Environment) : List (Text × Text) → Option Environment
  | [] => some this
  | (name, value) :: rest => do
    let value ← parseEnvVal this value
    parseEnv ((name, value) :: this.filter fun entry => entry.1 ≠ name) rest

/-- `parse`, of a file that could be read. -/
def parse (this : Environment) (tree : AppsTree) : Option (Environment × List Ctx) := do
  let nodes ← tree.apps
  let vars ← tree.env
  let env ← parseEnv this vars
  let apps ← parseApps fs hash globalPrepCmds env nodes [] 0
  return (env, apps)

/-- `get_app_image` -/
def getAppImage (apps : List Ctx) (appId : ℤ) : Text :=
  match apps.find? fun app => app.id = toText appId with
  | none => validateAppImagePath fs []
  | some app => validateAppImagePath fs app.imagePath

end

end Sunshine.Process
