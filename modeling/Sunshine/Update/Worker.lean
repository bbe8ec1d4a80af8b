import Sunshine.Lib.Texts
import Sunshine.Lib.Threads
import Sunshine.Lib.Transitions
import Mathlib.Data.List.DropRight

/-! The updater: `start`, `apply` and `cancel`, and the detached workers that download, wait and apply.

A step is one access to what the threads share: a locked section, an atomic flag, or the files. Where a section
reads or stores a flag more than once it is several steps inside the mutex, since the flags are also used without
it. `installs` in the history is where `install_payload` or the privileged helper begins. -/
namespace Sunshine.Updater
open Texts Threads
set_option autoImplicit false

abbrev Text := List Char

/-! ## SHA256SUMS -/

def isSpace (ch : Char) : Bool := ch = ' ' ∨ '\t' ≤ ch ∧ ch ≤ '\r'

def trim (text : Text) : Text := (text.dropWhile isSpace).rdropWhile isSpace

def filename (path : Text) : Text := path.rtakeWhile (· ≠ '/')

/-- The name and the digest of a line. -/
def sumsLine (line : Text) : Option (Text × Text) :=
  let line := trim line
  let digest := line.takeWhile fun ch => ch ≠ ' ' ∧ ch ≠ '\t'
  let rest := trim (line.drop (digest.length + 1))
  let name := if rest.head? = some '*' then rest.tail else rest
  if line = [] ∨ line.head? = some '#' then none
  else if digest.length = line.length then none
  else if digest.length = 64 ∧ name ≠ [] then some (filename name, digest.map Char.toLower)
  else none

/-- In the order of the lines. -/
def parseSha256sums (body : Text) : List (Text × Text) := (getlines '\n' body).filterMap sumsLine

/-- A later line for a name replaces an earlier one. -/
def find (sums : List (Text × Text)) (name : Text) : Option Text :=
  (sums.reverse.find? fun entry => entry.1 = name).map Prod.snd

def tarballName : Text :=
  ['s', 'o', 'l', 'a', 'r', 'f', 'l', 'a', 'r', 'e', '-', 'l', 'i', 'n', 'u', 'x', '-', 'x', '8', '6', '_', '6', '4',
    '.', 't', 'a', 'r', '.', 'g', 'z']

/-! ## State -/

inductive Phase where
  | idle
  | checking
  | downloading
  | verifying
  | ready
  | waitingIdle
  | applying
  | restarting
  | error
  | unsupported
  deriving DecidableEq

structure Status where
  phase : Phase
  percent : ℤ
  message : String
  canApply : Bool
  busy : Bool
  deriving DecidableEq

def Status.fresh : Status := ⟨.idle, -1, "", false, false⟩

/-- An extraction into the payload directory. -/
structure Layer (Tarball : Type) where
  generation : ℕ
  tarball : Tarball
  whole : Bool
  deriving DecidableEq

/-- The directory `work`. `payload` are the extractions into `extract/solarflare`, the last one first; there is no
such directory if there are none. -/
structure Work (Tarball : Type) where
  sums : Text
  tarball : Option Tarball
  payload : List (Layer Tarball)
  deriving DecidableEq

inductive Entry where
  | accepted
  | cancelled
  | installs
  deriving DecidableEq

/-- `stagingPayload` says if that path is set; it is the same one for every download. Of the download workers
started so far, `generation` is their number, and `staged` says if the last one has staged its payload. -/
structure Shared (Tarball : Type) where
  status : Status
  workerRunning : Bool
  applyWhenIdle : Bool
  stagingPayload : Bool
  work : Work Tarball
  sessionCount : ℕ
  generation : ℕ
  staged : Bool
  history : List Entry
  deriving DecidableEq

/-! ## Threads -/

inductive StartAt where
  | take
  | reset
  | spawn
  deriving DecidableEq

inductive ApplyAt where
  | check
  | take
  | sessions
  | refuse
  | arm
  | spawnWait
  | spawn
  deriving DecidableEq

inductive CancelAt where
  | enter
  | look
  | complete
  deriving DecidableEq

inductive DownloadAt where
  | checking
  | remove
  | fetchRelease
  | readRelease
  | phaseSums
  | fetchSums
  | phaseTarball
  | fetchTarball
  | phaseVerify
  | readSums
  | hash (expected : Text)
  | extract
  | inspect
  | stage
  | ready
  | free
  | fail (message : String)
  | failed
  deriving DecidableEq

inductive WaitAt where
  | begin
  | loop
  | sessions
  | recheck
  | cancelled
  deriving DecidableEq

inductive ApplyNowAt where
  | enter (fromWaitingIdle : Bool)
  | giveUp
  | claim
  | look (claimed payload : Bool)
  | missing
  | phase
  | begin
  | installing
  | failed (message : String)
  | restarting
  | free
  deriving DecidableEq

inductive Thread where
  | start (place : StartAt)
  | apply (whenIdle : Bool) (place : ApplyAt)
  | cancel (place : CancelAt)
  | download (place : DownloadAt)
  | wait (place : WaitAt)
  | applyNow (place : ApplyNowAt)
  | ended (result : Option String)
  deriving DecidableEq

/-- What a step finds outside: if its call succeeds, what the call leaves, what is thrown. -/
structure Outcome (Tarball : Type) where
  done : Bool
  message : Option String
  body : Text
  tarball : Option Tarball
  left : Bool

section Steps

variable {Tarball : Type} (sha256 : Tarball → Text)

/-! ## Status -/

def Phase.isBusy : Phase → Bool
  | .idle | .ready | .error | .unsupported => false
  | _ => true

def setPhase (phase : Phase) (message : String) (percent : ℤ) (g : Shared Tarball) : Shared Tarball :=
  { g with status := ⟨phase, percent, message, phase = .ready, phase.isBusy⟩ }

def free (g : Shared Tarball) : Shared Tarball := { g with workerRunning := false }

def completeIdleCancelUnlocked (g : Shared Tarball) : Shared Tarball :=
  { g with
    status := ⟨.ready, -1, "Apply cancelled while waiting for idle", true, false⟩
    workerRunning := false }

def record (entry : Entry) (g : Shared Tarball) : Shared Tarball := { g with history := g.history ++ [entry] }

/-- The copy of the status that is given out. -/
def status (g : Shared Tarball) : Status := { g.status with busy := g.workerRunning || g.status.busy }

/-! ## Calls -/

abbrev Step (Tarball : Type) : Type := Move Thread (Shared Tarball)

def start (g : Shared Tarball) : StartAt → Step Tarball
  | .take =>
    if g.workerRunning then ⟨.ended (some "An update is already in progress"), g, none⟩
    else ⟨.start .reset, { g with workerRunning := true }, none⟩
  | .reset =>
    ⟨.start .spawn,
      { g with status := { Status.fresh with phase := .checking, message := "Starting update", busy := true } }, none⟩
  | .spawn =>
    ⟨.ended none, record .accepted { g with generation := g.generation + 1, staged := false },
      some (.download .checking)⟩

def apply (whenIdle : Bool) (g : Shared Tarball) : ApplyAt → Step Tarball
  | .check =>
    if g.status.phase ≠ .ready ∧ g.status.phase ≠ .waitingIdle then
      ⟨.ended (some "No verified update is staged yet"), g, none⟩
    else ⟨.apply whenIdle .take, g, none⟩
  | .take =>
    if g.workerRunning then ⟨.ended (some "An update is already in progress"), g, none⟩
    else ⟨.apply whenIdle .sessions, { g with workerRunning := true }, none⟩
  | .sessions =>
    if 0 < g.sessionCount then
      if whenIdle then ⟨.apply whenIdle .arm, g, none⟩ else ⟨.apply whenIdle .refuse, g, none⟩
    else ⟨.apply whenIdle .spawn, g, none⟩
  | .refuse => ⟨.ended (some "A stream is active. End it first, or use when_idle apply."), free g, none⟩
  | .arm => ⟨.apply whenIdle .spawnWait, { g with applyWhenIdle := true }, none⟩
  | .spawnWait => ⟨.ended none, record .accepted g, some (.wait .begin)⟩
  | .spawn => ⟨.ended none, record .accepted g, some (.applyNow (.enter false))⟩

/-- The flag is cleared where the mutex is entered. -/
def cancel (g : Shared Tarball) : CancelAt → Step Tarball
  | .enter =>
    if g.status.phase ≠ .ready ∧ g.status.phase ≠ .waitingIdle then
      ⟨.ended (some "No update operation is in progress"), g, none⟩
    else if g.status.phase = .waitingIdle then
      ⟨.cancel .look, record .cancelled { g with applyWhenIdle := false }, none⟩
    else ⟨.ended none, record .cancelled { g with applyWhenIdle := false }, none⟩
  | .look => if g.workerRunning then ⟨.ended none, g, none⟩ else ⟨.cancel .complete, g, none⟩
  | .complete => ⟨.ended none, completeIdleCancelUnlocked g, none⟩

/-! ## Workers -/

def applyNow (o : Outcome Tarball) (g : Shared Tarball) : ApplyNowAt → Step Tarball
  | .enter fromWaitingIdle =>
    if fromWaitingIdle then
      if g.applyWhenIdle then ⟨.applyNow .claim, g, none⟩ else ⟨.applyNow .giveUp, g, none⟩
    else ⟨.applyNow (.look false g.stagingPayload), g, none⟩
  | .giveUp => ⟨.ended none, completeIdleCancelUnlocked g, none⟩
  | .claim =>
    ⟨.applyNow (.look true g.stagingPayload), setPhase .applying "Installing update" 90 { g with applyWhenIdle := false },
      none⟩
  | .look claimed payload =>
    if o.done = false ∨ payload = false ∨ g.work.payload = [] then ⟨.applyNow .missing, g, none⟩
    else if claimed then ⟨.applyNow .begin, g, none⟩
    else ⟨.applyNow .phase, g, none⟩
  | .missing => ⟨.applyNow .free, setPhase .error "No staged update payload is ready" (-1) g, none⟩
  | .phase => ⟨.applyNow .begin, setPhase .applying "Installing update" 90 g, none⟩
  | .begin => ⟨.applyNow .installing, record .installs g, none⟩
  | .installing =>
    match o.message with
    | some message => ⟨.applyNow (.failed message), g, none⟩
    | none => ⟨.applyNow .restarting, g, none⟩
  | .failed message => ⟨.applyNow .free, setPhase .error message (-1) g, none⟩
  | .restarting => ⟨.applyNow .free, setPhase .restarting "Restarting SolarFlare" 100 g, none⟩
  | .free => ⟨.ended none, free g, none⟩

def waitIdleThenApply (g : Shared Tarball) : WaitAt → Step Tarball
  | .begin => ⟨.wait .loop, setPhase .waitingIdle "Waiting for the stream to end" (-1) g, none⟩
  | .loop => if g.applyWhenIdle then ⟨.wait .sessions, g, none⟩ else ⟨.wait .cancelled, g, none⟩
  | .sessions => if g.sessionCount = 0 then ⟨.wait .recheck, g, none⟩ else ⟨.wait .loop, g, none⟩
  | .recheck => if g.applyWhenIdle then ⟨.applyNow (.enter true), g, none⟩ else ⟨.wait .cancelled, g, none⟩
  | .cancelled => ⟨.ended none, completeIdleCancelUnlocked g, none⟩

def extract (o : Outcome Tarball) (work : Work Tarball) (generation : ℕ) : Work Tarball :=
  match work.tarball, o.left with
  | some tarball, true => { work with payload := ⟨generation, tarball, o.done⟩ :: work.payload }
  | _, _ => work

/-- The part of `download_worker` inside its `try`. -/
def downloadTry (o : Outcome Tarball) (g : Shared Tarball) : DownloadAt → Step Tarball
  | .checking => ⟨.download .remove, setPhase .checking "Checking for the latest release" 5 g, none⟩
  | .remove => ⟨.download .fetchRelease, if o.done then { g with work := ⟨[], none, []⟩ } else g, none⟩
  | .fetchRelease =>
    if o.done then ⟨.download .readRelease, g, none⟩
    else ⟨.download (.fail "Failed to fetch latest release metadata"), g, none⟩
  | .readRelease =>
    if o.done then ⟨.download .phaseSums, g, none⟩
    else ⟨.download (.fail "Latest release metadata was invalid"), g, none⟩
  | .phaseSums => ⟨.download .fetchSums, setPhase .downloading "Downloading SHA256SUMS" 15 g, none⟩
  | .fetchSums =>
    ⟨.download (if o.done then .phaseTarball else .fail "Failed to download SHA256SUMS"),
      { g with work := { g.work with sums := o.body } }, none⟩
  | .phaseTarball => ⟨.download .fetchTarball, setPhase .downloading "Downloading release tarball" 35 g, none⟩
  | .fetchTarball =>
    ⟨.download (if o.done then .phaseVerify else .fail "Failed to download release tarball"),
      { g with work := { g.work with tarball := o.tarball } }, none⟩
  | .phaseVerify => ⟨.download .readSums, setPhase .verifying "Verifying SHA-256" 70 g, none⟩
  | .readSums =>
    match find (parseSha256sums g.work.sums) tarballName with
    | none => ⟨.download (.fail "SHA256SUMS does not list the release tarball"), g, none⟩
    | some expected => ⟨.download (.hash expected), g, none⟩
  | .hash expected =>
    match if o.done then g.work.tarball.map sha256 else none with
    | none => ⟨.download (.fail "Tarball SHA-256 mismatch"), g, none⟩
    | some actual =>
      if iequals actual expected then ⟨.download .extract, g, none⟩
      else ⟨.download (.fail "Tarball SHA-256 mismatch"), g, none⟩
  | .extract =>
    ⟨.download (if o.done then .inspect else .fail "Failed to extract release tarball"),
      { g with work := extract o g.work g.generation }, none⟩
  | .inspect =>
    if o.done = false ∨ g.work.payload = [] then
      ⟨.download (.fail "Extracted archive is missing the solarflare/ payload"), g, none⟩
    else ⟨.download .stage, g, none⟩
  | .stage => ⟨.download .ready, { g with stagingPayload := true, staged := true }, none⟩
  | .ready => ⟨.download .free, setPhase .ready "Update staged and verified" 100 g, none⟩
  | .fail message => ⟨.download .failed, setPhase .error message (-1) g, none⟩
  | .free => ⟨.apply true .check, free g, none⟩
  | .failed => ⟨.ended none, free g, none⟩

/-- An exception is thrown in front of the step that would have been made. -/
def downloadWorker (o : Outcome Tarball) (g : Shared Tarball) (place : DownloadAt) : Step Tarball :=
  match o.message, place with
  | some _, .fail message => downloadTry sha256 o g (.fail message)
  | some _, .free => downloadTry sha256 o g .free
  | some _, .failed => downloadTry sha256 o g .failed
  | some ex, _ => ⟨.download (.fail ("Update failed: " ++ ex)), g, none⟩
  | none, place => downloadTry sha256 o g place

def advance (o : Outcome Tarball) (t : Thread) (g : Shared Tarball) : Step Tarball :=
  match t with
  | .start place => start g place
  | .apply whenIdle place => apply whenIdle g place
  | .cancel place => cancel g place
  | .download place => downloadWorker sha256 o g place
  | .wait place => waitIdleThenApply g place
  | .applyNow place => applyNow o g place
  | .ended result => ⟨.ended result, g, none⟩

/-! ## The system -/

def locks : Thread → Bool
  | .start .reset | .apply _ .check | .cancel _ | .wait .begin | .wait .cancelled => true
  | .applyNow (.enter _) | .applyNow .giveUp | .applyNow .claim | .applyNow .missing | .applyNow .phase
  | .applyNow (.failed _) | .applyNow .restarting => true
  | .download .checking | .download .phaseSums | .download .phaseTarball | .download .phaseVerify | .download .stage
  | .download .ready | .download (.fail _) => true
  | _ => false

def inside : Thread → Bool
  | .cancel .look | .cancel .complete | .applyNow .giveUp | .applyNow .claim => true
  | _ => false

/-- The workers, until they give the flag back. -/
def running : Thread → Bool
  | .download _ | .wait _ | .applyNow _ => true
  | _ => false

/-- The calls that have taken the flag. -/
def calling : Thread → Bool
  | .start .reset | .start .spawn => true
  | .apply _ .check | .apply _ .take => false
  | .apply _ _ => true
  | _ => false

/-- `worker_running` is theirs. -/
def holds (t : Thread) : Bool := running t || calling t

def program : Program Thread (Shared Tarball) (Outcome Tarball) where
  advance := advance sha256
  locks := locks
  inside := inside
  holds := holds
  taken g := g.workerRunning

inductive Call where
  | start
  | apply (whenIdle : Bool)
  | cancel
  deriving DecidableEq

def Call.thread : Call → Thread
  | .start => .start .take
  | .apply whenIdle => .apply whenIdle .check
  | .cancel => .cancel .enter

inductive Event (Tarball : Type) where
  | call (c : Call)
  | run (i : ℕ) (o : Outcome Tarball)
  | sessions (count : ℕ)

abbrev System (Tarball : Type) : Type := State Thread (Shared Tarball)

def next (s : System Tarball) : Event Tarball → System Tarball
  | .call c => { s with threads := s.threads ++ [c.thread] }
  | .run i o => (program sha256).run i o s
  | .sessions count => { s with shared := { s.shared with sessionCount := count } }

def Enabled (s : System Tarball) : Event Tarball → Prop
  | .run i _ => ∃ t ∈ s.threads[i]?, (program sha256).Free t s
  | _ => True

instance decidableEnabled : ∀ (s : System Tarball) (e : Event Tarball), Decidable (Enabled sha256 s e)
  | _, .call _ => isTrue trivial
  | s, .run i _ => inferInstanceAs (Decidable (∃ t ∈ s.threads[i]?, (program sha256).Free t s))
  | _, .sessions _ => isTrue trivial

/-- The updater has done nothing yet; `work` is what an earlier run of the host left. -/
def initial (work : Work Tarball) : System Tarball :=
  ⟨[], false, ⟨Status.fresh, false, false, false, work, 0, 0, false, []⟩⟩

end Steps

/-! ## A download -/

/-- Releases are numbers here, and every one has this digest. -/
def digest : Text := List.replicate 64 'a'

def digestOf (_ : ℕ) : Text := digest

def sums : Text := digest ++ ' ' :: ' ' :: tarballName

/-- Every call of a step succeeds. -/
def fine : Outcome ℕ := ⟨true, none, sums, some 0, true⟩

def nothing : Work ℕ := ⟨[], none, []⟩

/-- A call of `start` is thread 0; its download worker is thread 1 and goes on as a call of `apply(true)`. -/
def downloads : List (Event ℕ) := .call .start :: List.replicate 3 (.run 0 fine) ++ List.replicate 16 (.run 1 fine)

end Sunshine.Updater
