import Sunshine.Process.Commands

/-! `refresh`: the process manager takes over what was parsed from the apps file.

The manager that is parsed is a new one, and it is moved over the old one with all of its members.
`refresh_undisturbed_iff` says when that leaves a running app alone. -/
namespace Sunshine.Process
set_option autoImplicit false

section Refresh

variable {Nv File : Type} (parse : File → Option (Environment × List Ctx))

/-- `parse` is what the file comes to: the environment and the apps. -/
def refresh (file : File) (s : State Nv) : State Nv :=
  match parse file with
  | none => s
  | some (env, apps) => { s with proc := .new env apps }

/-- What a termination adds to the log. -/
def ending (groupRunning : Bool) (s : State Nv) : List Entry := (terminate groupRunning s).log.drop s.log.length

/-- The refresh changes only the app list and the environment, and the app goes on as before. -/
structure Undisturbed (lib : Library) (file : File) (s : State Nv) : Prop where
  unparsed : parse file = none → refresh parse file s = s
  frame : ∃ env apps, refresh parse file s = { s with proc := { s.proc with env := env, apps := apps } }
  sameId : ∀ observed, (running lib observed (refresh parse file s)).2 = (running lib observed s).2
  sameProcess : (refresh parse file s).proc.process = s.proc.process
  sameGroup : (refresh parse file s).proc.processGroup = s.proc.processGroup
  sameEnding : ∀ groupRunning, ending groupRunning (refresh parse file s) = ending groupRunning s

def Call.isRunning : Call → Bool
  | .running _ => true
  | _ => false

variable (lib : Library) (tune : Nv → ℤ → Nv)

/-- A change of the app list and the environment alone is none for the running app. -/
theorem undisturbed_of_frame (file : File) (s : State Nv) (env : Environment) (apps : List Ctx)
    (kept : refresh parse file s = { s with proc := { s.proc with env := env, apps := apps } }) :
    Undisturbed parse lib file s where
  unparsed unparsed := by rw [refresh, unparsed]
  frame := ⟨env, apps, kept⟩
  sameId observed := by
    rw [kept, running, running]
    split_ifs <;> rfl
  sameProcess := by rw [kept]
  sameGroup := by rw [kept]
  sameEnding groupRunning := by rw [kept]; rfl

/-! ## What the calls leave behind -/

/-- The id is that of the app, or none. -/
def Touched (proc : Proc) : Prop := proc.appId = -1 ∨ proc.app.id = toText proc.appId

theorem terminate_touched (groupRunning : Bool) (s : State Nv) : Touched (terminate groupRunning s).proc :=
  Or.inl rfl

theorem runMain_app (answers : Answers) (s : State Nv) :
    (runMain answers s).1.proc.app = s.proc.app ∧ (runMain answers s).1.proc.appId = s.proc.appId := by
  rw [runMain]
  split <;> exact ⟨rfl, rfl⟩

theorem startMain_app (answers : Answers) (s : State Nv) :
    (startMain answers s).1.proc.app = s.proc.app ∧ (startMain answers s).1.proc.appId = s.proc.appId := by
  rw [startMain]
  split
  · exact ⟨rfl, rfl⟩
  · split
    · cases answers.compositor with
      | none => exact ⟨rfl, rfl⟩
      | some sockets => exact runMain_app answers (injectSockets sockets.1 sockets.2 s)
    · exact runMain_app answers s

theorem startApp_touched (answers : Answers) (s : State Nv) (touched : Touched s.proc) :
    Touched (startApp answers s).1.proc := by
  have main := startMain_app answers (record (s.proc.app.detached.map .detached) s)
  rw [startApp]
  generalize startMain answers (record (s.proc.app.detached.map .detached) s) = started at main ⊢
  obtain ⟨ended, success⟩ := started
  cases success with
  | false => exact terminate_touched _ ended
  | true =>
    rw [Touched, main.1, main.2]
    exact touched

theorem execute_touched (appId : ℤ) (session : LaunchSession) (answers : Answers) (s : State Nv) :
    Touched (execute lib tune appId session answers s).1.proc := by
  rw [execute, launch]
  cases found : (terminate answers.groupRunning s).proc.apps.find? fun app => app.id = toText appId with
  | none => exact terminate_touched answers.groupRunning s
  | some app =>
    have sameId : app.id = toText appId := by simpa using List.find?_some found
    simp only [launchApp]
    split
    · exact startApp_touched answers _ (Or.inr sameId)
    · exact terminate_touched _ _

theorem running_touched (observed : Observed) (s : State Nv) (touched : Touched s.proc) :
    Touched (running lib observed s).1.proc := by
  rw [running]
  split_ifs <;> first | exact touched | exact terminate_touched _ _

theorem run_touched (s : State Nv) (l : List Call) (touched : Touched s.proc) :
    Touched (l.foldl (step lib tune) s).proc := by
  induction l generalizing s with
  | nil => exact touched
  | cons call l ih =>
    apply ih
    cases call with
    | execute appId session answers => exact execute_touched lib tune appId session answers s
    | running observed => exact running_touched lib observed s touched
    | terminate groupRunning => exact terminate_touched groupRunning s

/-- Some call but `running` was made: the id and the app are no longer those of a new manager. -/
theorem run_touched_of_call (s : State Nv) (l : List Call) (call : Call) (mem : call ∈ l)
    (other : call.isRunning = false) : Touched (l.foldl (step lib tune) s).proc := by
  obtain ⟨before, behind, rfl⟩ := List.append_of_mem mem
  rw [List.foldl_append, List.foldl_cons]
  apply run_touched
  cases call with
  | execute appId session answers => exact execute_touched lib tune appId session answers _
  | running observed => cases other
  | terminate groupRunning => exact terminate_touched groupRunning _

/-- A new manager has nothing that `running` could change. -/
theorem running_new (observed : Observed) (env : Environment) (apps : List Ctx) (config : Config Nv)
    (log : List Entry) : running lib observed ⟨.new env apps, config, log⟩ = (⟨.new env apps, config, log⟩, 0) := by
  simp [running, Proc.new, Ctx.empty]

theorem run_new (env : Environment) (apps : List Ctx) (config : Config Nv) (log : List Entry) (l : List Call)
    (only : ∀ call ∈ l, call.isRunning = true) :
    l.foldl (step lib tune) ⟨.new env apps, config, log⟩ = ⟨.new env apps, config, log⟩ := by
  induction l with
  | nil => rfl
  | cons call l ih =>
    have first : step lib tune ⟨.new env apps, config, log⟩ call = ⟨.new env apps, config, log⟩ := by
      cases call with
      | running observed => rw [step, running_new]
      | execute appId session answers => simpa [Call.isRunning] using only _ (List.mem_cons_self ..)
      | terminate groupRunning => simpa [Call.isRunning] using only _ (List.mem_cons_self ..)
    rw [List.foldl_cons, first]
    exact ih fun later mem => only later (List.mem_cons_of_mem call mem)

/-- Of a manager with an app a refresh takes the id or the app. -/
theorem not_undisturbed_of_touched (file : File) (s : State Nv) (touched : Touched s.proc)
    (parses : parse file ≠ none) : ¬ Undisturbed parse lib file s := by
  intro undisturbed
  obtain ⟨env, apps, kept⟩ := undisturbed.frame
  cases parsed : parse file with
  | none => exact parses parsed
  | some result =>
    rw [refresh, parsed] at kept
    have proc : Proc.new result.1 result.2 = { s.proc with env := env, apps := apps } := congrArg State.proc kept
    have appId : 0 = s.proc.appId := congrArg Proc.appId proc
    have app : Ctx.empty = s.proc.app := congrArg Proc.app proc
    rcases touched with none | same
    · omega
    · rw [← appId, ← app] at same
      exact absurd same (by decide)

theorem refresh_undisturbed_iff (file : File) (env : Environment) (apps : List Ctx) (config : Config Nv)
    (log : List Entry) (l : List Call) :
    Undisturbed parse lib file (l.foldl (step lib tune) ⟨.new env apps, config, log⟩) ↔
      parse file = none ∨ ∀ call ∈ l, call.isRunning = true := by
  constructor
  · intro undisturbed
    by_contra disturbed
    simp only [not_or, not_forall, Bool.not_eq_true] at disturbed
    obtain ⟨parses, call, mem, other⟩ := disturbed
    exact not_undisturbed_of_touched parse lib file _ (run_touched_of_call lib tune _ l call mem other) parses
      undisturbed
  · rintro (unparsed | only)
    · exact undisturbed_of_frame parse lib file _ _ _ (by rw [refresh, unparsed])
    · rw [run_new lib tune env apps config log l only]
      cases parsed : parse file with
      | none => exact undisturbed_of_frame parse lib file _ _ _ (by rw [refresh, parsed])
      | some result => exact undisturbed_of_frame parse lib file _ result.1 result.2 (by rw [refresh, parsed]; rfl)

/-- Behind a termination it is the id alone that changes, and nothing that is reported or run. -/
theorem refresh_terminated (started : lib.exitCodeNotStarted ≠ 0) (file : File) (s : State Nv)
    (groupRunning again : Bool) (observed : Observed) :
    (running lib observed (refresh parse file (terminate groupRunning s))).2 = 0 ∧
      (running lib observed (terminate groupRunning s)).2 = 0 ∧
      ending again (refresh parse file (terminate groupRunning s)) = [] ∧
      ending again (terminate groupRunning s) = [] := by
  have stoppedId : (running lib observed (terminate groupRunning s)).2 = 0 := by
    simp [running, terminate, started]
  have stoppedEnding : ending again (terminate groupRunning s) = [] := by
    simp [ending, terminate, terminateProcessGroup, undoLoop]
  cases parsed : parse file with
  | none =>
    rw [refresh, parsed]
    exact ⟨stoppedId, stoppedId, stoppedEnding, stoppedEnding⟩
  | some result =>
    rw [refresh, parsed]
    refine ⟨?_, stoppedId, ?_, stoppedEnding⟩
    · rw [running_new]
    · simp [ending, terminate, terminateProcessGroup, undoLoop, Proc.new]

end Refresh

open TwoApps in
/-- With a running app and its undo commands pending, the refresh forgets both. -/
theorem refresh_forgets :
    let s := (execute lib tune 1 session (answers false) initial).1
    let refreshed := refresh (fun apps => some ([], apps)) [first, second] s
    ((running lib ⟨true, true, 0⟩ s).2, s.proc.processGroup,
        (ending true s).filterMap Entry.undo?) = (1, some 7, [cmd 'c' 'z', ⟨[], ['y'], false⟩, cmd 'a' 'x']) ∧
      ((running lib ⟨true, true, 0⟩ refreshed).2, refreshed.proc.processGroup, ending true refreshed) =
        (0, none, []) := by
  decide

end Sunshine.Process
