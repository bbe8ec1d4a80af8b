import Sunshine.Lib.Transitions

/-! The NVIDIA base profile's setting under `nvprefs`: the calls of the interface, cut at each call of the driver and of
the file system, so that the process can crash between any two of them.

The single calls succeed, and what fails is what the state makes fail: a new undo file where there is one, or opening
the undo file while the process holds it. Saving writes the settings as the session loaded and changed them. -/
namespace Sunshine.NvPrefs
open Transitions
set_option autoImplicit false

/-! ## The driver and the undo data -/

/-- What the base profile has for `OGL_CPL_PREFER_DXPRESENT`, if it has it. -/
abbrev Setting := Option UInt32

/-- `OGL_CPL_PREFER_DXPRESENT_PREFER_ENABLED`, and what is found for the setting where the base profile has none. -/
structure Driver where
  preferEnabled : UInt32
  predefined : Option UInt32

structure FoundSetting where
  currentProfileLocation : Bool
  u32CurrentValue : UInt32

def getSetting (driver : Driver) (session : Setting) : Option FoundSetting :=
  match session with
  | some value => some ⟨true, value⟩
  | none => driver.predefined.map (⟨false, ·⟩)

/-- The value that is in force. -/
def value (driver : Driver) (session : Setting) : Option UInt32 :=
  (getSetting driver session).map (·.u32CurrentValue)

structure OpenglSwapchain where
  ourValue : UInt32
  undoValue : Option UInt32
deriving DecidableEq

structure UndoData where
  openglSwapchain : Option OpenglSwapchain
deriving DecidableEq

def setOpenglSwapchain (ourValue : UInt32) (undoValue : Option UInt32) : UndoData :=
  ⟨some ⟨ourValue, undoValue⟩⟩

def merge (data newerData : UndoData) : UndoData :=
  match newerData.openglSwapchain with
  | some swapchainData => setOpenglSwapchain swapchainData.ourValue swapchainData.undoValue
  | none => data

/-- What an undo file holds: what was written last, or nothing that can be parsed. -/
abbrev Content := Option UndoData

def readUndoData (content : Content) : UndoData :=
  content.getD ⟨none⟩

def restoreGlobalProfileToUndo (driver : Driver) (undoData : UndoData) (session : Setting) : Setting :=
  match undoData.openglSwapchain with
  | none => session
  | some swapchainData =>
    match getSetting driver session with
    | none => session
    | some setting =>
      -- without an undo value the setting is deleted
      if setting.currentProfileLocation = true ∧ setting.u32CurrentValue = swapchainData.ourValue then
        swapchainData.undoValue
      else session

/-- A setting that is not found is to be deleted again, and so has no undo value. -/
def checkAndModifyGlobalProfile (driver : Driver) (openglVulkanOnDxgi : Bool) (session : Setting) :
    Setting × Option UndoData :=
  if openglVulkanOnDxgi = true ∧ value driver session ≠ some driver.preferEnabled then
    (some driver.preferEnabled, some (setOpenglSwapchain driver.preferEnabled (value driver session)))
  else (session, none)

/-! ## Processes -/

/-- What a call of the interface goes on with. -/
inductive Step
  | saveApplication
  | createFile (undoData : UndoData)
  | clearFile (undoData : UndoData)
  | writeFile
  | saveModified
  | saveRestored (own : Bool)
  | deleteFile (own : Bool)

def Step.saves : Step → Bool
  | .saveApplication | .saveModified | .saveRestored _ => true
  | _ => false

/-- `undoFile` says that the process holds the undo file. -/
structure Process where
  loaded : Bool
  session : Setting
  undoData : Option UndoData
  undoFile : Bool
  pending : Option Step

/-- `chosen` is what the user has set last, and `stale` says that it was set after the settings were loaded. -/
structure State where
  setting : Setting
  undoFile : Option Content
  process : Option Process
  chosen : Setting
  stale : Bool

inductive Call
  | load
  | restoreFromAndDeleteUndoFileIfExists
  | modifyApplicationProfile (modified : Bool)
  | modifyGlobalProfile (openglVulkanOnDxgi : Bool)
  | restoreGlobalProfile
  | unload
  | finish

inductive Event
  | start
  | call (call : Call)
  | goOn
  | crash
  | user (chosen : Setting)

def initial (setting : Setting) : State :=
  ⟨setting, none, none, setting, false⟩

def restoreFromAndDeleteUndoFileIfExists (driver : Driver) (process : Process) (s : State) : State :=
  if process.loaded = true ∧ process.undoFile = false then
    match s.undoFile with
    | none => s
    | some content =>
      { s with
        process := some { process with
          session := restoreGlobalProfileToUndo driver (readUndoData content) process.session
          pending := some (.saveRestored false) } }
  else s

def modifyApplicationProfile (modified : Bool) (process : Process) (s : State) : State :=
  if process.loaded = true ∧ modified = true then
    { s with process := some { process with pending := some .saveApplication } }
  else s

def modifyGlobalProfile (driver : Driver) (openglVulkanOnDxgi : Bool) (process : Process) (s : State) : State :=
  if process.loaded = true then
    match checkAndModifyGlobalProfile driver openglVulkanOnDxgi process.session with
    | (_, none) => s
    | (session, some undoData) =>
      { s with
        process := some { process with
          session := session
          pending := some (if process.undoFile = true then .clearFile undoData else .createFile undoData) } }
  else s

def restoreGlobalProfile (driver : Driver) (process : Process) (s : State) : State :=
  match process.undoData with
  | none => s
  | some undoData =>
    if process.loaded = true ∧ process.undoFile = true then
      { s with
        process := some { process with
          session := restoreGlobalProfileToUndo driver undoData process.session
          pending := some (.saveRestored true) } }
    else s

def perform (driver : Driver) (process : Process) (s : State) : Call → State
  | .load =>
    if process.loaded = true then s
    else { s with process := some { process with loaded := true, session := s.setting }, stale := false }
  | .restoreFromAndDeleteUndoFileIfExists => restoreFromAndDeleteUndoFileIfExists driver process s
  | .modifyApplicationProfile modified => modifyApplicationProfile modified process s
  | .modifyGlobalProfile openglVulkanOnDxgi => modifyGlobalProfile driver openglVulkanOnDxgi process s
  | .restoreGlobalProfile => restoreGlobalProfile driver process s
  | .unload => { s with process := some { process with loaded := false } }
  | .finish => { s with process := none }

def createFile (undoData : UndoData) (process : Process) (s : State) : State :=
  match s.undoFile with
  | some _ =>
    -- the modification of the session is taken back
    { s with process := some { process with session := s.setting, pending := none }, stale := false }
  | none =>
    { s with
      undoFile := some none
      process := some { process with undoFile := true, pending := some (.clearFile undoData) } }

/-- The next call of the driver or of the file system. -/
def resume (process : Process) (s : State) : Step → State
  | .saveApplication | .saveModified =>
    { s with setting := process.session, process := some { process with pending := none } }
  | .createFile undoData => createFile undoData process s
  | .clearFile undoData =>
    { s with
      undoFile := some none
      process := some { process with
        undoData := some (process.undoData.elim undoData (merge · undoData))
        pending := some .writeFile } }
  | .writeFile =>
    { s with undoFile := some process.undoData, process := some { process with pending := some .saveModified } }
  | .saveRestored own =>
    { s with setting := process.session, process := some { process with pending := some (.deleteFile own) } }
  | .deleteFile false => { s with undoFile := none, process := some { process with pending := none } }
  | .deleteFile true =>
    { s with undoFile := none, process := some { process with undoData := none, undoFile := false, pending := none } }

def next (driver : Driver) (s : State) : Event → State
  | .start =>
    match s.process with
    | some _ => s
    | none => { s with process := some ⟨false, none, none, false, none⟩ }
  | .call call =>
    match s.process with
    | none => s
    | some process =>
      match process.pending with
      | some _ => s
      | none => perform driver process s call
  | .goOn =>
    match s.process with
    | none => s
    | some process =>
      match process.pending with
      | none => s
      | some step => resume process s step
  | .crash => { s with process := none }
  | .user chosen => { s with setting := chosen, chosen := chosen, stale := true }

/-! ## What is promised -/

/-- What the next step of the process is, if it goes on. -/
def pending (s : State) : Option Step :=
  s.process.bind (·.pending)

variable {driver : Driver}

/-- The user chooses other values than the program's. -/
def Allowed (driver : Driver) : Event → Prop
  | .user chosen => value driver chosen ≠ some driver.preferEnabled
  | _ => True

instance : DecidablePred (Allowed driver)
  | .user _ => inferInstanceAs (Decidable (_ ≠ _))
  | .start | .call _ | .goOn | .crash => inferInstanceAs (Decidable True)

def saving (s : State) : Event → Bool
  | .goOn => (pending s).any Step.saves
  | _ => false

/-- Nothing is saved that was loaded before the user's last change. -/
def Guard (driver : Driver) (s : State) (event : Event) : Prop :=
  Allowed driver event ∧ (saving s event = true → s.stale = false)

instance (s : State) : DecidablePred (Guard driver s) := fun _ => inferInstanceAs (Decidable (_ ∧ _))

/-- The user's value is in force, or the program's is and the undo file has the user's. -/
def Recoverable (driver : Driver) (s : State) : Prop :=
  value driver s.setting = value driver s.chosen ∨
    (s.setting = some driver.preferEnabled ∧
      s.undoFile = some (some (setOpenglSwapchain driver.preferEnabled (value driver s.chosen))))

instance (s : State) : Decidable (Recoverable driver s) := inferInstanceAs (Decidable (_ ∨ _))

def Reached (driver : Driver) (s : State) : Prop :=
  ∃ setting events, Runs (Guard driver) (next driver) (initial setting) events ∧
    events.foldl (next driver) (initial setting) = s

/-- What the program does when it ends and holds the undo file. -/
def cleanExit : List Event :=
  [.call .load, .call .restoreGlobalProfile, .goOn, .goOn, .call .unload, .call .finish]

def recovery : List Event :=
  [.call .restoreFromAndDeleteUndoFileIfExists, .goOn, .goOn]

/-! ## Restoring -/

variable {s : State} {process : Process}

theorem value_some (v : UInt32) : value driver (some v) = some v := rfl

/-- The undo data give back the value they were made of. -/
theorem value_undoValue (setting : Setting) : value driver (value driver setting) = value driver setting := by
  cases setting with
  | some v => rfl
  | none =>
    cases hfound : driver.predefined with
    | some found =>
      have hnone : value driver none = some found := by simp [value, getSetting, hfound]
      rw [hnone]
      rfl
    | none =>
      have hnone : value driver none = none := by simp [value, getSetting, hfound]
      rw [hnone, hnone]

theorem restore_ours (undoValue : Option UInt32) :
    restoreGlobalProfileToUndo driver (setOpenglSwapchain driver.preferEnabled undoValue) (some driver.preferEnabled) =
      undoValue :=
  if_pos ⟨rfl, rfl⟩

theorem restore_other {undoValue : Option UInt32} {setting : Setting} (hne : setting ≠ some driver.preferEnabled) :
    restoreGlobalProfileToUndo driver (setOpenglSwapchain driver.preferEnabled undoValue) setting = setting := by
  cases setting with
  | some v =>
    exact if_neg fun hboth => hne (congrArg some hboth.2)
  | none =>
    unfold restoreGlobalProfileToUndo setOpenglSwapchain getSetting
    cases driver.predefined with
    | none => rfl
    | some found => rfl

/-! ## The invariant -/

/-- Undo data the program made. -/
def Ours (driver : Driver) (undoData : UndoData) : Prop :=
  ∃ undoValue, undoData = setOpenglSwapchain driver.preferEnabled undoValue

/-- A process that holds the undo file has its data. -/
def Holds (s : State) (process : Process) : Prop :=
  process.undoFile = true → ∃ undoData, process.undoData = some undoData ∧ s.undoFile = some (some undoData)

/-- The session has the program's value, and the undo data the one that is in force. -/
def Changed (driver : Driver) (s : State) (process : Process) (undoData : UndoData) : Prop :=
  process.session = some driver.preferEnabled ∧
    undoData = setOpenglSwapchain driver.preferEnabled (value driver s.setting) ∧
    value driver s.setting = value driver s.chosen

/-- The session has the user's value, and a change by the user stays. -/
def Restored (driver : Driver) (s : State) (process : Process) : Prop :=
  value driver process.session = value driver s.chosen ∧
    (s.setting ≠ some driver.preferEnabled → process.session = s.setting)

def Fits (driver : Driver) (s : State) (process : Process) : Option Step → Prop
  | none => Holds s process ∧ (s.stale = false → process.loaded = true → process.session = s.setting)
  | some .saveApplication => Holds s process ∧ (s.stale = false → process.session = s.setting)
  | some (.createFile undoData) =>
    process.undoFile = false ∧ Ours driver undoData ∧ value driver s.chosen ≠ some driver.preferEnabled ∧
      (s.stale = false → Changed driver s process undoData)
  | some (.clearFile undoData) =>
    Ours driver undoData ∧ value driver s.chosen ≠ some driver.preferEnabled ∧
      (s.stale = false → Changed driver s process undoData)
  | some .writeFile =>
    ∃ undoData, process.undoData = some undoData ∧ Ours driver undoData ∧
      value driver s.chosen ≠ some driver.preferEnabled ∧ (s.stale = false → Changed driver s process undoData)
  | some .saveModified =>
    ∃ undoData, process.undoData = some undoData ∧ s.undoFile = some (some undoData) ∧
      (s.stale = false → Changed driver s process undoData)
  | some (.saveRestored own) =>
    Holds s process ∧ process.undoFile = own ∧ (s.stale = false → Restored driver s process)
  | some (.deleteFile own) =>
    process.undoFile = own ∧ value driver s.setting = value driver s.chosen ∧
      (s.stale = false → process.session = s.setting)

structure Inv (driver : Driver) (s : State) : Prop where
  recoverable : Recoverable driver s
  stale : s.stale = true → s.setting = s.chosen ∧ value driver s.chosen ≠ some driver.preferEnabled
  file : ∀ content, s.undoFile = some content → value driver s.chosen ≠ some driver.preferEnabled ∧
    ∀ undoData ∈ content, Ours driver undoData
  fits : ∀ process, s.process = some process → Fits driver s process process.pending

theorem inv_initial (setting : Setting) : Inv driver (initial setting) where
  recoverable := .inl rfl
  stale := fun hstale => (Bool.false_ne_true hstale).elim
  file := fun _ hfile => (Option.some_ne_none _ hfile.symm).elim
  fits := fun _ hprocess => (Option.some_ne_none _ hprocess.symm).elim

/-- What is in force is the user's, where the program's value is not or the user's last change is not known. -/
theorem Inv.in_force (h : Inv driver s) (hvalue : s.stale = false → value driver s.setting = value driver s.chosen) :
    value driver s.setting = value driver s.chosen := by
  cases hstale : s.stale with
  | true => rw [(h.stale hstale).1]
  | false => exact hvalue hstale

/-- With a value other than the program's, the user's is in force. -/
theorem Recoverable.in_force (h : Recoverable driver s) (hne : s.setting ≠ some driver.preferEnabled) :
    value driver s.setting = value driver s.chosen := by
  cases h with
  | inl hvalue => exact hvalue
  | inr hours => exact absurd hours.1 hne

variable (process) in
/-- A session with the settings is restored by the undo file. -/
theorem Inv.restored (h : Inv driver s) {content : Content} (hfile : s.undoFile = some content)
    (hsession : process.session = s.setting) : Restored driver s
      { process with session := restoreGlobalProfileToUndo driver (readUndoData content) process.session } := by
  obtain ⟨hchosen, hours⟩ := h.file content hfile
  unfold Restored
  dsimp only
  rw [hsession]
  by_cases hprogram : s.setting = some driver.preferEnabled
  · refine ⟨?_, fun hne => absurd hprogram hne⟩
    cases h.recoverable with
    | inl hvalue =>
      rw [hprogram, value_some] at hvalue
      exact absurd hvalue.symm hchosen
    | inr hheld =>
      have hcontent := Option.some.inj (hfile.symm.trans hheld.2)
      rw [hcontent, hprogram]
      show value driver (restoreGlobalProfileToUndo driver (setOpenglSwapchain _ _) _) = _
      rw [restore_ours, value_undoValue]
  · have hstays : restoreGlobalProfileToUndo driver (readUndoData content) s.setting = s.setting := by
      cases content with
      | none => rfl
      | some undoData =>
        obtain ⟨undoValue, rfl⟩ := hours undoData rfl
        exact restore_other hprogram
    rw [hstays]
    exact ⟨h.recoverable.in_force hprogram, fun _ => rfl⟩

/-! ## What a step keeps -/

theorem Fits.user (h : Fits driver s process process.pending) {chosen : Setting}
    (hallowed : value driver chosen ≠ some driver.preferEnabled) :
    Fits driver { s with setting := chosen, chosen := chosen, stale := true } process process.pending := by
  cases hpending : process.pending with
  | none =>
    rw [hpending] at h
    exact ⟨h.1, fun hfresh => (Bool.false_ne_true hfresh.symm).elim⟩
  | some step =>
    rw [hpending] at h
    cases step with
    | saveApplication => exact ⟨h.1, fun hfresh => (Bool.false_ne_true hfresh.symm).elim⟩
    | createFile undoData => exact ⟨h.1, h.2.1, hallowed, fun hfresh => (Bool.false_ne_true hfresh.symm).elim⟩
    | clearFile undoData => exact ⟨h.1, hallowed, fun hfresh => (Bool.false_ne_true hfresh.symm).elim⟩
    | writeFile =>
      obtain ⟨undoData, hdata, hours, _, _⟩ := h
      exact ⟨undoData, hdata, hours, hallowed, fun hfresh => (Bool.false_ne_true hfresh.symm).elim⟩
    | saveModified =>
      obtain ⟨undoData, hdata, hfile, _⟩ := h
      exact ⟨undoData, hdata, hfile, fun hfresh => (Bool.false_ne_true hfresh.symm).elim⟩
    | saveRestored own => exact ⟨h.1, h.2.1, fun hfresh => (Bool.false_ne_true hfresh.symm).elim⟩
    | deleteFile own => exact ⟨h.1, rfl, fun hfresh => (Bool.false_ne_true hfresh.symm).elim⟩

theorem inv_user (h : Inv driver s) {chosen : Setting} (hallowed : value driver chosen ≠ some driver.preferEnabled) :
    Inv driver { s with setting := chosen, chosen := chosen, stale := true } where
  recoverable := .inl rfl
  stale := fun _ => ⟨rfl, hallowed⟩
  file := fun content hfile => ⟨hallowed, (h.file content hfile).2⟩
  fits := fun process hprocess => (h.fits process hprocess).user hallowed

theorem inv_crash (h : Inv driver s) : Inv driver { s with process := none } where
  recoverable := h.recoverable
  stale := h.stale
  file := h.file
  fits := fun _ hprocess => (Option.some_ne_none _ hprocess.symm).elim

theorem fits_process (other : Option Process) (step : Option Step) :
    Fits driver { s with process := other } process step ↔ Fits driver s process step := by
  cases step with
  | none => exact Iff.rfl
  | some step => cases step <;> exact Iff.rfl

/-- Only the process changes. -/
theorem Inv.go (h : Inv driver s) (hfits : Fits driver s process process.pending) :
    Inv driver { s with process := some process } where
  recoverable := h.recoverable
  stale := h.stale
  file := h.file
  fits := fun process' hprocess => by
    obtain rfl := Option.some.inj hprocess
    exact (fits_process _ _).mpr hfits

/-- The settings are loaded. -/
theorem Inv.load (h : Inv driver s) (hholds : Holds s process) (hpending : process.pending = none)
    (hsession : process.session = s.setting) : Inv driver { s with process := some process, stale := false } where
  recoverable := h.recoverable
  stale := nofun
  file := h.file
  fits := fun process' hprocess => by
    obtain rfl := Option.some.inj hprocess
    rw [hpending]
    exact ⟨hholds, fun _ _ => hsession⟩

theorem inv_restoreFrom (h : Inv driver s) (hfits : Fits driver s process none) :
    Inv driver (restoreFromAndDeleteUndoFileIfExists driver process s) := by
  unfold restoreFromAndDeleteUndoFileIfExists
  split_ifs with hready
  · split
    case _ hfile => exact h
    case _ content hfile =>
      refine h.go ?_
      exact ⟨hfits.1, hready.2, fun hfresh => h.restored process hfile (hfits.2 hfresh hready.1)⟩
  · exact h

theorem inv_restoreGlobal (h : Inv driver s) (hfits : Fits driver s process none) :
    Inv driver (restoreGlobalProfile driver process s) := by
  unfold restoreGlobalProfile
  cases hdata : process.undoData with
  | none => exact h
  | some undoData =>
    dsimp only
    split_ifs with hready
    · obtain ⟨held, hheld, hfile⟩ := hfits.1 hready.2
      obtain rfl := Option.some.inj (hdata.symm.trans hheld)
      refine h.go ?_
      exact ⟨fun _ => ⟨undoData, rfl, hfile⟩, hready.2, fun hfresh => h.restored process hfile (hfits.2 hfresh hready.1)⟩
    · exact h

theorem inv_modifyApplication (h : Inv driver s) (hfits : Fits driver s process none) (modified : Bool) :
    Inv driver (modifyApplicationProfile modified process s) := by
  unfold modifyApplicationProfile
  split_ifs with hready
  · refine h.go ?_
    exact ⟨hfits.1, fun hfresh => hfits.2 hfresh hready.1⟩
  · exact h

/-- A setting that has to be changed is not the program's, and the user's is in force. -/
theorem Inv.chosen_ne (h : Inv driver s) (hsession : s.stale = false → process.session = s.setting)
    (hne : value driver process.session ≠ some driver.preferEnabled) :
    value driver s.chosen ≠ some driver.preferEnabled ∧
      (s.stale = false → value driver s.setting = value driver s.chosen) := by
  cases hstale : s.stale with
  | true => exact ⟨(h.stale hstale).2, nofun⟩
  | false =>
    rw [hsession hstale] at hne
    have hvalue := h.recoverable.in_force fun hours => hne (congrArg (value driver) hours)
    exact ⟨hvalue ▸ hne, fun _ => hvalue⟩

theorem inv_modifyGlobal (h : Inv driver s) (hfits : Fits driver s process none) (openglVulkanOnDxgi : Bool) :
    Inv driver (modifyGlobalProfile driver openglVulkanOnDxgi process s) := by
  unfold modifyGlobalProfile checkAndModifyGlobalProfile
  by_cases hloaded : process.loaded = true
  · rw [if_pos hloaded]
    by_cases hmodify : openglVulkanOnDxgi = true ∧ value driver process.session ≠ some driver.preferEnabled
    · rw [if_pos hmodify]
      have hsession : s.stale = false → process.session = s.setting := fun hfresh => hfits.2 hfresh hloaded
      obtain ⟨hchosen, hvalue⟩ := h.chosen_ne hsession hmodify.2
      have hchanged (pending : Option Step) : s.stale = false → Changed driver s
          { process with session := some driver.preferEnabled, pending := pending }
          (setOpenglSwapchain driver.preferEnabled (value driver process.session)) := by
        intro hfresh
        rw [hsession hfresh]
        exact ⟨rfl, rfl, hvalue hfresh⟩
      dsimp only
      by_cases hheld : process.undoFile = true
      · rw [if_pos hheld]
        refine h.go ?_
        exact ⟨⟨_, rfl⟩, hchosen, hchanged _⟩
      · rw [if_neg hheld]
        refine h.go ?_
        exact ⟨eq_false_of_ne_true hheld, ⟨_, rfl⟩, hchosen, hchanged _⟩
    · rw [if_neg hmodify]
      exact h
  · rw [if_neg hloaded]
    exact h

theorem inv_perform (h : Inv driver s) (hprocess : s.process = some process) (hpending : process.pending = none)
    (call : Call) : Inv driver (perform driver process s call) := by
  have hfits := h.fits process hprocess
  rw [hpending] at hfits
  cases call with
  | load =>
    unfold perform
    split_ifs with hloaded
    · exact h
    · exact h.load hfits.1 hpending rfl
  | restoreFromAndDeleteUndoFileIfExists => exact inv_restoreFrom h hfits
  | modifyApplicationProfile modified => exact inv_modifyApplication h hfits modified
  | modifyGlobalProfile openglVulkanOnDxgi => exact inv_modifyGlobal h hfits openglVulkanOnDxgi
  | restoreGlobalProfile => exact inv_restoreGlobal h hfits
  | unload =>
    refine h.go ?_
    show Fits driver s _ process.pending
    rw [hpending]
    exact ⟨hfits.1, nofun⟩
  | finish => exact inv_crash h

/-- A save of the session's settings. -/
theorem Inv.save (h : Inv driver s) (hfresh : s.stale = false)
    (hrecoverable : Recoverable driver { s with setting := process.session }) {pending : Option Step}
    (hfits : Fits driver { s with setting := process.session } { process with pending := pending } pending) :
    Inv driver { s with setting := process.session, process := some { process with pending := pending } } where
  recoverable := hrecoverable
  stale := fun hstale => absurd (hfresh.symm.trans hstale) Bool.false_ne_true
  file := h.file
  fits := fun process' hprocess => by
    obtain rfl := Option.some.inj hprocess
    exact (fits_process _ _).mpr hfits

/-- The undo file can be changed while the user's value is in force. -/
theorem Inv.setFile (h : Inv driver s) (hvalue : value driver s.setting = value driver s.chosen)
    {file : Option Content} (hfile : ∀ content, file = some content →
      value driver s.chosen ≠ some driver.preferEnabled ∧ ∀ undoData ∈ content, Ours driver undoData)
    {process : Process} (hfits : Fits driver { s with undoFile := file } process process.pending) :
    Inv driver { s with undoFile := file, process := some process } where
  recoverable := .inl hvalue
  stale := h.stale
  file := hfile
  fits := fun process' hprocess => by
    obtain rfl := Option.some.inj hprocess
    exact (fits_process _ _).mpr hfits

theorem merge_ours {undoData : UndoData} (h : Ours driver undoData) (older : Option UndoData) :
    older.elim undoData (merge · undoData) = undoData := by
  obtain ⟨undoValue, rfl⟩ := h
  cases older with
  | none => rfl
  | some data => rfl

theorem inv_createFile (h : Inv driver s) {undoData : UndoData}
    (hfits : Fits driver s process (some (.createFile undoData))) : Inv driver (createFile undoData process s) := by
  obtain ⟨hheld, hours, hchosen, hchanged⟩ := hfits
  unfold createFile
  split
  case _ content hfile =>
    refine h.load ?_ rfl rfl
    exact fun hheld' => absurd (hheld.symm.trans hheld') Bool.false_ne_true
  case _ hfile =>
    refine h.setFile (h.in_force fun hfresh => (hchanged hfresh).2.2) ?_ ?_
    · rintro content ⟨⟩
      exact ⟨hchosen, nofun⟩
    · exact ⟨hours, hchosen, hchanged⟩

theorem inv_resume (h : Inv driver s) (hprocess : s.process = some process) {step : Step}
    (hpending : process.pending = some step) (hfresh : step.saves = true → s.stale = false) :
    Inv driver (resume process s step) := by
  have hfits := h.fits process hprocess
  rw [hpending] at hfits
  cases step with
  | saveApplication =>
    have hsession := hfits.2 (hfresh rfl)
    refine h.save (hfresh rfl) ?_ ⟨hfits.1, fun _ _ => rfl⟩
    rw [hsession]
    exact h.recoverable
  | createFile undoData => exact inv_createFile h hfits
  | clearFile undoData =>
    obtain ⟨hours, hchosen, hchanged⟩ := hfits
    refine h.setFile (h.in_force fun hfresh => (hchanged hfresh).2.2) ?_ ?_
    · rintro content ⟨⟩
      exact ⟨hchosen, nofun⟩
    · exact ⟨undoData, congrArg some (merge_ours hours _), hours, hchosen, hchanged⟩
  | writeFile =>
    obtain ⟨undoData, hdata, hours, hchosen, hchanged⟩ := hfits
    refine h.setFile (h.in_force fun hfresh => (hchanged hfresh).2.2) ?_ ?_
    · rintro content ⟨⟩
      refine ⟨hchosen, fun written hwritten => ?_⟩
      obtain rfl := Option.some.inj (hdata.symm.trans hwritten)
      exact hours
    · exact ⟨undoData, hdata, congrArg some hdata, hchanged⟩
  | saveModified =>
    obtain ⟨undoData, hdata, hfile, hchanged⟩ := hfits
    obtain ⟨hsession, rfl, hvalue⟩ := hchanged (hfresh rfl)
    refine h.save (hfresh rfl) (.inr ⟨hsession, ?_⟩) ⟨fun _ => ⟨_, hdata, hfile⟩, fun _ _ => rfl⟩
    rw [← hvalue]
    exact hfile
  | saveRestored own =>
    obtain ⟨hholds, hown, hrestored⟩ := hfits
    have hvalue := (hrestored (hfresh rfl)).1
    exact h.save (hfresh rfl) (.inl hvalue) ⟨hown, hvalue, fun _ => rfl⟩
  | deleteFile own =>
    obtain ⟨hown, hvalue, hsession⟩ := hfits
    cases own with
    | false =>
      refine h.setFile hvalue (by nofun) ?_
      exact ⟨fun hheld => absurd (hown.symm.trans hheld) Bool.false_ne_true, fun hfresh _ => hsession hfresh⟩
    | true =>
      refine h.setFile hvalue (by nofun) ?_
      exact ⟨nofun, fun hfresh _ => hsession hfresh⟩

theorem next_call (hprocess : s.process = some process) (hpending : process.pending = none) (call : Call) :
    next driver s (.call call) = perform driver process s call := by
  simp only [next, hprocess, hpending]

theorem next_goOn (hprocess : s.process = some process) {step : Step} (hpending : process.pending = some step) :
    next driver s .goOn = resume process s step := by
  simp only [next, hprocess, hpending]

theorem inv_next (h : Inv driver s) {event : Event} (hguard : Guard driver s event) :
    Inv driver (next driver s event) := by
  cases event with
  | start =>
    cases hprocess : s.process with
    | none =>
      simp only [next, hprocess]
      refine h.go ?_
      exact ⟨nofun, nofun⟩
    | some process =>
      simp only [next, hprocess]
      exact h
  | call call =>
    cases hprocess : s.process with
    | none =>
      simp only [next, hprocess]
      exact h
    | some process =>
      cases hpending : process.pending with
      | none =>
        rw [next_call hprocess hpending]
        exact inv_perform h hprocess hpending call
      | some step =>
        simp only [next, hprocess, hpending]
        exact h
  | goOn =>
    cases hprocess : s.process with
    | none =>
      simp only [next, hprocess]
      exact h
    | some process =>
      cases hpending : process.pending with
      | none =>
        simp only [next, hprocess, hpending]
        exact h
      | some step =>
        rw [next_goOn hprocess hpending]
        refine inv_resume h hprocess hpending fun hsaves => hguard.2 ?_
        rw [saving, pending, hprocess, Option.bind_some, hpending]
        exact hsaves
  | crash => exact inv_crash h
  | user chosen => exact inv_user h hguard.1

theorem Reached.inv (h : Reached driver s) : Inv driver s := by
  obtain ⟨setting, events, hruns, rfl⟩ := h
  exact hruns.invariant (Inv driver) (inv_initial setting) fun s event hinv hguard => inv_next hinv hguard

/-! ## Recovery and clean exits -/

/-- No undo file is left and the user's value is in force. -/
def Settled (driver : Driver) (s s' : State) : Prop :=
  s'.undoFile = none ∧ value driver s'.setting = value driver s.chosen

theorem Inv.cleanExit (h : Inv driver s) (hprocess : s.process = some process) (hpending : process.pending = none)
    (hloaded : process.loaded = false) (hheld : process.undoFile = true) :
    (cleanExit.foldl (next driver) s).process = none ∧ Settled driver s (cleanExit.foldl (next driver) s) := by
  have hfits := h.fits process hprocess
  rw [hpending] at hfits
  obtain ⟨undoData, hdata, hfile⟩ := hfits.1 hheld
  have hexit : NvPrefs.cleanExit.foldl (next driver) s =
      ⟨restoreGlobalProfileToUndo driver undoData s.setting, none, none, s.chosen, false⟩ := by
    simp [NvPrefs.cleanExit, next, perform, restoreGlobalProfile, resume, hprocess, hpending, hloaded, hheld, hdata]
  have hrestored := h.restored { process with session := s.setting } hfile rfl
  rw [hexit]
  exact ⟨rfl, rfl, hrestored.1⟩

theorem Inv.recovery (h : Inv driver s) (hprocess : s.process = some process) (hpending : process.pending = none)
    (hloaded : process.loaded = false) (hheld : process.undoFile = false) :
    Settled driver s ((.call .load :: recovery).foldl (next driver) s) ∧
      recovery.foldl (next driver) ((.call .load :: recovery).foldl (next driver) s) =
        (.call .load :: recovery).foldl (next driver) s := by
  cases hfile : s.undoFile with
  | none =>
    have hnothing : (.call .load :: NvPrefs.recovery).foldl (next driver) s =
        { s with process := some { process with loaded := true, session := s.setting }, stale := false } := by
      simp [NvPrefs.recovery, next, perform, restoreFromAndDeleteUndoFileIfExists, hprocess, hpending, hloaded, hheld,
        hfile]
    rw [hnothing]
    constructor
    · refine ⟨hfile, ?_⟩
      cases h.recoverable with
      | inl hvalue => exact hvalue
      | inr hours => exact absurd (hfile.symm.trans hours.2) (by simp)
    · simp [NvPrefs.recovery, next, perform, restoreFromAndDeleteUndoFileIfExists, hpending, hheld, hfile]
  | some content =>
    have hrestore : (.call .load :: NvPrefs.recovery).foldl (next driver) s =
        { s with
          setting := restoreGlobalProfileToUndo driver (readUndoData content) s.setting
          undoFile := none
          process := some { process with
            loaded := true
            session := restoreGlobalProfileToUndo driver (readUndoData content) s.setting }
          stale := false } := by
      simp [NvPrefs.recovery, next, perform, restoreFromAndDeleteUndoFileIfExists, resume, hprocess, hpending, hloaded,
        hheld, hfile]
    have hrestored := h.restored { process with session := s.setting } hfile rfl
    rw [hrestore]
    constructor
    · exact ⟨rfl, hrestored.1⟩
    · simp [NvPrefs.recovery, next, perform, restoreFromAndDeleteUndoFileIfExists, hpending, hheld]

/-- What is saved to restore is the user's value, and a change by the user stays. -/
theorem Inv.saveRestored (h : Inv driver s) {own : Bool} (hpending : pending s = some (.saveRestored own))
    (hfresh : s.stale = false) :
    value driver (next driver s .goOn).setting = value driver s.chosen ∧
      (s.setting ≠ some driver.preferEnabled → (next driver s .goOn).setting = s.setting) := by
  cases hprocess : s.process with
  | none =>
    rw [pending, hprocess] at hpending
    cases hpending
  | some process =>
    rw [pending, hprocess] at hpending
    have hfits := h.fits process hprocess
    rw [show process.pending = some (.saveRestored own) from hpending] at hfits
    rw [next_goOn hprocess hpending]
    exact hfits.2.2 hfresh

/-- While nothing is saved that was loaded before the user's last change, the user's value is in force or the undo
file has it; what is saved to restore is that value, and leaves a change by the user; a clean exit and a recovery leave
the user's value and no undo file, and a second recovery changes nothing. -/
theorem recoverable_reached (driver : Driver) (s : State) (h : Reached driver s) :
    Recoverable driver s ∧
      (∀ own, pending s = some (.saveRestored own) → s.stale = false →
        value driver (next driver s .goOn).setting = value driver s.chosen ∧
          (s.setting ≠ some driver.preferEnabled → (next driver s .goOn).setting = s.setting)) ∧
      ∀ process, s.process = some process → process.pending = none → process.loaded = false →
        (process.undoFile = true → (cleanExit.foldl (next driver) s).process = none ∧
          Settled driver s (cleanExit.foldl (next driver) s)) ∧
        (process.undoFile = false → Settled driver s ((.call .load :: recovery).foldl (next driver) s) ∧
          recovery.foldl (next driver) ((.call .load :: recovery).foldl (next driver) s) =
            (.call .load :: recovery).foldl (next driver) s) :=
  ⟨h.inv.recoverable, fun _ => h.inv.saveRestored, fun _ hprocess hpending hloaded =>
    ⟨h.inv.cleanExit hprocess hpending hloaded, h.inv.recovery hprocess hpending hloaded⟩⟩

/-! ## Examples -/

def plainDriver : Driver := ⟨1, none⟩

/-- The program's value is saved over the user's, which the undo file has. -/
def modification : List Event :=
  [.start, .call .load, .call (.modifyGlobalProfile true), .goOn, .goOn, .goOn, .goOn, .call .unload]

theorem recoverable_modification : Reached plainDriver (modification.foldl (next plainDriver) (initial (some 0))) ∧
    (cleanExit.foldl (next plainDriver) (modification.foldl (next plainDriver) (initial (some 0)))).process = none ∧
    Settled plainDriver (modification.foldl (next plainDriver) (initial (some 0)))
      (cleanExit.foldl (next plainDriver) (modification.foldl (next plainDriver) (initial (some 0)))) :=
  have hreached : Reached plainDriver (modification.foldl (next plainDriver) (initial (some 0))) :=
    ⟨some 0, modification, by decide, rfl⟩
  ⟨hreached, ((recoverable_reached plainDriver _ hreached).2.2 _ rfl rfl rfl).1 rfl⟩

/-- The user chooses 2 after the settings are loaded, and the program saves its value over it: the undo file has 0. -/
def staleModification : List Event :=
  [.start, .call .load, .user (some 2), .call (.modifyGlobalProfile true), .goOn, .goOn, .goOn, .goOn]

/-- After a crash, the user chooses 2 after the settings are loaded, and is about to have it overwritten with 0. -/
def staleRecovery : List Event :=
  modification ++ [.crash, .start, .call .load, .user (some 2), .call .restoreFromAndDeleteUndoFileIfExists]

/-- Neither the undo file nor the setting has what the user has chosen, and a restore overwrites it. -/
theorem stale_saved : ¬(∀ (driver : Driver) (setting : Setting) (events : List Event),
      Runs (fun _ => Allowed driver) (next driver) (initial setting) events →
        Recoverable driver (events.foldl (next driver) (initial setting))) ∧
    ¬(∀ (driver : Driver) (setting : Setting) (events : List Event),
      Runs (fun _ => Allowed driver) (next driver) (initial setting) events → ∀ own,
        pending (events.foldl (next driver) (initial setting)) = some (.saveRestored own) →
        (events.foldl (next driver) (initial setting)).setting ≠ some driver.preferEnabled →
          (next driver (events.foldl (next driver) (initial setting)) .goOn).setting =
            (events.foldl (next driver) (initial setting)).setting) := by
  constructor
  · intro hall
    have hrecoverable := hall plainDriver (some 0) staleModification (by decide)
    exact absurd hrecoverable (by decide)
  · intro hall
    have hkept := hall plainDriver (some 0) staleRecovery (by decide) false rfl (by decide)
    exact absurd hkept (by decide)

end Sunshine.NvPrefs
