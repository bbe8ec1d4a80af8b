import Mathlib.Data.List.Basic

/-! `update::install_payload`: the staged binary and the staged assets are put in place one after the other.

Every call of the file system has its outcome as an input; a call that fails may leave its target in any state.
`installPayload_allOrNothing_iff` says for which outcomes the two go in together or not at all. -/
namespace Sunshine.Update
set_option autoImplicit false

/-- The files of a directory by their relative names. -/
abbrev Tree (Name File : Type) := List (Name × File)

/-- What the paths of an installation hold; `stagedAssets` is there if it is a directory. -/
structure Files (Name File : Type) where
  stagedBin : Option File
  stagedAssets : Option (Tree Name File)
  bin : Option File
  binTmp : Option File
  binPrev : Option File
  assets : Option (Tree Name File)
  assetsTmp : Option (Tree Name File)
  assetsPrev : Option (Tree Name File)
  deriving DecidableEq

/-- A call that writes; where it fails, `left` is what is at its target. -/
inductive Written (α : Type) where
  | done
  | failed (message : String) (left : Option α)

def Written.isDone {α : Type} : Written α → Bool
  | .done => true
  | .failed _ _ => false

def Written.left {α : Type} : Written α → Option α
  | .done => none
  | .failed _ left => left

/-- The outcomes of the calls in their order: a message where one fails, and for `fs::remove_all` the entries
that stay. -/
structure Outcomes (Name File : Type) where
  removeBinTmp : Bool
  copyBin : Written File
  permissions : Option String
  removeRefused : Bool
  removeBinPrev : Bool
  keepBin : Option String
  installBin : Option String
  rollbackBin : Option String
  removeAssetsTmp : Option (Name × File → Bool)
  copyAssets : Written (Tree Name File)
  removeAssetsPrev : Option (Name × File → Bool)
  keepAssets : Option String
  removeKept : Option (Name × File → Bool)
  installAssets : Option String
  copyAcross : Written (Tree Name File)
  removeCopied : Option (Name × File → Bool)
  rollbackAssets : Option String

section Install

variable {Name File : Type}

/-! ## Calls -/

def remove (done : Bool) (path : Option File) : Option File := if done then none else path

def removeAll (stays : Option (Name × File → Bool)) (path : Option (Tree Name File)) : Option (Tree Name File) :=
  match stays with
  | none => none
  | some stays => path.map fun tree => tree.filter stays

/-- `fs::copy` with `recursive | overwrite_existing`: what is at the target and not in the source stays. -/
def overlay [DecidableEq Name] (source target : Tree Name File) : Tree Name File :=
  source ++ target.filter fun entry => !(source.map Prod.fst).contains entry.1

def copyTree [DecidableEq Name] (source target : Option (Tree Name File)) : Option (Tree Name File) :=
  source.map fun tree => overlay tree (target.getD [])

/-- A directory is not renamed over one that has entries. -/
def renameTree (outcome : Option String) (target : Option (Tree Name File)) : Option String :=
  match outcome with
  | some message => some message
  | none => if (target.getD []).isEmpty then none else some "Directory not empty"

/-! ## The function -/

def formatInstallError (whatFailed primary : String) (rollback : Option String) : String :=
  whatFailed ++ primary ++ rollback.elim "" fun message => "; rollback also failed: " ++ message

/-- The binary: what the files are behind it, and the message of the phase `error` where it fails. -/
def installBinary (o : Outcomes Name File) (fs : Files Name File) : Files Name File × Option String :=
  let fs := { fs with binTmp := remove o.removeBinTmp fs.binTmp }
  match o.copyBin with
  | .failed message left => ({ fs with binTmp := left }, some ("Failed to stage new binary: " ++ message))
  | .done =>
    let fs := { fs with binTmp := fs.stagedBin }
    match o.permissions with
    | some message =>
      ({ fs with binTmp := remove o.removeRefused fs.binTmp },
        some (formatInstallError "Failed to set permissions on staged binary: " message none))
    | none =>
      let previous := if fs.bin.isSome then { fs with binPrev := remove o.removeBinPrev fs.binPrev } else fs
      match if fs.bin.isSome then o.keepBin else none with
      | some message => (previous, some ("Failed to keep previous binary: " ++ message))
      | none =>
        let kept := if fs.bin.isSome then { previous with binPrev := fs.bin, bin := none } else previous
        match o.installBin with
        | none => ({ kept with bin := kept.binTmp, binTmp := none }, none)
        | some message =>
          if kept.binPrev.isSome then
            (if o.rollbackBin.isSome then kept else { kept with bin := kept.binPrev, binPrev := none },
              some (formatInstallError "Failed to install new binary: " message o.rollbackBin))
          else (kept, some (formatInstallError "Failed to install new binary: " message none))

/-- The assets, by way of a copy beside them. -/
def installAssets [DecidableEq Name] (o : Outcomes Name File) (fs : Files Name File) : Files Name File × Option String :=
  let fs := { fs with assetsTmp := removeAll o.removeAssetsTmp fs.assetsTmp }
  match o.copyAssets with
  | .failed message left => ({ fs with assetsTmp := left }, some ("Failed to stage assets: " ++ message))
  | .done =>
    let fs := { fs with assetsTmp := copyTree fs.stagedAssets fs.assetsTmp }
    let hadPreviousAssets := fs.assets.isSome
    let previous := if hadPreviousAssets then
      { fs with assetsPrev := removeAll o.removeAssetsPrev fs.assetsPrev } else fs
    match if hadPreviousAssets then renameTree o.keepAssets previous.assetsPrev else none with
    | some message =>
      ({ previous with assetsTmp := removeAll o.removeKept previous.assetsTmp },
        some ("Failed to keep previous assets: " ++ message))
    | none =>
      let kept := if hadPreviousAssets then { previous with assetsPrev := fs.assets, assets := none } else previous
      match o.installAssets with
      | none => ({ kept with assets := kept.assetsTmp, assetsTmp := none }, none)
      | some _ =>
        match o.copyAcross with
        | .done =>
          ({ kept with
              assets := copyTree kept.assetsTmp kept.assets
              assetsTmp := removeAll o.removeCopied kept.assetsTmp }, none)
        | .failed message left =>
          let cleaned := { kept with assets := left, assetsTmp := removeAll o.removeCopied kept.assetsTmp }
          if hadPreviousAssets && cleaned.assetsPrev.isSome then
            match renameTree o.rollbackAssets left with
            | none =>
              ({ cleaned with assets := cleaned.assetsPrev, assetsPrev := none },
                some (formatInstallError "Failed to install assets: " message none))
            | some rollback =>
              (cleaned, some (formatInstallError "Failed to install assets: " message (some rollback)))
          else (cleaned, some (formatInstallError "Failed to install assets: " message none))

/-- The installation succeeds where there is no message; `setcap` behind it changes nothing of this. -/
def installPayload [DecidableEq Name] (o : Outcomes Name File) (fs : Files Name File) : Files Name File × Option String :=
  if fs.stagedBin = none ∨ fs.stagedAssets = none then
    (fs, some "Staged release is missing sunshine or assets/")
  else match installBinary o fs with
  | (fs, some message) => (fs, some message)
  | (fs, none) => installAssets o fs

/-! ## What decides -/

/-- On success both artefacts are the staged ones, on failure both are what they were. -/
def AllOrNothing [DecidableEq Name] (o : Outcomes Name File) (fs : Files Name File) : Prop :=
  ((installPayload o fs).2 = none →
    (installPayload o fs).1.bin = fs.stagedBin ∧ (installPayload o fs).1.assets = fs.stagedAssets) ∧
  ((installPayload o fs).2 ≠ none →
    (installPayload o fs).1.bin = fs.bin ∧ (installPayload o fs).1.assets = fs.assets)

/-- The renames that roll back succeed wherever they are made. -/
structure RollbacksSucceed (o : Outcomes Name File) (fs : Files Name File) : Prop where
  bin : o.rollbackBin = none
  assets : o.rollbackAssets = none
  room : fs.assets ≠ none → (o.copyAcross.left.getD []).isEmpty = true

def BinaryStaged (o : Outcomes Name File) (fs : Files Name File) : Prop :=
  o.copyBin.isDone ∧ o.permissions = none ∧ (fs.bin ≠ none → o.keepBin = none)

def AssetsPlaced (o : Outcomes Name File) (fs : Files Name File) : Prop :=
  o.copyAssets.isDone ∧
    (fs.assets ≠ none → renameTree o.keepAssets (removeAll o.removeAssetsPrev fs.assetsPrev) = none) ∧
    (o.installAssets = none ∨ o.copyAcross.isDone)

/-- What an earlier attempt left of its copy of the assets is gone, or is overwritten. -/
def NothingSurvives (o : Outcomes Name File) (fs : Files Name File) : Prop :=
  ∀ entry ∈ (removeAll o.removeAssetsTmp fs.assetsTmp).getD [],
    entry.1 ∈ (fs.stagedAssets.getD []).map Prod.fst

structure Meets (o : Outcomes Name File) (fs : Files Name File) : Prop where
  /-- The rename that puts the binary in place fails. -/
  notInstalled : o.installBin ≠ none → fs.bin ≠ none ∨ fs.binPrev = none
  placed : o.installBin = none → AssetsPlaced o fs → NothingSurvives o fs
  notPlaced : o.installBin = none → ¬AssetsPlaced o fs → fs.bin = fs.stagedBin
  /-- There were no assets, and a copy of the new ones broke off. -/
  brokenOff : o.installBin = none → ¬AssetsPlaced o fs → o.copyAssets.isDone → fs.assets = none →
    o.copyAcross.left = none

/-! ## The binary -/

theorem installBinary_staged {o : Outcomes Name File} {fs : Files Name File} (h : BinaryStaged o fs)
    (hinstall : o.installBin = none) :
    ∃ binTmp binPrev, installBinary o fs =
      ({ fs with bin := fs.stagedBin, binTmp := binTmp, binPrev := binPrev }, none) := by
  obtain ⟨hcopy, hpermissions, hkeep⟩ := h
  cases hdone : o.copyBin with
  | failed message left => simp [hdone, Written.isDone] at hcopy
  | done =>
    cases hbin : fs.bin with
    | none => exact ⟨none, fs.binPrev, by simp [installBinary, hdone, hpermissions, hbin, hinstall]⟩
    | some file =>
      have hkept := hkeep (by simp [hbin])
      exact ⟨none, some file, by simp [installBinary, hdone, hpermissions, hbin, hinstall, hkept]⟩

theorem installBinary_notInstalled {o : Outcomes Name File} {fs : Files Name File} (h : BinaryStaged o fs)
    (hinstall : o.installBin ≠ none) (hroll : o.rollbackBin = none) :
    ∃ fs' message, installBinary o fs = (fs', some message) ∧ fs'.assets = fs.assets ∧
      fs'.bin = if fs.bin = none then fs.binPrev else fs.bin := by
  obtain ⟨hcopy, hpermissions, hkeep⟩ := h
  obtain ⟨message, hmessage⟩ := Option.ne_none_iff_exists'.mp hinstall
  cases hdone : o.copyBin with
  | failed message left => simp [hdone, Written.isDone] at hcopy
  | done =>
    cases hbin : fs.bin with
    | some file =>
      have hkept := hkeep (by simp [hbin])
      simp [installBinary, hdone, hpermissions, hbin, hmessage, hkept, hroll]
    | none =>
      cases hprev : fs.binPrev with
      | none => simp [installBinary, hdone, hpermissions, hbin, hmessage, hprev]
      | some leftover => simp [installBinary, hdone, hpermissions, hbin, hmessage, hprev, hroll]

theorem installBinary_notStaged {o : Outcomes Name File} {fs : Files Name File} (h : ¬BinaryStaged o fs) :
    ∃ fs' message, installBinary o fs = (fs', some message) ∧ fs'.bin = fs.bin ∧ fs'.assets = fs.assets := by
  cases hdone : o.copyBin with
  | failed message left => simp [installBinary, hdone]
  | done =>
    cases hpermissions : o.permissions with
    | some message => simp [installBinary, hdone, hpermissions]
    | none =>
      cases hbin : fs.bin with
      | none => exact absurd ⟨by simp [hdone, Written.isDone], hpermissions, by simp [hbin]⟩ h
      | some file =>
        cases hkeep : o.keepBin with
        | none => exact absurd ⟨by simp [hdone, Written.isDone], hpermissions, fun _ => hkeep⟩ h
        | some message => simp [installBinary, hdone, hpermissions, hbin, hkeep]

/-! ## The assets -/

variable [DecidableEq Name]

omit [DecidableEq Name] in
theorem isDone_iff {α : Type} (w : Written α) : w.isDone = true ↔ w = .done := by
  cases w <;> simp [Written.isDone]

theorem copyTree_none (source : Option (Tree Name File)) : copyTree source none = source := by
  cases source with
  | none => rfl
  | some tree => simp [copyTree, overlay]

theorem installAssets_placed {o : Outcomes Name File} {fs : Files Name File} (h : AssetsPlaced o fs) :
    ∃ fs', installAssets o fs = (fs', none) ∧ fs'.bin = fs.bin ∧
      fs'.assets = copyTree fs.stagedAssets (removeAll o.removeAssetsTmp fs.assetsTmp) := by
  obtain ⟨hcopy, hkeep, hplace⟩ := h
  rw [isDone_iff] at hcopy
  cases hassets : fs.assets with
  | none =>
    cases hinstall : o.installAssets with
    | none => simp [installAssets, hcopy, hassets, hinstall]
    | some message =>
      have hacross := (isDone_iff _).mp (hplace.resolve_left (by simp [hinstall]))
      simp [installAssets, hcopy, hassets, hinstall, hacross, copyTree_none]
  | some tree =>
    have hkept := hkeep (by simp [hassets])
    cases hinstall : o.installAssets with
    | none => simp [installAssets, hcopy, hassets, hkept, hinstall]
    | some message =>
      have hacross := (isDone_iff _).mp (hplace.resolve_left (by simp [hinstall]))
      simp [installAssets, hcopy, hassets, hkept, hinstall, hacross, copyTree_none]

theorem installAssets_notPlaced {o : Outcomes Name File} {fs : Files Name File} (h : ¬AssetsPlaced o fs)
    (hroll : RollbacksSucceed o fs) :
    ∃ fs' message, installAssets o fs = (fs', some message) ∧ fs'.bin = fs.bin ∧
      fs'.assets = if o.copyAssets.isDone ∧ fs.assets = none then o.copyAcross.left else fs.assets := by
  cases hcopy : o.copyAssets with
  | failed message left => simp [installAssets, hcopy, Written.isDone]
  | done =>
    cases hassets : fs.assets with
    | none =>
      cases hinstall : o.installAssets with
      | none => exact absurd ⟨by simp [hcopy, Written.isDone], by simp [hassets], .inl hinstall⟩ h
      | some message =>
        cases hacross : o.copyAcross with
        | done =>
          exact absurd ⟨by simp [hcopy, Written.isDone], by simp [hassets], .inr (by simp [hacross, Written.isDone])⟩ h
        | failed broken left =>
          simp [installAssets, hcopy, hassets, hinstall, hacross, Written.isDone, Written.left]
    | some tree =>
      cases hkeep : renameTree o.keepAssets (removeAll o.removeAssetsPrev fs.assetsPrev) with
      | some message => simp [installAssets, hcopy, hassets, hkeep]
      | none =>
        cases hinstall : o.installAssets with
        | none => exact absurd ⟨by simp [hcopy, Written.isDone], fun _ => hkeep, .inl hinstall⟩ h
        | some message =>
          cases hacross : o.copyAcross with
          | done =>
            exact absurd ⟨by simp [hcopy, Written.isDone], fun _ => hkeep,
              .inr (by simp [hacross, Written.isDone])⟩ h
          | failed broken left =>
            have hroom := hroll.room (by simp [hassets])
            rw [hacross] at hroom
            have hback : renameTree o.rollbackAssets left = none := by
              rw [hroll.assets]
              exact if_pos hroom
            simp [installAssets, hcopy, hassets, hkeep, hinstall, hacross, hback]

/-- The copy of the staged assets is the staged assets where nothing else survives in it. -/
theorem copyTree_eq_iff {o : Outcomes Name File} {fs : Files Name File} (hstaged : fs.stagedAssets ≠ none) :
    copyTree fs.stagedAssets (removeAll o.removeAssetsTmp fs.assetsTmp) = fs.stagedAssets ↔ NothingSurvives o fs := by
  obtain ⟨tree, htree⟩ := Option.ne_none_iff_exists'.mp hstaged
  unfold NothingSurvives
  rw [htree, copyTree, Option.map_some, Option.some.injEq, overlay, List.append_right_eq_self, List.filter_eq_nil_iff]
  simp

/-! ## Both -/

section Both

variable {o : Outcomes Name File} {fs : Files Name File}

theorem allOrNothing_notInstalled (hbin : fs.stagedBin ≠ none) (hassets : fs.stagedAssets ≠ none)
    (hstaged : BinaryStaged o fs) (hinstall : o.installBin ≠ none) (hroll : RollbacksSucceed o fs) :
    AllOrNothing o fs ↔ fs.bin ≠ none ∨ fs.binPrev = none := by
  obtain ⟨fs', message, hfail, hkeptAssets, hback⟩ := installBinary_notInstalled hstaged hinstall hroll.bin
  have hall : AllOrNothing o fs ↔ fs'.bin = fs.bin := by
    simp [AllOrNothing, installPayload, hbin, hassets, hfail, hkeptAssets]
  rw [hall, hback]
  by_cases hnone : fs.bin = none
  · simp [hnone]
  · simp [hnone]

theorem allOrNothing_placed (hbin : fs.stagedBin ≠ none) (hassets : fs.stagedAssets ≠ none)
    (hstaged : BinaryStaged o fs) (hinstall : o.installBin = none) (hplaced : AssetsPlaced o fs) :
    AllOrNothing o fs ↔ NothingSurvives o fs := by
  obtain ⟨binTmp, binPrev, hgoes⟩ := installBinary_staged hstaged hinstall
  have hbehind : AssetsPlaced o { fs with bin := fs.stagedBin, binTmp := binTmp, binPrev := binPrev } := hplaced
  obtain ⟨fs', hdone, hnewBin, hnewAssets⟩ := installAssets_placed hbehind
  rw [← copyTree_eq_iff hassets]
  simp [AllOrNothing, installPayload, hbin, hassets, hgoes, hdone, hnewBin, hnewAssets]

theorem allOrNothing_notPlaced (hbin : fs.stagedBin ≠ none) (hassets : fs.stagedAssets ≠ none)
    (hstaged : BinaryStaged o fs) (hinstall : o.installBin = none) (hplaced : ¬AssetsPlaced o fs)
    (hroll : RollbacksSucceed o fs) :
    AllOrNothing o fs ↔
      fs.bin = fs.stagedBin ∧ (o.copyAssets.isDone → fs.assets = none → o.copyAcross.left = none) := by
  obtain ⟨binTmp, binPrev, hgoes⟩ := installBinary_staged hstaged hinstall
  have hbehind : ¬AssetsPlaced o { fs with bin := fs.stagedBin, binTmp := binTmp, binPrev := binPrev } := hplaced
  obtain ⟨fs', message, hfail, hnewBin, hnewAssets⟩ :=
    installAssets_notPlaced hbehind ⟨hroll.bin, hroll.assets, hroll.room⟩
  have hall : AllOrNothing o fs ↔ fs.stagedBin = fs.bin ∧ fs'.assets = fs.assets := by
    simp [AllOrNothing, installPayload, hbin, hassets, hgoes, hfail, hnewBin]
  rw [hall, hnewAssets, eq_comm]
  refine and_congr_right fun _ => ?_
  by_cases hleft : o.copyAssets.isDone = true ∧ fs.assets = none
  · simp [hleft]
  · rw [if_neg hleft]
    refine iff_of_true rfl fun hcopy hnone => absurd ⟨hcopy, hnone⟩ hleft

theorem installPayload_allOrNothing_iff (o : Outcomes Name File) (fs : Files Name File)
    (hroll : RollbacksSucceed o fs) :
    AllOrNothing o fs ↔
      (fs.stagedBin ≠ none → fs.stagedAssets ≠ none → BinaryStaged o fs → Meets o fs) := by
  by_cases hmissing : fs.stagedBin = none ∨ fs.stagedAssets = none
  · refine iff_of_true (by simp [AllOrNothing, installPayload, hmissing]) ?_
    intro hbin hassets
    exact absurd hmissing (not_or.mpr ⟨hbin, hassets⟩)
  obtain ⟨hbin, hassets⟩ := not_or.mp hmissing
  by_cases hstaged : BinaryStaged o fs
  · have hmeets : (fs.stagedBin ≠ none → fs.stagedAssets ≠ none → BinaryStaged o fs → Meets o fs) ↔ Meets o fs :=
      ⟨fun h => h hbin hassets hstaged, fun h _ _ _ => h⟩
    rw [hmeets]
    by_cases hinstall : o.installBin = none
    · by_cases hplaced : AssetsPlaced o fs
      · rw [allOrNothing_placed hbin hassets hstaged hinstall hplaced]
        exact ⟨fun h => ⟨absurd hinstall, fun _ _ => h, fun _ hnot => absurd hplaced hnot,
          fun _ hnot => absurd hplaced hnot⟩, fun h => h.placed hinstall hplaced⟩
      · rw [allOrNothing_notPlaced hbin hassets hstaged hinstall hplaced hroll]
        exact ⟨fun h => ⟨absurd hinstall, fun _ hyes => absurd hyes hplaced, fun _ _ => h.1, fun _ _ => h.2⟩,
          fun h => ⟨h.notPlaced hinstall hplaced, h.brokenOff hinstall hplaced⟩⟩
    · rw [allOrNothing_notInstalled hbin hassets hstaged hinstall hroll]
      exact ⟨fun h => ⟨fun _ => h, fun hnone => absurd hnone hinstall, fun hnone => absurd hnone hinstall,
        fun hnone => absurd hnone hinstall⟩, fun h => h.notInstalled hinstall⟩
  · obtain ⟨fs', message, hfail, hkeptBin, hkeptAssets⟩ := installBinary_notStaged hstaged
    refine iff_of_true ?_ fun _ _ h => absurd h hstaged
    simp [AllOrNothing, installPayload, hmissing, hfail, hkeptBin, hkeptAssets]

end Both

end Install

/-- Every call succeeds but the copy of the assets, for which there is no room. -/
def noRoom : Outcomes ℕ ℕ :=
  ⟨true, .done, none, true, true, none, none, none, none, .failed "No space left on device" (some []), none, none,
    none, none, .done, none, none⟩

/-- Release 1 is installed and release 2 is staged. -/
def upgrade : Files ℕ ℕ := ⟨some 2, some [(0, 2)], some 1, none, none, some [(0, 1)], none, none⟩

theorem installPayload_allOrNothing_noRoom : RollbacksSucceed noRoom upgrade ∧ ¬Meets noRoom upgrade :=
  have hroll : RollbacksSucceed noRoom upgrade := ⟨rfl, rfl, fun _ => rfl⟩
  have hiff := installPayload_allOrNothing_iff noRoom upgrade hroll
  ⟨hroll, fun h => absurd ((hiff.mpr fun _ _ _ => h).2 (by decide)).1 (by decide)⟩

/-- The copy of the assets fails and the installation with it, but the new binary is live. -/
theorem noRoom_not_allOrNothing :
    RollbacksSucceed noRoom upgrade ∧ ¬AllOrNothing noRoom upgrade ∧
      (installPayload noRoom upgrade).2 = some "Failed to stage assets: No space left on device" ∧
      (installPayload noRoom upgrade).1.bin = some 2 ∧ (installPayload noRoom upgrade).1.assets = some [(0, 1)] := by
  refine ⟨⟨rfl, rfl, fun _ => rfl⟩, fun h => ?_, by decide, by decide, by decide⟩
  exact absurd (h.2 (by decide)).1 (by decide)

end Sunshine.Update
