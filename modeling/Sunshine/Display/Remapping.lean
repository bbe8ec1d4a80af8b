import Sunshine.Display.Parsing
import Sunshine.Lib.FirstMatch

/-! `parse_configuration`: the display mode of a session and its remapping.

The options give a mode; the entries of the remapping list are then gone through until one applies or one is malformed.
`parseConfiguration_remaps` says which entry that is and what becomes of the mode. -/
namespace Sunshine.Display
open FirstMatch
set_option autoImplicit false

/-! ## Configuration and session -/

inductive ConfigOption where
  | disabled
  | verifyOnly
  | ensureActive
  | ensurePrimary
  | ensureOnlyDisplay
  deriving DecidableEq

inductive ModeOption where
  | disabled
  | automatic
  | manual
  deriving DecidableEq

inductive HdrOption where
  | disabled
  | automatic
  deriving DecidableEq

inductive DevicePreparation where
  | verifyOnly
  | ensureActive
  | ensurePrimary
  | ensureOnlyDisplay
  deriving DecidableEq

inductive HdrState where
  | disabled
  | enabled
  deriving DecidableEq

structure ModeRemappingEntry where
  requestedResolution : Text
  requestedFps : Text
  finalResolution : Text
  finalRefreshRate : Text

structure ModeRemapping where
  mixed : List ModeRemappingEntry
  resolutionOnly : List ModeRemappingEntry
  refreshRateOnly : List ModeRemappingEntry

structure VideoConfig where
  outputName : Text
  configurationOption : ConfigOption
  resolutionOption : ModeOption
  manualResolution : Text
  refreshRateOption : ModeOption
  manualRefreshRate : Text
  hdrOption : HdrOption
  modeRemapping : ModeRemapping

structure LaunchSession where
  width : ℤ
  height : ℤ
  fps : ℤ
  enableSops : Bool
  enableHdr : Bool

structure SingleDisplayConfiguration where
  deviceId : Text
  devicePrep : DevicePreparation
  resolution : Option Resolution
  refreshRate : Option Rational
  hdrState : Option HdrState

inductive Parsed where
  | failedToParse
  | configurationDisabled
  | configuration (config : SingleDisplayConfiguration)

/-! ## The options -/

def parseDevicePrepOption (config : VideoConfig) : Option DevicePreparation :=
  match config.configurationOption with
  | .verifyOnly => some .verifyOnly
  | .ensureActive => some .ensureActive
  | .ensurePrimary => some .ensurePrimary
  | .ensureOnlyDisplay => some .ensureOnlyDisplay
  | .disabled => none

/-- What `m_resolution` becomes; none where the option fails. -/
def parseResolutionOption (config : VideoConfig) (session : LaunchSession) : Option (Option Resolution) :=
  match config.resolutionOption with
  | .automatic =>
    if session.enableSops = false then some none
    else if 0 ≤ session.width ∧ 0 ≤ session.height then some (some ⟨session.width.toNat, session.height.toNat⟩)
    else none
  | .manual =>
    if session.enableSops = false then some none
    else
      match parseResolutionString config.manualResolution with
      | some (some resolution) => some (some resolution)
      | _ => none
  | .disabled => some none

def parseRefreshRateOption (cast : UIntCast) (config : VideoConfig) (session : LaunchSession) :
    Option (Option Rational) :=
  match config.refreshRateOption with
  | .automatic => if 0 ≤ session.fps then some (some ⟨session.fps.toNat, 1⟩) else none
  | .manual =>
    match parseRefreshRateString cast true config.manualRefreshRate with
    | some (some rate) => some (some rate)
    | _ => none
  | .disabled => some none

def parseHdrOption (config : VideoConfig) (session : LaunchSession) : Option HdrState :=
  match config.hdrOption with
  | .automatic => some (if session.enableHdr then .enabled else .disabled)
  | .disabled => none

/-! ## Remapping -/

inductive RemappingType where
  | mixed
  | resolutionOnly
  | refreshRateOnly
  deriving DecidableEq

def determineRemappingType (config : VideoConfig) : Option RemappingType :=
  let autoResolution := config.resolutionOption = .automatic
  let autoRefreshRate := config.refreshRateOption = .automatic
  if autoResolution ∧ autoRefreshRate then some .mixed
  else if autoResolution then some .resolutionOnly
  else if autoRefreshRate then some .refreshRateOnly
  else none

structure ParsedRemappingEntry where
  requestedResolution : Option Resolution := none
  requestedFps : Option Rational := none
  finalResolution : Option Resolution := none
  finalRefreshRate : Option Rational := none

def isResolutionMapped (type : RemappingType) : Bool := type = .resolutionOnly ∨ type = .mixed

def isFpsMapped (type : RemappingType) : Bool := type = .refreshRateOnly ∨ type = .mixed

def parseRemappingEntry (cast : UIntCast) (entry : ModeRemappingEntry) (type : RemappingType) :
    Option ParsedRemappingEntry := do
  let result : ParsedRemappingEntry := {}
  let result ←
    if isResolutionMapped type then do
      let requested ← parseResolutionString entry.requestedResolution
      let final ← parseResolutionString entry.finalResolution
      pure { result with requestedResolution := requested, finalResolution := final }
    else pure result
  if isFpsMapped type then do
    let requested ← parseRefreshRateString cast false entry.requestedFps
    let final ← parseRefreshRateString cast true entry.finalRefreshRate
    pure { result with requestedFps := requested, finalRefreshRate := final }
  else pure result

/-- `m_resolution` and `m_refresh_rate`. -/
structure DisplayMode where
  resolution : Option Resolution
  refreshRate : Option Rational
  deriving DecidableEq

/-- Whether the loop goes on to the next entry. -/
def skipped (session : LaunchSession) (mode : DisplayMode) (parsed : ParsedRemappingEntry) : Bool :=
  if session.enableSops = false ∧ (parsed.requestedResolution.isSome ∨ parsed.finalResolution.isSome) then true
  else if parsed.requestedResolution.isSome ∧ parsed.requestedResolution ≠ mode.resolution then true
  else if parsed.requestedFps.isSome ∧ parsed.requestedFps ≠ mode.refreshRate then true
  else false

def remapped (mode : DisplayMode) (parsed : ParsedRemappingEntry) : DisplayMode where
  resolution := if parsed.finalResolution.isSome then parsed.finalResolution else mode.resolution
  refreshRate := if parsed.finalRefreshRate.isSome then parsed.finalRefreshRate else mode.refreshRate

def remapLoop (cast : UIntCast) (type : RemappingType) (session : LaunchSession) (mode : DisplayMode) :
    List ModeRemappingEntry → Option DisplayMode
  | [] => some mode
  | entry :: rest =>
    match parseRemappingEntry cast entry type with
    | none => none
    | some parsed =>
      if parsed.finalResolution.isNone ∧ parsed.finalRefreshRate.isNone then none
      else if skipped session mode parsed then remapLoop cast type session mode rest
      else some (remapped mode parsed)

def remappingList (config : VideoConfig) : RemappingType → List ModeRemappingEntry
  | .resolutionOnly => config.modeRemapping.resolutionOnly
  | .refreshRateOnly => config.modeRemapping.refreshRateOnly
  | .mixed => config.modeRemapping.mixed

/-- The mode after the remapping; none where it fails. -/
def remapDisplayModeIfNeeded (cast : UIntCast) (config : VideoConfig) (session : LaunchSession) (mode : DisplayMode) :
    Option DisplayMode :=
  match determineRemappingType config with
  | none => some mode
  | some type => remapLoop cast type session mode (remappingList config type)

def parseConfiguration (cast : UIntCast) (config : VideoConfig) (session : LaunchSession) : Parsed :=
  match parseDevicePrepOption config with
  | none => .configurationDisabled
  | some devicePrep =>
    let hdrState := parseHdrOption config session
    match parseResolutionOption config session with
    | none => .failedToParse
    | some resolution =>
      match parseRefreshRateOption cast config session with
      | none => .failedToParse
      | some refreshRate =>
        match remapDisplayModeIfNeeded cast config session ⟨resolution, refreshRate⟩ with
        | none => .failedToParse
        | some mode =>
          .configuration ⟨config.outputName, devicePrep, mode.resolution, mode.refreshRate, hdrState⟩

/-! ## What the remapping is to do -/

/-- A final value is given. -/
def ParsedRemappingEntry.Given (parsed : ParsedRemappingEntry) : Prop :=
  parsed.finalResolution ≠ none ∨ parsed.finalRefreshRate ≠ none

/-- Without the permission to optimise the game's settings, an entry with a resolution is left out. -/
def ParsedRemappingEntry.Excluded (session : LaunchSession) (parsed : ParsedRemappingEntry) : Prop :=
  session.enableSops = false ∧ (parsed.requestedResolution ≠ none ∨ parsed.finalResolution ≠ none)

/-- The requested values that are given are those of the mode. -/
def ParsedRemappingEntry.Matches (mode : DisplayMode) (parsed : ParsedRemappingEntry) : Prop :=
  (∀ resolution ∈ parsed.requestedResolution, mode.resolution = some resolution) ∧
    ∀ rate ∈ parsed.requestedFps, mode.refreshRate = some rate

/-- The used fields of the entry parse, and a final value is given. -/
def WellFormed (cast : UIntCast) (type : RemappingType) (entry : ModeRemappingEntry) : Prop :=
  ∃ parsed, parseRemappingEntry cast entry type = some parsed ∧ parsed.Given

def Applies (cast : UIntCast) (type : RemappingType) (session : LaunchSession) (mode : DisplayMode)
    (entry : ModeRemappingEntry) : Prop :=
  ∃ parsed, parseRemappingEntry cast entry type = some parsed ∧ parsed.Given ∧ parsed.Matches mode ∧
    ¬parsed.Excluded session

/-- The final values that are given replace those of the mode. -/
structure Overwritten (mode : DisplayMode) (parsed : ParsedRemappingEntry) (result : DisplayMode) : Prop where
  resolution : ∀ resolution ∈ parsed.finalResolution, result.resolution = some resolution
  resolutionKept : parsed.finalResolution = none → result.resolution = mode.resolution
  refreshRate : ∀ rate ∈ parsed.finalRefreshRate, result.refreshRate = some rate
  refreshRateKept : parsed.finalRefreshRate = none → result.refreshRate = mode.refreshRate

/-- The mode that the options give. -/
def Unmapped (cast : UIntCast) (config : VideoConfig) (session : LaunchSession) (mode : DisplayMode) : Prop :=
  parseResolutionOption config session = some mode.resolution ∧
    parseRefreshRateOption cast config session = some mode.refreshRate

/-- How the entries are read; without an automatic option there are none. -/
def remappingType (config : VideoConfig) : RemappingType := (determineRemappingType config).getD .mixed

def remappingEntries (config : VideoConfig) : List ModeRemappingEntry :=
  ((determineRemappingType config).map (remappingList config)).getD []

/-- The first entry that applies overwrites the mode; without one it stays. -/
def RemapsTo (cast : UIntCast) (config : VideoConfig) (session : LaunchSession) (mode result : DisplayMode) : Prop :=
  (∃ entry parsed, FirstIs (Applies cast (remappingType config) session mode) (remappingEntries config) entry ∧
      parseRemappingEntry cast entry (remappingType config) = some parsed ∧ Overwritten mode parsed result) ∨
    (∀ entry ∈ remappingEntries config, ¬Applies cast (remappingType config) session mode entry) ∧ result = mode

/-! ## The loop -/

variable {cast : UIntCast} {type : RemappingType} {config : VideoConfig} {session : LaunchSession} {mode : DisplayMode}
  {parsed : ParsedRemappingEntry} {entry : ModeRemappingEntry}

theorem remapped_overwritten (mode : DisplayMode) (parsed : ParsedRemappingEntry) :
    Overwritten mode parsed (remapped mode parsed) where
  resolution resolution hfinal := by
    rw [remapped, hfinal]
    rfl
  resolutionKept hnone := by
    rw [remapped, hnone]
    rfl
  refreshRate rate hfinal := by
    rw [remapped, hfinal]
    rfl
  refreshRateKept hnone := by
    rw [remapped, hnone]
    rfl

theorem given_iff : parsed.Given ↔ ¬(parsed.finalResolution.isNone ∧ parsed.finalRefreshRate.isNone) := by
  unfold ParsedRemappingEntry.Given
  rw [Option.isNone_iff_eq_none, Option.isNone_iff_eq_none, not_and_or]

theorem skipped_iff : skipped session mode parsed = true ↔ ¬(parsed.Matches mode ∧ ¬parsed.Excluded session) := by
  unfold skipped ParsedRemappingEntry.Matches ParsedRemappingEntry.Excluded
  have hsome {α : Type} (o : Option α) : o.isSome = true ↔ o ≠ none := Option.isSome_iff_ne_none
  have hrequest {α : Type} [DecidableEq α] (o mode : Option α) :
      (o.isSome = true ∧ o ≠ mode) ↔ ¬∀ a ∈ o, mode = some a := by
    cases o with
    | none => simp
    | some a => simp [eq_comm]
  by_cases hexcluded : session.enableSops = false ∧
      (parsed.requestedResolution ≠ none ∨ parsed.finalResolution ≠ none)
  · rw [if_pos (by rw [hsome, hsome]; exact hexcluded)]
    exact iff_of_true rfl fun hboth => hboth.2 hexcluded
  · rw [if_neg (by rw [hsome, hsome]; exact hexcluded)]
    by_cases hresolution : parsed.requestedResolution.isSome ∧ parsed.requestedResolution ≠ mode.resolution
    · rw [if_pos hresolution]
      exact iff_of_true rfl fun hboth => (hrequest _ _).mp hresolution hboth.1.1
    · rw [if_neg hresolution]
      rw [hrequest, not_not] at hresolution
      by_cases hfps : parsed.requestedFps.isSome ∧ parsed.requestedFps ≠ mode.refreshRate
      · rw [if_pos hfps]
        exact iff_of_true rfl fun hboth => (hrequest _ _).mp hfps hboth.1.2
      · rw [if_neg hfps]
        rw [hrequest, not_not] at hfps
        exact iff_of_false Bool.false_ne_true fun hnot => hnot ⟨⟨hresolution, hfps⟩, hexcluded⟩

/-- The loop fails at a malformed entry that nothing in front of it keeps it from. -/
theorem remapLoop_eq_none_iff (entries : List ModeRemappingEntry) :
    remapLoop cast type session mode entries = none ↔
      ¬UpToFirst (Applies cast type session mode) (WellFormed cast type) entries := by
  induction entries with
  | nil => exact iff_of_false (fun hnone => nomatch hnone) (not_not.mpr upToFirst_nil)
  | cons entry rest ih =>
    rw [upToFirst_cons, remapLoop]
    cases hparse : parseRemappingEntry cast entry type with
    | none =>
      refine iff_of_true rfl fun hboth => ?_
      obtain ⟨parsed, hparsed, -⟩ := hboth.1
      rw [hparse] at hparsed
      cases hparsed
    | some parsed =>
      have hsame {other : ParsedRemappingEntry} (hother : parseRemappingEntry cast entry type = some other) :
          other = parsed := Option.some.inj (hother.symm.trans hparse)
      by_cases hgiven : parsed.Given
      · have hformed : WellFormed cast type entry := ⟨parsed, hparse, hgiven⟩
        dsimp only
        rw [if_neg (given_iff.mp hgiven)]
        by_cases hskipped : skipped session mode parsed = true
        · have hnot : ¬Applies cast type session mode entry := by
            rintro ⟨other, hother, -, happlies⟩
            rw [hsame hother] at happlies
            exact skipped_iff.mp hskipped happlies
          rw [if_pos hskipped, ih]
          exact not_congr ⟨fun hrest => ⟨hformed, fun _ => hrest⟩, fun hboth => hboth.2 hnot⟩
        · have happlies : Applies cast type session mode entry :=
            ⟨parsed, hparse, hgiven, not_not.mp fun hnot => hskipped (skipped_iff.mpr hnot)⟩
          rw [if_neg hskipped]
          exact iff_of_false nofun (not_not.mpr ⟨hformed, fun hnot => absurd happlies hnot⟩)
      · dsimp only
        rw [if_pos (not_not.mp fun hnot => hgiven (given_iff.mpr hnot))]
        refine iff_of_true rfl fun hboth => ?_
        obtain ⟨other, hother, hgiven'⟩ := hboth.1
        rw [hsame hother] at hgiven'
        exact hgiven hgiven'

theorem remapLoop_some {entries : List ModeRemappingEntry} {result : DisplayMode}
    (h : remapLoop cast type session mode entries = some result) :
    (∃ entry parsed, FirstIs (Applies cast type session mode) entries entry ∧
        parseRemappingEntry cast entry type = some parsed ∧ Overwritten mode parsed result) ∨
      (∀ entry ∈ entries, ¬Applies cast type session mode entry) ∧ result = mode := by
  induction entries with
  | nil => exact .inr ⟨nofun, (Option.some.inj h).symm⟩
  | cons entry rest ih =>
    rw [remapLoop] at h
    cases hparse : parseRemappingEntry cast entry type with
    | none =>
      rw [hparse] at h
      cases h
    | some parsed =>
      rw [hparse] at h
      dsimp only at h
      by_cases hgiven : parsed.Given
      · rw [if_neg (given_iff.mp hgiven)] at h
        by_cases hskipped : skipped session mode parsed = true
        · have hnot : ¬Applies cast type session mode entry := by
            rintro ⟨other, hother, -, happlies⟩
            rw [Option.some.inj (hother.symm.trans hparse)] at happlies
            exact skipped_iff.mp hskipped happlies
          rw [if_pos hskipped] at h
          cases ih h with
          | inl hfirst =>
            obtain ⟨first, parsed', hfirst, hparse', hover⟩ := hfirst
            exact .inl ⟨first, parsed', hfirst.cons hnot, hparse', hover⟩
          | inr hnone => exact .inr ⟨List.forall_mem_cons.mpr ⟨hnot, hnone.1⟩, hnone.2⟩
        · have happlies : Applies cast type session mode entry :=
            ⟨parsed, hparse, hgiven, not_not.mp fun hnot => hskipped (skipped_iff.mpr hnot)⟩
          rw [if_neg hskipped] at h
          rw [← Option.some.inj h]
          exact .inl ⟨entry, parsed, firstIs_cons_of happlies, hparse, remapped_overwritten mode parsed⟩
      · rw [if_pos (not_not.mp fun hnot => hgiven (given_iff.mpr hnot))] at h
        cases h

theorem remapDisplayModeIfNeeded_eq (cast : UIntCast) (config : VideoConfig) (session : LaunchSession)
    (mode : DisplayMode) : remapDisplayModeIfNeeded cast config session mode =
      remapLoop cast (remappingType config) session mode (remappingEntries config) := by
  unfold remapDisplayModeIfNeeded remappingType remappingEntries
  cases determineRemappingType config with
  | none => rfl
  | some type => rfl

/-! ## The configuration -/

theorem parseDevicePrepOption_eq_none_iff :
    parseDevicePrepOption config = none ↔ config.configurationOption = .disabled := by
  unfold parseDevicePrepOption
  cases config.configurationOption <;> simp

/-- A configuration is what the remapping makes of the mode the options give. -/
theorem parseConfiguration_cases (cast : UIntCast) (config : VideoConfig) (session : LaunchSession) :
    (∃ mode result made, config.configurationOption ≠ .disabled ∧ Unmapped cast config session mode ∧
        remapDisplayModeIfNeeded cast config session mode = some result ∧
        parseConfiguration cast config session = .configuration made ∧
        result = ⟨made.resolution, made.refreshRate⟩) ∨
      (parseConfiguration cast config session = .failedToParse ∨
          parseConfiguration cast config session = .configurationDisabled) ∧
        (config.configurationOption ≠ .disabled → ∀ mode, Unmapped cast config session mode →
          remapDisplayModeIfNeeded cast config session mode = none) := by
  unfold parseConfiguration
  cases hprep : parseDevicePrepOption config with
  | none => exact .inr ⟨.inr rfl, fun hon => absurd (parseDevicePrepOption_eq_none_iff.mp hprep) hon⟩
  | some devicePrep =>
    have hon : config.configurationOption ≠ .disabled := fun hoff => by
      rw [parseDevicePrepOption_eq_none_iff.mpr hoff] at hprep
      cases hprep
    cases hresolution : parseResolutionOption config session with
    | none =>
      refine .inr ⟨.inl rfl, fun _ mode hunmapped => ?_⟩
      have hsome := hunmapped.1
      rw [hresolution] at hsome
      cases hsome
    | some resolution =>
      cases hrate : parseRefreshRateOption cast config session with
      | none =>
        refine .inr ⟨.inl rfl, fun _ mode hunmapped => ?_⟩
        have hsome := hunmapped.2
        rw [hrate] at hsome
        cases hsome
      | some refreshRate =>
        have hunmapped : Unmapped cast config session ⟨resolution, refreshRate⟩ := ⟨hresolution, hrate⟩
        dsimp only
        cases hremapped : remapDisplayModeIfNeeded cast config session ⟨resolution, refreshRate⟩ with
        | none =>
          refine .inr ⟨.inl rfl, fun _ mode hmode => ?_⟩
          have hsame : mode = ⟨resolution, refreshRate⟩ := by
            cases mode
            exact congrArg₂ DisplayMode.mk (Option.some.inj (hmode.1.symm.trans hresolution))
              (Option.some.inj (hmode.2.symm.trans hrate))
          rw [hsame]
          exact hremapped
        | some result => exact .inl ⟨_, result, _, hon, hunmapped, hremapped, rfl, rfl⟩

/-- The configuration is made if the options give a mode and no entry up to the first that applies is malformed; its
mode is the one this entry makes of it. Otherwise there is no mode at all. -/
theorem parseConfiguration_remaps (cast : UIntCast) (config : VideoConfig) (session : LaunchSession) :
    ((∃ made, parseConfiguration cast config session = .configuration made) ↔
      config.configurationOption ≠ .disabled ∧ ∃ mode, Unmapped cast config session mode ∧
        UpToFirst (Applies cast (remappingType config) session mode) (WellFormed cast (remappingType config))
          (remappingEntries config)) ∧
    (∀ made, parseConfiguration cast config session = .configuration made →
      ∃ mode, Unmapped cast config session mode ∧
        RemapsTo cast config session mode ⟨made.resolution, made.refreshRate⟩) ∧
    ((¬∃ made, parseConfiguration cast config session = .configuration made) →
      parseConfiguration cast config session = .failedToParse ∨
        parseConfiguration cast config session = .configurationDisabled) := by
  rcases parseConfiguration_cases cast config session with
    ⟨mode, result, made, hon, hunmapped, hremapped, hmade, hresult⟩ | ⟨hfailed, hnone⟩
  · rw [remapDisplayModeIfNeeded_eq] at hremapped
    refine ⟨iff_of_true ⟨made, hmade⟩ ⟨hon, mode, hunmapped, ?_⟩, fun made' hmade' => ⟨mode, hunmapped, ?_⟩,
      fun hnot => absurd ⟨made, hmade⟩ hnot⟩
    · by_contra hmalformed
      rw [(remapLoop_eq_none_iff _).mpr hmalformed] at hremapped
      cases hremapped
    · rw [hmade] at hmade'
      obtain rfl : made = made' := Parsed.configuration.inj hmade'
      rw [← hresult]
      exact remapLoop_some hremapped
  · have hnot (made : SingleDisplayConfiguration) : parseConfiguration cast config session ≠ .configuration made := by
      intro hmade
      rw [hmade] at hfailed
      exact hfailed.elim nofun nofun
    refine ⟨iff_of_false (fun hmade => hmade.elim hnot) ?_, fun made hmade => absurd hmade (hnot made), fun _ => hfailed⟩
    rintro ⟨hon, mode, hunmapped, hformed⟩
    have hremapped := hnone hon mode hunmapped
    rw [remapDisplayModeIfNeeded_eq, remapLoop_eq_none_iff] at hremapped
    exact hremapped hformed

/-- The refresh rate is the session's, and there is nothing to remap. -/
def automaticRate : VideoConfig where
  outputName := []
  configurationOption := .verifyOnly
  resolutionOption := .disabled
  manualResolution := []
  refreshRateOption := .automatic
  manualRefreshRate := []
  hdrOption := .disabled
  modeRemapping := ⟨[], [], []⟩

/-- With a negative refresh rate the configuration fails although no entry is malformed. -/
theorem parseConfiguration_negativeRate :
    (∀ mode, UpToFirst (Applies truncation (remappingType automaticRate) ⟨1920, 1080, -1, true, false⟩ mode)
        (WellFormed truncation (remappingType automaticRate)) (remappingEntries automaticRate)) ∧
      ¬∃ made, parseConfiguration truncation automaticRate ⟨1920, 1080, -1, true, false⟩ = .configuration made := by
  refine ⟨fun mode => upToFirst_nil, ?_⟩
  rintro ⟨made, hmade⟩
  cases hmade

end Sunshine.Display
