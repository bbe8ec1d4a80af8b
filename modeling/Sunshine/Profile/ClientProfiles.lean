import Sunshine.Lib.Transitions
import Mathlib.Data.Int.Notation

/-! Per-client profiles: `apply` overrides live configuration values and keeps what they were, `reset` puts
it back, and a hot reload writes the same values. `Meets` is what a call must find for the values to be
the configuration's own after every reset (`resets_restore`). -/
namespace Sunshine.Profiles
open Transitions
set_option autoImplicit false

abbrev Text := List Char

/-! ## `client_profiles` -/

/-- The configuration values a profile overrides. -/
structure Globals where
  maxBitrate : ℤ
  hevcMode : ℤ
  av1Mode : ℤ
  latencyMode : Text
  deriving DecidableEq

structure Profile where
  maxBitrate : ℤ
  hevcMode : ℤ
  av1Mode : ℤ
  latencyMode : Text
  deriving DecidableEq

def bitrateMaxKbps : ℤ := 1000000

def safe : Text := "safe".toList

def aggressive : Text := "aggressive".toList

/-- The valid fields of a profile are written, the others left. -/
def override (p : Profile) (config : Globals) : Globals where
  maxBitrate := if 0 < p.maxBitrate ∧ p.maxBitrate ≤ bitrateMaxKbps then p.maxBitrate
    else config.maxBitrate
  hevcMode := if 0 < p.hevcMode ∧ p.hevcMode ≤ 3 then p.hevcMode else config.hevcMode
  av1Mode := if 0 < p.av1Mode ∧ p.av1Mode ≤ 3 then p.av1Mode else config.av1Mode
  latencyMode := if p.latencyMode = safe ∨ p.latencyMode = aggressive then p.latencyMode
    else config.latencyMode

/-- The live values, and the undo record while it is active. -/
structure Live where
  config : Globals
  undo : Option Globals
  deriving DecidableEq

section Calls

variable (profiles : Text → Option Profile)

def find (clientName : Text) : Option Profile :=
  if clientName = [] then none else profiles clientName

def apply (clientName : Text) (live : Live) : Live :=
  match find profiles clientName with
  | none => live
  | some p => ⟨override p live.config, some live.config⟩

def reset (live : Live) : Live :=
  match live.undo with
  | none => live
  | some undo => ⟨undo, none⟩

/-- `string_restricted_f` of `latency_mode`, the one of these keys that is read again; the text is empty
where the file has no such key. -/
def reloadLatency (temp : Text) (config : Globals) : Globals :=
  if temp = safe ∨ temp = aggressive then { config with latencyMode := temp } else config

def reload (temp : Text) (live : Live) : Live := { live with config := reloadLatency temp live.config }

/-- The overrides of `p` are in effect. -/
def Holds (p : Profile) (config : Globals) : Prop := override p config = config

instance (p : Profile) (config : Globals) : Decidable (Holds p config) :=
  inferInstanceAs (Decidable (_ = _))

theorem override_holds (p : Profile) (config : Globals) : Holds p (override p config) := by
  unfold Holds override
  simp only [Globals.mk.injEq]
  refine ⟨?_, ?_, ?_, ?_⟩ <;> split_ifs <;> rfl

/-! ## Runs of the host -/

/-- `base` is the configuration in force: what the file says, with all values reloaded since. -/
structure Host where
  live : Live
  base : Globals
  sessions : List (ℕ × Text)
  deriving DecidableEq

inductive Call where
  | apply (clientName : Text)
  | reset
  | start (session : ℕ) (clientName : Text)
  | join (session : ℕ)
  | reload (temp : Text)
  deriving DecidableEq

def next (s : Host) : Call → Host
  | .apply clientName => { s with live := apply profiles clientName s.live }
  | .reset => { s with live := reset s.live }
  | .start session clientName => { s with sessions := (session, clientName) :: s.sessions }
  | .join session => { s with
      live := reset s.live
      sessions := s.sessions.filter fun other => other.1 ≠ session }
  | .reload temp => { s with live := reload temp s.live, base := reloadLatency temp s.base }

/-- The profile of another live session, if it was in effect, still is. -/
def KeepsOthers (s : Host) (session : ℕ) : Prop :=
  ∀ other ∈ s.sessions, other.1 ≠ session → ∀ p, find profiles other.2 = some p →
    Holds p s.live.config → Holds p (next profiles s (.join session)).live.config

/-- What a call must leave behind. -/
def Restores (s : Host) : Call → Prop
  | .reset => (next profiles s .reset).live.config = s.base
  | .join session => (next profiles s (.join session)).live.config = s.base ∧ KeepsOthers profiles s session
  | _ => True

/-- What a call must find: no profile is applied over another one's values, no other value is reloaded
under a profile, and no session ends beside one whose profile is in effect. -/
def Meets (s : Host) : Call → Prop
  | .apply clientName => find profiles clientName = none ∨ s.live.undo = none ∨ s.live.config = s.base
  | .reload temp => s.live.undo = none ∨ reloadLatency temp s.base = s.base
  | .join session => s.live.undo = none ∨ ∀ other ∈ s.sessions, other.1 ≠ session → ∀ p,
      find profiles other.2 = some p → Holds p s.live.config → Holds p s.base
  | _ => True

/-- The undo record holds the configuration in force; without one the live values do. -/
def Inv (s : Host) : Prop :=
  match s.live.undo with
  | none => s.live.config = s.base
  | some undo => undo = s.base

variable {profiles}

theorem Inv.reset {s : Host} (h : Inv s) : reset s.live = ⟨s.base, none⟩ := by
  obtain ⟨⟨config, undo⟩, base, sessions⟩ := s
  cases undo with
  | none => exact congrArg (Live.mk · none) h
  | some undo => exact congrArg (Live.mk · none) h

theorem apply_none {clientName : Text} (live : Live) (h : find profiles clientName = none) :
    apply profiles clientName live = live := by
  unfold apply
  rw [h]

theorem apply_some {clientName : Text} {p : Profile} (live : Live)
    (h : find profiles clientName = some p) :
    apply profiles clientName live = ⟨override p live.config, some live.config⟩ := by
  unfold apply
  rw [h]

theorem inv_apply_iff {s : Host} (h : Inv s) (clientName : Text) :
    Inv (next profiles s (.apply clientName)) ↔ Meets profiles s (.apply clientName) := by
  change Inv { s with live := apply profiles clientName s.live } ↔
    find profiles clientName = none ∨ s.live.undo = none ∨ s.live.config = s.base
  cases hfind : find profiles clientName with
  | none =>
    rw [apply_none s.live hfind]
    exact ⟨fun _ => .inl rfl, fun _ => h⟩
  | some p =>
    rw [apply_some s.live hfind]
    -- the new undo record is what was live
    change s.live.config = s.base ↔ _
    refine ⟨fun hbase => .inr (.inr hbase), fun hmeets => ?_⟩
    rcases hmeets with hnone | hundo | hbase
    · cases hnone
    · unfold Inv at h
      rwa [hundo] at h
    · exact hbase

theorem inv_reload_iff {s : Host} (h : Inv s) (temp : Text) :
    Inv (next profiles s (.reload temp)) ↔ Meets profiles s (.reload temp) := by
  obtain ⟨⟨config, undo⟩, base, sessions⟩ := s
  cases undo with
  | none =>
    refine ⟨fun _ => .inl rfl, fun _ => ?_⟩
    exact congrArg (reloadLatency temp) h
  | some undo =>
    obtain rfl : undo = base := h
    change undo = reloadLatency temp undo ↔ some undo = none ∨ reloadLatency temp undo = undo
    exact ⟨fun hsame => .inr hsame.symm, fun hmeets => (hmeets.resolve_left nofun).symm⟩

theorem keepsOthers_iff {s : Host} (h : Inv s) (session : ℕ) :
    KeepsOthers profiles s session ↔ Meets profiles s (.join session) := by
  unfold KeepsOthers Meets next
  simp only [h.reset]
  cases hundo : s.live.undo with
  | none =>
    have hbase : s.live.config = s.base := by
      unfold Inv at h
      rwa [hundo] at h
    refine ⟨fun _ => .inl rfl, fun _ other _ _ p _ hholds => ?_⟩
    rwa [← hbase]
  | some undo => exact ⟨.inr, fun hmeets => hmeets.resolve_left nofun⟩

/-- For one call: it finds what it must exactly when it leaves what it must. -/
theorem meets_iff {s : Host} (h : Inv s) (call : Call) :
    Inv (next profiles s call) ∧ Restores profiles s call ↔ Meets profiles s call := by
  cases call with
  | apply clientName => exact (and_iff_left trivial).trans (inv_apply_iff h clientName)
  | reset =>
    refine ⟨fun _ => trivial, fun _ => ?_⟩
    unfold Restores Inv next
    simp only [h.reset, and_self]
  | start session clientName => exact ⟨fun _ => trivial, fun _ => ⟨h, trivial⟩⟩
  | join session =>
    rw [← keepsOthers_iff h]
    unfold Restores Inv
    refine ⟨fun hboth => hboth.2.2, fun hkeeps => ?_⟩
    unfold next
    simp only [h.reset, true_and]
    exact hkeeps
  | reload temp => exact (and_iff_left trivial).trans (inv_reload_iff h temp)

/-- In a run whose calls all find what they must, every reset gives the configuration in force and takes
no other session's profile away. -/
theorem resets_restore (s : Host) (calls : List Call) (hlive : s.live = ⟨s.base, none⟩)
    (h : Runs (Meets profiles) (next profiles) s calls) :
    Runs (Restores profiles) (next profiles) s calls := by
  have hinv : Inv s := by
    unfold Inv
    rw [hlive]
  clear hlive
  induction calls generalizing s with
  | nil => trivial
  | cons call calls ih =>
    obtain ⟨hcall, hrest⟩ := h
    obtain ⟨hnext, hrestores⟩ := (meets_iff hinv call).mpr hcall
    exact ⟨hrestores, ih _ hrest hnext⟩

end Calls

def tvProfile : Profile := ⟨30000, 0, 0, []⟩

def tvProfiles (clientName : Text) : Option Profile :=
  if clientName = "tv".toList then some tvProfile else none

def plainHost : Host := ⟨⟨⟨0, 0, 0, safe⟩, none⟩, ⟨0, 0, 0, safe⟩, []⟩

theorem second_apply_is_kept :
    ¬∀ calls, Runs (Restores tvProfiles) (next tvProfiles) plainHost calls := by
  intro h
  have hrun := h [.apply "tv".toList, .apply "tv".toList, .reset]
  have hreset : (⟨30000, 0, 0, safe⟩ : Globals) = ⟨0, 0, 0, safe⟩ := hrun.2.2.1
  exact absurd hreset (by decide)

theorem resets_restore_tv :
    Runs (Restores tvProfiles) (next tvProfiles) plainHost
      [.apply "tv".toList, .start 1 "tv".toList, .join 1] := by
  refine resets_restore _ _ rfl ⟨.inr (.inl rfl), trivial, .inr fun other hother hne => ?_, trivial⟩
  rw [List.mem_singleton.mp hother] at hne
  exact absurd rfl hne

end Sunshine.Profiles
