import Mathlib.Algebra.Order.Ring.Rat
import Mathlib.Tactic.NormNum
import Sunshine.Lib.Rings
import Sunshine.Lib.Entries

/-! The telemetry store: a ring of samples for each name, and a snapshot of all of them as a JSON object.

Reading or writing outside a ring is `none`. `snapshot_lists_iff` says for which calls the object lists the last samples of
every name. -/
namespace Sunshine.Telemetry
open Rings Tables
set_option autoImplicit false

/-! ## Samples -/

/-- A `double`, without the sign of zero. -/
inductive Double where
  | nan
  | infinite (negative : Bool)
  | finite (value : ℚ)
  deriving DecidableEq

/-- What `record` makes of its argument. -/
def clamped : Double → ℚ
  | .nan => 0
  | .infinite _ => 0
  | .finite value =>
    let value := if value < 0 then 0 else value
    if 1000000000 < value then 1000000000 else value

theorem clamped_range (value : Double) : 0 ≤ clamped value ∧ clamped value ≤ 1000000000 := by
  have hzero : (0 : ℚ) ≤ 0 ∧ (0 : ℚ) ≤ 1000000000 := by norm_num
  cases value with
  | nan => exact hzero
  | infinite negative => exact hzero
  | finite value =>
    unfold clamped
    dsimp only
    split_ifs with hneg hhigh hhigh
    · exact ⟨hzero.2, le_rfl⟩
    · exact hzero
    · exact ⟨hzero.2, le_rfl⟩
    · exact ⟨not_lt.mp hneg, not_lt.mp hhigh⟩

/-! ## The store -/

def kSeriesCapacity : ℕ := 600

/-- `series_t` -/
structure Series where
  values : List ℚ
  head : ℕ
  count : ℕ
  live : Bool
  deriving DecidableEq

def Series.empty : Series := ⟨[], 0, 0, false⟩

abbrev SeriesMap := List (String × Series)

/-- `values[index] = value` -/
def writeAt (values : List ℚ) (index : ℕ) (value : ℚ) : Option (List ℚ) :=
  if index < values.length then some (values.set index value) else none

/-- The values and the head after a sample. -/
def place (series : Series) (value : ℚ) : Option (List ℚ × ℕ) :=
  if series.values.length < kSeriesCapacity then
    some (series.values ++ [value], (series.values ++ [value]).length % kSeriesCapacity)
  else (writeAt series.values series.head value).map fun values => (values, (series.head + 1) % kSeriesCapacity)

def pushRing (series : Series) (value : ℚ) : Option Series :=
  (place series value).map fun placed =>
    let count := if series.count < kSeriesCapacity then series.count + 1 else series.count
    ⟨placed.1, placed.2, count, count = kSeriesCapacity⟩

def getOrCreate (seriesMap : SeriesMap) (name : String) : Series := (seriesMap.lookup name).getD .empty

def record (seriesMap : SeriesMap) (call : String × Double) : Option SeriesMap :=
  (pushRing (getOrCreate seriesMap call.1) (clamped call.2)).map fun series => put call.1 series seriesMap

/-- The store after some calls, from an empty one. -/
def recordAll (calls : List (String × Double)) : Option SeriesMap := calls.foldlM record []

inductive Json where
  | samples (values : List ℚ)
  | size (number : ℕ)
  deriving DecidableEq

def readSeries (series : Series) : Option (List ℚ) :=
  (List.range series.count).mapM fun i =>
    series.values[(series.head + kSeriesCapacity - series.count + i) % kSeriesCapacity]?

/-- One series of the loop over the map. -/
def listSeries (out : List (String × Json)) (entry : String × Series) : Option (List (String × Json)) :=
  if entry.2.count = 0 then some out
  else (readSeries entry.2).map fun arr => put entry.1 (.samples arr) out

def snapshot (seriesMap : SeriesMap) : Option (List (String × Json)) :=
  (seriesMap.foldlM listSeries []).map fun out => put "window_s" (.size kSeriesCapacity) out

/-! ## What is recorded -/

/-- The clamped values of a name. -/
def recorded (calls : List (String × Double)) (name : String) : List ℚ :=
  (calls.filter fun call => call.1 = name).map fun call => clamped call.2

/-- Every name that was recorded has its last samples in the object, the oldest first. -/
def Lists (calls : List (String × Double)) (out : List (String × Json)) : Prop :=
  ∀ name ∈ calls.map Prod.fst, out.lookup name = some (.samples (kept kSeriesCapacity (recorded calls name)))

theorem recorded_self (calls : List (String × Double)) (call : String × Double) :
    recorded (calls ++ [call]) call.1 = recorded calls call.1 ++ [clamped call.2] := by
  unfold recorded
  rw [List.filter_append, List.map_append, List.filter_cons_of_pos (by simp)]
  rfl

theorem recorded_ne {calls : List (String × Double)} {call : String × Double} {name : String} (h : name ≠ call.1) :
    recorded (calls ++ [call]) name = recorded calls name := by
  unfold recorded
  rw [List.filter_append, List.filter_cons_of_neg (by simpa using h.symm), List.filter_nil, List.append_nil]

/-! ## One series -/

/-- The series of a name with these samples. -/
structure Tracks (sequence : List ℚ) (series : Series) : Prop where
  holds : Holds kSeriesCapacity sequence series.values
  head : series.head = sequence.length % kSeriesCapacity
  count : series.count = min sequence.length kSeriesCapacity

theorem tracks_empty : Tracks [] .empty := ⟨.nil _, rfl, rfl⟩

theorem kSeriesCapacity_pos : 0 < kSeriesCapacity := by decide

/-- The phase in which a ring is grown, and the one in which it is written over. -/
theorem tracks_place {sequence : List ℚ} {series : Series} (h : Tracks sequence series) (value : ℚ) :
    ∃ values, place series value = some (values, (sequence.length + 1) % kSeriesCapacity) ∧
      Holds kSeriesCapacity (sequence ++ [value]) values := by
  unfold place
  by_cases hroom : sequence.length < kSeriesCapacity
  · have hlength : series.values.length = sequence.length := h.holds.length.trans (Nat.min_eq_left hroom.le)
    refine ⟨_, ?_, h.holds.grow hroom value⟩
    rw [if_pos (hlength ▸ hroom), List.length_append, List.length_singleton, hlength]
  · have hfull : kSeriesCapacity ≤ sequence.length := not_lt.mp hroom
    have hlength : series.values.length = kSeriesCapacity := h.holds.length.trans (Nat.min_eq_right hfull)
    have hhead : series.head < series.values.length := by
      rw [h.head, hlength]
      exact Nat.mod_lt _ kSeriesCapacity_pos
    refine ⟨_, ?_, h.holds.overwrite kSeriesCapacity_pos hfull value⟩
    rw [if_neg (by rw [hlength]; exact lt_irrefl _), writeAt, if_pos hhead, Option.map_some, h.head, Nat.mod_add_mod]

theorem tracks_pushRing {sequence : List ℚ} {series : Series} (h : Tracks sequence series) (value : ℚ) :
    ∃ pushed, pushRing series value = some pushed ∧ Tracks (sequence ++ [value]) pushed := by
  obtain ⟨values, hplace, hholds⟩ := tracks_place h value
  unfold pushRing
  rw [hplace, Option.map_some]
  refine ⟨_, rfl, hholds, ?_, ?_⟩
  · rw [List.length_append, List.length_singleton]
  · dsimp only
    rw [h.count, List.length_append, List.length_singleton]
    split_ifs <;> omega

theorem tracks_readSeries {sequence : List ℚ} {series : Series} (h : Tracks sequence series) :
    readSeries series = some (kept kSeriesCapacity sequence) := by
  unfold readSeries
  rw [← h.holds.read, h.count]
  congr 1
  funext i
  have hindex : (series.head + kSeriesCapacity - min sequence.length kSeriesCapacity + i) % kSeriesCapacity =
      (sequence.length - min sequence.length kSeriesCapacity + i) % kSeriesCapacity := by
    rw [h.head]
    have hpos := kSeriesCapacity_pos
    have hdiv := Nat.div_add_mod sequence.length kSeriesCapacity
    have hlt := Nat.mod_lt sequence.length hpos
    by_cases hroom : sequence.length < kSeriesCapacity
    · rw [Nat.mod_eq_of_lt hroom, Nat.min_eq_left hroom.le, Nat.add_sub_cancel_left, Nat.sub_self, Nat.zero_add,
        Nat.add_mod_left]
    · rw [Nat.min_eq_right (not_lt.mp hroom), Nat.add_sub_cancel, Nat.mod_add_mod]
      have hsum : sequence.length + i = sequence.length - kSeriesCapacity + i + kSeriesCapacity := by omega
      rw [hsum, Nat.add_mod_right]
  rw [hindex]

/-! ## The map -/

structure Stores (calls : List (String × Double)) (seriesMap : SeriesMap) : Prop where
  nodup : (seriesMap.map Prod.fst).Nodup
  keys : ∀ name, name ∈ seriesMap.map Prod.fst ↔ name ∈ calls.map Prod.fst
  tracks : ∀ name, Tracks (recorded calls name) (getOrCreate seriesMap name)

theorem stores_record {calls : List (String × Double)} {seriesMap : SeriesMap} (h : Stores calls seriesMap)
    (call : String × Double) :
    ∃ seriesMap', record seriesMap call = some seriesMap' ∧ Stores (calls ++ [call]) seriesMap' := by
  obtain ⟨pushed, hpush, htracks⟩ := tracks_pushRing (h.tracks call.1) (clamped call.2)
  unfold record
  rw [hpush, Option.map_some]
  refine ⟨_, rfl, nodup_put h.nodup, fun name => ?_, fun name => ?_⟩
  · rw [mem_keys_put, h.keys, List.map_append, List.mem_append, or_comm, List.map_singleton, List.mem_singleton]
  · unfold getOrCreate
    by_cases hname : name = call.1
    · rw [hname, lookup_put_self, recorded_self]
      exact htracks
    · rw [lookup_put_ne hname, recorded_ne hname]
      exact h.tracks name

theorem stores_recordAll (calls : List (String × Double)) :
    ∃ seriesMap, recordAll calls = some seriesMap ∧ Stores calls seriesMap := by
  induction calls using List.reverseRecOn with
  | nil => exact ⟨[], rfl, List.nodup_nil, fun _ => Iff.rfl, fun _ => tracks_empty⟩
  | append_singleton calls call ih =>
    obtain ⟨seriesMap, hrun, hstores⟩ := ih
    obtain ⟨seriesMap', hrecord, hstores'⟩ := stores_record hstores call
    refine ⟨seriesMap', ?_, hstores'⟩
    unfold recordAll at hrun ⊢
    rw [List.foldlM_append, hrun]
    exact (bind_pure (record seriesMap call)).trans hrecord

/-! ## The snapshot -/

/-- The loop over the map lists each series that it meets, and keeps what is listed. -/
theorem foldlM_listSeries (samples : String → List ℚ) (entries : SeriesMap) (out : List (String × Json))
    (hnodup : (entries.map Prod.fst).Nodup) (htracks : ∀ entry ∈ entries, Tracks (samples entry.1) entry.2)
    (hsome : ∀ entry ∈ entries, samples entry.1 ≠ []) :
    ∃ out', entries.foldlM listSeries out = some out' ∧
      (∀ name ∈ entries.map Prod.fst, out'.lookup name = some (.samples (kept kSeriesCapacity (samples name)))) ∧
        ∀ name, name ∉ entries.map Prod.fst → out'.lookup name = out.lookup name := by
  induction entries generalizing out with
  | nil => exact ⟨out, rfl, fun name hname => absurd hname List.not_mem_nil, fun _ _ => rfl⟩
  | cons entry entries ih =>
    obtain ⟨hnew, hrest⟩ := List.nodup_cons.mp hnodup
    have htrack := htracks entry List.mem_cons_self
    have hcount : entry.2.count ≠ 0 := by
      have hlength := List.length_pos_iff.mpr (hsome entry List.mem_cons_self)
      have hpos := kSeriesCapacity_pos
      rw [htrack.count]
      omega
    have hlist : listSeries out entry =
        some (put entry.1 (.samples (kept kSeriesCapacity (samples entry.1))) out) := by
      unfold listSeries
      rw [if_neg hcount, tracks_readSeries htrack, Option.map_some]
    obtain ⟨out', hrun, hlisted, hothers⟩ := ih (put entry.1 (.samples (kept kSeriesCapacity (samples entry.1))) out) hrest
      (fun other hother => htracks other (List.mem_cons_of_mem _ hother))
      fun other hother => hsome other (List.mem_cons_of_mem _ hother)
    refine ⟨out', ?_, fun name hname => ?_, fun name hname => ?_⟩
    · rw [List.foldlM_cons, hlist]
      exact hrun
    · cases List.mem_cons.mp hname with
      | inl hself => rw [hself, hothers _ hnew, lookup_put_self]
      | inr hrest => exact hlisted name hrest
    · rw [List.map_cons, List.mem_cons, not_or] at hname
      rw [hothers name hname.2, lookup_put_ne hname.1]

theorem recorded_ne_nil {calls : List (String × Double)} {name : String} (h : name ∈ calls.map Prod.fst) :
    recorded calls name ≠ [] := by
  obtain ⟨call, hcall, rfl⟩ := List.mem_map.mp h
  have hmem : call ∈ calls.filter fun other => other.1 = call.1 := List.mem_filter.mpr ⟨hcall, by simp⟩
  exact List.ne_nil_of_mem (List.mem_map_of_mem hmem)

/-- No access is outside a ring, and all names but the one of the window have their samples. -/
theorem snapshot_some {calls : List (String × Double)} {seriesMap : SeriesMap} (h : Stores calls seriesMap) :
    ∃ out, snapshot seriesMap = some out ∧ out.lookup "window_s" = some (.size kSeriesCapacity) ∧
      ∀ name ∈ calls.map Prod.fst, name ≠ "window_s" →
        out.lookup name = some (.samples (kept kSeriesCapacity (recorded calls name))) := by
  have htracks : ∀ entry ∈ seriesMap, Tracks (recorded calls entry.1) entry.2 := by
    intro entry hentry
    have htrack := h.tracks entry.1
    unfold getOrCreate at htrack
    rwa [Entries.lookup_of_nodup h.nodup hentry] at htrack
  have hsome : ∀ entry ∈ seriesMap, recorded calls entry.1 ≠ [] := fun entry hentry =>
    recorded_ne_nil ((h.keys entry.1).mp (List.mem_map_of_mem hentry))
  obtain ⟨out, hrun, hlisted, -⟩ := foldlM_listSeries (recorded calls) seriesMap [] h.nodup htracks hsome
  unfold snapshot
  rw [hrun, Option.map_some]
  refine ⟨_, rfl, lookup_put_self _ _ _, fun name hname hwindow => ?_⟩
  rw [lookup_put_ne hwindow]
  exact hlisted name ((h.keys name).mpr hname)

/-- The snapshot lists every recorded name exactly if none is the name that the window is stored under. -/
theorem snapshot_lists_iff (calls : List (String × Double)) :
    (∃ seriesMap out, recordAll calls = some seriesMap ∧ snapshot seriesMap = some out ∧ Lists calls out) ↔
      "window_s" ∉ calls.map Prod.fst := by
  obtain ⟨seriesMap, hrun, hstores⟩ := stores_recordAll calls
  obtain ⟨out, hsnapshot, hwindow, hlisted⟩ := snapshot_some hstores
  constructor
  · rintro ⟨seriesMap', out', hrun', hsnapshot', hlists⟩ hmem
    obtain rfl : seriesMap = seriesMap' := Option.some.inj (hrun.symm.trans hrun')
    obtain rfl : out = out' := Option.some.inj (hsnapshot.symm.trans hsnapshot')
    have heq := hlists "window_s" hmem
    rw [hwindow] at heq
    exact Json.noConfusion (Option.some.inj heq)
  · intro hwindow
    exact ⟨seriesMap, out, hrun, hsnapshot, fun name hname => hlisted name hname fun heq => hwindow (heq ▸ hname)⟩

/-- A metric of that name is not listed. -/
theorem window_name_hidden : ¬∀ calls : List (String × Double),
    ∃ seriesMap out, recordAll calls = some seriesMap ∧ snapshot seriesMap = some out ∧ Lists calls out := by
  intro hall
  obtain ⟨seriesMap, out, hrun, hsnapshot, hlists⟩ := hall [("window_s", .finite 1)]
  obtain rfl : [("window_s", (⟨[1], 1, 1, false⟩ : Series))] = seriesMap := Option.some.inj (Eq.trans (by decide) hrun)
  obtain rfl : [("window_s", Json.size 600)] = out := Option.some.inj (Eq.trans (by decide) hsnapshot)
  exact absurd (hlists "window_s" (by decide)) (by decide)

end Sunshine.Telemetry
