import Mathlib.Data.Rat.Defs
import Mathlib.Algebra.Order.Ring.Rat
import Mathlib.Tactic.Common
import Sunshine.Session.Lifecycle

/-! The session history (`make_record`, `session_history::record`) and the latency statistics that
the records are filled from.

The statistics are process-wide and `start` writes a record as well as `join`, so a session that is
started and joined leaves the one record its history should have only in odd circumstances;
`history_per_session` says in which. Sums of samples are exact here. -/
namespace Sunshine.Session
open Transitions
set_option autoImplicit false

/-! ## Latency statistics -/

/-- `metric_accumulator_t`; `none` stands for the infinities that `min` and `max` start from. -/
structure MetricAccumulator where
  min : Option ℚ := none
  max : Option ℚ := none
  total : ℚ := 0
  samples : ℕ := 0
  deriving DecidableEq

structure StatSnapshot where
  min : ℚ := 0
  max : ℚ := 0
  avg : ℚ := 0
  samples : ℕ := 0
  deriving DecidableEq

/-- What `collect` makes of a value; `none` is a value that is not finite. -/
def clampSample : Option ℚ → ℚ
  | none => 0
  | some value => if value < 0 then 0 else if 60000 < value then 60000 else value

def MetricAccumulator.collect (m : MetricAccumulator) (value : Option ℚ) : MetricAccumulator :=
  let value := clampSample value
  { min := some (m.min.elim value fun least => if value < least then value else least)
    max := some (m.max.elim value fun most => if most < value then value else most)
    total := m.total + value
    samples := (m.samples + 1) % 2 ^ 32 }

def MetricAccumulator.snapshot (m : MetricAccumulator) : StatSnapshot :=
  if 0 < m.samples then
    { min := m.min.getD 0, max := m.max.getD 0, avg := m.total / m.samples, samples := m.samples }
  else {}

/-- The average an accumulator gives that has collected exactly these values. -/
def averageOf (values : List (Option ℚ)) : ℚ :=
  (values.foldl MetricAccumulator.collect {}).snapshot.avg

inductive Metric where
  | encode
  | rtt
  deriving DecidableEq, Repr

structure EffectiveSettings where
  codec : String := ""
  bitRate : ℤ := 0
  deriving DecidableEq, Repr

structure LatencyStats where
  encodeMs : MetricAccumulator := {}
  rttMs : MetricAccumulator := {}
  settings : EffectiveSettings := {}
  deriving DecidableEq

def LatencyStats.collect (s : LatencyStats) (value : Option ℚ) : Metric → LatencyStats
  | .encode => { s with encodeMs := s.encodeMs.collect value }
  | .rtt => { s with rttMs := s.rttMs.collect value }

/-- `latency_stats_t::reset`: the accumulators, not the settings. -/
def LatencyStats.reset (s : LatencyStats) : LatencyStats := { settings := s.settings }

/-! ## Records -/

structure SessionRecord where
  tStart : ℤ
  tEnd : ℤ
  appName : String
  clientName : String
  clientAddress : String
  codec : String
  width : ℤ
  height : ℤ
  fps : ℤ
  avgBitrateKbps : ℚ
  avgRttMs : ℚ
  avgEncodeMs : ℚ
  droppedFrames : ℕ := 0
  error : String := ""
  deriving DecidableEq

def bitrateKbps (bitRate : ℤ) : ℚ := if 0 < bitRate then bitRate / 1000 else 0

/-- Time points count nanoseconds, the history file seconds. -/
def seconds (t : ℤ) : ℤ := t.tdiv (10 ^ 9)

/-- `session_history::record`: the line appended to the file, unless there is nothing to name the
session by or the file does not open. -/
def recordLine (opens : Bool) (r : SessionRecord) : Option SessionRecord :=
  let tEnd := if r.tEnd < r.tStart then r.tStart else r.tEnd
  if r.appName = "" ∧ r.clientName = "" then none
  else if opens then some { r with tStart := seconds r.tStart, tEnd := seconds tEnd }
  else none

/-! ## Sessions -/

/-- How far the `stop` that won the exchange has come. -/
inductive StopStep where
  | idle
  | exchanged
  | resetDue
  | raised
  deriving DecidableEq, Repr

inductive JoinStep where
  | waiting
  | recorded
  | resetDue
  | ended
  deriving DecidableEq, Repr

/-- A session as far as its record goes. The last six fields are history: when `join` took the end
time, the samples collected since its threads were created and until then, the settings of the
encoder it opened last, whether some of its samples are still in the statistics, and who cleared
them. -/
structure RecordedSession where
  state : StateE := .stopped
  start : StartStep := .unallocated
  named : Bool := false
  tStart : ℤ := 0
  appName : String := ""
  clientName : String := ""
  clientAddress : String := ""
  width : ℤ := 0
  height : ℤ := 0
  fps : ℤ := 0
  stop : StopStep := .idle
  join : JoinStep := .waiting
  tEnd : ℤ := 0
  encodeSeen : List (Option ℚ) := []
  rttSeen : List (Option ℚ) := []
  own : EffectiveSettings := {}
  held : Bool := false
  clearedBy : List ℕ := []
  deriving DecidableEq

/-- From the creation of its threads to its record in `join`. -/
def RecordedSession.runs (s : RecordedSession) : Bool :=
  s.start.hasThreads && s.join = .waiting

def makeRecord (s : RecordedSession) (stats : LatencyStats) (now : ℤ) : SessionRecord :=
  { tStart := s.tStart, tEnd := now, appName := s.appName, clientName := s.clientName
    clientAddress := s.clientAddress, codec := stats.settings.codec
    width := s.width, height := s.height, fps := s.fps
    avgBitrateKbps := bitrateKbps stats.settings.bitRate
    avgRttMs := stats.rttMs.snapshot.avg, avgEncodeMs := stats.encodeMs.snapshot.avg }

/-- The record the session should leave: its own times, client and settings, and the averages of
the samples collected while it ran. -/
def RecordedSession.expected (s : RecordedSession) : SessionRecord :=
  { tStart := seconds s.tStart, tEnd := seconds s.tEnd, appName := s.appName
    clientName := s.clientName, clientAddress := s.clientAddress, codec := s.own.codec
    width := s.width, height := s.height, fps := s.fps
    avgBitrateKbps := bitrateKbps s.own.bitRate
    avgRttMs := averageOf s.rttSeen, avgEncodeMs := averageOf s.encodeSeen }

def RecordedSession.saw (s : RecordedSession) (value : Option ℚ) (metric : Metric) :
    RecordedSession :=
  if s.runs then
    match metric with
    | .encode => { s with encodeSeen := s.encodeSeen ++ [value], held := true }
    | .rtt => { s with rttSeen := s.rttSeen ++ [value], held := true }
  else s

/-- What a reset by the `stop` or `join` of session `i` is for session `j`. -/
def RecordedSession.clearedAt (s : RecordedSession) (i j : ℕ) : RecordedSession :=
  { s with
    held := false
    clearedBy := if j ≠ i ∧ s.runs = true ∧ s.held = true then s.clearedBy ++ [i] else s.clearedBy }

/-! ## Runs -/

inductive Written where
  | atStart
  | atEnd
  deriving DecidableEq, Repr

/-- A line of the file; whose it is and which function wrote it are not in the text. -/
structure HistoryLine where
  owner : ℕ
  written : Written
  record : SessionRecord
  deriving DecidableEq

structure Recorder where
  sessions : ℕ → RecordedSession := fun _ => {}
  allocated : ℕ := 0
  stats : LatencyStats := {}
  runningSessions : ℕ := 0
  history : List HistoryLine := []

def Recorder.set (s : Recorder) (i : ℕ) (session : RecordedSession) : Recorder :=
  { s with sessions := Function.update s.sessions i session }

def Recorder.write (s : Recorder) (i : ℕ) (written : Written) (line : Option SessionRecord) :
    Recorder :=
  { s with history := s.history ++ line.toList.map fun record => ⟨i, written, record⟩ }

def Recorder.linesOf (s : Recorder) (i : ℕ) : List HistoryLine :=
  s.history.filter fun line => line.owner = i

def Recorder.resetBy (s : Recorder) (i : ℕ) : Recorder :=
  { s with stats := s.stats.reset, sessions := fun j => (s.sessions j).clearedAt i j }

/-- `opens` says whether the history file can be written, `avcodec` whether the encoder is one that
stores its effective settings; an encoder without an owner is opened by a probe. -/
inductive RecorderEvent where
  | alloc (clientName clientAddress : String) (width height fps : ℤ)
  | startThreads (i : ℕ) (address : String)
  | storeRunning (i : ℕ)
  | recordStart (i : ℕ) (now : ℤ) (lastRunAppName : String) (opens : Bool)
  | countStart (i : ℕ)
  | openEncoder (owner : Option ℕ) (settings : EffectiveSettings) (avcodec : Bool)
  | sample (i : ℕ) (metric : Metric) (value : Option ℚ)
  | broadcastReset
  | stopExchange (i : ℕ)
  | stopLoads (i : ℕ)
  | stopResets (i : ℕ)
  | joinRecords (i : ℕ) (now : ℤ) (opens : Bool)
  | joinCountsOff (i : ℕ)
  | joinResets (i : ℕ)
  deriving DecidableEq

/-- The record of `start` or `join`, written only for a session with an application. -/
def Recorder.recordIn (s : Recorder) (i : ℕ) (written : Written) (now : ℤ) (opens : Bool) :
    Recorder :=
  let session := s.sessions i
  if session.appName = "" then s
  else s.write i written (recordLine opens (makeRecord session s.stats now))

def nextRecorder (s : Recorder) : RecorderEvent → Recorder
  | .alloc clientName clientAddress width height fps =>
    { s.set s.allocated { start := .allocated, clientName, clientAddress, width, height, fps } with
      allocated := s.allocated + 1 }
  | .startThreads i address =>
    s.set i { s.sessions i with start := .threadsCreated, clientAddress := address }
  | .storeRunning i => s.set i { s.sessions i with start := .runningStored, state := .running }
  | .recordStart i now appName opens =>
    (s.set i { s.sessions i with tStart := now, appName, named := true }).recordIn i .atStart now
      opens
  | .countStart i =>
    { s.set i { s.sessions i with start := .returned } with
      runningSessions := (s.runningSessions + 1) % 2 ^ 32 }
  | .openEncoder owner settings avcodec =>
    let s := match owner with
      | some i => s.set i { s.sessions i with own := settings }
      | none => s
    if avcodec then { s with stats := { s.stats with settings } } else s
  | .sample _ metric value =>
    { s with
      stats := s.stats.collect value metric
      sessions := fun j => (s.sessions j).saw value metric }
  | .broadcastReset =>
    { s with
      stats := s.stats.reset
      sessions := fun j => { s.sessions j with held := false } }
  | .stopExchange i => s.set i { s.sessions i with state := .stopping, stop := .exchanged }
  | .stopLoads i =>
    s.set i { s.sessions i with stop := if s.runningSessions = 1 then .resetDue else .raised }
  | .stopResets i => (s.resetBy i).set i { (s.resetBy i).sessions i with stop := .raised }
  | .joinRecords i now opens =>
    let s := s.recordIn i .atEnd now opens
    s.set i { s.sessions i with tEnd := now, join := .recorded }
  | .joinCountsOff i =>
    let running := (s.runningSessions + (2 ^ 32 - 1)) % 2 ^ 32
    { s.set i { s.sessions i with join := if running = 0 then .resetDue else .ended } with
      runningSessions := running }
  | .joinResets i => (s.resetBy i).set i { (s.resetBy i).sessions i with join := .ended }

/-- What the threads allow; a session's threads have ended only after it has left `RUNNING`. -/
def RecorderEnabled (s : Recorder) : RecorderEvent → Prop
  | .alloc .. | .broadcastReset | .openEncoder none _ _ => True
  | .startThreads i _ => (s.sessions i).start = .allocated
  | .storeRunning i => (s.sessions i).start = .threadsCreated
  | .recordStart i _ _ _ => (s.sessions i).start = .runningStored ∧ (s.sessions i).named = false
  | .countStart i => (s.sessions i).start = .runningStored ∧ (s.sessions i).named = true
  | .openEncoder (some i) _ _ | .sample i _ _ => (s.sessions i).runs = true
  | .stopExchange i => (s.sessions i).state = .running
  | .stopLoads i => (s.sessions i).stop = .exchanged
  | .stopResets i => (s.sessions i).stop = .resetDue
  | .joinRecords i _ _ => (s.sessions i).state = .stopping ∧ (s.sessions i).join = .waiting
  | .joinCountsOff i => (s.sessions i).join = .recorded
  | .joinResets i => (s.sessions i).join = .resetDue

instance decidableRecorderEnabled : ∀ (s : Recorder) (e : RecorderEvent),
    Decidable (RecorderEnabled s e)
  | _, .alloc .. | _, .broadcastReset | _, .openEncoder none _ _ => inferInstanceAs (Decidable True)
  | s, .startThreads i _ => inferInstanceAs (Decidable ((s.sessions i).start = _))
  | s, .storeRunning i => inferInstanceAs (Decidable ((s.sessions i).start = _))
  | s, .recordStart i _ _ _ =>
    inferInstanceAs (Decidable ((s.sessions i).start = _ ∧ (s.sessions i).named = _))
  | s, .countStart i =>
    inferInstanceAs (Decidable ((s.sessions i).start = _ ∧ (s.sessions i).named = _))
  | s, .openEncoder (some i) _ _ => inferInstanceAs (Decidable ((s.sessions i).runs = _))
  | s, .sample i _ _ => inferInstanceAs (Decidable ((s.sessions i).runs = _))
  | s, .stopExchange i => inferInstanceAs (Decidable ((s.sessions i).state = _))
  | s, .stopLoads i => inferInstanceAs (Decidable ((s.sessions i).stop = _))
  | s, .stopResets i => inferInstanceAs (Decidable ((s.sessions i).stop = _))
  | s, .joinRecords i _ _ =>
    inferInstanceAs (Decidable ((s.sessions i).state = _ ∧ (s.sessions i).join = _))
  | s, .joinCountsOff i => inferInstanceAs (Decidable ((s.sessions i).join = _))
  | s, .joinResets i => inferInstanceAs (Decidable ((s.sessions i).join = _))

/-- One record per session that has been joined, written at its end and its own, and no session's
samples cleared by the stopping of another. -/
structure HistoryPerSession (s : Recorder) : Prop where
  records : ∀ i, (s.sessions i).join ≠ .waiting →
    s.linesOf i = [⟨i, .atEnd, (s.sessions i).expected⟩]
  kept : ∀ j, (s.sessions j).clearedBy = []

/-- When a join writes the record the session should have: nothing was written at its start, the
session has an application, the file opens, the clock has not gone back, and the process-wide
statistics are the session's. -/
structure JoinRecordsWell (s : Recorder) (i : ℕ) (now : ℤ) (opens : Bool) : Prop where
  unwritten : s.linesOf i = []
  named : (s.sessions i).appName ≠ ""
  opens : opens = true
  clock : seconds (s.sessions i).tStart ≤ seconds now
  codec : s.stats.settings.codec = (s.sessions i).own.codec
  bitrate : bitrateKbps s.stats.settings.bitRate = bitrateKbps (s.sessions i).own.bitRate
  rtt : s.stats.rttMs.snapshot.avg = averageOf (s.sessions i).rttSeen
  encode : s.stats.encodeMs.snapshot.avg = averageOf (s.sessions i).encodeSeen

/-- A joining session is recorded well, and a reset finds no other running session's samples. -/
def RecordsWell (s : Recorder) : RecorderEvent → Prop
  | .joinRecords i now opens => JoinRecordsWell s i now opens
  | .stopResets i | .joinResets i => ∀ j, j ≠ i → (s.sessions j).runs = true →
    (s.sessions j).held = false
  | _ => True

/-! ## Lines and sessions -/

@[simp] theorem Recorder.set_sessions_same (s : Recorder) (i : ℕ) (r : RecordedSession) :
    (s.set i r).sessions i = r := by
  simp [Recorder.set]

theorem Recorder.set_sessions_other (s : Recorder) {i j : ℕ} (r : RecordedSession) (h : j ≠ i) :
    (s.set i r).sessions j = s.sessions j := by
  simp [Recorder.set, Function.update_of_ne h]

@[simp] theorem Recorder.set_linesOf (s : Recorder) (i j : ℕ) (r : RecordedSession) :
    (s.set i r).linesOf j = s.linesOf j := rfl

@[simp] theorem Recorder.resetBy_linesOf (s : Recorder) (i j : ℕ) :
    (s.resetBy i).linesOf j = s.linesOf j := rfl

@[simp] theorem Recorder.write_sessions (s : Recorder) (i : ℕ) (written : Written)
    (line : Option SessionRecord) : (s.write i written line).sessions = s.sessions := rfl

theorem Recorder.write_linesOf_same (s : Recorder) (i : ℕ) (written : Written)
    (line : Option SessionRecord) :
    (s.write i written line).linesOf i =
      s.linesOf i ++ line.toList.map fun record => ⟨i, written, record⟩ := by
  cases line with
  | none => simp [Recorder.write, Recorder.linesOf]
  | some record => simp [Recorder.write, Recorder.linesOf]

theorem Recorder.write_linesOf_other (s : Recorder) {i j : ℕ} (written : Written)
    (line : Option SessionRecord) (h : j ≠ i) :
    (s.write i written line).linesOf j = s.linesOf j := by
  have hne : ¬i = j := fun heq => h heq.symm
  cases line with
  | none => simp [Recorder.write, Recorder.linesOf]
  | some record => simp [Recorder.write, Recorder.linesOf, hne]

/-- What `start` or `join` adds to the lines of its session. -/
def Recorder.added (s : Recorder) (i : ℕ) (now : ℤ) (opens : Bool) : Option SessionRecord :=
  if (s.sessions i).appName = "" then none
  else recordLine opens (makeRecord (s.sessions i) s.stats now)

theorem Recorder.recordIn_eq (s : Recorder) (i : ℕ) (written : Written) (now : ℤ) (opens : Bool) :
    s.recordIn i written now opens = s.write i written (s.added i now opens) := by
  unfold Recorder.recordIn Recorder.added
  by_cases hname : (s.sessions i).appName = ""
  · simp [hname, Recorder.write]
  · simp [hname]

@[simp] theorem Recorder.recordIn_sessions (s : Recorder) (i : ℕ) (written : Written) (now : ℤ)
    (opens : Bool) : (s.recordIn i written now opens).sessions = s.sessions := by
  rw [Recorder.recordIn_eq]
  rfl

theorem seconds_mono {t u : ℤ} (h : t ≤ u) : seconds t ≤ seconds u :=
  Int.tdiv_le_tdiv (by decide) h

/-- A record is put in the file as it is when its end is not before its start. -/
theorem recordLine_eq_some_iff (opens : Bool) (r line : SessionRecord) (hname : r.appName ≠ "")
    (hend : line.tEnd = seconds r.tEnd) :
    recordLine opens r = some line ↔
      opens = true ∧ seconds r.tStart ≤ seconds r.tEnd ∧
        { r with tStart := seconds r.tStart, tEnd := seconds r.tEnd } = line := by
  unfold recordLine
  have hkept : ¬(r.appName = "" ∧ r.clientName = "") := fun h => hname h.1
  simp only [if_neg hkept]
  cases opens with
  | false => simp
  | true =>
    simp only [if_true, Option.some.injEq, true_and]
    by_cases hback : r.tEnd < r.tStart
    · rw [if_pos hback]
      have hle := seconds_mono hback.le
      constructor
      · intro hline
        have hsame : seconds r.tStart = seconds r.tEnd := by
          rw [← hend, ← hline]
        rw [← hsame]
        exact ⟨le_refl _, hline⟩
      · rintro ⟨hge, hline⟩
        have hsame : seconds r.tStart = seconds r.tEnd := le_antisymm hge hle
        rw [← hline, hsame]
    · rw [if_neg hback]
      have hle := seconds_mono (not_lt.mp hback)
      exact ⟨fun hline => ⟨hle, hline⟩, fun h => h.2⟩

/-! ## What holds in every state -/

/-- A session and its lines: a session that has run or is joined was started, one that `start` has
not named has no application and no line, before the record of `join` all lines are those of `start`,
and without threads there is nothing to clear. -/
structure RecordedOk (r : RecordedSession) (lines : List HistoryLine) : Prop where
  started : r.state ≠ .stopped ∨ r.join ≠ .waiting → r.start = .runningStored ∨ r.start = .returned
  unnamed : r.named = false → r.appName = "" ∧ lines = []
  atStart : r.join = .waiting → ∀ line ∈ lines, line.written = .atStart
  cleared : r.start.hasThreads = false → r.clearedBy = []

structure RecorderOk (s : Recorder) : Prop where
  each : ∀ i, RecordedOk (s.sessions i) (s.linesOf i)
  fresh : ∀ i, s.allocated ≤ i → (s.sessions i).start = .unallocated ∧ s.linesOf i = []

theorem RecorderOk.set {s : Recorder} (h : RecorderOk s) {i : ℕ} {r : RecordedSession}
    (hr : RecordedOk r (s.linesOf i)) (hfresh : s.allocated ≤ i → r.start = .unallocated) :
    RecorderOk (s.set i r) := by
  constructor
  · intro j
    by_cases hj : j = i
    · subst hj
      rw [Recorder.set_sessions_same]
      exact hr
    · rw [Recorder.set_sessions_other s r hj]
      exact h.each j
  · intro j hj
    by_cases heq : j = i
    · subst heq
      rw [Recorder.set_sessions_same]
      exact ⟨hfresh hj, (h.fresh j hj).2⟩
    · rw [Recorder.set_sessions_other s r heq]
      exact h.fresh j hj

/-- Setting a session whose place in `start` stays as it is. -/
theorem RecorderOk.set_kept {s : Recorder} (h : RecorderOk s) {i : ℕ} {r : RecordedSession}
    (hr : RecordedOk r (s.linesOf i)) (hstart : r.start = (s.sessions i).start) :
    RecorderOk (s.set i r) :=
  h.set hr fun hge => hstart.trans (h.fresh i hge).1

theorem RecorderOk.lt {s : Recorder} (h : RecorderOk s) {i : ℕ}
    (hi : (s.sessions i).start ≠ .unallocated) : i < s.allocated := by
  by_contra hge
  exact hi (h.fresh i (Nat.not_lt.mp hge)).1

/-- A session whose threads may be up has been started. -/
theorem RecorderOk.lt_of_started {s : Recorder} (h : RecorderOk s) {i : ℕ}
    (hi : (s.sessions i).state ≠ .stopped ∨ (s.sessions i).join ≠ .waiting) : i < s.allocated := by
  apply h.lt
  rcases (h.each i).started hi with hstart | hstart
  · rw [hstart]
    decide
  · rw [hstart]
    decide

/-- What a sample or a reset changes of a session matters to none of this. -/
theorem RecorderOk.map {s : Recorder} (h : RecorderOk s) (f : ℕ → RecordedSession → RecordedSession)
    (stats : LatencyStats)
    (hf : ∀ j r, (f j r).state = r.state ∧ (f j r).start = r.start ∧ (f j r).named = r.named ∧
      (f j r).appName = r.appName ∧ (f j r).join = r.join ∧
      (r.start.hasThreads = false → (f j r).clearedBy = r.clearedBy)) :
    RecorderOk { s with stats, sessions := fun j => f j (s.sessions j) } := by
  constructor
  · intro j
    have hj := h.each j
    obtain ⟨hstate, hstart, hnamed, happ, hjoin, hcleared⟩ := hf j (s.sessions j)
    constructor
    · simp only [hstate, hstart, hjoin]
      exact hj.started
    · simp only [hnamed, happ]
      exact hj.unnamed
    · simp only [hjoin]
      exact hj.atStart
    · simp only [hstart]
      exact fun hno => (hcleared hno).trans (hj.cleared hno)
  · intro j hj
    obtain ⟨-, hstart, -⟩ := hf j (s.sessions j)
    simp only [hstart]
    exact h.fresh j hj

theorem clearedAt_same (i j : ℕ) (r : RecordedSession) :
    (r.clearedAt i j).state = r.state ∧ (r.clearedAt i j).start = r.start ∧
      (r.clearedAt i j).named = r.named ∧ (r.clearedAt i j).appName = r.appName ∧
      (r.clearedAt i j).join = r.join ∧
      (r.start.hasThreads = false → (r.clearedAt i j).clearedBy = r.clearedBy) :=
  ⟨rfl, rfl, rfl, rfl, rfl, fun hno => by simp [RecordedSession.clearedAt, RecordedSession.runs, hno]⟩

theorem saw_same (value : Option ℚ) (metric : Metric) (r : RecordedSession) :
    (r.saw value metric).state = r.state ∧ (r.saw value metric).start = r.start ∧
      (r.saw value metric).named = r.named ∧ (r.saw value metric).appName = r.appName ∧
      (r.saw value metric).join = r.join ∧
      (r.start.hasThreads = false → (r.saw value metric).clearedBy = r.clearedBy) := by
  unfold RecordedSession.saw
  cases metric <;> split <;> simp

theorem RecorderOk.resetBy {s : Recorder} (h : RecorderOk s) (i : ℕ) : RecorderOk (s.resetBy i) :=
  h.map (fun j r => r.clearedAt i j) s.stats.reset fun j r => clearedAt_same i j r

theorem RecorderOk.write {s : Recorder} (h : RecorderOk s) {i : ℕ} (written : Written)
    (line : Option SessionRecord) (hlt : i < s.allocated)
    (hi : RecordedOk (s.sessions i) ((s.write i written line).linesOf i)) :
    RecorderOk (s.write i written line) := by
  constructor
  · intro j
    by_cases hj : j = i
    · subst hj
      exact hi
    · rw [Recorder.write_linesOf_other s written line hj]
      exact h.each j
  · intro j hj
    have hne : j ≠ i := fun heq => absurd hlt (Nat.not_lt.mpr (heq ▸ hj))
    rw [Recorder.write_linesOf_other s written line hne]
    exact h.fresh j hj

theorem RecorderOk.counted {s : Recorder} (h : RecorderOk s) (runningSessions : ℕ) :
    RecorderOk { s with runningSessions } :=
  ⟨h.each, h.fresh⟩

theorem recorderOk_startThreads {s : Recorder} (h : RecorderOk s) (i : ℕ) (address : String)
    (hen : (s.sessions i).start = .allocated) :
    RecorderOk (nextRecorder s (.startThreads i address)) := by
  have hi := h.each i
  have hlt : i < s.allocated := h.lt (by rw [hen]; decide)
  have hidle : ¬((s.sessions i).state ≠ .stopped ∨ (s.sessions i).join ≠ .waiting) := by
    intro hbusy
    have hstart := hi.started hbusy
    rw [hen] at hstart
    simp at hstart
  exact h.set ⟨fun hbusy => absurd hbusy hidle, hi.unnamed, hi.atStart,
    fun hno => absurd hno (by simp [StartStep.hasThreads])⟩ fun hge => absurd hlt (Nat.not_lt.mpr hge)

theorem recorderOk_alloc {s : Recorder} (h : RecorderOk s)
    (clientName clientAddress : String) (width height fps : ℤ) :
    RecorderOk (nextRecorder s (.alloc clientName clientAddress width height fps)) := by
  obtain ⟨-, hlines⟩ := h.fresh s.allocated le_rfl
  constructor
  · intro j
    by_cases hj : j = s.allocated
    · subst hj
      have hsession : (nextRecorder s (.alloc clientName clientAddress width height fps)).sessions
          s.allocated = { start := .allocated, clientName, clientAddress, width, height, fps } := by
        simp [nextRecorder, Recorder.set]
      have hkept : (nextRecorder s (.alloc clientName clientAddress width height fps)).linesOf
          s.allocated = s.linesOf s.allocated := rfl
      rw [hsession, hkept, hlines]
      exact ⟨fun hbusy => absurd hbusy (by simp), fun _ => ⟨rfl, rfl⟩, fun _ line hl => by simp at hl,
        fun _ => rfl⟩
    · have hsession := Recorder.set_sessions_other s
        { start := .allocated, clientName, clientAddress, width, height, fps } hj
      have hnext : (nextRecorder s (.alloc clientName clientAddress width height fps)).sessions j =
          s.sessions j := hsession
      rw [hnext]
      exact h.each j
  · intro j hj
    have hlt : s.allocated < j := hj
    have hnext : (nextRecorder s (.alloc clientName clientAddress width height fps)).sessions j =
        s.sessions j := Recorder.set_sessions_other s _ (Nat.ne_of_gt hlt)
    rw [hnext]
    exact h.fresh j hlt.le

theorem recorderOk_storeRunning {s : Recorder} (h : RecorderOk s) (i : ℕ)
    (hen : (s.sessions i).start = .threadsCreated) :
    RecorderOk (nextRecorder s (.storeRunning i)) := by
  have hi := h.each i
  have hlt : i < s.allocated := h.lt (by rw [hen]; decide)
  exact h.set ⟨fun _ => Or.inl rfl, hi.unnamed, hi.atStart,
    fun hno => absurd hno (by simp [StartStep.hasThreads])⟩
    fun hge => absurd hlt (Nat.not_lt.mpr hge)

/-- The record that `start` writes; it also takes the session's name and start time. -/
theorem recorderOk_recordStart {s : Recorder} (h : RecorderOk s) (i : ℕ) (now : ℤ)
    (appName : String) (opens : Bool) (hen : (s.sessions i).start = .runningStored) :
    RecorderOk (nextRecorder s (.recordStart i now appName opens)) := by
  have hi := h.each i
  have hlt : i < s.allocated := h.lt (by rw [hen]; decide)
  have hset : RecorderOk
      (s.set i { s.sessions i with tStart := now, appName, named := true }) :=
    h.set_kept ⟨hi.started, fun hn => absurd hn (by simp), hi.atStart, hi.cleared⟩ rfl
  show RecorderOk (Recorder.recordIn _ _ _ _ _)
  rw [Recorder.recordIn_eq]
  have hr := hset.each i
  refine hset.write _ _ hlt ⟨hr.started, ?_, ?_, hr.cleared⟩
  · intro hn
    simp at hn
  · intro hwait line hl
    rw [Recorder.write_linesOf_same, List.mem_append] at hl
    rcases hl with hl | hl
    · exact hr.atStart hwait line hl
    · obtain ⟨record, -, rfl⟩ := List.mem_map.mp hl
      rfl

theorem joinRecords_eq (s : Recorder) (i : ℕ) (now : ℤ) (opens : Bool) :
    nextRecorder s (.joinRecords i now opens) =
      (s.set i { s.sessions i with tEnd := now, join := .recorded }).write i .atEnd
        (s.added i now opens) := by
  simp only [nextRecorder, Recorder.recordIn_eq]
  rfl

theorem recorderOk_joinRecords {s : Recorder} (h : RecorderOk s) (i : ℕ) (now : ℤ) (opens : Bool)
    (hen : (s.sessions i).state = .stopping) :
    RecorderOk (nextRecorder s (.joinRecords i now opens)) := by
  have hi := h.each i
  have hbusy : (s.sessions i).state ≠ .stopped := by
    rw [hen]
    decide
  have hstart := hi.started (Or.inl hbusy)
  -- joining comes first, so that the lines need not be those of `start` any more
  have hset : RecorderOk
      (s.set i { s.sessions i with tEnd := now, join := .recorded }) :=
    h.set_kept ⟨fun _ => hstart, hi.unnamed, fun hwait => absurd hwait (by simp),
      hi.cleared⟩ rfl
  rw [joinRecords_eq]
  have hr := hset.each i
  refine hset.write _ _ (h.lt_of_started (Or.inl hbusy)) ⟨hr.started, ?_, ?_, hr.cleared⟩
  · intro hn
    rw [Recorder.set_sessions_same] at hn ⊢
    obtain ⟨hname, hlines⟩ := hi.unnamed hn
    refine ⟨hname, ?_⟩
    rw [Recorder.write_linesOf_same, Recorder.set_linesOf, hlines]
    simp [Recorder.added, hname]
  · intro hwait
    simp at hwait

theorem recorderOk_openEncoder {s : Recorder} (h : RecorderOk s) (owner : Option ℕ)
    (settings : EffectiveSettings) (avcodec : Bool) :
    RecorderOk (nextRecorder s (.openEncoder owner settings avcodec)) := by
  have hstored : ∀ t : Recorder, RecorderOk t →
      RecorderOk (if avcodec then { t with stats := { t.stats with settings } } else t) := by
    intro t ht
    cases avcodec with
    | false => exact ht
    | true => exact ⟨ht.each, ht.fresh⟩
  cases owner with
  | none => exact hstored s h
  | some i =>
    have hi := h.each i
    exact hstored _ (h.set_kept (r := { s.sessions i with own := settings })
      ⟨hi.started, hi.unnamed, hi.atStart, hi.cleared⟩ rfl)

theorem RecorderOk.next {s : Recorder} (h : RecorderOk s) (e : RecorderEvent)
    (hen : RecorderEnabled s e) : RecorderOk (nextRecorder s e) := by
  cases e with
  | alloc clientName clientAddress width height fps => exact recorderOk_alloc h _ _ _ _ _
  | startThreads i address => exact recorderOk_startThreads h i address hen
  | storeRunning i => exact recorderOk_storeRunning h i hen
  | recordStart i now appName opens => exact recorderOk_recordStart h i now appName opens hen.1
  | countStart i =>
    have hi := h.each i
    have hlt : i < s.allocated := h.lt (by rw [hen.1]; decide)
    have hset : RecorderOk (s.set i { s.sessions i with start := .returned }) :=
      h.set ⟨fun _ => Or.inr rfl, hi.unnamed, hi.atStart,
    fun hno => absurd hno (by simp [StartStep.hasThreads])⟩
        fun hge => absurd hlt (Nat.not_lt.mpr hge)
    exact hset.counted _
  | openEncoder owner settings avcodec => exact recorderOk_openEncoder h owner settings avcodec
  | sample i metric value =>
    exact h.map (fun _ r => r.saw value metric) _ fun _ r => saw_same value metric r
  | broadcastReset =>
    exact h.map (fun _ r => { r with held := false }) _ fun _ _ =>
      ⟨rfl, rfl, rfl, rfl, rfl, fun _ => rfl⟩
  | stopExchange i =>
    have hi := h.each i
    have hbusy : (s.sessions i).state ≠ .stopped := by
      rw [show (s.sessions i).state = .running from hen]
      decide
    exact h.set_kept ⟨fun _ => hi.started (Or.inl hbusy), hi.unnamed, hi.atStart, hi.cleared⟩ rfl
  | stopLoads i =>
    have hi := h.each i
    exact h.set_kept ⟨hi.started, hi.unnamed, hi.atStart, hi.cleared⟩ rfl
  | stopResets i =>
    have hi := (h.resetBy i).each i
    exact (h.resetBy i).set_kept ⟨hi.started, hi.unnamed, hi.atStart, hi.cleared⟩ rfl
  | joinRecords i now opens => exact recorderOk_joinRecords h i now opens hen.1
  | joinCountsOff i =>
    have hi := h.each i
    have hjoined : (s.sessions i).join ≠ .waiting := by
      rw [show (s.sessions i).join = .recorded from hen]
      decide
    unfold nextRecorder
    generalize (s.runningSessions + (2 ^ 32 - 1)) % 2 ^ 32 = running
    have hset : RecorderOk (s.set i { s.sessions i with
        join := if running = 0 then .resetDue else .ended }) := by
      refine h.set_kept ⟨fun _ => hi.started (Or.inr hjoined), hi.unnamed, fun hwait => ?_,
        hi.cleared⟩ rfl
      simp only at hwait
      split at hwait
      · cases hwait
      · cases hwait
    exact hset.counted running
  | joinResets i =>
    have hi := (h.resetBy i).each i
    have hjoined : (s.sessions i).join ≠ .waiting := by
      rw [show (s.sessions i).join = .resetDue from hen]
      decide
    exact (h.resetBy i).set_kept ⟨fun _ => hi.started (Or.inr hjoined), hi.unnamed,
      fun hwait => absurd hwait (by simp), hi.cleared⟩ rfl

/-! ## What a step does to the history -/

/-- The part of `HistoryPerSession` about one session. -/
structure SessionWell (r : RecordedSession) (lines : List HistoryLine) (i : ℕ) : Prop where
  record : r.join ≠ .waiting → lines = [⟨i, .atEnd, r.expected⟩]
  kept : r.clearedBy = []

theorem historyPerSession_iff (s : Recorder) :
    HistoryPerSession s ↔ ∀ i, SessionWell (s.sessions i) (s.linesOf i) i :=
  ⟨fun h i => ⟨h.records i, h.kept i⟩, fun h => ⟨fun i => (h i).record, fun i => (h i).kept⟩⟩

/-- A step that is about one session at most. -/
theorem historyPerSession_one {s t : Recorder} (i : ℕ) (A : Prop)
    (hother : ∀ j, j ≠ i → t.sessions j = s.sessions j ∧ t.linesOf j = s.linesOf j)
    (hi : SessionWell (t.sessions i) (t.linesOf i) i ↔
      SessionWell (s.sessions i) (s.linesOf i) i ∧ A) :
    HistoryPerSession t ↔ HistoryPerSession s ∧ A := by
  rw [historyPerSession_iff, historyPerSession_iff]
  constructor
  · intro h
    have hboth := hi.mp (h i)
    refine ⟨fun j => ?_, hboth.2⟩
    by_cases hj : j = i
    · subst hj
      exact hboth.1
    · obtain ⟨hsession, hlines⟩ := hother j hj
      rw [← hsession, ← hlines]
      exact h j
  · rintro ⟨h, hA⟩ j
    by_cases hj : j = i
    · subst hj
      exact hi.mpr ⟨h j, hA⟩
    · obtain ⟨hsession, hlines⟩ := hother j hj
      rw [hsession, hlines]
      exact h j

theorem historyPerSession_set (s : Recorder) (i : ℕ) (r : RecordedSession) (A : Prop)
    (hi : SessionWell r (s.linesOf i) i ↔ SessionWell (s.sessions i) (s.linesOf i) i ∧ A) :
    HistoryPerSession (s.set i r) ↔ HistoryPerSession s ∧ A := by
  apply historyPerSession_one i A
  · exact fun j hj => ⟨Recorder.set_sessions_other s r hj, rfl⟩
  · rw [Recorder.set_sessions_same]
    exact hi

/-- A step that changes nothing the history is about. -/
theorem sessionWell_congr {r r' : RecordedSession} {lines : List HistoryLine} {i : ℕ}
    (hjoin : r'.join = .waiting ↔ r.join = .waiting)
    (hexpected : r.join ≠ .waiting → r'.expected = r.expected)
    (hcleared : r'.clearedBy = r.clearedBy) :
    SessionWell r' lines i ↔ SessionWell r lines i ∧ True := by
  rw [and_true]
  constructor
  · rintro ⟨hrecord, hkept⟩
    refine ⟨fun hjoined => ?_, hcleared ▸ hkept⟩
    rw [← hexpected hjoined]
    exact hrecord (fun h => hjoined (hjoin.mp h))
  · rintro ⟨hrecord, hkept⟩
    refine ⟨fun hjoined => ?_, hcleared.trans hkept⟩
    have hjoined' : r.join ≠ .waiting := fun h => hjoined (hjoin.mpr h)
    rw [hexpected hjoined']
    exact hrecord hjoined'

/-- Setting what the history is not about. -/
theorem historyPerSession_keeps (s : Recorder) (i : ℕ) (r : RecordedSession)
    (hjoin : r.join = .waiting ↔ (s.sessions i).join = .waiting)
    (hexpected : (s.sessions i).join ≠ .waiting → r.expected = (s.sessions i).expected)
    (hcleared : r.clearedBy = (s.sessions i).clearedBy) :
    HistoryPerSession (s.set i r) ↔ HistoryPerSession s ∧ True :=
  historyPerSession_set s i r True (sessionWell_congr hjoin hexpected hcleared)

/-- A session without threads has not been joined. -/
theorem RecordedOk.waiting {r : RecordedSession} {lines : List HistoryLine} (h : RecordedOk r lines)
    (hstart : r.start ≠ .runningStored ∧ r.start ≠ .returned) : r.join = .waiting := by
  by_contra hjoined
  exact (h.started (Or.inr hjoined)).elim hstart.1 hstart.2

theorem historyPerSession_alloc {s : Recorder} (h : RecorderOk s)
    (clientName clientAddress : String) (width height fps : ℤ) :
    HistoryPerSession (nextRecorder s (.alloc clientName clientAddress width height fps)) ↔
      HistoryPerSession s ∧ True := by
  obtain ⟨hstart, -⟩ := h.fresh s.allocated le_rfl
  have hi := h.each s.allocated
  have hwait : (s.sessions s.allocated).join = .waiting :=
    hi.waiting (by rw [hstart]; decide)
  have hcleared := hi.cleared (by rw [hstart]; rfl)
  have hset := historyPerSession_keeps s s.allocated
    { start := .allocated, clientName, clientAddress, width, height, fps }
    (by simp [hwait]) (fun hjoined => absurd hwait hjoined) hcleared.symm
  rw [← hset]
  exact ⟨fun hp => ⟨hp.records, hp.kept⟩, fun hp => ⟨hp.records, hp.kept⟩⟩

/-- What `start` records of a joined session comes too late, and was not its record. -/
theorem historyPerSession_recordStart {s : Recorder} (h : RecorderOk s) (i : ℕ) (now : ℤ)
    (appName : String) (opens : Bool) (hnamed : (s.sessions i).named = false) :
    HistoryPerSession (nextRecorder s (.recordStart i now appName opens)) ↔
      HistoryPerSession s ∧ True := by
  have hi := h.each i
  have hnext : nextRecorder s (.recordStart i now appName opens) =
      Recorder.write (s.set i { s.sessions i with tStart := now, appName, named := true }) i .atStart
        (Recorder.added (s.set i { s.sessions i with tStart := now, appName, named := true }) i now
          opens) :=
    Recorder.recordIn_eq _ _ _ _ _
  rw [hnext]
  generalize Recorder.added _ i now opens = line
  apply historyPerSession_one i True
  · intro j hj
    refine ⟨Recorder.set_sessions_other s _ hj, ?_⟩
    rw [Recorder.write_linesOf_other _ _ _ hj, Recorder.set_linesOf]
  · rw [Recorder.write_sessions, Recorder.set_sessions_same, Recorder.write_linesOf_same,
      Recorder.set_linesOf, (hi.unnamed hnamed).2, and_true]
    by_cases hwait : (s.sessions i).join = .waiting
    · exact ⟨fun hw => ⟨fun hjoined => absurd hwait hjoined, hw.kept⟩,
        fun hw => ⟨fun hjoined => absurd hwait hjoined, hw.kept⟩⟩
    · constructor
      · intro hw
        have hline := hw.record hwait
        cases line with
        | none => simp at hline
        | some record => simp at hline
      · intro hw
        have hline := hw.record hwait
        simp at hline

/-- The record of `join` is the expected one under just these conditions. -/
theorem added_eq_expected_iff (s : Recorder) (i : ℕ) (now : ℤ) (opens : Bool) :
    s.added i now opens =
        some { s.sessions i with tEnd := now, join := JoinStep.recorded : RecordedSession }.expected ↔
      (s.sessions i).appName ≠ "" ∧ opens = true ∧ seconds (s.sessions i).tStart ≤ seconds now ∧
        s.stats.settings.codec = (s.sessions i).own.codec ∧
        bitrateKbps s.stats.settings.bitRate = bitrateKbps (s.sessions i).own.bitRate ∧
        s.stats.rttMs.snapshot.avg = averageOf (s.sessions i).rttSeen ∧
        s.stats.encodeMs.snapshot.avg = averageOf (s.sessions i).encodeSeen := by
  unfold Recorder.added
  by_cases hname : (s.sessions i).appName = ""
  · simp [hname]
  · rw [if_neg hname, recordLine_eq_some_iff _ _ _ hname rfl]
    simp [makeRecord, RecordedSession.expected, hname]

theorem historyPerSession_joinRecords {s : Recorder} (h : RecorderOk s) (i : ℕ) (now : ℤ)
    (opens : Bool) (hwait : (s.sessions i).join = .waiting) :
    HistoryPerSession (nextRecorder s (.joinRecords i now opens)) ↔
      HistoryPerSession s ∧ JoinRecordsWell s i now opens := by
  rw [joinRecords_eq]
  apply historyPerSession_one i
  · intro j hj
    refine ⟨Recorder.set_sessions_other s _ hj, ?_⟩
    rw [Recorder.write_linesOf_other _ _ _ hj, Recorder.set_linesOf]
  · rw [Recorder.write_sessions, Recorder.set_sessions_same, Recorder.write_linesOf_same,
      Recorder.set_linesOf]
    have hat := (h.each i).atStart hwait
    have hadded := added_eq_expected_iff s i now opens
    constructor
    · intro hw
      have hline := hw.record (by simp)
      have hnone : s.linesOf i = [] := by
        -- any line there is one of `start`
        cases hlines : s.linesOf i with
        | nil => rfl
        | cons line rest =>
          rw [hlines, List.cons_append, List.cons.injEq] at hline
          have hstart := hat line (by rw [hlines]; exact List.mem_cons_self)
          rw [hline.1] at hstart
          cases hstart
      rw [hnone, List.nil_append] at hline
      have hsome : s.added i now opens =
          some { s.sessions i with tEnd := now, join := JoinStep.recorded }.expected := by
        cases hline' : s.added i now opens with
        | none => simp [hline'] at hline
        | some record =>
          simp only [hline', Option.toList_some, List.map_cons, List.map_nil, List.cons.injEq,
            HistoryLine.mk.injEq, true_and, and_true] at hline
          rw [hline]
      obtain ⟨hname, hopens, hclock, hcodec, hbitrate, hrtt, hencode⟩ := hadded.mp hsome
      exact ⟨⟨fun hjoined => absurd hwait hjoined, hw.kept⟩,
        ⟨hnone, hname, hopens, hclock, hcodec, hbitrate, hrtt, hencode⟩⟩
    · rintro ⟨hw, hwell⟩
      have hsome := hadded.mpr ⟨hwell.named, hwell.opens, hwell.clock, hwell.codec, hwell.bitrate,
        hwell.rtt, hwell.encode⟩
      refine ⟨fun _ => ?_, hw.kept⟩
      rw [hwell.unwritten, hsome]
      rfl

/-- A reset is well if it finds no sample of another session that runs. -/
theorem historyPerSession_resetBy (s : Recorder) (i : ℕ) :
    HistoryPerSession (s.resetBy i) ↔ HistoryPerSession s ∧
      ∀ j, j ≠ i → (s.sessions j).runs = true → (s.sessions j).held = false := by
  rw [historyPerSession_iff, historyPerSession_iff, ← forall_and]
  apply forall_congr'
  intro j
  show SessionWell ((s.sessions j).clearedAt i j) (s.linesOf j) j ↔ _
  constructor
  · rintro ⟨hrecord, hkept⟩
    simp only [RecordedSession.clearedAt] at hkept
    split at hkept
    · simp at hkept
    · rename_i hno
      refine ⟨⟨hrecord, hkept⟩, fun hj hruns => ?_⟩
      by_contra hheld
      exact hno ⟨hj, hruns, by simpa using hheld⟩
  · rintro ⟨⟨hrecord, hkept⟩, hno⟩
    refine ⟨hrecord, ?_⟩
    simp only [RecordedSession.clearedAt]
    rw [if_neg, hkept]
    rintro ⟨hj, hruns, hheld⟩
    rw [hno hj hruns] at hheld
    cases hheld

/-- What is collected while sessions run is nothing to those that are joined. -/
theorem historyPerSession_map (s : Recorder) (stats : LatencyStats)
    (f : RecordedSession → RecordedSession)
    (hf : ∀ r, (f r).join = r.join ∧ (f r).clearedBy = r.clearedBy ∧
      (r.join ≠ .waiting → (f r).expected = r.expected)) :
    HistoryPerSession { s with stats, sessions := fun j => f (s.sessions j) } ↔
      HistoryPerSession s ∧ True := by
  rw [historyPerSession_iff, historyPerSession_iff, and_true]
  apply forall_congr'
  intro j
  obtain ⟨hjoin, hcleared, hexpected⟩ := hf (s.sessions j)
  have hwell := @sessionWell_congr _ _ (s.linesOf j) j
    (by rw [hjoin] : (f (s.sessions j)).join = .waiting ↔ _) hexpected hcleared
  rw [and_true] at hwell
  exact hwell

theorem saw_expected (value : Option ℚ) (metric : Metric) (r : RecordedSession) :
    (r.saw value metric).join = r.join ∧ (r.saw value metric).clearedBy = r.clearedBy ∧
      (r.join ≠ .waiting → (r.saw value metric).expected = r.expected) := by
  unfold RecordedSession.saw
  cases hruns : r.runs with
  | false => simp
  | true =>
    have hwait : r.join = .waiting := by
      simp only [RecordedSession.runs, Bool.and_eq_true, decide_eq_true_eq] at hruns
      exact hruns.2
    cases metric with
    | encode => simp [hwait]
    | rtt => simp [hwait]

theorem historyPerSession_openEncoder (s : Recorder) (owner : Option ℕ)
    (settings : EffectiveSettings) (avcodec : Bool)
    (hen : RecorderEnabled s (.openEncoder owner settings avcodec)) :
    HistoryPerSession (nextRecorder s (.openEncoder owner settings avcodec)) ↔
      HistoryPerSession s ∧ True := by
  have hstored : ∀ t : Recorder, HistoryPerSession
      (if avcodec then { t with stats := { t.stats with settings } } else t) ↔
        HistoryPerSession t := by
    intro t
    cases avcodec with
    | false => exact Iff.rfl
    | true => exact ⟨fun h => ⟨h.records, h.kept⟩, fun h => ⟨h.records, h.kept⟩⟩
  cases owner with
  | none =>
    rw [and_true]
    exact hstored s
  | some i =>
    have hruns : (s.sessions i).runs = true := hen
    have hwait : (s.sessions i).join = .waiting := by
      simp only [RecordedSession.runs, Bool.and_eq_true, decide_eq_true_eq] at hruns
      exact hruns.2
    exact (hstored _).trans (historyPerSession_keeps s i { s.sessions i with own := settings } Iff.rfl
      (fun hjoined => absurd hwait hjoined) rfl)

theorem historyPerSession_counted (s : Recorder) (runningSessions : ℕ) :
    HistoryPerSession { s with runningSessions } ↔ HistoryPerSession s :=
  ⟨fun h => ⟨h.records, h.kept⟩, fun h => ⟨h.records, h.kept⟩⟩

theorem historyPerSession_joinCountsOff (s : Recorder) (i running : ℕ)
    (hjoined : (s.sessions i).join = .recorded) :
    HistoryPerSession
        { s.set i { s.sessions i with join := if running = 0 then .resetDue else .ended } with
          runningSessions := running } ↔ HistoryPerSession s ∧ True := by
  refine (historyPerSession_counted _ running).trans
    (historyPerSession_keeps s i _ ?_ (fun _ => rfl) rfl)
  rw [hjoined]
  split
  · simp
  · simp

/-- Every step keeps the history per session if and only if it records well. -/
theorem historyPerSession_next {s : Recorder} (h : RecorderOk s) (e : RecorderEvent)
    (hen : RecorderEnabled s e) :
    HistoryPerSession (nextRecorder s e) ↔ HistoryPerSession s ∧ RecordsWell s e := by
  cases e with
  | alloc clientName clientAddress width height fps => exact historyPerSession_alloc h _ _ _ _ _
  | startThreads i address =>
    have hwait : (s.sessions i).join = .waiting :=
      (h.each i).waiting (by rw [show (s.sessions i).start = .allocated from hen]; decide)
    exact historyPerSession_keeps s i _ Iff.rfl (fun hjoined => absurd hwait hjoined) rfl
  | storeRunning i => exact historyPerSession_keeps s i _ Iff.rfl (fun _ => rfl) rfl
  | recordStart i now appName opens =>
    exact historyPerSession_recordStart h i now appName opens hen.2
  | countStart i =>
    exact (historyPerSession_counted _ _).trans
      (historyPerSession_keeps s i { s.sessions i with start := .returned } Iff.rfl (fun _ => rfl) rfl)
  | openEncoder owner settings avcodec =>
    exact historyPerSession_openEncoder s owner settings avcodec hen
  | sample i metric value =>
    exact historyPerSession_map s _ (fun r => r.saw value metric) fun r => saw_expected value metric r
  | broadcastReset =>
    exact historyPerSession_map s _ (fun r => { r with held := false }) fun _ =>
      ⟨rfl, rfl, fun _ => rfl⟩
  | stopExchange i => exact historyPerSession_keeps s i _ Iff.rfl (fun _ => rfl) rfl
  | stopLoads i => exact historyPerSession_keeps s i _ Iff.rfl (fun _ => rfl) rfl
  | stopResets i =>
    rw [← show _ ↔ HistoryPerSession s ∧ RecordsWell s (.stopResets i) from
      historyPerSession_resetBy s i, ← and_true (HistoryPerSession (s.resetBy i))]
    exact historyPerSession_keeps (s.resetBy i) i _ Iff.rfl (fun _ => rfl) rfl
  | joinRecords i now opens => exact historyPerSession_joinRecords h i now opens hen.2
  | joinCountsOff i => exact historyPerSession_joinCountsOff s i _ hen
  | joinResets i =>
    have hjoined : (s.sessions i).join = .resetDue := hen
    rw [← show _ ↔ HistoryPerSession s ∧ RecordsWell s (.joinResets i) from
      historyPerSession_resetBy s i, ← and_true (HistoryPerSession (s.resetBy i))]
    have hsame : ((s.resetBy i).sessions i).join = .resetDue := hjoined
    exact historyPerSession_keeps (s.resetBy i) i _ (by simp [hsame]) (fun _ => rfl) rfl

/-! ## Runs of the whole -/

theorem recorderOk_initial : RecorderOk {} := by
  refine ⟨fun i => ⟨fun hbusy => ?_, fun _ => ⟨rfl, rfl⟩, fun _ line hline => ?_, fun _ => rfl⟩,
    fun i _ => ⟨rfl, rfl⟩⟩
  · simp at hbusy
  · simp [Recorder.linesOf] at hline

theorem historyPerSession_initial : HistoryPerSession {} :=
  ⟨fun _ hjoined => absurd rfl hjoined, fun _ => rfl⟩

theorem historyPerSession_run {s : Recorder} (h : RecorderOk s) (l : List RecorderEvent)
    (hrun : Runs RecorderEnabled nextRecorder s l) :
    HistoryPerSession (l.foldl nextRecorder s) ↔
      HistoryPerSession s ∧ Runs RecordsWell nextRecorder s l := by
  induction l generalizing s with
  | nil => simp [Runs]
  | cons e l ih =>
    obtain ⟨hen, hrest⟩ := hrun
    rw [List.foldl_cons, ih (h.next e hen) hrest, historyPerSession_next h e hen, and_assoc]
    rfl

/-- Two sessions, of which the first ends alone: the file could not be written at its start, and all
samples are its own. -/
def overlapping : List RecorderEvent :=
  [.alloc "tv" "" 1920 1080 60, .alloc "phone" "" 1280 720 30, .startThreads 0 "10.0.0.2",
    .storeRunning 0, .recordStart 0 (10 ^ 9) "Desktop" false, .countStart 0,
    .openEncoder (some 0) ⟨"hevc", 20000000⟩ true, .sample 0 .encode (some 5),
    .startThreads 1 "10.0.0.3", .storeRunning 1, .recordStart 1 (3 * 10 ^ 9) "Desktop" true,
    .countStart 1, .stopExchange 0, .stopLoads 0, .joinRecords 0 (9 * 10 ^ 9) true,
    .joinCountsOff 0]

def FileOpens : RecorderEvent → Prop
  | .recordStart _ _ _ opens | .joinRecords _ _ opens => opens = true
  | _ => True

/-- The lines of a session without an application, and of one that `start` has recorded. -/
def StartRecorded (appName : String) (lines : List HistoryLine) : Prop :=
  if appName = "" then lines = [] else ∃ line ∈ lines, line.written = .atStart

theorem recordLine_opens (r : SessionRecord) (hname : r.appName ≠ "") :
    (recordLine true r).isSome = true := by
  simp [recordLine, hname]

theorem startRecorded_recordStart {s : Recorder} (h : RecorderOk s) (i : ℕ) (now : ℤ)
    (appName : String) (hnamed : (s.sessions i).named = false)
    (hs : ∀ j, StartRecorded (s.sessions j).appName (s.linesOf j)) (j : ℕ) :
    StartRecorded ((nextRecorder s (.recordStart i now appName true)).sessions j).appName
      ((nextRecorder s (.recordStart i now appName true)).linesOf j) := by
  have hlines := ((h.each i).unnamed hnamed).2
  simp only [nextRecorder, Recorder.recordIn_eq, Recorder.write_sessions]
  by_cases hj : j = i
  · subst hj
    rw [Recorder.write_linesOf_same, Recorder.set_linesOf, hlines, Recorder.added,
      Recorder.set_sessions_same]
    unfold StartRecorded
    by_cases hname : appName = ""
    · simp [hname]
    · simp only [if_neg hname, List.nil_append]
      generalize hr : makeRecord _ _ now = r
      have hr' : r.appName ≠ "" := by
        rw [← hr]
        exact hname
      obtain ⟨record, hrecord⟩ := Option.isSome_iff_exists.mp (recordLine_opens r hr')
      rw [hrecord]
      exact ⟨_, List.mem_singleton_self _, rfl⟩
  · rw [Recorder.write_linesOf_other _ _ _ hj, Recorder.set_linesOf,
      Recorder.set_sessions_other _ _ hj]
    exact hs j

theorem startRecorded_joinRecords {s : Recorder} (i : ℕ) (now : ℤ) (opens : Bool)
    (hs : ∀ j, StartRecorded (s.sessions j).appName (s.linesOf j)) (j : ℕ) :
    StartRecorded ((nextRecorder s (.joinRecords i now opens)).sessions j).appName
      ((nextRecorder s (.joinRecords i now opens)).linesOf j) := by
  rw [joinRecords_eq, Recorder.write_sessions]
  by_cases hj : j = i
  · subst hj
    rw [Recorder.set_sessions_same, Recorder.write_linesOf_same, Recorder.set_linesOf]
    have hold := hs j
    unfold StartRecorded at hold ⊢
    by_cases hname : (s.sessions j).appName = ""
    · rw [if_pos hname] at hold ⊢
      simp [hold, Recorder.added, hname]
    · rw [if_neg hname] at hold ⊢
      obtain ⟨line, hline, hwritten⟩ := hold
      exact ⟨line, List.mem_append_left _ hline, hwritten⟩
  · rw [Recorder.write_linesOf_other _ _ _ hj, Recorder.set_linesOf,
      Recorder.set_sessions_other _ _ hj]
    exact hs j

/-- A step that leaves every session's application and lines as they are. -/
theorem startRecorded_same {s t : Recorder} (hname : ∀ j, (t.sessions j).appName = (s.sessions j).appName)
    (hlines : ∀ j, t.linesOf j = s.linesOf j)
    (hs : ∀ j, StartRecorded (s.sessions j).appName (s.linesOf j)) (j : ℕ) :
    StartRecorded (t.sessions j).appName (t.linesOf j) := by
  rw [hname, hlines]
  exact hs j

theorem appName_set (s : Recorder) (i : ℕ) (r : RecordedSession)
    (hname : r.appName = (s.sessions i).appName) (j : ℕ) :
    ((s.set i r).sessions j).appName = (s.sessions j).appName := by
  by_cases hj : j = i
  · subst hj
    rw [Recorder.set_sessions_same]
    exact hname
  · rw [Recorder.set_sessions_other s r hj]

theorem startRecorded_counted (s : Recorder) (i : ℕ) (r : RecordedSession) (running : ℕ)
    (hname : r.appName = (s.sessions i).appName)
    (hs : ∀ j, StartRecorded (s.sessions j).appName (s.linesOf j)) (j : ℕ) :
    StartRecorded (({ s.set i r with runningSessions := running } : Recorder).sessions j).appName
      (({ s.set i r with runningSessions := running } : Recorder).linesOf j) := by
  have hset := appName_set s i r hname j
  show StartRecorded ((s.set i r).sessions j).appName (s.linesOf j)
  rw [hset]
  exact hs j

theorem startRecorded_next {s : Recorder} (h : RecorderOk s) (e : RecorderEvent)
    (hen : RecorderEnabled s e) (hopens : FileOpens e)
    (hs : ∀ j, StartRecorded (s.sessions j).appName (s.linesOf j)) (j : ℕ) :
    StartRecorded ((nextRecorder s e).sessions j).appName ((nextRecorder s e).linesOf j) := by
  cases e with
  | alloc clientName clientAddress width height fps =>
    by_cases hj : j = s.allocated
    · subst hj
      have hlines := (h.fresh s.allocated le_rfl).2
      have hsession : (nextRecorder s (.alloc clientName clientAddress width height fps)).sessions
          s.allocated = { start := .allocated, clientName, clientAddress, width, height, fps } :=
        Recorder.set_sessions_same s _ _
      rw [hsession]
      exact hlines
    · have hsession : (nextRecorder s (.alloc clientName clientAddress width height fps)).sessions j =
          s.sessions j := Recorder.set_sessions_other s _ hj
      rw [hsession]
      exact hs j
  | recordStart i now appName opens =>
    rw [show opens = true from hopens]
    exact startRecorded_recordStart h i now appName hen.2 hs j
  | joinRecords i now opens => exact startRecorded_joinRecords i now opens hs j
  | startThreads i | storeRunning i | stopExchange i | stopLoads i =>
    exact startRecorded_same (appName_set s i _ (by rfl)) (fun _ => rfl) hs j
  | countStart i => exact startRecorded_counted s i _ _ (by rfl) hs j
  | joinCountsOff i => exact startRecorded_counted s i _ _ (by rfl) hs j
  | openEncoder owner settings avcodec =>
    apply startRecorded_same _ _ hs
    · intro j
      cases owner with
      | none => cases avcodec <;> rfl
      | some i =>
        have hset := appName_set s i { s.sessions i with own := settings } rfl j
        cases avcodec <;> exact hset
    · intro j
      cases owner <;> cases avcodec <;> rfl
  | sample i metric value =>
    have hname := fun j => (saw_same value metric (s.sessions j)).2.2.2.1
    exact startRecorded_same (t := nextRecorder s (.sample i metric value)) hname (fun _ => rfl) hs j
  | broadcastReset => exact hs j
  | stopResets i | joinResets i =>
    exact startRecorded_same (appName_set (s.resetBy i) i _ (by rfl)) (fun _ => rfl) hs j

/-- With a history file that can be written, the history is per session only as long as no session
has been joined: `start` has recorded it before, or it has no application and is not recorded. -/
theorem waiting_of_historyPerSession (l : List RecorderEvent)
    (hrun : Runs (fun s e => RecorderEnabled s e ∧ FileOpens e) nextRecorder {} l)
    (h : HistoryPerSession (l.foldl nextRecorder {})) (i : ℕ) :
    ((l.foldl nextRecorder {}).sessions i).join = .waiting := by
  have hinv := hrun.invariant
    (fun s => RecorderOk s ∧ ∀ j, StartRecorded (s.sessions j).appName (s.linesOf j))
    ⟨recorderOk_initial, fun _ => rfl⟩
    (fun s e hs he => ⟨hs.1.next e he.1, startRecorded_next hs.1 e he.1 he.2 hs.2⟩)
  by_contra hjoined
  have hlines := h.records i hjoined
  have hstart := hinv.2 i
  unfold StartRecorded at hstart
  split at hstart
  · rw [hstart] at hlines
    cases hlines
  · obtain ⟨line, hline, hwritten⟩ := hstart
    rw [hlines, List.mem_singleton] at hline
    rw [hline] at hwritten
    cases hwritten

/-- One session in an otherwise quiet server: it is recorded at its start, its only sample is cleared
when it stops, and it is recorded again when it is joined. -/
def loneSession : List RecorderEvent :=
  [.alloc "tv" "" 1920 1080 60, .startThreads 0 "10.0.0.2", .storeRunning 0,
    .recordStart 0 (10 ^ 9) "Desktop" true, .countStart 0, .openEncoder (some 0) ⟨"hevc", 20000000⟩ true,
    .sample 0 .encode (some 5), .stopExchange 0, .stopLoads 0, .stopResets 0,
    .joinRecords 0 (9 * 10 ^ 9) true, .joinCountsOff 0, .joinResets 0]

end Sunshine.Session
