import Sunshine.Lib.Rings
import Sunshine.Lib.Transitions
import Mathlib.Algebra.Order.Ring.Nat
import Mathlib.Algebra.BigOperators.Group.List.Basic

/-! The buffer of `mic_wasapi_t`, which packets of any size go into and frames of one size come out of.

`wasapi_fifo_iff` says for which devices the samples come out as they went in. -/
namespace Sunshine.WasapiBuffer
open FillLevel Transitions
set_option autoImplicit false

/-- What the device and the session ask for. The device hands out packets of at most `largest` frames, in a format with
at most eight channels. -/
structure Device where
  frames : ℕ
  frameSize : ℕ
  channels : ℕ
  largest : ℕ
  frameSize_pos : 0 < frameSize
  channels_pos : 0 < channels
  channels_le : channels ≤ 8
  largest_pos : 0 < largest

def Device.sampleSize (device : Device) : ℕ := device.frameSize * device.channels

/-- The length of `sample_buf`. -/
def Device.capacity (device : Device) : ℕ := max device.frames device.frameSize * 2 * device.channels

section Model
variable {Sample : Type} (silence : Sample) (device : Device)

structure Packet (Sample : Type) (device : Device) where
  audioSampleSize : ℕ
  samples : List Sample
  silent : Bool
  length_eq : samples.length = audioSampleSize * device.channels
  size_le : audioSampleSize ≤ device.largest

inductive Capture where
  | ok
  | reinit
  | timeout
  | error
  deriving DecidableEq

/-- What comes behind the packets: no further one, or an error of `GetNextPacketSize` or `GetBuffer`. -/
inductive Status where
  | ok
  | deviceInvalidated
  | failed

def Status.capture : Status → Capture
  | .ok => .ok
  | .deviceInvalidated => .reinit
  | .failed => .error

/-- What one call of `_fill_buffer` meets. -/
inductive Fill (Sample : Type) (device : Device) where
  | deviceChanged
  | timeout
  | waitFailed
  | packets (packets : List (Packet Sample device)) (status : Status)

structure Mic (Sample : Type) where
  sampleBuf : List Sample
  sampleBufPos : ℕ
  continuousAudio : Bool

variable {device}

/-- The counts are kept in 32 bits. -/
def store (mic : Mic Sample) (packet : Packet Sample device) : Mic Sample :=
  let uninitialized := (mic.sampleBuf.length - mic.sampleBufPos) % 2 ^ 32
  let n := min uninitialized (packet.audioSampleSize * device.channels % 2 ^ 32)
  let written := if packet.silent then List.replicate n silence else packet.samples.take n
  { mic with sampleBuf := write mic.sampleBuf mic.sampleBufPos written, sampleBufPos := mic.sampleBufPos + n }

/-- `_fill_buffer`. -/
def fillBuffer (mic : Mic Sample) : Fill Sample device → Capture × Mic Sample
  | .deviceChanged => (.reinit, mic)
  | .timeout => (.timeout, mic)
  | .waitFailed => (.error, mic)
  | .packets packets status => (status.capture, packets.foldl (store silence) mic)

/-- Between two calls of `sample`, or in the loop of one. -/
structure State (Sample : Type) where
  mic : Mic Sample
  sampling : Bool
  /-- What the calls with `ok` have put into `sample_out`. -/
  given : List (List Sample)

/-- A call of `sample`, a turn of its loop, and what stands behind the loop. -/
inductive Event (Sample : Type) (device : Device) where
  | call
  | fill (fill : Fill Sample device)
  | finish

def enabled (s : State Sample) : Event Sample device → Prop
  | .call => s.sampling = false
  | .fill _ => s.sampling = true ∧ s.mic.sampleBufPos < device.sampleSize
  | .finish => s.sampling = true ∧ device.sampleSize ≤ s.mic.sampleBufPos

def next (s : State Sample) : Event Sample device → State Sample
  | .call => { s with sampling := true }
  | .fill fill =>
    let (captureResult, mic) := fillBuffer silence s.mic fill
    if captureResult = .timeout ∧ mic.continuousAudio then
      { s with mic := { mic with
        sampleBuf := write mic.sampleBuf mic.sampleBufPos (List.replicate device.sampleSize silence)
        sampleBufPos := mic.sampleBufPos + device.sampleSize } }
    else if captureResult ≠ .ok then { s with mic := mic, sampling := false }
    else { s with mic := mic }
  | .finish =>
    { mic := { s.mic with
        sampleBuf := shift s.mic.sampleBuf s.mic.sampleBufPos device.sampleSize
        sampleBufPos := s.mic.sampleBufPos - device.sampleSize }
      sampling := false
      given := s.given ++ [s.mic.sampleBuf.take device.sampleSize] }

variable (device) in
/-- Behind `init`. -/
def start (continuous : Bool) : State Sample where
  mic := { sampleBuf := List.replicate device.capacity silence, sampleBufPos := 0, continuousAudio := continuous }
  sampling := false
  given := []

/-! ## What is taken in -/

def Packet.data (packet : Packet Sample device) : List Sample :=
  if packet.silent then List.replicate (packet.audioSampleSize * device.channels) silence else packet.samples

/-- The packets one behind the other, as far as there is room. -/
def accepted : ℕ → List (Packet Sample device) → List Sample
  | _, [] => []
  | room, packet :: packets =>
    (packet.data silence).take room ++ accepted (room - (packet.data silence).length) packets

/-- A timeout in continuous mode stands for silence. -/
def takenBy (mic : Mic Sample) : Fill Sample device → List Sample
  | .deviceChanged => []
  | .timeout => if mic.continuousAudio then List.replicate device.sampleSize silence else []
  | .waitFailed => []
  | .packets packets _ => accepted silence (device.capacity - mic.sampleBufPos) packets

def takenAt (s : State Sample) : Event Sample device → List Sample
  | .call => []
  | .fill fill => takenBy silence s.mic fill
  | .finish => []

def taken : State Sample → List (Event Sample device) → List Sample
  | _, [] => []
  | s, event :: events => takenAt silence s event ++ taken (next silence s event) events

variable (device) in
/-- The samples given out and those still in the buffer are those taken in. -/
structure Fifo (s : State Sample) (taken : List Sample) : Prop where
  length : s.mic.sampleBuf.length = device.capacity
  inside : s.mic.sampleBufPos ≤ device.capacity
  aligned : device.channels ∣ s.mic.sampleBufPos
  whole : ∀ out ∈ s.given, out.length = device.sampleSize
  order : s.given.flatten ++ s.mic.sampleBuf.take s.mic.sampleBufPos = taken

end Model

section Kept
variable {Sample : Type} (silence : Sample) {device : Device}

/-! ## One packet -/

theorem data_length (packet : Packet Sample device) :
    (packet.data silence).length = packet.audioSampleSize * device.channels := by
  unfold Packet.data
  split_ifs
  · exact List.length_replicate
  · exact packet.length_eq

theorem accepted_length (room : ℕ) (packets : List (Packet Sample device)) : (accepted silence room packets).length =
    min room (packets.map fun packet => (packet.data silence).length).sum := by
  induction packets generalizing room with
  | nil => exact (Nat.min_zero room).symm
  | cons packet packets ih =>
    rw [accepted, List.length_append, List.length_take, ih, List.map_cons, List.sum_cons]
    omega

/-- What holds of the buffer alone. -/
structure Sound (device : Device) (mic : Mic Sample) : Prop where
  length : mic.sampleBuf.length = device.capacity
  inside : mic.sampleBufPos ≤ device.capacity
  aligned : device.channels ∣ mic.sampleBufPos

def contents (mic : Mic Sample) : List Sample := mic.sampleBuf.take mic.sampleBufPos

theorem capacity_aligned (device : Device) : device.channels ∣ device.capacity := Nat.dvd_mul_left _ _

theorem sampleSize_le (device : Device) : 2 * device.sampleSize ≤ device.capacity := by
  unfold Device.sampleSize Device.capacity
  rw [← Nat.mul_assoc, Nat.mul_comm 2]
  exact Nat.mul_le_mul_right _ (Nat.mul_le_mul_right 2 (Nat.le_max_right _ _))

variable {mic : Mic Sample}

/-- Where both counts fit, a packet is stored as far as there is room. -/
theorem store_spec (hcapacity : device.capacity < 2 ^ 32) (packet : Packet Sample device)
    (hpacket : packet.audioSampleSize * device.channels < 2 ^ 32) (h : Sound device mic) :
    Sound device (store silence mic packet) ∧
      contents (store silence mic packet) =
        contents mic ++ (packet.data silence).take (device.capacity - mic.sampleBufPos) ∧
      device.capacity - (store silence mic packet).sampleBufPos =
        device.capacity - mic.sampleBufPos - (packet.data silence).length := by
  obtain ⟨hlength, hinside, haligned⟩ := h
  have hn : min ((mic.sampleBuf.length - mic.sampleBufPos) % 2 ^ 32)
      (packet.audioSampleSize * device.channels % 2 ^ 32) =
      min (device.capacity - mic.sampleBufPos) (packet.audioSampleSize * device.channels) := by
    rw [hlength, Nat.mod_eq_of_lt hpacket, Nat.mod_eq_of_lt (by omega)]
  have hwritten : (if packet.silent then List.replicate (min (device.capacity - mic.sampleBufPos)
        (packet.audioSampleSize * device.channels)) silence
      else packet.samples.take (min (device.capacity - mic.sampleBufPos)
        (packet.audioSampleSize * device.channels))) =
      (packet.data silence).take (device.capacity - mic.sampleBufPos) := by
    unfold Packet.data
    split_ifs
    · rw [List.take_replicate]
    · rw [← packet.length_eq]
      exact List.take_eq_take_min.symm
  have hcount : min (device.capacity - mic.sampleBufPos) (packet.audioSampleSize * device.channels) =
      ((packet.data silence).take (device.capacity - mic.sampleBufPos)).length := by
    rw [List.length_take, data_length]
  unfold store contents
  dsimp only
  rw [hn, hwritten]
  refine ⟨⟨?_, ?_, ?_⟩, ?_, ?_⟩
  · dsimp only
    rw [length_write (by omega), hlength]
  · dsimp only
    omega
  · refine Nat.dvd_add haligned ?_
    cases Nat.le_total (device.capacity - mic.sampleBufPos) (packet.audioSampleSize * device.channels) with
    | inl hle =>
      rw [Nat.min_eq_left hle]
      exact Nat.dvd_sub (capacity_aligned device) haligned
    | inr hle =>
      rw [Nat.min_eq_right hle]
      exact Nat.dvd_mul_left _ _
  · exact take_write (by omega) hcount
  · rw [data_length]
    omega

theorem foldl_store (hcapacity : device.capacity < 2 ^ 32) (hlargest : device.largest * device.channels < 2 ^ 32)
    (packets : List (Packet Sample device)) (h : Sound device mic) :
    Sound device (packets.foldl (store silence) mic) ∧
      contents (packets.foldl (store silence) mic) =
        contents mic ++ accepted silence (device.capacity - mic.sampleBufPos) packets := by
  induction packets generalizing mic with
  | nil => exact ⟨h, (List.append_nil _).symm⟩
  | cons packet packets ih =>
    have hpacket : packet.audioSampleSize * device.channels < 2 ^ 32 :=
      (Nat.mul_le_mul_right _ packet.size_le).trans_lt hlargest
    obtain ⟨hsound, hcontents, hroom⟩ := store_spec silence hcapacity packet hpacket h
    obtain ⟨hall, hrest⟩ := ih hsound
    refine ⟨hall, ?_⟩
    rw [List.foldl_cons, hrest, hcontents, hroom, accepted, List.append_assoc]

end Kept

section Runs
variable {Sample : Type} (silence : Sample) {device : Device}

/-! ## One event -/

theorem fifo_of_sound {s : State Sample} {before : List Sample} (h : Fifo device s before) : Sound device s.mic :=
  ⟨h.length, h.inside, h.aligned⟩

/-- What a turn of the loop leaves of the microphone. -/
def turned (mic : Mic Sample) (fill : Fill Sample device) : Mic Sample :=
  let (captureResult, mic) := fillBuffer silence mic fill
  if captureResult = .timeout ∧ mic.continuousAudio then
    { mic with
      sampleBuf := write mic.sampleBuf mic.sampleBufPos (List.replicate device.sampleSize silence)
      sampleBufPos := mic.sampleBufPos + device.sampleSize }
  else mic

theorem next_fill (s : State Sample) (fill : Fill Sample device) :
    (next silence s (.fill fill)).mic = turned silence s.mic fill ∧ (next silence s (.fill fill)).given = s.given := by
  unfold next turned
  dsimp only
  split_ifs
  · exact ⟨rfl, rfl⟩
  · exact ⟨rfl, rfl⟩
  · exact ⟨rfl, rfl⟩

theorem turned_packets (mic : Mic Sample) (packets : List (Packet Sample device)) (status : Status) :
    turned silence mic (.packets packets status) = packets.foldl (store silence) mic := by
  unfold turned fillBuffer
  refine if_neg fun hand => ?_
  cases status with
  | ok => exact absurd hand.1 (by decide)
  | deviceInvalidated => exact absurd hand.1 (by decide)
  | failed => exact absurd hand.1 (by decide)

theorem turned_spec (hcapacity : device.capacity < 2 ^ 32) (hlargest : device.largest * device.channels < 2 ^ 32)
    {mic : Mic Sample} (h : Sound device mic) (fill : Fill Sample device) (hpos : mic.sampleBufPos < device.sampleSize) :
    Sound device (turned silence mic fill) ∧
      contents (turned silence mic fill) = contents mic ++ takenBy silence mic fill := by
  cases fill with
  | deviceChanged => exact ⟨h, (List.append_nil _).symm⟩
  | waitFailed => exact ⟨h, (List.append_nil _).symm⟩
  | timeout =>
    cases hcontinuous : mic.continuousAudio with
    | false =>
      have hturned : turned silence mic (.timeout : Fill Sample device) = mic := by
        unfold turned fillBuffer
        exact if_neg fun hand => absurd hand.2 (by simp [hcontinuous])
      have htaken : takenBy silence mic (.timeout : Fill Sample device) = [] := if_neg (by simp [hcontinuous])
      rw [hturned, htaken, List.append_nil]
      exact ⟨h, rfl⟩
    | true =>
      have hturned : turned silence mic (.timeout : Fill Sample device) = { mic with
          sampleBuf := write mic.sampleBuf mic.sampleBufPos (List.replicate device.sampleSize silence)
          sampleBufPos := mic.sampleBufPos + device.sampleSize } := by
        unfold turned fillBuffer
        exact if_pos ⟨rfl, hcontinuous⟩
      have htaken : takenBy silence mic (.timeout : Fill Sample device) =
          List.replicate device.sampleSize silence := if_pos hcontinuous
      -- the buffer has room for two frames, and less than one is in it
      have hroom := sampleSize_le device
      rw [hturned, htaken]
      refine ⟨⟨?_, ?_, Nat.dvd_add h.aligned (Nat.dvd_mul_left _ _)⟩, ?_⟩
      · dsimp only
        rw [length_write (by rw [List.length_replicate, h.length]; omega), h.length]
      · dsimp only
        omega
      · exact take_write (h.length ▸ h.inside) List.length_replicate.symm
  | packets packets status =>
    rw [turned_packets]
    exact foldl_store silence hcapacity hlargest packets h

theorem fifo_next (hcapacity : device.capacity < 2 ^ 32) (hlargest : device.largest * device.channels < 2 ^ 32)
    {s : State Sample} {event : Event Sample device} {before : List Sample} (h : Fifo device s before)
    (henabled : enabled s event) : Fifo device (next silence s event) (before ++ takenAt silence s event) := by
  have hsound := fifo_of_sound h
  cases event with
  | call =>
    rw [takenAt, List.append_nil]
    exact ⟨h.length, h.inside, h.aligned, h.whole, h.order⟩
  | finish =>
    have hle : s.mic.sampleBufPos ≤ s.mic.sampleBuf.length := h.length ▸ h.inside
    rw [takenAt, List.append_nil]
    refine ⟨(length_shift hle).trans h.length, (Nat.sub_le _ _).trans h.inside,
      Nat.dvd_sub h.aligned (Nat.dvd_mul_left _ _), ?_, ?_⟩
    · intro out hout
      cases List.mem_append.mp hout with
      | inl hout => exact h.whole out hout
      | inr hout =>
        rw [List.mem_singleton.mp hout, List.length_take, Nat.min_eq_left (henabled.2.trans hle)]
    · have hfront : s.mic.sampleBuf.take device.sampleSize =
          (s.mic.sampleBuf.take s.mic.sampleBufPos).take device.sampleSize := by
        rw [List.take_take, Nat.min_eq_left henabled.2]
      unfold next
      dsimp only
      rw [take_shift hle, List.flatten_append, List.flatten_singleton, hfront, List.append_assoc, List.take_append_drop]
      exact h.order
  | fill fill =>
    obtain ⟨hmic, hgiven⟩ := next_fill silence s fill
    obtain ⟨hturned, hcontents⟩ := turned_spec silence hcapacity hlargest hsound fill henabled.2
    unfold contents at hcontents
    refine ⟨hmic ▸ hturned.length, hmic ▸ hturned.inside, hmic ▸ hturned.aligned, hgiven ▸ h.whole, ?_⟩
    rw [hmic, hgiven, hcontents, ← List.append_assoc, h.order]
    rfl

/-! ## Runs -/

theorem fifo_run (hcapacity : device.capacity < 2 ^ 32) (hlargest : device.largest * device.channels < 2 ^ 32)
    (events : List (Event Sample device)) {s : State Sample} {before : List Sample} (h : Fifo device s before)
    (hruns : Runs enabled (next silence) s events) :
    Fifo device (events.foldl (next silence) s) (before ++ taken silence s events) := by
  induction events generalizing s before with
  | nil =>
    rw [taken, List.append_nil]
    exact h
  | cons event events ih =>
    rw [taken, ← List.append_assoc]
    exact ih (fifo_next silence hcapacity hlargest h hruns.1) hruns.2

theorem fifo_start (continuous : Bool) : Fifo device (start silence device continuous) [] :=
  ⟨List.length_replicate, Nat.zero_le _, Nat.dvd_zero _, fun _ hout => (by cases hout), rfl⟩

variable (device) in
/-- In every run. -/
def AlwaysFifo : Prop := ∀ (continuous : Bool) (events : List (Event Sample device)),
  Runs enabled (next silence) (start silence device continuous) events →
    Fifo device (events.foldl (next silence) (start silence device continuous))
      (taken silence (start silence device continuous) events)

/-! ## Counts that do not fit -/

/-- As many frames of silence. -/
def quiet (frames : ℕ) (h : frames ≤ device.largest) : Packet Sample device where
  audioSampleSize := frames
  samples := List.replicate (frames * device.channels) silence
  silent := true
  length_eq := List.length_replicate
  size_le := h

/-- Where all comes out as it went in, so many packets fill the buffer up to here. -/
theorem filled_of_always (h : AlwaysFifo silence device) (packets : List (Packet Sample device)) :
    (packets.foldl (store silence) (start silence device false).mic).sampleBuf.length = device.capacity ∧
    (packets.foldl (store silence) (start silence device false).mic).sampleBufPos =
      min device.capacity (packets.map fun packet => (packet.data silence).length).sum := by
  have hsize : 0 < device.sampleSize := Nat.mul_pos device.frameSize_pos device.channels_pos
  have hfifo := h false [.call, .fill (.packets packets .ok)] ⟨rfl, ⟨rfl, hsize⟩, trivial⟩
  obtain ⟨hmic, hgiven⟩ := next_fill silence (next silence (start silence device false) (.call : Event Sample device))
    (.packets packets .ok)
  rw [turned_packets] at hmic
  have horder := congrArg List.length hfifo.order
  have hinside := hfifo.inside
  have hlength := hfifo.length
  rw [List.foldl_cons, List.foldl_cons, List.foldl_nil] at horder hinside hlength
  rw [hmic] at horder hinside hlength
  rw [hgiven, List.length_append, List.length_take, hlength, Nat.min_eq_left hinside] at horder
  have htaken : taken silence (start silence device false) [.call, .fill (.packets packets .ok)] =
      accepted silence device.capacity packets := by
    rw [taken, taken, taken, List.append_nil]
    rfl
  rw [htaken, accepted_length] at horder
  exact ⟨hlength, (Nat.zero_add _).symm.trans horder⟩

theorem store_pos_le (mic : Mic Sample) (packet : Packet Sample device) :
    (store silence mic packet).sampleBufPos ≤
        mic.sampleBufPos + (mic.sampleBuf.length - mic.sampleBufPos) % 2 ^ 32 ∧
      (store silence mic packet).sampleBufPos ≤
        mic.sampleBufPos + packet.audioSampleSize * device.channels % 2 ^ 32 :=
  ⟨Nat.add_le_add_left (Nat.min_le_left _ _) _, Nat.add_le_add_left (Nat.min_le_right _ _) _⟩

/-- A packet whose samples are just too many to be counted would be cut short. -/
theorem largest_of_always (h : AlwaysFifo silence device) : device.largest * device.channels < 2 ^ 32 := by
  by_contra hnot
  have hpos := device.channels_pos
  have hchannels := device.channels_le
  have hroom := sampleSize_le device
  obtain ⟨frames, hlower, hupper⟩ : ∃ frames, 2 ^ 32 ≤ frames * device.channels ∧
      frames * device.channels < 2 ^ 32 + device.channels := by
    refine ⟨(2 ^ 32 + device.channels - 1) / device.channels, ?_, ?_⟩
    · have hdiv := Nat.div_add_mod (2 ^ 32 + device.channels - 1) device.channels
      have hmod := Nat.mod_lt (2 ^ 32 + device.channels - 1) hpos
      rw [Nat.mul_comm]
      omega
    · have hdiv := Nat.div_mul_le_self (2 ^ 32 + device.channels - 1) device.channels
      omega
  have hframes : frames ≤ device.largest := by
    by_contra hgreater
    have hmul := Nat.mul_le_mul_right device.channels (Nat.succ_le_of_lt (Nat.not_le.mp hgreater))
    rw [Nat.succ_mul] at hmul
    omega
  have hstored := (filled_of_always silence h [quiet silence frames hframes]).2
  have hle := (store_pos_le silence (start silence device false).mic (quiet silence frames hframes)).2
  rw [List.map_singleton, List.sum_singleton, data_length] at hstored
  have hfull : device.channels ≤ device.sampleSize := Nat.le_mul_of_pos_left _ device.frameSize_pos
  rw [List.foldl_cons, List.foldl_nil] at hstored
  rw [hstored] at hle
  have hle' : min device.capacity (frames * device.channels) ≤ 0 + frames * device.channels % 2 ^ 32 := hle
  omega

/-- Where just too much room is left to be counted, a frame would be cut short. -/
theorem capacity_of_always (h : AlwaysFifo silence device) : device.capacity < 2 ^ 32 := by
  by_contra hnot
  have hpos := device.channels_pos
  obtain ⟨room, hcapacity⟩ := Nat.exists_eq_add_of_le (Nat.not_lt.mp hnot)
  let one := quiet silence 1 device.largest_pos
  let count := room / device.channels
  have hone : (one.data silence).length = device.channels := (data_length silence one).trans (Nat.one_mul _)
  have hsum (n : ℕ) : ((List.replicate n one).map fun packet => (packet.data silence).length).sum =
      n * device.channels := by
    rw [List.map_replicate, List.sum_replicate_nat, hone]
  have hdiv : device.channels * count + room % device.channels = room := Nat.div_add_mod room device.channels
  have hmod : room % device.channels < device.channels := Nat.mod_lt room hpos
  have hcount : count * device.channels ≤ room := Nat.div_mul_le_self room device.channels
  obtain ⟨hlength, hbefore⟩ := filled_of_always silence h (List.replicate count one)
  obtain ⟨-, hafter⟩ := filled_of_always silence h (List.replicate count one ++ [one])
  rw [hsum, Nat.min_eq_right (by omega)] at hbefore
  rw [List.foldl_append, List.foldl_cons, List.foldl_nil, ← List.replicate_succ', hsum, Nat.succ_mul,
    Nat.min_eq_right (by have := device.channels_le; omega)] at hafter
  have hle := (store_pos_le silence ((List.replicate count one).foldl (store silence) (start silence device false).mic)
    one).1
  rw [Nat.mul_comm] at hdiv
  rw [hafter, hbefore, hlength] at hle
  omega

/-- The samples come out as they went in, whatever packets come, if and only if neither the buffer's samples nor those of
a packet are too many for 32 bits. -/
theorem wasapi_fifo_iff (silence : Sample) (device : Device) :
    (∀ (continuous : Bool) (events : List (Event Sample device)),
      Runs enabled (next silence) (start silence device continuous) events →
        Fifo device (events.foldl (next silence) (start silence device continuous))
          (taken silence (start silence device continuous) events)) ↔
      device.capacity < 2 ^ 32 ∧ device.largest * device.channels < 2 ^ 32 := by
  refine ⟨fun h => ⟨capacity_of_always silence h, largest_of_always silence h⟩, ?_⟩
  rintro ⟨hcapacity, hlargest⟩ continuous events hruns
  exact fifo_run silence hcapacity hlargest events (fifo_start silence continuous) hruns

end Runs

/-- A stereo device whose buffer has room for exactly `2 ^ 32` samples. -/
def hugeDevice : Device where
  frames := 1073741824
  frameSize := 240
  channels := 2
  largest := 480
  frameSize_pos := Nat.succ_pos 239
  channels_pos := Nat.succ_pos 1
  channels_le := Nat.le_of_ble_eq_true rfl
  largest_pos := Nat.succ_pos 479

theorem all_packets_lost : ¬∀ (continuous : Bool) (events : List (Event ℤ hugeDevice)),
    Runs enabled (next 0) (start 0 hugeDevice continuous) events →
      Fifo hugeDevice (events.foldl (next 0) (start 0 hugeDevice continuous))
        (taken 0 (start 0 hugeDevice continuous) events) := by
  intro h
  exact absurd (capacity_of_always 0 h) (by decide)

end Sunshine.WasapiBuffer
