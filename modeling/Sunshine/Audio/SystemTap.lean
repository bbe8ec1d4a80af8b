import Sunshine.Lib.Frames
import Sunshine.Lib.Transitions
import Mathlib.Algebra.Order.Ring.Nat
import Mathlib.Algebra.Order.Field.Rat

/-! The system audio tap of macOS: what `systemAudioIOProc` puts into the ring and `av_mic_t::sample` takes out of it.

`client_frames_iff` says in which runs the ring only ever holds whole frames at the client's format. -/
namespace Sunshine.SystemTap
open Frames Transitions
set_option autoImplicit false

structure Format where
  sampleRate : ℚ
  channels : ℕ
  deriving DecidableEq

/-- What the client asks for, the device that is there, and what it answers when it is asked. -/
structure Setup where
  clientSampleRate : ℕ
  clientChannels : ℕ
  clientFrameSize : ℕ
  device : Format
  rateAnswer : Option ℚ
  channelsAnswer : Option ℕ
  channels_pos : 0 < clientChannels
  channels_le : clientChannels ≤ 8
  rate_true : ∀ rate ∈ rateAnswer, 0 < rate → rate = device.sampleRate
  channels_true : ∀ channels ∈ channelsAnswer, channels = device.channels

def Setup.client (setup : Setup) : Format := { sampleRate := setup.clientSampleRate, channels := setup.clientChannels }

/-- The bytes of a frame of floats. -/
def Format.frameBytes (format : Format) : ℕ := format.channels * 4

/-- `AVAudioIOProcData`. -/
structure ProcData where
  clientRequestedChannels : ℕ
  clientRequestedFrameSize : ℕ
  audioConverter : Bool
  conversionBufferSize : ℕ

/-- `configureDevicePropertiesAndConverter`, where nothing fails that ends the setup. -/
def configure (setup : Setup) : ProcData :=
  let aggregateDeviceSampleRate : ℚ :=
    match setup.rateAnswer with
    | some rate => if rate ≤ 0 then setup.clientSampleRate else rate
    | none => setup.clientSampleRate
  let aggregateDeviceChannels := setup.channelsAnswer.getD setup.clientChannels
  let maxFrames := setup.clientFrameSize * 8 % 2 ^ 32
  { clientRequestedChannels := setup.clientChannels
    clientRequestedFrameSize := setup.clientFrameSize
    audioConverter := aggregateDeviceSampleRate ≠ setup.clientSampleRate ∨ aggregateDeviceChannels ≠ setup.clientChannels
    conversionBufferSize := maxFrames * setup.clientChannels * 4 % 2 ^ 32 }

/-! ## The callback -/

/-- A byte with the format of its frame and its place in it. -/
structure Byte where
  value : UInt8
  format : Format
  place : ℕ

def interleaved (format : Format) (bytes : List UInt8) : List Byte :=
  bytes.zipIdx.map fun byte => { value := byte.1, format := format, place := byte.2 % format.frameBytes }

/-- What one callback meets: the first input buffer, if there is one, with its data, if they are not null, and what the
converter would make of them. It makes no more frames than it is asked for. -/
structure Callback (procData : ProcData) where
  input : Option (Option (List UInt8))
  noErr : Bool
  outputFrameCount : ℕ
  output : List UInt8
  output_length : output.length = outputFrameCount * procData.clientRequestedChannels * 4
  count_le : outputFrameCount ≤ procData.conversionBufferSize / (procData.clientRequestedChannels * 4)

/-- Input that is neither null nor empty. -/
def Callback.data {procData : ProcData} (callback : Callback procData) : Option (List UInt8) :=
  callback.input.join.filter fun bytes => bytes ≠ []

/-- Bytes for the ring, with the size of the buffer that they are read from. -/
structure Chunk where
  bytes : List Byte
  bufferSize : ℕ

def silence (setup : Setup) : Chunk :=
  let procData := configure setup
  let clientChannels := procData.clientRequestedChannels
  let silenceFrames := if 0 < procData.clientRequestedFrameSize then min procData.clientRequestedFrameSize 2048 else 512
  let bufferSize := if 0 < procData.conversionBufferSize then procData.conversionBufferSize else 512 * 8 * 4
  let silenceBytes := min silenceFrames (bufferSize / (clientChannels * 4)) * clientChannels * 4
  { bytes := interleaved setup.client (List.replicate silenceBytes 0), bufferSize := bufferSize }

def chunk (setup : Setup) (callback : Callback (configure setup)) : Chunk :=
  match callback.data with
  | some bytes =>
    if (configure setup).audioConverter then
      if callback.noErr ∧ 0 < callback.outputFrameCount then
        { bytes := interleaved setup.client callback.output, bufferSize := (configure setup).conversionBufferSize }
      else { bytes := interleaved setup.device bytes, bufferSize := bytes.length }
    else { bytes := interleaved setup.device bytes, bufferSize := bytes.length }
  | none => silence setup

/-! ## The ring and the two threads -/

/-- `TPCircularBuffer`: bytes are put in as a whole or not at all, and what is there is read as one piece. -/
structure CircularBuffer (α : Type) where
  Buffer : Type
  empty : Buffer
  contents : Buffer → List α
  produceBytes : Buffer → List α → Bool × Buffer
  consume : Buffer → ℕ → Buffer
  contents_empty : contents empty = []
  produced : ∀ buffer bytes, (produceBytes buffer bytes).1 = true →
    contents (produceBytes buffer bytes).2 = contents buffer ++ bytes
  refused : ∀ buffer bytes, (produceBytes buffer bytes).1 = false →
    contents (produceBytes buffer bytes).2 = contents buffer
  consumed : ∀ buffer n, n ≤ (contents buffer).length → contents (consume buffer n) = (contents buffer).drop n

structure State (ring : CircularBuffer Byte) where
  audioSampleBuffer : ring.Buffer
  callbacks : ℕ
  signals : ℕ
  waits : ℕ
  chunks : List Chunk
  /-- What a running call of `sample` has copied. -/
  copied : Option (List Byte)
  /-- What the calls with `ok` have returned. -/
  given : List (List Byte)

/-- A callback; or a call of `sample`, a copy, a wait that a signal ends, one that ends without, and the return. -/
inductive Event (setup : Setup) where
  | callback (callback : Callback (configure setup))
  | call
  | copy
  | wake
  | timeout
  | finish

section Steps
variable (setup : Setup) (ring : CircularBuffer Byte)

def neededBytes : ℕ := setup.clientFrameSize * setup.clientChannels * 4 % 2 ^ 32

variable {setup ring}

def remaining (setup : Setup) (copied : List Byte) : ℕ := neededBytes setup - copied.length

def enabled (s : State ring) : Event setup → Prop
  | .callback _ => True
  | .call => s.copied = none
  | .copy => ∃ copied ∈ s.copied, 0 < remaining setup copied ∧ ring.contents s.audioSampleBuffer ≠ []
  | .wake => ∃ copied ∈ s.copied, 0 < remaining setup copied ∧ ring.contents s.audioSampleBuffer = [] ∧
      s.waits < s.signals
  | .timeout => ∃ copied ∈ s.copied, 0 < remaining setup copied ∧ ring.contents s.audioSampleBuffer = []
  | .finish => ∃ copied ∈ s.copied, remaining setup copied = 0

def toCopy (setup : Setup) (s : State ring) : ℕ :=
  min (ring.contents s.audioSampleBuffer).length (remaining setup (s.copied.getD []))

def next (s : State ring) : Event setup → State ring
  | .callback callback =>
    let chunk := chunk setup callback
    { s with
      audioSampleBuffer := (ring.produceBytes s.audioSampleBuffer chunk.bytes).2
      callbacks := s.callbacks + 1
      signals := s.signals + 1
      chunks := s.chunks ++ [chunk] }
  | .call => { s with copied := some [] }
  | .copy =>
    { s with
      audioSampleBuffer := ring.consume s.audioSampleBuffer (toCopy setup s)
      copied := s.copied.map fun copied => copied ++ (ring.contents s.audioSampleBuffer).take (toCopy setup s) }
  | .wake => { s with waits := s.waits + 1 }
  | .timeout => { s with copied := none }
  | .finish => { s with copied := none, given := s.given ++ s.copied.toList }

end Steps

def start (ring : CircularBuffer Byte) : State ring where
  audioSampleBuffer := ring.empty
  callbacks := 0
  signals := 0
  waits := 0
  chunks := []
  copied := none
  given := []

/-! ## Frames of the client -/

/-- Whole frames at the client's format. -/
abbrev ClientFrames (setup : Setup) (bytes : List Byte) : Prop :=
  Framed setup.client.frameBytes (fun place byte => byte.format = setup.client ∧ byte.place = place) bytes

/-- In the ring, in the running call and in all that was returned; no chunk is read past its buffer, and each callback
has signalled. -/
structure Good (setup : Setup) {ring : CircularBuffer Byte} (s : State ring) : Prop where
  ring : ClientFrames setup (ring.contents s.audioSampleBuffer)
  copied : ∀ copied ∈ s.copied, ClientFrames setup copied
  given : ∀ out ∈ s.given, ClientFrames setup out
  inside : ∀ chunk ∈ s.chunks, chunk.bytes.length ≤ chunk.bufferSize
  signalled : s.signals = s.callbacks

/-- The converter makes frames of the data; without a converter the device has the client's format and hands out whole
frames. -/
def Fits (setup : Setup) (callback : Callback (configure setup)) : Prop :=
  ∀ bytes ∈ callback.data,
    if (configure setup).audioConverter then callback.noErr ∧ 0 < callback.outputFrameCount
    else setup.device = setup.client ∧ setup.client.frameBytes ∣ bytes.length

/-- A callback fits or finds no room, and a copy does not end inside a frame. -/
def Kept {setup : Setup} {ring : CircularBuffer Byte} (s : State ring) : Event setup → Prop
  | .callback callback =>
    Fits setup callback ∨ (ring.produceBytes s.audioSampleBuffer (chunk setup callback).bytes).1 = false
  | .copy => setup.client.frameBytes ∣ toCopy setup s
  | _ => True

section Frames
variable {setup : Setup} {ring : CircularBuffer Byte}

theorem interleaved_length (format : Format) (bytes : List UInt8) : (interleaved format bytes).length = bytes.length := by
  unfold interleaved
  rw [List.length_map, List.length_zipIdx]

theorem getElem?_interleaved (format : Format) (bytes : List UInt8) (i : ℕ) : (interleaved format bytes)[i]? =
    bytes[i]?.map fun value => { value := value, format := format, place := i % format.frameBytes } := by
  unfold interleaved
  rw [List.getElem?_map, List.getElem?_zipIdx, Option.map_map, Nat.zero_add]
  rfl

theorem interleaved_client {bytes : List UInt8} (h : setup.client.frameBytes ∣ bytes.length) :
    ClientFrames setup (interleaved setup.client bytes) := by
  refine ⟨(interleaved_length _ _).symm ▸ h, fun i byte hi => ?_⟩
  rw [getElem?_interleaved] at hi
  obtain ⟨value, -, rfl⟩ := Option.map_eq_some_iff.mp hi
  exact ⟨rfl, rfl⟩

/-- Bytes of the device are frames of the client only where it has the client's format. -/
theorem interleaved_device_iff {bytes : List UInt8} (h : bytes ≠ []) :
    ClientFrames setup (interleaved setup.device bytes) ↔
      setup.device = setup.client ∧ setup.client.frameBytes ∣ bytes.length := by
  constructor
  · intro hframes
    obtain ⟨first, hfirst⟩ := List.exists_mem_of_ne_nil bytes h
    obtain ⟨i, hi⟩ := List.mem_iff_getElem?.mp hfirst
    have hbyte := hframes.inPlace i _ (by rw [getElem?_interleaved, hi]; rfl)
    have hwhole := hframes.whole
    rw [interleaved_length] at hwhole
    exact ⟨hbyte.1, hwhole⟩
  · rintro ⟨hformat, hwhole⟩
    rw [hformat]
    exact interleaved_client hwhole

theorem data_ne_nil {callback : Callback (configure setup)} {bytes : List UInt8} (h : callback.data = some bytes) :
    bytes ≠ [] := of_decide_eq_true (Option.filter_eq_some_iff.mp h).2

/-- A converter is there only where the device has another format. -/
theorem device_ne (h : (configure setup).audioConverter = true) : setup.device ≠ setup.client := by
  intro heq
  rcases of_decide_eq_true h with hrate | hchannels
  · cases hanswer : setup.rateAnswer with
    | none =>
      rw [hanswer] at hrate
      exact hrate rfl
    | some rate =>
      rw [hanswer] at hrate
      dsimp only at hrate
      split_ifs at hrate with hvalid
      · exact hrate rfl
      · exact hrate ((setup.rate_true rate hanswer (Rat.not_le.mp hvalid)).trans (congrArg Format.sampleRate heq))
  · cases hanswer : setup.channelsAnswer with
    | none =>
      rw [hanswer] at hchannels
      exact hchannels rfl
    | some channels =>
      rw [hanswer] at hchannels
      exact hchannels ((setup.channels_true channels hanswer).trans (congrArg Format.channels heq))

theorem silence_frames (setup : Setup) : ClientFrames setup (silence setup).bytes := by
  refine interleaved_client ?_
  rw [List.length_replicate, Nat.mul_assoc]
  exact Nat.dvd_mul_left _ _

theorem silence_inside (setup : Setup) : (silence setup).bytes.length ≤ (silence setup).bufferSize := by
  unfold silence
  dsimp only
  rw [interleaved_length, List.length_replicate, Nat.mul_assoc]
  exact (Nat.mul_le_mul_right _ (Nat.min_le_right _ _)).trans (Nat.div_mul_le_self _ _)

theorem chunk_frames_iff (callback : Callback (configure setup)) :
    ClientFrames setup (chunk setup callback).bytes ↔ Fits setup callback := by
  unfold chunk Fits
  cases hdata : callback.data with
  | none => exact iff_of_true (silence_frames setup) fun _ hbytes => (by cases hbytes)
  | some bytes =>
    have hne := data_ne_nil hdata
    simp only [Option.mem_def, Option.some.injEq, forall_eq']
    split_ifs with hconverter hmade
    · refine iff_of_true (interleaved_client ?_) hmade
      rw [callback.output_length, Nat.mul_assoc]
      exact Nat.dvd_mul_left _ _
    · exact iff_of_false (fun hframes => device_ne hconverter ((interleaved_device_iff hne).mp hframes).1) hmade
    · exact interleaved_device_iff hne

theorem chunk_inside (callback : Callback (configure setup)) :
    (chunk setup callback).bytes.length ≤ (chunk setup callback).bufferSize := by
  unfold chunk
  cases callback.data with
  | none => exact silence_inside setup
  | some bytes =>
    dsimp only
    split_ifs with hconverter hmade
    · rw [interleaved_length, callback.output_length, Nat.mul_assoc]
      exact (Nat.mul_le_mul_right _ callback.count_le).trans (Nat.div_mul_le_self _ _)
    · exact (interleaved_length _ _).le
    · exact (interleaved_length _ _).le

/-! ## Steps and runs -/

theorem good_start (setup : Setup) (ring : CircularBuffer Byte) : Good setup (start ring) where
  ring := ring.contents_empty ▸ framed_nil
  copied := fun _ h => nomatch h
  given := fun _ h => nomatch h
  inside := fun _ h => nomatch h
  signalled := rfl

theorem good_callback_iff {s : State ring} (h : Good setup s) (callback : Callback (configure setup)) :
    Good setup (next s (.callback callback)) ↔ Kept s (.callback callback) := by
  have hinside : ∀ c ∈ s.chunks ++ [chunk setup callback], c.bytes.length ≤ c.bufferSize := by
    intro c hc
    cases List.mem_append.mp hc with
    | inl hc => exact h.inside c hc
    | inr hc => exact List.mem_singleton.mp hc ▸ chunk_inside callback
  have hring : Good setup (next s (.callback callback)) ↔
      ClientFrames setup (ring.contents (ring.produceBytes s.audioSampleBuffer (chunk setup callback).bytes).2) :=
    ⟨fun hgood => hgood.ring, fun hframes => ⟨hframes, h.copied, h.given, hinside, congrArg (· + 1) h.signalled⟩⟩
  rw [hring, Kept, ← chunk_frames_iff]
  cases htaken : (ring.produceBytes s.audioSampleBuffer (chunk setup callback).bytes).1 with
  | true =>
    rw [ring.produced _ _ htaken]
    exact (framed_append_iff h.ring).trans ⟨.inl, fun hor => hor.elim id fun hfalse => absurd hfalse (by decide)⟩
  | false =>
    rw [ring.refused _ _ htaken]
    exact iff_of_true h.ring (.inr rfl)

theorem good_copy_iff {s : State ring} (h : Good setup s) (henabled : @enabled setup ring s .copy) :
    Good setup (next s (.copy : Event setup)) ↔ Kept s (.copy : Event setup) := by
  obtain ⟨copied, hcopied, -, -⟩ := henabled
  have hle : toCopy setup s ≤ (ring.contents s.audioSampleBuffer).length := Nat.min_le_left _ _
  constructor
  · intro hgood
    have hrest := hgood.ring
    unfold next at hrest
    dsimp only at hrest
    rw [ring.consumed _ _ hle] at hrest
    exact (framed_drop_iff h.ring hle).mp hrest
  · intro hdvd
    refine ⟨?_, ?_, h.given, h.inside, h.signalled⟩
    · unfold next
      dsimp only
      rw [ring.consumed _ _ hle]
      exact (framed_drop_iff h.ring hle).mpr hdvd
    · intro out hout
      obtain ⟨before, hbefore, rfl⟩ := Option.map_eq_some_iff.mp hout
      exact (framed_append_iff (h.copied before hbefore)).mpr (framed_take h.ring hle hdvd)

theorem good_next_iff {s : State ring} (h : Good setup s) {event : Event setup} (henabled : enabled s event) :
    Good setup (next s event) ↔ Kept s event := by
  cases event with
  | callback callback => exact good_callback_iff h callback
  | copy => exact good_copy_iff h henabled
  | call =>
    refine iff_of_true ⟨h.ring, fun out hout => ?_, h.given, h.inside, h.signalled⟩ trivial
    rw [← Option.some.inj hout]
    exact framed_nil
  | wake => exact iff_of_true ⟨h.ring, h.copied, h.given, h.inside, h.signalled⟩ trivial
  | timeout => exact iff_of_true ⟨h.ring, fun _ hout => (by cases hout), h.given, h.inside, h.signalled⟩ trivial
  | finish =>
    refine iff_of_true ⟨h.ring, fun _ hout => (by cases hout), fun out hout => ?_, h.inside, h.signalled⟩ trivial
    cases List.mem_append.mp hout with
    | inl hout => exact h.given out hout
    | inr hout => exact h.copied out (Option.mem_toList.mp hout)

/-- In a run the ring only ever holds whole frames at the client's format if and only if each callback fits or finds no
room, and no copy ends inside a frame. -/
theorem client_frames_iff (setup : Setup) (ring : CircularBuffer Byte) (events : List (Event setup))
    (hruns : Runs enabled next (start ring) events) :
    (∀ front, front <+: events → Good setup (front.foldl next (start ring))) ↔ Runs Kept next (start ring) events :=
  hruns.always_iff (fun _ => True) (Good setup) trivial (good_start setup ring) (fun _ _ _ _ => trivial)
    fun _ _ _ hgood henabled => good_next_iff hgood henabled

end Frames

section Stereo

/-- A stereo client at 48 kHz and a stereo device at 44.1 kHz. -/
def stereo : Setup where
  clientSampleRate := 48000
  clientChannels := 2
  clientFrameSize := 240
  device := { sampleRate := 44100, channels := 2 }
  rateAnswer := some 44100
  channelsAnswer := some 2
  channels_pos := Nat.two_pos
  channels_le := by decide
  rate_true := fun _ h _ => (Option.some.inj h).symm
  channels_true := fun _ h => (Option.some.inj h).symm

/-- The converter needs more than one frame before it makes one. -/
def hungry : Callback (configure stereo) where
  input := some (some [0, 0, 0, 0, 0, 0, 0, 0])
  noErr := true
  outputFrameCount := 0
  output := []
  output_length := rfl
  count_le := Nat.zero_le _

/-- A ring with room for everything. -/
def endless : CircularBuffer Byte where
  Buffer := List Byte
  empty := []
  contents := id
  produceBytes := fun buffer bytes => (true, buffer ++ bytes)
  consume := fun buffer n => buffer.drop n
  contents_empty := rfl
  produced := fun _ _ _ => rfl
  refused := fun _ _ h => Bool.noConfusion h
  consumed := fun _ _ _ => rfl

/-- A callback without input. -/
def idle : Callback (configure stereo) where
  input := none
  noErr := false
  outputFrameCount := 0
  output := []
  output_length := rfl
  count_le := Nat.zero_le _

theorem idle_tap_kept : Good stereo ([Event.callback idle, .call, .copy].foldl next (start endless)) := by
  refine (client_frames_iff stereo endless [.callback idle, .call, .copy] ?_).mpr ?_ _ (List.prefix_refl _)
  · refine ⟨trivial, rfl, ⟨[], rfl, by decide, ?_⟩, trivial⟩
    exact List.ne_nil_of_length_pos (by decide +kernel)
  · refine ⟨.inl fun _ h => (by cases h), trivial, ?_, trivial⟩
    show stereo.client.frameBytes ∣ toCopy stereo (next (next (start endless) (.callback idle)) (.call : Event stereo))
    decide +kernel

theorem unconverted_data_written : ¬∀ front, front <+: [Event.callback hungry] →
    Good stereo (front.foldl next (start endless)) := by
  intro h
  have hkept := (good_callback_iff (good_start stereo endless) hungry).mp (h [.callback hungry] (List.prefix_refl _))
  rcases hkept with hfits | hrefused
  · have hmade := hfits [0, 0, 0, 0, 0, 0, 0, 0] (by decide)
    have hconverter : (configure stereo).audioConverter = true := by decide +kernel
    rw [if_pos hconverter] at hmade
    exact absurd hmade.2 (by decide)
  · exact absurd hrefused (by decide)

end Stereo

end Sunshine.SystemTap
