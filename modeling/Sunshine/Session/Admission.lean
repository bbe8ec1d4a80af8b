import Sunshine.Pairing.Phases
import Sunshine.Session.RtspReader
import Sunshine.Video.FecEncode
import Sunshine.Video.Packetize

/-! From a launch query and an ANNOUNCE request to the session the streaming threads work with
(`make_launch_session`, `parse_announce_payload`, `cmd_announce`), and the arithmetic they do with its values.
`announce_wellDefined_iff` says for which requests that are answered with 200 the arithmetic is well defined. -/
namespace Sunshine.Admission
open Pairing Rtsp Texts Video
set_option autoImplicit false

/-! ## The launch query -/

structure LaunchSession where
  gcmKey : List UInt8
  deriving DecidableEq

abbrev Args := List (String × List UInt8)

/-- A query without `rikey` or `rikeyid` throws. -/
def makeLaunchSession (args : Args) : Option LaunchSession := do
  let rikey ← args.lookup "rikey"
  let _ ← args.lookup "rikeyid"
  pure ⟨fromHexVec rikey⟩

/-! ## The ANNOUNCE payload -/

abbrev Attributes := List (Text × Text)

/-- `emplace`: the first value of a name stays. -/
def emplace (name value : Text) (attributes : Attributes) : Attributes :=
  if (attributes.lookup name).isSome then attributes else attributes ++ [(name, value)]

structure AnnouncePayload where
  client : Text
  attributes : Attributes
  deriving DecidableEq

def parseLine (parsed : AnnouncePayload) (line : Text) : Option AnnouncePayload :=
  if "s=".toList.isPrefixOf line then some { parsed with client := line.drop 2 }
  else if "a=".toList.isPrefixOf line then
    if ':' ∈ line then
      let name := (line.takeWhile (· ≠ ':')).drop 2
      let value := (line.dropWhile (· ≠ ':')).drop 1
      let value := if value.getLast? = some ' ' then value.dropLast else value
      some { parsed with attributes := emplace name value parsed.attributes }
    else none
  else some parsed

/-- An empty line between two line breaks is no field. -/
def parseAnnouncePayload (payload : Text) : Option AnnouncePayload :=
  (payload.splitOnP fun ch => ch = '\r' ∨ ch = '\n').foldlM parseLine ⟨[], []⟩

/-- What `cmd_announce` adds for what the client omits. -/
def defaults : List (String × String) :=
  [("x-nv-video[0].encoderCscMode", "0"), ("x-nv-vqos[0].bitStreamFormat", "0"),
    ("x-nv-video[0].dynamicRangeMode", "0"), ("x-nv-aqos.packetDuration", "5"),
    ("x-nv-general.useReliableUdp", "1"), ("x-nv-vqos[0].fec.minRequiredFecPackets", "0"),
    ("x-nv-general.featureFlags", "135"), ("x-ml-general.featureFlags", "0"),
    ("x-nv-vqos[0].qosTrafficType", "5"), ("x-nv-aqos.qosTrafficType", "4"),
    ("x-ml-video.configuredBitrateKbps", "0"), ("x-ss-general.encryptionEnabled", "0"),
    ("x-ss-video[0].chromaSamplingType", "0"), ("x-ss-video[0].intraRefresh", "0"),
    ("x-nv-video[0].clientRefreshRateX100", "0")]

def withDefaults (attributes : Attributes) : Attributes :=
  defaults.foldl (fun args d => emplace d.1.toList d.2.toList args) attributes

theorem lookup_emplace (name value key : Text) (attributes : Attributes) :
    (emplace name value attributes).lookup key = (attributes ++ [(name, value)]).lookup key := by
  unfold emplace
  split_ifs with hpresent
  · rw [List.lookup_append]
    cases hkey : attributes.lookup key with
    | some v => rfl
    | none =>
      have hne : (key == name) = false := by
        refine beq_eq_false_iff_ne.mpr fun e => ?_
        rw [← e, hkey] at hpresent
        cases hpresent
      rw [Option.none_or, List.lookup_cons, hne, List.lookup_nil]
  · rfl

def defaultTexts : Attributes := defaults.map fun d => (d.1.toList, d.2.toList)

/-- A default is found where the client omits its name. -/
theorem lookup_withDefaults (attributes : Attributes) (key : Text) :
    (withDefaults attributes).lookup key = (attributes ++ defaultTexts).lookup key := by
  unfold withDefaults defaultTexts
  induction defaults generalizing attributes with
  | nil => rw [List.map_nil, List.append_nil, List.foldl_nil]
  | cons d rest ih =>
    rw [List.foldl_cons, ih, List.lookup_append, lookup_emplace, ← List.lookup_append, List.append_assoc]
    rfl

/-! ## `cmd_announce` -/

/-- The server's settings and what the request meets outside of this code. `fpsRatioNear` is the comparison of
`clientRefreshRateX100 / 100.0 / maxFPS` with 0.99 and 1.01 in floating point. -/
structure Server where
  packetsize : ℤ
  fecPercentage : ℕ
  activeHevcMode : ℤ
  activeAv1Mode : ℤ
  encryptionMandatory : Bool
  ssEncVideo : UInt32
  ssEncAudio : UInt32
  streamAudio : Bool
  aggressive : Bool
  fpsRatioNear : ℤ → ℤ → Bool
  starts : Bool
  fecRange : 1 ≤ fecPercentage ∧ fecPercentage ≤ 255

structure AudioConfig where
  channels : ℤ
  mask : ℤ
  packetDuration : ℤ
  deriving DecidableEq

structure MonitorConfig where
  height : ℤ
  width : ℤ
  framerate : ℤ
  framerateX100 : ℤ
  slicesPerFrame : ℤ
  numRefFrames : ℤ
  encoderCscMode : ℤ
  videoFormat : ℤ
  dynamicRange : ℤ
  chromaSamplingType : ℤ
  enableIntraRefresh : ℤ
  deriving DecidableEq

structure Config where
  audio : AudioConfig
  monitor : MonitorConfig
  controlProtocolType : ℤ
  packetsize : ℤ
  minRequiredFecPackets : ℤ
  mlFeatureFlags : ℤ
  audioQosType : ℤ
  videoQosType : ℤ
  encryptionFlagsEnabled : UInt32
  deriving DecidableEq

def intArg (args : Attributes) (name : String) : Option ℤ := args.lookup name.toList >>= parseInt

def int64Arg (args : Attributes) (name : String) : Option ℤ :=
  args.lookup name.toList >>= parseInteger (-9223372036854775808) 9223372036854775807

/-- An unsigned number has no sign. -/
def uint32Arg (args : Attributes) (name : String) : Option UInt32 := do
  let number ← args.lookup name.toList
  if number.head? = some '-' then none
  else (parseInteger 0 4294967295 number).map UInt32.ofInt

def packetsizeMin : ℤ := 200
def packetsizeMax : ℤ := 65535

def limitPacketsize (limit packetsize : ℤ) : ℤ :=
  if limit ≠ 0 ∧ limit < packetsize then
    if limit < packetsizeMin ∨ packetsizeMax < limit then packetsize else limit
  else packetsize

/-- The strict frame rate of a client is dropped unless it is near the one it asks for. -/
def validFramerateX100 (server : Server) (framerateX100 framerate : ℤ) : ℤ :=
  if 0 < framerateX100 ∧ server.fpsRatioNear framerateX100 framerate = false then 0 else framerateX100

/-- The quality is read and set again by what follows. -/
def readAudio (args : Attributes) : Option AudioConfig := do
  let channels ← intArg args "x-nv-audio.surround.numChannels"
  let mask ← intArg args "x-nv-audio.surround.channelMask"
  let packetDuration ← intArg args "x-nv-aqos.packetDuration"
  let _ ← intArg args "x-nv-audio.surround.AudioQuality"
  pure ⟨channels, mask, packetDuration⟩

/-- So is the bitrate. -/
def readMonitor (server : Server) (args : Attributes) : Option MonitorConfig := do
  let height ← intArg args "x-nv-video[0].clientViewportHt"
  let width ← intArg args "x-nv-video[0].clientViewportWd"
  let framerate ← intArg args "x-nv-video[0].maxFPS"
  let framerateX100 ← intArg args "x-nv-video[0].clientRefreshRateX100"
  let _ ← intArg args "x-nv-vqos[0].bw.maximumBitrateKbps"
  let slicesPerFrame ← intArg args "x-nv-video[0].videoEncoderSlicesPerFrame"
  let numRefFrames ← intArg args "x-nv-video[0].maxNumReferenceFrames"
  let encoderCscMode ← intArg args "x-nv-video[0].encoderCscMode"
  let videoFormat ← intArg args "x-nv-vqos[0].bitStreamFormat"
  let dynamicRange ← intArg args "x-nv-video[0].dynamicRangeMode"
  let chromaSamplingType ← intArg args "x-ss-video[0].chromaSamplingType"
  let enableIntraRefresh ← intArg args "x-ss-video[0].intraRefresh"
  pure { height, width, framerate, slicesPerFrame, numRefFrames, encoderCscMode, videoFormat,
         dynamicRange, chromaSamplingType, enableIntraRefresh,
         framerateX100 := validFramerateX100 server framerateX100 framerate }

/-- Anything that is missing or no integer throws. -/
def readConfig (server : Server) (args : Attributes) : Option Config := do
  let audio ← readAudio args
  let controlProtocolType ← intArg args "x-nv-general.useReliableUdp"
  let packetsize ← intArg args "x-nv-video[0].packetSize"
  let minRequiredFecPackets ← intArg args "x-nv-vqos[0].fec.minRequiredFecPackets"
  let mlFeatureFlags ← intArg args "x-ml-general.featureFlags"
  let audioQosType ← intArg args "x-nv-aqos.qosTrafficType"
  let videoQosType ← intArg args "x-nv-vqos[0].qosTrafficType"
  let encryptionFlags ← uint32Arg args "x-ss-general.encryptionEnabled"
  let featureFlags ← intArg args "x-nv-general.featureFlags"
  let monitor ← readMonitor server args
  let _ ← int64Arg args "x-ml-video.configuredBitrateKbps"
  pure { audio, monitor, controlProtocolType, minRequiredFecPackets, mlFeatureFlags, audioQosType,
         videoQosType
         packetsize := limitPacketsize server.packetsize packetsize
         encryptionFlagsEnabled :=
           if UInt32.ofInt featureFlags &&& 0x20 ≠ 0 then encryptionFlags ||| server.ssEncAudio
           else encryptionFlags }

theorem readConfig_congr (server : Server) {args others : Attributes}
    (h : ∀ key, args.lookup key = others.lookup key) : readConfig server args = readConfig server others := by
  unfold readConfig readMonitor readAudio intArg int64Arg uint32Arg
  simp only [h]

structure Session where
  config : Config
  gcmKey : List UInt8
  deriving DecidableEq

def alloc (config : Config) (launch : LaunchSession) : Session := ⟨config, launch.gcmKey⟩

inductive Response where
  | badRequest
  | forbidden
  | internalServerError
  | ok (session : Session)
  deriving DecidableEq

def cmdAnnounce (server : Server) (launch : LaunchSession) (payload : Text) : Response :=
  match parseAnnouncePayload payload with
  | none => .badRequest
  | some parsed =>
    match readConfig server (withDefaults parsed.attributes) with
    | none => .badRequest
    | some config =>
      let required := server.ssEncVideo ||| server.ssEncAudio
      if config.monitor.videoFormat = 1 ∧ server.activeHevcMode = 1 then .badRequest
      else if config.monitor.videoFormat = 2 ∧ server.activeAv1Mode = 1 then .badRequest
      else if server.encryptionMandatory ∧ config.encryptionFlagsEnabled &&& required ≠ required then
        .forbidden
      else if server.starts then .ok (alloc config launch)
      else .internalServerError

/-! ## The arithmetic -/

/-- An `int` that has not overflowed. -/
def checkedInt32 (v : ℤ) : Option ℤ := if -2147483648 ≤ v ∧ v ≤ 2147483647 then some v else none

def checkedInt64 (v : ℤ) : Option ℤ :=
  if -9223372036854775808 ≤ v ∧ v ≤ 9223372036854775807 then some v else none

def checkedDiv (a b : ℤ) : Option ℤ := if b = 0 then none else some (a.tdiv b)

def videoQueueAgeBudget (framerate framerateX100 : ℤ) (aggressive : Bool) : Option ℤ := do
  let rateX100 ←
    if 0 < framerateX100 then some framerateX100 else checkedInt32 (max framerate 1 * 100)
  let budgetFramesX100 := if aggressive then 150 else 300
  checkedDiv (budgetFramesX100 * 1000000000) rateX100

/-- `avD2q` is `av_d2q` at a hundredth of its argument: numerator and denominator. -/
def framerateX100ToRational (avD2q : ℤ → ℤ × ℤ) (framerateX100 : ℤ) : Option (ℤ × ℤ) :=
  if framerateX100 % 2997 = 0 then
    (checkedInt32 (framerateX100 / 2997 * 30000)).map fun num => (num, 1001)
  else if framerateX100 = 2397 ∨ framerateX100 = 2398 then some (24000, 1001)
  else some (avD2q framerateX100)

def clampFramerate (framerate : ℤ) : ℤ := if framerate < 10 then 10 else if 240 < framerate then 240 else framerate

/-- The frame interval of the capture, which has sanitized its frame rate. -/
def captureInterval (avD2q : ℤ → ℤ × ℤ) (framerate framerateX100 : ℤ) : Option ℤ :=
  if 0 < framerateX100 then do
    let fps ← framerateX100ToRational avD2q framerateX100
    let scaled ← checkedInt64 (fps.2 * 1000000000)
    checkedDiv scaled fps.1
  else checkedDiv 1000000000 (clampFramerate framerate)

/-- The packet duration that `audio::capture` works with, unless it does not capture. -/
def capturePacketDuration (server : Server) (audio : AudioConfig) : Option ℤ :=
  if server.streamAudio then
    if audio.packetDuration ≤ 0 ∨ 20 < audio.packetDuration then some 5 else some audio.packetDuration
  else none

/-- What the streaming threads rely on. Any frame is split into blocks, and a block has at most `dataShardsMax`
shards, parity included. -/
structure WellDefined (server : Server) (avD2q : ℤ → ℤ × ℤ) (session : Session) : Prop where
  packetsize : 16 < session.config.packetsize
  blocks : ∀ frame, ∃ split, splitFrame session.config.packetsize.toNat server.fecPercentage frame = .ok split
  minRequiredFecPackets : 0 ≤ session.config.minRequiredFecPackets
  parity : ∀ dataShards ≤ maxDataShardsPerFecBlock server.fecPercentage,
    dataShards + (parityAndPercentage dataShards server.fecPercentage
      session.config.minRequiredFecPackets.toNat).1 ≤ dataShardsMax
  budget : (videoQueueAgeBudget session.config.monitor.framerate session.config.monitor.framerateX100
    server.aggressive).isSome = true
  interval : (captureInterval avD2q session.config.monitor.framerate
    session.config.monitor.framerateX100).isSome = true
  packetDuration : ∀ d ∈ capturePacketDuration server session.config.audio,
    d = session.config.audio.packetDuration
  gcmKey : session.gcmKey.length = 16

/-- `rikey` is 32 hexadecimal digits. -/
def HexKey (rikey : List UInt8) : Prop := rikey.length = 32 ∧ ∀ c ∈ rikey, (hexDigit c).isSome = true

/-- The conditions on what the client sends: a packet size above the header that the server limits or that does
not overflow, a minimum of FEC packets that fits behind a full block, a frame rate that does not overflow, a packet
duration the capture accepts, and the key. -/
structure Admissible (server : Server) (rikey : List UInt8) (args : Attributes) : Prop where
  packetsize : ∀ v ∈ intArg args "x-nv-video[0].packetSize", 16 < v ∧
    ((packetsizeMin ≤ server.packetsize ∧ server.packetsize ≤ packetsizeMax ∧ server.packetsize < v) ∨
      maxDataShardsPerFecBlock server.fecPercentage * (v + 16) ≤ 2147483647)
  minRequiredFecPackets : ∀ v ∈ intArg args "x-nv-vqos[0].fec.minRequiredFecPackets",
    0 ≤ v ∧ v + maxDataShardsPerFecBlock server.fecPercentage ≤ 255
  framerate : ∀ framerate ∈ intArg args "x-nv-video[0].maxFPS",
    ∀ framerateX100 ∈ intArg args "x-nv-video[0].clientRefreshRateX100",
      if 0 < framerateX100 ∧ server.fpsRatioNear framerateX100 framerate = true then
        framerateX100 % 2997 = 0 → framerateX100 ≤ 214531254
      else framerate ≤ 21474836
  packetDuration : server.streamAudio = true →
    ∀ v ∈ intArg args "x-nv-aqos.packetDuration", 0 < v ∧ v ≤ 20
  rikey : HexKey rikey

/-! ## The key -/

theorem decodeHex_some (hex bytes : List UInt8) (h : decodeHex hex = some bytes) :
    hex.length = 2 * bytes.length ∧ ∀ c ∈ hex, (hexDigit c).isSome = true := by
  induction hex using decodeHex.induct generalizing bytes with
  | case1 =>
    cases h
    exact ⟨rfl, nofun⟩
  | case2 c => cases h
  | case3 high low rest ih =>
    rw [decodeHex] at h
    obtain ⟨hi, hhigh, h⟩ := Option.bind_eq_some_iff.mp h
    obtain ⟨lo, hlow, h⟩ := Option.bind_eq_some_iff.mp h
    obtain ⟨tail, htail, h⟩ := Option.bind_eq_some_iff.mp h
    obtain rfl := Option.some.inj h
    obtain ⟨hlength, hdigits⟩ := ih tail htail
    refine ⟨?_, List.forall_mem_cons.mpr ⟨?_, List.forall_mem_cons.mpr ⟨?_, hdigits⟩⟩⟩
    · simp only [List.length_cons, hlength]
      omega
    · rw [hhigh]
      rfl
    · rw [hlow]
      rfl

theorem decodeHex_digits (hex : List UInt8) (heven : hex.length % 2 = 0)
    (hdigits : ∀ c ∈ hex, (hexDigit c).isSome = true) : (decodeHex hex).isSome = true := by
  induction hex using decodeHex.induct with
  | case1 => rfl
  | case2 c => cases heven
  | case3 high low rest ih =>
    obtain ⟨hhigh, hrest⟩ := List.forall_mem_cons.mp hdigits
    obtain ⟨hlow, hrest⟩ := List.forall_mem_cons.mp hrest
    obtain ⟨hi, hhigh⟩ := Option.isSome_iff_exists.mp hhigh
    obtain ⟨lo, hlow⟩ := Option.isSome_iff_exists.mp hlow
    simp only [List.length_cons] at heven
    obtain ⟨tail, htail⟩ := Option.isSome_iff_exists.mp (ih (by omega) hrest)
    rw [decodeHex, hhigh, hlow, htail]
    rfl

theorem gcmKey_iff (rikey : List UInt8) : (fromHexVec rikey).length = 16 ↔ HexKey rikey := by
  unfold fromHexVec
  constructor
  · intro h
    cases hdecode : decodeHex rikey with
    | none =>
      rw [hdecode] at h
      cases h
    | some bytes =>
      rw [hdecode] at h
      obtain ⟨hlength, hdigits⟩ := decodeHex_some rikey bytes hdecode
      refine ⟨?_, hdigits⟩
      rw [hlength, show bytes.length = 16 from h]
  · rintro ⟨hlength, hdigits⟩
    obtain ⟨bytes, hdecode⟩ := Option.isSome_iff_exists.mp (decodeHex_digits rikey (by omega) hdigits)
    have hbytes := (decodeHex_some rikey bytes hdecode).1
    rw [hdecode]
    change bytes.length = 16
    omega

/-! ## Each use of a value -/

theorem limitPacketsize_eq (limit packetsize : ℤ) :
    limitPacketsize limit packetsize =
      if packetsizeMin ≤ limit ∧ limit ≤ packetsizeMax ∧ limit < packetsize then limit else packetsize := by
  unfold limitPacketsize packetsizeMin packetsizeMax
  split_ifs <;> omega

theorem splitFrame_iff {packetsize fecPercentage : ℕ} (hsize : 16 < packetsize) (hfec : fecPercentage ≤ 255) :
    (∀ frame, ∃ split, splitFrame packetsize fecPercentage frame = .ok split) ↔
      maxDataShardsPerFecBlock fecPercentage * (packetsize + maxRtpHeaderSize) ≤ intMax := by
  constructor
  · intro h
    by_contra hover
    obtain ⟨split, hsplit⟩ := h { data := [] }
    rw [splitFrame_overflow _ _ _ (by omega)] at hsplit
    cases hsplit
  · intro hint frame
    obtain ⟨split, hsplit, -⟩ := splitFrame_ok packetsize fecPercentage frame hsize hfec hint
    exact ⟨split, hsplit⟩

theorem packetsize_iff (server : Server) (packetsize : ℤ) :
    (16 < limitPacketsize server.packetsize packetsize ∧ ∀ frame, ∃ split,
      splitFrame (limitPacketsize server.packetsize packetsize).toNat server.fecPercentage frame = .ok split) ↔
      16 < packetsize ∧ ((packetsizeMin ≤ server.packetsize ∧ server.packetsize ≤ packetsizeMax ∧
          server.packetsize < packetsize) ∨
        maxDataShardsPerFecBlock server.fecPercentage * (packetsize + 16) ≤ 2147483647) := by
  obtain ⟨-, hfec⟩ := server.fecRange
  rw [limitPacketsize_eq]
  by_cases hlimit : packetsizeMin ≤ server.packetsize ∧ server.packetsize ≤ packetsizeMax ∧
      server.packetsize < packetsize
  · rw [if_pos hlimit]
    unfold packetsizeMin packetsizeMax at hlimit
    obtain ⟨hmin, hmax, hlt⟩ := hlimit
    obtain ⟨-, hshards, -⟩ := maxDataShards_bounds server.fecPercentage hfec
    have hint : maxDataShardsPerFecBlock server.fecPercentage *
        (server.packetsize.toNat + maxRtpHeaderSize) ≤ intMax :=
      (Nat.mul_le_mul hshards (by unfold maxRtpHeaderSize; omega :
        server.packetsize.toNat + maxRtpHeaderSize ≤ 65551)).trans (by decide)
    exact iff_of_true ⟨by omega, (splitFrame_iff (by omega) hfec).mpr hint⟩
      ⟨by omega, .inl ⟨hmin, hmax, hlt⟩⟩
  · rw [if_neg hlimit, or_iff_right hlimit]
    refine and_congr_right fun hsize => ?_
    obtain ⟨n, rfl⟩ := Int.eq_ofNat_of_zero_le (show 0 ≤ packetsize by omega)
    rw [Int.toNat_natCast, splitFrame_iff (by omega) hfec]
    unfold maxRtpHeaderSize intMax
    norm_cast

theorem budget_iff (framerate framerateX100 : ℤ) (aggressive : Bool) :
    (videoQueueAgeBudget framerate framerateX100 aggressive).isSome = true ↔
      (framerateX100 ≤ 0 → framerate ≤ 21474836) := by
  unfold videoQueueAgeBudget checkedDiv checkedInt32
  by_cases hx : 0 < framerateX100
  · simp only [if_pos hx, Option.bind_eq_bind, Option.bind_some, if_neg hx.ne', Option.isSome_some, true_iff]
    omega
  · rw [if_neg hx]
    by_cases hfits : -2147483648 ≤ max framerate 1 * 100 ∧ max framerate 1 * 100 ≤ 2147483647
    · have hne : max framerate 1 * 100 ≠ 0 := by omega
      simp only [if_pos hfits, Option.bind_eq_bind, Option.bind_some, if_neg hne, Option.isSome_some, true_iff]
      omega
    · simp only [if_neg hfits, Option.bind_eq_bind, Option.bind_none, Option.isSome_none,
        Bool.false_eq_true, false_iff]
      omega

/-- What is documented of `av_d2q` at a positive number: a fraction within its bound. -/
def BoundedFraction (avD2q : ℤ → ℤ × ℤ) : Prop :=
  ∀ x, 0 < x → 0 < (avD2q x).1 ∧ (avD2q x).1 ≤ 67108864 ∧ 0 < (avD2q x).2 ∧ (avD2q x).2 ≤ 67108864

theorem interval_of_rational {avD2q : ℤ → ℤ × ℤ} {framerate framerateX100 num den : ℤ}
    (hx : 0 < framerateX100) (hfps : framerateX100ToRational avD2q framerateX100 = some (num, den))
    (hnum : num ≠ 0) (hden : 0 < den ∧ den ≤ 67108864) :
    (captureInterval avD2q framerate framerateX100).isSome = true := by
  have hscaled : checkedInt64 (den * 1000000000) = some (den * 1000000000) := if_pos (by omega)
  unfold captureInterval
  simp only [if_pos hx, hfps, Option.bind_eq_bind, Option.bind_some, hscaled]
  unfold checkedDiv
  rw [if_neg hnum]
  rfl

theorem interval_iff {avD2q : ℤ → ℤ × ℤ} (havD2q : BoundedFraction avD2q) (framerate framerateX100 : ℤ) :
    (captureInterval avD2q framerate framerateX100).isSome = true ↔
      (0 < framerateX100 → framerateX100 % 2997 = 0 → framerateX100 ≤ 214531254) := by
  by_cases hx : 0 < framerateX100
  · by_cases hntsc : framerateX100 % 2997 = 0
    · by_cases hfits : -2147483648 ≤ framerateX100 / 2997 * 30000 ∧ framerateX100 / 2997 * 30000 ≤ 2147483647
      · have hfps : framerateX100ToRational avD2q framerateX100 =
            some (framerateX100 / 2997 * 30000, 1001) := by
          unfold framerateX100ToRational checkedInt32
          rw [if_pos hntsc, if_pos hfits]
          rfl
        exact ⟨fun _ _ _ => by omega, fun _ => interval_of_rational hx hfps (by omega) (by decide)⟩
      · have hfps : framerateX100ToRational avD2q framerateX100 = none := by
          unfold framerateX100ToRational checkedInt32
          rw [if_pos hntsc, if_neg hfits]
          rfl
        unfold captureInterval
        simp only [if_pos hx, hfps, Option.bind_eq_bind, Option.bind_none, Option.isSome_none,
          Bool.false_eq_true, false_iff]
        intro h
        have := h hx hntsc
        omega
    · refine ⟨fun _ _ h => absurd h hntsc, fun _ => ?_⟩
      by_cases hfilm : framerateX100 = 2397 ∨ framerateX100 = 2398
      · have hfps : framerateX100ToRational avD2q framerateX100 = some (24000, 1001) := by
          unfold framerateX100ToRational
          rw [if_neg hntsc, if_pos hfilm]
        exact interval_of_rational hx hfps (by decide) (by decide)
      · have hfps : framerateX100ToRational avD2q framerateX100 =
            some ((avD2q framerateX100).1, (avD2q framerateX100).2) := by
          unfold framerateX100ToRational
          rw [if_neg hntsc, if_neg hfilm]
        obtain ⟨hnum, -, hden⟩ := havD2q framerateX100 hx
        exact interval_of_rational hx hfps hnum.ne' hden
  · refine ⟨fun _ h => absurd h hx, fun _ => ?_⟩
    unfold captureInterval checkedDiv clampFramerate
    rw [if_neg hx]
    split_ifs <;> first | rfl | omega

theorem packetDuration_iff (server : Server) (audio : AudioConfig) :
    (∀ d ∈ capturePacketDuration server audio, d = audio.packetDuration) ↔
      (server.streamAudio = true → 0 < audio.packetDuration ∧ audio.packetDuration ≤ 20) := by
  unfold capturePacketDuration
  by_cases hstream : server.streamAudio = true
  · rw [if_pos hstream]
    split_ifs with hrange
    · constructor
      · intro h
        have := h 5 rfl
        omega
      · intro h
        have := h hstream
        omega
    · refine ⟨fun _ _ => by omega, fun _ d hd => (Option.some.inj hd).symm⟩
  · rw [if_neg hstream]
    exact ⟨fun _ h => absurd h hstream, fun _ => nofun⟩

theorem parityShards_eq (dataShards fecPercentage minParityShards : ℕ) :
    (parityAndPercentage dataShards fecPercentage minParityShards).1 =
      if fecPercentage = 0 ∨ minParityShards ≤ parityShardCount dataShards fecPercentage ∨ dataShards = 0 then
        parityShardCount dataShards fecPercentage
      else minParityShards := by
  unfold parityAndPercentage adjustedFecPercentageForMinParity
  by_cases h : fecPercentage = 0 ∨ minParityShards ≤ parityShardCount dataShards fecPercentage ∨ dataShards = 0
  · simp only [if_pos h]
  · simp only [if_neg h]

theorem parity_iff (server : Server) (minParityShards : ℕ) :
    (∀ dataShards ≤ maxDataShardsPerFecBlock server.fecPercentage,
      dataShards + (parityAndPercentage dataShards server.fecPercentage minParityShards).1 ≤ dataShardsMax) ↔
      minParityShards + maxDataShardsPerFecBlock server.fecPercentage ≤ 255 := by
  obtain ⟨hmin, hmax⟩ := server.fecRange
  constructor
  · intro h
    have hfull := h _ (Nat.le_refl _)
    have hpos : 0 < maxDataShardsPerFecBlock server.fecPercentage :=
      Nat.div_pos (by unfold dataShardsMax; omega) (by omega)
    have hpercent := data_parity_le _ server.fecPercentage hmax (Nat.le_refl _)
    rw [parityShards_eq] at hfull
    unfold parityShardCount at hfull
    unfold dataShardsMax at hfull hpercent
    split_ifs at hfull with hcase <;> omega
  · intro h dataShards hdata
    have hpercent := data_parity_le dataShards server.fecPercentage hmax hdata
    rw [parityShards_eq]
    unfold parityShardCount
    unfold dataShardsMax at hpercent ⊢
    split_ifs with hcase <;> omega

/-! ## What is read -/

theorem readAudio_some {args : Attributes} {audio : AudioConfig} (h : readAudio args = some audio) :
    intArg args "x-nv-aqos.packetDuration" = some audio.packetDuration := by
  unfold readAudio at h
  obtain ⟨channels, -, h⟩ := Option.bind_eq_some_iff.mp h
  obtain ⟨mask, -, h⟩ := Option.bind_eq_some_iff.mp h
  obtain ⟨packetDuration, hduration, h⟩ := Option.bind_eq_some_iff.mp h
  obtain ⟨highQuality, -, h⟩ := Option.bind_eq_some_iff.mp h
  obtain rfl := Option.some.inj h
  exact hduration

theorem readMonitor_some {server : Server} {args : Attributes} {monitor : MonitorConfig}
    (h : readMonitor server args = some monitor) :
    intArg args "x-nv-video[0].maxFPS" = some monitor.framerate ∧
      ∃ framerateX100, intArg args "x-nv-video[0].clientRefreshRateX100" = some framerateX100 ∧
        monitor.framerateX100 = validFramerateX100 server framerateX100 monitor.framerate := by
  unfold readMonitor at h
  obtain ⟨height, -, h⟩ := Option.bind_eq_some_iff.mp h
  obtain ⟨width, -, h⟩ := Option.bind_eq_some_iff.mp h
  obtain ⟨framerate, hframerate, h⟩ := Option.bind_eq_some_iff.mp h
  obtain ⟨framerateX100, hx100, h⟩ := Option.bind_eq_some_iff.mp h
  simp only [Option.bind_eq_bind, Option.bind_eq_some_iff] at h
  obtain ⟨_, -, _, -, _, -, _, -, _, -, _, -, _, -, _, -, h⟩ := h
  obtain rfl := Option.some.inj h
  exact ⟨hframerate, framerateX100, hx100, rfl⟩

theorem readConfig_some {server : Server} {args : Attributes} {config : Config}
    (h : readConfig server args = some config) :
    readAudio args = some config.audio ∧ readMonitor server args = some config.monitor ∧
      intArg args "x-nv-vqos[0].fec.minRequiredFecPackets" = some config.minRequiredFecPackets ∧
      ∃ packetsize, intArg args "x-nv-video[0].packetSize" = some packetsize ∧
        config.packetsize = limitPacketsize server.packetsize packetsize := by
  unfold readConfig at h
  obtain ⟨audio, haudio, h⟩ := Option.bind_eq_some_iff.mp h
  obtain ⟨controlProtocolType, -, h⟩ := Option.bind_eq_some_iff.mp h
  obtain ⟨packetsize, hpacketsize, h⟩ := Option.bind_eq_some_iff.mp h
  obtain ⟨minRequired, hmin, h⟩ := Option.bind_eq_some_iff.mp h
  simp only [Option.bind_eq_bind, Option.bind_eq_some_iff] at h
  obtain ⟨_, -, _, -, _, -, _, -, _, -, monitor, hmonitor, _, -, h⟩ := h
  obtain rfl := Option.some.inj h
  exact ⟨haudio, hmonitor, hmin, packetsize, hpacketsize, rfl⟩

theorem cmdAnnounce_ok {server : Server} {launch : LaunchSession} {payload : Text}
    {parsed : AnnouncePayload} {session : Session} (hparsed : parseAnnouncePayload payload = some parsed)
    (h : cmdAnnounce server launch payload = .ok session) :
    ∃ config, readConfig server (withDefaults parsed.attributes) = some config ∧
      session = alloc config launch := by
  unfold cmdAnnounce at h
  rw [hparsed] at h
  simp only at h
  cases hconfig : readConfig server (withDefaults parsed.attributes) with
  | none =>
    rw [hconfig] at h
    cases h
  | some config =>
    rw [hconfig] at h
    simp only at h
    split_ifs at h
    exact ⟨config, rfl, (Response.ok.inj h).symm⟩

/-! ## Admission -/

theorem framerate_iff (server : Server) {avD2q : ℤ → ℤ × ℤ} (havD2q : BoundedFraction avD2q)
    (framerate framerateX100 : ℤ) :
    ((videoQueueAgeBudget framerate (validFramerateX100 server framerateX100 framerate)
        server.aggressive).isSome = true ∧
      (captureInterval avD2q framerate (validFramerateX100 server framerateX100 framerate)).isSome = true) ↔
      if 0 < framerateX100 ∧ server.fpsRatioNear framerateX100 framerate = true then
        framerateX100 % 2997 = 0 → framerateX100 ≤ 214531254
      else framerate ≤ 21474836 := by
  rw [budget_iff, interval_iff havD2q]
  by_cases hpos : 0 < framerateX100
  · cases hnear : server.fpsRatioNear framerateX100 framerate with
    | true =>
      rw [validFramerateX100, if_neg (by simp [hnear]), if_pos ⟨hpos, rfl⟩]
      exact ⟨fun h => h.2 hpos, fun h => ⟨fun hle => by omega, fun _ => h⟩⟩
    | false =>
      rw [validFramerateX100, if_pos ⟨hpos, hnear⟩, if_neg (by simp)]
      exact ⟨fun h => h.1 (Int.le_refl 0), fun h => ⟨fun _ => h, fun hlt => by omega⟩⟩
  · rw [validFramerateX100, if_neg (fun h => hpos h.1), if_neg (fun h => hpos h.1)]
    exact ⟨fun h => h.1 (by omega), fun h => ⟨fun _ => h, fun hlt => absurd hlt hpos⟩⟩

/-- Of the requests that are answered with 200, exactly the admissible ones give a session whose arithmetic is
well defined. -/
theorem announce_wellDefined_iff (server : Server) (avD2q : ℤ → ℤ × ℤ) (havD2q : BoundedFraction avD2q)
    (args : Args) (rikey : List UInt8) (hrikey : args.lookup "rikey" = some rikey) (launch : LaunchSession)
    (hlaunch : makeLaunchSession args = some launch) (payload : Text) (parsed : AnnouncePayload)
    (hparsed : parseAnnouncePayload payload = some parsed) (session : Session)
    (hok : cmdAnnounce server launch payload = .ok session) :
    WellDefined server avD2q session ↔ Admissible server rikey (withDefaults parsed.attributes) := by
  obtain ⟨config, hconfig, rfl⟩ := cmdAnnounce_ok hparsed hok
  obtain ⟨haudio, hmonitor, hmin, packetsize, hpacketsize, hlimit⟩ := readConfig_some hconfig
  have hduration := readAudio_some haudio
  obtain ⟨hframerate, framerateX100, hx100, hvalid⟩ := readMonitor_some hmonitor
  have hkey : launch.gcmKey = fromHexVec rikey := by
    unfold makeLaunchSession at hlaunch
    rw [hrikey] at hlaunch
    obtain ⟨key, hkey, h⟩ := Option.bind_eq_some_iff.mp hlaunch
    obtain ⟨_, -, h⟩ := Option.bind_eq_some_iff.mp h
    rw [← Option.some.inj h, Option.some.inj hkey]
  have hsize := packetsize_iff server packetsize
  have hparity := parity_iff server config.minRequiredFecPackets.toNat
  have hrate := framerate_iff server havD2q config.monitor.framerate framerateX100
  have haudio := packetDuration_iff server config.audio
  have hgcm := gcmKey_iff rikey
  rw [← hlimit] at hsize
  rw [← hvalid] at hrate
  rw [← hkey] at hgcm
  constructor
  · rintro ⟨hps, hblocks, hmin0, hpar, hbudget, hinterval, hdur, hlen⟩
    refine ⟨fun v hv => ?_, fun v hv => ?_, fun fr hfr x hx => ?_, fun hstream v hv => ?_, hgcm.mp hlen⟩
    · obtain rfl := Option.some.inj (hpacketsize.symm.trans hv)
      exact hsize.mp ⟨hps, hblocks⟩
    · obtain rfl := Option.some.inj (hmin.symm.trans hv)
      have hmin0 : 0 ≤ config.minRequiredFecPackets := hmin0
      have hfits := hparity.mp hpar
      omega
    · obtain rfl := Option.some.inj (hframerate.symm.trans hfr)
      obtain rfl := Option.some.inj (hx100.symm.trans hx)
      exact hrate.mp ⟨hbudget, hinterval⟩
    · obtain rfl := Option.some.inj (hduration.symm.trans hv)
      exact haudio.mp hdur hstream
  · rintro ⟨hps, hfec, hfps, hdur, hlen⟩
    obtain ⟨hmin0, hfits⟩ := hfec _ hmin
    obtain ⟨hbudget, hinterval⟩ := hrate.mpr (hfps _ hframerate _ hx100)
    obtain ⟨hps, hblocks⟩ := hsize.mpr (hps _ hpacketsize)
    exact ⟨hps, hblocks, hmin0, hparity.mpr (by omega), hbudget, hinterval,
      haudio.mpr fun hstream => hdur hstream _ hduration, hgcm.mpr hlen⟩

/-! ## Two requests -/

/-- A fraction in lowest terms. -/
def reducedFraction (x : ℤ) : ℤ × ℤ :=
  if x / Int.gcd x 100 ≤ 67108864 then (x / Int.gcd x 100, 100 / Int.gcd x 100) else (67108864, 1)

theorem reducedFraction_bounded : BoundedFraction reducedFraction := by
  intro x hx
  have hgcd : 0 < (Int.gcd x 100 : ℤ) := by
    have := Int.gcd_pos_of_ne_zero_right x (show (100 : ℤ) ≠ 0 by decide)
    omega
  have hnum : 0 < x / Int.gcd x 100 := Int.ediv_pos_of_pos_of_dvd hx hgcd.le (Int.gcd_dvd_left ..)
  have hden : 0 < 100 / (Int.gcd x 100 : ℤ) :=
    Int.ediv_pos_of_pos_of_dvd (by decide) hgcd.le (Int.gcd_dvd_right ..)
  have hle : 100 / (Int.gcd x 100 : ℤ) ≤ 100 := Int.ediv_le_self _ (by decide)
  unfold reducedFraction
  split_ifs with hfits
  · exact ⟨hnum, hfits, hden, by show 100 / (Int.gcd x 100 : ℤ) ≤ 67108864; omega⟩
  · decide

def sampleServer : Server where
  packetsize := 0
  fecPercentage := 20
  activeHevcMode := 2
  activeAv1Mode := 1
  encryptionMandatory := false
  ssEncVideo := 2
  ssEncAudio := 4
  streamAudio := true
  aggressive := false
  fpsRatioNear x fps := 99 * fps ≤ x ∧ x ≤ 101 * fps
  starts := true
  fecRange := by decide

def sampleKey : List UInt8 := List.replicate 32 65

def sampleArgs : Args := [("rikey", sampleKey), ("rikeyid", [49])]

def sampleAttributes (packetSize : String) : Attributes :=
  [("x-nv-audio.surround.numChannels", "2"), ("x-nv-audio.surround.channelMask", "3"),
    ("x-nv-audio.surround.AudioQuality", "0"), ("x-nv-video[0].packetSize", packetSize),
    ("x-nv-video[0].clientViewportHt", "720"), ("x-nv-video[0].clientViewportWd", "1280"),
    ("x-nv-video[0].maxFPS", "60"), ("x-nv-video[0].clientRefreshRateX100", "6000"),
    ("x-nv-vqos[0].bw.maximumBitrateKbps", "10000"), ("x-nv-video[0].videoEncoderSlicesPerFrame", "1"),
    ("x-nv-video[0].maxNumReferenceFrames", "1")].map fun a => (a.1.toList, a.2.toList)

def samplePayload (packetSize : String) : Text :=
  (sampleAttributes packetSize).flatMap fun a => "a=".toList ++ a.1 ++ ':' :: a.2 ++ ['\n']

def sampleSession (packetsize : ℤ) : Session where
  config := { audio := ⟨2, 3, 5⟩, controlProtocolType := 1, packetsize, minRequiredFecPackets := 0,
              monitor := ⟨720, 1280, 60, 6000, 1, 1, 0, 0, 0, 0, 0⟩
              mlFeatureFlags := 0, audioQosType := 4, videoQosType := 5, encryptionFlagsEnabled := 0 }
  gcmKey := fromHexVec sampleKey

theorem samples_read : ∀ sample ∈ [("16", 16), ("1024", 1024)],
    parseAnnouncePayload (samplePayload sample.1) = some ⟨[], sampleAttributes sample.1⟩ ∧
      readConfig sampleServer (withDefaults (sampleAttributes sample.1)) =
        some (sampleSession sample.2).config := by
  simp only [List.forall_mem_cons, readConfig_congr sampleServer (lookup_withDefaults _)]
  refine ⟨⟨?_, ?_⟩, ⟨?_, ?_⟩, nofun⟩
  all_goals
    simp only [samplePayload, sampleAttributes, defaultTexts, defaults, List.map, readConfig, readMonitor, readAudio,
      intArg, int64Arg, uint32Arg]
    -- each literal is read once here, the kernel would decode it again at every comparison
    repeat rw [String.toList_ofList]
    decide +kernel

theorem cmdAnnounce_started {server : Server} {launch : LaunchSession} {payload : Text} {parsed : AnnouncePayload}
    {config : Config} (hparsed : parseAnnouncePayload payload = some parsed)
    (hconfig : readConfig server (withDefaults parsed.attributes) = some config)
    (hformat : config.monitor.videoFormat = 0) (hmandatory : server.encryptionMandatory = false)
    (hstarts : server.starts = true) : cmdAnnounce server launch payload = .ok (alloc config launch) := by
  unfold cmdAnnounce
  simp only [hparsed, hconfig, hformat, hmandatory, hstarts]
  simp

theorem sample_announced {packetSize : String} {packetsize : ℤ}
    (hsample : (packetSize, packetsize) ∈ [("16", (16 : ℤ)), ("1024", 1024)]) :
    cmdAnnounce sampleServer ⟨fromHexVec sampleKey⟩ (samplePayload packetSize) = .ok (sampleSession packetsize) := by
  obtain ⟨hparsed, hconfig⟩ := samples_read _ hsample
  exact cmdAnnounce_started hparsed hconfig rfl rfl rfl

theorem sampleKey_launch : makeLaunchSession sampleArgs = some ⟨fromHexVec sampleKey⟩ := by
  decide +kernel

theorem announce_wellDefined_1024 : WellDefined sampleServer reducedFraction (sampleSession 1024) := by
  obtain ⟨hparsed, hconfig⟩ := samples_read ("1024", 1024) (by simp)
  refine (announce_wellDefined_iff sampleServer reducedFraction reducedFraction_bounded sampleArgs sampleKey rfl
    ⟨fromHexVec sampleKey⟩ sampleKey_launch (samplePayload "1024") ⟨[], sampleAttributes "1024"⟩
    hparsed (sampleSession 1024) (sample_announced (by simp))).mpr ?_
  obtain ⟨haudio, hmonitor, hmin, packetsize, hpacketsize, hlimit⟩ := readConfig_some hconfig
  obtain ⟨hframerate, framerateX100, hx100, hvalid⟩ := readMonitor_some hmonitor
  refine ⟨fun v hv => ?_, fun v hv => ?_, fun fps hfps x hx => ?_, fun _ v hv => ?_, rfl, fun c hc => ?_⟩
  · obtain rfl := Option.some.inj (hpacketsize.symm.trans hv)
    obtain rfl : 1024 = packetsize := hlimit
    decide
  · obtain rfl := Option.some.inj (hmin.symm.trans hv)
    decide
  · obtain rfl := Option.some.inj (hframerate.symm.trans hfps)
    obtain rfl := Option.some.inj (hx100.symm.trans hx)
    split_ifs
    · unfold validFramerateX100 at hvalid
      split_ifs at hvalid
      · cases hvalid
      · obtain rfl : 6000 = framerateX100 := hvalid
        decide
    · decide
  · obtain rfl := Option.some.inj ((readAudio_some haudio).symm.trans hv)
    decide
  · rw [List.eq_of_mem_replicate hc]
    rfl

/-- A packet size of 16 is answered with 200. -/
theorem announce_accepts_header_only : ¬∀ (server : Server) (avD2q : ℤ → ℤ × ℤ), BoundedFraction avD2q →
    ∀ (args : Args) (launch : LaunchSession), makeLaunchSession args = some launch →
      ∀ (payload : Text) (session : Session), cmdAnnounce server launch payload = .ok session →
        WellDefined server avD2q session := by
  intro h
  have hsize := (h sampleServer reducedFraction reducedFraction_bounded sampleArgs ⟨fromHexVec sampleKey⟩
    sampleKey_launch (samplePayload "16") (sampleSession 16) (sample_announced (by simp))).packetsize
  exact absurd hsize (by decide)

end Sunshine.Admission
