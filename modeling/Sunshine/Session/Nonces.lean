import Sunshine.Lib.Bytes
import Sunshine.Lib.Occurrences

/-! The IVs the host encrypts with under one launch session's `gcm_key` (`respond`,
`encode_control`, the shard encryption of `videoBroadcastThread`, and `session::alloc`).

The counters live in different objects: the launch session counts its RTSP responses, each stream
session its control messages and its shards. `nonces_unique_iff` says when no IV comes twice: every
`ANNOUNCE` makes a stream session whose counters start at zero again, so only one of them may send
encrypted control messages, and only one encrypted video. -/
namespace Sunshine.Session
open Bytes Occurrences
set_option autoImplicit false

/-! ## IV buffers -/

abbrev Iv : Type := List UInt8

/-- `std::copy_n` to the front of a buffer. -/
def copyN (src dst : Iv) : Iv := src ++ dst.drop src.length

def resizeIv (n : ℕ) (iv : Iv) : Iv := iv.take n ++ List.replicate (n - iv.length) 0

def charC : UInt8 := 67
def charH : UInt8 := 72
def charR : UInt8 := 82
def charV : UInt8 := 86

/-! ## Sessions -/

section Host

variable {Key : Type}

structure LaunchSession (Key : Type) where
  gcmKey : Key
  rtspCipher : Option Key
  rtspIvCounter : ℕ
  deriving DecidableEq, Repr

/-- `make_launch_session`: RTSP is encrypted for clients that report `corever >= 1`. -/
def makeLaunchSession (gcmKey : Key) (corever : Int) : LaunchSession Key where
  gcmKey := gcmKey
  rtspCipher := if corever ≥ 1 then some gcmKey else none
  rtspIvCounter := 0

structure EncryptionConfig where
  controlProtocolType : ℤ
  encControlV2 : Bool
  encVideo : Bool
  deriving DecidableEq, Repr

structure StreamSession (Key : Type) where
  config : EncryptionConfig
  controlCipher : Key
  controlSeq : ℕ := 0
  outgoingIv : Iv := []
  videoCipher : Option Key
  gcmIvCounter : ℕ := 0
  deriving DecidableEq, Repr

def alloc (config : EncryptionConfig) (launch : LaunchSession Key) : StreamSession Key where
  config := config
  controlCipher := launch.gcmKey
  videoCipher := if config.encVideo then some launch.gcmKey else none

/-- `respond`: the launch session after it, and what the response was encrypted with. -/
def respond (launch : LaunchSession Key) : LaunchSession Key × Option (Key × Iv) :=
  match launch.rtspCipher with
  | none => (launch, none)
  | some cipher =>
    let counter := (launch.rtspIvCounter + 1) % 2 ^ 32
    let iv := copyN (leBytes 4 counter) (List.replicate 12 0)
    let iv := (iv.set 10 charH).set 11 charR
    ({ launch with rtspIvCounter := counter }, some (cipher, iv))

/-- `encode_control`; the old style encryption numbers messages by one byte. -/
def encodeControl (session : StreamSession Key) : StreamSession Key × Option (Key × Iv) :=
  if session.config.controlProtocolType ≠ 13 then (session, none)
  else
    let seq := session.controlSeq
    let iv :=
      if session.config.encControlV2 then
        let iv := copyN (leBytes 4 seq) (resizeIv 12 session.outgoingIv)
        (iv.set 10 charH).set 11 charC
      else
        (resizeIv 16 session.outgoingIv).set 0 (UInt8.ofNat seq)
    ({ session with controlSeq := (seq + 1) % 2 ^ 32, outgoingIv := iv },
      some (session.controlCipher, iv))

/-- One shard in `videoBroadcastThread`, whose `iv` buffer serves all sessions. -/
def encryptShard (iv : Iv) (session : StreamSession Key) :
    Iv × StreamSession Key × Option (Key × Iv) :=
  match session.videoCipher with
  | none => (iv, session, none)
  | some cipher =>
    let iv := (copyN (leBytes 8 session.gcmIvCounter) iv).set 11 charV
    (iv, { session with gcmIvCounter := (session.gcmIvCounter + 1) % 2 ^ 64 }, some (cipher, iv))

/-! ## Runs -/

structure HostState (Key : Type) where
  launch : LaunchSession Key
  sessions : List (StreamSession Key) := []
  videoIv : Iv := List.replicate 12 0
  deriving DecidableEq, Repr

/-- An accepted `ANNOUNCE` and its response are two events: the other threads go on between them. -/
inductive HostEvent where
  | respond
  | announce (config : EncryptionConfig)
  | control (session : ℕ)
  | shard (session : ℕ)
  deriving DecidableEq, Repr

def nextHost (s : HostState Key) : HostEvent → HostState Key × Option (Key × Iv)
  | .respond => ({ s with launch := (respond s.launch).1 }, (respond s.launch).2)
  | .announce config => ({ s with sessions := s.sessions ++ [alloc config s.launch] }, none)
  | .control i =>
    match s.sessions[i]? with
    | none => (s, none)
    | some session =>
      ({ s with sessions := s.sessions.set i (encodeControl session).1 }, (encodeControl session).2)
  | .shard i =>
    match s.sessions[i]? with
    | none => (s, none)
    | some session =>
      let (iv, session, used) := encryptShard s.videoIv session
      ({ s with sessions := s.sessions.set i session, videoIv := iv }, used)

/-- The keys and IVs of a run's encryptions. -/
def hostIvs : HostState Key → List HostEvent → List (Key × Iv)
  | _, [] => []
  | s, e :: l => (nextHost s e).2.toList ++ hostIvs (nextHost s e).1 l

/-- The old style control encryption is not negotiated. -/
def HostEvent.NoLegacyControl : HostEvent → Prop
  | .announce config => config.controlProtocolType = 13 → config.encControlV2 = true
  | _ => True

instance : DecidablePred HostEvent.NoLegacyControl
  | .announce config =>
    inferInstanceAs (Decidable (config.controlProtocolType = 13 → config.encControlV2 = true))
  | .respond | .control _ | .shard _ => inferInstanceAs (Decidable True)

/-! ## Who encrypts -/

inductive Producer where
  | rtsp
  | control (session : ℕ)
  | video (session : ℕ)
  deriving DecidableEq, Repr

/-- The producer an event makes encrypt, for the configurations announced so far. -/
def producer (rtspEncrypted : Bool) (configs : List EncryptionConfig) : HostEvent → Option Producer
  | .respond => if rtspEncrypted then some .rtsp else none
  | .announce _ => none
  | .control i =>
    if (configs[i]?.map (·.controlProtocolType)) = some 13 then some (.control i) else none
  | .shard i => if (configs[i]?.map (·.encVideo)) = some true then some (.video i) else none

@[simp] theorem producer_respond (rtspEncrypted : Bool) (configs : List EncryptionConfig) :
    producer rtspEncrypted configs .respond = if rtspEncrypted then some .rtsp else none := rfl

@[simp] theorem producer_control (rtspEncrypted : Bool) (configs : List EncryptionConfig) (i : ℕ) :
    producer rtspEncrypted configs (.control i) =
      if (configs[i]?.map (·.controlProtocolType)) = some 13 then some (.control i) else none := rfl

@[simp] theorem producer_shard (rtspEncrypted : Bool) (configs : List EncryptionConfig) (i : ℕ) :
    producer rtspEncrypted configs (.shard i) =
      if (configs[i]?.map (·.encVideo)) = some true then some (.video i) else none := rfl

def announced (configs : List EncryptionConfig) : HostEvent → List EncryptionConfig
  | .announce config => configs ++ [config]
  | _ => configs

def producers (rtspEncrypted : Bool) : List EncryptionConfig → List HostEvent → List Producer
  | _, [] => []
  | configs, e :: l =>
    (producer rtspEncrypted configs e).toList ++ producers rtspEncrypted (announced configs e) l

def Producer.range : Producer → ℕ
  | .rtsp | .control _ => 2 ^ 32
  | .video _ => 2 ^ 64

theorem Producer.le_range (p : Producer) : 2 ^ 32 ≤ p.range := by
  cases p <;> simp [Producer.range]

/-- At most one stream session encrypts control messages, at most one encrypts video, and no counter
comes round. -/
structure NonceCondition (l : List Producer) : Prop where
  counts : ∀ p, l.count p ≤ p.range
  oneControl : ∀ i j, .control i ∈ l → .control j ∈ l → i = j
  oneVideo : ∀ i j, .video i ∈ l → .video j ∈ l → i = j

/-! ## The IV of a counter -/

def rtspIv (counter : ℕ) : Iv := leBytes 4 counter ++ List.replicate 6 0 ++ [charH] ++ [charR]

def controlIv (seq : ℕ) : Iv := leBytes 4 seq ++ List.replicate 6 0 ++ [charH] ++ [charC]

def videoIv (counter : ℕ) : Iv := leBytes 8 counter ++ List.replicate 3 0 ++ [charV]

/-- What a producer's k-th encryption uses; the RTSP counter is raised before it is used. -/
def nonceOf (key : Key) : Producer × ℕ → Key × Iv
  | (.rtsp, k) => (key, rtspIv ((k + 1) % 2 ^ 32))
  | (.control _, k) => (key, controlIv (k % 2 ^ 32))
  | (.video _, k) => (key, videoIv (k % 2 ^ 64))

theorem rtspIv_inj (a b : ℕ) (ha : a < 2 ^ 32) (hb : b < 2 ^ 32) (h : rtspIv a = rtspIv b) :
    a = b := by
  unfold rtspIv at h
  simp only [List.append_assoc] at h
  exact leBytes_inj 4 a b ha hb (List.append_inj_left h (by simp))

theorem controlIv_inj (a b : ℕ) (ha : a < 2 ^ 32) (hb : b < 2 ^ 32) (h : controlIv a = controlIv b) :
    a = b := by
  unfold controlIv at h
  simp only [List.append_assoc] at h
  exact leBytes_inj 4 a b ha hb (List.append_inj_left h (by simp))

theorem videoIv_inj (a b : ℕ) (ha : a < 2 ^ 64) (hb : b < 2 ^ 64) (h : videoIv a = videoIv b) :
    a = b := by
  unfold videoIv at h
  simp only [List.append_assoc] at h
  exact leBytes_inj 8 a b ha hb (List.append_inj_left h (by simp))

theorem rtspIv_last (n : ℕ) : (rtspIv n).getLast? = some charR := List.getLast?_concat

theorem controlIv_last (n : ℕ) : (controlIv n).getLast? = some charC := List.getLast?_concat

theorem videoIv_last (n : ℕ) : (videoIv n).getLast? = some charV := List.getLast?_concat

/-! ## The buffers -/

theorem controlBuffer (iv : Iv) (hiv : iv = [] ∨ ∃ n, iv = controlIv n) (seq : ℕ) :
    ((copyN (leBytes 4 seq) (resizeIv 12 iv)).set 10 charH).set 11 charC = controlIv seq := by
  rcases hiv with rfl | ⟨n, rfl⟩ <;> rfl

theorem videoBuffer (iv : Iv) (hiv : iv = List.replicate 12 0 ∨ ∃ n, iv = videoIv n) (counter : ℕ) :
    (copyN (leBytes 8 counter) iv).set 11 charV = videoIv counter := by
  rcases hiv with rfl | ⟨n, rfl⟩ <;> rfl

theorem rtspBuffer (counter : ℕ) :
    ((copyN (leBytes 4 counter) (List.replicate 12 0)).set 10 charH).set 11 charR =
      rtspIv counter := rfl

/-! ## The counters follow the producers -/

/-- A stream session that has encrypted `sent` control messages and `shards` shards. -/
structure SessionTracks (key : Key) (session : StreamSession Key) (sent shards : ℕ) : Prop where
  noLegacy : session.config.controlProtocolType = 13 → session.config.encControlV2 = true
  controlCipher : session.controlCipher = key
  seq : session.controlSeq = sent % 2 ^ 32
  outgoingIv : session.outgoingIv = [] ∨ ∃ n, session.outgoingIv = controlIv n
  videoCipher : session.videoCipher = if session.config.encVideo then some key else none
  counter : session.gcmIvCounter = shards % 2 ^ 64

/-- The host's counters after the encryptions counted by `seen`. -/
structure Tracks (key : Key) (rtspEncrypted : Bool) (s : HostState Key) (seen : Producer → ℕ) :
    Prop where
  gcmKey : s.launch.gcmKey = key
  rtspCipher : s.launch.rtspCipher = if rtspEncrypted then some key else none
  rtsp : s.launch.rtspIvCounter = seen .rtsp % 2 ^ 32
  session : ∀ i session, s.sessions[i]? = some session →
    SessionTracks key session (seen (.control i)) (seen (.video i))
  unused : ∀ i, s.sessions.length ≤ i → seen (.control i) = 0 ∧ seen (.video i) = 0
  buffer : s.videoIv = List.replicate 12 0 ∨ ∃ n, s.videoIv = videoIv n

theorem alloc_tracks (key : Key) (launch : LaunchSession Key) (hkey : launch.gcmKey = key)
    (config : EncryptionConfig)
    (hlegacy : config.controlProtocolType = 13 → config.encControlV2 = true) :
    SessionTracks key (alloc config launch) 0 0 := by
  subst hkey
  exact ⟨hlegacy, rfl, rfl, Or.inl rfl, rfl, rfl⟩

theorem succ_mod_mod (n m : ℕ) : (n % m + 1) % m = (n + 1) % m := by
  rw [Nat.add_mod, Nat.mod_mod, ← Nat.add_mod]

theorem encodeControl_encrypted {key : Key} {session : StreamSession Key} {sent shards : ℕ}
    (h : SessionTracks key session sent shards) (htype : session.config.controlProtocolType = 13) :
    (encodeControl session).2 = some (key, controlIv (sent % 2 ^ 32)) ∧
      (encodeControl session).1.config = session.config ∧
      SessionTracks key (encodeControl session).1 (sent + 1) shards := by
  have hiv := controlBuffer session.outgoingIv h.outgoingIv session.controlSeq
  unfold encodeControl
  simp only [htype, ne_eq, not_true_eq_false, if_false, h.noLegacy htype, if_true, hiv]
  rw [h.controlCipher, h.seq]
  refine ⟨rfl, trivial, h.noLegacy, rfl, ?_, Or.inr ⟨_, rfl⟩, h.videoCipher, h.counter⟩
  exact succ_mod_mod sent (2 ^ 32)

theorem encryptShard_encrypted {key : Key} {session : StreamSession Key} {sent shards : ℕ}
    (h : SessionTracks key session sent shards) (hvideo : session.config.encVideo = true) (iv : Iv)
    (hiv : iv = List.replicate 12 0 ∨ ∃ n, iv = videoIv n) :
    (encryptShard iv session).1 = videoIv (shards % 2 ^ 64) ∧
      (encryptShard iv session).2.2 = some (key, videoIv (shards % 2 ^ 64)) ∧
      (encryptShard iv session).2.1.config = session.config ∧
      SessionTracks key (encryptShard iv session).2.1 sent (shards + 1) := by
  have hcipher := h.videoCipher
  rw [hvideo, if_pos rfl] at hcipher
  unfold encryptShard
  rw [hcipher]
  simp only [videoBuffer iv hiv, h.counter]
  refine ⟨trivial, trivial, trivial, h.noLegacy, h.controlCipher, h.seq, h.outgoingIv, ?_, ?_⟩
  · simp only [hvideo, if_true]
  · exact succ_mod_mod shards (2 ^ 64)

theorem Tracks.updateSession {key : Key} {rtspEncrypted : Bool} {s : HostState Key}
    {seen : Producer → ℕ} (h : Tracks key rtspEncrypted s seen) (i : ℕ) (old new : StreamSession Key)
    (hold : s.sessions[i]? = some old) (p : Producer) (hp : p = .control i ∨ p = .video i)
    (iv : Iv) (hiv : iv = List.replicate 12 0 ∨ ∃ n, iv = videoIv n)
    (hnew : SessionTracks key new (Function.update seen p (seen p + 1) (.control i))
      (Function.update seen p (seen p + 1) (.video i))) :
    Tracks key rtspEncrypted { s with sessions := s.sessions.set i new, videoIv := iv }
      (Function.update seen p (seen p + 1)) := by
  have hlen : i < s.sessions.length := (List.getElem?_eq_some_iff.mp hold).1
  have hother : ∀ j, j ≠ i → Producer.control j ≠ p ∧ Producer.video j ≠ p := by
    intro j hj
    rcases hp with rfl | rfl <;> simp [hj]
  refine ⟨h.gcmKey, h.rtspCipher, ?_, fun j session hj => ?_, fun j hj => ?_, hiv⟩
  · have hrtsp : Producer.rtsp ≠ p := by rcases hp with rfl | rfl <;> simp
    rw [Function.update_of_ne hrtsp]
    exact h.rtsp
  · by_cases hji : j = i
    · subst hji
      rw [List.getElem?_set_self hlen] at hj
      rw [← Option.some.inj hj]
      exact hnew
    · rw [List.getElem?_set_ne (Ne.symm hji)] at hj
      rw [Function.update_of_ne (hother j hji).1, Function.update_of_ne (hother j hji).2]
      exact h.session j session hj
  · rw [List.length_set] at hj
    have hji : j ≠ i := by omega
    rw [Function.update_of_ne (hother j hji).1, Function.update_of_ne (hother j hji).2]
    exact h.unused j hj

def HostState.configs (s : HostState Key) : List EncryptionConfig := s.sessions.map (·.config)

def advance (seen : Producer → ℕ) : Option Producer → Producer → ℕ
  | none => seen
  | some p => Function.update seen p (seen p + 1)

theorem set_self {α : Type} {l : List α} {i : ℕ} {a : α} (h : l[i]? = some a) : l.set i a = l := by
  obtain ⟨hlen, hget⟩ := List.getElem?_eq_some_iff.mp h
  rw [← hget, List.set_getElem_self]

theorem set_configs (s : HostState Key) (i : ℕ) (old new : StreamSession Key)
    (hold : s.sessions[i]? = some old) (hconfig : new.config = old.config) :
    (s.sessions.set i new).map (·.config) = s.configs := by
  have hmap : s.configs[i]? = some old.config := by simp [HostState.configs, hold]
  rw [List.map_set, hconfig]
  exact set_self hmap

/-- One event encrypts with what its producer is due, and the counters go on following. -/
structure StepTracks (key : Key) (rtspEncrypted : Bool) (s : HostState Key) (seen : Producer → ℕ)
    (e : HostEvent) : Prop where
  used : (nextHost s e).2 =
    (producer rtspEncrypted s.configs e).map fun p => nonceOf key (p, seen p)
  configs : (nextHost s e).1.configs = announced s.configs e
  tracks : Tracks key rtspEncrypted (nextHost s e).1
    (advance seen (producer rtspEncrypted s.configs e))

section Steps

variable {key : Key} {rtspEncrypted : Bool} {s : HostState Key} {seen : Producer → ℕ}

theorem respond_tracks (h : Tracks key rtspEncrypted s seen) :
    StepTracks key rtspEncrypted s seen .respond := by
  have hcipher := h.rtspCipher
  cases rtspEncrypted with
  | false =>
    rw [if_neg Bool.false_ne_true] at hcipher
    have hrespond : respond s.launch = (s.launch, none) := by
      unfold respond
      rw [hcipher]
    have hnext : nextHost s .respond = (s, none) := by
      simp only [nextHost, hrespond]
    refine ⟨?_, ?_, ?_⟩
    · rw [hnext]
      rfl
    · rw [hnext]
      rfl
    · rw [hnext]
      exact h
  | true =>
    rw [if_pos rfl] at hcipher
    have hcount : (s.launch.rtspIvCounter + 1) % 2 ^ 32 = (seen .rtsp + 1) % 2 ^ 32 := by
      rw [h.rtsp]
      exact succ_mod_mod _ _
    have hrespond : respond s.launch =
        ({ s.launch with rtspIvCounter := (seen .rtsp + 1) % 2 ^ 32 },
          some (key, rtspIv ((seen .rtsp + 1) % 2 ^ 32))) := by
      unfold respond
      simp only [hcipher, rtspBuffer, hcount]
    refine ⟨?_, rfl, ?_⟩
    · show (respond s.launch).2 = _
      rw [hrespond]
      rfl
    · rw [producer_respond, if_pos rfl]
      have hrtsp : advance seen (some .rtsp) .rtsp = seen .rtsp + 1 := by simp [advance]
      have hother : ∀ i, advance seen (some .rtsp) (.control i) = seen (.control i) ∧
          advance seen (some .rtsp) (.video i) = seen (.video i) := by simp [advance]
      have hlaunch : (nextHost s .respond).1 =
          { s with launch := { s.launch with rtspIvCounter := (seen .rtsp + 1) % 2 ^ 32 } } := by
        simp only [nextHost, hrespond]
      rw [hlaunch]
      refine ⟨h.gcmKey, h.rtspCipher, ?_, fun i session hi => ?_, fun i hi => ?_, h.buffer⟩
      · rw [hrtsp]
      · rw [(hother i).1, (hother i).2]
        exact h.session i session hi
      · rw [(hother i).1, (hother i).2]
        exact h.unused i hi

theorem announce_tracks (h : Tracks key rtspEncrypted s seen) (config : EncryptionConfig)
    (hlegacy : config.controlProtocolType = 13 → config.encControlV2 = true) :
    StepTracks key rtspEncrypted s seen (.announce config) := by
  refine ⟨rfl, ?_, h.gcmKey, h.rtspCipher, h.rtsp, fun i session hi => ?_, fun i hi => ?_, h.buffer⟩
  · show (s.sessions ++ [alloc config s.launch]).map (·.config) = s.configs ++ [config]
    rw [List.map_append]
    rfl
  · change (s.sessions ++ [alloc config s.launch])[i]? = some session at hi
    by_cases hlen : i < s.sessions.length
    · rw [List.getElem?_append_left hlen] at hi
      exact h.session i session hi
    · -- the new session starts its counters, and nothing was counted for it before
      have hunused := h.unused i (by omega)
      rw [List.getElem?_append_right (by omega)] at hi
      have hnew : session = alloc config s.launch := by
        have hmem := List.mem_of_getElem? hi
        simpa using hmem
      show SessionTracks key session (seen (.control i)) (seen (.video i))
      rw [hunused.1, hunused.2, hnew]
      exact alloc_tracks key s.launch h.gcmKey config hlegacy
  · refine h.unused i ?_
    change (s.sessions ++ [alloc config s.launch]).length ≤ i at hi
    rw [List.length_append] at hi
    omega

theorem missing_tracks (h : Tracks key rtspEncrypted s seen) (e : HostEvent)
    (hnext : nextHost s e = (s, none)) (hproducer : producer rtspEncrypted s.configs e = none)
    (hannounced : announced s.configs e = s.configs) : StepTracks key rtspEncrypted s seen e := by
  refine ⟨?_, ?_, ?_⟩
  · rw [hnext, hproducer]
    rfl
  · rw [hnext, hannounced]
  · rw [hnext, hproducer]
    exact h

theorem control_tracks (h : Tracks key rtspEncrypted s seen) (i : ℕ) :
    StepTracks key rtspEncrypted s seen (.control i) := by
  cases hsession : s.sessions[i]? with
  | none =>
    refine missing_tracks h _ ?_ ?_ rfl
    · simp only [nextHost, hsession]
    · simp [producer, HostState.configs, hsession]
  | some session =>
    have hconfig : s.configs[i]?.map (·.controlProtocolType) =
        some session.config.controlProtocolType := by
      simp [HostState.configs, hsession]
    have hnext : nextHost s (.control i) =
        ({ s with sessions := s.sessions.set i (encodeControl session).1 },
          (encodeControl session).2) := by
      simp only [nextHost, hsession]
    by_cases htype : session.config.controlProtocolType = 13
    · have hproducer : producer rtspEncrypted s.configs (.control i) = some (.control i) := by
        rw [producer_control, hconfig, htype, if_pos rfl]
      obtain ⟨hused, hsame, htracks⟩ := encodeControl_encrypted (h.session i session hsession) htype
      refine ⟨?_, ?_, ?_⟩
      · rw [hnext, hproducer]
        exact hused
      · rw [hnext]
        exact set_configs s i session _ hsession hsame
      · rw [hnext, hproducer]
        refine h.updateSession i session _ hsession _ (Or.inl rfl) s.videoIv h.buffer ?_
        have hvideo : Producer.video i ≠ .control i := by simp
        rw [Function.update_self, Function.update_of_ne hvideo]
        exact htracks
    · refine missing_tracks h _ ?_ ?_ rfl
      · have hplain : encodeControl session = (session, none) := by
          unfold encodeControl
          rw [if_pos htype]
        rw [hnext, hplain, set_self hsession]
      · rw [producer_control, hconfig, if_neg (by simpa using htype)]

theorem shard_tracks (h : Tracks key rtspEncrypted s seen) (i : ℕ) :
    StepTracks key rtspEncrypted s seen (.shard i) := by
  cases hsession : s.sessions[i]? with
  | none =>
    refine missing_tracks h _ ?_ ?_ rfl
    · simp only [nextHost, hsession]
    · simp [producer, HostState.configs, hsession]
  | some session =>
    have hconfig : s.configs[i]?.map (·.encVideo) = some session.config.encVideo := by
      simp [HostState.configs, hsession]
    have hnext : nextHost s (.shard i) =
        ({ s with sessions := s.sessions.set i (encryptShard s.videoIv session).2.1,
                  videoIv := (encryptShard s.videoIv session).1 },
          (encryptShard s.videoIv session).2.2) := by
      simp only [nextHost, hsession]
    by_cases hvideo : session.config.encVideo = true
    · have hproducer : producer rtspEncrypted s.configs (.shard i) = some (.video i) := by
        rw [producer_shard, hconfig, hvideo, if_pos rfl]
      obtain ⟨hbuffer, hused, hsame, htracks⟩ :=
        encryptShard_encrypted (h.session i session hsession) hvideo s.videoIv h.buffer
      refine ⟨?_, ?_, ?_⟩
      · rw [hnext, hproducer]
        exact hused
      · rw [hnext]
        exact set_configs s i session _ hsession hsame
      · rw [hnext, hproducer]
        refine h.updateSession i session _ hsession _ (Or.inr rfl) _ (Or.inr ⟨_, hbuffer⟩) ?_
        have hcontrol : Producer.control i ≠ .video i := by simp
        rw [Function.update_self, Function.update_of_ne hcontrol]
        exact htracks
    · refine missing_tracks h _ ?_ ?_ rfl
      · have hcipher : session.videoCipher = none := by
          rw [(h.session i session hsession).videoCipher, if_neg hvideo]
        have hplain : encryptShard s.videoIv session = (s.videoIv, session, none) := by
          unfold encryptShard
          rw [hcipher]
        rw [hnext, hplain, set_self hsession]
      · rw [producer_shard, hconfig, if_neg (by simpa using hvideo)]

theorem nextHost_tracks (h : Tracks key rtspEncrypted s seen) (e : HostEvent)
    (he : e.NoLegacyControl) : StepTracks key rtspEncrypted s seen e := by
  cases e with
  | respond => exact respond_tracks h
  | announce config => exact announce_tracks h config he
  | control i => exact control_tracks h i
  | shard i => exact shard_tracks h i

/-- A run's encryptions are those of its producers, each with the number it has among its own. -/
theorem hostIvs_eq (h : Tracks key rtspEncrypted s seen) (l : List HostEvent)
    (hl : ∀ e ∈ l, e.NoLegacyControl) :
    hostIvs s l = (numbered seen (producers rtspEncrypted s.configs l)).map (nonceOf key) := by
  induction l generalizing s seen with
  | nil => rfl
  | cons e l ih =>
    have hstep := nextHost_tracks h e (hl e List.mem_cons_self)
    have hrest := ih hstep.tracks fun e he => hl e (List.mem_cons_of_mem _ he)
    unfold hostIvs producers
    rw [hstep.used, hrest, hstep.configs]
    cases producer rtspEncrypted s.configs e with
    | none => rfl
    | some p => rfl

end Steps

/-! ## Uniqueness -/

def launchHost (gcmKey : Key) (corever : Int) : HostState Key where
  launch := makeLaunchSession gcmKey corever

theorem launchHost_tracks (gcmKey : Key) (corever : Int) :
    Tracks gcmKey (decide (corever ≥ 1)) (launchHost gcmKey corever) fun _ => 0 := by
  refine ⟨rfl, ?_, rfl, fun i session hi => ?_, fun i _ => ⟨rfl, rfl⟩, Or.inl rfl⟩
  · show (if corever ≥ 1 then some gcmKey else none) = _
    simp only [decide_eq_true_eq]
  · exact absurd hi (by simp [launchHost])

/-- Within the counters' ranges, equal nonces are of one kind and have one number. -/
theorem nonceOf_inj (key : Key) (p q : Producer) (k m : ℕ)
    (hk : k < p.range) (hm : m < q.range)
    (h : nonceOf key (p, k) = nonceOf key (q, m)) :
    k = m ∧ ((p = .rtsp ∧ q = .rtsp) ∨ (∃ i j, p = .control i ∧ q = .control j) ∨
      ∃ i j, p = .video i ∧ q = .video j) := by
  have hiv := congrArg Prod.snd h
  -- the last byte tells the kinds apart
  have hlast := congrArg List.getLast? hiv
  cases p <;> cases q <;>
    simp only [nonceOf, Producer.range, rtspIv_last, controlIv_last, videoIv_last,
      Option.some.injEq] at hiv hlast hk hm
  case rtsp.rtsp =>
    have hmod := rtspIv_inj _ _ (Nat.mod_lt _ (by decide)) (Nat.mod_lt _ (by decide)) hiv
    exact ⟨by omega, Or.inl ⟨rfl, rfl⟩⟩
  case control.control i j =>
    have hmod := controlIv_inj _ _ (Nat.mod_lt _ (by decide)) (Nat.mod_lt _ (by decide)) hiv
    rw [Nat.mod_eq_of_lt hk, Nat.mod_eq_of_lt hm] at hmod
    exact ⟨hmod, Or.inr (Or.inl ⟨i, j, rfl, rfl⟩)⟩
  case video.video i j =>
    have hmod := videoIv_inj _ _ (Nat.mod_lt _ (by decide)) (Nat.mod_lt _ (by decide)) hiv
    rw [Nat.mod_eq_of_lt hk, Nat.mod_eq_of_lt hm] at hmod
    exact ⟨hmod, Or.inr (Or.inr ⟨i, j, rfl, rfl⟩)⟩
  all_goals exact absurd hlast (by decide)

theorem nonceOf_range (key : Key) (p : Producer) : nonceOf key (p, p.range) = nonceOf key (p, 0) := by
  cases p <;> simp [nonceOf, Producer.range]

theorem mem_numbered_zero (l : List Producer) (p : Producer) (k : ℕ) :
    (p, k) ∈ numbered (fun _ => 0) l ↔ k < l.count p := by
  rw [mem_numbered]
  simp

/-- No IV is used twice under the launch session's key exactly when one stream session at most
encrypts control messages, one at most encrypts video, and no counter comes round. -/
theorem nonces_unique_iff (gcmKey : Key) (corever : Int) (l : List HostEvent)
    (hl : ∀ e ∈ l, e.NoLegacyControl) :
    (hostIvs (launchHost gcmKey corever) l).Nodup ↔
      NonceCondition (producers (decide (corever ≥ 1)) [] l) := by
  have hivs := hostIvs_eq (launchHost_tracks gcmKey corever) l hl
  rw [hivs, nodup_map_numbered_iff]
  show _ ↔ NonceCondition (producers _ (launchHost gcmKey corever).configs l)
  generalize producers _ (launchHost gcmKey corever).configs l = encrypting
  constructor
  · intro hinj
    have hfirst : ∀ p ∈ encrypting, (p, 0) ∈ numbered (fun _ => 0) encrypting :=
      fun p hp => (mem_numbered_zero _ _ _).mpr (List.count_pos_iff.mpr hp)
    refine ⟨fun p => ?_, fun i j hi hj => ?_, fun i j hi hj => ?_⟩
    · by_contra hover
      have hround := (mem_numbered_zero encrypting p p.range).mpr (by omega)
      have hzero := (mem_numbered_zero encrypting p 0).mpr (by omega)
      have heq := hinj _ hround _ hzero (nonceOf_range gcmKey p)
      rw [Prod.mk.injEq] at heq
      have hrange := p.le_range
      omega
    · have heq := hinj _ (hfirst _ hi) _ (hfirst _ hj) rfl
      simpa using heq
    · have heq := hinj _ (hfirst _ hi) _ (hfirst _ hj) rfl
      simpa using heq
  · rintro hcond ⟨p, k⟩ hp ⟨q, m⟩ hq heq
    rw [mem_numbered_zero] at hp hq
    obtain ⟨hkm, hkinds⟩ := nonceOf_inj gcmKey p q k m (hp.trans_le (hcond.counts p))
      (hq.trans_le (hcond.counts q)) heq
    have hmem : ∀ r n, n < encrypting.count r → r ∈ encrypting :=
      fun r n hr => List.count_pos_iff.mp (Nat.zero_lt_of_lt hr)
    have hpq : p = q := by
      rcases hkinds with ⟨rfl, rfl⟩ | ⟨i, j, rfl, rfl⟩ | ⟨i, j, rfl, rfl⟩
      · rfl
      · rw [hcond.oneControl i j (hmem _ _ hp) (hmem _ _ hq)]
      · rw [hcond.oneVideo i j (hmem _ _ hp) (hmem _ _ hq)]
    rw [hpq, hkm]

end Host

/-- An encrypted stream with control-stream encryption V2. -/
def encryptedConfig : EncryptionConfig where
  controlProtocolType := 13
  encControlV2 := true
  encVideo := true

/-- One announced session: a response, two control messages and two shards. -/
theorem nonces_unique_one_session :
    (hostIvs (launchHost () 1) [.announce encryptedConfig, .respond, .control 0, .shard 0,
      .control 0, .shard 0, .respond]).Nodup := by
  refine (nonces_unique_iff () 1 _ (by decide)).mpr ?_
  have hproducers : producers (decide ((1 : ℤ) ≥ 1)) [] [.announce encryptedConfig, .respond,
      .control 0, .shard 0, .control 0, .shard 0, .respond] =
      [.rtsp, .control 0, .video 0, .control 0, .video 0, .rtsp] := by decide
  rw [hproducers]
  refine ⟨fun p => ?_, by simp, by simp⟩
  have hlen : List.count p [.rtsp, .control 0, .video 0, .control 0, .video 0, .rtsp] ≤ 6 :=
    List.count_le_length
  exact (hlen.trans (by decide)).trans p.le_range

/-- A second `ANNOUNCE` starts the counters of the same key again. -/
theorem nonces_repeat_second_announce :
    ¬ ∀ l : List HostEvent, (∀ e ∈ l, e.NoLegacyControl) → l.length < 2 ^ 32 →
      (hostIvs (launchHost () 1) l).Nodup := by
  intro hall
  exact absurd (hall [.announce encryptedConfig, .respond, .announce encryptedConfig, .respond,
    .control 0, .control 1] (by decide) (by decide)) (by decide)

end Sunshine.Session
