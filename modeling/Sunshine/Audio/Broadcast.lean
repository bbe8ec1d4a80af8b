import Sunshine.Lib.Transitions
import Mathlib.Data.Int.Notation
import Mathlib.Logic.Function.Basic

/-! `stream::audioBroadcastThread`: RTP numbers from capture indices, and parity over groups of four packets
from shards that are overwritten in place. `broadcast_intact` is about all runs of the thread, over all
sessions it serves. -/
namespace Sunshine.Audio
open Transitions
set_option autoImplicit false

/-! ## The thread -/

def dataShards : ℕ := 4

def fecShards : ℕ := 2

structure FecHeader where
  baseSequenceNumber : ℕ
  baseTimestamp : ℤ
  deriving DecidableEq

/-- The audio part of a session; `shards` are the data shards, what lies behind a shorter packet included. -/
structure Session where
  packetDuration : ℤ
  sequenceNumber : ℕ
  timestamp : ℤ
  nextFrameIndex : ℕ
  fecBlockValid : Bool
  shards : ℕ → List UInt8
  fecHeader : FecHeader

/-- A packet on its way out, whether its send throws or not. -/
structure DataPacket where
  session : ℕ
  frameIndex : ℕ
  sequenceNumber : ℕ
  timestamp : ℤ
  cipher : List UInt8
  deriving DecidableEq

/-- A parity packet that was sent. `shards` is what it was computed from, `bytes` its length. -/
structure ParityPacket where
  session : ℕ
  sequenceNumber : ℕ
  fecShardIndex : ℕ
  fecHeader : FecHeader
  shards : List (List UInt8)
  bytes : ℕ
  deriving DecidableEq

/-- A packet of the queue, with what `encode_audio` makes of it and which of its sends throws: the data
packet's is number 0, and the parity packets follow. -/
structure Packet where
  session : ℕ
  frameIndex : ℕ
  encoded : Option (List UInt8)
  throwsAt : Option ℕ
  deriving DecidableEq

inductive Event where
  | packet (packet : Packet)
  | shutdown
  deriving DecidableEq

structure Broadcast where
  running : Bool
  sessions : ℕ → Session
  data : List DataPacket
  parity : List ParityPacket

/-- Dropped frames leave a gap in the numbers, and end the block. -/
def accountDropped (frameIndex : ℕ) (session : Session) : Session :=
  let droppedFrames := frameIndex - session.nextFrameIndex
  { session with
    sequenceNumber := (session.sequenceNumber + droppedFrames % 65536) % 65536
    timestamp := (session.timestamp +
      droppedFrames * session.packetDuration % 18446744073709551616 % 4294967296) % 4294967296
    nextFrameIndex := (frameIndex + 1) % 18446744073709551616
    fecBlockValid := if droppedFrames = 0 then session.fecBlockValid else false }

/-- `encode_audio` writes to the front of the shard. -/
def writeShard (sequenceNumber : ℕ) (cipher : List UInt8) (session : Session) : Session :=
  { session with
    shards := Function.update session.shards (sequenceNumber % dataShards)
      (cipher ++ (session.shards (sequenceNumber % dataShards)).drop cipher.length)
    sequenceNumber := (sequenceNumber + 1) % 65536
    timestamp := (session.timestamp + session.packetDuration) % 4294967296 }

/-- The FEC header is set with the first packet of a block. -/
def beginBlock (sequenceNumber : ℕ) (timestamp : ℤ) (session : Session) : Session :=
  if sequenceNumber % dataShards = 0 then
    { session with fecHeader := ⟨sequenceNumber, timestamp⟩, fecBlockValid := true }
  else session

/-- The parity packets behind the last packet of a block, up to the first send that throws. -/
def parityPackets (packet : Packet) (sequenceNumber bytes : ℕ) (session : Session) : List ParityPacket :=
  if (sequenceNumber + 1) % dataShards = 0 ∧ session.fecBlockValid then
    ((List.range fecShards).takeWhile fun x => packet.throwsAt ≠ some (x + 1)).map fun x =>
      { session := packet.session
        sequenceNumber := (sequenceNumber + x + 1) % 65536
        fecShardIndex := x
        fecHeader := session.fecHeader
        shards := (List.range dataShards).map fun i => (session.shards i).take bytes
        bytes := bytes }
  else []

def broadcastPacket (packet : Packet) (s : Broadcast) : Broadcast :=
  let session := s.sessions packet.session
  if packet.frameIndex < session.nextFrameIndex then s
  else
    let session := accountDropped packet.frameIndex session
    match packet.encoded with
    | none => { s with running := false, sessions := Function.update s.sessions packet.session session }
    | some cipher =>
      let sequenceNumber := session.sequenceNumber
      let timestamp := session.timestamp
      let session := writeShard sequenceNumber cipher session
      let data := ⟨packet.session, packet.frameIndex, sequenceNumber, timestamp, cipher⟩ :: s.data
      if packet.throwsAt = some 0 then
        { s with sessions := Function.update s.sessions packet.session session, data := data }
      else
        let session := beginBlock sequenceNumber timestamp session
        { s with
          sessions := Function.update s.sessions packet.session session
          data := data
          parity := parityPackets packet sequenceNumber cipher.length session ++ s.parity }

def step (s : Broadcast) : Event → Broadcast
  | .shutdown => { s with running := false }
  | .packet packet => if s.running then broadcastPacket packet s else s

/-! ## The streams -/

def rtpTimestamp (frameIndex : ℕ) (packetDuration : ℤ) : ℤ := frameIndex * packetDuration % 4294967296

/-- The packet carries the numbers of its capture index. -/
def Numbered (sessions : ℕ → Session) (d : DataPacket) : Prop :=
  d.sequenceNumber = d.frameIndex % 65536 ∧
    d.timestamp = rtpTimestamp d.frameIndex (sessions d.session).packetDuration

/-- The parity packet covers four consecutive data packets, all as long as itself, and names the first. -/
def Covers (data : List DataPacket) (p : ParityPacket) : Prop :=
  ∃ base : ℕ, ∃ d : ℕ → DataPacket,
    (∀ i < dataShards, d i ∈ data ∧ (d i).session = p.session ∧ (d i).frameIndex = base + i ∧
      (d i).cipher.length = p.bytes) ∧
    p.fecHeader = ⟨(d 0).sequenceNumber, (d 0).timestamp⟩ ∧
    p.shards = (List.range dataShards).map fun i => (d i).cipher

structure Intact (s : Broadcast) : Prop where
  numbered : ∀ d ∈ s.data, Numbered s.sessions d
  distinct : s.data.Pairwise fun d e => d.session = e.session → d.frameIndex ≠ e.frameIndex
  covers : ∀ p ∈ s.parity, Covers s.data p

/-- What a packet must find: the send of a block's first packet does not throw over a block that is still
valid, and the packets of a block that gets parity are equally long. -/
def Sound (s : Broadcast) : Event → Prop
  | .shutdown => True
  | .packet packet => s.running = true → (s.sessions packet.session).nextFrameIndex ≤ packet.frameIndex →
      packet.frameIndex + 1 < 18446744073709551616 ∧
      ∀ cipher, packet.encoded = some cipher →
        packet.frameIndex = (s.sessions packet.session).nextFrameIndex →
        (s.sessions packet.session).fecBlockValid = true →
          (packet.frameIndex % dataShards = 0 → packet.throwsAt ≠ some 0) ∧
          ((packet.frameIndex + 1) % dataShards = 0 → packet.throwsAt ≠ some 0 →
            ∀ d ∈ s.data, d.session = packet.session → packet.frameIndex < d.frameIndex + dataShards →
              d.cipher.length = cipher.length)

/-- A valid block holds the packets since its first one, and its header is that one's. -/
structure Block (data : List DataPacket) (k : ℕ) (session : Session) (base : ℕ) : Prop where
  first : base % dataShards = 0
  begun : base < session.nextFrameIndex
  within : session.nextFrameIndex ≤ base + dataShards
  header : session.fecHeader = ⟨base % 65536, rtpTimestamp base session.packetDuration⟩
  fresh : ∀ i < session.nextFrameIndex - base, ∃ d ∈ data, d.session = k ∧ d.frameIndex = base + i ∧
    d.cipher <+: session.shards i

structure SessionInv (data : List DataPacket) (k : ℕ) (session : Session) : Prop where
  sequenceNumber : session.sequenceNumber = session.nextFrameIndex % 65536
  timestamp : session.timestamp = rtpTimestamp session.nextFrameIndex session.packetDuration
  past : ∀ d ∈ data, d.session = k → d.frameIndex < session.nextFrameIndex
  block : session.fecBlockValid = true → ∃ base, Block data k session base

/-! ## Numbers -/

section Packets

variable {data : List DataPacket} {k frameIndex : ℕ} {session : Session}

theorem accountDropped_sequenceNumber (h : SessionInv data k session)
    (hframe : session.nextFrameIndex ≤ frameIndex) :
    (accountDropped frameIndex session).sequenceNumber = frameIndex % 65536 := by
  unfold accountDropped
  simp only [h.sequenceNumber]
  omega

theorem accountDropped_timestamp (h : SessionInv data k session)
    (hframe : session.nextFrameIndex ≤ frameIndex) :
    (accountDropped frameIndex session).timestamp = rtpTimestamp frameIndex session.packetDuration := by
  obtain ⟨gap, rfl⟩ := Nat.exists_eq_add_of_le hframe
  unfold accountDropped
  simp only [h.timestamp, rtpTimestamp, Nat.add_sub_cancel_left]
  rw [Int.natCast_add, Int.add_mul]
  omega

theorem rtpTimestamp_succ (packetDuration : ℤ) :
    (rtpTimestamp frameIndex packetDuration + packetDuration) % 4294967296 =
      rtpTimestamp (frameIndex + 1) packetDuration := by
  unfold rtpTimestamp
  rw [Int.natCast_add, Int.add_mul, Int.natCast_one, Int.one_mul, Int.emod_add_emod]

/-- A block that is valid still has lost no frame. -/
theorem accountDropped_valid (hframe : session.nextFrameIndex ≤ frameIndex)
    (h : (accountDropped frameIndex session).fecBlockValid = true) :
    frameIndex = session.nextFrameIndex ∧ session.fecBlockValid = true := by
  unfold accountDropped at h
  simp only at h
  split_ifs at h with hdropped
  exact ⟨by omega, h⟩

/-! ## Shards and blocks -/

/-- The session behind the encoding of a packet. -/
def encodedSession (frameIndex : ℕ) (cipher : List UInt8) (session : Session) : Session :=
  writeShard (frameIndex % 65536) cipher (accountDropped frameIndex session)

theorem encodedSession_shard_self (cipher : List UInt8) :
    cipher <+: (encodedSession frameIndex cipher session).shards (frameIndex % dataShards) := by
  have hindex : frameIndex % 65536 % dataShards = frameIndex % dataShards :=
    Nat.mod_mod_of_dvd _ (by decide)
  unfold encodedSession writeShard
  simp only [hindex, Function.update_self]
  exact List.prefix_append _ _

theorem encodedSession_shard_ne (cipher : List UInt8) {i : ℕ} (hi : i ≠ frameIndex % dataShards) :
    (encodedSession frameIndex cipher session).shards i = session.shards i := by
  have hindex : frameIndex % 65536 % dataShards = frameIndex % dataShards :=
    Nat.mod_mod_of_dvd _ (by decide)
  unfold encodedSession writeShard
  simp only [hindex, Function.update_of_ne hi]
  rfl

theorem encodedSession_numbers (h : SessionInv data k session)
    (hframe : session.nextFrameIndex ≤ frameIndex) (hwrap : frameIndex + 1 < 18446744073709551616)
    (cipher : List UInt8) :
    (encodedSession frameIndex cipher session).sequenceNumber = (frameIndex + 1) % 65536 ∧
      (encodedSession frameIndex cipher session).timestamp =
        rtpTimestamp (frameIndex + 1) session.packetDuration ∧
      (encodedSession frameIndex cipher session).nextFrameIndex = frameIndex + 1 := by
  refine ⟨?_, ?_, ?_⟩
  · unfold encodedSession writeShard
    simp only
    omega
  · rw [← rtpTimestamp_succ, ← accountDropped_timestamp h hframe]
    rfl
  · exact Nat.mod_eq_of_lt hwrap

/-- The next packet of a block joins it. -/
theorem block_extend {base : ℕ} {cipher : List UInt8} {d : DataPacket}
    (hblock : Block data k session base) (hframe : frameIndex = session.nextFrameIndex)
    (hinside : frameIndex % dataShards ≠ 0) (hwrap : frameIndex + 1 < 18446744073709551616)
    (hd : d.session = k ∧ d.frameIndex = frameIndex ∧ d.cipher = cipher) :
    Block (d :: data) k (encodedSession frameIndex cipher session) base := by
  have hfirst := hblock.first
  have hbegun := hblock.begun
  have hwithin := hblock.within
  unfold dataShards at hfirst hwithin hinside
  have hnext : (encodedSession frameIndex cipher session).nextFrameIndex = frameIndex + 1 :=
    Nat.mod_eq_of_lt hwrap
  refine ⟨hblock.first, ?_, ?_, hblock.header, fun i hi => ?_⟩
  · rw [hnext]
    omega
  · rw [hnext]
    unfold dataShards
    omega
  · rw [hnext] at hi
    by_cases hlast : i = frameIndex - base
    · refine ⟨d, List.mem_cons_self, hd.1, by omega, ?_⟩
      have hindex : i = frameIndex % dataShards := by
        unfold dataShards
        omega
      rw [hd.2.2, hindex]
      exact encodedSession_shard_self cipher
    · obtain ⟨e, he, hsession, hindex, hpre⟩ := hblock.fresh i (by omega)
      refine ⟨e, List.mem_cons_of_mem _ he, hsession, hindex, ?_⟩
      rwa [encodedSession_shard_ne cipher (by unfold dataShards; omega)]

/-- The first packet of a block that is sent begins it. -/
theorem block_begin {cipher : List UInt8} {d : DataPacket} (hfirst : frameIndex % dataShards = 0)
    (hwrap : frameIndex + 1 < 18446744073709551616)
    (hd : d.session = k ∧ d.frameIndex = frameIndex ∧ d.cipher = cipher) :
    Block (d :: data) k (beginBlock (frameIndex % 65536) (rtpTimestamp frameIndex session.packetDuration)
      (encodedSession frameIndex cipher session)) frameIndex := by
  have hseq : frameIndex % 65536 % dataShards = 0 := by
    rw [Nat.mod_mod_of_dvd _ (by decide), hfirst]
  have hnext : (encodedSession frameIndex cipher session).nextFrameIndex = frameIndex + 1 :=
    Nat.mod_eq_of_lt hwrap
  rw [beginBlock, if_pos hseq]
  refine ⟨hfirst, ?_, ?_, rfl, fun i hi => ?_⟩
  · rw [hnext]
    exact Nat.lt_succ_self _
  · rw [hnext]
    unfold dataShards
    omega
  · rw [hnext] at hi
    obtain rfl : i = 0 := by omega
    refine ⟨d, List.mem_cons_self, hd.1, hd.2.1, ?_⟩
    have hself : cipher <+: (encodedSession frameIndex cipher session).shards (frameIndex % dataShards) :=
      encodedSession_shard_self cipher
    rw [hfirst] at hself
    rwa [hd.2.2]

/-! ## Parity -/

/-- Parity over a whole block of packets of one length covers them. -/
theorem covers_block {base bytes : ℕ} {p : ParityPacket} (hblock : Block data k session base)
    (hwhole : session.nextFrameIndex = base + dataShards)
    (hnumbered : ∀ d ∈ data, d.session = k → d.sequenceNumber = d.frameIndex % 65536 ∧
      d.timestamp = rtpTimestamp d.frameIndex session.packetDuration)
    (hlength : ∀ d ∈ data, d.session = k → base ≤ d.frameIndex → d.cipher.length = bytes)
    (hp : p.session = k ∧ p.fecHeader = session.fecHeader ∧ p.bytes = bytes ∧
      p.shards = (List.range dataShards).map fun i => (session.shards i).take bytes) :
    Covers data p := by
  obtain ⟨hsession, hheader, hbytes, hshards⟩ := hp
  have hfresh : ∀ i, i < dataShards → ∃ d ∈ data, d.session = k ∧ d.frameIndex = base + i ∧
      d.cipher <+: session.shards i := fun i hi => hblock.fresh i (by omega)
  have hall : ∀ i, ∃ d : DataPacket, i < dataShards → d ∈ data ∧ d.session = k ∧
      d.frameIndex = base + i ∧ d.cipher <+: session.shards i := by
    intro i
    by_cases hi : i < dataShards
    · obtain ⟨d, hd, hrest⟩ := hfresh i hi
      exact ⟨d, fun _ => ⟨hd, hrest⟩⟩
    · exact ⟨⟨0, 0, 0, 0, []⟩, fun h => absurd h hi⟩
  choose d hd using hall
  have hcipher : ∀ i, i < dataShards → (d i).cipher.length = bytes := by
    intro i hi
    obtain ⟨hmem, hk, hindex, -⟩ := hd i hi
    exact hlength _ hmem hk (by omega)
  refine ⟨base, d, fun i hi => ?_, ?_, ?_⟩
  · obtain ⟨hmem, hk, hindex, -⟩ := hd i hi
    exact ⟨hmem, hk.trans hsession.symm, hindex, (hcipher i hi).trans hbytes.symm⟩
  · obtain ⟨hmem, hk, hindex, -⟩ := hd 0 (by decide)
    obtain ⟨hseq, hts⟩ := hnumbered _ hmem hk
    rw [hheader, hblock.header, hseq, hts, hindex, Nat.add_zero]
  · rw [hshards]
    refine List.map_congr_left fun i hi => ?_
    have hi' := List.mem_range.mp hi
    rw [← hcipher i hi']
    exact (List.prefix_iff_eq_take.mp (hd i hi').2.2.2).symm

end Packets

/-! ## One packet -/

theorem Covers.mono {data more : List DataPacket} {p : ParityPacket} (h : Covers data p)
    (hsub : data ⊆ more) : Covers more p := by
  obtain ⟨base, d, hd, hheader, hshards⟩ := h
  refine ⟨base, d, fun i hi => ?_, hheader, hshards⟩
  obtain ⟨hmem, hrest⟩ := hd i hi
  exact ⟨hsub hmem, hrest⟩

/-- What the thread keeps while it runs, and what is out stays intact. -/
structure Inv (s : Broadcast) : Prop where
  sessions : s.running = true → ∀ k, SessionInv s.data k (s.sessions k)
  intact : Intact s

/-- The packet as it goes out. -/
def dataPacket (packet : Packet) (cipher : List UInt8) (session : Session) : DataPacket :=
  ⟨packet.session, packet.frameIndex, packet.frameIndex % 65536,
    rtpTimestamp packet.frameIndex session.packetDuration, cipher⟩

/-- The session behind the data packet's send, if it does not throw. -/
def sentSession (packet : Packet) (cipher : List UInt8) (session : Session) : Session :=
  beginBlock (packet.frameIndex % 65536) (rtpTimestamp packet.frameIndex session.packetDuration)
    (encodedSession packet.frameIndex cipher session)

theorem broadcastPacket_cases (s : Broadcast) (packet : Packet)
    (h : SessionInv s.data packet.session (s.sessions packet.session)) :
    broadcastPacket packet s = s ∨
      (s.sessions packet.session).nextFrameIndex ≤ packet.frameIndex ∧
        ((packet.encoded = none ∧ broadcastPacket packet s = { s with
          running := false
          sessions := Function.update s.sessions packet.session
            (accountDropped packet.frameIndex (s.sessions packet.session)) }) ∨
        ∃ cipher, packet.encoded = some cipher ∧
          ((packet.throwsAt = some 0 ∧ broadcastPacket packet s = { s with
            sessions := Function.update s.sessions packet.session
              (encodedSession packet.frameIndex cipher (s.sessions packet.session))
            data := dataPacket packet cipher (s.sessions packet.session) :: s.data }) ∨
          (packet.throwsAt ≠ some 0 ∧ broadcastPacket packet s = { s with
            sessions := Function.update s.sessions packet.session
              (sentSession packet cipher (s.sessions packet.session))
            data := dataPacket packet cipher (s.sessions packet.session) :: s.data
            parity := parityPackets packet (packet.frameIndex % 65536) cipher.length
              (sentSession packet cipher (s.sessions packet.session)) ++ s.parity }))) := by
  unfold broadcastPacket
  by_cases hpast : packet.frameIndex < (s.sessions packet.session).nextFrameIndex
  · exact .inl (if_pos hpast)
  have hframe := Nat.not_lt.mp hpast
  refine .inr ⟨hframe, ?_⟩
  simp only [if_neg hpast]
  cases hencoded : packet.encoded with
  | none => exact .inl ⟨rfl, rfl⟩
  | some cipher =>
    refine .inr ⟨cipher, rfl, ?_⟩
    simp only [accountDropped_sequenceNumber h hframe, accountDropped_timestamp h hframe]
    by_cases hthrows : packet.throwsAt = some 0
    · exact .inl ⟨hthrows, if_pos hthrows⟩
    · exact .inr ⟨hthrows, if_neg hthrows⟩

/-! ## Steps -/

theorem numbered_update {sessions : ℕ → Session} {k : ℕ} {session : Session}
    (hsame : session.packetDuration = (sessions k).packetDuration) (d : DataPacket) :
    Numbered (Function.update sessions k session) d ↔ Numbered sessions d := by
  unfold Numbered
  by_cases hk : d.session = k
  · rw [hk, Function.update_self, hsame]
  · rw [Function.update_of_ne hk]

theorem beginBlock_fields (sequenceNumber : ℕ) (timestamp : ℤ) (session : Session) :
    (beginBlock sequenceNumber timestamp session).sequenceNumber = session.sequenceNumber ∧
      (beginBlock sequenceNumber timestamp session).timestamp = session.timestamp ∧
      (beginBlock sequenceNumber timestamp session).nextFrameIndex = session.nextFrameIndex ∧
      (beginBlock sequenceNumber timestamp session).packetDuration = session.packetDuration := by
  unfold beginBlock
  split_ifs <;> exact ⟨rfl, rfl, rfl, rfl⟩

/-- A packet of another session changes nothing for this one. -/
theorem SessionInv.other {data : List DataPacket} {k : ℕ} {session : Session} {d : DataPacket}
    (h : SessionInv data k session) (hd : d.session ≠ k) : SessionInv (d :: data) k session := by
  refine ⟨h.sequenceNumber, h.timestamp, ?_, fun hvalid => ?_⟩
  · exact List.forall_mem_cons.mpr ⟨fun hk => absurd hk hd, h.past⟩
  · obtain ⟨base, hblock⟩ := h.block hvalid
    refine ⟨base, hblock.first, hblock.begun, hblock.within, hblock.header, fun i hi => ?_⟩
    obtain ⟨e, he, hrest⟩ := hblock.fresh i hi
    exact ⟨e, List.mem_cons_of_mem _ he, hrest⟩

/-- The session of a packet that is encoded, when its block is sound. -/
theorem sessionInv_encoded {data : List DataPacket} {k frameIndex : ℕ} {session : Session}
    {d : DataPacket} {cipher : List UInt8} (h : SessionInv data k session)
    (hframe : session.nextFrameIndex ≤ frameIndex) (hwrap : frameIndex + 1 < 18446744073709551616)
    (hd : d.session = k ∧ d.frameIndex = frameIndex ∧ d.cipher = cipher) {after : Session}
    (hafter : after.sequenceNumber = (encodedSession frameIndex cipher session).sequenceNumber ∧
      after.timestamp = (encodedSession frameIndex cipher session).timestamp ∧
      after.nextFrameIndex = (encodedSession frameIndex cipher session).nextFrameIndex ∧
      after.packetDuration = session.packetDuration)
    (hblock : after.fecBlockValid = true → ∃ base, Block (d :: data) k after base) :
    SessionInv (d :: data) k after := by
  obtain ⟨hseq, hts, hnext, hduration⟩ := hafter
  obtain ⟨hseq', hts', hnext'⟩ := encodedSession_numbers h hframe hwrap cipher
  refine ⟨?_, ?_, ?_, hblock⟩
  · rw [hseq, hnext, hseq', hnext']
  · rw [hts, hnext, hts', hnext', hduration]
  · rw [hnext, hnext']
    refine List.forall_mem_cons.mpr ⟨fun _ => ?_, fun e he hk => ?_⟩
    · rw [hd.2.1]
      exact Nat.lt_succ_self _
    · exact Nat.lt_succ_of_lt (Nat.lt_of_lt_of_le (h.past e he hk) hframe)

section Send

variable {s : Broadcast} {packet : Packet} {cipher : List UInt8}

/-- A packet that goes out keeps what is out intact. -/
theorem intact_send (h : Intact s) (hpast : SessionInv s.data packet.session (s.sessions packet.session))
    (hframe : (s.sessions packet.session).nextFrameIndex ≤ packet.frameIndex) {after : Session}
    (hafter : after.packetDuration = (s.sessions packet.session).packetDuration)
    {parity : List ParityPacket} (hparity : ∀ p ∈ parity,
      Covers (dataPacket packet cipher (s.sessions packet.session) :: s.data) p) :
    Intact { s with
      sessions := Function.update s.sessions packet.session after
      data := dataPacket packet cipher (s.sessions packet.session) :: s.data
      parity := parity ++ s.parity } := by
  refine ⟨?_, ?_, ?_⟩
  · refine List.forall_mem_cons.mpr ⟨?_, fun d hd => (numbered_update hafter d).mpr (h.numbered d hd)⟩
    exact (numbered_update hafter _).mpr ⟨rfl, rfl⟩
  · refine List.pairwise_cons.mpr ⟨fun e he hsession => ?_, h.distinct⟩
    have hlt := hpast.past e he hsession.symm
    exact Nat.ne_of_gt (Nat.lt_of_lt_of_le hlt hframe)
  · exact List.forall_mem_append.mpr ⟨hparity, fun p hp =>
      (h.covers p hp).mono (List.subset_cons_self _ _)⟩

/-- A block that is still valid behind the encoding goes on. -/
theorem block_encoded (h : SessionInv s.data packet.session (s.sessions packet.session))
    (hframe : (s.sessions packet.session).nextFrameIndex ≤ packet.frameIndex)
    (hwrap : packet.frameIndex + 1 < 18446744073709551616)
    (hinside : packet.frameIndex % dataShards ≠ 0)
    (hvalid : (encodedSession packet.frameIndex cipher (s.sessions packet.session)).fecBlockValid = true) :
    ∃ base, Block (dataPacket packet cipher (s.sessions packet.session) :: s.data) packet.session
      (encodedSession packet.frameIndex cipher (s.sessions packet.session)) base := by
  obtain ⟨heq, hold⟩ := accountDropped_valid hframe hvalid
  obtain ⟨base, hblock⟩ := h.block hold
  exact ⟨base, block_extend hblock heq hinside hwrap ⟨rfl, rfl, rfl⟩⟩

theorem block_sent (h : SessionInv s.data packet.session (s.sessions packet.session))
    (hframe : (s.sessions packet.session).nextFrameIndex ≤ packet.frameIndex)
    (hwrap : packet.frameIndex + 1 < 18446744073709551616)
    (hvalid : (sentSession packet cipher (s.sessions packet.session)).fecBlockValid = true) :
    ∃ base, Block (dataPacket packet cipher (s.sessions packet.session) :: s.data) packet.session
      (sentSession packet cipher (s.sessions packet.session)) base := by
  by_cases hfirst : packet.frameIndex % dataShards = 0
  · exact ⟨packet.frameIndex, block_begin hfirst hwrap ⟨rfl, rfl, rfl⟩⟩
  · have hsame : sentSession packet cipher (s.sessions packet.session) =
        encodedSession packet.frameIndex cipher (s.sessions packet.session) := by
      unfold sentSession beginBlock
      exact if_neg (by rwa [Nat.mod_mod_of_dvd _ (by decide)])
    rw [hsame] at hvalid ⊢
    exact block_encoded h hframe hwrap hfirst hvalid

/-- The parity packets behind a block of equally long packets cover it. -/
theorem parityPackets_cover (hintact : Intact s)
    (h : SessionInv s.data packet.session (s.sessions packet.session))
    (hframe : (s.sessions packet.session).nextFrameIndex ≤ packet.frameIndex)
    (hwrap : packet.frameIndex + 1 < 18446744073709551616)
    (hequal : packet.frameIndex = (s.sessions packet.session).nextFrameIndex →
      (s.sessions packet.session).fecBlockValid = true → (packet.frameIndex + 1) % dataShards = 0 →
        ∀ d ∈ s.data, d.session = packet.session → packet.frameIndex < d.frameIndex + dataShards →
          d.cipher.length = cipher.length) :
    ∀ p ∈ parityPackets packet (packet.frameIndex % 65536) cipher.length
        (sentSession packet cipher (s.sessions packet.session)),
      Covers (dataPacket packet cipher (s.sessions packet.session) :: s.data) p := by
  intro p hp
  unfold parityPackets at hp
  by_cases hlast : (packet.frameIndex % 65536 + 1) % dataShards = 0 ∧
      (sentSession packet cipher (s.sessions packet.session)).fecBlockValid = true
  · rw [if_pos hlast] at hp
    obtain ⟨x, -, rfl⟩ := List.mem_map.mp hp
    obtain ⟨hend, hvalid⟩ := hlast
    have hend' : (packet.frameIndex + 1) % dataShards = 0 := by
      unfold dataShards at hend ⊢
      omega
    have hinside : packet.frameIndex % dataShards ≠ 0 := by
      unfold dataShards at hend' ⊢
      omega
    have hsame : sentSession packet cipher (s.sessions packet.session) =
        encodedSession packet.frameIndex cipher (s.sessions packet.session) := by
      unfold sentSession beginBlock
      exact if_neg (by rwa [Nat.mod_mod_of_dvd _ (by decide)])
    rw [hsame] at hvalid ⊢
    obtain ⟨heq, hold⟩ := accountDropped_valid hframe hvalid
    obtain ⟨base, hblock⟩ := block_encoded h hframe hwrap hinside hvalid
    have hnext : (encodedSession packet.frameIndex cipher
        (s.sessions packet.session)).nextFrameIndex = packet.frameIndex + 1 := Nat.mod_eq_of_lt hwrap
    have hfirst := hblock.first
    have hbegun := hblock.begun
    have hwithin := hblock.within
    rw [hnext] at hbegun hwithin
    have hwhole : packet.frameIndex + 1 = base + dataShards := by
      unfold dataShards at hfirst hwithin hend' ⊢
      omega
    refine covers_block hblock (hnext.trans hwhole) ?_ ?_ ⟨rfl, rfl, rfl, rfl⟩
    · refine List.forall_mem_cons.mpr ⟨fun _ => ⟨rfl, rfl⟩, fun d hd hk => ?_⟩
      have hnumbered := hintact.numbered d hd
      unfold Numbered at hnumbered
      rw [hk] at hnumbered
      exact hnumbered
    · refine List.forall_mem_cons.mpr ⟨fun _ _ => rfl, fun d hd hk hbase => ?_⟩
      exact hequal heq hold hend' d hd hk (by omega)
  · rw [if_neg hlast] at hp
    cases hp

theorem sessions_update (h : ∀ k, SessionInv s.data k (s.sessions k)) {after : Session}
    (hown : SessionInv (dataPacket packet cipher (s.sessions packet.session) :: s.data) packet.session
      after) (k : ℕ) :
    SessionInv (dataPacket packet cipher (s.sessions packet.session) :: s.data) k
      (Function.update s.sessions packet.session after k) := by
  by_cases hk : k = packet.session
  · rw [hk, Function.update_self]
    exact hown
  · rw [Function.update_of_ne hk]
    exact (h k).other (Ne.symm hk)

theorem inv_packet (h : Inv s) (hrunning : s.running = true) (hsound : Sound s (.packet packet)) :
    Inv (broadcastPacket packet s) := by
  have hsessions := h.sessions hrunning
  have hsession := hsessions packet.session
  rcases broadcastPacket_cases s packet hsession with heq | ⟨hframe, hcase⟩
  · rwa [heq]
  obtain ⟨hwrap, hblocks⟩ := hsound hrunning hframe
  rcases hcase with ⟨-, heq⟩ | ⟨cipher, hencoded, ⟨hthrows, heq⟩ | ⟨hthrows, heq⟩⟩
  · -- the thread ends
    rw [heq]
    have hduration : (accountDropped packet.frameIndex (s.sessions packet.session)).packetDuration =
        (s.sessions packet.session).packetDuration := rfl
    exact ⟨nofun, ⟨fun d hd => (numbered_update hduration d).mpr (h.intact.numbered d hd),
      h.intact.distinct, h.intact.covers⟩⟩
  · rw [heq]
    have hduration : (encodedSession packet.frameIndex cipher (s.sessions packet.session)).packetDuration =
        (s.sessions packet.session).packetDuration := rfl
    refine ⟨fun _ => sessions_update hsessions (sessionInv_encoded hsession hframe hwrap ⟨rfl, rfl, rfl⟩
      ⟨rfl, rfl, rfl, hduration⟩ fun hvalid => ?_), ?_⟩
    · obtain ⟨hnext, hold⟩ := accountDropped_valid hframe hvalid
      have hinside : packet.frameIndex % dataShards ≠ 0 := fun hfirst =>
        (hblocks cipher hencoded hnext hold).1 hfirst hthrows
      exact block_encoded hsession hframe hwrap hinside hvalid
    · exact intact_send h.intact hsession hframe hduration (fun p (hp : p ∈ []) => by cases hp)
  · rw [heq]
    have hfields := beginBlock_fields (packet.frameIndex % 65536)
      (rtpTimestamp packet.frameIndex (s.sessions packet.session).packetDuration)
      (encodedSession packet.frameIndex cipher (s.sessions packet.session))
    refine ⟨fun _ => sessions_update hsessions (sessionInv_encoded hsession hframe hwrap ⟨rfl, rfl, rfl⟩
      hfields (block_sent hsession hframe hwrap)), ?_⟩
    exact intact_send h.intact hsession hframe hfields.2.2.2 (parityPackets_cover h.intact hsession hframe
      hwrap fun heq hold hend => (hblocks cipher hencoded heq hold).2 hend hthrows)

theorem inv_step (h : Inv s) (event : Event) (hsound : Sound s event) : Inv (step s event) := by
  cases event with
  | shutdown => exact ⟨nofun, ⟨h.intact.numbered, h.intact.distinct, h.intact.covers⟩⟩
  | packet packet =>
    rw [step]
    split_ifs with hrunning
    · exact inv_packet h hrunning hsound
    · exact h

end Send

/-! ## Runs -/

/-- A session before its first packet. -/
structure Fresh (session : Session) : Prop where
  sequenceNumber : session.sequenceNumber = 0
  timestamp : session.timestamp = 0
  nextFrameIndex : session.nextFrameIndex = 0
  fecBlockValid : session.fecBlockValid = false

def initial (sessions : ℕ → Session) : Broadcast := ⟨true, sessions, [], []⟩

theorem inv_initial {sessions : ℕ → Session} (h : ∀ k, Fresh (sessions k)) :
    Inv (initial sessions) := by
  refine ⟨fun _ k => ⟨?_, ?_, nofun, fun hvalid => ?_⟩, ⟨nofun, List.Pairwise.nil, nofun⟩⟩
  · change (sessions k).sequenceNumber = (sessions k).nextFrameIndex % 65536
    rw [(h k).sequenceNumber, (h k).nextFrameIndex]
  · change (sessions k).timestamp = rtpTimestamp (sessions k).nextFrameIndex (sessions k).packetDuration
    rw [(h k).timestamp, (h k).nextFrameIndex, rtpTimestamp, Int.natCast_zero, Int.zero_mul]
    rfl
  · change (sessions k).fecBlockValid = true at hvalid
    rw [(h k).fecBlockValid] at hvalid
    cases hvalid

/-- In a run whose packets are all sound, every packet carries the numbers of its capture index, no index
is sent twice, and every parity packet covers the four packets it names. -/
theorem broadcast_intact (sessions : ℕ → Session) (hfresh : ∀ k, Fresh (sessions k))
    (events : List Event) (h : Runs Sound step (initial sessions) events) :
    Intact (events.foldl step (initial sessions)) :=
  (h.invariant Inv (inv_initial hfresh) fun _ event hinv hsound => inv_step hinv event hsound).intact

def newSession : Session := ⟨5, 0, 0, 0, false, fun _ => [], ⟨0, 0⟩⟩

def freshSessions (_ : ℕ) : Session := newSession

theorem freshSessions_fresh (k : ℕ) : Fresh (freshSessions k) := ⟨rfl, rfl, rfl, rfl⟩

def packetOf (frameIndex : ℕ) (cipher : List UInt8) : Event := .packet ⟨0, frameIndex, some cipher, none⟩

theorem broadcast_intact_block : Intact ([packetOf 0 [1, 2], packetOf 1 [3, 4], packetOf 2 [5, 6],
    packetOf 3 [7, 8]].foldl step (initial freshSessions)) := by
  refine broadcast_intact freshSessions freshSessions_fresh _ ⟨?_, ?_, ?_, ?_, trivial⟩
  all_goals
    refine fun _ _ => ⟨by decide, fun cipher hcipher _ _ => ⟨fun _ => nofun, fun _ _ => ?_⟩⟩
    cases hcipher
    decide

/-- The send of packet 4 throws, and the parity behind packet 7 names packet 0. -/
def staleBase : List Event :=
  [packetOf 0 [1], packetOf 1 [1], packetOf 2 [1], packetOf 3 [1], .packet ⟨0, 4, some [2], some 0⟩,
    packetOf 5 [2], packetOf 6 [2], packetOf 7 [2]]

theorem broadcast_mixes_blocks : ¬∀ (sessions : ℕ → Session) (events : List Event),
    (∀ k, Fresh (sessions k)) → Intact (events.foldl step (initial sessions)) := by
  intro h
  have hcovers := (h freshSessions staleBase freshSessions_fresh).covers
    ⟨0, 8, 0, ⟨0, 0⟩, [[2], [2], [2], [2]], 1⟩ (by decide)
  obtain ⟨base, d, hd, hheader, hshards⟩ := hcovers
  obtain ⟨hmem, -⟩ := hd 0 (by decide)
  have hfirst : (d 0).cipher = [2] := (List.cons.inj hshards).1.symm
  have hall : ∀ e ∈ (staleBase.foldl step (initial freshSessions)).data, e.cipher = [2] →
      e.sequenceNumber ≠ 0 := by decide
  exact hall _ hmem hfirst (congrArg FecHeader.baseSequenceNumber hheader).symm

end Sunshine.Audio
