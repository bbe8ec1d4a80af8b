import Mathlib.Algebra.Group.Action.Defs
import Mathlib.Algebra.Order.BigOperators.Group.List
import Sunshine.Video.Packetize

/-! The packets of one frame (`videoBroadcastThread`, the per-block loop up to the socket) and the
receiver's reassembly.

The first loop over a block writes the flags into its packets before `fec::encode` copies the last
one; the second loop writes the FEC fields into every shard. Reassembly takes the data shards of the
blocks in order, drops their headers and cuts the last packet to `lastPayloadLen`. -/
namespace Sunshine.Video
open Slices Bytes
set_option autoImplicit false

/-- What the loops read from the session and the frame. The client minimum is an `int` of the
session, here as the `size_t` that `fec::encode` takes. -/
structure SendConfig where
  packetsize : ℕ
  fecPercentage : ℕ
  minRequiredFecPackets : ℕ := 0
  lowseq : ℕ := 0
  timestamp : ℕ := 0
  flagExtension : ℕ := 0x10
  deriving DecidableEq, Repr

def SendConfig.blocksize (cfg : SendConfig) : ℕ := cfg.packetsize + maxRtpHeaderSize

/-! ## The per-block loop -/

def multiFecBlocks (blockIndex fecBlocksNeeded : ℕ) : ℕ :=
  (blockIndex <<< 4 ||| (fecBlocksNeeded - 1) <<< 6) % 2 ^ 8

/-- The fields written before the shards are made. -/
def firstHeader (frameIndex lowseq blockIndex fecBlocksNeeded packets x : ℕ) : PacketHeader where
  frameIndex := frameIndex % 2 ^ 32
  streamPacketIndex := ((lowseq + x) <<< 8) % 2 ^ 32
  multiFecFlags := 0x10
  multiFecBlocks := multiFecBlocks blockIndex fecBlocksNeeded
  containsPicData := true
  sof := x = 0
  eof := x = packets - 1

/-- The fields written into shard `x`, parity shards included. -/
def finalHeader (cfg : SendConfig) (frameIndex lowseq blockIndex fecBlocksNeeded dataShards
    percentage x : ℕ) (h : PacketHeader) : PacketHeader :=
  { h with
    fecInfo := fecInfo x dataShards percentage
    rtpHeader := 0x80 ||| cfg.flagExtension
    sequenceNumber := (lowseq + x) % 2 ^ 16
    timestamp := cfg.timestamp % 2 ^ 32
    multiFecBlocks := multiFecBlocks blockIndex fecBlocksNeeded
    frameIndex := frameIndex % 2 ^ 32 }

def writeHeaders (blocksize frameIndex lowseq blockIndex fecBlocksNeeded : ℕ) (block : Bytes) :
    List Packet :=
  let packets := (block.length + (blocksize - 1)) / blocksize
  (List.range packets).map fun x =>
    { header := firstHeader frameIndex lowseq blockIndex fecBlocksNeeded packets x
      bytes := (block.drop (x * blocksize)).take blocksize }

def sendBlock (rs : List Packet → ℕ → Packet) (cfg : SendConfig)
    (frameIndex fecPercentage fecBlocksNeeded blockIndex lowseq : ℕ) (block : Bytes) : Fec :=
  let packets := writeHeaders cfg.blocksize frameIndex lowseq blockIndex fecBlocksNeeded block
  let fec := fecEncode rs packets cfg.blocksize fecPercentage cfg.minRequiredFecPackets
  { fec with
    shards := fec.shards.mapIdx fun x p =>
      { p with header := finalHeader cfg frameIndex lowseq blockIndex fecBlocksNeeded
                 fec.dataShards fec.percentage x p.header } }

def sendBlocks (rs : List Packet → ℕ → Packet) (cfg : SendConfig)
    (frameIndex fecPercentage fecBlocksNeeded : ℕ) : ℕ → ℕ → List Bytes → List Fec
  | _, _, [] => []
  | blockIndex, lowseq, block :: rest =>
    let sent := sendBlock rs cfg frameIndex fecPercentage fecBlocksNeeded blockIndex lowseq block
    sent :: sendBlocks rs cfg frameIndex fecPercentage fecBlocksNeeded (blockIndex + 1)
      (lowseq + sent.shards.length) rest

def sendFrame (rs : List Packet → ℕ → Packet) (cfg : SendConfig) (frame : EncodedFrame) :
    Except Fault (List Fec) := do
  let split ← splitFrame cfg.packetsize cfg.fecPercentage frame
  pure (sendBlocks rs cfg frame.frameIndex split.fecPercentage split.fecBlocksNeeded 0 cfg.lowseq
    split.fecBlocks)

/-! ## Reassembly -/

/-- The bytes of the data packets of a frame, behind their headers, in order. -/
def dataPayloads (sent : List Fec) : List Bytes :=
  sent.flatMap fun b => (b.shards.take b.dataShards).map Packet.payload

/-- All packets but the last count whole, the last one up to `lastPayloadLen`. -/
def reassemble (payloads : List Bytes) : Bytes :=
  payloads.dropLast.flatten ++
    (payloads.getLast?.getD []).take (readLastPayloadLen payloads.flatten)

def multiFecIndex (v : ℕ) : ℕ := (v >>> 4) % 2 ^ 2

def multiFecLast (v : ℕ) : ℕ := (v >>> 6) % 2 ^ 2

theorem multiFecBlocks_fields (blockIndex n : ℕ) (hi : blockIndex < n) (hn : n ≤ maxFecBlocks) :
    multiFecIndex (multiFecBlocks blockIndex n) = blockIndex ∧
      multiFecLast (multiFecBlocks blockIndex n) = n - 1 := by
  unfold maxFecBlocks at hn
  have hlow : blockIndex <<< 4 ||| (n - 1) <<< 6 = (n - 1) * 2 ^ 6 + blockIndex * 2 ^ 4 := by
    rw [Nat.shiftLeft_eq blockIndex, Nat.or_comm, field_or _ _ 6 (by omega)]
  unfold multiFecIndex multiFecLast multiFecBlocks
  rw [hlow]
  simp only [Nat.shiftRight_eq_div_pow]
  omega

/-! ## What one block sends -/

section Block

variable (rs : List Packet → ℕ → Packet) (cfg : SendConfig)
  (frameIndex fecPercentage fecBlocksNeeded blockIndex lowseq : ℕ) (block : Bytes)

theorem writeHeaders_bytes (blocksize : ℕ) (hb : 0 < blocksize) :
    (writeHeaders blocksize frameIndex lowseq blockIndex fecBlocksNeeded block).map Packet.bytes =
      slices blocksize block := by
  unfold writeHeaders slices
  rw [sliceCount_eq blocksize block.length hb, List.map_map]
  rfl

theorem writeHeaders_length (blocksize : ℕ) (hb : 0 < blocksize) :
    (writeHeaders blocksize frameIndex lowseq blockIndex fecBlocksNeeded block).length =
      sliceCount blocksize block.length := by
  rw [← List.length_map (f := Packet.bytes),
    writeHeaders_bytes frameIndex fecBlocksNeeded blockIndex lowseq block blocksize hb,
    slices_length]

theorem sendBlock_dataShards (hb : 0 < cfg.blocksize) :
    (sendBlock rs cfg frameIndex fecPercentage fecBlocksNeeded blockIndex lowseq block).dataShards =
      sliceCount cfg.blocksize block.length := by
  have hbytes := writeHeaders_bytes frameIndex fecBlocksNeeded blockIndex lowseq block
    cfg.blocksize hb
  have hsize : payloadSize (writeHeaders cfg.blocksize frameIndex lowseq blockIndex
      fecBlocksNeeded block) = block.length := by
    unfold payloadSize
    rw [hbytes, flatten_slices cfg.blocksize hb]
  unfold sendBlock
  rw [fecEncode_dataShards, hsize]

theorem sendBlock_shard (hb : 0 < cfg.blocksize) (x : ℕ)
    (hx : x < sliceCount cfg.blocksize block.length) :
    ∃ p, (sendBlock rs cfg frameIndex fecPercentage fecBlocksNeeded blockIndex lowseq
        block).shards[x]? = some p ∧
      p.header = finalHeader cfg frameIndex lowseq blockIndex fecBlocksNeeded
        (sendBlock rs cfg frameIndex fecPercentage fecBlocksNeeded blockIndex lowseq
          block).dataShards
        (sendBlock rs cfg frameIndex fecPercentage fecBlocksNeeded blockIndex lowseq
          block).percentage x
        (firstHeader frameIndex lowseq blockIndex fecBlocksNeeded
          (sliceCount cfg.blocksize block.length) x) := by
  have hsl : Sliced cfg.blocksize ((writeHeaders cfg.blocksize frameIndex lowseq blockIndex
      fecBlocksNeeded block).map Packet.bytes) := by
    rw [writeHeaders_bytes _ _ _ _ _ _ hb]
    exact sliced_slices cfg.blocksize hb block
  obtain ⟨-, hshards⟩ := fecEncode_data rs _ cfg.blocksize fecPercentage
    cfg.minRequiredFecPackets hb hsl
  have hlen := writeHeaders_length frameIndex fecBlocksNeeded blockIndex lowseq block
    cfg.blocksize hb
  unfold sendBlock
  simp only [List.getElem?_mapIdx, hshards]
  rw [List.getElem?_append_left (by rw [List.length_map, hlen]; exact hx), List.getElem?_map]
  refine ⟨_, by rw [List.getElem?_eq_getElem (by rw [hlen]; exact hx)]; rfl, ?_⟩
  simp only [pad_header, writeHeaders, List.getElem_map, List.getElem_range,
    ← sliceCount_eq cfg.blocksize block.length hb]

theorem sendBlock_index (hi : blockIndex < fecBlocksNeeded) (hn : fecBlocksNeeded ≤ maxFecBlocks)
    (p : Packet)
    (hp : p ∈ (sendBlock rs cfg frameIndex fecPercentage fecBlocksNeeded blockIndex lowseq
      block).shards) :
    multiFecIndex p.header.multiFecBlocks = blockIndex ∧
      multiFecLast p.header.multiFecBlocks = fecBlocksNeeded - 1 := by
  obtain ⟨x, hx, rfl⟩ := List.mem_mapIdx.mp hp
  exact multiFecBlocks_fields blockIndex fecBlocksNeeded hi hn

/-- The data payloads of a block are its slices behind their headers, the last one padded. -/
theorem sendBlock_payloads (hb : 0 < cfg.blocksize) :
    ((sendBlock rs cfg frameIndex fecPercentage fecBlocksNeeded blockIndex lowseq block).shards.take
        (sliceCount cfg.blocksize block.length)).map Packet.payload =
      (slices cfg.blocksize block).map fun s =>
        (s ++ List.replicate (cfg.blocksize - s.length) 0).drop packetHeaderSize := by
  have hbytes := writeHeaders_bytes frameIndex fecBlocksNeeded blockIndex lowseq block
    cfg.blocksize hb
  have hsl : Sliced cfg.blocksize ((writeHeaders cfg.blocksize frameIndex lowseq blockIndex
      fecBlocksNeeded block).map Packet.bytes) := by
    rw [hbytes]
    exact sliced_slices cfg.blocksize hb block
  obtain ⟨-, hshards⟩ := fecEncode_data rs _ cfg.blocksize fecPercentage
    cfg.minRequiredFecPackets hb hsl
  have hlen := writeHeaders_length frameIndex fecBlocksNeeded blockIndex lowseq block
    cfg.blocksize hb
  have hmap : ∀ (l : List Packet) (g : ℕ → Packet → PacketHeader),
      (l.mapIdx fun x p => { p with header := g x p }).map Packet.payload =
        l.map Packet.payload := by
    intro l g
    apply List.ext_getElem?
    intro i
    rw [List.getElem?_map, List.getElem?_mapIdx, List.getElem?_map]
    cases l[i]? <;> rfl
  unfold sendBlock
  simp only [hshards]
  rw [List.map_take, hmap, List.map_append, List.take_left' (by simp [hlen]), ← hbytes,
    List.map_map, List.map_map]
  rfl

end Block

/-! ## The blocks of a frame -/

section Frame

variable (rs : List Packet → ℕ → Packet) (cfg : SendConfig) (frameIndex fecPercentage n : ℕ)

theorem sendBlocks_get (blocks : List Bytes) (first lowseq i : ℕ) (sent : Fec)
    (h : (sendBlocks rs cfg frameIndex fecPercentage n first lowseq blocks)[i]? = some sent) :
    ∃ block seq, blocks[i]? = some block ∧
      sent = sendBlock rs cfg frameIndex fecPercentage n (first + i) seq block := by
  induction blocks generalizing first lowseq i with
  | nil => simp [sendBlocks] at h
  | cons b rest ih =>
    cases i with
    | zero =>
      simp only [sendBlocks, List.getElem?_cons_zero, Option.some.injEq] at h
      exact ⟨b, lowseq, rfl, h.symm⟩
    | succ i =>
      simp only [sendBlocks, List.getElem?_cons_succ] at h
      obtain ⟨block, seq, hblock, hsent⟩ := ih _ _ i h
      refine ⟨block, seq, by rw [List.getElem?_cons_succ]; exact hblock, ?_⟩
      rw [hsent, Nat.add_right_comm, Nat.add_assoc]

theorem sendBlocks_length (blocks : List Bytes) (first lowseq : ℕ) :
    (sendBlocks rs cfg frameIndex fecPercentage n first lowseq blocks).length = blocks.length := by
  induction blocks generalizing first lowseq with
  | nil => rfl
  | cons b rest ih => rw [sendBlocks, List.length_cons, List.length_cons, ih]

theorem sendBlocks_payloads (blocks : List Bytes) (first lowseq : ℕ) (hb : 0 < cfg.blocksize) :
    dataPayloads (sendBlocks rs cfg frameIndex fecPercentage n first lowseq blocks) =
      (blocks.flatMap (slices cfg.blocksize)).map fun s =>
        (s ++ List.replicate (cfg.blocksize - s.length) 0).drop packetHeaderSize := by
  induction blocks generalizing first lowseq with
  | nil => rfl
  | cons b rest ih =>
    unfold dataPayloads at ih ⊢
    simp only [sendBlocks]
    rw [List.flatMap_cons, ih, sendBlock_dataShards _ _ _ _ _ _ _ _ hb,
      sendBlock_payloads _ _ _ _ _ _ _ _ hb, List.flatMap_cons, List.map_append]

theorem sendBlocks_total (blocks : List Bytes) (first lowseq : ℕ) (hb : 0 < cfg.blocksize) :
    ((sendBlocks rs cfg frameIndex fecPercentage n first lowseq blocks).map Fec.dataShards).sum =
      (blocks.flatMap (slices cfg.blocksize)).length := by
  induction blocks generalizing first lowseq with
  | nil => rfl
  | cons b rest ih =>
    simp only [sendBlocks]
    rw [List.map_cons, List.sum_cons, ih, sendBlock_dataShards _ _ _ _ _ _ _ _ hb,
      List.flatMap_cons, List.length_append, slices_length]

end Frame

/-! ## The round trip -/

theorem slices_of_blocks {blocks : List Bytes} {payload : Bytes} {blocksize : ℕ}
    (h : Blocks blocks payload blocksize) (hb : 0 < blocksize) :
    blocks.flatMap (slices blocksize) = slices blocksize payload := by
  obtain ⟨front, last, rfl, hf⟩ := h.packets
  rw [← slices_blocks blocksize hb front last hf, h.whole]

theorem drop_padded (w : ℕ) (s : Bytes) :
    ((List.replicate packetHeaderSize 0 ++ s) ++ List.replicate (packetHeaderSize + w -
        (List.replicate packetHeaderSize (0 : UInt8) ++ s).length) 0).drop packetHeaderSize =
      s ++ List.replicate (w - s.length) 0 := by
  rw [List.append_assoc, List.drop_left' (by simp), List.length_append, List.length_replicate,
    Nat.add_sub_add_left]

theorem packetized_slices (packetsize : ℕ) (frame : EncodedFrame) (hp : 16 < packetsize) :
    ((slices (packetsize + maxRtpHeaderSize) (packetized packetsize frame)).map fun s =>
        (s ++ List.replicate (packetsize + maxRtpHeaderSize - s.length) 0).drop packetHeaderSize) =
      (slices (packetsize - nvVideoPacketSize)
        ((frameHeader packetsize frame).bytes ++ frame.data)).map fun s =>
          s ++ List.replicate (packetsize - nvVideoPacketSize - s.length) 0 := by
  have hpos : 0 < packetsize - nvVideoPacketSize := by
    unfold nvVideoPacketSize
    omega
  have hw : packetsize + maxRtpHeaderSize - packetHeaderSize = packetsize - nvVideoPacketSize := by
    unfold maxRtpHeaderSize packetHeaderSize nvVideoPacketSize
    omega
  have hblock : packetsize + maxRtpHeaderSize =
      packetHeaderSize + (packetsize - nvVideoPacketSize) := by
    unfold maxRtpHeaderSize packetHeaderSize nvVideoPacketSize
    omega
  unfold packetized
  rw [hw, hblock, slices_concatAndInsert packetHeaderSize _ hpos, List.map_map]
  apply List.map_congr_left
  intro s _
  exact drop_padded _ s

theorem packetized_length (packetsize : ℕ) (frame : EncodedFrame) (hp : 16 < packetsize) :
    (slices (packetsize + maxRtpHeaderSize) (packetized packetsize frame)).length =
      sliceCount (packetsize - nvVideoPacketSize) (frameHeaderSize + frame.data.length) := by
  have hcut := congrArg List.length (packetized_slices packetsize frame hp)
  rwa [List.length_map, List.length_map, slices_length _ (_ ++ _), List.length_append,
    frameHeader_length] at hcut

theorem lastPayloadLen_eq (packetsize size : ℕ) (hp : 16 < packetsize) (hp' : packetsize ≤ 65535) :
    lastPayloadLen packetsize size =
      if (frameHeaderSize + size) % (packetsize - nvVideoPacketSize) = 0 then
        packetsize - nvVideoPacketSize
      else (frameHeaderSize + size) % (packetsize - nvVideoPacketSize) := by
  have hw : 0 < packetsize - nvVideoPacketSize := by
    unfold nvVideoPacketSize
    omega
  have hlt := Nat.mod_lt (size + frameHeaderSize) hw
  have hw16 : packetsize - nvVideoPacketSize < 2 ^ 16 := by omega
  unfold lastPayloadLen
  rw [Nat.add_comm frameHeaderSize, Nat.mod_eq_of_lt (hlt.trans hw16), Nat.mod_eq_of_lt hw16]

/-- Reassembling the padded slices of a frame gives back its header and payload. -/
theorem reassemble_padded (packetsize : ℕ) (frame : EncodedFrame) (hp : 16 < packetsize)
    (hp' : packetsize ≤ 65535) :
    reassemble ((slices (packetsize - nvVideoPacketSize)
        ((frameHeader packetsize frame).bytes ++ frame.data)).map fun s =>
          s ++ List.replicate (packetsize - nvVideoPacketSize - s.length) 0) =
      (frameHeader packetsize frame).bytes ++ frame.data := by
  have hw : 0 < packetsize - nvVideoPacketSize := by
    unfold nvVideoPacketSize
    omega
  set w := packetsize - nvVideoPacketSize with hwdef
  set full := (frameHeader packetsize frame).bytes ++ frame.data with hfull
  have hlen : full.length = frameHeaderSize + frame.data.length := by
    rw [hfull, List.length_append, frameHeader_length]
  have hne : full ≠ [] := by
    intro hnil
    rw [hnil, List.length_nil] at hlen
    unfold frameHeaderSize at hlen
    omega
  obtain ⟨front, last, hcut, hfront, hlast⟩ := getLast_slices w hw full hne
  have hjoin : front.flatten ++ last = full := by
    have hflat := flatten_slices w hw full
    rwa [hcut, List.flatten_append, List.flatten_cons, List.flatten_nil, List.append_nil] at hflat
  have hpad : front.map (fun s => s ++ List.replicate (w - s.length) 0) = front := by
    calc front.map (fun s => s ++ List.replicate (w - s.length) 0) = front.map id := by
          apply List.map_congr_left
          intro s hs
          rw [hfront s hs, Nat.sub_self, List.replicate_zero, List.append_nil, id]
      _ = front := List.map_id front
  -- the length field sits in front of the padding, so the receiver reads it unchanged
  have hread : readLastPayloadLen (front ++ [last ++ List.replicate (w - last.length) 0]).flatten =
      last.length := by
    rw [List.flatten_append, List.flatten_cons, List.flatten_nil, List.append_nil,
      ← List.append_assoc, hjoin, hfull, List.append_assoc]
    have hfield : (frameHeader packetsize frame).lastPayloadLen = last.length := by
      rw [hlast, hlen]
      exact lastPayloadLen_eq packetsize frame.data.length hp hp'
    have hmod := Nat.mod_lt full.length hw
    rw [readLastPayloadLen_bytes _ _ (by rw [hfield, hlast]; split_ifs <;> omega), hfield]
  rw [hcut, List.map_append, hpad, List.map_cons, List.map_nil]
  unfold reassemble
  rw [hread, List.dropLast_concat, List.getLast?_concat, Option.getD_some,
    List.take_left' rfl, hjoin]

/-- What the data packets of a sent block say about it. -/
structure BlockMarks (fecBlocks i : ℕ) (sent : Fec) : Prop where
  nonempty : 0 < sent.dataShards
  flags : ∀ x < sent.dataShards, ∃ p, sent.shards[x]? = some p ∧
    (p.header.sof = true ↔ x = 0) ∧ (p.header.eof = true ↔ x = sent.dataShards - 1)
  index : ∀ p ∈ sent.shards, multiFecIndex p.header.multiFecBlocks = i ∧
    multiFecLast p.header.multiFecBlocks = fecBlocks - 1
  count : sent.percentage < 2 ^ 8 → ∀ x < sent.dataShards, ∀ p, sent.shards[x]? = some p →
    (fecInfoDataShards p.header.fecInfo = sent.dataShards ↔ sent.dataShards < 2 ^ 10)

theorem sendBlock_marks (rs : List Packet → ℕ → Packet) (cfg : SendConfig)
    (frameIndex fecPercentage n blockIndex lowseq : ℕ) (block : Bytes) (hb : 0 < cfg.blocksize)
    (hi : blockIndex < n) (hn : n ≤ maxFecBlocks) (hne : block ≠ []) :
    BlockMarks n blockIndex
      (sendBlock rs cfg frameIndex fecPercentage n blockIndex lowseq block) := by
  have hcount := sendBlock_dataShards rs cfg frameIndex fecPercentage n blockIndex lowseq block hb
  have hshard := sendBlock_shard rs cfg frameIndex fecPercentage n blockIndex lowseq block hb
  rw [← hcount] at hshard
  refine ⟨?_, ?_, sendBlock_index rs cfg frameIndex fecPercentage n blockIndex lowseq block hi hn,
    ?_⟩
  · rw [hcount]
    exact sliceCount_pos _ _ hb (List.length_pos_iff.mpr hne)
  · intro x hx
    obtain ⟨p, hp, hheader⟩ := hshard x hx
    refine ⟨p, hp, ?_, ?_⟩ <;> rw [hheader] <;> simp [finalHeader, firstHeader]
  · intro hpct x hx p hp
    obtain ⟨q, hq, hheader⟩ := hshard x hx
    rw [hp, Option.some.injEq] at hq
    subst hq
    rw [hheader]
    constructor
    · intro heq
      rw [← heq]
      exact fecInfoDataShards_lt _
    · intro hsmall
      exact (fecInfo_fields x _ _ (by omega) hsmall hpct).2.1

theorem sendBlock_percentage (rs : List Packet → ℕ → Packet) (cfg : SendConfig)
    (frameIndex fecPercentage n blockIndex lowseq : ℕ) (block : Bytes)
    (hmin : cfg.minRequiredFecPackets = 0) :
    (sendBlock rs cfg frameIndex fecPercentage n blockIndex lowseq block).percentage =
      fecPercentage := by
  unfold sendBlock fecEncode
  simp only [hmin, parityAndPercentage_no_min]

/-! ## Frames and their reassembly -/

theorem product_in_range (cfg : SendConfig) (hp' : cfg.packetsize ≤ 65535)
    (hf : cfg.fecPercentage ≤ 255) :
    maxDataShardsPerFecBlock cfg.fecPercentage * (cfg.packetsize + maxRtpHeaderSize) ≤ intMax := by
  obtain ⟨-, hM, -⟩ := maxDataShards_bounds cfg.fecPercentage hf
  calc maxDataShardsPerFecBlock cfg.fecPercentage * (cfg.packetsize + maxRtpHeaderSize)
      ≤ 255 * (65535 + 16) := Nat.mul_le_mul hM (Nat.add_le_add_right hp' 16)
    _ ≤ intMax := by decide

theorem sendFrame_ok (rs : List Packet → ℕ → Packet) (cfg : SendConfig) (frame : EncodedFrame)
    (s : FecSplit) (h : splitFrame cfg.packetsize cfg.fecPercentage frame = .ok s) :
    sendFrame rs cfg frame = .ok (sendBlocks rs cfg frame.frameIndex s.fecPercentage
      s.fecBlocksNeeded 0 cfg.lowseq s.fecBlocks) := by
  unfold sendFrame
  rw [h]
  rfl

/-- Packetizing, splitting and encoding a frame loses nothing: the data packets give back its header
and payload, and they mark the ends and the indices of their blocks. -/
theorem frame_round_trip (rs : List Packet → ℕ → Packet) (cfg : SendConfig) (frame : EncodedFrame)
    (hp : 16 < cfg.packetsize) (hp' : cfg.packetsize ≤ 65535) (hf : cfg.fecPercentage ≤ 255) :
    ∃ sent, sendFrame rs cfg frame = .ok sent ∧ sent.length ≤ maxFecBlocks ∧
      reassemble (dataPayloads sent) =
        (frameHeader cfg.packetsize frame).bytes ++ frame.data ∧
      (∀ i b, sent[i]? = some b → BlockMarks sent.length i b) ∧
      (cfg.minRequiredFecPackets = 0 → ∀ b ∈ sent, b.percentage < 2 ^ 8) := by
  have hb : 0 < cfg.blocksize := by
    unfold SendConfig.blocksize
    omega
  obtain ⟨s, hok, hn0, hn4, hlen, hblocks, hsizes⟩ :=
    splitFrame_ok cfg.packetsize cfg.fecPercentage frame hp hf (product_in_range cfg hp' hf)
  have hcount : (sendBlocks rs cfg frame.frameIndex s.fecPercentage s.fecBlocksNeeded 0 cfg.lowseq
      s.fecBlocks).length = s.fecBlocksNeeded := by
    rw [sendBlocks_length, hlen]
  have hslices : s.fecBlocks.flatMap (slices cfg.blocksize) = slices cfg.blocksize _ :=
    slices_of_blocks hblocks hb
  refine ⟨_, sendFrame_ok rs cfg frame s hok, by omega, ?_, ?_, ?_⟩
  · rw [sendBlocks_payloads _ _ _ _ _ _ _ _ hb, hslices]
    unfold SendConfig.blocksize
    rw [packetized_slices cfg.packetsize frame hp, reassemble_padded cfg.packetsize frame hp hp']
  · intro i b hget
    obtain ⟨block, seq, hblock, rfl⟩ := sendBlocks_get _ _ _ _ _ _ _ _ i b hget
    have hi : i < s.fecBlocksNeeded := by
      rw [← hlen]
      exact (List.getElem?_eq_some_iff.mp hblock).1
    rw [hcount, Nat.zero_add]
    exact sendBlock_marks _ _ _ _ _ i _ block hb hi hn4
      (hblocks.nonempty block (List.mem_of_getElem? hblock))
  · intro hmin b hmem
    obtain ⟨i, hget⟩ := List.getElem?_of_mem hmem
    obtain ⟨block, seq, -, rfl⟩ := sendBlocks_get _ _ _ _ _ _ _ _ i b hget
    rw [sendBlock_percentage _ _ _ _ _ _ _ _ hmin]
    rcases hsizes with ⟨hpct, -⟩ | ⟨hpct, -⟩ <;> rw [hpct] <;> omega

theorem frame_round_trip_tiny :
    ∃ sent, sendFrame (fun _ _ => default) { packetsize := 17, fecPercentage := 20 }
        { data := [1, 2] } = .ok sent ∧ sent.length ≤ maxFecBlocks ∧
      reassemble (dataPayloads sent) =
        (frameHeader 17 { data := [1, 2] }).bytes ++ [1, 2] ∧
      (∀ i b, sent[i]? = some b → BlockMarks sent.length i b) ∧
      ((0 : ℕ) = 0 → ∀ b ∈ sent, b.percentage < 2 ^ 8) :=
  frame_round_trip (fun _ _ => default) { packetsize := 17, fecPercentage := 20 }
    { data := [1, 2] } (by decide) (by decide) (by decide)

/-- A frame of more than four times 1023 packets has a block whose count overflows its ten bits. -/
theorem large_frame_count (rs : List Packet → ℕ → Packet) (cfg : SendConfig)
    (frame : EncodedFrame) (hp : 16 < cfg.packetsize) (hp' : cfg.packetsize ≤ 65535)
    (hf : cfg.fecPercentage ≤ 255)
    (hlarge : 4092 < sliceCount (cfg.packetsize - nvVideoPacketSize)
      (frameHeaderSize + frame.data.length)) :
    ∃ sent, sendFrame rs cfg frame = .ok sent ∧
      ∃ b ∈ sent, 2 ^ 10 ≤ b.dataShards ∧ ∃ p, b.shards[0]? = some p := by
  have hb : 0 < cfg.blocksize := by
    unfold SendConfig.blocksize
    omega
  obtain ⟨s, hok, -, hn4, hlen, hblocks, -⟩ :=
    splitFrame_ok cfg.packetsize cfg.fecPercentage frame hp hf (product_in_range cfg hp' hf)
  refine ⟨_, sendFrame_ok rs cfg frame s hok, ?_⟩
  set sent := sendBlocks rs cfg frame.frameIndex s.fecPercentage s.fecBlocksNeeded 0 cfg.lowseq
    s.fecBlocks with hsent
  -- four blocks of at most 1023 packets do not hold the frame
  have hbig : ∃ b ∈ sent, 2 ^ 10 ≤ b.dataShards := by
    by_contra hsmall
    push Not at hsmall
    have htotal := sendBlocks_total rs cfg frame.frameIndex s.fecPercentage s.fecBlocksNeeded
      s.fecBlocks 0 cfg.lowseq hb
    have hslices : s.fecBlocks.flatMap (slices cfg.blocksize) = slices cfg.blocksize _ :=
      slices_of_blocks hblocks hb
    rw [hslices, ← hsent, SendConfig.blocksize, packetized_length _ _ hp] at htotal
    have hsum := List.sum_le_card_nsmul (sent.map Fec.dataShards) 1023 (by
      intro d hd
      obtain ⟨b, hbm, rfl⟩ := List.mem_map.mp hd
      have hlt := hsmall b hbm
      omega)
    rw [List.length_map, hsent, sendBlocks_length, hlen, smul_eq_mul, ← hsent] at hsum
    unfold maxFecBlocks at hn4
    omega
  obtain ⟨b, hmem, hcount⟩ := hbig
  refine ⟨b, hmem, hcount, ?_⟩
  obtain ⟨i, hget⟩ := List.getElem?_of_mem hmem
  obtain ⟨block, seq, -, rfl⟩ := sendBlocks_get _ _ _ _ _ _ _ _ i b hget
  rw [sendBlock_dataShards _ _ _ _ _ _ _ _ hb] at hcount
  obtain ⟨p, hp, -⟩ := sendBlock_shard rs cfg frame.frameIndex s.fecPercentage s.fecBlocksNeeded
    (0 + i) seq block hb 0 (by omega)
  exact ⟨p, hp⟩

/-- 4096 bytes in packets of one byte: some packet does not carry the count of its block. -/
theorem data_shard_count_truncated :
    ¬ ∀ sent, sendFrame (fun _ _ => default) { packetsize := 17, fecPercentage := 20 }
        { data := List.replicate 4096 0 } = .ok sent →
      ∀ b ∈ sent, ∀ x < b.dataShards, ∀ p, b.shards[x]? = some p →
        fecInfoDataShards p.header.fecInfo = b.dataShards := by
  intro hall
  obtain ⟨sent, hsent, b, hb, hbig, p, hp⟩ := large_frame_count (fun _ _ => default)
    { packetsize := 17, fecPercentage := 20 } { data := List.replicate 4096 0 } (by decide)
    (by decide) (by decide) (by rw [List.length_replicate]; decide)
  have heq := hall sent hsent b hb 0 (by omega) p hp
  have hlt := fecInfoDataShards_lt p.header.fecInfo
  omega

end Sunshine.Video
