import Sunshine.Video.FecEncode

/-! An encoded frame up to its FEC blocks (`videoBroadcastThread`, from the short frame header to the
`substr` loop).

`splitFrame` is the code. `split_safe_iff` says when the split is safe: exactly when the `int`
product of shards and block size does not overflow, which a large enough client packet size makes
it do. -/
namespace Sunshine.Video
open Slices Bytes
set_option autoImplicit false

/-! ## The short frame header -/

structure EncodedFrame where
  data : Bytes
  frameIndex : ℕ := 0
  isIdr : Bool := false
  afterRefFrameInvalidation : Bool := false
  frameProcessingLatency : ℕ := 0
  deriving DecidableEq, Repr

structure FrameHeader where
  headerType : ℕ
  frameProcessingLatency : ℕ
  frameType : ℕ
  lastPayloadLen : ℕ
  deriving DecidableEq, Repr

/-- `sizeof(video_short_frame_header_t)`. -/
def frameHeaderSize : ℕ := 8

/-- `sizeof(NV_VIDEO_PACKET)`. -/
def nvVideoPacketSize : ℕ := 16

/-- `MAX_RTP_HEADER_SIZE`. -/
def maxRtpHeaderSize : ℕ := 16

def FrameHeader.bytes (h : FrameHeader) : Bytes :=
  leBytes 1 h.headerType ++ leBytes 2 h.frameProcessingLatency ++ leBytes 1 h.frameType ++
    leBytes 2 h.lastPayloadLen ++ List.replicate 2 0

/-- What the receiver reads at the offset of `lastPayloadLen`. -/
def readLastPayloadLen (s : Bytes) : ℕ := leValue ((s.drop 4).take 2)

def frameType (frame : EncodedFrame) : ℕ :=
  if frame.isIdr then 2 else if frame.afterRefFrameInvalidation then 5 else 1

/-- The 16-bit field; its zero stands for a full last packet. -/
def lastPayloadLen (packetsize size : ℕ) : ℕ :=
  let stored := ((size + frameHeaderSize) % (packetsize - nvVideoPacketSize)) % 2 ^ 16
  if stored = 0 then (packetsize - nvVideoPacketSize) % 2 ^ 16 else stored

def frameHeader (packetsize : ℕ) (frame : EncodedFrame) : FrameHeader where
  headerType := 0x01
  frameProcessingLatency := frame.frameProcessingLatency
  frameType := frameType frame
  lastPayloadLen := lastPayloadLen packetsize frame.data.length

theorem frameHeader_length (h : FrameHeader) : h.bytes.length = frameHeaderSize := by
  simp [FrameHeader.bytes, frameHeaderSize]

theorem readLastPayloadLen_bytes (h : FrameHeader) (rest : Bytes)
    (hlen : h.lastPayloadLen < 2 ^ 16) :
    readLastPayloadLen (h.bytes ++ rest) = h.lastPayloadLen := by
  have hsplit : h.bytes ++ rest = (leBytes 1 h.headerType ++ leBytes 2 h.frameProcessingLatency ++
      leBytes 1 h.frameType) ++ (leBytes 2 h.lastPayloadLen ++ (List.replicate 2 0 ++ rest)) := by
    simp only [FrameHeader.bytes, List.append_assoc]
  unfold readLastPayloadLen
  rw [hsplit, List.drop_left' (by simp), List.take_left' (by simp)]
  exact leValue_leBytes 2 _ hlen

/-! ## Packetizing and splitting -/

/-- The packetized frame: header and payload, with room for a packet header in front of each
slice. -/
def packetizeFrame (packetsize : ℕ) (frame : EncodedFrame) : Except Fault Bytes := do
  let blocksize ← checkedInt (packetsize + maxRtpHeaderSize)
  pure (concatAndInsert packetHeaderSize (blocksize - packetHeaderSize)
    (frameHeader packetsize frame).bytes frame.data)

def splitFrame (packetsize fecPercentage : ℕ) (frame : EncodedFrame) : Except Fault FecSplit := do
  let payload ← packetizeFrame packetsize frame
  splitFecBlocks payload (packetsize + maxRtpHeaderSize) fecPercentage

/-- The packetized frame when `blocksize` is in range. -/
def packetized (packetsize : ℕ) (frame : EncodedFrame) : Bytes :=
  concatAndInsert packetHeaderSize (packetsize + maxRtpHeaderSize - packetHeaderSize)
    (frameHeader packetsize frame).bytes frame.data

theorem packetizeFrame_ok (packetsize : ℕ) (frame : EncodedFrame)
    (h : packetsize + maxRtpHeaderSize ≤ intMax) :
    packetizeFrame packetsize frame = .ok (packetized packetsize frame) := by
  unfold packetizeFrame
  rw [checkedInt_ok _ h]
  rfl

theorem packetized_ne_nil (packetsize : ℕ) (frame : EncodedFrame) (hp : 16 < packetsize) :
    packetized packetsize frame ≠ [] := by
  intro hnil
  have hw : 0 < packetsize + maxRtpHeaderSize - packetHeaderSize := by
    unfold maxRtpHeaderSize packetHeaderSize
    omega
  have hlen := concatAndInsert_length packetHeaderSize _ hw (frameHeader packetsize frame).bytes
    frame.data
  rw [show concatAndInsert _ _ _ _ = packetized packetsize frame from rfl, hnil,
    frameHeader_length, List.length_nil] at hlen
  unfold frameHeaderSize at hlen
  omega

theorem blocksize_le (packetsize f : ℕ) (hf : f ≤ 255)
    (hint : maxDataShardsPerFecBlock f * (packetsize + maxRtpHeaderSize) ≤ intMax) :
    packetsize + maxRtpHeaderSize ≤ intMax := by
  obtain ⟨hM, -, -⟩ := maxDataShards_bounds f hf
  have hmul := Nat.mul_le_mul_right (packetsize + maxRtpHeaderSize)
    (by omega : 1 ≤ maxDataShardsPerFecBlock f)
  omega

theorem splitFrame_ok (packetsize f : ℕ) (frame : EncodedFrame) (hp : 16 < packetsize)
    (hf : f ≤ 255)
    (hint : maxDataShardsPerFecBlock f * (packetsize + maxRtpHeaderSize) ≤ intMax) :
    ∃ s, splitFrame packetsize f frame = .ok s ∧ 0 < s.fecBlocksNeeded ∧
      s.fecBlocksNeeded ≤ maxFecBlocks ∧ s.fecBlocks.length = s.fecBlocksNeeded ∧
      Blocks s.fecBlocks (packetized packetsize frame) (packetsize + maxRtpHeaderSize) ∧
      ((s.fecPercentage = f ∧ unlimitedFecBlocks (packetized packetsize frame).length
          (maxDataShardsPerFecBlock f * (packetsize + maxRtpHeaderSize)) ≤ maxFecBlocks ∧
          ∀ b ∈ s.fecBlocks,
            b.length ≤ maxDataShardsPerFecBlock f * (packetsize + maxRtpHeaderSize)) ∨
        (s.fecPercentage = 0 ∧ maxFecBlocks < unlimitedFecBlocks (packetized packetsize frame).length
          (maxDataShardsPerFecBlock f * (packetsize + maxRtpHeaderSize)))) := by
  have hsplit : splitFrame packetsize f frame =
      splitFecBlocks (packetized packetsize frame) (packetsize + maxRtpHeaderSize) f := by
    unfold splitFrame
    rw [packetizeFrame_ok packetsize frame (blocksize_le packetsize f hf hint)]
    rfl
  rw [hsplit]
  exact splitFecBlocks_ok _ _ f (by omega) hf (packetized_ne_nil packetsize frame hp) hint

theorem splitFrame_overflow (packetsize f : ℕ) (frame : EncodedFrame)
    (hint : intMax < maxDataShardsPerFecBlock f * (packetsize + maxRtpHeaderSize)) :
    splitFrame packetsize f frame = .error .signedOverflow := by
  unfold splitFrame
  by_cases hb : packetsize + maxRtpHeaderSize ≤ intMax
  · rw [packetizeFrame_ok packetsize frame hb]
    simp only [splitFecBlocks, checkedInt_overflow _ hint, bind, Except.bind]
  · simp only [packetizeFrame, checkedInt_overflow _ (by omega : intMax <
      packetsize + maxRtpHeaderSize), bind, Except.bind]

/-! ## Split safety -/

/-- Shards of a block, data and parity, with no client minimum. -/
def blockShards (blocksize fecPercentage : ℕ) (block : Bytes) : ℕ :=
  sliceCount blocksize block.length +
    (parityAndPercentage (sliceCount blocksize block.length) fecPercentage 0).1

/-- The split went through with at most four blocks that make up the packetized frame, none empty
and each starting on a packet boundary; with FEC left on, the shards of each fit one code word. -/
def SplitSafe (packetsize f : ℕ) (frame : EncodedFrame) : Prop :=
  ∃ s, splitFrame packetsize f frame = .ok s ∧ s.fecBlocks.length ≤ maxFecBlocks ∧
    s.fecBlocks.flatten = packetized packetsize frame ∧
    (∀ b ∈ s.fecBlocks, b ≠ []) ∧
    (∀ i, i < s.fecBlocks.length →
      (packetsize + maxRtpHeaderSize) ∣ (s.fecBlocks.take i).flatten.length) ∧
    (unlimitedFecBlocks (packetized packetsize frame).length
        (maxDataShardsPerFecBlock f * (packetsize + maxRtpHeaderSize)) ≤ maxFecBlocks →
      s.fecPercentage = f ∧ ∀ b ∈ s.fecBlocks,
        blockShards (packetsize + maxRtpHeaderSize) f b ≤ dataShardsMax)

theorem parityAndPercentage_no_min (d f : ℕ) :
    parityAndPercentage d f 0 = (parityShardCount d f, f) := by
  have hnone : adjustedFecPercentageForMinParity d (parityShardCount d f) 0 f = none := by
    simp [adjustedFecPercentageForMinParity]
  simp only [parityAndPercentage, hnone]

theorem blockShards_le (blocksize f : ℕ) (block : Bytes) (hb : 0 < blocksize) (hf : f ≤ 255)
    (h : block.length ≤ maxDataShardsPerFecBlock f * blocksize) :
    blockShards blocksize f block ≤ dataShardsMax := by
  have hd := (sliceCount_le_iff blocksize block.length _ hb).mpr h
  unfold blockShards
  rw [parityAndPercentage_no_min]
  exact data_parity_le _ f hf hd

/-- The split is safe exactly when the product of the shard limit and the block size fits an
`int`. -/
theorem split_safe_iff (packetsize f : ℕ) (frame : EncodedFrame) (hp : 16 < packetsize)
    (hf : f ≤ 255) :
    SplitSafe packetsize f frame ↔
      maxDataShardsPerFecBlock f * (packetsize + maxRtpHeaderSize) ≤ intMax := by
  constructor
  · rintro ⟨s, hok, -⟩
    by_contra hover
    rw [splitFrame_overflow packetsize f frame (by omega)] at hok
    cases hok
  · intro hint
    obtain ⟨s, hok, -, hn4, hlen, hblocks, hsizes⟩ := splitFrame_ok packetsize f frame hp hf hint
    refine ⟨s, hok, by omega, hblocks.whole, hblocks.nonempty, hblocks.boundary, ?_⟩
    intro hon
    rcases hsizes with ⟨hpct, -, hsmall⟩ | ⟨-, hoff⟩
    · exact ⟨hpct, fun b hb => blockShards_le _ f b (by omega) hf (hsmall b hb)⟩
    · omega

theorem split_safe_iff_small : SplitSafe 1024 20 { data := [1, 2, 3] } ↔
    maxDataShardsPerFecBlock 20 * (1024 + maxRtpHeaderSize) ≤ intMax :=
  split_safe_iff 1024 20 _ (by decide) (by decide)

/-- A client packet size of 20259268 at 20 percent: the product is past `int`. -/
theorem split_unsafe_large_packetsize :
    ¬ SplitSafe 20259268 20 { data := List.replicate 1000 0 } := by
  rintro ⟨s, hok, -⟩
  rw [splitFrame_overflow 20259268 20 _ (by decide)] at hok
  cases hok

end Sunshine.Video
