import Sunshine.Lib.Bytes
import Sunshine.Video.FecBlocks

/-! `fec::encode` of `stream.cpp` and the `fecInfo` word its result is announced with.

The Reed-Solomon coder is a parameter: `rs data i` is parity shard `i` of the data shards. What the
sender relies on is only how many shards there are and that the data shards come first, in order,
the last one padded with zeros (`fecEncode_data`). -/
namespace Sunshine.Video
open Slices Bytes
set_option autoImplicit false

/-! ## Packets -/

/-- The fields of `video_packet_raw_t` the sender writes. -/
structure PacketHeader where
  rtpHeader : ℕ := 0
  sequenceNumber : ℕ := 0
  timestamp : ℕ := 0
  streamPacketIndex : ℕ := 0
  frameIndex : ℕ := 0
  containsPicData : Bool := false
  sof : Bool := false
  eof : Bool := false
  multiFecFlags : ℕ := 0
  multiFecBlocks : ℕ := 0
  fecInfo : ℕ := 0
  deriving DecidableEq, Repr, Inhabited

/-- `sizeof(video_packet_raw_t)`. -/
def packetHeaderSize : ℕ := 32

/-- The bytes of one packet; its header overlays the first `packetHeaderSize` of them. -/
structure Packet where
  header : PacketHeader
  bytes : Bytes
  deriving DecidableEq, Repr, Inhabited

def Packet.payload (p : Packet) : Bytes := p.bytes.drop packetHeaderSize

/-- The copy of the last data shard: the bytes, then zeros to the end of the block. -/
def Packet.pad (blocksize : ℕ) (p : Packet) : Packet :=
  { p with bytes := p.bytes ++ List.replicate (blocksize - p.bytes.length) 0 }

def payloadSize (payload : List Packet) : ℕ := (payload.map Packet.bytes).flatten.length

/-! ## `fec::encode` -/

def sizeMax : ℕ := 2 ^ 64

def adjustedFecPercentageForMinParity
    (dataShards parityShards minParityShards fecPercentage : ℕ) : Option ℕ :=
  if fecPercentage = 0 ∨ minParityShards ≤ parityShards ∨ dataShards = 0 then none
  else some ((100 * minParityShards) % sizeMax / dataShards)

/-- `fec_t`: the shards and what the packets say about them. -/
structure Fec where
  dataShards : ℕ
  parityShards : ℕ
  percentage : ℕ
  shards : List Packet
  deriving DecidableEq, Repr

def parityShardCount (dataShards fecPercentage : ℕ) : ℕ := (dataShards * fecPercentage + 99) / 100

/-- Parity shards and transmitted percentage of a block of `dataShards` packets. -/
def parityAndPercentage (dataShards fecPercentage minParityShards : ℕ) : ℕ × ℕ :=
  let parityShards := parityShardCount dataShards fecPercentage
  match adjustedFecPercentageForMinParity dataShards parityShards minParityShards fecPercentage with
  | some adjusted => (minParityShards, adjusted)
  | none => (parityShards, fecPercentage)

def fecEncode (rs : List Packet → ℕ → Packet) (payload : List Packet)
    (blocksize fecPercentage minParityShards : ℕ) : Fec :=
  let size := payloadSize payload
  let pad := size % blocksize ≠ 0
  let alignedDataShards := size / blocksize
  let dataShards := alignedDataShards + if pad then 1 else 0
  let parity := parityAndPercentage dataShards fecPercentage minParityShards
  -- only the shard behind the aligned ones is copied and padded
  let data := payload.take alignedDataShards ++
    if pad then (payload.drop alignedDataShards).map (Packet.pad blocksize) else []
  { dataShards
    parityShards := parity.1
    percentage := parity.2
    shards := data ++ (List.range parity.1).map (rs data) }

/-! ## The `fecInfo` word -/

def fecInfo (x dataShards percentage : ℕ) : ℕ :=
  (x <<< 12 ||| dataShards <<< 22 ||| percentage <<< 4) % 2 ^ 32

def fecInfoIndex (v : ℕ) : ℕ := (v >>> 12) % 2 ^ 10

def fecInfoDataShards (v : ℕ) : ℕ := (v >>> 22) % 2 ^ 10

def fecInfoPercentage (v : ℕ) : ℕ := (v >>> 4) % 2 ^ 8

theorem fecInfo_eq (x d p : ℕ) (hx : x < 2 ^ 10) (hd : d < 2 ^ 10) (hp : p < 2 ^ 8) :
    fecInfo x d p = d * 2 ^ 22 + (x * 2 ^ 12 + p * 2 ^ 4) := by
  have hlow : x <<< 12 ||| p <<< 4 = x * 2 ^ 12 + p * 2 ^ 4 := by
    rw [← field_or x (p * 2 ^ 4) 12 (by omega), Nat.shiftLeft_eq p]
  have hall : x <<< 12 ||| d <<< 22 ||| p <<< 4 = d * 2 ^ 22 + (x * 2 ^ 12 + p * 2 ^ 4) := by
    rw [← field_or d (x * 2 ^ 12 + p * 2 ^ 4) 22 (by omega), ← hlow, Nat.or_comm (x <<< 12),
      Nat.or_assoc]
  unfold fecInfo
  rw [hall, Nat.mod_eq_of_lt (by omega)]

theorem fecInfo_fields (x d p : ℕ) (hx : x < 2 ^ 10) (hd : d < 2 ^ 10) (hp : p < 2 ^ 8) :
    fecInfoIndex (fecInfo x d p) = x ∧ fecInfoDataShards (fecInfo x d p) = d ∧
      fecInfoPercentage (fecInfo x d p) = p := by
  rw [fecInfo_eq x d p hx hd hp]
  unfold fecInfoIndex fecInfoDataShards fecInfoPercentage
  simp only [Nat.shiftRight_eq_div_pow]
  omega

theorem fecInfoDataShards_lt (v : ℕ) : fecInfoDataShards v < 2 ^ 10 := Nat.mod_lt _ (by decide)

theorem fecInfoPercentage_lt (v : ℕ) : fecInfoPercentage v < 2 ^ 8 := Nat.mod_lt _ (by decide)

/-! ## What `fec::encode` does to the packets of a block -/

@[simp] theorem pad_header (blocksize : ℕ) (p : Packet) : (p.pad blocksize).header = p.header := rfl

theorem pad_full (blocksize : ℕ) (p : Packet) (h : p.bytes.length = blocksize) :
    p.pad blocksize = p := by
  unfold Packet.pad
  rw [h, Nat.sub_self, List.replicate_zero, List.append_nil]

theorem fecEncode_dataShards (rs : List Packet → ℕ → Packet) (payload : List Packet)
    (blocksize f m : ℕ) :
    (fecEncode rs payload blocksize f m).dataShards = sliceCount blocksize (payloadSize payload) :=
  rfl

theorem sliced_pad (blocksize : ℕ) (hb : 0 < blocksize) (payload : List Packet)
    (h : Sliced blocksize (payload.map Packet.bytes)) :
    (payload.take (payloadSize payload / blocksize) ++
      if payloadSize payload % blocksize ≠ 0 then
        (payload.drop (payloadSize payload / blocksize)).map (Packet.pad blocksize) else []) =
      payload.map (Packet.pad blocksize) ∧
      sliceCount blocksize (payloadSize payload) = payload.length := by
  induction payload with
  | nil => simp [payloadSize, sliceCount_zero]
  | cons p rest ih =>
    have hp := h.length_le p.bytes (List.mem_cons_self ..) hb
    obtain ⟨ihdata, ihcount⟩ := ih h.tail
    have hsize : payloadSize (p :: rest) = p.bytes.length + payloadSize rest := by
      simp [payloadSize]
    by_cases hfull : p.bytes.length = blocksize
    · have hdiv : payloadSize (p :: rest) / blocksize = payloadSize rest / blocksize + 1 := by
        rw [hsize, hfull, Nat.add_div_left _ hb]
      have hmod : payloadSize (p :: rest) % blocksize = payloadSize rest % blocksize := by
        rw [hsize, hfull, Nat.add_mod_left]
      have hcount : sliceCount blocksize (payloadSize (p :: rest)) =
          sliceCount blocksize (payloadSize rest) + 1 := by
        have hadd := sliceCount_add_mul blocksize (payloadSize rest) 1 hb
        rw [Nat.one_mul] at hadd
        rw [hsize, hfull, hadd, Nat.add_comm]
      rw [hdiv, hmod, hcount, List.take_succ_cons, List.drop_succ_cons, List.cons_append, ihdata,
        List.map_cons, pad_full blocksize p hfull, ihcount]
      exact ⟨rfl, rfl⟩
    · -- a short packet is the last one
      cases rest with
      | nil =>
        have hsize' : payloadSize [p] = p.bytes.length := by simp [payloadSize]
        have hlt : p.bytes.length < blocksize := by omega
        rw [hsize', Nat.div_eq_of_lt hlt, Nat.mod_eq_of_lt hlt, if_pos (by omega),
          sliceCount_of_le blocksize _ hp.1 hp.2]
        exact ⟨rfl, rfl⟩
      | cons q rest => exact absurd h.1 hfull

theorem fecEncode_data (rs : List Packet → ℕ → Packet) (payload : List Packet)
    (blocksize f m : ℕ) (hb : 0 < blocksize) (h : Sliced blocksize (payload.map Packet.bytes)) :
    (fecEncode rs payload blocksize f m).dataShards = payload.length ∧
      (fecEncode rs payload blocksize f m).shards = payload.map (Packet.pad blocksize) ++
        (List.range (fecEncode rs payload blocksize f m).parityShards).map
          (rs (payload.map (Packet.pad blocksize))) := by
  obtain ⟨hdata, hcount⟩ := sliced_pad blocksize hb payload h
  refine ⟨hcount, ?_⟩
  unfold fecEncode
  simp only [hdata]

end Sunshine.Video
