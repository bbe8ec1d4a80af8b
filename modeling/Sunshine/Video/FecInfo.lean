import Sunshine.Video.Transmit

/-! Whether a client can recompute a block from its `fecInfo` words.

The client reads the data-shard count and the percentage and rounds the parity count up. A client
minimum makes `fec::encode` send that many parity shards and announce a percentage that was rounded
down (`adjusted_fec_percentage_for_min_parity`). `header_agrees_iff` says for which minima the two
meet. -/
namespace Sunshine.Video
open Slices Bytes
set_option autoImplicit false

/-- The headers of a sent block let the client recompute it. -/
structure HeaderAgrees (sent : Fec) : Prop where
  fields : ∀ x p, sent.shards[x]? = some p →
    fecInfoIndex p.header.fecInfo = x ∧
      fecInfoDataShards p.header.fecInfo = sent.dataShards ∧
      fecInfoPercentage p.header.fecInfo = sent.percentage
  total : sent.shards.length ≤ dataShardsMax
  recompute : sent.shards.length =
    sent.dataShards + parityShardCount sent.dataShards sent.percentage

/-- The split turns FEC off for the frame. -/
def FecSkipped (cfg : SendConfig) (frame : EncodedFrame) : Prop :=
  maxFecBlocks < unlimitedFecBlocks (packetized cfg.packetsize frame).length
    (maxDataShardsPerFecBlock cfg.fecPercentage * cfg.blocksize)

instance (cfg : SendConfig) (frame : EncodedFrame) : Decidable (FecSkipped cfg frame) :=
  inferInstanceAs (Decidable (_ < _))

/-- The minimum is met anyway, or the percentage it asks for fits its field and loses less than one
parity shard to the division. -/
def MinimumFits (fecPercentage minParityShards dataShards : ℕ) : Prop :=
  minParityShards ≤ parityShardCount dataShards fecPercentage ∨
    (dataShards + minParityShards ≤ dataShardsMax ∧ 100 * minParityShards / dataShards ≤ 255 ∧
      100 * minParityShards % dataShards < 100)

def AgreementCondition (cfg : SendConfig) (frame : EncodedFrame) (dataShards : ℕ) : Prop :=
  if FecSkipped cfg frame then dataShards ≤ dataShardsMax
  else MinimumFits cfg.fecPercentage cfg.minRequiredFecPackets dataShards

/-! ## The counts of a sent block -/

section Block

variable (rs : List Packet → ℕ → Packet) (cfg : SendConfig)
  (frameIndex fecPercentage fecBlocksNeeded blockIndex lowseq : ℕ) (block : Bytes)

theorem sendBlock_length (hb : 0 < cfg.blocksize) :
    (sendBlock rs cfg frameIndex fecPercentage fecBlocksNeeded blockIndex lowseq
        block).shards.length =
      sliceCount cfg.blocksize block.length +
        (parityAndPercentage (sliceCount cfg.blocksize block.length) fecPercentage
          cfg.minRequiredFecPackets).1 := by
  have hbytes := writeHeaders_bytes frameIndex fecBlocksNeeded blockIndex lowseq block
    cfg.blocksize hb
  have hsl : Sliced cfg.blocksize ((writeHeaders cfg.blocksize frameIndex lowseq blockIndex
      fecBlocksNeeded block).map Packet.bytes) := by
    rw [hbytes]
    exact sliced_slices cfg.blocksize hb block
  obtain ⟨hcount, hshards⟩ := fecEncode_data rs _ cfg.blocksize fecPercentage
    cfg.minRequiredFecPackets hb hsl
  rw [fecEncode_dataShards] at hcount
  have hlen := writeHeaders_length frameIndex fecBlocksNeeded blockIndex lowseq block
    cfg.blocksize hb
  unfold sendBlock
  simp only [List.length_mapIdx, hshards, List.length_append, List.length_map, List.length_range,
    hlen]
  rw [← hlen, ← hcount]
  rfl

theorem sendBlock_percentage_eq (hb : 0 < cfg.blocksize) :
    (sendBlock rs cfg frameIndex fecPercentage fecBlocksNeeded blockIndex lowseq
        block).percentage =
      (parityAndPercentage (sliceCount cfg.blocksize block.length) fecPercentage
        cfg.minRequiredFecPackets).2 := by
  have hcount := sendBlock_dataShards rs cfg frameIndex fecPercentage fecBlocksNeeded blockIndex
    lowseq block hb
  rw [← hcount]
  rfl

theorem sendBlock_fecInfo (x : ℕ) (p : Packet)
    (hp : (sendBlock rs cfg frameIndex fecPercentage fecBlocksNeeded blockIndex lowseq
      block).shards[x]? = some p) :
    p.header.fecInfo = fecInfo x
      (sendBlock rs cfg frameIndex fecPercentage fecBlocksNeeded blockIndex lowseq block).dataShards
      (sendBlock rs cfg frameIndex fecPercentage fecBlocksNeeded blockIndex lowseq
        block).percentage := by
  unfold sendBlock at hp
  simp only [List.getElem?_mapIdx, Option.map_eq_some_iff] at hp
  obtain ⟨q, -, rfl⟩ := hp
  rfl

end Block

/-! ## The three parts of the agreement -/

/-- A block agrees when its counts fit their fields and the client's rounding finds the parity. -/
theorem headerAgrees_iff_counts (sent : Fec) (hpos : 0 < sent.dataShards)
    (hle : sent.dataShards ≤ sent.shards.length)
    (hinfo : ∀ x p, sent.shards[x]? = some p →
      p.header.fecInfo = fecInfo x sent.dataShards sent.percentage) :
    HeaderAgrees sent ↔ sent.shards.length ≤ dataShardsMax ∧ sent.percentage ≤ 255 ∧
      sent.shards.length = sent.dataShards + parityShardCount sent.dataShards sent.percentage := by
  constructor
  · intro h
    refine ⟨h.total, ?_, h.recompute⟩
    obtain ⟨p, hp⟩ : ∃ p, sent.shards[0]? = some p :=
      ⟨_, List.getElem?_eq_getElem (by omega)⟩
    have hfield := (h.fields 0 p hp).2.2
    have hlt := fecInfoPercentage_lt p.header.fecInfo
    omega
  · rintro ⟨htotal, hpct, hrec⟩
    refine ⟨?_, htotal, hrec⟩
    intro x p hp
    have hx := (List.getElem?_eq_some_iff.mp hp).1
    unfold dataShardsMax at htotal
    rw [hinfo x p hp]
    exact fecInfo_fields x _ _ (by omega) (by omega) (by omega)

/-- Rounding up after rounding down finds `m` again when less than one shard was lost. -/
theorem parityShardCount_floor (d m : ℕ) :
    parityShardCount d (100 * m / d) = m ↔ 100 * m % d < 100 := by
  have hdiv := Nat.div_add_mod (100 * m) d
  unfold parityShardCount
  constructor <;> intro h <;> omega

/-- With FEC left on, the counts agree exactly for the minima that fit. -/
theorem counts_agree_iff (d f m : ℕ) (hd : 0 < d) (hf0 : 0 < f) (hf : f ≤ 255)
    (hM : d ≤ maxDataShardsPerFecBlock f) :
    (d + (parityAndPercentage d f m).1 ≤ dataShardsMax ∧ (parityAndPercentage d f m).2 ≤ 255 ∧
      d + (parityAndPercentage d f m).1 =
        d + parityShardCount d (parityAndPercentage d f m).2) ↔ MinimumFits f m d := by
  have hroom := data_parity_le d f hf hM
  by_cases hm : m ≤ parityShardCount d f
  · have hsame : parityAndPercentage d f m = (parityShardCount d f, f) := by
      simp [parityAndPercentage, adjustedFecPercentageForMinParity, hm]
    rw [hsame]
    exact ⟨fun _ => Or.inl hm, fun _ => ⟨hroom, hf, rfl⟩⟩
  · have hadj : parityAndPercentage d f m = (m, (100 * m) % sizeMax / d) := by
      have hcond : ¬ (f = 0 ∨ m ≤ parityShardCount d f ∨ d = 0) := by omega
      simp only [parityAndPercentage, adjustedFecPercentageForMinParity, if_neg hcond]
    rw [hadj]
    -- `size_t` does not wrap for a minimum that fits a code word
    have hwrap : d + m ≤ dataShardsMax → (100 * m) % sizeMax = 100 * m := by
      intro hle
      unfold dataShardsMax at hle
      exact Nat.mod_eq_of_lt (by unfold sizeMax; omega)
    unfold MinimumFits
    constructor
    · rintro ⟨htotal, hpct, hrec⟩
      simp only [hwrap htotal] at hpct hrec
      exact Or.inr ⟨htotal, hpct, (parityShardCount_floor d m).mp (by omega)⟩
    · rintro (h | ⟨htotal, hpct, hlost⟩)
      · exact absurd h hm
      · simp only [hwrap htotal]
        rw [(parityShardCount_floor d m).mpr hlost]
        exact ⟨htotal, hpct, rfl⟩

/-! ## Agreement of a frame -/

/-- A block agrees exactly when the client minimum fits; with FEC turned off, exactly when its data
shards fit one code word. -/
theorem header_agrees_iff (rs : List Packet → ℕ → Packet) (cfg : SendConfig)
    (frame : EncodedFrame) (hp : 16 < cfg.packetsize) (hf0 : 1 ≤ cfg.fecPercentage)
    (hf : cfg.fecPercentage ≤ 255) :
    ∀ sent, sendFrame rs cfg frame = .ok sent → ∀ b ∈ sent,
      (HeaderAgrees b ↔ AgreementCondition cfg frame b.dataShards) := by
  intro sent hsent b hmem
  have hb : 0 < cfg.blocksize := by
    unfold SendConfig.blocksize
    omega
  have hint : maxDataShardsPerFecBlock cfg.fecPercentage * (cfg.packetsize + maxRtpHeaderSize) ≤
      intMax := by
    by_contra hover
    unfold sendFrame at hsent
    rw [splitFrame_overflow _ _ frame (by omega)] at hsent
    cases hsent
  obtain ⟨s, hok, -, -, -, hblocks, hsizes⟩ :=
    splitFrame_ok cfg.packetsize cfg.fecPercentage frame hp hf hint
  rw [sendFrame_ok rs cfg frame s hok, Except.ok.injEq] at hsent
  subst hsent
  obtain ⟨i, hget⟩ := List.getElem?_of_mem hmem
  obtain ⟨block, seq, hblock, rfl⟩ := sendBlocks_get _ _ _ _ _ _ _ _ i b hget
  have hbm := List.mem_of_getElem? hblock
  have hd : 0 < sliceCount cfg.blocksize block.length :=
    sliceCount_pos _ _ hb (List.length_pos_iff.mpr (hblocks.nonempty block hbm))
  have hcount := sendBlock_dataShards rs cfg frame.frameIndex s.fecPercentage s.fecBlocksNeeded
    (0 + i) seq block hb
  have hlen := sendBlock_length rs cfg frame.frameIndex s.fecPercentage s.fecBlocksNeeded
    (0 + i) seq block hb
  have hpct := sendBlock_percentage_eq rs cfg frame.frameIndex s.fecPercentage s.fecBlocksNeeded
    (0 + i) seq block hb
  rw [headerAgrees_iff_counts _ (by omega) (by omega)
    (sendBlock_fecInfo rs cfg frame.frameIndex s.fecPercentage s.fecBlocksNeeded (0 + i) seq block),
    hlen, hpct, hcount]
  rcases hsizes with ⟨hs, hon, hsmall⟩ | ⟨hs, hoff⟩
  · have hnot : ¬ FecSkipped cfg frame := Nat.not_lt.mpr hon
    unfold AgreementCondition
    rw [hs, if_neg hnot]
    exact counts_agree_iff _ _ _ hd hf0 hf
      ((sliceCount_le_iff cfg.blocksize block.length _ hb).mpr (hsmall block hbm))
  · have hskip : FecSkipped cfg frame := hoff
    have hnone : ∀ d m, parityAndPercentage d 0 m = (0, 0) := by
      intro d m
      simp [parityAndPercentage, adjustedFecPercentageForMinParity, parityShardCount]
    unfold AgreementCondition
    rw [hs, if_pos hskip, hnone]
    simp [parityShardCount]

theorem one_packet_block (rs : List Packet → ℕ → Packet) (cfg : SendConfig) (frame : EncodedFrame)
    (hp : 16 < cfg.packetsize) (hf : cfg.fecPercentage ≤ 255)
    (hint : maxDataShardsPerFecBlock cfg.fecPercentage * (cfg.packetsize + maxRtpHeaderSize) ≤
      intMax)
    (hone : frameHeaderSize + frame.data.length ≤ cfg.packetsize - nvVideoPacketSize) :
    ∃ sent, sendFrame rs cfg frame = .ok sent ∧ ∃ b ∈ sent, b.dataShards = 1 ∧
      (∃ p, b.shards[0]? = some p) ∧
      b.percentage = (parityAndPercentage 1 cfg.fecPercentage cfg.minRequiredFecPackets).2 := by
  have hb : 0 < cfg.blocksize := by
    unfold SendConfig.blocksize
    omega
  have hM := (maxDataShards_bounds cfg.fecPercentage hf).1
  have hpackets : sliceCount cfg.blocksize (packetized cfg.packetsize frame).length = 1 := by
    have hslices := packetized_length cfg.packetsize frame hp
    rw [slices_length] at hslices
    unfold SendConfig.blocksize
    rw [hslices]
    exact sliceCount_of_le _ _ (by unfold frameHeaderSize; omega) hone
  have hfits := (sliceCount_le_iff cfg.blocksize _ 1 hb).mp hpackets.le
  obtain ⟨s, hok, hn0, -, hlen, hblocks, hsizes⟩ :=
    splitFrame_ok cfg.packetsize cfg.fecPercentage frame hp hf hint
  have hon : s.fecPercentage = cfg.fecPercentage := by
    have hm : cfg.blocksize ≤ maxDataShardsPerFecBlock cfg.fecPercentage * cfg.blocksize :=
      Nat.le_mul_of_pos_left _ (by omega)
    have hneeded : unlimitedFecBlocks (packetized cfg.packetsize frame).length
        (maxDataShardsPerFecBlock cfg.fecPercentage * cfg.blocksize) ≤ 1 := by
      rw [unlimitedFecBlocks_eq _ _ (by omega), sliceCount_le_iff _ _ _ (by omega)]
      omega
    rcases hsizes with ⟨hpct, -⟩ | ⟨-, hoff⟩
    · exact hpct
    · unfold SendConfig.blocksize at hneeded
      unfold maxFecBlocks at hoff
      omega
  obtain ⟨block, hblock⟩ : ∃ block, s.fecBlocks[0]? = some block :=
    ⟨_, List.getElem?_eq_getElem (by omega)⟩
  have hmem := List.mem_of_getElem? hblock
  have hd : sliceCount cfg.blocksize block.length = 1 := by
    have hpart := (List.sublist_flatten_of_mem hmem).length_le
    rw [hblocks.whole] at hpart
    exact sliceCount_of_le _ _ (List.length_pos_iff.mpr (hblocks.nonempty block hmem)) (by omega)
  obtain ⟨b, hget⟩ : ∃ b, (sendBlocks rs cfg frame.frameIndex s.fecPercentage s.fecBlocksNeeded 0
      cfg.lowseq s.fecBlocks)[0]? = some b :=
    ⟨_, List.getElem?_eq_getElem (by rw [sendBlocks_length]; omega)⟩
  refine ⟨_, sendFrame_ok rs cfg frame s hok, b, List.mem_of_getElem? hget, ?_⟩
  obtain ⟨block', seq, hblock', rfl⟩ := sendBlocks_get _ _ _ _ _ _ _ _ 0 b hget
  rw [hblock, Option.some.injEq] at hblock'
  subst hblock'
  obtain ⟨p, hp0, -⟩ := sendBlock_shard rs cfg frame.frameIndex s.fecPercentage s.fecBlocksNeeded
    (0 + 0) seq block hb 0 (by omega)
  refine ⟨?_, ⟨p, hp0⟩, ?_⟩
  · rw [sendBlock_dataShards _ _ _ _ _ _ _ _ hb, hd]
  · rw [sendBlock_percentage_eq _ _ _ _ _ _ _ _ hb, hd, hon]

/-- One data packet and a client minimum of two: the percentage of 200 says so. -/
theorem header_agrees_iff_two_parity :
    ∃ sent, sendFrame (fun _ _ => default)
        { packetsize := 1024, fecPercentage := 20, minRequiredFecPackets := 2 }
        { data := [0] } = .ok sent ∧ ∃ b ∈ sent, HeaderAgrees b := by
  obtain ⟨sent, hok, b, hb, hd, -⟩ := one_packet_block (fun _ _ => default)
    { packetsize := 1024, fecPercentage := 20, minRequiredFecPackets := 2 } { data := [0] }
    (by decide) (by decide) (by decide) (by decide)
  refine ⟨sent, hok, b, hb, ?_⟩
  rw [header_agrees_iff (fun _ _ => default)
    { packetsize := 1024, fecPercentage := 20, minRequiredFecPackets := 2 } { data := [0] }
    (by decide) (by decide) (by decide) sent hok b hb, hd]
  unfold AgreementCondition MinimumFits
  rw [if_neg (by decide)]
  decide

/-- One data packet and a client minimum of three: the percentage of 300 does not fit its field. -/
theorem header_disagrees_three_parity :
    ¬ ∀ sent, sendFrame (fun _ _ => default)
        { packetsize := 1024, fecPercentage := 20, minRequiredFecPackets := 3 }
        { data := [0] } = .ok sent → ∀ b ∈ sent, HeaderAgrees b := by
  intro hall
  obtain ⟨sent, hok, b, hb, -, ⟨p, hp⟩, hpct⟩ := one_packet_block (fun _ _ => default)
    { packetsize := 1024, fecPercentage := 20, minRequiredFecPackets := 3 } { data := [0] }
    (by decide) (by decide) (by decide) (by decide)
  have hfield := ((hall sent hok b hb).fields 0 p hp).2.2
  have hlt := fecInfoPercentage_lt p.header.fecInfo
  have h300 : b.percentage = 300 := hpct.trans (by decide)
  omega

end Sunshine.Video
