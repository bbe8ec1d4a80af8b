import Sunshine.Video.ConcatAndInsert

/-! The split of a packetized frame into FEC blocks (`videoBroadcastThread`, from
`max_data_shards_per_fec_block` to the `substr` loop).

`splitFecBlocks` follows the source, including the `int` product that may overflow and the `substr`
that throws. `splitFecBlocks_ok` says what it returns when the product fits an `int`: at most four
non-empty blocks at packet boundaries that make up the frame, each small enough for its parity when
FEC stays on. -/
namespace Sunshine.Video
open Slices
set_option autoImplicit false

/-- What can go wrong in the split: signed overflow is undefined, `substr` throws. -/
inductive Fault where
  | signedOverflow
  | outOfRange
  deriving DecidableEq, Repr

def intMax : ℕ := 2147483647

def checkedInt (v : ℕ) : Except Fault ℕ :=
  if v ≤ intMax then .ok v else .error .signedOverflow

def substrFrom (s : Bytes) (pos : ℕ) : Except Fault Bytes :=
  if s.length < pos then .error .outOfRange else .ok (s.drop pos)

def substr (s : Bytes) (pos count : ℕ) : Except Fault Bytes :=
  if s.length < pos then .error .outOfRange else .ok ((s.drop pos).take count)

def dataShardsMax : ℕ := 255
def maxFecBlocks : ℕ := 4

def maxDataShardsPerFecBlock (fecPercentage : ℕ) : ℕ :=
  (dataShardsMax * 100) / (100 + fecPercentage)

structure FecSplit where
  fecPercentage : ℕ
  fecBlocksNeeded : ℕ
  alignedSize : ℕ
  fecBlocks : List Bytes
  deriving Repr, DecidableEq

/-- Block `x` of the split. The last one extends to the end of the payload. -/
def fecBlock (payload : Bytes) (fecBlocksNeeded alignedSize x : ℕ) : Except Fault Bytes :=
  if x = fecBlocksNeeded - 1 then substrFrom payload (x * alignedSize)
  else substr payload (x * alignedSize) alignedSize

/-- Blocks needed before the protocol limit is looked at. -/
def unlimitedFecBlocks (size maxDataPerFecBlock : ℕ) : ℕ :=
  (size + (maxDataPerFecBlock - 1)) / maxDataPerFecBlock

def alignedBlockSize (size fecBlocksNeeded blocksize : ℕ) : ℕ :=
  ((size / fecBlocksNeeded + (blocksize - 1)) / blocksize) * blocksize

def splitFecBlocks (payload : Bytes) (blocksize fecPercentage : ℕ) : Except Fault FecSplit := do
  let maxDataPerFecBlock ← checkedInt (maxDataShardsPerFecBlock fecPercentage * blocksize)
  let needed := unlimitedFecBlocks payload.length maxDataPerFecBlock
  -- past the protocol limit, FEC is turned off for the frame
  let skip := maxFecBlocks < needed
  let fecBlocksNeeded := if skip then maxFecBlocks else needed
  let alignedSize := alignedBlockSize payload.length fecBlocksNeeded blocksize
  let fecBlocks ← (List.range fecBlocksNeeded).mapM (fecBlock payload fecBlocksNeeded alignedSize)
  pure { fecPercentage := if skip then 0 else fecPercentage
         fecBlocksNeeded, alignedSize, fecBlocks }

/-! ## The three roundings -/

theorem maxDataShards_bounds (f : ℕ) (hf : f ≤ 255) :
    71 ≤ maxDataShardsPerFecBlock f ∧ maxDataShardsPerFecBlock f ≤ 255 ∧
      maxDataShardsPerFecBlock f * (100 + f) ≤ 25500 := by
  have hpos : 0 < 100 + f := by omega
  unfold maxDataShardsPerFecBlock dataShardsMax
  refine ⟨?_, ?_, Nat.div_mul_le_self _ _⟩
  · rw [Nat.le_div_iff_mul_le hpos]
    omega
  · rw [Nat.div_le_iff_le_mul_add_pred hpos]
    omega

theorem data_parity_le (d f : ℕ) (hf : f ≤ 255) (hd : d ≤ maxDataShardsPerFecBlock f) :
    d + (d * f + 99) / 100 ≤ dataShardsMax := by
  obtain ⟨-, -, hM⟩ := maxDataShards_bounds f hf
  have hprod : d * (100 + f) ≤ 25500 := (Nat.mul_le_mul_right _ hd).trans hM
  have hexp : d * (100 + f) = d * 100 + d * f := Nat.mul_add d 100 f
  unfold dataShardsMax
  omega

theorem alignedBlockSize_bounds (size n blocksize : ℕ) (hb : 0 < blocksize) :
    size / n ≤ alignedBlockSize size n blocksize ∧
      alignedBlockSize size n blocksize ≤ size / n + (blocksize - 1) := by
  have hceil := sliceCount_eq blocksize (size / n) hb
  have hlow := le_sliceCount_mul blocksize (size / n) hb
  rw [hceil] at hlow
  exact ⟨hlow, Nat.div_mul_le_self _ _⟩

theorem blocksize_dvd_aligned (size n blocksize : ℕ) :
    blocksize ∣ alignedBlockSize size n blocksize := Dvd.intro_left _ rfl

theorem unlimitedFecBlocks_eq (size m : ℕ) (hm : 0 < m) :
    unlimitedFecBlocks size m = sliceCount m size := (sliceCount_eq m size hm).symm

/-- Whatever the three roundings do, the last block starts inside a non-empty payload. -/
theorem last_start_lt (size blocksize M n : ℕ) (hb : 0 < blocksize) (hM : 71 ≤ M)
    (hn : 0 < n) (hn4 : n ≤ 4) (hsize : 0 < size) (hmore : (n - 1) * (M * blocksize) < size) :
    (n - 1) * alignedBlockSize size n blocksize < size := by
  obtain ⟨-, hup⟩ := alignedBlockSize_bounds size n blocksize hb
  have hM71 : 71 * blocksize ≤ M * blocksize := Nat.mul_le_mul_right _ hM
  have hcases : n = 1 ∨ n = 2 ∨ n = 3 ∨ n = 4 := by omega
  rcases hcases with rfl | rfl | rfl | rfl <;> omega

theorem aligned_pos (size blocksize M n : ℕ) (hb : 0 < blocksize) (hM : 71 ≤ M) (hn : 0 < n)
    (hn4 : n ≤ 4) (hsize : 0 < size) (hmore : (n - 1) * (M * blocksize) < size) :
    0 < alignedBlockSize size n blocksize := by
  obtain ⟨hlow, -⟩ := alignedBlockSize_bounds size n blocksize hb
  have hM71 : 71 * blocksize ≤ M * blocksize := Nat.mul_le_mul_right _ hM
  have hcases : n = 1 ∨ n = 2 ∨ n = 3 ∨ n = 4 := by omega
  rcases hcases with rfl | rfl | rfl | rfl <;> omega

/-- With at most `n * M` packets' worth of bytes no block needs more than `M` packets. -/
theorem block_shards_le (size blocksize M n : ℕ) (hb : 4 ≤ blocksize) (hn : 0 < n) (hn4 : n ≤ 4)
    (hsize : size ≤ n * (M * blocksize)) :
    alignedBlockSize size n blocksize ≤ M * blocksize ∧
      size - (n - 1) * alignedBlockSize size n blocksize ≤ M * blocksize := by
  have hdiv : size / n ≤ M * blocksize := Nat.div_le_of_le_mul hsize
  have hceil : sliceCount blocksize (size / n) ≤ M :=
    (sliceCount_le_iff blocksize _ M (by omega)).mpr hdiv
  have ha : alignedBlockSize size n blocksize = sliceCount blocksize (size / n) * blocksize := by
    rw [sliceCount_eq blocksize _ (by omega)]
    rfl
  have hle : alignedBlockSize size n blocksize ≤ M * blocksize := by
    rw [ha]
    exact Nat.mul_le_mul_right _ hceil
  refine ⟨hle, ?_⟩
  obtain ⟨hlow, -⟩ := alignedBlockSize_bounds size n blocksize (by omega)
  -- either the first blocks reach past `size / n`, or it was a whole number of packets already
  by_cases hexact : alignedBlockSize size n blocksize = size / n
  · by_cases hfull : size / n = M * blocksize
    · have hcases : n = 1 ∨ n = 2 ∨ n = 3 ∨ n = 4 := by omega
      rcases hcases with rfl | rfl | rfl | rfl <;> omega
    · obtain ⟨k, hk⟩ := blocksize_dvd_aligned size n blocksize
      have hkM : k < M := by
        by_contra hge
        have hmul : blocksize * M ≤ blocksize * k := Nat.mul_le_mul_left _ (by omega)
        have hcomm := Nat.mul_comm blocksize M
        omega
      have hroom : blocksize * k + blocksize ≤ M * blocksize := by
        rw [← Nat.mul_succ, Nat.mul_comm M]
        exact Nat.mul_le_mul_left _ hkM
      have hcases : n = 1 ∨ n = 2 ∨ n = 3 ∨ n = 4 := by omega
      rcases hcases with rfl | rfl | rfl | rfl <;> omega
  · have hcases : n = 1 ∨ n = 2 ∨ n = 3 ∨ n = 4 := by omega
    rcases hcases with rfl | rfl | rfl | rfl <;> omega

/-! ## The split -/

theorem checkedInt_ok (v : ℕ) (h : v ≤ intMax) : checkedInt v = .ok v := if_pos h

theorem checkedInt_overflow (v : ℕ) (h : intMax < v) : checkedInt v = .error .signedOverflow :=
  if_neg (by omega)

theorem mapM_ok {α β : Type} (f : α → Except Fault β) (g : α → β) (l : List α)
    (h : ∀ x ∈ l, f x = .ok (g x)) : l.mapM f = .ok (l.map g) := by
  induction l with
  | nil => rfl
  | cons x l ih =>
    rw [List.mapM_cons, h x (List.mem_cons_self ..),
      ih (fun y hy => h y (List.mem_cons_of_mem x hy))]
    rfl

/-- The blocks, once the last one is known to start inside the payload. -/
def cutBlocks (payload : Bytes) (n a : ℕ) : List Bytes :=
  ((List.range (n - 1)).map fun x => (payload.drop (x * a)).take a) ++ [payload.drop ((n - 1) * a)]

theorem fecBlocks_eq (payload : Bytes) (n a : ℕ) (hn : 0 < n)
    (hin : (n - 1) * a < payload.length) :
    (List.range n).mapM (fecBlock payload n a) = .ok (cutBlocks payload n a) := by
  have hstart : ∀ x, x ≤ n - 1 → ¬ payload.length < x * a := by
    intro x hx
    have := Nat.mul_le_mul_right a hx
    omega
  rw [mapM_ok _ (fun x => if x = n - 1 then payload.drop (x * a)
    else (payload.drop (x * a)).take a)]
  · obtain ⟨k, rfl⟩ : ∃ k, n = k + 1 := ⟨n - 1, by omega⟩
    unfold cutBlocks
    rw [Nat.add_sub_cancel, List.range_succ, List.map_append]
    congr 2
    · apply List.map_congr_left
      intro x hx
      have hxk := List.mem_range.mp hx
      rw [if_neg (by omega)]
    · simp
  · intro x hx
    have hxn := List.mem_range.mp hx
    unfold fecBlock substrFrom substr
    split_ifs with h1 h2
    · exact absurd h2 (hstart x (by omega))
    · rfl
    · rename_i h2
      exact absurd h2 (hstart x (by omega))
    · rfl

structure Blocks (blocks : List Bytes) (payload : Bytes) (blocksize : ℕ) : Prop where
  nonempty : ∀ b ∈ blocks, b ≠ []
  whole : blocks.flatten = payload
  packets : ∃ front last, blocks = front ++ [last] ∧ ∀ b ∈ front, blocksize ∣ b.length

theorem cutBlocks_length (payload : Bytes) (n a : ℕ) (hn : 0 < n) :
    (cutBlocks payload n a).length = n := by
  simp only [cutBlocks, List.length_append, List.length_map, List.length_range, List.length_cons,
    List.length_nil]
  omega

theorem cutBlocks_sizes (payload : Bytes) (n a : ℕ) (hin : (n - 1) * a < payload.length)
    (b : Bytes) (hb : b ∈ cutBlocks payload n a) :
    (b.length = a ∧ 0 < n - 1) ∨ b.length = payload.length - (n - 1) * a := by
  rcases List.mem_append.mp hb with hb | hb
  · obtain ⟨x, hx, rfl⟩ := List.mem_map.mp hb
    have hxn := List.mem_range.mp hx
    have hmul := Nat.mul_le_mul_right a (by omega : x + 1 ≤ n - 1)
    rw [Nat.succ_mul] at hmul
    left
    refine ⟨?_, by omega⟩
    rw [List.length_take, List.length_drop]
    omega
  · right
    rw [List.mem_singleton.mp hb, List.length_drop]

theorem cutBlocks_blocks (payload : Bytes) (n a blocksize : ℕ)
    (hin : (n - 1) * a < payload.length) (ha : 0 < a) (hdvd : blocksize ∣ a) :
    Blocks (cutBlocks payload n a) payload blocksize := by
  refine ⟨?_, ?_, _, _, rfl, ?_⟩
  · intro b hb hnil
    rw [hnil] at hb
    rcases cutBlocks_sizes payload n a hin [] hb with ⟨h, -⟩ | h <;>
      rw [List.length_nil] at h <;> omega
  · unfold cutBlocks
    rw [List.flatten_append, flatten_pieces, List.flatten_cons, List.flatten_nil, List.append_nil,
      List.take_append_drop]
  · intro b hb
    rcases cutBlocks_sizes payload n a hin b (List.mem_append_left _ hb) with ⟨h, -⟩ | h
    · rw [h]
      exact hdvd
    · obtain ⟨x, hx, rfl⟩ := List.mem_map.mp hb
      have hxn := List.mem_range.mp hx
      have hmul := Nat.mul_le_mul_right a (by omega : x + 1 ≤ n - 1)
      rw [Nat.succ_mul] at hmul
      rw [List.length_take, List.length_drop, Nat.min_eq_left (by omega)]
      exact hdvd

theorem Blocks.boundary {blocks : List Bytes} {payload : Bytes} {blocksize : ℕ}
    (h : Blocks blocks payload blocksize) (i : ℕ) (hi : i < blocks.length) :
    blocksize ∣ (blocks.take i).flatten.length := by
  obtain ⟨front, last, rfl, hf⟩ := h.packets
  have hle : i ≤ front.length := by
    rw [List.length_append, List.length_singleton] at hi
    omega
  rw [List.take_append_of_le_length hle]
  exact dvd_length_flatten blocksize _ fun b hb => hf b (List.mem_of_mem_take hb)

/-- What the split returns when the `int` product is in range. -/
theorem splitFecBlocks_ok (payload : Bytes) (blocksize f : ℕ) (hb : 4 ≤ blocksize) (hf : f ≤ 255)
    (hne : payload ≠ []) (hint : maxDataShardsPerFecBlock f * blocksize ≤ intMax) :
    ∃ s, splitFecBlocks payload blocksize f = .ok s ∧ 0 < s.fecBlocksNeeded ∧
      s.fecBlocksNeeded ≤ maxFecBlocks ∧ s.fecBlocks.length = s.fecBlocksNeeded ∧
      Blocks s.fecBlocks payload blocksize ∧
      ((s.fecPercentage = f ∧ unlimitedFecBlocks payload.length
          (maxDataShardsPerFecBlock f * blocksize) ≤ maxFecBlocks ∧
          ∀ b ∈ s.fecBlocks, b.length ≤ maxDataShardsPerFecBlock f * blocksize) ∨
        (s.fecPercentage = 0 ∧ maxFecBlocks < unlimitedFecBlocks payload.length
          (maxDataShardsPerFecBlock f * blocksize))) := by
  obtain ⟨hM, -, -⟩ := maxDataShards_bounds f hf
  have hsize : 0 < payload.length := List.length_pos_iff.mpr hne
  have hm : 0 < maxDataShardsPerFecBlock f * blocksize := Nat.mul_pos (by omega) (by omega)
  set m := maxDataShardsPerFecBlock f * blocksize with hmdef
  set needed := unlimitedFecBlocks payload.length m with hneeded
  have hceil : needed = sliceCount m payload.length := unlimitedFecBlocks_eq _ _ hm
  have hpos : 0 < needed := by
    rw [hceil]
    exact sliceCount_pos m _ hm hsize
  set n := if maxFecBlocks < needed then maxFecBlocks else needed with hn
  have hn0 : 0 < n := by
    rw [hn]
    unfold maxFecBlocks at *
    split_ifs <;> omega
  have hn4 : n ≤ maxFecBlocks := by
    rw [hn]
    split_ifs <;> omega
  have hmore : (n - 1) * m < payload.length := by
    rw [← lt_sliceCount_iff m _ _ hm, ← hceil, hn]
    unfold maxFecBlocks at *
    split_ifs <;> omega
  have hin := last_start_lt payload.length blocksize _ n (by omega) hM hn0 hn4 hsize hmore
  set a := alignedBlockSize payload.length n blocksize with ha
  have hapos : 0 < a := aligned_pos payload.length blocksize _ n (by omega) hM hn0 hn4 hsize hmore
  refine ⟨⟨if maxFecBlocks < needed then 0 else f, n, a, cutBlocks payload n a⟩, ?_, hn0, hn4,
    cutBlocks_length payload n a hn0,
    cutBlocks_blocks payload n a blocksize hin hapos (blocksize_dvd_aligned _ _ _), ?_⟩
  · unfold splitFecBlocks
    rw [← hmdef, checkedInt_ok m hint]
    simp only [bind, Except.bind, pure, Except.pure, ← hneeded, ← hn, ← ha]
    rw [fecBlocks_eq payload n a hn0 hin]
  · by_cases hskip : maxFecBlocks < needed
    · exact Or.inr ⟨if_pos hskip, hskip⟩
    · have hnn : n = needed := if_neg hskip
      have hroom : payload.length ≤ n * m := by
        rw [hnn, ← sliceCount_le_iff m _ _ hm, ← hceil]
      obtain ⟨hfirst, hlast⟩ :=
        block_shards_le payload.length blocksize _ n hb hn0 hn4 hroom
      rw [← ha] at hfirst hlast
      refine Or.inl ⟨if_neg hskip, by omega, ?_⟩
      intro b hbm
      rcases cutBlocks_sizes payload n a hin b hbm with ⟨h, -⟩ | h <;> omega

end Sunshine.Video
