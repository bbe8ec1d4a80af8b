import Sunshine.Lib.Cyclic
import Sunshine.Lib.Transitions
import Sunshine.Video.Transmit

/-! The RTP numbers of a session's shards over runs of the video broadcast thread (`videoBroadcastThread`, from the copy
of `lowseq` to the `catch`).

A frame takes `lowseq` into a local counter that its blocks advance, and writes it back when all blocks are done, also
where a send deadline ended the frame; the exception that the thread catches leaves it as it was. -/
namespace Sunshine.Video
open Slices Bytes Transitions Cyclic
set_option autoImplicit false

/-- A frame as it is popped, with what becomes of it: whether it is stale, which blocks end with the deadline, and
behind how many numbered shards of which block the exception is thrown. -/
structure NumberedFrame where
  session : ℕ
  isIdr : Bool
  stale : Bool
  config : SendConfig
  frameIndex : ℕ
  split : FecSplit
  timesOut : ℕ → Bool
  throws : ℕ → Option ℕ

/-- A shard with a number; the parity shards' other fields are coded. -/
structure NumberedShard where
  isData : Bool
  header : PacketHeader
  deriving DecidableEq

/-- `lowseq` is an `int`, by its bits. `lost` counts the shards whose numbers were not written back. -/
structure Numbering where
  lowseq : ℕ → ℕ
  dropUntilIdr : ℕ → Bool
  built : ℕ → List NumberedShard
  lost : ℕ → ℕ

def Numbering.initial : Numbering := ⟨fun _ => 0, fun _ => false, fun _ => [], fun _ => 0⟩

/-- What the blocks of a frame come to; without `lowseq` they were left through the exception. -/
structure BlocksBuilt where
  shards : List NumberedShard
  lowseq : Option ℕ
  timedOut : Bool

def numberedShards (fec : Fec) : List NumberedShard :=
  fec.shards.mapIdx fun x packet => ⟨x < fec.dataShards, packet.header⟩

section

variable (rs : List Packet → ℕ → Packet)

/-- The lambda over the blocks; behind the deadline they are passed over. -/
def buildBlocks (frame : NumberedFrame) : ℕ → ℕ → List Bytes → BlocksBuilt
  | _, lowseq, [] => ⟨[], some lowseq, false⟩
  | blockIndex, lowseq, block :: rest =>
    let fec := sendBlock rs frame.config frame.frameIndex frame.split.fecPercentage frame.split.fecBlocksNeeded
      blockIndex lowseq block
    let shards := numberedShards fec
    match frame.throws blockIndex with
    | some count => ⟨shards.take count, none, frame.timesOut blockIndex⟩
    | none =>
      if frame.timesOut blockIndex then ⟨shards, some (lowseq + fec.shards.length), true⟩
      else
        let later := buildBlocks frame (blockIndex + 1) (lowseq + fec.shards.length) rest
        ⟨shards ++ later.shards, later.lowseq, later.timedOut⟩

/-- A frame that is not dropped. -/
def buildFrame (s : Numbering) (frame : NumberedFrame) : BlocksBuilt :=
  buildBlocks rs frame 0 (s.lowseq frame.session) frame.split.fecBlocks

/-- The frame waits for no IDR frame. -/
def NumberedFrame.passes (s : Numbering) (frame : NumberedFrame) : Bool :=
  !frame.stale && (!s.dropUntilIdr frame.session || frame.isIdr)

def numberFrame (s : Numbering) (frame : NumberedFrame) : Numbering :=
  if frame.stale then { s with dropUntilIdr := Function.update s.dropUntilIdr frame.session true }
  else if s.dropUntilIdr frame.session && !frame.isIdr then s
  else
    let blocks := buildFrame rs s frame
    let s :=
      { s with
        dropUntilIdr := Function.update s.dropUntilIdr frame.session blocks.timedOut
        built := Function.update s.built frame.session (s.built frame.session ++ blocks.shards) }
    match blocks.lowseq with
    | some lowseq => { s with lowseq := Function.update s.lowseq frame.session (lowseq % 2 ^ 32) }
    | none => { s with lost := Function.update s.lost frame.session (s.lost frame.session + blocks.shards.length) }

/-! ## What is claimed -/

def rtpNumbers (shards : List NumberedShard) : List ℕ := shards.map fun shard => shard.header.sequenceNumber

/-- The shards of a session are numbered without a hole, no number comes twice among 65536 of them, and the packet
index of a data packet agrees with its number. -/
structure WellNumbered (shards : List NumberedShard) : Prop where
  consecutive : Consecutive (2 ^ 16) (rtpNumbers shards)
  unique : ∀ i j, i < j → j < shards.length → j - i ≤ 65535 → (rtpNumbers shards)[i]? ≠ (rtpNumbers shards)[j]?
  packetIndex : ∀ shard ∈ shards, shard.isData = true →
    (shard.header.streamPacketIndex >>> 8) % 2 ^ 16 = shard.header.sequenceNumber

/-- No shard of the frame is numbered behind shards of its session whose numbers were not written back. -/
def NothingLost (s : Numbering) (frame : NumberedFrame) : Prop :=
  frame.passes s = true → (buildFrame rs s frame).shards ≠ [] → 2 ^ 16 ∣ s.lost frame.session

end

/-! ## One frame -/

section Frame

variable (rs : List Packet → ℕ → Packet) (frame : NumberedFrame)

theorem rtpNumbers_append (shards more : List NumberedShard) :
    rtpNumbers (shards ++ more) = rtpNumbers shards ++ rtpNumbers more :=
  List.map_append

theorem rtpNumbers_length (shards : List NumberedShard) : (rtpNumbers shards).length = shards.length :=
  List.length_map _

theorem numberedShards_length (fec : Fec) : (numberedShards fec).length = fec.shards.length :=
  List.length_mapIdx

theorem rtpNumbers_sendBlock (cfg : SendConfig) (frameIndex fecPercentage fecBlocksNeeded blockIndex lowseq : ℕ)
    (block : Bytes) :
    rtpNumbers (numberedShards
        (sendBlock rs cfg frameIndex fecPercentage fecBlocksNeeded blockIndex lowseq block)) =
      numbers (2 ^ 16) lowseq
        (sendBlock rs cfg frameIndex fecPercentage fecBlocksNeeded blockIndex lowseq block).shards.length := by
  apply List.ext_getElem?
  intro i
  generalize hfec : sendBlock rs cfg frameIndex fecPercentage fecBlocksNeeded blockIndex lowseq block = fec
  unfold rtpNumbers numberedShards
  rw [List.getElem?_map, List.getElem?_mapIdx]
  cases hshard : fec.shards[i]? with
  | none =>
    have hlength := List.getElem?_eq_none_iff.mp hshard
    rw [List.getElem?_eq_none (by rw [numbers_length]; exact hlength)]
    rfl
  | some packet =>
    have hlt := (List.getElem?_eq_some_iff.mp hshard).1
    rw [numbers_getElem? i hlt]
    unfold sendBlock at hfec
    rw [← hfec, List.getElem?_mapIdx] at hshard
    obtain ⟨before, _, hheader⟩ := Option.map_eq_some_iff.mp hshard
    rw [← hheader]
    rfl

/-- A data packet keeps the index that was written into it before the shards were made. -/
theorem numberedShards_packetIndex (cfg : SendConfig)
    (frameIndex fecPercentage fecBlocksNeeded blockIndex lowseq : ℕ) (block : Bytes) :
    ∀ shard ∈ numberedShards
        (sendBlock rs cfg frameIndex fecPercentage fecBlocksNeeded blockIndex lowseq block),
      shard.isData = true → (shard.header.streamPacketIndex >>> 8) % 2 ^ 16 = shard.header.sequenceNumber := by
  intro shard hshard hdata
  have hb : 0 < cfg.blocksize := Nat.add_pos_right _ (by decide)
  obtain ⟨x, hx, rfl⟩ := List.mem_mapIdx.mp hshard
  have hx' : x < sliceCount cfg.blocksize block.length := by
    rw [← sendBlock_dataShards rs cfg frameIndex fecPercentage fecBlocksNeeded blockIndex lowseq block hb]
    simpa using hdata
  obtain ⟨packet, hpacket, hheader⟩ :=
    sendBlock_shard rs cfg frameIndex fecPercentage fecBlocksNeeded blockIndex lowseq block hb x hx'
  rw [List.getElem?_eq_getElem hx] at hpacket
  obtain rfl := Option.some.inj hpacket
  dsimp only
  rw [hheader]
  show ((((lowseq + x) <<< 8) % 2 ^ 32) >>> 8) % 2 ^ 16 = (lowseq + x) % 2 ^ 16
  rw [Nat.shiftLeft_eq, Nat.shiftRight_eq_div_pow]
  omega

theorem buildBlocks_numbers (blockIndex lowseq : ℕ) (blocks : List Bytes) :
    rtpNumbers (buildBlocks rs frame blockIndex lowseq blocks).shards =
        numbers (2 ^ 16) lowseq (buildBlocks rs frame blockIndex lowseq blocks).shards.length ∧
      ∀ lowseq' ∈ (buildBlocks rs frame blockIndex lowseq blocks).lowseq,
        lowseq' = lowseq + (buildBlocks rs frame blockIndex lowseq blocks).shards.length := by
  induction blocks generalizing blockIndex lowseq with
  | nil =>
    refine ⟨rfl, ?_⟩
    rintro _ ⟨⟩
    rfl
  | cons block rest ih =>
    have hblock := rtpNumbers_sendBlock rs frame.config frame.frameIndex frame.split.fecPercentage
      frame.split.fecBlocksNeeded blockIndex lowseq block
    unfold buildBlocks
    dsimp only
    generalize sendBlock rs frame.config frame.frameIndex frame.split.fecPercentage frame.split.fecBlocksNeeded
      blockIndex lowseq block = fec at hblock ⊢
    cases hthrows : frame.throws blockIndex with
    | some count =>
      refine ⟨?_, nofun⟩
      dsimp only
      rw [rtpNumbers, List.map_take, ← rtpNumbers, hblock, List.length_take, numberedShards_length]
      exact take_numbers
    | none =>
      dsimp only
      by_cases htimesOut : frame.timesOut blockIndex = true
      · rw [if_pos htimesOut]
        refine ⟨?_, ?_⟩
        · rw [numberedShards_length]
          exact hblock
        · rintro _ ⟨⟩
          rw [numberedShards_length]
      · rw [if_neg htimesOut]
        obtain ⟨hlater, hlowseq⟩ := ih (blockIndex + 1) (lowseq + fec.shards.length)
        refine ⟨?_, fun lowseq' hmem => ?_⟩
        · dsimp only
          rw [rtpNumbers_append, hblock, hlater, List.length_append, numberedShards_length, numbers_add]
        · dsimp only
          rw [hlowseq lowseq' hmem, List.length_append, numberedShards_length, Nat.add_assoc]

theorem buildBlocks_packetIndex (blockIndex lowseq : ℕ) (blocks : List Bytes) :
    ∀ shard ∈ (buildBlocks rs frame blockIndex lowseq blocks).shards,
      shard.isData = true → (shard.header.streamPacketIndex >>> 8) % 2 ^ 16 = shard.header.sequenceNumber := by
  induction blocks generalizing blockIndex lowseq with
  | nil => exact List.forall_mem_nil _
  | cons block rest ih =>
    have hblock := numberedShards_packetIndex rs frame.config frame.frameIndex frame.split.fecPercentage
      frame.split.fecBlocksNeeded blockIndex lowseq block
    unfold buildBlocks
    dsimp only
    cases hthrows : frame.throws blockIndex with
    | some count => exact fun shard hshard => hblock shard (List.mem_of_mem_take hshard)
    | none =>
      dsimp only
      by_cases htimesOut : frame.timesOut blockIndex = true
      · rw [if_pos htimesOut]
        exact hblock
      · rw [if_neg htimesOut]
        intro shard hshard
        cases List.mem_append.mp hshard with
        | inl hmem => exact hblock shard hmem
        | inr hmem => exact ih _ _ shard hmem

end Frame

/-! ## Runs -/

section Runs

variable (rs : List Packet → ℕ → Packet) {s : Numbering} {frame : NumberedFrame}

/-- What any frame keeps: the counter is behind by what was lost, and the numbers start with zero. -/
structure Counted (lowseq lost : ℕ) (built : List NumberedShard) : Prop where
  counter : (lowseq + lost) % 2 ^ 16 = built.length % 2 ^ 16
  lost_le : lost ≤ built.length
  first : ∀ number ∈ (rtpNumbers built).head?, number = 0 % 2 ^ 16
  packetIndex : ∀ shard ∈ built,
    shard.isData = true → (shard.header.streamPacketIndex >>> 8) % 2 ^ 16 = shard.header.sequenceNumber

variable {lowseq lost : ℕ} {built shards : List NumberedShard}

/-- With its numbers consecutive, a session is well numbered. -/
theorem Counted.numbered_iff (h : Counted lowseq lost built) :
    WellNumbered built ↔ Consecutive (2 ^ 16) (rtpNumbers built) := by
  constructor
  · exact fun hnumbered => hnumbered.consecutive
  · intro hconsecutive
    have heq := hconsecutive.eq_numbers h.first
    rw [rtpNumbers_length] at heq
    refine ⟨hconsecutive, fun i j hlt hj hnear => ?_, h.packetIndex⟩
    rw [heq]
    exact numbers_ne hj hlt (by omega)

/-- The shards of a frame are numbered from the counter on. -/
theorem Counted.append (h : Counted lowseq lost built)
    (hnumbers : rtpNumbers shards = numbers (2 ^ 16) lowseq shards.length)
    (hindex : ∀ shard ∈ shards,
      shard.isData = true → (shard.header.streamPacketIndex >>> 8) % 2 ^ 16 = shard.header.sequenceNumber)
    {lowseq' lost' : ℕ} (hcounter : (lowseq' + lost') % 2 ^ 16 = (lowseq + lost + shards.length) % 2 ^ 16)
    (hlost : lost' ≤ lost + shards.length) : Counted lowseq' lost' (built ++ shards) where
  counter := by
    rw [hcounter, Nat.add_mod, h.counter, ← Nat.add_mod, List.length_append]
  lost_le := by
    rw [List.length_append]
    exact hlost.trans (Nat.add_le_add_right h.lost_le _)
  first := by
    intro number hnumber
    rw [rtpNumbers_append] at hnumber
    cases built with
    | nil =>
      -- nothing was lost yet
      have hzero : lowseq % 2 ^ 16 = 0 % 2 ^ 16 := by
        have hcounter := h.counter
        have hle := h.lost_le
        simp only [List.length_nil] at hcounter hle
        rw [Nat.le_zero.mp hle] at hcounter
        exact hcounter
      cases shards with
      | nil => cases hnumber
      | cons shard shards =>
        rw [hnumbers, List.length_cons, numbers_succ] at hnumber
        rw [← hzero]
        exact (Option.some.inj hnumber).symm
    | cons shard built => exact h.first number hnumber
  packetIndex := by
    intro shard hshard
    cases List.mem_append.mp hshard with
    | inl hmem => exact h.packetIndex shard hmem
    | inr hmem => exact hindex shard hmem

/-- The numbers go on where they ended exactly if nothing was lost. -/
theorem Counted.append_iff (h : Counted lowseq lost built) (hbuilt : WellNumbered built)
    (hnumbers : rtpNumbers shards = numbers (2 ^ 16) lowseq shards.length) :
    Consecutive (2 ^ 16) (rtpNumbers (built ++ shards)) ↔ (shards ≠ [] → 2 ^ 16 ∣ lost) := by
  have heq := hbuilt.consecutive.eq_numbers h.first
  rw [rtpNumbers_length] at heq
  have hcounter := h.counter
  have hle := h.lost_le
  have hempty : shards ≠ [] ↔ shards.length ≠ 0 := not_congr List.length_eq_zero_iff.symm
  rw [rtpNumbers_append, heq, hnumbers, consecutive_append_iff, hempty]
  omega

/-- Stale frames and frames that wait for an IDR frame are not numbered. -/
theorem numberFrame_dropped (hdropped : frame.passes s = false) :
    (numberFrame rs s frame).lowseq = s.lowseq ∧ (numberFrame rs s frame).built = s.built ∧
      (numberFrame rs s frame).lost = s.lost := by
  unfold NumberedFrame.passes at hdropped
  unfold numberFrame
  split_ifs with hstale hdrop
  · exact ⟨rfl, rfl, rfl⟩
  · exact ⟨rfl, rfl, rfl⟩
  · simp_all

theorem numberFrame_passes (hpasses : frame.passes s = true) :
    (numberFrame rs s frame).built =
        Function.update s.built frame.session (s.built frame.session ++ (buildFrame rs s frame).shards) ∧
      (((buildFrame rs s frame).lowseq = none ∧ (numberFrame rs s frame).lowseq = s.lowseq ∧
          (numberFrame rs s frame).lost = Function.update s.lost frame.session
            (s.lost frame.session + (buildFrame rs s frame).shards.length)) ∨
        ∃ lowseq, (buildFrame rs s frame).lowseq = some lowseq ∧
          (numberFrame rs s frame).lowseq = Function.update s.lowseq frame.session (lowseq % 2 ^ 32) ∧
          (numberFrame rs s frame).lost = s.lost) := by
  unfold NumberedFrame.passes at hpasses
  unfold numberFrame
  split_ifs with hstale hdrop
  · simp [hstale] at hpasses
  · simp_all
  · dsimp only
    cases (buildFrame rs s frame).lowseq with
    | none => exact ⟨rfl, .inl ⟨rfl, rfl, rfl⟩⟩
    | some lowseq => exact ⟨rfl, .inr ⟨lowseq, rfl, rfl, rfl⟩⟩

theorem counted_numberFrame (h : ∀ session, Counted (s.lowseq session) (s.lost session) (s.built session))
    (frame : NumberedFrame) (session : ℕ) :
    Counted ((numberFrame rs s frame).lowseq session) ((numberFrame rs s frame).lost session)
      ((numberFrame rs s frame).built session) := by
  cases hpasses : frame.passes s with
  | false =>
    obtain ⟨hlowseq, hbuilt, hlost⟩ := numberFrame_dropped rs hpasses
    rw [hlowseq, hbuilt, hlost]
    exact h session
  | true =>
    obtain ⟨hbuilt, hcounters⟩ := numberFrame_passes rs hpasses
    by_cases hsession : session = frame.session
    · subst hsession
      have hnumbers := buildBlocks_numbers rs frame 0 (s.lowseq frame.session) frame.split.fecBlocks
      have hindex := buildBlocks_packetIndex rs frame 0 (s.lowseq frame.session) frame.split.fecBlocks
      rw [hbuilt, Function.update_self]
      rcases hcounters with ⟨_, hlowseq, hlost⟩ | ⟨lowseq, hsome, hlowseq, hlost⟩
      · rw [hlowseq, hlost, Function.update_self]
        refine (h frame.session).append hnumbers.1 hindex ?_ (Nat.le_refl _)
        rw [Nat.add_assoc]
        rfl
      · rw [hlowseq, hlost, Function.update_self]
        refine (h frame.session).append hnumbers.1 hindex ?_ (Nat.le_add_right _ _)
        rw [hnumbers.2 lowseq hsome]
        omega
    · rw [hbuilt, Function.update_of_ne hsession]
      rcases hcounters with ⟨_, hlowseq, hlost⟩ | ⟨lowseq, _, hlowseq, hlost⟩
      · rw [hlowseq, hlost, Function.update_of_ne hsession]
        exact h session
      · rw [hlowseq, hlost, Function.update_of_ne hsession]
        exact h session

theorem counted_initial (session : ℕ) : Counted (Numbering.initial.lowseq session)
    (Numbering.initial.lost session) (Numbering.initial.built session) :=
  ⟨rfl, Nat.le_refl _, nofun, nofun⟩

/-- One frame leaves the sessions well numbered exactly if it numbers nothing behind lost numbers. -/
theorem wellNumbered_numberFrame_iff
    (h : ∀ session, Counted (s.lowseq session) (s.lost session) (s.built session))
    (hgood : ∀ session, WellNumbered (s.built session)) (frame : NumberedFrame) :
    (∀ session, WellNumbered ((numberFrame rs s frame).built session)) ↔ NothingLost rs s frame := by
  unfold NothingLost
  cases hpasses : frame.passes s with
  | false =>
    rw [(numberFrame_dropped rs hpasses).2.1]
    exact iff_of_true hgood nofun
  | true =>
    have hbuilt := (numberFrame_passes rs hpasses).1
    have hnumbers := (buildBlocks_numbers rs frame 0 (s.lowseq frame.session) frame.split.fecBlocks).1
    have happend := (h frame.session).append_iff (hgood frame.session) hnumbers
    have hcounted := counted_numberFrame rs h frame frame.session
    have hown : WellNumbered ((numberFrame rs s frame).built frame.session) ↔
        ((buildFrame rs s frame).shards ≠ [] → 2 ^ 16 ∣ s.lost frame.session) := by
      rw [hcounted.numbered_iff, hbuilt, Function.update_self]
      exact happend
    constructor
    · exact fun hall _ => hown.mp (hall frame.session)
    · intro hlost session
      by_cases hsession : session = frame.session
      · rw [hsession]
        exact hown.mpr (hlost rfl)
      · rw [hbuilt, Function.update_of_ne hsession]
        exact hgood session

/-- In all states of a run the shards of each session are well numbered exactly if no frame is numbered behind one that
was left through the exception with its numbers used, unless 65536 times any number of them were. -/
theorem wellNumbered_iff (frames : List NumberedFrame) :
    (∀ l, l <+: frames → ∀ session, WellNumbered ((l.foldl (numberFrame rs) .initial).built session)) ↔
      Runs (NothingLost rs) (numberFrame rs) .initial frames :=
  (runs_true frames).always_iff
    (fun s : Numbering => ∀ session, Counted (s.lowseq session) (s.lost session) (s.built session))
    (fun s : Numbering => ∀ session, WellNumbered (s.built session)) counted_initial
    (fun session => (counted_initial session).numbered_iff.mpr List.isChain_nil)
    (fun _ frame h _ => counted_numberFrame rs h frame)
    (fun _ frame h hgood _ => wellNumbered_numberFrame_iff rs h hgood frame)

end Runs

/-! ## A frame left through the exception -/

/-- One data packet, and no parity. -/
def onePacket (throws : ℕ → Option ℕ) : NumberedFrame where
  session := 0
  isIdr := true
  stale := false
  config := { packetsize := 32, fecPercentage := 0 }
  frameIndex := 1
  split := { fecPercentage := 0, fecBlocksNeeded := 1, alignedSize := 48, fecBlocks := [[1]] }
  timesOut := fun _ => false
  throws := throws

/-- The exception is thrown behind the only shard, whose number the next frame's shard takes again. -/
def thrown : List NumberedFrame := [onePacket fun _ => some 1, onePacket fun _ => none]

theorem not_wellNumbered : ¬∀ session,
    WellNumbered ((thrown.foldl (numberFrame fun _ _ => default) .initial).built session) := by
  intro hall
  have hnumbers : rtpNumbers ((thrown.foldl (numberFrame fun _ _ => default) .initial).built 0) = [0, 0] := by
    decide +kernel
  have hconsecutive := (hall 0).consecutive
  rw [hnumbers] at hconsecutive
  have hnext := (List.isChain_cons.mp hconsecutive).1 0 rfl
  exact absurd hnext (by decide)

end Sunshine.Video
