import Mathlib.Data.List.Infix
import Mathlib.Tactic.Ring

/-! The paced send of a frame's shards (`videoBroadcastThread`, from the rate limits to the batch
loop).

`sendShards` is the code with a send outcome for every batch. `schedule` is the same loop when no
send times out; up to its first timeout a run is a prefix of the schedule (`sendShards_agree`), and
what the code does after it depends on where in its block the failing batch lies. -/
namespace Sunshine.Video
set_option autoImplicit false

/-! ## The loop -/

/-- Packets per batch: less than 64K bytes, at most 64 packets. -/
def sendBatchSize (blocksize : ℕ) : ℕ := max 1 (min 64 (64 * 1024 / blocksize))

def ratecontrolPacketsIn1ms (linkBps rateCapPct blocksize : ℕ) : ℕ :=
  let packets := linkBps * rateCapPct / 100 / 1000 / blocksize / 8
  if packets < 1 then 1 else packets

def nextPacingBatchSize (pending maximumBatchSize intervalSent intervalLimit : ℕ) : ℕ :=
  if pending = 0 ∨ maximumBatchSize = 0 ∨ intervalLimit = 0 ∨ intervalLimit ≤ intervalSent then 0
  else min pending (min maximumBatchSize (intervalLimit - intervalSent))

structure Batch where
  block : ℕ
  offset : ℕ
  count : ℕ
  deriving DecidableEq, Repr

/-- The locals of the send loop, and the batches handed to the socket so far. -/
structure SendState where
  nextShardToSend : ℕ := 0
  groupPacketsSent : ℕ := 0
  framePacketsSent : ℕ := 0
  frameSendTimedOut : Bool := false
  handed : List Batch := []
  deriving DecidableEq, Repr

structure PacingConfig where
  sendBatchSize : ℕ
  ratecontrolPacketsIn1ms : ℕ
  batch_pos : 0 < sendBatchSize
  limit_pos : 0 < ratecontrolPacketsIn1ms

def pacingConfig (linkBps rateCapPct blocksize : ℕ) : PacingConfig where
  sendBatchSize := sendBatchSize blocksize
  ratecontrolPacketsIn1ms := ratecontrolPacketsIn1ms linkBps rateCapPct blocksize
  batch_pos := Nat.lt_of_lt_of_le Nat.one_pos (Nat.le_max_left _ _)
  limit_pos := by
    unfold ratecontrolPacketsIn1ms
    simp only
    split_ifs <;> omega

/-- The sleep before a new group starts its count again. -/
def pace (cfg : PacingConfig) (st : SendState) : SendState :=
  if cfg.ratecontrolPacketsIn1ms ≤ st.groupPacketsSent ∨ st.framePacketsSent = 0 then
    { st with groupPacketsSent := 0 }
  else st

/-- The `while` loop at shard `x`. `timesOut k` is whether the `k`-th batch of the frame misses the
deadline. -/
def sendPending (cfg : PacingConfig) (timesOut : ℕ → Bool) (block x : ℕ) :
    ℕ → SendState → SendState
  | 0, st => st
  | fuel + 1, st =>
    if x < st.nextShardToSend then st
    else
      let st := pace cfg st
      let size := nextPacingBatchSize (x - st.nextShardToSend + 1) cfg.sendBatchSize
        st.groupPacketsSent cfg.ratecontrolPacketsIn1ms
      if size = 0 then sendPending cfg timesOut block x fuel st
      else
        let sent := { st with handed := st.handed ++ [Batch.mk block st.nextShardToSend size] }
        if timesOut st.handed.length then { sent with frameSendTimedOut := true }
        else sendPending cfg timesOut block x fuel
          { sent with
            groupPacketsSent := st.groupPacketsSent + size
            framePacketsSent := st.framePacketsSent + size
            nextShardToSend := st.nextShardToSend + size }

/-- One pass of the loop over the shards of a block: a full batch or the last shard sends. -/
def sendShard (cfg : PacingConfig) (timesOut : ℕ → Bool) (block nrShards : ℕ) (st : SendState)
    (x : ℕ) : SendState :=
  if cfg.sendBatchSize ≤ x + 1 - st.nextShardToSend ∨ x + 1 = nrShards then
    sendPending cfg timesOut block x (x + 1 - st.nextShardToSend) st
  else st

def sendFirst (cfg : PacingConfig) (timesOut : ℕ → Bool) (block nrShards : ℕ) (st : SendState)
    (count : ℕ) : SendState :=
  (List.range count).foldl (sendShard cfg timesOut block nrShards) st

/-- A block of the frame; nothing is sent once the frame timed out. -/
def sendBlockShards (cfg : PacingConfig) (timesOut : ℕ → Bool) (st : SendState) (block nrShards : ℕ) :
    SendState :=
  if st.frameSendTimedOut then st
  else sendFirst cfg timesOut block nrShards { st with nextShardToSend := 0 } nrShards

def sendBlocksShards (cfg : PacingConfig) (timesOut : ℕ → Bool) :
    ℕ → List ℕ → SendState → SendState
  | _, [], st => st
  | block, nrShards :: rest, st =>
    sendBlocksShards cfg timesOut (block + 1) rest (sendBlockShards cfg timesOut st block nrShards)

def sendShards (cfg : PacingConfig) (timesOut : ℕ → Bool) (blocks : List ℕ) : SendState :=
  sendBlocksShards cfg timesOut 0 blocks {}

/-- The batches of a frame when every send makes its deadline. -/
def schedule (cfg : PacingConfig) (blocks : List ℕ) : List Batch :=
  (sendShards cfg (fun _ => false) blocks).handed

/-- The batch is sent at the last shard of its block. -/
def InLastGroup (cfg : PacingConfig) (nrShards : ℕ) (b : Batch) : Prop :=
  nrShards ≤ (b.offset / cfg.sendBatchSize + 1) * cfg.sendBatchSize

instance (cfg : PacingConfig) (nrShards : ℕ) (b : Batch) :
    Decidable (InLastGroup cfg nrShards b) := inferInstanceAs (Decidable (_ ≤ _))

/-! ## One batch -/

theorem pace_room (cfg : PacingConfig) (st : SendState) :
    (pace cfg st).groupPacketsSent < cfg.ratecontrolPacketsIn1ms := by
  have hpos := cfg.limit_pos
  unfold pace
  split_ifs with h
  · exact hpos
  · omega

@[simp] theorem pace_next (cfg : PacingConfig) (st : SendState) :
    (pace cfg st).nextShardToSend = st.nextShardToSend := by
  unfold pace
  split_ifs <;> rfl

@[simp] theorem pace_handed (cfg : PacingConfig) (st : SendState) :
    (pace cfg st).handed = st.handed := by
  unfold pace
  split_ifs <;> rfl

@[simp] theorem pace_timedOut (cfg : PacingConfig) (st : SendState) :
    (pace cfg st).frameSendTimedOut = st.frameSendTimedOut := by
  unfold pace
  split_ifs <;> rfl

theorem batch_bounds (cfg : PacingConfig) (st : SendState) (x : ℕ) (hx : st.nextShardToSend ≤ x) :
    0 < nextPacingBatchSize (x - (pace cfg st).nextShardToSend + 1) cfg.sendBatchSize
        (pace cfg st).groupPacketsSent cfg.ratecontrolPacketsIn1ms ∧
      nextPacingBatchSize (x - (pace cfg st).nextShardToSend + 1) cfg.sendBatchSize
        (pace cfg st).groupPacketsSent cfg.ratecontrolPacketsIn1ms ≤
        x + 1 - st.nextShardToSend := by
  have hroom := pace_room cfg st
  have hbatch := cfg.batch_pos
  rw [pace_next]
  unfold nextPacingBatchSize
  rw [if_neg (by omega)]
  omega

/-- What the batch `size` from here on does, whatever comes after it. -/
structure BatchStep (block x size : ℕ) (st failed after : SendState) : Prop where
  size_pos : 0 < size
  size_le : size ≤ x + 1 - st.nextShardToSend
  failed_timedOut : failed.frameSendTimedOut = true
  failed_next : failed.nextShardToSend = st.nextShardToSend
  failed_handed : failed.handed = st.handed ++ [Batch.mk block st.nextShardToSend size]
  after_timedOut : after.frameSendTimedOut = st.frameSendTimedOut
  after_next : after.nextShardToSend = st.nextShardToSend + size
  after_handed : after.handed = st.handed ++ [Batch.mk block st.nextShardToSend size]

theorem sendPending_step (cfg : PacingConfig) (block x : ℕ) (st : SendState)
    (hx : st.nextShardToSend ≤ x) :
    ∃ size failed after, BatchStep block x size st failed after ∧ ∀ timesOut fuel,
      sendPending cfg timesOut block x (fuel + 1) st =
        if timesOut st.handed.length then failed
        else sendPending cfg timesOut block x fuel after := by
  obtain ⟨hpos, hle⟩ := batch_bounds cfg st x hx
  set size := nextPacingBatchSize (x - (pace cfg st).nextShardToSend + 1) cfg.sendBatchSize
    (pace cfg st).groupPacketsSent cfg.ratecontrolPacketsIn1ms with hsize
  let sent := { pace cfg st with
    handed := (pace cfg st).handed ++ [Batch.mk block (pace cfg st).nextShardToSend size] }
  refine ⟨size, { sent with frameSendTimedOut := true },
    { sent with
      groupPacketsSent := (pace cfg st).groupPacketsSent + size
      framePacketsSent := (pace cfg st).framePacketsSent + size
      nextShardToSend := (pace cfg st).nextShardToSend + size }, ?_, ?_⟩
  · constructor <;> simp [sent, hpos, hle]
  · intro timesOut fuel
    conv_lhs => rw [sendPending]
    rw [if_neg (by omega)]
    simp only [← hsize, sent, pace_handed]
    rw [if_neg (by omega)]

theorem sendPending_done (cfg : PacingConfig) (timesOut : ℕ → Bool) (block x fuel : ℕ)
    (st : SendState) (hx : x < st.nextShardToSend) :
    sendPending cfg timesOut block x fuel st = st := by
  cases fuel with
  | zero => rfl
  | succ fuel => rw [sendPending, if_pos hx]

/-! ## The loop at one shard -/

/-- What any number of batches leaves true. -/
structure Extends (x : ℕ) (st r : SendState) : Prop where
  handed : st.handed <+: r.handed
  timedOut : st.frameSendTimedOut = true → r.frameSendTimedOut = true
  next : st.nextShardToSend ≤ x + 1 → r.nextShardToSend ≤ x + 1

theorem Extends.refl (x : ℕ) (st : SendState) : Extends x st st :=
  ⟨List.prefix_refl _, id, id⟩

theorem sendPending_extends (cfg : PacingConfig) (timesOut : ℕ → Bool) (block x fuel : ℕ)
    (st : SendState) : Extends x st (sendPending cfg timesOut block x fuel st) := by
  induction fuel generalizing st with
  | zero => exact Extends.refl x st
  | succ fuel ih =>
    by_cases hx : x < st.nextShardToSend
    · rw [sendPending_done cfg timesOut block x _ st hx]
      exact Extends.refl x st
    · obtain ⟨size, failed, after, hstep, heq⟩ := sendPending_step cfg block x st (by omega)
      rw [heq]
      split_ifs
      · exact ⟨hstep.failed_handed ▸ List.prefix_append _ _, fun _ => hstep.failed_timedOut,
          fun h => hstep.failed_next ▸ h⟩
      · obtain ⟨hh, ht, hn⟩ := ih after
        have hsize := hstep.size_le
        have hafter := hstep.after_next
        refine ⟨?_, fun h => ht (hstep.after_timedOut ▸ h), fun h => hn (by omega)⟩
        exact (hstep.after_handed ▸ List.prefix_append _ _ : st.handed <+: after.handed).trans hh

theorem sendPending_hands (cfg : PacingConfig) (timesOut : ℕ → Bool) (block x fuel : ℕ)
    (st : SendState) (hx : st.nextShardToSend ≤ x) (hfuel : 0 < fuel) :
    st.handed.length < (sendPending cfg timesOut block x fuel st).handed.length := by
  obtain ⟨fuel, rfl⟩ : ∃ k, fuel = k + 1 := ⟨fuel - 1, by omega⟩
  obtain ⟨size, failed, after, hstep, heq⟩ := sendPending_step cfg block x st hx
  rw [heq]
  split_ifs
  · rw [hstep.failed_handed, List.length_append, List.length_singleton]
    omega
  · have hlen := (sendPending_extends cfg timesOut block x fuel after).handed.length_le
    rw [hstep.after_handed, List.length_append, List.length_singleton] at hlen
    omega

theorem sendPending_finishes (cfg : PacingConfig) (block x fuel : ℕ) (st : SendState)
    (hnext : st.nextShardToSend ≤ x + 1) (hfuel : x + 1 - st.nextShardToSend ≤ fuel) :
    (sendPending cfg (fun _ => false) block x fuel st).nextShardToSend = x + 1 ∧
      (sendPending cfg (fun _ => false) block x fuel st).frameSendTimedOut =
        st.frameSendTimedOut := by
  induction fuel generalizing st with
  | zero => exact ⟨by simp only [sendPending]; omega, rfl⟩
  | succ fuel ih =>
    by_cases hx : x < st.nextShardToSend
    · rw [sendPending_done cfg _ block x _ st hx]
      exact ⟨by omega, rfl⟩
    · obtain ⟨size, failed, after, hstep, heq⟩ := sendPending_step cfg block x st (by omega)
      have hpos := hstep.size_pos
      have hsize := hstep.size_le
      have hafter := hstep.after_next
      rw [heq (fun _ => false) fuel, if_neg (by simp), ← hstep.after_timedOut]
      exact ih after (by omega) (by omega)

/-- Batch `k` is the first one to miss the deadline. -/
def FirstTimeout (timesOut : ℕ → Bool) (k : ℕ) : Prop :=
  timesOut k = true ∧ ∀ j, j < k → timesOut j = false

/-- The run `r` just timed out at batch `k`, where the schedule `r'` goes on. -/
structure JustTimedOut (k block first x : ℕ) (r r' : SendState) : Prop where
  timedOut : r.frameSendTimedOut = true
  length : r.handed.length = k + 1
  agree : r.handed <+: r'.handed
  next : r.nextShardToSend ≤ x
  last : ∃ b, r.handed.getLast? = some b ∧ b.block = block ∧ first ≤ b.offset ∧ b.offset ≤ x

/-- A run of the loop is the schedule's, or the schedule's up to its first timeout. -/
theorem sendPending_agree (cfg : PacingConfig) (timesOut : ℕ → Bool) (k block x fuel : ℕ)
    (st : SendState) (hk : FirstTimeout timesOut k) (hlen : st.handed.length ≤ k) :
    (sendPending cfg timesOut block x fuel st = sendPending cfg (fun _ => false) block x fuel st ∧
        (sendPending cfg timesOut block x fuel st).handed.length ≤ k) ∨
      JustTimedOut k block st.nextShardToSend x (sendPending cfg timesOut block x fuel st)
        (sendPending cfg (fun _ => false) block x fuel st) := by
  induction fuel generalizing st with
  | zero => exact Or.inl ⟨rfl, hlen⟩
  | succ fuel ih =>
    by_cases hx : x < st.nextShardToSend
    · rw [sendPending_done cfg timesOut block x _ st hx, sendPending_done cfg _ block x _ st hx]
      exact Or.inl ⟨rfl, hlen⟩
    · obtain ⟨size, failed, after, hstep, heq⟩ := sendPending_step cfg block x st (by omega)
      have hafter := hstep.after_next
      have hafterLen : after.handed.length = st.handed.length + 1 := by
        rw [hstep.after_handed, List.length_append, List.length_singleton]
      have hideal : sendPending cfg (fun _ => false) block x (fuel + 1) st =
          sendPending cfg (fun _ => false) block x fuel after := by
        rw [heq, if_neg (by simp)]
      rw [heq timesOut fuel, hideal]
      by_cases hnow : st.handed.length = k
      · -- this batch is the first to time out
        rw [hnow, if_pos hk.1]
        refine Or.inr ⟨hstep.failed_timedOut, ?_, ?_, ?_, ?_⟩
        · rw [hstep.failed_handed, List.length_append, List.length_singleton, hnow]
        · rw [hstep.failed_handed, ← hstep.after_handed]
          exact (sendPending_extends cfg (fun _ => false) block x fuel after).handed
        · rw [hstep.failed_next]
          omega
        · rw [hstep.failed_handed, List.getLast?_concat]
          exact ⟨_, rfl, rfl, le_rfl, by simp only; omega⟩
      · have hsame : timesOut st.handed.length = false := hk.2 _ (by omega)
        rw [hsame, if_neg (by simp)]
        refine (ih after (by omega)).imp id ?_
        rintro ⟨h1, h2, h3, h4, b, h5, h6, h7, h8⟩
        exact ⟨h1, h2, h3, h4, b, h5, h6, by omega, h8⟩

/-! ## The loop over a block -/

theorem succ_mod (m y : ℕ) (hm : 0 < m) :
    (y + 1) % m = if y % m + 1 = m then 0 else y % m + 1 := by
  have hlt := Nat.mod_lt y hm
  have hdiv := Nat.div_add_mod y m
  split_ifs with h
  · have e : y + 1 = m * (y / m + 1) := by rw [Nat.mul_succ]; omega
    rw [e, Nat.mul_mod_right]
  · have e : y + 1 = m * (y / m) + (y % m + 1) := by omega
    rw [e, Nat.mul_add_mod, Nat.mod_eq_of_lt (by omega)]

/-- The shards sent after `y` passes over a block of `n`: all full groups, and at the end the rest. -/
def sentUpTo (cfg : PacingConfig) (n y : ℕ) : ℕ :=
  if y = n then n else y - y % cfg.sendBatchSize

theorem sentUpTo_le (cfg : PacingConfig) (n y : ℕ) : sentUpTo cfg n y ≤ y := by
  unfold sentUpTo
  split_ifs <;> omega

theorem sendFirst_succ (cfg : PacingConfig) (timesOut : ℕ → Bool) (block n : ℕ) (st : SendState)
    (y : ℕ) :
    sendFirst cfg timesOut block n st (y + 1) =
      sendShard cfg timesOut block n (sendFirst cfg timesOut block n st y) y := by
  unfold sendFirst
  rw [List.range_succ, List.foldl_append]
  rfl

theorem sendShard_extends (cfg : PacingConfig) (timesOut : ℕ → Bool) (block n x : ℕ)
    (st : SendState) : Extends x st (sendShard cfg timesOut block n st x) := by
  unfold sendShard
  split_ifs
  · exact sendPending_extends cfg timesOut block x _ st
  · exact Extends.refl x st

theorem sendFirst_schedule (cfg : PacingConfig) (block n : ℕ) (st : SendState)
    (hst : st.nextShardToSend = 0) (y : ℕ) (hy : y ≤ n) :
    (sendFirst cfg (fun _ => false) block n st y).nextShardToSend = sentUpTo cfg n y ∧
      (sendFirst cfg (fun _ => false) block n st y).frameSendTimedOut = st.frameSendTimedOut := by
  induction y with
  | zero =>
    refine ⟨?_, rfl⟩
    have hzero : sentUpTo cfg n 0 = 0 := Nat.le_zero.mp (sentUpTo_le cfg n 0)
    rw [hzero]
    exact hst
  | succ y ih =>
    obtain ⟨hnext, hto⟩ := ih (by omega)
    have hmod := succ_mod cfg.sendBatchSize y cfg.batch_pos
    have hlt := Nat.mod_lt y cfg.batch_pos
    have hle := Nat.mod_le y cfg.sendBatchSize
    have hup : sentUpTo cfg n y = y - y % cfg.sendBatchSize := if_neg (by omega)
    rw [sendFirst_succ]
    unfold sendShard
    rw [hnext, ← hto, hup]
    split_ifs with hflush
    · obtain ⟨hn, ht⟩ := sendPending_finishes cfg block y
        (y + 1 - (y - y % cfg.sendBatchSize)) (sendFirst cfg (fun _ => false) block n st y)
        (by omega) (by omega)
      refine ⟨?_, ht⟩
      rw [hn]
      unfold sentUpTo
      split_ifs with hend
      · exact hend
      · rw [hmod, if_pos (by omega), Nat.sub_zero]
    · refine ⟨?_, rfl⟩
      unfold sentUpTo
      rw [hnext, hup, if_neg (by omega), hmod, if_neg (by omega)]
      omega

theorem inLastGroup_iff (cfg : PacingConfig) (n y : ℕ) (b : Batch) (hy : y < n)
    (hfirst : y - y % cfg.sendBatchSize ≤ b.offset) (hlast : b.offset ≤ y)
    (hflush : cfg.sendBatchSize ≤ y + 1 - (y - y % cfg.sendBatchSize) ∨ y + 1 = n) :
    InLastGroup cfg n b ↔ y + 1 = n := by
  have hpos := cfg.batch_pos
  have hdiv := Nat.div_add_mod y cfg.sendBatchSize
  have hlt := Nat.mod_lt y hpos
  have hgroup : b.offset / cfg.sendBatchSize = y / cfg.sendBatchSize := by
    apply Nat.le_antisymm (Nat.div_le_div_right hlast)
    rw [Nat.le_div_iff_mul_le hpos, Nat.mul_comm]
    omega
  unfold InLastGroup
  rw [hgroup, Nat.succ_mul, Nat.mul_comm]
  omega

/-- A run after its first timeout, in a block of `n` shards of which `y` were passed. `t` is what
was handed up to the timeout. -/
structure Diverged (cfg : PacingConfig) (k block n y : ℕ) (t : List Batch) (b : Batch)
    (r r' : SendState) : Prop where
  timedOut : r.frameSendTimedOut = true
  next : r.nextShardToSend ≤ y
  length : t.length = k + 1
  last : t.getLast? = some b
  inBlock : b.block = block
  run : t <+: r.handed
  schedule : t <+: r'.handed
  stops : InLastGroup cfg n b → y = n ∧ r.handed = t
  goesOn : ¬ InLastGroup cfg n b → y = n → k + 1 < r.handed.length

/-- After its first timeout a run skips the rest of the last group, but sends again at the last
shard of the block when the timeout came earlier. -/
theorem Diverged.step {cfg : PacingConfig} {timesOut : ℕ → Bool} {k block n y : ℕ}
    {t : List Batch} {b : Batch} {r r' : SendState} (h : Diverged cfg k block n y t b r r')
    (hy : y < n) :
    Diverged cfg k block n (y + 1) t b (sendShard cfg timesOut block n r y)
      (sendShard cfg (fun _ => false) block n r' y) := by
  obtain ⟨hh, ht, hn⟩ := sendShard_extends cfg timesOut block n y r
  have hideal := (sendShard_extends cfg (fun _ => false) block n y r').handed
  have hnext := h.next
  refine ⟨ht h.timedOut, hn (by omega), h.length, h.last, h.inBlock, h.run.trans hh,
    h.schedule.trans hideal, fun hl => ?_, fun _ hend => ?_⟩
  · have := (h.stops hl).1
    omega
  · have hlen := h.run.length_le
    have hmore : r.handed.length < (sendShard cfg timesOut block n r y).handed.length := by
      unfold sendShard
      rw [if_pos (Or.inr hend)]
      exact sendPending_hands cfg timesOut block y _ r (by omega) (by omega)
    have := h.length
    omega

/-- A run over a block is the schedule's, or diverged from it. -/
theorem sendFirst_agree (cfg : PacingConfig) (timesOut : ℕ → Bool) (k block n : ℕ)
    (st : SendState) (hk : FirstTimeout timesOut k) (hst : st.nextShardToSend = 0)
    (hlen : st.handed.length ≤ k) (y : ℕ) (hy : y ≤ n) :
    (sendFirst cfg timesOut block n st y = sendFirst cfg (fun _ => false) block n st y ∧
        (sendFirst cfg timesOut block n st y).handed.length ≤ k) ∨
      ∃ t b, Diverged cfg k block n y t b (sendFirst cfg timesOut block n st y)
        (sendFirst cfg (fun _ => false) block n st y) := by
  induction y with
  | zero => exact Or.inl ⟨rfl, hlen⟩
  | succ y ih =>
    rw [sendFirst_succ, sendFirst_succ]
    rcases ih (by omega) with ⟨hsame, hshort⟩ | ⟨t, b, hdiv⟩
    · have hup : sentUpTo cfg n y = y - y % cfg.sendBatchSize := if_neg (by omega)
      have hnext := (sendFirst_schedule cfg block n st hst y (by omega)).1
      rw [hup] at hnext
      rw [hsame] at hshort ⊢
      set before := sendFirst cfg (fun _ => false) block n st y with hbefore
      unfold sendShard
      rw [hnext]
      split_ifs with hflush
      · rcases sendPending_agree cfg timesOut k block y (y + 1 - (y - y % cfg.sendBatchSize)) before
          hk hshort with hagree | hto
        · exact Or.inl hagree
        · obtain ⟨b, hb, hblock, hfirst, hlast⟩ := hto.last
          rw [hnext] at hfirst
          have hiff := inLastGroup_iff cfg n y b (by omega) hfirst hlast hflush
          have hnext' := hto.next
          refine Or.inr ⟨_, b, hto.timedOut, by omega, hto.length, hb, hblock,
            List.prefix_refl _, hto.agree, fun hl => ⟨hiff.mp hl, rfl⟩, fun hl hend => ?_⟩
          exact absurd (hiff.mpr hend) hl
      · exact Or.inl ⟨rfl, hshort⟩
    · exact Or.inr ⟨t, b, hdiv.step (by omega)⟩

/-! ## The loop over the blocks -/

theorem sendBlockShards_handed (cfg : PacingConfig) (timesOut : ℕ → Bool) (st : SendState)
    (block n : ℕ) : st.handed <+: (sendBlockShards cfg timesOut st block n).handed := by
  have hfirst : ∀ y, st.handed <+:
      (sendFirst cfg timesOut block n { st with nextShardToSend := 0 } y).handed := by
    intro y
    induction y with
    | zero => exact List.prefix_refl _
    | succ y ih =>
      rw [sendFirst_succ]
      exact ih.trans (sendShard_extends cfg timesOut block n y _).handed
  unfold sendBlockShards
  split_ifs
  · exact List.prefix_refl _
  · exact hfirst n

theorem sendBlocksShards_handed (cfg : PacingConfig) (timesOut : ℕ → Bool) (blocks : List ℕ)
    (block : ℕ) (st : SendState) :
    st.handed <+: (sendBlocksShards cfg timesOut block blocks st).handed := by
  induction blocks generalizing block st with
  | nil => exact List.prefix_refl _
  | cons n rest ih => exact (sendBlockShards_handed cfg timesOut st block n).trans (ih _ _)

theorem sendBlocksShards_skips (cfg : PacingConfig) (timesOut : ℕ → Bool) (blocks : List ℕ)
    (block : ℕ) (st : SendState) (h : st.frameSendTimedOut = true) :
    sendBlocksShards cfg timesOut block blocks st = st := by
  induction blocks generalizing block with
  | nil => rfl
  | cons n rest ih =>
    have hskip : sendBlockShards cfg timesOut st block n = st := if_pos h
    rw [sendBlocksShards, hskip, ih]

/-- How a run that timed out first at batch `k` ended. -/
structure TimedOutRun (cfg : PacingConfig) (k first : ℕ) (blocks : List ℕ) (b : Batch)
    (r r' : SendState) : Prop where
  batch : r'.handed[k]? = some b
  length : k < r.handed.length
  stops : ∃ j n, b.block = first + j ∧ blocks[j]? = some n ∧
    (InLastGroup cfg n b ↔ r.handed.length = k + 1)

theorem sendBlocksShards_agree (cfg : PacingConfig) (timesOut : ℕ → Bool) (k : ℕ)
    (hk : FirstTimeout timesOut k) (blocks : List ℕ) (first : ℕ) (st : SendState)
    (hst : st.frameSendTimedOut = false) (hlen : st.handed.length ≤ k) :
    (sendBlocksShards cfg timesOut first blocks st =
          sendBlocksShards cfg (fun _ => false) first blocks st ∧
        (sendBlocksShards cfg timesOut first blocks st).handed.length ≤ k) ∨
      ∃ b, TimedOutRun cfg k first blocks b (sendBlocksShards cfg timesOut first blocks st)
        (sendBlocksShards cfg (fun _ => false) first blocks st) := by
  induction blocks generalizing first st with
  | nil => exact Or.inl ⟨rfl, hlen⟩
  | cons n rest ih =>
    rw [sendBlocksShards, sendBlocksShards]
    have hopen : ∀ o, sendBlockShards cfg o st first n =
        sendFirst cfg o first n { st with nextShardToSend := 0 } n := by
      intro o
      exact if_neg (by rw [hst]; simp)
    rcases sendFirst_agree cfg timesOut k first n { st with nextShardToSend := 0 } hk rfl hlen n
      le_rfl with ⟨hsame, hshort⟩ | ⟨t, b, hdiv⟩
    · rw [hopen timesOut, hopen (fun _ => false), hsame]
      rw [hsame] at hshort
      have hopen' := (sendFirst_schedule cfg first n { st with nextShardToSend := 0 } rfl n le_rfl).2
      refine (ih (first + 1) _ (hopen'.trans hst) hshort).imp id ?_
      rintro ⟨b, hb, hl, j, m, hj, hm, hiff⟩
      exact ⟨b, hb, hl, j + 1, m, by omega, by rw [List.getElem?_cons_succ]; exact hm, hiff⟩
    · rw [hopen timesOut, hopen (fun _ => false),
        sendBlocksShards_skips cfg timesOut rest (first + 1) _ hdiv.timedOut]
      have hsched := hdiv.schedule.trans (sendBlocksShards_handed cfg (fun _ => false) rest
        (first + 1) (sendFirst cfg (fun _ => false) first n { st with nextShardToSend := 0 } n))
      have hlenT := hdiv.length
      have hrun := hdiv.run.length_le
      refine Or.inr ⟨b, ?_, by omega, 0, n, by rw [hdiv.inBlock, Nat.add_zero], rfl, ?_⟩
      · obtain ⟨suffix, hsuffix⟩ := hsched
        have hlast := hdiv.last
        rw [List.getLast?_eq_getElem?, hlenT, Nat.add_sub_cancel] at hlast
        rw [← hsuffix, List.getElem?_append_left (by omega)]
        exact hlast
      · constructor
        · intro hl
          rw [(hdiv.stops hl).2, hlenT]
        · intro hend
          by_contra hl
          have := hdiv.goesOn hl rfl
          omega

/-! ## Frames that stop at their timeout -/

/-- Once a batch of the frame misses its deadline no further one is handed to the socket. -/
def StopsAtTimeout (cfg : PacingConfig) (timesOut : ℕ → Bool) (blocks : List ℕ) : Prop :=
  ∀ k, timesOut k = true → (sendShards cfg timesOut blocks).handed.length ≤ k + 1

/-- The first batch to miss its deadline lies in the last group of its block. -/
def TimesOutInLastGroup (cfg : PacingConfig) (timesOut : ℕ → Bool) (blocks : List ℕ) : Prop :=
  ∀ k b n, FirstTimeout timesOut k → (schedule cfg blocks)[k]? = some b →
    blocks[b.block]? = some n → InLastGroup cfg n b

theorem exists_firstTimeout (timesOut : ℕ → Bool) (j : ℕ) (hj : timesOut j = true) :
    ∃ k, k ≤ j ∧ FirstTimeout timesOut k := by
  induction j using Nat.strong_induction_on with
  | _ j ih =>
    by_cases hearlier : ∃ i, i < j ∧ timesOut i = true
    · obtain ⟨i, hij, hi⟩ := hearlier
      obtain ⟨k, hk, hfirst⟩ := ih i hij hi
      exact ⟨k, by omega, hfirst⟩
    · refine ⟨j, le_rfl, hj, fun i hi => ?_⟩
      by_contra htrue
      exact hearlier ⟨i, hi, by simpa using htrue⟩

theorem stops_iff_last_group (cfg : PacingConfig) (timesOut : ℕ → Bool) (blocks : List ℕ) :
    StopsAtTimeout cfg timesOut blocks ↔ TimesOutInLastGroup cfg timesOut blocks := by
  constructor
  · intro hstops k b n hk hb hn
    rcases sendBlocksShards_agree cfg timesOut k hk blocks 0 {} rfl (Nat.zero_le _) with
      ⟨hsame, hshort⟩ | ⟨b', hb', hlen, j, m, hj, hm, hiff⟩
    · -- the schedule has no batch `k` when the run did not reach it
      have hin := (List.getElem?_eq_some_iff.mp hb).1
      rw [hsame] at hshort
      exact absurd hin (by unfold schedule sendShards; omega)
    · have hbb : b = b' := Option.some.inj (hb.symm.trans hb')
      subst hbb
      rw [Nat.zero_add] at hj
      rw [hj, hm, Option.some.injEq] at hn
      subst hn
      have := hstops k hk.1
      unfold sendShards at this
      exact hiff.mpr (by omega)
  · intro hgroup j hj
    obtain ⟨k, hkj, hk⟩ := exists_firstTimeout timesOut j hj
    rcases sendBlocksShards_agree cfg timesOut k hk blocks 0 {} rfl (Nat.zero_le _) with
      ⟨-, hshort⟩ | ⟨b, hb, -, i, n, hi, hn, hiff⟩
    · unfold sendShards
      omega
    · rw [Nat.zero_add] at hi
      have hlast := hiff.mp (hgroup k b n hk hb (by rw [hi]; exact hn))
      unfold sendShards
      omega

end Sunshine.Video
