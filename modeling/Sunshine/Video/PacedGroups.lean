import Mathlib.Data.List.Infix
import Mathlib.Data.List.Range
import Sunshine.Video.Pacing

/-! The send loop of a frame in which no send times out, with a log of where it paces and what it sends.

The loop at a shard is `none` when its fuel is used up, so that a result says that it ends. `paced_frame` says that the
batches of a block are its shards in order, and that no more than the limit is sent between two points where the loop
paces. -/
namespace Sunshine.Video
set_option autoImplicit false

/-! ## The loop with a log -/

inductive Action where
  | pace
  | send (batch : Batch)
  deriving DecidableEq, Repr

structure Paced where
  st : SendState
  actions : List Action
  deriving DecidableEq, Repr

/-- The test in front of the sleep. -/
def paces (cfg : PacingConfig) (st : SendState) : Bool :=
  cfg.ratecontrolPacketsIn1ms ≤ st.groupPacketsSent ∨ st.framePacketsSent = 0

def pacing (cfg : PacingConfig) (t : Paced) : Paced :=
  ⟨pace cfg t.st, t.actions ++ if paces cfg t.st then [.pace] else []⟩

def currentBatchSize (cfg : PacingConfig) (x : ℕ) (st : SendState) : ℕ :=
  nextPacingBatchSize (x - st.nextShardToSend + 1) cfg.sendBatchSize st.groupPacketsSent cfg.ratecontrolPacketsIn1ms

def sendOne (block size : ℕ) (t : Paced) : Paced where
  st := { t.st with
    handed := t.st.handed ++ [Batch.mk block t.st.nextShardToSend size]
    groupPacketsSent := t.st.groupPacketsSent + size
    framePacketsSent := t.st.framePacketsSent + size
    nextShardToSend := t.st.nextShardToSend + size }
  actions := t.actions ++ [.send (Batch.mk block t.st.nextShardToSend size)]

/-- The `while` loop at shard `x`. -/
def pacedPending (cfg : PacingConfig) (block x : ℕ) : ℕ → Paced → Option Paced
  | 0, _ => none
  | fuel + 1, t =>
    if x < t.st.nextShardToSend then some t
    else
      let t := pacing cfg t
      let size := currentBatchSize cfg x t.st
      if size = 0 then pacedPending cfg block x fuel t
      else pacedPending cfg block x fuel (sendOne block size t)

def pacedShard (cfg : PacingConfig) (fuel block nrShards : ℕ) (t : Paced) (x : ℕ) : Option Paced :=
  if cfg.sendBatchSize ≤ x + 1 - t.st.nextShardToSend ∨ x + 1 = nrShards then pacedPending cfg block x fuel t
  else some t

def pacedFirst (cfg : PacingConfig) (fuel block nrShards : ℕ) (t : Paced) (count : ℕ) : Option Paced :=
  (List.range count).foldlM (pacedShard cfg fuel block nrShards) t

/-- The loop at a shard may make as many passes as the block has shards, and one that finds nothing left. -/
def pacedBlock (cfg : PacingConfig) (t : Paced) (block nrShards : ℕ) : Option Paced :=
  if t.st.frameSendTimedOut then some t
  else pacedFirst cfg (nrShards + 1) block nrShards { t with st := { t.st with nextShardToSend := 0 } } nrShards

def pacedBlocks (cfg : PacingConfig) : ℕ → List ℕ → Paced → Option Paced
  | _, [], t => some t
  | block, nrShards :: rest, t => (pacedBlock cfg t block nrShards).bind (pacedBlocks cfg (block + 1) rest)

def pacedShards (cfg : PacingConfig) (blocks : List ℕ) : Option Paced := pacedBlocks cfg 0 blocks ⟨{}, []⟩

/-! ## What is asked of the log -/

def Action.batch : Action → Option Batch
  | .pace => none
  | .send batch => some batch

def Batch.shards (batch : Batch) : List ℕ := List.range' batch.offset batch.count

/-- The packets of some actions. -/
def packets (actions : List Action) : ℕ := ((actions.filterMap Action.batch).map Batch.count).sum

/-- The batches of each block are its shards in order, none is empty or too large, and between two pacing points no more is
sent than the limit. -/
structure Sent (cfg : PacingConfig) (blocks : List ℕ) (actions : List Action) : Prop where
  covered : ∀ i n, blocks[i]? = some n →
    ((actions.filterMap Action.batch).filter fun batch => batch.block = i).flatMap Batch.shards = List.range n
  sized : ∀ batch, .send batch ∈ actions → 0 < batch.count ∧ batch.count ≤ cfg.sendBatchSize ∧ batch.block < blocks.length
  limited : ∀ front middle back, actions = front ++ middle ++ back → .pace ∉ middle →
    packets middle ≤ cfg.ratecontrolPacketsIn1ms

/-! ## Cutting a block -/

/-- Batches of one block that follow each other from shard `first` up to `last`. -/
def Cut (maximum block : ℕ) : ℕ → List Batch → ℕ → Prop
  | first, [], last => first = last
  | first, batch :: batches, last => batch.block = block ∧ batch.offset = first ∧ 0 < batch.count ∧
      batch.count ≤ maximum ∧ Cut maximum block (first + batch.count) batches last

section Cut

variable {maximum block first middle last : ℕ} {front back : List Batch}

theorem Cut.append (h : Cut maximum block first front middle) (h' : Cut maximum block middle back last) :
    Cut maximum block first (front ++ back) last := by
  induction front generalizing first with
  | nil =>
    obtain rfl : first = middle := h
    exact h'
  | cons batch front ih =>
    obtain ⟨hblock, hoffset, hpos, hle, hrest⟩ := h
    exact ⟨hblock, hoffset, hpos, hle, ih hrest⟩

theorem Cut.le (h : Cut maximum block first front last) : first ≤ last := by
  induction front generalizing first with
  | nil => exact Nat.le_of_eq h
  | cons batch front ih =>
    have hrest := ih h.2.2.2.2
    omega

theorem Cut.shards (h : Cut maximum block first front last) :
    front.flatMap Batch.shards = List.range' first (last - first) := by
  induction front generalizing first with
  | nil =>
    obtain rfl : first = last := h
    rw [Nat.sub_self]
    rfl
  | cons batch front ih =>
    obtain ⟨-, hoffset, -, -, hrest⟩ := h
    have hle := hrest.le
    rw [List.flatMap_cons, ih hrest, Batch.shards, hoffset]
    have hcount : last - first = batch.count + (last - (first + batch.count)) := by omega
    rw [hcount, ← List.range'_append_1]

theorem Cut.mem (h : Cut maximum block first front last) {batch : Batch} (hmem : batch ∈ front) :
    batch.block = block ∧ 0 < batch.count ∧ batch.count ≤ maximum := by
  induction front generalizing first with
  | nil => exact absurd hmem List.not_mem_nil
  | cons other front ih =>
    obtain ⟨hblock, -, hpos, hle, hrest⟩ := h
    cases List.mem_cons.mp hmem with
    | inl heq => exact heq ▸ ⟨hblock, hpos, hle⟩
    | inr hmem => exact ih hrest hmem

end Cut

/-- The batches of blocks that follow each other from number `first` on. -/
def CutBlocks (maximum : ℕ) : ℕ → List ℕ → List Batch → Prop
  | _, [], batches => batches = []
  | first, n :: rest, batches => ∃ front back, batches = front ++ back ∧ Cut maximum first 0 front n ∧
      CutBlocks maximum (first + 1) rest back

theorem CutBlocks.mem {maximum first : ℕ} {blocks : List ℕ} {batches : List Batch}
    (h : CutBlocks maximum first blocks batches) {batch : Batch} (hmem : batch ∈ batches) :
    first ≤ batch.block ∧ batch.block < first + blocks.length ∧ 0 < batch.count ∧ batch.count ≤ maximum := by
  induction blocks generalizing first batches with
  | nil =>
    obtain rfl : batches = [] := h
    exact absurd hmem List.not_mem_nil
  | cons n rest ih =>
    obtain ⟨front, back, rfl, hcut, hrest⟩ := h
    rw [List.length_cons]
    cases List.mem_append.mp hmem with
    | inl hmem =>
      obtain ⟨hblock, hsize⟩ := hcut.mem hmem
      exact ⟨by omega, by omega, hsize⟩
    | inr hmem =>
      obtain ⟨hlow, hhigh, hsize⟩ := ih hrest hmem
      exact ⟨by omega, by omega, hsize⟩

theorem CutBlocks.covered {maximum first : ℕ} {blocks : List ℕ} {batches : List Batch}
    (h : CutBlocks maximum first blocks batches) {i n : ℕ} (hi : blocks[i]? = some n) :
    (batches.filter fun batch => batch.block = first + i).flatMap Batch.shards = List.range n := by
  induction blocks generalizing first batches i with
  | nil => exact absurd hi (by simp)
  | cons m rest ih =>
    obtain ⟨front, back, rfl, hcut, hrest⟩ := h
    rw [List.filter_append]
    cases i with
    | zero =>
      obtain rfl : m = n := Option.some.inj hi
      have hfront : (front.filter fun batch => batch.block = first + 0) = front :=
        List.filter_eq_self.mpr fun batch hbatch => decide_eq_true (hcut.mem hbatch).1
      have hback : (back.filter fun batch => batch.block = first + 0) = [] := by
        refine List.filter_eq_nil_iff.mpr fun batch hbatch heq => ?_
        have hlow := (hrest.mem hbatch).1
        have hblock := of_decide_eq_true heq
        omega
      rw [hfront, hback, List.append_nil, hcut.shards, Nat.sub_zero, List.range_eq_range']
    | succ i =>
      have hfront : (front.filter fun batch => batch.block = first + (i + 1)) = [] := by
        refine List.filter_eq_nil_iff.mpr fun batch hbatch heq => ?_
        have hown := (hcut.mem hbatch).1
        have hblock := of_decide_eq_true heq
        omega
      have hback := ih hrest hi
      rw [hfront, List.nil_append, ← hback]
      congr 2
      funext batch
      rw [Nat.add_assoc, Nat.add_comm 1 i]

/-! ## Counting a group -/

/-- The packets since the last pacing point, after one more action. -/
def counted (group : ℕ) : Action → ℕ
  | .pace => 0
  | .send batch => group + batch.count

theorem foldl_counted {actions : List Action} (h : .pace ∉ actions) (group : ℕ) :
    actions.foldl counted group = group + packets actions := by
  induction actions generalizing group with
  | nil => rfl
  | cons action actions ih =>
    rw [List.mem_cons, not_or] at h
    cases action with
    | pace => exact absurd rfl h.1
    | send batch =>
      rw [List.foldl_cons, ih h.2, counted, Nat.add_assoc]
      rfl

/-- The log has what was handed, its last group is the loop's, and none is over the limit. -/
structure Logged (cfg : PacingConfig) (t : Paced) : Prop where
  handed : t.actions.filterMap Action.batch = t.st.handed
  group : t.actions.foldl counted 0 = t.st.groupPacketsSent
  bound : ∀ front, front <+: t.actions → front.foldl counted 0 ≤ cfg.ratecontrolPacketsIn1ms

theorem bound_concat {limit : ℕ} {actions : List Action} {action : Action}
    (h : ∀ front, front <+: actions → front.foldl counted 0 ≤ limit)
    (hlast : counted (actions.foldl counted 0) action ≤ limit) (front : List Action)
    (hfront : front <+: actions ++ [action]) : front.foldl counted 0 ≤ limit := by
  cases List.prefix_concat_iff.mp hfront with
  | inl heq =>
    rw [heq, List.foldl_append]
    exact hlast
  | inr hfront => exact h front hfront

section Steps

variable {cfg : PacingConfig} {t : Paced} {block x size : ℕ}

theorem logged_pacing (h : Logged cfg t) : Logged cfg (pacing cfg t) := by
  unfold pacing pace paces
  by_cases hpace : cfg.ratecontrolPacketsIn1ms ≤ t.st.groupPacketsSent ∨ t.st.framePacketsSent = 0
  · rw [if_pos hpace, if_pos (decide_eq_true hpace)]
    refine ⟨?_, ?_, bound_concat h.bound (Nat.zero_le _)⟩
    · rw [List.filterMap_append, h.handed]
      exact List.append_nil _
    · rw [List.foldl_append]
      rfl
  · rw [if_neg hpace, if_neg (by simpa using hpace), List.append_nil]
    exact h

theorem logged_sendOne (h : Logged cfg t) (hsize : t.st.groupPacketsSent + size ≤ cfg.ratecontrolPacketsIn1ms) :
    Logged cfg (sendOne block size t) := by
  refine ⟨?_, ?_, bound_concat h.bound ?_⟩
  · show (t.actions ++ [_]).filterMap Action.batch = t.st.handed ++ [_]
    rw [List.filterMap_append, h.handed]
    rfl
  · show (t.actions ++ [_]).foldl counted 0 = t.st.groupPacketsSent + size
    rw [List.foldl_append, h.group]
    rfl
  · rw [h.group]
    exact hsize

/-- A batch is not empty, and fits the shards that are left, the batch size and the group. -/
theorem currentBatchSize_bounds (cfg : PacingConfig) (hx : t.st.nextShardToSend ≤ x) :
    0 < currentBatchSize cfg x (pacing cfg t).st ∧
      currentBatchSize cfg x (pacing cfg t).st ≤ x + 1 - t.st.nextShardToSend ∧
      currentBatchSize cfg x (pacing cfg t).st ≤ cfg.sendBatchSize ∧
      (pacing cfg t).st.groupPacketsSent + currentBatchSize cfg x (pacing cfg t).st ≤ cfg.ratecontrolPacketsIn1ms := by
  have hroom : (pacing cfg t).st.groupPacketsSent < cfg.ratecontrolPacketsIn1ms := pace_room cfg t.st
  have hnext : (pacing cfg t).st.nextShardToSend = t.st.nextShardToSend := pace_next cfg t.st
  have hbatch := cfg.batch_pos
  unfold currentBatchSize nextPacingBatchSize
  rw [hnext, if_neg (by omega)]
  omega

/-- What one pass of the loop makes of its state. -/
def pass (cfg : PacingConfig) (block x : ℕ) (t : Paced) : Paced :=
  sendOne block (currentBatchSize cfg x (pacing cfg t).st) (pacing cfg t)

theorem pacedPending_pass (hx : t.st.nextShardToSend ≤ x) (fuel : ℕ) :
    pacedPending cfg block x (fuel + 1) t = pacedPending cfg block x fuel (pass cfg block x t) := by
  have hpos := (currentBatchSize_bounds cfg hx).1
  rw [pacedPending, if_neg (by omega)]
  dsimp only
  rw [if_neg (by omega)]
  rfl

/-- The loop without the log makes the same pass. -/
theorem sendPending_pass (hx : t.st.nextShardToSend ≤ x) (fuel : ℕ) :
    sendPending cfg (fun _ => false) block x (fuel + 1) t.st =
      sendPending cfg (fun _ => false) block x fuel (pass cfg block x t).st := by
  have hpos : ¬nextPacingBatchSize (x - (pace cfg t.st).nextShardToSend + 1) cfg.sendBatchSize
      (pace cfg t.st).groupPacketsSent cfg.ratecontrolPacketsIn1ms = 0 :=
    Nat.ne_of_gt (currentBatchSize_bounds cfg hx).1
  rw [sendPending, if_neg (by omega)]
  dsimp only
  rw [if_neg hpos, if_neg (by simp)]
  rfl

/-- What the loop leaves behind, with the batches that it sent of a block. -/
structure Goes (cfg : PacingConfig) (block : ℕ) (t t' : Paced) : Prop where
  logged : Logged cfg t'
  timedOut : t'.st.frameSendTimedOut = t.st.frameSendTimedOut
  cut : ∃ batches, t'.st.handed = t.st.handed ++ batches ∧
    Cut cfg.sendBatchSize block t.st.nextShardToSend batches t'.st.nextShardToSend

theorem Goes.refl (h : Logged cfg t) : Goes cfg block t t := ⟨h, rfl, [], (List.append_nil _).symm, rfl⟩

theorem Goes.trans {t' t'' : Paced} (h : Goes cfg block t t') (h' : Goes cfg block t' t'') : Goes cfg block t t'' := by
  obtain ⟨front, hfront, hcut⟩ := h.cut
  obtain ⟨back, hback, hcut'⟩ := h'.cut
  exact ⟨h'.logged, h'.timedOut.trans h.timedOut, front ++ back, by rw [hback, hfront, List.append_assoc], hcut.append hcut'⟩

theorem goes_pass (block : ℕ) (h : Logged cfg t) (hx : t.st.nextShardToSend ≤ x) : Goes cfg block t (pass cfg block x t) := by
  obtain ⟨hpos, hleft, hbatch, hlimit⟩ := currentBatchSize_bounds cfg hx
  have hnext : (pacing cfg t).st.nextShardToSend = t.st.nextShardToSend := pace_next cfg t.st
  have hhanded : (pacing cfg t).st.handed = t.st.handed := pace_handed cfg t.st
  refine ⟨logged_sendOne (logged_pacing h) hlimit, pace_timedOut cfg t.st,
    [Batch.mk block (pacing cfg t).st.nextShardToSend (currentBatchSize cfg x (pacing cfg t).st)], ?_, rfl, hnext, hpos,
    hbatch, ?_⟩
  · exact congrArg (· ++ _) hhanded
  · exact congrArg (· + _) hnext.symm

theorem next_pass (cfg : PacingConfig) (block : ℕ) (hx : t.st.nextShardToSend ≤ x) :
    t.st.nextShardToSend < (pass cfg block x t).st.nextShardToSend ∧ (pass cfg block x t).st.nextShardToSend ≤ x + 1 := by
  obtain ⟨hpos, hleft, -, -⟩ := currentBatchSize_bounds cfg hx
  have hnext : (pass cfg block x t).st.nextShardToSend =
      t.st.nextShardToSend + currentBatchSize cfg x (pacing cfg t).st := congrArg (· + _) (pace_next cfg t.st)
  omega

/-! ## The loops -/

/-- Every pass sends a shard, so that the loop ends with fuel for one pass more than there are shards to send. -/
theorem pacedPending_ends (block x : ℕ) (h : Logged cfg t) (fuel rest : ℕ) (hnext : t.st.nextShardToSend ≤ x + 1)
    (hfuel : x + 1 - t.st.nextShardToSend < fuel) (hrest : x + 1 - t.st.nextShardToSend ≤ rest) :
    ∃ t', pacedPending cfg block x fuel t = some t' ∧ Goes cfg block t t' ∧
      t'.st = sendPending cfg (fun _ => false) block x rest t.st := by
  induction fuel generalizing t rest with
  | zero => exact absurd hfuel (Nat.not_lt_zero _)
  | succ fuel ih =>
    by_cases hx : x < t.st.nextShardToSend
    · refine ⟨t, ?_, .refl h, (sendPending_done cfg _ block x rest t.st hx).symm⟩
      rw [pacedPending, if_pos hx]
    · obtain ⟨rest, rfl⟩ : ∃ k, rest = k + 1 := ⟨rest - 1, by omega⟩
      have hpass := goes_pass block h (not_lt.mp hx)
      obtain ⟨hmore, hle⟩ := next_pass cfg block (not_lt.mp hx)
      obtain ⟨t', hrun, hgoes, hsame⟩ := ih hpass.logged rest hle (by omega) (by omega)
      rw [pacedPending_pass (not_lt.mp hx), sendPending_pass (not_lt.mp hx)]
      exact ⟨t', hrun, hpass.trans hgoes, hsame⟩

theorem pacedFirst_ends (block : ℕ) (h : Logged cfg t) (hst : t.st.nextShardToSend = 0) {fuel n : ℕ} (hfuel : n < fuel) {y : ℕ}
    (hy : y ≤ n) :
    ∃ t', pacedFirst cfg fuel block n t y = some t' ∧ Goes cfg block t t' ∧
      t'.st = sendFirst cfg (fun _ => false) block n t.st y := by
  induction y with
  | zero => exact ⟨t, rfl, .refl h, rfl⟩
  | succ y ih =>
    obtain ⟨t', hrun, hgoes, hsame⟩ := ih (by omega)
    have hnext := (sendFirst_schedule cfg block n t.st hst y (by omega)).1
    have hup := sentUpTo_le cfg n y
    rw [← hnext, ← hsame] at hup
    have hfold : pacedFirst cfg fuel block n t (y + 1) = pacedShard cfg fuel block n t' y := by
      unfold pacedFirst at hrun ⊢
      rw [List.range_succ, List.foldlM_append, hrun]
      exact bind_pure (pacedShard cfg fuel block n t' y)
    rw [hfold, sendFirst_succ, ← hsame]
    unfold pacedShard sendShard
    split_ifs with hflush
    · obtain ⟨t'', hrun', hgoes', hsame'⟩ := pacedPending_ends block y hgoes.logged fuel
        (y + 1 - t'.st.nextShardToSend) (by omega) (by omega) le_rfl
      exact ⟨t'', hrun', hgoes.trans hgoes', hsame'⟩
    · exact ⟨t', rfl, hgoes, rfl⟩

end Steps

theorem pacedBlocks_ends {cfg : PacingConfig} {t : Paced} (h : Logged cfg t) (hlive : t.st.frameSendTimedOut = false)
    (blocks : List ℕ) (first : ℕ) :
    ∃ t', pacedBlocks cfg first blocks t = some t' ∧ Logged cfg t' ∧
      t'.st = sendBlocksShards cfg (fun _ => false) first blocks t.st ∧
      ∃ batches, t'.st.handed = t.st.handed ++ batches ∧ CutBlocks cfg.sendBatchSize first blocks batches := by
  induction blocks generalizing t first with
  | nil => exact ⟨t, rfl, h, rfl, [], (List.append_nil _).symm, rfl⟩
  | cons n rest ih =>
    have hstart : Logged cfg { t with st := { t.st with nextShardToSend := 0 } } := ⟨h.handed, h.group, h.bound⟩
    obtain ⟨t', hrun, hgoes, hsame⟩ := pacedFirst_ends first hstart rfl (Nat.lt_succ_self n) (le_refl n)
    have hnext : t'.st.nextShardToSend = n := by
      rw [hsame, (sendFirst_schedule cfg first n { t.st with nextShardToSend := 0 } rfl n le_rfl).1]
      exact if_pos rfl
    obtain ⟨front, hfront, hcut⟩ := hgoes.cut
    rw [hnext] at hcut
    obtain ⟨t'', hrun', hlogged, hsame', back, hback, hblocks⟩ := ih hgoes.logged (hgoes.timedOut.trans hlive) (first + 1)
    refine ⟨t'', ?_, hlogged, ?_, front ++ back, ?_, front, back, rfl, hcut, hblocks⟩
    · rw [pacedBlocks, pacedBlock, if_neg (by rw [hlive]; exact Bool.false_ne_true), hrun]
      exact hrun'
    · rw [sendBlocksShards, sendBlockShards, if_neg (by rw [hlive]; exact Bool.false_ne_true), ← hsame]
      exact hsame'
    · rw [hback, hfront, List.append_assoc]

theorem mem_batches {actions : List Action} {batch : Batch} (h : .send batch ∈ actions) :
    batch ∈ actions.filterMap Action.batch := List.mem_filterMap.mpr ⟨_, h, rfl⟩

/-- A log whose groups never count more than the limit has no stretch without a pacing point that sends more. -/
theorem packets_le {limit : ℕ} {actions front middle back : List Action}
    (h : ∀ front, front <+: actions → front.foldl counted 0 ≤ limit) (heq : actions = front ++ middle ++ back)
    (hpace : .pace ∉ middle) : packets middle ≤ limit := by
  have hbound := h (front ++ middle) (heq ▸ List.prefix_append _ _)
  rw [List.foldl_append, foldl_counted hpace] at hbound
  omega

/-- The loops end in the state of the schedule, and the log has every shard once, in batches and groups that are not too
large. -/
theorem paced_frame (cfg : PacingConfig) (blocks : List ℕ) :
    ∃ actions, pacedShards cfg blocks = some ⟨sendShards cfg (fun _ => false) blocks, actions⟩ ∧
      Sent cfg blocks actions := by
  have hstart : Logged cfg ⟨{}, []⟩ := by
    refine ⟨rfl, rfl, fun front hfront => ?_⟩
    rw [List.prefix_nil.mp hfront]
    exact Nat.zero_le _
  obtain ⟨t, hrun, hlogged, hsame, batches, hhanded, hcut⟩ := pacedBlocks_ends hstart rfl blocks 0
  have hbatches : t.actions.filterMap Action.batch = batches := by
    rw [hlogged.handed, hhanded]
    exact List.nil_append _
  refine ⟨t.actions, ?_, fun i n hi => ?_, fun batch hbatch => ?_, fun front middle back heq hpace => ?_⟩
  · unfold pacedShards sendShards
    rw [hrun, ← hsame]
  · have hcovered := hcut.covered hi
    rwa [Nat.zero_add, ← hbatches] at hcovered
  · obtain ⟨-, hblock, hpos, hle⟩ := hcut.mem (hbatches ▸ mem_batches hbatch)
    exact ⟨hpos, hle, by omega⟩
  · exact packets_le hlogged.bound heq hpace

end Sunshine.Video
