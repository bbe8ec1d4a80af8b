import Sunshine.Lib.Scatter
import Sunshine.Lib.Slices

/-! `send_batch` of the Linux platform: a batch of datagrams through `sendmsg` with segmentation offload, and through
`sendmmsg` where that is not supported.

One answer of the kernel is one step, so that everything is said about the call at any of its system calls.
`sendBatch_delivers` is about all of them. -/
namespace Sunshine.SendBatch
open Scatter Slices
set_option autoImplicit false

abbrev Byte := UInt8

/-- `batched_send_info_t`; `hasDeadline` says that `deadline` is not the largest time point. -/
structure BatchedSendInfo where
  headers : Option (List Byte)
  headerSize : ℕ
  payloadBuffers : List (List Byte)
  payloadSize : ℕ
  blockOffset : ℕ
  blockCount : ℕ
  hasDeadline : Bool

def BatchedSendInfo.bufferForPayloadOffset (info : BatchedSendInfo) (offset : ℕ) : List Byte :=
  regionAt info.payloadBuffers offset

def BatchedSendInfo.msgSize (info : BatchedSendInfo) : ℕ := info.headerSize + info.payloadSize

/-! ## Messages

An `iovec` is what lies behind its pointer, with its length, and a message is what it gathers. -/

abbrev Iov := List Byte × ℕ

/-- The header and the payload of one block. -/
def blockIovs (info : BatchedSendInfo) (block : ℕ) : List Iov :=
  (match info.headers with
    | none => []
    | some headers => [(headers.drop (block * info.headerSize), info.headerSize)]) ++
    [(info.bufferForPayloadOffset (block * info.payloadSize), info.payloadSize)]

/-- The vector of a `sendmsg`; without headers it has a place for each buffer. -/
def gsoIovs (info : BatchedSendInfo) (segIndex segsInBatch : ℕ) : List Iov :=
  match info.headers with
  | some _ => (List.range segsInBatch).flatMap fun i => blockIovs info (info.blockOffset + segIndex + i)
  | none =>
    let payloadOffset := (info.blockOffset + segIndex) * info.payloadSize
    let payloadLength := payloadOffset + segsInBatch * info.payloadSize
    pieces info.payloadBuffers info.payloadBuffers.length payloadOffset payloadLength

def segMax : ℕ := 65536 / 1500

def segsInBatch (info : BatchedSendInfo) (segIndex : ℕ) : ℕ := min (info.blockCount - segIndex) segMax

/-- The 16 bits of `UDP_SEGMENT`, which is given for more than one segment. -/
def gsoSize (info : BatchedSendInfo) (segsInBatch : ℕ) : ℕ := if 1 < segsInBatch then info.msgSize % 65536 else 0

/-- The kernel cuts a message into segments of the size it is given. -/
def datagrams (gsoSize : ℕ) (message : List Byte) : List (List Byte) :=
  if gsoSize = 0 then [message] else slices gsoSize message

/-- The kernel takes no longer message. -/
def maxMessage : ℕ := 65535

/-! ## The call -/

/-- What `sendmsg` or `sendmmsg` comes to: `sendmsg` takes the whole message, and `sendmmsg` so many of them. -/
inductive Sent where
  | sent (msgs : ℕ)
  | again
  | failed
  deriving DecidableEq

inductive Polled where
  | ready
  | nothing
  | interrupted
  | failed
  deriving DecidableEq

/-- The answers to a system call; `expired` is the clock before a `poll`. -/
structure Answer where
  sent : Sent
  expired : Bool
  poll : Polled

inductive Phase where
  | sendmsg
  | sendmsgWait
  | sendmmsg
  | sendmmsgWait
  | returned (success : Bool)
  deriving DecidableEq

/-- `accepted` is what the socket has taken. -/
structure State where
  phase : Phase
  segIndex : ℕ
  blocksSent : ℕ
  timedOut : Bool
  accepted : List (List Byte)
  deriving DecidableEq

inductive Waited where
  | more
  | ready
  | timedOut
  | failed

/-- One round of the loop in `wait_for_send_buffer`. -/
def waitForSendBuffer (info : BatchedSendInfo) (answer : Answer) : Waited :=
  if info.hasDeadline ∧ answer.expired then .timedOut
  else
    match answer.poll with
    | .ready => .ready
    | .nothing => .timedOut
    | .interrupted => .more
    | .failed => .failed

/-- The condition of the `sendmmsg` loop. -/
def mmsgLoop (info : BatchedSendInfo) (s : State) : State :=
  { s with phase := if s.blocksSent < info.blockCount then .sendmmsg else .returned true }

/-- Behind the `sendmsg` loop: there is no way back once something was sent. -/
def gsoDone (info : BatchedSendInfo) (s : State) : State :=
  if s.segIndex ≠ 0 then
    { s with phase := .returned true, timedOut := s.timedOut || s.segIndex < info.blockCount }
  else mmsgLoop info { s with blocksSent := 0 }

/-- The condition of the `sendmsg` loop. -/
def gsoLoop (info : BatchedSendInfo) (s : State) : State :=
  if s.segIndex < info.blockCount then { s with phase := .sendmsg } else gsoDone info s

def mmsgFailed (s : State) : State :=
  if s.blocksSent ≠ 0 then { s with phase := .returned true, timedOut := true }
  else { s with phase := .returned false }

def start (info : BatchedSendInfo) : State := gsoLoop info ⟨.sendmsg, 0, 0, false, []⟩

def message (iovs : List Iov) : List Byte := gathered iovs

/-- The messages of `sendmmsg`, one for each block. -/
def mmsgs (info : BatchedSendInfo) : List (List Byte) :=
  (List.range info.blockCount).map fun i => message (blockIovs info (info.blockOffset + i))

def stepSendmsg (info : BatchedSendInfo) (sent : Sent) (s : State) : State :=
  let segs := segsInBatch info s.segIndex
  let bytes := message (gsoIovs info s.segIndex segs)
  match sent with
  | .sent _ =>
    if maxMessage < bytes.length then gsoDone info s
    else
      gsoLoop info
        { s with
          segIndex := s.segIndex + bytes.length / info.msgSize
          accepted := s.accepted ++ datagrams (gsoSize info segs) bytes }
  | .again => { s with phase := .sendmsgWait }
  | .failed => gsoDone info s

def stepSendmmsg (info : BatchedSendInfo) (sent : Sent) (s : State) : State :=
  match sent with
  | .sent msgs =>
    let taken := ((mmsgs info).drop s.blocksSent).take msgs
    mmsgLoop info { s with blocksSent := s.blocksSent + taken.length, accepted := s.accepted ++ taken }
  | .again => { s with phase := .sendmmsgWait }
  | .failed => mmsgFailed s

def step (info : BatchedSendInfo) (s : State) (answer : Answer) : State :=
  match s.phase with
  | .sendmsg => stepSendmsg info answer.sent s
  | .sendmsgWait =>
    match waitForSendBuffer info answer with
    | .more => s
    | .ready => { s with phase := .sendmsg }
    | .timedOut => { s with phase := .returned true, timedOut := true }
    | .failed => gsoDone info s
  | .sendmmsg => stepSendmmsg info answer.sent s
  | .sendmmsgWait =>
    match waitForSendBuffer info answer with
    | .more => s
    | .ready => { s with phase := .sendmmsg }
    | .timedOut => { s with phase := .returned true, timedOut := true }
    | .failed => mmsgFailed s
  | .returned _ => s

/-! ## Blocks -/

/-- A block: its own header and its own payload. -/
def block (info : BatchedSendInfo) (index : ℕ) : List Byte :=
  ((info.headers.getD []).drop (index * info.headerSize)).take info.headerSize ++
    (info.payloadBuffers.flatten.drop (index * info.payloadSize)).take info.payloadSize

/-- The first blocks of the batch. -/
def blocks (info : BatchedSendInfo) (count : ℕ) : List (List Byte) :=
  (List.range count).map fun i => block info (info.blockOffset + i)

/-- The blocks lie in the buffers, which are aligned to the payload size. -/
structure WellFormed (info : BatchedSendInfo) : Prop where
  msgSize : 0 < info.msgSize
  blockCount : 0 < info.blockCount
  noHeaders : info.headers = none → info.headerSize = 0
  headers : ∀ headers, info.headers = some headers →
    (info.blockOffset + info.blockCount) * info.headerSize ≤ headers.length
  aligned : ∀ buffer ∈ info.payloadBuffers, info.payloadSize ∣ buffer.length
  payload : (info.blockOffset + info.blockCount) * info.payloadSize ≤ info.payloadBuffers.flatten.length

section WellFormed

variable {info : BatchedSendInfo} (wf : WellFormed info)

include wf

theorem message_blockIovs (i : ℕ) (inside : i < info.blockCount) :
    message (blockIovs info (info.blockOffset + i)) = block info (info.blockOffset + i) := by
  have bound : (info.blockOffset + i + 1) * info.payloadSize ≤ info.payloadBuffers.flatten.length :=
    le_trans (Nat.mul_le_mul_right _ (by omega)) wf.payload
  have payload := take_regionAt info.payloadSize info.payloadBuffers wf.aligned (info.blockOffset + i) bound
  cases headers : info.headers with
  | none =>
    simp [message, blockIovs, block, headers, BatchedSendInfo.bufferForPayloadOffset, payload,
      wf.noHeaders headers]
  | some bytes =>
    simp [message, blockIovs, block, headers, BatchedSendInfo.bufferForPayloadOffset, payload]

theorem block_length (i : ℕ) (inside : i < info.blockCount) :
    (block info (info.blockOffset + i)).length = info.msgSize := by
  have header : (((info.headers.getD []).drop ((info.blockOffset + i) * info.headerSize)).take
      info.headerSize).length = info.headerSize := by
    cases headers : info.headers with
    | none => simp [wf.noHeaders headers]
    | some bytes =>
      have bound := le_trans (Nat.mul_le_mul_right info.headerSize
        (by omega : info.blockOffset + i + 1 ≤ info.blockOffset + info.blockCount)) (wf.headers bytes headers)
      rw [Nat.succ_mul] at bound
      rw [Option.getD_some, List.length_take, List.length_drop]
      omega
  have bound := le_trans (Nat.mul_le_mul_right info.payloadSize
    (by omega : info.blockOffset + i + 1 ≤ info.blockOffset + info.blockCount)) wf.payload
  rw [Nat.succ_mul] at bound
  rw [block, List.length_append, header, List.length_take, List.length_drop, BatchedSendInfo.msgSize]
  omega

/-- A `sendmsg` gathers the blocks of its group. -/
theorem message_gsoIovs (segIndex segs : ℕ) (inside : segIndex + segs ≤ info.blockCount) :
    message (gsoIovs info segIndex segs) =
      ((List.range segs).map fun i => block info (info.blockOffset + (segIndex + i))).flatten := by
  cases headers : info.headers with
  | some bytes =>
    have each : ∀ i ∈ List.range segs, message (blockIovs info (info.blockOffset + segIndex + i)) =
        block info (info.blockOffset + (segIndex + i)) := by
      intro i mem
      rw [Nat.add_assoc]
      exact message_blockIovs wf _ (by have := List.mem_range.mp mem; omega)
    simp only [gsoIovs, headers]
    rw [← List.map_congr_left each, message, gathered, List.flatMap_assoc, List.flatMap_def]
    rfl
  | none =>
    have stop : (info.blockOffset + segIndex) * info.payloadSize + segs * info.payloadSize ≤
        info.payloadBuffers.flatten.length := by
      rw [← Nat.add_mul]
      exact le_trans (Nat.mul_le_mul_right _ (by omega)) wf.payload
    simp only [gsoIovs, headers]
    rw [message, gathered_pieces _ _ _ _ le_rfl stop, Nat.add_sub_cancel_left,
      ← flatten_pieces info.payloadSize segs]
    congr 1
    apply List.map_congr_left
    intro i mem
    rw [block, wf.noHeaders headers, List.take_zero, List.nil_append, List.drop_drop, ← Nat.add_mul, Nat.add_assoc]

theorem message_gsoIovs_length (segIndex segs : ℕ) (inside : segIndex + segs ≤ info.blockCount) :
    (message (gsoIovs info segIndex segs)).length = segs * info.msgSize := by
  have each : ∀ part ∈ (List.range segs).map fun i => block info (info.blockOffset + (segIndex + i)),
      part.length = info.msgSize := by
    intro part mem
    obtain ⟨i, inRange, rfl⟩ := List.mem_map.mp mem
    exact block_length wf _ (by have := List.mem_range.mp inRange; omega)
  rw [message_gsoIovs wf segIndex segs inside, List.length_flatten, List.map_congr_left each]
  simp [Function.comp_def]

/-- The segments of an accepted `sendmsg` are the blocks of its group. -/
theorem datagrams_gsoIovs (segIndex segs : ℕ) (some : 0 < segs) (inside : segIndex + segs ≤ info.blockCount)
    (fits : (message (gsoIovs info segIndex segs)).length ≤ maxMessage) :
    datagrams (gsoSize info segs) (message (gsoIovs info segIndex segs)) =
      (List.range segs).map fun i => block info (info.blockOffset + (segIndex + i)) := by
  have positive := wf.msgSize
  rw [message_gsoIovs_length wf segIndex segs inside, maxMessage] at fits
  rw [message_gsoIovs wf segIndex segs inside]
  by_cases several : 1 < segs
  · -- two segments fit, so the size is not cut to its 16 bits
    have small : info.msgSize < 65536 := by
      have := Nat.mul_le_mul_right info.msgSize several
      omega
    have equal : ∀ part ∈ (List.range segs).map fun i => block info (info.blockOffset + (segIndex + i)),
        part.length = info.msgSize := by
      intro part mem
      obtain ⟨i, inRange, rfl⟩ := List.mem_map.mp mem
      exact block_length wf _ (by have := List.mem_range.mp inRange; omega)
    rw [datagrams, gsoSize, if_pos several, Nat.mod_eq_of_lt small, if_neg (by omega)]
    exact slices_flatten info.msgSize positive _ (sliced_of_length positive equal)
  · obtain rfl : segs = 1 := by omega
    simp [datagrams, gsoSize]

end WellFormed

theorem blocks_add (info : BatchedSendInfo) (count more : ℕ) :
    blocks info (count + more) =
      blocks info count ++ (List.range more).map fun i => block info (info.blockOffset + (count + i)) := by
  rw [blocks, List.range_add, List.map_append, List.map_map]
  rfl

@[simp]
theorem blocks_length (info : BatchedSendInfo) (count : ℕ) : (blocks info count).length = count := by
  simp [blocks]

/-! ## One step -/

/-- What has been delivered in each phase of the call. -/
def Delivered (info : BatchedSendInfo) (s : State) (k : ℕ) : Prop :=
  s.accepted = blocks info k ∧
    match s.phase with
    | .sendmsg | .sendmsgWait => s.segIndex = k ∧ k < info.blockCount ∧ s.timedOut = false
    | .sendmmsg | .sendmmsgWait => s.blocksSent = k ∧ k < info.blockCount ∧ s.timedOut = false
    | .returned success =>
      k ≤ info.blockCount ∧ ((success = true ∧ s.timedOut = false) ↔ k = info.blockCount) ∧
        (success = false → k = 0)

section Steps

variable {info : BatchedSendInfo} {s : State} {k : ℕ}

theorem mmsgLoop_delivered (accepted : s.accepted = blocks info k) (sent : s.blocksSent = k)
    (inside : k ≤ info.blockCount) (inTime : s.timedOut = false) : Delivered info (mmsgLoop info s) k := by
  refine ⟨accepted, ?_⟩
  by_cases more : k < info.blockCount
  · simp [mmsgLoop, sent, more, inTime]
  · have all : k = info.blockCount := by omega
    simp [mmsgLoop, sent, inTime, all]

theorem gsoDone_delivered (accepted : s.accepted = blocks info k) (sent : s.segIndex = k)
    (inside : k ≤ info.blockCount) (inTime : s.timedOut = false) : Delivered info (gsoDone info s) k := by
  rw [gsoDone]
  by_cases something : s.segIndex ≠ 0
  · rw [if_pos something]
    refine ⟨accepted, inside, ?_, by simp⟩
    simp only [inTime, sent, Bool.false_or, decide_eq_false_iff_not, true_and]
    omega
  · rw [if_neg something]
    exact mmsgLoop_delivered accepted (by simp only; omega) inside inTime

theorem gsoLoop_delivered (accepted : s.accepted = blocks info k) (sent : s.segIndex = k)
    (inside : k ≤ info.blockCount) (inTime : s.timedOut = false) : Delivered info (gsoLoop info s) k := by
  rw [gsoLoop]
  by_cases more : s.segIndex < info.blockCount
  · rw [if_pos more]
    exact ⟨accepted, sent, by omega, inTime⟩
  · rw [if_neg more]
    exact gsoDone_delivered accepted sent inside inTime

theorem mmsgFailed_delivered (accepted : s.accepted = blocks info k) (sent : s.blocksSent = k)
    (inside : k < info.blockCount) : Delivered info (mmsgFailed s) k := by
  rw [mmsgFailed]
  by_cases something : s.blocksSent ≠ 0
  · rw [if_pos something]
    exact ⟨accepted, inside.le, by simp; omega, by simp⟩
  · rw [if_neg something]
    exact ⟨accepted, inside.le, by simp; omega, fun _ => by omega⟩

theorem expired_delivered (accepted : s.accepted = blocks info k) (inside : k < info.blockCount) :
    Delivered info { s with phase := .returned true, timedOut := true } k :=
  ⟨accepted, inside.le, by simp; omega, by simp⟩

theorem stepSendmsg_delivered (wf : WellFormed info) (sent : Sent) (phase : s.phase = .sendmsg)
    (delivered : Delivered info s k) : ∃ more, Delivered info (stepSendmsg info sent s) more := by
  obtain ⟨accepted, rest⟩ := delivered
  simp only [phase] at rest
  obtain ⟨index, inside, inTime⟩ := rest
  cases sent with
  | again => exact ⟨k, accepted, index, inside, inTime⟩
  | failed => exact ⟨k, gsoDone_delivered accepted index inside.le inTime⟩
  | sent msgs =>
    have segsPos : 0 < segsInBatch info s.segIndex := by
      simp only [segsInBatch, segMax]
      omega
    have segsInside : s.segIndex + segsInBatch info s.segIndex ≤ info.blockCount := by
      simp only [segsInBatch]
      omega
    rw [stepSendmsg]
    generalize segsInBatch info s.segIndex = segs at segsPos segsInside ⊢
    by_cases tooLong : maxMessage < (message (gsoIovs info s.segIndex segs)).length
    · exact ⟨k, by simpa only [if_pos tooLong] using gsoDone_delivered accepted index inside.le inTime⟩
    · refine ⟨k + segs, ?_⟩
      have parts := datagrams_gsoIovs wf s.segIndex segs segsPos segsInside (not_lt.mp tooLong)
      simp only [if_neg tooLong]
      rw [message_gsoIovs_length wf s.segIndex segs segsInside, Nat.mul_div_cancel _ wf.msgSize, parts, index,
        accepted, ← blocks_add]
      exact gsoLoop_delivered rfl rfl (index ▸ segsInside) inTime

theorem stepSendmmsg_delivered (wf : WellFormed info) (sent : Sent) (phase : s.phase = .sendmmsg)
    (delivered : Delivered info s k) : ∃ more, Delivered info (stepSendmmsg info sent s) more := by
  obtain ⟨accepted, rest⟩ := delivered
  simp only [phase] at rest
  obtain ⟨index, inside, inTime⟩ := rest
  cases sent with
  | again => exact ⟨k, accepted, index, inside, inTime⟩
  | failed => exact ⟨k, mmsgFailed_delivered accepted index inside⟩
  | sent msgs =>
    have all : mmsgs info = blocks info info.blockCount :=
      List.map_congr_left fun i mem => message_blockIovs wf i (List.mem_range.mp mem)
    have split : mmsgs info = blocks info k ++
        (List.range (info.blockCount - k)).map fun i => block info (info.blockOffset + (k + i)) := by
      rw [all, ← blocks_add, Nat.add_sub_cancel' inside.le]
    have taken : ((mmsgs info).drop k).take msgs =
        (List.range (min msgs (info.blockCount - k))).map fun i => block info (info.blockOffset + (k + i)) := by
      rw [split, List.drop_left' (blocks_length info k), ← List.map_take, List.take_range]
    refine ⟨k + min msgs (info.blockCount - k), ?_⟩
    rw [stepSendmmsg]
    simp only [index, taken, List.length_map, List.length_range]
    rw [accepted, ← blocks_add]
    exact mmsgLoop_delivered rfl rfl (by omega) inTime

/-- One system call. -/
theorem step_delivered (wf : WellFormed info) (answer : Answer) (delivered : Delivered info s k) :
    ∃ more, Delivered info (step info s answer) more := by
  cases phase : s.phase with
  | sendmsg =>
    rw [step, phase]
    exact stepSendmsg_delivered wf answer.sent phase delivered
  | sendmmsg =>
    rw [step, phase]
    exact stepSendmmsg_delivered wf answer.sent phase delivered
  | returned success =>
    rw [step, phase]
    exact ⟨k, delivered⟩
  | sendmsgWait =>
    obtain ⟨accepted, rest⟩ := id delivered
    simp only [phase] at rest
    obtain ⟨index, inside, inTime⟩ := rest
    rw [step, phase]
    cases waitForSendBuffer info answer with
    | more => exact ⟨k, delivered⟩
    | ready => exact ⟨k, accepted, index, inside, inTime⟩
    | timedOut => exact ⟨k, expired_delivered accepted inside⟩
    | failed => exact ⟨k, gsoDone_delivered accepted index inside.le inTime⟩
  | sendmmsgWait =>
    obtain ⟨accepted, rest⟩ := id delivered
    simp only [phase] at rest
    obtain ⟨index, inside, inTime⟩ := rest
    rw [step, phase]
    cases waitForSendBuffer info answer with
    | more => exact ⟨k, delivered⟩
    | ready => exact ⟨k, accepted, index, inside, inTime⟩
    | timedOut => exact ⟨k, expired_delivered accepted inside⟩
    | failed => exact ⟨k, mmsgFailed_delivered accepted index inside⟩

/-- Any number of system calls. -/
theorem run_delivered (wf : WellFormed info) (answers : List Answer) (delivered : Delivered info s k) :
    ∃ more, Delivered info (answers.foldl (step info) s) more := by
  induction answers generalizing s k with
  | nil => exact ⟨k, delivered⟩
  | cons answer answers ih =>
    obtain ⟨more, next⟩ := step_delivered wf answer delivered
    exact ih next

end Steps

/-- Whatever the kernel answers, the socket has taken the first blocks of the batch in their order; the call reports
success without a timeout exactly when these are all of them, and failure only if there are none. -/
theorem sendBatch_delivers (info : BatchedSendInfo) (wf : WellFormed info) (answers : List Answer) :
    let s := answers.foldl (step info) (start info)
    s.accepted = blocks info s.accepted.length ∧ s.accepted.length ≤ info.blockCount ∧
      ((s.phase = .returned true ∧ s.timedOut = false) ↔ s.accepted.length = info.blockCount) ∧
      (s.phase = .returned false → s.accepted.length = 0) := by
  intro s
  obtain ⟨k, accepted, rest⟩ : ∃ k, Delivered info s k :=
    run_delivered wf answers (gsoLoop_delivered (k := 0) rfl rfl (Nat.zero_le _) rfl)
  have length : s.accepted.length = k := by rw [accepted, blocks_length]
  rw [length]
  refine ⟨accepted, ?_⟩
  cases phase : s.phase with
  | sendmsg | sendmsgWait | sendmmsg | sendmmsgWait =>
    simp only [phase] at rest
    have inside := rest.2.1
    simp [inside.le, inside.ne]
  | returned success =>
    simp only [phase] at rest
    simpa using rest

namespace OneSent

/-- Three blocks in two buffers, each behind a header of one byte. -/
def info : BatchedSendInfo := ⟨some [1, 2, 3, 4], 1, [[10, 11, 12, 13], [14, 15, 16, 17]], 2, 1, 3, true⟩

def answers : List Answer :=
  [⟨.failed, false, .ready⟩, ⟨.sent 1, false, .ready⟩, ⟨.again, false, .ready⟩, ⟨.again, false, .interrupted⟩,
    ⟨.again, true, .ready⟩]

theorem wellFormed : WellFormed info := by
  constructor <;> simp [info, BatchedSendInfo.msgSize]

/-- The offload is refused, one message is sent, and the deadline passes. -/
theorem sendBatch_delivers_one :
    let s := answers.foldl (step info) (start info)
    s.accepted = [[2, 12, 13]] ∧ ¬ (s.phase = .returned true ∧ s.timedOut = false) := by
  have delivers := sendBatch_delivers info wellFormed answers
  have one : (answers.foldl (step info) (start info)).accepted.length = 1 := by decide
  exact ⟨delivers.1.trans (by rw [one]; decide), delivers.2.2.1.not.mpr (by rw [one]; decide)⟩

end OneSent

/-! ## Returning

Where no answer is EAGAIN the call comes to its end; it is the kernel alone that can keep it waiting. -/

/-- A bound on the system calls that are left. -/
def remaining (info : BatchedSendInfo) (s : State) : ℕ :=
  match s.phase with
  | .sendmsg | .sendmsgWait => 2 * info.blockCount + 1 - s.segIndex
  | .sendmmsg | .sendmmsgWait => info.blockCount - s.blocksSent
  | .returned _ => 0

def Waiting (s : State) : Prop := s.phase = .sendmsgWait ∨ s.phase = .sendmmsgWait

def Moves (answer : Answer) : Prop := answer.sent = .failed ∨ ∃ msgs, 0 < msgs ∧ answer.sent = .sent msgs

section Returning

variable {info : BatchedSendInfo} {s : State} {k : ℕ}

theorem mmsgLoop_remaining (info : BatchedSendInfo) (s : State) : ¬ Waiting (mmsgLoop info s) ∧
    remaining info (mmsgLoop info s) ≤ info.blockCount - s.blocksSent := by
  by_cases more : s.blocksSent < info.blockCount <;> simp [mmsgLoop, Waiting, remaining, more]

theorem gsoDone_remaining (info : BatchedSendInfo) (s : State) : ¬ Waiting (gsoDone info s) ∧
    remaining info (gsoDone info s) ≤ info.blockCount := by
  rw [gsoDone]
  split
  · simp [Waiting, remaining]
  · exact mmsgLoop_remaining info _

theorem gsoLoop_remaining (info : BatchedSendInfo) (s : State) (sent : 0 < s.segIndex) :
    ¬ Waiting (gsoLoop info s) ∧ remaining info (gsoLoop info s) ≤ 2 * info.blockCount + 1 - s.segIndex := by
  rw [gsoLoop]
  split
  · simp [Waiting, remaining]
  · rw [gsoDone, if_pos (by omega)]
    simp [Waiting, remaining]

theorem step_remaining (wf : WellFormed info) (answer : Answer) (moves : Moves answer) (going : ¬ Waiting s)
    (delivered : Delivered info s k) :
    ¬ Waiting (step info s answer) ∧ remaining info (step info s answer) ≤ remaining info s - 1 := by
  obtain ⟨accepted, rest⟩ := delivered
  cases phase : s.phase with
  | sendmsgWait => exact absurd (Or.inl phase) going
  | sendmmsgWait => exact absurd (Or.inr phase) going
  | returned success => simp [step, phase, Waiting, remaining]
  | sendmsg =>
    simp only [phase] at rest
    have done := gsoDone_remaining info s
    have before : remaining info s = 2 * info.blockCount + 1 - s.segIndex := by rw [remaining, phase]
    rw [step, phase, before]
    rcases moves with failed | ⟨msgs, positive, sent⟩
    · simp only [failed, stepSendmsg]
      exact ⟨done.1, by omega⟩
    · simp only [sent, stepSendmsg]
      split
      · exact ⟨done.1, by omega⟩
      · have segsPos : 0 < segsInBatch info s.segIndex := by
          simp only [segsInBatch, segMax]
          omega
        have length := message_gsoIovs_length wf s.segIndex (segsInBatch info s.segIndex)
          (by simp only [segsInBatch]; omega)
        rw [length, Nat.mul_div_cancel _ wf.msgSize]
        have more := gsoLoop_remaining info
          { s with
            segIndex := s.segIndex + segsInBatch info s.segIndex
            accepted := s.accepted ++ datagrams (gsoSize info (segsInBatch info s.segIndex))
              (message (gsoIovs info s.segIndex (segsInBatch info s.segIndex))) } (by simp only; omega)
        exact ⟨more.1, le_trans more.2 (by simp only; omega)⟩
  | sendmmsg =>
    simp only [phase] at rest
    have before : remaining info s = info.blockCount - s.blocksSent := by rw [remaining, phase]
    rw [step, phase, before]
    rcases moves with failed | ⟨msgs, positive, sent⟩
    · simp only [failed, stepSendmmsg, mmsgFailed]
      split <;> simp [Waiting, remaining]
    · simp only [sent, stepSendmmsg]
      have more := mmsgLoop_remaining info
        { s with
          blocksSent := s.blocksSent + (((mmsgs info).drop s.blocksSent).take msgs).length
          accepted := s.accepted ++ ((mmsgs info).drop s.blocksSent).take msgs }
      refine ⟨more.1, le_trans more.2 ?_⟩
      simp only [List.length_take, List.length_drop, mmsgs, List.length_map, List.length_range]
      omega

theorem run_remaining (wf : WellFormed info) (answers : List Answer) (moves : ∀ answer ∈ answers, Moves answer)
    (going : ¬ Waiting s) (delivered : Delivered info s k) :
    remaining info (answers.foldl (step info) s) ≤ remaining info s - answers.length := by
  induction answers generalizing s k with
  | nil => exact le_rfl
  | cons answer answers ih =>
    have next := step_remaining wf answer (moves answer (List.mem_cons_self ..)) going delivered
    obtain ⟨more, still⟩ := step_delivered wf answer delivered
    have rest := ih (fun later mem => moves later (List.mem_cons_of_mem answer mem)) next.1 still
    rw [List.foldl_cons, List.length_cons]
    omega

/-- Behind as many answers the call has returned. -/
theorem sendBatch_returns (wf : WellFormed info) (answers : List Answer) (moves : ∀ answer ∈ answers, Moves answer)
    (enough : 2 * info.blockCount < answers.length) :
    ∃ success, (answers.foldl (step info) (start info)).phase = .returned success := by
  have first : start info = ⟨.sendmsg, 0, 0, false, []⟩ := by simp [start, gsoLoop, wf.blockCount]
  have delivered : Delivered info (start info) 0 := gsoLoop_delivered rfl rfl (Nat.zero_le _) rfl
  have bound := run_remaining wf answers moves (by simp [first, Waiting]) delivered
  obtain ⟨k, accepted, rest⟩ := run_delivered wf answers delivered
  have begins : remaining info (start info) = 2 * info.blockCount + 1 := by simp [first, remaining]
  rw [begins, remaining] at bound
  cases phase : (answers.foldl (step info) (start info)).phase with
  | returned success => exact ⟨success, rfl⟩
  | sendmsg | sendmsgWait | sendmmsg | sendmmsgWait =>
    simp only [phase] at rest bound
    omega

end Returning

end Sunshine.SendBatch
