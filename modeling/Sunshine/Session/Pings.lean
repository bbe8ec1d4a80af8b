import Mathlib.Data.List.Infix
import Sunshine.ThreadSafe.Queue

/-! How the first pings of a stream reach the session that waits for them (`recvThread` and `recv_ping` of `stream.cpp`).

Each session waits in a thread of its own for each of its two sockets. It has its queue registered under its payload, a
legacy client's also under the address; the thread that receives drains the registrations before it looks up the
receiver of a datagram. -/
namespace Sunshine.Pings
open ThreadSafe
set_option autoImplicit false

abbrev Bytes := List UInt8

inductive SocketType where
  | video
  | audio
  deriving DecidableEq, Repr

structure Endpoint (α : Type) where
  address : α
  port : ℕ
  deriving DecidableEq, Repr

inductive SessionId (α : Type) where
  | address (a : α)
  | payload (bytes : Bytes)
  deriving DecidableEq, Repr

/-- What a call of `recv_ping` is given: `address` is that of `peer` when it starts. -/
structure Session (α : Type) where
  socket : SocketType
  sessionIdV1 : Bool
  expectedPayload : Bytes
  address : α
  deriving DecidableEq, Repr

/-- The registration of a queue, or its removal. `raisedBy` is read by no code. -/
structure Message (α : Type) where
  socket : SocketType
  sessionId : SessionId α
  messages : Option ℕ
  raisedBy : ℕ
  deriving DecidableEq, Repr

/-- The entry behind `emplace`, which keeps one that is there, or `erase`. -/
def Message.apply {α : Type} (message : Message α) (entry : Option ℕ) : Option ℕ :=
  match message.messages with
  | some i => if entry = none then some i else entry
  | none => none

structure Datagram (α : Type) where
  socket : SocketType
  failed : Bool
  peer : Endpoint α
  bytes : Bytes
  deriving DecidableEq, Repr

/-- Where the ping packet with a payload has it. -/
structure PingLayout where
  size : ℕ
  payloadOffset : ℕ
  payloadSize : ℕ
  deriving DecidableEq, Repr

/-- Where a call of `recv_ping` is. -/
inductive Phase where
  | registerAddress
  | registerPayload
  | waiting
  | stopping
  | unregisterAddress
  | unregisterPayload
  | done
  deriving DecidableEq, Repr

inductive Result (α : Type) where
  | received (peer : Endpoint α) (msg : Bytes)
  | timedOut
  deriving DecidableEq, Repr

/-- `pinged` is set when a ping of the session arrives while it waits. No code reads it. -/
structure Waiter (α : Type) where
  peer : Endpoint α
  phase : Phase
  messages : Queue (Endpoint α × Bytes)
  result : Option (Result α)
  pinged : Bool
  deriving DecidableEq, Repr

structure State (α : Type) where
  waiters : ℕ → Waiter α
  messageQueueQueue : Queue (Message α)
  peerToSession : SocketType → SessionId α → Option ℕ
  handling : Option (Datagram α)

/-- The next access of one of the threads. -/
inductive Access (α : Type) where
  | act (i : ℕ)
  | receive (i : ℕ)
  | timeout (i : ℕ)
  | arrive (datagram : Datagram α)
  | drain

variable {α : Type} (layout : PingLayout) (sessions : ℕ → Session α)

def pingPayload (bytes : Bytes) : Bytes := (bytes.drop layout.payloadOffset).take layout.payloadSize

def legacyPing : Bytes := [0x50, 0x49, 0x4e, 0x47]

/-- The keys of a session. -/
def Session.keys (session : Session α) : List (SessionId α) :=
  if session.sessionIdV1 then [.payload session.expectedPayload]
  else [.address session.address, .payload session.expectedPayload]

def Session.accepts (session : Session α) (msg : Bytes) : Bool :=
  decide (session.expectedPayload <:+: msg) || !session.sessionIdV1 && decide (msg = legacyPing)

/-- The datagram is a ping of the session: it has the session's payload, or it is the fixed text from the address of a
legacy client. -/
def Session.isPing [DecidableEq α] (session : Session α) (datagram : Datagram α) : Bool :=
  datagram.socket = session.socket ∧ datagram.failed = false ∧
    (datagram.bytes.length ≠ 4 ∧ datagram.bytes ≠ [] ∧ layout.size ≤ datagram.bytes.length ∧
        pingPayload layout datagram.bytes = session.expectedPayload ∨
      session.sessionIdV1 = false ∧ datagram.peer.address = session.address ∧ datagram.bytes = legacyPing)

namespace State

variable (s : State α)

def setPhase (i : ℕ) (phase : Phase) : State α :=
  { s with waiters := Function.update s.waiters i { s.waiters i with phase } }

def raise (message : Message α) : State α :=
  { s with messageQueueQueue := s.messageQueueQueue.raise message }

/-- The next step of a call of `recv_ping`, outside its wait. -/
def act (i : ℕ) : State α :=
  let session := sessions i
  let address := SessionId.address (s.waiters i).peer.address
  let payload := SessionId.payload session.expectedPayload
  match (s.waiters i).phase with
  | .registerAddress =>
    if session.sessionIdV1 then s.setPhase i .registerPayload
    else (s.raise ⟨session.socket, address, some i, i⟩).setPhase i .registerPayload
  | .registerPayload => (s.raise ⟨session.socket, payload, some i, i⟩).setPhase i .waiting
  | .waiting => s
  | .stopping =>
    { s with
      waiters := Function.update s.waiters i
        { s.waiters i with messages := (s.waiters i).messages.stop, phase := .unregisterAddress } }
  | .unregisterAddress =>
    if session.sessionIdV1 then s.setPhase i .unregisterPayload
    else (s.raise ⟨session.socket, address, none, i⟩).setPhase i .unregisterPayload
  | .unregisterPayload => (s.raise ⟨session.socket, payload, none, i⟩).setPhase i .done
  | .done => s

/-- One turn of the loop of `recv_ping`. -/
def receive (i : ℕ) : State α :=
  let w := s.waiters i
  if w.phase = .waiting then
    match w.messages.popFor with
    | (.waits, _) => s
    | (.returns none, _) =>
      { s with waiters := Function.update s.waiters i { w with phase := .stopping, result := some .timedOut } }
    | (.returns (some (recvPeer, msg)), messages) =>
      if (sessions i).accepts msg then
        { s with
          waiters := Function.update s.waiters i
            { w with messages, peer := recvPeer, phase := .stopping, result := some (.received recvPeer msg) } }
      else { s with waiters := Function.update s.waiters i { w with messages } }
  else s

def timeout (i : ℕ) : State α :=
  let w := s.waiters i
  if w.phase = .waiting then
    { s with waiters := Function.update s.waiters i { w with phase := .stopping, result := some .timedOut } }
  else s

/-- One turn of the loop of `populate_peer_to_session`. -/
def populate [DecidableEq α] (message : Message α) : State α :=
  { s with
    peerToSession := Function.update s.peerToSession message.socket
      (Function.update (s.peerToSession message.socket) message.sessionId
        (message.apply (s.peerToSession message.socket message.sessionId))) }

/-- The key that the receiver of a datagram is looked up by. -/
def target (datagram : Datagram α) : Option (SessionId α) :=
  if datagram.failed ∨ datagram.bytes = [] then none
  else if datagram.bytes.length = 4 then some (.address datagram.peer.address)
  else if layout.size ≤ datagram.bytes.length then some (.payload (pingPayload layout datagram.bytes))
  else none

def receiver (datagram : Datagram α) : Option ℕ :=
  (target layout datagram).bind (s.peerToSession datagram.socket)

def dispatch [DecidableEq α] (datagram : Datagram α) : State α :=
  { s with
    handling := none
    waiters := fun i =>
      let w := s.waiters i
      { w with
        messages :=
          if s.receiver layout datagram = some i then w.messages.raise (datagram.peer, datagram.bytes) else w.messages
        pinged := w.pinged || decide (w.phase = .waiting) && (sessions i).isPing layout datagram } }

/-- The handler of a datagram: one registration, or the datagram itself when none is left. -/
def drain [DecidableEq α] : State α :=
  match s.handling with
  | none => s
  | some datagram =>
    match s.messageQueueQueue.tryPop with
    | (some message, messageQueueQueue) => { s with messageQueueQueue }.populate message
    | (none, _) => s.dispatch layout sessions datagram

end State

def start : State α where
  waiters i :=
    { peer := ⟨(sessions i).address, 0⟩
      phase := .registerAddress
      messages := { maxElements := 30 }
      result := none
      pinged := false }
  messageQueueQueue := { maxElements := 30 }
  peerToSession _ _ := none
  handling := none

def next [DecidableEq α] (s : State α) : Access α → State α
  | .act i => s.act sessions i
  | .receive i => s.receive sessions i
  | .timeout i => s.timeout i
  | .arrive datagram => if s.handling = none then { s with handling := some datagram } else s
  | .drain => s.drain layout sessions

end Sunshine.Pings
