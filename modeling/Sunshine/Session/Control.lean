import Sunshine.Lib.Bytes
import Sunshine.Session.Nonces
import Sunshine.Session.Lifecycle

/-! A message of the control stream from ENet to its handler (`control_server_t::iterate` and `call`,
the handlers of `controlBroadcastThread`, and `gcm_t::decrypt`).

Every read goes through `Views`, so that one outside the message, a size below zero or a throwing
`substr` is a fault of the run. OpenSSL's context is a parameter, and so is what the code takes from
the streaming protocol's header about `SS_FRAME_FEC_STATUS`. -/
namespace Sunshine.Session
open Bytes Views
set_option autoImplicit false

/-! ## Message types -/

def idxStartA : ℕ := 0
def idxStartB : ℕ := 1
def idxInvalidateRefFrames : ℕ := 2
def idxLossStats : ℕ := 3
def idxInputData : ℕ := 5
def idxPeriodicPing : ℕ := 8
def idxRequestIdrFrame : ℕ := 9
def idxEncrypted : ℕ := 10

def packetTypes : List ℕ :=
  [0x0305, 0x0307, 0x0301, 0x0201, 0x0204, 0x0206, 0x010b, 0x0109, 0x0200, 0x0302, 0x0001, 0x010e,
    0x5500, 0x5501, 0x5502, 0x5503]

def packetType (idx : ℕ) : ℕ := packetTypes.getD idx 0

inductive Handler where
  | periodicPing
  | startA
  | startB
  | lossStats
  | frameFecStatus
  | requestIdrFrame
  | invalidateRefFrames
  | inputData
  | encrypted
  deriving DecidableEq, Repr

/-- The handlers in the order they are mapped; a type mapped twice keeps the first one. -/
def mapTypeCb (frameFecPtype : ℕ) : List (ℕ × Handler) :=
  [(packetType idxPeriodicPing, .periodicPing), (packetType idxStartA, .startA),
    (packetType idxStartB, .startB), (packetType idxLossStats, .lossStats),
    (frameFecPtype, .frameFecStatus), (packetType idxRequestIdrFrame, .requestIdrFrame),
    (packetType idxInvalidateRefFrames, .invalidateRefFrames), (packetType idxInputData, .inputData),
    (packetType idxEncrypted, .encrypted)]

/-! ## Parameters and sessions -/

/-- OpenSSL's decryption with one key: a context made for an IV, the change of its IV, and the
decryption of a ciphertext with its tag. -/
structure EvpDecrypt (Ctx : Type) where
  init : Iv → Ctx × Bool
  setIv : Ctx → Iv → Ctx × Bool
  finish : Ctx → List UInt8 → List UInt8 → Ctx × Option (List UInt8)

/-- `SS_FRAME_FEC_STATUS`: its packet type, its size, and two of its fields. -/
structure FrameFecStatus where
  ptype : ℕ
  size : ℕ
  totalDataPackets : List UInt8 → ℕ
  missingPacketsBeforeHighestReceived : List UInt8 → ℕ

structure ControlServer (Ctx : Type) where
  evp : EvpDecrypt Ctx
  fecStatus : FrameFecStatus
  pingTimeout : ℕ

/-- What the handlers use of a session. -/
structure ControlSession (Ctx : Type) where
  controlProtocolType : ℤ
  encControlV2 : Bool
  status : StreamStatus
  decryptCtx : Option Ctx
  incomingIv : Iv
  legacyInputEncIv : Iv
  pingTimeout : ℕ
  lastInputTime : ℕ
  shutdownEvent : Bool
  idrEvents : Bool
  invalidateRefFramesEvents : Option (ℤ × ℤ)
  netStatsEvents : Option (ℕ × ℕ × ℕ)
  inputQueue : List (List UInt8)

structure Arrival where
  now : ℕ
  peerRtt : Option ℕ

section Server

variable {Ctx : Type}

/-- `session::stop`. -/
def ControlSession.stop (s : ControlSession Ctx) : ControlSession Ctx :=
  { s with
    status := s.status.stop
    shutdownEvent := s.shutdownEvent || s.status.state = .running }

def signed (bits v : ℕ) : ℤ := if v < 2 ^ (bits - 1) then v else v - 2 ^ bits

def sizeT (v : ℤ) : ℕ := (v % 2 ^ 64).toNat

/-! ## Decryption -/

def tagSize : ℕ := 16

/-- `gcm_t::decrypt`: the context after it, and the plaintext unless it says that it failed. A change
of IV that fails returns `false`, which its callers read as success with the empty plaintext. -/
def gcmDecrypt (evp : EvpDecrypt Ctx) (decryptCtx : Option Ctx) (taggedCipher : View) (iv : Iv) :
    Except Fault (Ctx × Option (List UInt8)) := do
  let (ctx, ready) :=
    match decryptCtx with
    | some ctx => (ctx, true)
    | none => evp.init iv
  if !ready then return (ctx, none)
  let (ctx, set) := evp.setIv ctx iv
  if !set then return (ctx, some [])
  let cipher ← (← taggedCipher.substr tagSize).read
  let tag ← (taggedCipher.first tagSize).read
  return evp.finish ctx cipher tag

/-! ## Handlers -/

def handleLossStats (s : ControlSession Ctx) (payload : View) : Except Fault (ControlSession Ctx) := do
  if payload.len < 4 * 4 then return s
  let _count ← readLe payload.data payload.off 4
  let _time ← readLe payload.data (payload.off + 4) 4
  let _lastGoodFrame ← readLe payload.data (payload.off + 12) 4
  return s

def parseFrameFecStatus (f : FrameFecStatus) (payload : View) (rtt : ℕ) :
    Except Fault (Option (ℕ × ℕ × ℕ)) := do
  if payload.len ≠ f.size then return none
  let status ← readAt payload.data payload.off f.size
  let total := f.totalDataPackets status
  let missing := f.missingPacketsBeforeHighestReceived status
  if total = 0 ∨ total < missing then return none
  return some (missing, total, rtt)

def handleFrameFecStatus (f : FrameFecStatus) (m : Arrival) (s : ControlSession Ctx)
    (payload : View) : Except Fault (ControlSession Ctx) := do
  match ← parseFrameFecStatus f payload (m.peerRtt.getD 0) with
  | none => return s
  | some stats => return { s with netStatsEvents := some stats }

def parseInvalidateRefFrames (payload : View) : Except Fault (Option (ℤ × ℤ)) := do
  if payload.len < 2 * 8 then return none
  let frames ← readAt payload.data payload.off 16
  return some (signed 64 (leValue (frames.take 8)), signed 64 (leValue (frames.drop 8)))

def handleInvalidateRefFrames (s : ControlSession Ctx) (payload : View) :
    Except Fault (ControlSession Ctx) := do
  match ← parseInvalidateRefFrames payload with
  | none => return s
  | some frames => return { s with invalidateRefFramesEvents := some frames }

/-- `input::passthrough`, after the idle watchdog's time. -/
def passInput (m : Arrival) (s : ControlSession Ctx) (input : List UInt8) : ControlSession Ctx :=
  { s with lastInputTime := m.now, inputQueue := s.inputQueue ++ [input] }

/-- `IDX_INPUT_DATA`, with its own cipher for clients without an encrypted control stream. -/
def handleInputData (evp : EvpDecrypt Ctx) (m : Arrival) (s : ControlSession Ctx) (payload : View) :
    Except Fault (ControlSession Ctx) := do
  if payload.len < 4 then return s
  let lengthBytes ← readAt payload.data payload.off 4
  let taggedCipherLength := signed 32 (leValue lengthBytes.reverse)
  if payload.len - 4 < sizeT taggedCipherLength then return s
  let taggedCipher : View := { payload with off := payload.off + 4, len := sizeT taggedCipherLength }
  let iv := s.legacyInputEncIv
  let (ctx, plaintext) ← gcmDecrypt evp s.decryptCtx taggedCipher iv
  let s := { s with decryptCtx := some ctx }
  match plaintext with
  | none => return s.stop
  | some plaintext =>
    if 16 + iv.length ≤ sizeT taggedCipherLength then
      let tail ← readAt payload.data (payload.off + payload.len - 16) 16
      return passInput m { s with legacyInputEncIv := copyN tail iv } plaintext
    else return passInput m s plaintext

def handlerOf (server : ControlServer Ctx) (type : ℕ) : Option Handler :=
  (mapTypeCb server.fecStatus.ptype).lookup type

/-- `call`, with the handler of encrypted messages. -/
def callWith (server : ControlServer Ctx) (m : Arrival)
    (handleEncrypted : ControlSession Ctx → View → Except Fault (ControlSession Ctx)) (type : ℕ)
    (s : ControlSession Ctx) (payload : View) (reinjected : Bool) :
    Except Fault (ControlSession Ctx) :=
  if s.controlProtocolType = 13 ∧ reinjected = false ∧ type ≠ packetType idxEncrypted then .ok s
  else
    match handlerOf server type with
    | none => .ok s
    | some .periodicPing | some .startA | some .startB => .ok s
    | some .lossStats => handleLossStats s payload
    | some .frameFecStatus => handleFrameFecStatus server.fecStatus m s payload
    | some .requestIdrFrame => .ok { s with idrEvents := true }
    | some .invalidateRefFrames => handleInvalidateRefFrames s payload
    | some .inputData => handleInputData server.evp m s payload
    | some .encrypted => handleEncrypted s payload

/-- The IV of an encrypted message. -/
def incomingIv (s : ControlSession Ctx) (seq : ℕ) : Iv :=
  if s.encControlV2 then
    let iv := copyN (leBytes 4 seq) (resizeIv 12 s.incomingIv)
    (iv.set 10 charC).set 11 charC
  else
    (resizeIv 16 s.incomingIv).set 0 (UInt8.ofNat seq)

/-- A decrypted message: an encrypted one inside it is refused, so `call` is not entered again for
that type. -/
def handleDecrypted (server : ControlServer Ctx) (m : Arrival) (s : ControlSession Ctx)
    (plaintext : List UInt8) : Except Fault (ControlSession Ctx) := do
  let type ← readLe plaintext 0 2
  let nextPayload : View := { data := plaintext, off := 4, len := ← subSize plaintext.length 4 }
  if type = packetType idxEncrypted then return s.stop
  if type = packetType idxInputData then return passInput m s (plaintext.drop 4)
  callWith server m (fun s _ => .ok s) type s nextPayload true

/-- `IDX_ENCRYPTED`: the header lies behind the two bytes of the type. -/
def handleEncrypted (server : ControlServer Ctx) (m : Arrival) (s : ControlSession Ctx)
    (payload : View) : Except Fault (ControlSession Ctx) := do
  let length ← readLe payload.data payload.off 2
  let seq ← readLe payload.data (payload.off + 2) 4
  if length < 16 + 4 + 4 then return s
  let taggedCipher : View := { payload with off := payload.off + 6, len := length - 4 }
  let iv := incomingIv s seq
  let (ctx, plaintext) ← gcmDecrypt server.evp s.decryptCtx taggedCipher iv
  let s := { s with decryptCtx := some ctx, incomingIv := iv }
  match plaintext with
  | none => return s.stop
  | some plaintext => handleDecrypted server m s plaintext

def call (server : ControlServer Ctx) (m : Arrival) (type : ℕ) (s : ControlSession Ctx)
    (payload : View) (reinjected : Bool) : Except Fault (ControlSession Ctx) :=
  callWith server m (handleEncrypted server m) type s payload reinjected

def refreshPing (server : ControlServer Ctx) (m : Arrival) (s : ControlSession Ctx) :
    ControlSession Ctx :=
  { s with pingTimeout := m.now + server.pingTimeout }

def iterateReceive (server : ControlServer Ctx) (m : Arrival) (s : ControlSession Ctx)
    (data : List UInt8) : Except Fault (ControlSession Ctx) := do
  let s := refreshPing server m s
  let type ← readLe data 0 2
  let payload : View := { data, off := 2, len := ← subSize data.length 2 }
  call server m type s payload false

end Server

end Sunshine.Session
