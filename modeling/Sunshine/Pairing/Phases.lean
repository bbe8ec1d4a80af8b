import Mathlib.Data.List.Basic

/-! The four phases of pairing (`getservercert`, `clientchallenge`, `serverchallengeresp` and
`clientpairingsecret` of `nvhttp.cpp`).

Each phase checks the one before it, moves `last_phase` and then does its own checks; any failure
goes through `fail_pair`, which deletes the session. A session here also records the calls made on
it since it was last restarted and the PIN it was given, so that `Progress` can say what a session
in a phase went through. -/
namespace Sunshine.Pairing
set_option autoImplicit false

abbrev Bytes := List UInt8

/-! ## Hexadecimal -/

def hexDigit (c : UInt8) : Option UInt8 :=
  if 48 ≤ c ∧ c ≤ 57 then some (c - 48)
  else if 97 ≤ c ∧ c ≤ 102 then some (c - 97 + 10)
  else if 65 ≤ c ∧ c ≤ 70 then some (c - 65 + 10)
  else none

/-- `decode_hex(hex, true)`: the bytes in the order they are written. -/
def decodeHex : Bytes → Option Bytes
  | [] => some []
  | [_] => none
  | high :: low :: rest => do
    let h ← hexDigit high
    let l ← hexDigit low
    let bytes ← decodeHex rest
    pure ((h <<< 4 ||| l) :: bytes)

/-- `from_hex_vec(hex, true)`: malformed input is empty. -/
def fromHexVec (hex : Bytes) : Bytes := (decodeHex hex).getD []

/-! ## Sessions -/

/-- The cryptography the phases call, and the server's own certificate. -/
structure Crypto (Cert Key : Type) where
  x509 : Bytes → Option Cert
  signature : Cert → Bytes
  hash : Bytes → Bytes
  genAesKey : Bytes → Bytes → Key
  ecbDecrypt : Key → Bytes → Bytes
  ecbEncrypt : Key → Bytes → Bytes
  sign256 : Bytes → Bytes
  verify256 : Cert → Bytes → Bytes → Bool
  servercert : Bytes
  serverSignature : Bytes

inductive PairPhase where
  | none
  | getservercert
  | clientchallenge
  | serverchallengeresp
  | clientpairingsecret
  deriving DecidableEq, Repr

inductive PinSource where
  | entered
  | trustedSubnet
  | stdin
  deriving DecidableEq, Repr

structure Acceptance where
  id : ℕ
  source : PinSource
  pin : Bytes
  deriving DecidableEq, Repr

def isDigit (c : UInt8) : Bool := 48 ≤ c && c ≤ 57

def autoPin : Bytes := [48, 48, 48, 48]

/-- An entered PIN has four digits, a trusted subnet uses the automatic one. -/
def Acceptance.Valid (a : Acceptance) : Prop :=
  match a.source with
  | .entered => a.pin.length = 4 ∧ a.pin.all isDigit = true
  | .trustedSubnet => a.pin = autoPin
  | .stdin => True

/-- A phase called on a session, with what it was called with and drew at random. -/
inductive PhaseCall where
  | getservercert (pin : Acceptance)
  | clientchallenge (challenge serversecret serverchallenge : Bytes)
  | serverchallengeresp (response : Bytes)
  | clientpairingsecret (secret : Bytes)
  deriving DecidableEq, Repr

/-- `pair_session_t`, with the calls since its last restart and whether each succeeded. -/
structure PairSession (Key : Type) where
  uniqueID : Bytes
  cert : Bytes
  name : Bytes := []
  cipherKey : Option Key := none
  clienthash : Bytes := []
  serversecret : Bytes := []
  serverchallenge : Bytes := []
  responseHeld : Bool := false
  salt : Bytes := []
  lastPhase : PairPhase := .none
  acceptance : Option Acceptance := none
  history : List (PhaseCall × Bool) := []

structure Reply where
  paired : Option ℕ := none
  statusCode : Option ℕ := none
  statusMessage : String := ""
  content : Option Bytes := none
  deriving DecidableEq, Repr

/-- A phase's effect: the session, whether `remove_session` was called, and the reply. -/
structure Outcome (Key : Type) where
  sess : PairSession Key
  removed : Bool
  reply : Reply

section Phases

variable {Cert Key : Type} (crypto : Crypto Cert Key)

def PairSession.record (sess : PairSession Key) (call : PhaseCall) (ok : Bool) :
    PairSession Key :=
  { sess with history := sess.history ++ [(call, ok)] }

def failPair (sess : PairSession Key) (call : PhaseCall) (statusMsg : String) : Outcome Key where
  sess := sess.record call false
  removed := true
  reply := { paired := some 0, statusCode := some 400, statusMessage := statusMsg }

/-- A successful phase, with the content of its reply. -/
def passPair (sess : PairSession Key) (call : PhaseCall) (content : Bytes) : Outcome Key where
  sess := sess.record call true
  removed := false
  reply := { paired := some 1, statusCode := some 200, content := some content }

def getservercert (sess : PairSession Key) (pin : Acceptance) : Outcome Key :=
  let call := PhaseCall.getservercert pin
  if sess.lastPhase ≠ .none then failPair sess call "Out of order call to getservercert"
  else
    let sess := { sess with lastPhase := .getservercert }
    if sess.salt.length < 32 then failPair sess call "Salt too short"
    else
      match decodeHex (sess.salt.take 32) with
      | none => failPair sess call "Invalid salt"
      | some salt =>
        let sess := { sess with
          cipherKey := some (crypto.genAesKey salt pin.pin)
          acceptance := some pin }
        passPair sess call crypto.servercert

def clientchallenge (sess : PairSession Key) (challenge serversecret serverchallenge : Bytes) :
    Outcome Key :=
  let call := PhaseCall.clientchallenge challenge serversecret serverchallenge
  if sess.lastPhase ≠ .getservercert then failPair sess call "Out of order call to clientchallenge"
  else
    let sess := { sess with lastPhase := .clientchallenge }
    match sess.cipherKey with
    | none => failPair sess call "Cipher key not set"
    | some key =>
      let decrypted := crypto.ecbDecrypt key challenge ++ crypto.serverSignature ++ serversecret
      let encrypted := crypto.ecbEncrypt key (crypto.hash decrypted ++ serverchallenge)
      passPair { sess with serversecret, serverchallenge } call encrypted

def serverchallengeresp (sess : PairSession Key) (encryptedResponse : Bytes) : Outcome Key :=
  let call := PhaseCall.serverchallengeresp encryptedResponse
  if sess.lastPhase ≠ .clientchallenge then
    failPair sess call "Out of order call to serverchallengeresp"
  else
    let sess := { sess with lastPhase := .serverchallengeresp }
    match sess.cipherKey with
    | none => failPair sess call "Cipher key or serversecret not set"
    | some key =>
      if sess.serversecret = [] then failPair sess call "Cipher key or serversecret not set"
      else
        passPair { sess with clienthash := crypto.ecbDecrypt key encryptedResponse } call
          (sess.serversecret ++ crypto.sign256 sess.serversecret)

/-- A client added to the authorized list, and the session that earned it. -/
structure Authorization (Key : Type) where
  name : Bytes
  cert : Bytes
  sess : PairSession Key

/-- The last phase: its outcome, whether the hash was compared, and the client authorized. The
session is removed on every path. -/
def clientpairingsecret (sess : PairSession Key) (clientPairingSecret : Bytes) :
    Outcome Key × Bool × Option (Authorization Key) :=
  let call := PhaseCall.clientpairingsecret clientPairingSecret
  if sess.lastPhase ≠ .serverchallengeresp then
    (failPair sess call "Out of order call to clientpairingsecret", false, none)
  else
    let sess := { sess with lastPhase := .clientpairingsecret }
    if clientPairingSecret.length ≤ 16 then
      (failPair sess call "Client pairing secret too short", false, none)
    else
      let secret := clientPairingSecret.take 16
      let sign := clientPairingSecret.drop 16
      match crypto.x509 sess.cert with
      | none => (failPair sess call "Invalid client certificate", false, none)
      | some x509 =>
        let hash := crypto.hash (sess.serverchallenge ++ crypto.signature x509 ++ secret)
        if hash = sess.clienthash ∧ crypto.verify256 x509 secret sign = true then
          let sess := sess.record call true
          ({ sess, removed := true, reply := { paired := some 1, statusCode := some 200 } }, true,
            some { name := sess.name, cert := sess.cert, sess })
        else
          ({ sess := sess.record call false, removed := true,
             reply := { paired := some 0, statusCode := some 200 } }, true, none)

/-! ## What a session in a phase went through -/

/-- The session's key is derived from its salt and the PIN it was given. -/
structure Keyed (sess : PairSession Key) (pin : Acceptance) (key : Key) : Prop where
  acceptance : sess.acceptance = some pin
  valid : pin.Valid
  cipherKey : sess.cipherKey = some key
  derived : ∃ salt, 32 ≤ sess.salt.length ∧ decodeHex (sess.salt.take 32) = some salt ∧
    key = crypto.genAesKey salt pin.pin

/-- The calls of a session since its last restart, and what they left in it, by its phase. -/
def Progress (sess : PairSession Key) : Prop :=
  match sess.lastPhase with
  | .none => sess.history = [] ∧ sess.acceptance = none
  | .getservercert => ∃ pin key, Keyed crypto sess pin key ∧
      sess.history = [(.getservercert pin, true)]
  | .clientchallenge => ∃ pin key challenge secret, Keyed crypto sess pin key ∧
      sess.history = [(.getservercert pin, true),
        (.clientchallenge challenge secret sess.serverchallenge, true)]
  | .serverchallengeresp => ∃ pin key challenge secret response, Keyed crypto sess pin key ∧
      sess.history = [(.getservercert pin, true),
        (.clientchallenge challenge secret sess.serverchallenge, true),
        (.serverchallengeresp response, true)] ∧
      sess.clienthash = crypto.ecbDecrypt key response
  | .clientpairingsecret => False

/-- An authorization was earned by the four phases in order, each successful, with the key of the
PIN and salt, and by a secret that hashes and verifies. -/
structure Earned (a : Authorization Key) : Prop where
  cert : a.cert = a.sess.cert
  name : a.name = a.sess.name
  phases : ∃ pin key challenge secret response pairingSecret x509,
    Keyed crypto a.sess pin key ∧
    a.sess.history = [(.getservercert pin, true),
      (.clientchallenge challenge secret a.sess.serverchallenge, true),
      (.serverchallengeresp response, true), (.clientpairingsecret pairingSecret, true)] ∧
    a.sess.clienthash = crypto.ecbDecrypt key response ∧
    crypto.x509 a.cert = some x509 ∧ 16 < pairingSecret.length ∧
    crypto.hash (a.sess.serverchallenge ++ crypto.signature x509 ++ pairingSecret.take 16) =
      a.sess.clienthash ∧
    crypto.verify256 x509 (pairingSecret.take 16) (pairingSecret.drop 16) = true

theorem getservercert_spec (sess : PairSession Key) (pin : Acceptance) (hpin : pin.Valid)
    (h : Progress crypto sess) :
    ((getservercert crypto sess pin).removed = true ∧
        (getservercert crypto sess pin).reply.paired = some 0) ∨
      ((getservercert crypto sess pin).removed = false ∧
        (getservercert crypto sess pin).reply.paired = some 1 ∧
        (getservercert crypto sess pin).sess.acceptance = some pin ∧
        Progress crypto (getservercert crypto sess pin).sess) := by
  unfold getservercert
  by_cases hphase : sess.lastPhase = .none
  · simp only [hphase, ne_eq, not_true_eq_false, if_false]
    by_cases hshort : sess.salt.length < 32
    · rw [if_pos hshort]
      exact Or.inl ⟨rfl, rfl⟩
    · rw [if_neg hshort]
      cases hsalt : decodeHex (sess.salt.take 32) with
      | none => exact Or.inl ⟨rfl, rfl⟩
      | some salt =>
        unfold Progress at h
        rw [hphase] at h
        refine Or.inr ⟨rfl, rfl, rfl, pin, _, ⟨rfl, hpin, rfl, salt, Nat.not_lt.mp hshort, hsalt,
          rfl⟩, ?_⟩
        simp only [passPair, PairSession.record, h.1, List.nil_append]
  · rw [if_pos hphase]
    exact Or.inl ⟨rfl, rfl⟩

theorem clientchallenge_spec (sess : PairSession Key)
    (challenge serversecret serverchallenge : Bytes) (h : Progress crypto sess) :
    (clientchallenge crypto sess challenge serversecret serverchallenge).removed = true ∨
      ((clientchallenge crypto sess challenge serversecret serverchallenge).sess.acceptance =
          sess.acceptance ∧
        Progress crypto
          (clientchallenge crypto sess challenge serversecret serverchallenge).sess) := by
  unfold clientchallenge
  by_cases hphase : sess.lastPhase = .getservercert
  · unfold Progress at h
    rw [hphase] at h
    obtain ⟨pin, key, ⟨hacc, hvalid, hkey, hder⟩, hhist⟩ := h
    simp only [hphase, ne_eq, not_true_eq_false, if_false, hkey]
    refine Or.inr ⟨rfl, pin, key, challenge, serversecret, ⟨hacc, hvalid, rfl, hder⟩, ?_⟩
    simp only [passPair, PairSession.record, hhist, List.cons_append, List.nil_append]
  · rw [if_pos hphase]
    exact Or.inl rfl

theorem serverchallengeresp_spec (sess : PairSession Key) (response : Bytes)
    (h : Progress crypto sess) :
    (serverchallengeresp crypto sess response).removed = true ∨
      ((serverchallengeresp crypto sess response).sess.acceptance = sess.acceptance ∧
        Progress crypto (serverchallengeresp crypto sess response).sess) := by
  unfold serverchallengeresp
  by_cases hphase : sess.lastPhase = .clientchallenge
  · unfold Progress at h
    rw [hphase] at h
    obtain ⟨pin, key, challenge, secret, ⟨hacc, hvalid, hkey, hder⟩, hhist⟩ := h
    simp only [hphase, ne_eq, not_true_eq_false, if_false, hkey]
    by_cases hempty : sess.serversecret = []
    · rw [if_pos hempty]
      exact Or.inl rfl
    · rw [if_neg hempty]
      refine Or.inr ⟨rfl, pin, key, challenge, secret, response, ⟨hacc, hvalid, rfl, hder⟩, ?_, rfl⟩
      simp only [passPair, PairSession.record, hhist, List.cons_append, List.nil_append]
  · rw [if_pos hphase]
    exact Or.inl rfl

/-- The last phase always removes the session; it compares a hash and authorizes only a session that
went through the phases before it. -/
structure SecretSpec (sess : PairSession Key) (r : Outcome Key × Bool × Option (Authorization Key)) :
    Prop where
  removed : r.1.removed = true
  checked : r.2.1 = true → ∃ pin, sess.acceptance = some pin
  earned : ∀ a, r.2.2 = some a →
    r.2.1 = true ∧ a.sess.acceptance = sess.acceptance ∧ Earned crypto a

theorem SecretSpec.failed (sess sess' : PairSession Key) (call : PhaseCall) (msg : String) :
    SecretSpec crypto sess (failPair sess' call msg, false, none) where
  removed := rfl
  checked := nofun
  earned := nofun

theorem clientpairingsecret_spec (sess : PairSession Key) (secret : Bytes)
    (h : Progress crypto sess) :
    SecretSpec crypto sess (clientpairingsecret crypto sess secret) := by
  unfold clientpairingsecret
  by_cases hphase : sess.lastPhase = .serverchallengeresp
  · unfold Progress at h
    rw [hphase] at h
    obtain ⟨pin, key, challenge, ssecret, response, ⟨hacc, hvalid, hkey, hder⟩, hhist, hhash⟩ := h
    simp only [hphase, ne_eq, not_true_eq_false, if_false]
    by_cases hshort : secret.length ≤ 16
    · rw [if_pos hshort]
      exact SecretSpec.failed crypto sess _ _ _
    · rw [if_neg hshort]
      cases hx : crypto.x509 sess.cert with
      | none => exact SecretSpec.failed crypto sess _ _ _
      | some x509 =>
        simp only
        split_ifs with hok
        · refine ⟨rfl, fun _ => ⟨pin, hacc⟩, fun a ha => ?_⟩
          obtain rfl := Option.some.inj ha
          refine ⟨rfl, rfl, rfl, rfl, pin, key, challenge, ssecret, response, secret, x509,
            ⟨hacc, hvalid, hkey, hder⟩, ?_, hhash, hx, by omega, hok.1, hok.2⟩
          simp only [PairSession.record, hhist, List.cons_append, List.nil_append]
        · exact ⟨rfl, fun _ => ⟨pin, hacc⟩, nofun⟩
  · rw [if_pos hphase]
    exact SecretSpec.failed crypto sess _ _ _

end Phases

end Sunshine.Pairing
