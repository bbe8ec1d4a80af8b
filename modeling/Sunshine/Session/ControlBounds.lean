import Sunshine.Lib.Entries
import Sunshine.Session.Control

/-! Which received control messages are handled inside their own bytes.

`handled_iff` holds for every byte string and every session. The handlers that take plain payloads
check sizes before they read; `iterate` does not look for the two bytes of a type, the handler of
encrypted messages does not compare the length it was given with the packet, and the legacy input
handler decrypts ciphertexts that are too short for their tag. -/
namespace Sunshine.Session
open Bytes Views Entries
set_option autoImplicit false

section Bounds

variable {Ctx : Type}

/-! ## Messages -/

/-- What OpenSSL documents of the calls: a context can be made, its IV can be changed, and GCM keeps
lengths. -/
structure EvpDecrypt.Works (evp : EvpDecrypt Ctx) : Prop where
  init : ∀ iv, (evp.init iv).2 = true
  setIv : ∀ ctx iv, (evp.setIv ctx iv).2 = true
  finish_length : ∀ ctx cipher tag plaintext, (evp.finish ctx cipher tag).2 = some plaintext →
    plaintext.length = cipher.length

def messageType (message : List UInt8) : ℕ := leValue (message.take 2)

def encryptedLength (payload : List UInt8) : ℕ := leValue (payload.take 2)

def inputLength (payload : List UInt8) : ℕ := sizeT (signed 32 (leValue (payload.take 4).reverse))

def cipherCtx (evp : EvpDecrypt Ctx) (decryptCtx : Option Ctx) (iv : Iv) : Ctx :=
  (evp.setIv (decryptCtx.getD (evp.init iv).1) iv).1

def opened (server : ControlServer Ctx) (s : ControlSession Ctx) (payload : List UInt8) :
    Option (List UInt8) :=
  let iv := incomingIv s (leValue ((payload.drop 2).take 4))
  (server.evp.finish (cipherCtx server.evp s.decryptCtx iv)
    ((payload.drop 22).take (encryptedLength payload - 20)) ((payload.drop 6).take 16)).2

/-- A message that comes off the wire unencrypted on an encrypted stream. -/
def Unencrypted (s : ControlSession Ctx) (type : ℕ) : Prop :=
  s.controlProtocolType = 13 ∧ type ≠ packetType idxEncrypted

/-- An unknown type, or a payload that is not of its type's form. -/
def RuntPayload (server : ControlServer Ctx) (type : ℕ) (payload : List UInt8) : Prop :=
  match handlerOf server type with
  | none => True
  | some .lossStats | some .invalidateRefFrames => payload.length < 16
  | some .frameFecStatus =>
    payload.length ≠ server.fecStatus.size ∨ server.fecStatus.totalDataPackets payload = 0 ∨
      server.fecStatus.totalDataPackets payload <
        server.fecStatus.missingPacketsBeforeHighestReceived payload
  | some _ => False

/-- A message whose lengths do not fit, whose type is unknown or not expected, or which carries such a
message under encryption. One that does not authenticate, or nests an encrypted message, is not
malformed: it ends the session. -/
def Malformed (server : ControlServer Ctx) (s : ControlSession Ctx) (message : List UInt8) : Prop :=
  let type := messageType message
  let payload := message.drop 2
  message.length < 2 ∨ Unencrypted s type ∨
    match handlerOf server type with
    | some .inputData => payload.length < 4 ∨ payload.length - 4 < inputLength payload ∨
        inputLength payload < 16
    | some .encrypted => payload.length < 6 ∨ encryptedLength payload < 24 ∨
        payload.length < 2 + encryptedLength payload ∨
        ∃ plaintext, opened server s payload = some plaintext ∧
          messageType plaintext ≠ packetType idxEncrypted ∧
          messageType plaintext ≠ packetType idxInputData ∧
          RuntPayload server (messageType plaintext) (plaintext.drop 4)
    | _ => RuntPayload server type payload

/-- A session without the scratch state of its cipher. -/
def ControlSession.withoutCipher (s : ControlSession Ctx) : ControlSession Ctx :=
  { s with decryptCtx := none, incomingIv := [] }

/-- No read leaves the message, nothing underflows or throws, and a malformed message leaves the
session as it was but for the ping. -/
def Handled (server : ControlServer Ctx) (m : Arrival) (s : ControlSession Ctx)
    (message : List UInt8) : Prop :=
  ∃ t, iterateReceive server m s message = .ok t ∧
    (Malformed server s message → t.withoutCipher = (refreshPing server m s).withoutCipher)

/-- The bytes that `iterate` and the two decrypting handlers take for granted are there. -/
def Complete (server : ControlServer Ctx) (s : ControlSession Ctx) (message : List UInt8) : Prop :=
  let type := messageType message
  let payload := message.drop 2
  2 ≤ message.length ∧ (¬ Unencrypted s type →
    match handlerOf server type with
    | some .inputData => payload.length < 4 ∨ payload.length - 4 < inputLength payload ∨
        16 ≤ inputLength payload
    | some .encrypted => 6 ≤ payload.length ∧
        (encryptedLength payload < 24 ∨ 2 + encryptedLength payload ≤ payload.length)
    | _ => True)

/-! ## Handler tables -/

theorem handlerOf_inputData {server : ControlServer Ctx} {type : ℕ}
    (h : handlerOf server type = some .inputData) : type = packetType idxInputData := by
  have hmem := mem_of_lookup h
  simpa [mapTypeCb] using hmem

theorem handlerOf_encrypted {server : ControlServer Ctx} {type : ℕ}
    (h : handlerOf server type = some .encrypted) : type = packetType idxEncrypted := by
  have hmem := mem_of_lookup h
  simpa [mapTypeCb] using hmem

/-! ## Plain payloads -/

theorem handleLossStats_ok (s : ControlSession Ctx) (payload : View) (hvalid : payload.Valid) :
    handleLossStats s payload = .ok s := by
  unfold handleLossStats
  by_cases hrunt : payload.len < 4 * 4
  · rw [if_pos hrunt]
    rfl
  · have hlen := hvalid
    unfold View.Valid at hlen
    rw [if_neg hrunt, readLe_ok (by omega), readLe_ok (by omega), readLe_ok (by omega)]
    rfl

theorem handleFrameFecStatus_ok (server : ControlServer Ctx) (m : Arrival) (s : ControlSession Ctx)
    (payload : View) (hvalid : payload.Valid) :
    ∃ t, handleFrameFecStatus server.fecStatus m s payload = .ok t ∧
      (payload.bytes.length ≠ server.fecStatus.size ∨
        server.fecStatus.totalDataPackets payload.bytes = 0 ∨
        server.fecStatus.totalDataPackets payload.bytes <
          server.fecStatus.missingPacketsBeforeHighestReceived payload.bytes → t = s) := by
  rw [payload.bytes_length hvalid]
  unfold handleFrameFecStatus parseFrameFecStatus
  by_cases hsize : payload.len ≠ server.fecStatus.size
  · rw [if_pos hsize]
    exact ⟨s, rfl, fun _ => rfl⟩
  · rw [if_neg hsize]
    have hread := View.read_ok payload hvalid
    unfold View.read at hread
    rw [← not_not.mp hsize, hread]
    by_cases hbad : server.fecStatus.totalDataPackets payload.bytes = 0 ∨
        server.fecStatus.totalDataPackets payload.bytes <
          server.fecStatus.missingPacketsBeforeHighestReceived payload.bytes
    · refine ⟨s, ?_, fun _ => rfl⟩
      simp only [bind, Except.bind, if_pos hbad, pure, Except.pure]
    · refine ⟨_, by simp only [bind, Except.bind, if_neg hbad, pure, Except.pure]; rfl, fun h => ?_⟩
      exact absurd (h.resolve_left (by simp)) hbad

theorem handleInvalidateRefFrames_ok (s : ControlSession Ctx) (payload : View)
    (hvalid : payload.Valid) :
    ∃ t, handleInvalidateRefFrames s payload = .ok t ∧ (payload.bytes.length < 16 → t = s) := by
  rw [payload.bytes_length hvalid]
  unfold handleInvalidateRefFrames parseInvalidateRefFrames
  by_cases hrunt : payload.len < 2 * 8
  · rw [if_pos hrunt]
    exact ⟨s, rfl, fun _ => rfl⟩
  · unfold View.Valid at hvalid
    rw [if_neg hrunt, readAt_ok (by omega)]
    exact ⟨_, rfl, fun h => absurd h (by omega)⟩

theorem callWith_plain (server : ControlServer Ctx) (m : Arrival)
    (encrypted : ControlSession Ctx → View → Except Fault (ControlSession Ctx)) (type : ℕ)
    (s : ControlSession Ctx) (payload : View) (reinjected : Bool) (hvalid : payload.Valid)
    (hinput : handlerOf server type ≠ some .inputData)
    (hencrypted : handlerOf server type ≠ some .encrypted) :
    ∃ t, callWith server m encrypted type s payload reinjected = .ok t ∧
      (RuntPayload server type payload.bytes → t = s) := by
  unfold callWith RuntPayload
  by_cases hdrop : s.controlProtocolType = 13 ∧ reinjected = false ∧ type ≠ packetType idxEncrypted
  · rw [if_pos hdrop]
    exact ⟨s, rfl, fun _ => rfl⟩
  · rw [if_neg hdrop]
    cases hhandler : handlerOf server type with
    | none => exact ⟨s, rfl, fun _ => rfl⟩
    | some handler =>
      cases handler with
      | periodicPing | startA | startB => exact ⟨s, rfl, fun _ => rfl⟩
      | lossStats => exact ⟨s, handleLossStats_ok s payload hvalid, fun _ => rfl⟩
      | frameFecStatus => exact handleFrameFecStatus_ok server m s payload hvalid
      | requestIdrFrame => exact ⟨_, rfl, nofun⟩
      | invalidateRefFrames => exact handleInvalidateRefFrames_ok s payload hvalid
      | inputData => exact absurd hhandler hinput
      | encrypted => exact absurd hhandler hencrypted

/-! ## Decryption -/

section Decryption

variable {evp : EvpDecrypt Ctx} (hevp : evp.Works)
include hevp

/-- With OpenSSL doing its part, only the lengths decide. -/
theorem gcmDecrypt_eq (decryptCtx : Option Ctx) (tagged : View) (iv : Iv) :
    gcmDecrypt evp decryptCtx tagged iv = do
      let cipher ← (← tagged.substr tagSize).read
      let tag ← (tagged.first tagSize).read
      return evp.finish (cipherCtx evp decryptCtx iv) cipher tag := by
  unfold gcmDecrypt cipherCtx
  cases decryptCtx with
  | none =>
    simp only [hevp.init, hevp.setIv, Option.getD_none, Bool.not_true, Bool.false_eq_true, if_false]
  | some ctx =>
    simp only [hevp.setIv, Option.getD_some, Bool.not_true, Bool.false_eq_true, if_false]

theorem gcmDecrypt_short (decryptCtx : Option Ctx) (tagged : View) (iv : Iv)
    (hshort : tagged.len < tagSize) :
    gcmDecrypt evp decryptCtx tagged iv = .error .outOfRange := by
  rw [gcmDecrypt_eq hevp, View.substr_outOfRange hshort]
  rfl

theorem gcmDecrypt_outside (decryptCtx : Option Ctx) (tagged : View) (iv : Iv)
    (hlen : tagSize ≤ tagged.len) (hvalid : ¬ tagged.Valid) :
    gcmDecrypt evp decryptCtx tagged iv = .error .outside := by
  have hcipher : ¬ ({ tagged with off := tagged.off + tagSize, len := tagged.len - tagSize } :
      View).Valid := by
    unfold View.Valid at hvalid ⊢
    simp only
    omega
  rw [gcmDecrypt_eq hevp, View.substr_ok hlen]
  simp only [bind, Except.bind]
  rw [View.read_outside _ hcipher]

theorem gcmDecrypt_ok (decryptCtx : Option Ctx) (tagged : View) (iv : Iv)
    (hlen : tagSize ≤ tagged.len) (hvalid : tagged.Valid) :
    gcmDecrypt evp decryptCtx tagged iv =
      .ok (evp.finish (cipherCtx evp decryptCtx iv) (tagged.bytes.drop tagSize)
        (tagged.bytes.take tagSize)) := by
  have hcipher : ({ tagged with off := tagged.off + tagSize, len := tagged.len - tagSize } :
      View).read = .ok (tagged.bytes.drop tagSize) := by
    unfold View.Valid at hvalid
    unfold View.read View.bytes
    rw [Views.readAt_ok (by simp only; omega), List.drop_take, List.drop_drop]
  have htag : (tagged.first tagSize).read = .ok (tagged.bytes.take tagSize) := by
    unfold View.Valid at hvalid
    unfold View.read View.first View.bytes
    rw [Views.readAt_ok (by simp only; omega), List.take_take]
  rw [gcmDecrypt_eq hevp, View.substr_ok hlen]
  simp only [bind, Except.bind]
  rw [hcipher, htag]
  rfl

end Decryption

/-! ## Legacy input -/

theorem read_inputLength (payload : View) (hvalid : payload.Valid) (hlen : 4 ≤ payload.len) :
    readAt payload.data payload.off 4 = .ok (payload.bytes.take 4) :=
  View.readAt_ok hvalid (show 0 + 4 ≤ payload.len by omega)

section LegacyInput

variable {server : ControlServer Ctx} (m : Arrival) (s : ControlSession Ctx) (payload : View)
  (hvalid : payload.Valid)
include hvalid

theorem handleInputData_drop
    (hrunt : payload.len < 4 ∨ payload.len - 4 < inputLength payload.bytes) :
    handleInputData server.evp m s payload = .ok s := by
  unfold handleInputData
  by_cases hlen : payload.len < 4
  · rw [if_pos hlen]
    rfl
  · rw [if_neg hlen, read_inputLength payload hvalid (by omega)]
    simp only [bind, Except.bind]
    change (if payload.len - 4 < inputLength payload.bytes then _ else _) = _
    rw [if_pos (hrunt.resolve_left hlen)]
    rfl

variable (hevp : server.evp.Works) (hlen : 4 ≤ payload.len)
  (hfits : inputLength payload.bytes ≤ payload.len - 4)
include hevp hlen hfits

theorem handleInputData_short (hshort : inputLength payload.bytes < 16) :
    handleInputData server.evp m s payload = .error .outOfRange := by
  unfold handleInputData
  rw [if_neg (by omega), read_inputLength payload hvalid hlen]
  simp only [bind, Except.bind]
  change (if payload.len - 4 < inputLength payload.bytes then _ else _) = _
  rw [if_neg (by omega)]
  rw [gcmDecrypt_short hevp _ _ _ hshort]

theorem handleInputData_ok (htag : 16 ≤ inputLength payload.bytes) :
    ∃ t, handleInputData server.evp m s payload = .ok t := by
  unfold handleInputData
  rw [if_neg (by omega), read_inputLength payload hvalid hlen]
  simp only [bind, Except.bind]
  change ∃ t, (if payload.len - 4 < inputLength payload.bytes then _ else _) = _
  unfold View.Valid at hvalid
  have htagged : ({ payload with off := payload.off + 4, len := inputLength payload.bytes } :
      View).Valid := by
    unfold View.Valid
    simp only
    omega
  have hdecrypt := gcmDecrypt_ok hevp s.decryptCtx
    { payload with off := payload.off + 4, len := inputLength payload.bytes } s.legacyInputEncIv
    htag htagged
  unfold inputLength at hdecrypt
  rw [if_neg (by omega), hdecrypt]
  simp only
  split
  · exact ⟨_, rfl⟩
  · split_ifs
    · rw [readAt_ok (by omega)]
      exact ⟨_, rfl⟩
    · exact ⟨_, rfl⟩

end LegacyInput

/-! ## Encrypted messages -/

/-- A decrypted message of at least four bytes is handled inside them. -/
theorem handleDecrypted_ok (server : ControlServer Ctx) (m : Arrival) (s : ControlSession Ctx)
    (plaintext : List UInt8) (hplain : 4 ≤ plaintext.length) :
    ∃ t, handleDecrypted server m s plaintext = .ok t ∧
      (messageType plaintext ≠ packetType idxEncrypted → messageType plaintext ≠ packetType idxInputData →
        RuntPayload server (messageType plaintext) (plaintext.drop 4) → t = s) := by
  have htype : readLe plaintext 0 2 = .ok (messageType plaintext) := readLe_ok (by omega)
  unfold handleDecrypted
  rw [htype, subSize_ok hplain]
  simp only [bind, Except.bind]
  by_cases hnested : messageType plaintext = packetType idxEncrypted
  · rw [if_pos hnested]
    exact ⟨_, rfl, fun h => absurd hnested h⟩
  rw [if_neg hnested]
  by_cases hinput : messageType plaintext = packetType idxInputData
  · rw [if_pos hinput]
    exact ⟨_, rfl, fun _ h => absurd hinput h⟩
  rw [if_neg hinput]
  have hbytes : ({ data := plaintext, off := 4, len := plaintext.length - 4 } : View).bytes =
      plaintext.drop 4 := by
    unfold View.bytes
    exact List.take_of_length_le (by simp)
  obtain ⟨t, ht, hdropped⟩ := callWith_plain server m (fun s _ => .ok s) (messageType plaintext) s
    { data := plaintext, off := 4, len := plaintext.length - 4 } true
    (by unfold View.Valid; simp only; omega) (fun h => hinput (handlerOf_inputData h))
    fun h => hnested (handlerOf_encrypted h)
  rw [hbytes] at hdropped
  exact ⟨t, ht, fun _ _ => hdropped⟩

section Encrypted

variable {server : ControlServer Ctx} (m : Arrival) (s : ControlSession Ctx) (payload : View)
  (hrest : payload.off + payload.len = payload.data.length)
include hrest

theorem handleEncrypted_noHeader (hlen : payload.len < 6) :
    handleEncrypted server m s payload = .error .outside := by
  unfold handleEncrypted
  by_cases hlength : payload.len < 2
  · rw [readLe_outside (by omega)]
    rfl
  · rw [readLe_ok (by omega)]
    simp only [bind, Except.bind]
    rw [readLe_outside (by omega)]

theorem valid_of_rest : payload.Valid := Nat.le_of_eq hrest

variable (hlen : 6 ≤ payload.len)
include hlen

theorem handleEncrypted_header :
    handleEncrypted server m s payload =
      if encryptedLength payload.bytes < 16 + 4 + 4 then .ok s
      else (do
        let iv := incomingIv s (leValue ((payload.bytes.drop 2).take 4))
        let (ctx, plaintext) ← gcmDecrypt server.evp s.decryptCtx
          { payload with off := payload.off + 6, len := encryptedLength payload.bytes - 4 } iv
        let s := { s with decryptCtx := some ctx, incomingIv := iv }
        match plaintext with
        | none => return s.stop
        | some plaintext => handleDecrypted server m s plaintext) := by
  have hvalid := valid_of_rest payload hrest
  have hlength : readLe payload.data payload.off 2 = .ok (encryptedLength payload.bytes) :=
    View.readLe_ok hvalid (show 0 + 2 ≤ payload.len by omega)
  have hseq : readLe payload.data (payload.off + 2) 4 =
      .ok (leValue ((payload.bytes.drop 2).take 4)) := View.readLe_ok hvalid (by omega)
  unfold handleEncrypted
  rw [hlength, hseq]
  rfl

theorem handleEncrypted_runt (hrunt : encryptedLength payload.bytes < 24) :
    handleEncrypted server m s payload = .ok s := by
  rw [handleEncrypted_header m s payload hrest hlen, if_pos hrunt]

variable (hevp : server.evp.Works) (hlength : 24 ≤ encryptedLength payload.bytes)
include hevp hlength

theorem handleEncrypted_outside (hlong : payload.len < 2 + encryptedLength payload.bytes) :
    handleEncrypted server m s payload = .error .outside := by
  rw [handleEncrypted_header m s payload hrest hlen, if_neg (by omega)]
  have hdecrypt := gcmDecrypt_outside hevp s.decryptCtx
    { payload with off := payload.off + 6, len := encryptedLength payload.bytes - 4 }
    (incomingIv s (leValue ((payload.bytes.drop 2).take 4)))
    (by unfold tagSize; simp only; omega) (by unfold View.Valid; simp only; omega)
  simp only [bind, Except.bind]
  rw [hdecrypt]

theorem gcmDecrypt_tagged (hfits : 2 + encryptedLength payload.bytes ≤ payload.len) (iv : Iv) :
    gcmDecrypt server.evp s.decryptCtx
        { payload with off := payload.off + 6, len := encryptedLength payload.bytes - 4 } iv =
      .ok (server.evp.finish (cipherCtx server.evp s.decryptCtx iv)
        ((payload.bytes.drop 22).take (encryptedLength payload.bytes - 20))
        ((payload.bytes.drop 6).take 16)) := by
  have htagged : (({ payload with off := payload.off + 6, len := encryptedLength payload.bytes - 4 } :
      View)).Valid := by
    unfold View.Valid
    simp only
    omega
  have hbytes : (({ payload with off := payload.off + 6, len := encryptedLength payload.bytes - 4 } :
      View)).bytes = (payload.bytes.drop 6).take (encryptedLength payload.bytes - 4) := by
    unfold View.bytes
    simp only
    rw [List.drop_take, List.drop_drop, List.take_take, Nat.min_eq_left]
    exact Nat.le_sub_of_add_le (by unfold View.bytes at hfits; omega)
  have hcipher : ((payload.bytes.drop 6).take (encryptedLength payload.bytes - 4)).drop tagSize =
      (payload.bytes.drop 22).take (encryptedLength payload.bytes - 20) := by
    unfold tagSize
    rw [List.drop_take, List.drop_drop]
    rfl
  have htag : ((payload.bytes.drop 6).take (encryptedLength payload.bytes - 4)).take tagSize =
      (payload.bytes.drop 6).take 16 := by
    unfold tagSize
    rw [List.take_take, Nat.min_eq_left (by omega)]
  have hdecrypt := gcmDecrypt_ok hevp s.decryptCtx
    { payload with off := payload.off + 6, len := encryptedLength payload.bytes - 4 } iv
    (by unfold tagSize; simp only; omega) htagged
  rw [hbytes, hcipher, htag] at hdecrypt
  exact hdecrypt

/-- A message that is all there is decrypted, and what it says inside is handled in the plaintext. -/
theorem handleEncrypted_ok (hfits : 2 + encryptedLength payload.bytes ≤ payload.len) :
    ∃ t, handleEncrypted server m s payload = .ok t ∧
      ((∃ plaintext, opened server s payload.bytes = some plaintext ∧
        messageType plaintext ≠ packetType idxEncrypted ∧
        messageType plaintext ≠ packetType idxInputData ∧
        RuntPayload server (messageType plaintext) (plaintext.drop 4)) →
        t.withoutCipher = s.withoutCipher) := by
  have hdecrypt := gcmDecrypt_tagged s payload hrest hlen hevp hlength hfits
    (incomingIv s (leValue ((payload.bytes.drop 2).take 4)))
  obtain ⟨ctx, result, hfinish⟩ : ∃ ctx result, server.evp.finish
      (cipherCtx server.evp s.decryptCtx (incomingIv s (leValue ((payload.bytes.drop 2).take 4))))
      ((payload.bytes.drop 22).take (encryptedLength payload.bytes - 20))
      ((payload.bytes.drop 6).take 16) = (ctx, result) := ⟨_, _, rfl⟩
  have hopened : opened server s payload.bytes = result := congrArg Prod.snd hfinish
  rw [hfinish] at hdecrypt
  rw [handleEncrypted_header m s payload hrest hlen, if_neg (by omega), hopened]
  simp only [bind, Except.bind]
  rw [hdecrypt]
  cases result with
  | none => exact ⟨_, rfl, fun ⟨_, h, _⟩ => by cases h⟩
  | some plaintext =>
    have hplain : 4 ≤ plaintext.length := by
      have hsame := hevp.finish_length _ _ _ plaintext hopened
      have hbyteslen := payload.bytes_length (valid_of_rest payload hrest)
      rw [List.length_take, List.length_drop, hbyteslen] at hsame
      omega
    obtain ⟨u, hu, hdropped⟩ := handleDecrypted_ok server m
      { s with
        decryptCtx := some ctx
        incomingIv := incomingIv s (leValue ((payload.bytes.drop 2).take 4)) } plaintext hplain
    refine ⟨u, hu, ?_⟩
    rintro ⟨other, hsame, hnested, hinput, hrunt⟩
    rw [← Option.some.inj hsame] at hnested hinput hrunt
    rw [hdropped hnested hinput hrunt]
    rfl

end Encrypted

/-! ## Received messages -/

def payloadView (message : List UInt8) : View where
  data := message
  off := 2
  len := message.length - 2

theorem payloadView_bytes (message : List UInt8) : (payloadView message).bytes = message.drop 2 :=
  List.take_of_length_le (by simp [payloadView])

theorem iterateReceive_eq (server : ControlServer Ctx) (m : Arrival) (s : ControlSession Ctx)
    (message : List UInt8) (hlen : 2 ≤ message.length) :
    iterateReceive server m s message = call server m (messageType message) (refreshPing server m s)
      (payloadView message) false := by
  have htype : readLe message 0 2 = .ok (messageType message) := readLe_ok (by omega)
  unfold iterateReceive
  rw [htype, subSize_ok hlen]
  rfl

section Dispatch

variable (server : ControlServer Ctx) (m : Arrival) (s : ControlSession Ctx) (type : ℕ)
  (payload : View)

theorem call_unencrypted (h : Unencrypted s type) : call server m type s payload false = .ok s := by
  unfold call callWith
  rw [if_pos ⟨h.1, rfl, h.2⟩]

variable (h : ¬ Unencrypted s type)
include h

theorem call_inputData (hhandler : handlerOf server type = some .inputData) :
    call server m type s payload false = handleInputData server.evp m s payload := by
  unfold call callWith
  rw [if_neg fun hdrop => h ⟨hdrop.1, hdrop.2.2⟩, hhandler]

theorem call_encrypted (hhandler : handlerOf server type = some .encrypted) :
    call server m type s payload false = handleEncrypted server m s payload := by
  unfold call callWith
  rw [if_neg fun hdrop => h ⟨hdrop.1, hdrop.2.2⟩, hhandler]

end Dispatch

section Received

variable {server : ControlServer Ctx} (m : Arrival) (s : ControlSession Ctx) (message : List UInt8)
  (hlen : 2 ≤ message.length) (hexpected : ¬ Unencrypted s (messageType message))
include hlen hexpected

theorem handled_plain (hinput : handlerOf server (messageType message) ≠ some .inputData)
    (hencrypted : handlerOf server (messageType message) ≠ some .encrypted) :
    Handled server m s message ↔ Complete server s message := by
  have hvalid : (payloadView message).Valid := by
    unfold View.Valid payloadView
    simp only
    omega
  obtain ⟨t, ht, hdropped⟩ := callWith_plain server m (handleEncrypted server m) (messageType message)
    (refreshPing server m s) (payloadView message) false hvalid hinput hencrypted
  rw [payloadView_bytes] at hdropped
  unfold Handled Complete
  rw [iterateReceive_eq server m s message hlen]
  refine ⟨fun _ => ⟨hlen, fun _ => ?_⟩, fun _ => ⟨t, ht, fun hmalformed => ?_⟩⟩
  · split
    · rename_i hhandler
      exact absurd hhandler hinput
    · rename_i hhandler
      exact absurd hhandler hencrypted
    · trivial
  · unfold Malformed at hmalformed
    have hruntPayload : RuntPayload server (messageType message) (message.drop 2) := by
      rcases hmalformed with h | h | h
      · omega
      · exact absurd h hexpected
      · split at h
        · rename_i hhandler
          exact absurd hhandler hinput
        · rename_i hhandler
          exact absurd hhandler hencrypted
        · exact h
    rw [hdropped hruntPayload]

variable (hevp : server.evp.Works)
include hevp

theorem handled_inputData (hhandler : handlerOf server (messageType message) = some .inputData) :
    Handled server m s message ↔ Complete server s message := by
  have hvalid : (payloadView message).Valid := by
    unfold View.Valid payloadView
    simp only
    omega
  have hbytes := payloadView_bytes message
  have hpayload : (message.drop 2).length = (payloadView message).len := List.length_drop
  unfold Handled Complete
  rw [iterateReceive_eq server m s message hlen,
    call_inputData server m (refreshPing server m s) _ _ hexpected hhandler]
  simp only [hhandler, hlen, hexpected, not_false_eq_true, true_and, forall_true_left]
  by_cases hrunt : (message.drop 2).length < 4 ∨
      (message.drop 2).length - 4 < inputLength (message.drop 2)
  · rw [handleInputData_drop m _ _ hvalid (by rwa [hbytes, ← hpayload])]
    exact ⟨fun _ => hrunt.imp id Or.inl, fun _ => ⟨_, rfl, fun _ => rfl⟩⟩
  · rw [not_or] at hrunt
    have hfour : 4 ≤ (payloadView message).len := by omega
    have hfits : inputLength (payloadView message).bytes ≤ (payloadView message).len - 4 := by
      rw [hbytes, ← hpayload]
      omega
    by_cases hshort : inputLength (message.drop 2) < 16
    · rw [handleInputData_short m _ _ hvalid hevp hfour hfits (by rwa [hbytes])]
      constructor
      · rintro ⟨t, ht, -⟩
        cases ht
      · intro hcomplete
        omega
    · obtain ⟨t, ht⟩ := handleInputData_ok m (refreshPing server m s) _ hvalid hevp hfour hfits
        (by rw [hbytes]; omega)
      refine ⟨fun _ => Or.inr (Or.inr (by omega)), fun _ => ⟨t, ht, fun hmalformed => ?_⟩⟩
      unfold Malformed at hmalformed
      simp only [hhandler, hexpected, false_or] at hmalformed
      omega

theorem handled_encrypted (hhandler : handlerOf server (messageType message) = some .encrypted) :
    Handled server m s message ↔ Complete server s message := by
  have hrest : (payloadView message).off + (payloadView message).len =
      (payloadView message).data.length := by
    unfold payloadView
    simp only
    omega
  have hbytes := payloadView_bytes message
  have hpayload : (message.drop 2).length = (payloadView message).len := List.length_drop
  unfold Handled Complete
  rw [iterateReceive_eq server m s message hlen,
    call_encrypted server m (refreshPing server m s) _ _ hexpected hhandler]
  simp only [hhandler, hlen, hexpected, not_false_eq_true, true_and, forall_true_left]
  by_cases hheader : (payloadView message).len < 6
  · rw [handleEncrypted_noHeader m _ _ hrest hheader]
    constructor
    · rintro ⟨t, ht, -⟩
      cases ht
    · intro hcomplete
      omega
  by_cases hrunt : encryptedLength (message.drop 2) < 24
  · rw [handleEncrypted_runt m _ _ hrest (by omega) (by rwa [hbytes])]
    exact ⟨fun _ => ⟨by omega, Or.inl hrunt⟩, fun _ => ⟨_, rfl, fun _ => rfl⟩⟩
  by_cases hlong : (message.drop 2).length < 2 + encryptedLength (message.drop 2)
  · rw [handleEncrypted_outside m _ _ hrest (by omega) hevp (by rw [hbytes]; omega)
      (by rw [hbytes, ← hpayload]; exact hlong)]
    constructor
    · rintro ⟨t, ht, -⟩
      cases ht
    · intro hcomplete
      omega
  · obtain ⟨t, ht, hdropped⟩ := handleEncrypted_ok m (refreshPing server m s) _ hrest (by omega) hevp
      (by rw [hbytes]; omega) (by rw [hbytes, ← hpayload]; omega)
    refine ⟨fun _ => ⟨by omega, Or.inr (by omega)⟩, fun _ => ⟨t, ht, fun hmalformed => ?_⟩⟩
    unfold Malformed at hmalformed
    simp only [hhandler, hexpected, false_or] at hmalformed
    rw [hbytes] at hdropped
    rcases hmalformed with h | h | h | h | h
    · omega
    · omega
    · omega
    · omega
    · exact hdropped h

end Received

/-- A received message is handled inside its own bytes exactly when it is complete. -/
theorem handled_iff (server : ControlServer Ctx) (hevp : server.evp.Works) (m : Arrival)
    (s : ControlSession Ctx) (message : List UInt8) :
    Handled server m s message ↔ Complete server s message := by
  by_cases hlen : message.length < 2
  · constructor
    · rintro ⟨t, ht, -⟩
      unfold iterateReceive at ht
      rw [readLe_outside (by omega)] at ht
      cases ht
    · rintro ⟨hlong, -⟩
      omega
  by_cases hexpected : Unencrypted s (messageType message)
  · unfold Handled
    rw [iterateReceive_eq server m s message (by omega),
      call_unencrypted server m (refreshPing server m s) _ _ hexpected]
    exact ⟨fun _ => ⟨by omega, fun h => absurd hexpected h⟩, fun _ => ⟨_, rfl, fun _ => rfl⟩⟩
  by_cases hinput : handlerOf server (messageType message) = some .inputData
  · exact handled_inputData m s message (by omega) hexpected hevp hinput
  by_cases hencrypted : handlerOf server (messageType message) = some .encrypted
  · exact handled_encrypted m s message (by omega) hexpected hevp hencrypted
  · exact handled_plain m s message (by omega) hexpected hinput hencrypted

end Bounds

def rejectingServer : ControlServer Unit where
  evp := { init := fun _ => ((), true), setIv := fun _ _ => ((), true), finish := fun _ _ _ => ((), none) }
  fecStatus := {
    ptype := 0x5502
    size := 21
    totalDataPackets := fun status => leValue ((status.drop 10).take 2).reverse
    missingPacketsBeforeHighestReceived := fun status => leValue ((status.drop 8).take 2).reverse }
  pingTimeout := 10000

theorem rejectingServer_works : rejectingServer.evp.Works where
  init := fun _ => rfl
  setIv := fun _ _ => rfl
  finish_length := fun _ _ _ _ h => by cases h

def runningControl : ControlSession Unit where
  controlProtocolType := 13
  encControlV2 := true
  status := { state := .running, start := .returned }
  decryptCtx := none
  incomingIv := []
  legacyInputEncIv := List.replicate 16 0
  pingTimeout := 0
  lastInputTime := 0
  shutdownEvent := false
  idrEvents := false
  invalidateRefFramesEvents := none
  netStatsEvents := none
  inputQueue := []

/-- An encrypted message with all its bytes; its tag does not verify. -/
theorem handled_iff_forged :
    Handled rejectingServer ⟨5, none⟩ runningControl ([1, 0, 24, 0, 7, 0, 0, 0] ++ List.replicate 20 9) :=
  (handled_iff rejectingServer rejectingServer_works _ _ _).mpr
    ⟨by decide, fun _ => ⟨by decide, Or.inr (by decide)⟩⟩

/-- Eight bytes that say they are 65539: the tag and the ciphertext are read behind them. -/
theorem length_read_outside :
    ¬ ∀ message : List UInt8, Handled rejectingServer ⟨5, none⟩ runningControl message := by
  intro hall
  obtain ⟨t, ht, -⟩ := hall [1, 0, 255, 255, 7, 0, 0, 0]
  have hfault : iterateReceive rejectingServer ⟨5, none⟩ runningControl [1, 0, 255, 255, 7, 0, 0, 0] =
      .error .outside := rfl
  rw [hfault] at ht
  cases ht

end Sunshine.Session
