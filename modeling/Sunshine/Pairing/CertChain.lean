import Mathlib.Algebra.Ring.Int.Defs
import Sunshine.Lib.Trials

/-! The certificates of the paired clients (`cert_chain_t`).

Each certificate has a store of its own, and a client is accepted by the first store that verifies its
certificate. An error other than the two that are expected ends the loop, so a store behind it is not
asked: `verify_perm_iff`. -/
namespace Sunshine.Pairing
open Trials
set_option autoImplicit false

/-- The error codes that the code names. -/
inductive VerifyError where
  | ok
  | certNotYetValid
  | certHasExpired
  | depthZeroSelfSignedCert
  | invalidCa
  | other (code : ℤ)
  deriving DecidableEq, Repr

/-- `X509_verify_cert` gets the callback and answers with its result and the error that the context holds. -/
structure OpenSsl (X509 Store : Type) where
  storeOf : X509 → Store
  verifyCert : (ℤ → VerifyError → ℤ) → Store → X509 → ℤ × VerifyError
  errorString : VerifyError → String

/-- Certificates that are expired, or not valid yet, are fine. -/
def opensslVerifyCb (ok : ℤ) (errCode : VerifyError) : ℤ :=
  match errCode with
  | .certNotYetValid | .certHasExpired => 1
  | _ => ok

section CertChain

variable {X509 Store : Type} (ssl : OpenSsl X509 Store)

/-- `_certs` -/
abbrev CertChain (X509 Store : Type) := List (X509 × Store)

def CertChain.add (certs : CertChain X509 Store) (cert : X509) : CertChain X509 Store :=
  certs ++ [(cert, ssl.storeOf cert)]

def CertChain.clear (_ : CertChain X509 Store) : CertChain X509 Store := []

def verifyLoop (cert : X509) (errCode : VerifyError) : CertChain X509 Store → Option String
  | [] => some (ssl.errorString errCode)
  | (_, store) :: rest =>
    let (err, errCode) := ssl.verifyCert opensslVerifyCb store cert
    if err = 1 then none
    else if errCode ≠ .depthZeroSelfSignedCert ∧ errCode ≠ .invalidCa then some (ssl.errorString errCode)
    else verifyLoop cert errCode rest

/-- No string if the certificate is valid, otherwise the text of the error. -/
def CertChain.verify (certs : CertChain X509 Store) (cert : X509) : Option String := verifyLoop ssl cert .ok certs

/-! ## Trials -/

/-- What a store says of a certificate. -/
def storeTrial (cert : X509) (entry : X509 × Store) : Trial VerifyError :=
  let (err, errCode) := ssl.verifyCert opensslVerifyCb entry.2 cert
  if err = 1 then .accepted
  else if errCode ≠ .depthZeroSelfSignedCert ∧ errCode ≠ .invalidCa then .stopped errCode
  else .passed errCode

theorem verifyLoop_eq (cert : X509) (errCode : VerifyError) (certs : CertChain X509 Store) :
    verifyLoop ssl cert errCode certs = (tryAll (storeTrial ssl cert) errCode certs).map ssl.errorString := by
  induction certs generalizing errCode with
  | nil => rfl
  | cons entry certs ih =>
    unfold verifyLoop tryAll storeTrial
    by_cases haccepted : (ssl.verifyCert opensslVerifyCb entry.2 cert).1 = 1
    · simp only [if_pos haccepted]
      rfl
    · simp only [if_neg haccepted]
      split
      · rfl
      · exact ih _

theorem verify_eq_none_iff (certs : CertChain X509 Store) (cert : X509) :
    certs.verify ssl cert = none ↔ tryAll (storeTrial ssl cert) .ok certs = none := by
  rw [CertChain.verify, verifyLoop_eq, Option.map_eq_none_iff]

/-- The store of the entry verifies the certificate. -/
def Accepts (cert : X509) (entry : X509 × Store) : Prop :=
  (ssl.verifyCert opensslVerifyCb entry.2 cert).1 = 1

/-- The store fails with an error that is not expected. -/
def Stops (cert : X509) (entry : X509 × Store) : Prop :=
  ¬Accepts ssl cert entry ∧
    (ssl.verifyCert opensslVerifyCb entry.2 cert).2 ≠ .depthZeroSelfSignedCert ∧
    (ssl.verifyCert opensslVerifyCb entry.2 cert).2 ≠ .invalidCa

theorem storeTrial_accepted_iff (cert : X509) (entry : X509 × Store) :
    storeTrial ssl cert entry = .accepted ↔ Accepts ssl cert entry := by
  unfold storeTrial Accepts
  simp only
  split
  · simpa
  · rename_i hrejected
    split
    · simpa using hrejected
    · simpa using hrejected

theorem storeTrial_stopped_iff (cert : X509) (entry : X509 × Store) :
    (∃ errCode, storeTrial ssl cert entry = .stopped errCode) ↔ Stops ssl cert entry := by
  unfold storeTrial Stops Accepts
  simp only
  split
  · rename_i haccepted
    simp [haccepted]
  · rename_i hrejected
    split
    · rename_i herror
      simp [hrejected, herror]
    · rename_i herror
      simp [hrejected, herror]

/-- Every order of the certificates accepts a client if and only if some store does. -/
def OrderIndependent (certs : CertChain X509 Store) (cert : X509) : Prop :=
  ∀ order : CertChain X509 Store, order.Perm certs →
    (order.verify ssl cert = none ↔ ∃ entry ∈ certs, Accepts ssl cert entry)

theorem verify_perm_iff (certs : CertChain X509 Store) (cert : X509) :
    OrderIndependent ssl certs cert ↔
      ((∃ entry ∈ certs, Accepts ssl cert entry) → ∀ entry ∈ certs, ¬Stops ssl cert entry) := by
  unfold OrderIndependent
  simp only [verify_eq_none_iff, ← storeTrial_accepted_iff, ← storeTrial_stopped_iff, not_exists]
  exact tryAll_perm_iff VerifyError.ok certs

end CertChain

/-- A store verifies its own certificate; the other certificates do not look self-signed. -/
def embeddedClients : OpenSsl ℕ ℕ where
  storeOf cert := cert
  verifyCert _ store cert := if store = cert then (1, .ok) else (0, .other 20)
  errorString _ := "unable to get local issuer certificate"

/-- Client 2 is accepted if it was paired first, and not if it was paired second. -/
theorem order_matters :
    ¬OrderIndependent embeddedClients ((CertChain.add embeddedClients [] 1).add embeddedClients 2) 2 := by
  intro h
  have haccepted := (h _ (List.Perm.refl _)).mpr ⟨(2, 2), by decide, rfl⟩
  exact absurd haccepted (by decide)

end Sunshine.Pairing
