import Mathlib.Data.List.Basic
import Sunshine.Lib.Transitions

/-! The authorized clients of the HTTPS server (`save_state`, `load_state`, `add_authorized_client`,
`unpair_client`, `erase_all_clients`, `set_client_enabled`, the verify callback, and `cert_chain_t`).

The list of named devices, the certificate chain, the queue of certificates still to be added to it
and the state file are changed by different operations. `client_contract` says that they agree, and
that the callback accepts exactly the clients that are listed and enabled, in every run that stays
clear of `Sound`: an unpairing while the client is still queued, a failed write, and the other steps
it names each break the agreement. -/
namespace Sunshine.Pairing
open Transitions
set_option autoImplicit false

/-! ## Certificates -/

/-- What `X509_verify_cert` says of a certificate against a store of one. -/
inductive VerifyResult where
  | ok
  | depthZeroSelfSignedCert
  | invalidCa
  | other
  deriving DecidableEq, Repr

/-- Reading and writing certificates, and OpenSSL's verification of one (`verifyCert trusted cert`,
with the callback that lets expired certificates pass). Written out and read back, a certificate is
the same. -/
structure CertOps (Text Cert : Type) where
  x509 : Text → Option Cert
  pem : Cert → Text
  x509_pem : ∀ c, x509 (pem c) = some c
  verifyCert : Cert → Cert → VerifyResult

structure NamedCert (Text : Type) where
  name : String
  uuid : String
  cert : Text
  enabled : Bool := true
  deriving DecidableEq, Repr

structure ClientStore (Text Cert : Type) where
  namedDevices : List (NamedCert Text) := []
  certChain : List Cert := []
  addCert : List Cert := []
  file : Option (List (NamedCert Text)) := none
  deriving DecidableEq, Repr

def addCertMax : ℕ := 30

section Store

variable {Text Cert : Type} (ops : CertOps Text Cert)

/-! ## The operations -/

/-- `cert_chain_t::verify`: a store that does not match ends the search unless its error is one of
the two that are passed over. -/
def chainVerify (cert : Cert) : List Cert → Bool
  | [] => false
  | trusted :: rest =>
    match ops.verifyCert trusted cert with
    | .ok => true
    | .depthZeroSelfSignedCert => chainVerify cert rest
    | .invalidCa => chainVerify cert rest
    | .other => false

/-- The mark of the first device with this text; an unknown text is enabled. -/
def isClientEnabled [DecidableEq Text] (devices : List (NamedCert Text)) (text : Text) : Bool :=
  match devices.find? (fun d => d.cert = text) with
  | some d => d.enabled
  | none => true

def saveState (s : ClientStore Text Cert) (written : Bool) : ClientStore Text Cert :=
  if written then { s with file := some s.namedDevices } else s

/-- The chain of a list of devices. -/
def chainOf (devices : List (NamedCert Text)) : List Cert := devices.filterMap fun d => ops.x509 d.cert

def loadState (s : ClientStore Text Cert) (readable : Bool) : ClientStore Text Cert :=
  match s.file with
  | none => s
  | some devices =>
    if readable then { s with namedDevices := devices, certChain := chainOf ops devices } else s

/-- `queue_t::raise` under the policy that clears a full queue. -/
def raiseAddCert (s : ClientStore Text Cert) (cert : Cert) : ClientStore Text Cert :=
  { s with addCert := (if addCertMax ≤ s.addCert.length then [] else s.addCert) ++ [cert] }

def addAuthorizedClient (s : ClientStore Text Cert) (device : NamedCert Text)
    (freshState written : Bool) : ClientStore Text Cert :=
  let s := { s with namedDevices := s.namedDevices ++ [device] }
  if freshState then s else saveState s written

/-- The end of a successful pairing. -/
def pairClient (s : ClientStore Text Cert) (name uuid : String) (text : Text)
    (freshState written : Bool) : ClientStore Text Cert :=
  match ops.x509 text with
  | none => s
  | some cert =>
    addAuthorizedClient (raiseAddCert s cert) { name, uuid, cert := text } freshState written

/-- The verify callback: queued certificates join the chain first. -/
def drainAddCert (s : ClientStore Text Cert) : ClientStore Text Cert :=
  { s with certChain := s.certChain ++ s.addCert, addCert := [] }

def verify [DecidableEq Text] (s : ClientStore Text Cert) (cert : Cert) : ClientStore Text Cert × Bool :=
  let s := drainAddCert s
  (s, chainVerify ops cert s.certChain && isClientEnabled s.namedDevices (ops.pem cert))

def unpairClient (s : ClientStore Text Cert) (uuid : String) (written readable : Bool) :
    ClientStore Text Cert :=
  let s := { s with namedDevices := s.namedDevices.filter (fun d => d.uuid ≠ uuid) }
  loadState ops (saveState s written) readable

def eraseAllClients (s : ClientStore Text Cert) (written : Bool) : ClientStore Text Cert :=
  saveState { s with namedDevices := [], certChain := [] } written

def markFirst (uuid : String) (enabled : Bool) : List (NamedCert Text) → List (NamedCert Text)
  | [] => []
  | d :: rest =>
    if d.uuid = uuid then { d with enabled } :: rest else d :: markFirst uuid enabled rest

def setClientEnabled (s : ClientStore Text Cert) (uuid : String) (enabled written : Bool) :
    ClientStore Text Cert :=
  if s.namedDevices.any (fun d => d.uuid = uuid) then
    saveState { s with namedDevices := markFirst uuid enabled s.namedDevices } written
  else s

/-- `start`: a new process with what the file holds. -/
def restartServer (s : ClientStore Text Cert) (freshState readable : Bool) : ClientStore Text Cert :=
  let s : ClientStore Text Cert := { file := s.file }
  if freshState then s else loadState ops s readable

inductive StoreEvent (Text Cert : Type) where
  | pair (name uuid : String) (text : Text) (freshState written : Bool)
  | verify (cert : Cert)
  | unpair (uuid : String) (written readable : Bool)
  | eraseAll (written : Bool)
  | setEnabled (uuid : String) (enabled written : Bool)
  | save (written : Bool)
  | load (readable : Bool)
  | restart (freshState readable : Bool)
  deriving DecidableEq, Repr

def nextStore [DecidableEq Text] (s : ClientStore Text Cert) : StoreEvent Text Cert → ClientStore Text Cert
  | .pair name uuid text freshState written => pairClient ops s name uuid text freshState written
  | .verify cert => (verify ops s cert).1
  | .unpair uuid written readable => unpairClient ops s uuid written readable
  | .eraseAll written => eraseAllClients s written
  | .setEnabled uuid enabled written => setClientEnabled s uuid enabled written
  | .save written => saveState s written
  | .load readable => loadState ops s readable
  | .restart freshState readable => restartServer ops s freshState readable

/-! ## The contract -/

/-- The certificate is on the persisted list, marked enabled. -/
def ListedEnabled (s : ClientStore Text Cert) (cert : Cert) : Prop :=
  ∃ d ∈ s.file.getD [], ops.x509 d.cert = some cert ∧ d.enabled = true

/-- OpenSSL takes the certificate for self-signed wherever it is not itself trusted, as it does with
a client's own certificate. -/
def SelfSigned [DecidableEq Cert] (cert : Cert) : Prop :=
  ∀ trusted, ops.verifyCert trusted cert = if trusted = cert then .ok else .depthZeroSelfSignedCert

/-- The server accepts exactly the clients that are listed and enabled. -/
def Contract [DecidableEq Text] [DecidableEq Cert] (s : ClientStore Text Cert) : Prop :=
  ∀ cert, SelfSigned ops cert → ((verify ops s cert).2 = true ↔ ListedEnabled ops s cert)

/-- Devices with one certificate carry one mark, and a disabled one is stored in the text the
callback compares with. -/
def MarksAgree (devices : List (NamedCert Text)) : Prop :=
  (∀ d ∈ devices, ∀ e ∈ devices, ops.x509 d.cert = ops.x509 e.cert → d.enabled = e.enabled) ∧
    ∀ d ∈ devices, d.enabled = false → ∀ cert ∈ ops.x509 d.cert, d.cert = ops.pem cert

def QueueListed (devices : List (NamedCert Text)) (queue : List Cert) : Prop :=
  ∀ cert ∈ queue, ∃ d ∈ devices, ops.x509 d.cert = some cert

/-- The steps that keep the copies together: state files are written and read (a failed write of an
unpairing is taken back by the reading), a pairing finds room in the queue, nothing still queued is
unpaired or erased, and marks stay in agreement. -/
def Sound (s : ClientStore Text Cert) : StoreEvent Text Cert → Prop
  | .pair name uuid text freshState written =>
    freshState = false ∧ written = true ∧ s.addCert.length < addCertMax ∧
      MarksAgree ops (s.namedDevices ++ [{ name, uuid, cert := text }])
  | .verify _ => True
  | .unpair uuid written readable => readable = true ∧
      (written = true → QueueListed ops (s.namedDevices.filter (fun d => d.uuid ≠ uuid)) s.addCert)
  | .eraseAll written => written = true ∧ s.addCert = []
  | .setEnabled uuid enabled written => written = true ∧
      MarksAgree ops (markFirst uuid enabled s.namedDevices)
  | .save _ => True
  | .load _ => True
  | .restart freshState readable => freshState = false ∧ readable = true

instance [DecidableEq Text] [DecidableEq Cert] (devices : List (NamedCert Text)) :
    Decidable (MarksAgree ops devices) :=
  inferInstanceAs (Decidable (_ ∧ _))

instance [DecidableEq Cert] (devices : List (NamedCert Text)) (queue : List Cert) :
    Decidable (QueueListed ops devices queue) :=
  inferInstanceAs (Decidable (∀ cert ∈ queue, ∃ d ∈ devices, ops.x509 d.cert = some cert))

instance [DecidableEq Text] [DecidableEq Cert] (s : ClientStore Text Cert)
    (e : StoreEvent Text Cert) : Decidable (Sound ops s e) := by
  cases e <;> dsimp only [Sound] <;> infer_instance

/-- The file holds the list, chain and queue hold its certificates, and the marks agree. -/
structure StoreInv (s : ClientStore Text Cert) : Prop where
  file : s.file.getD [] = s.namedDevices
  parses : ∀ d ∈ s.namedDevices, ∃ cert, ops.x509 d.cert = some cert
  chain : ∀ cert, cert ∈ s.certChain ++ s.addCert ↔
    ∃ d ∈ s.namedDevices, ops.x509 d.cert = some cert
  marks : MarksAgree ops s.namedDevices

/-! ## One verification -/

theorem chainVerify_iff [DecidableEq Cert] (cert : Cert) (hself : SelfSigned ops cert) (chain : List Cert) :
    chainVerify ops cert chain = true ↔ cert ∈ chain := by
  induction chain with
  | nil => simp [chainVerify]
  | cons trusted rest ih =>
    unfold chainVerify
    rw [hself trusted]
    by_cases h : trusted = cert
    · rw [if_pos h]
      simp [h]
    · rw [if_neg h]
      simp only [ih, List.mem_cons]
      exact ⟨Or.inr, fun hm => hm.resolve_left fun e => h e.symm⟩

/-- Where the marks agree, the first match by text has the mark of the certificate. -/
theorem isClientEnabled_eq [DecidableEq Text] (devices : List (NamedCert Text)) (hmarks : MarksAgree ops devices)
    (d : NamedCert Text) (hd : d ∈ devices) (cert : Cert) (hcert : ops.x509 d.cert = some cert) :
    isClientEnabled devices (ops.pem cert) = d.enabled := by
  unfold isClientEnabled
  cases hfind : devices.find? (fun e => e.cert = ops.pem cert) with
  | some e =>
    have he := List.mem_of_find?_eq_some hfind
    have htext : e.cert = ops.pem cert := by simpa using List.find?_some hfind
    exact hmarks.1 e he d hd (by rw [htext, ops.x509_pem, hcert])
  | none =>
    -- no device has the canonical text, so this one is not disabled
    have hnone := List.find?_eq_none.mp hfind d hd
    cases hen : d.enabled with
    | true => rfl
    | false => exact absurd (hmarks.2 d hd hen cert hcert) (by simpa using hnone)

theorem StoreInv.contract [DecidableEq Text] [DecidableEq Cert] {s : ClientStore Text Cert} (h : StoreInv ops s) : Contract ops s := by
  intro cert hself
  unfold verify ListedEnabled drainAddCert
  rw [Bool.and_eq_true, chainVerify_iff ops cert hself, h.chain, h.file]
  constructor
  · rintro ⟨⟨d, hd, hcert⟩, hen⟩
    rw [isClientEnabled_eq ops s.namedDevices h.marks d hd cert hcert] at hen
    exact ⟨d, hd, hcert, hen⟩
  · rintro ⟨d, hd, hcert, hen⟩
    refine ⟨⟨d, hd, hcert⟩, ?_⟩
    rw [isClientEnabled_eq ops s.namedDevices h.marks d hd cert hcert, hen]

/-! ## The steps -/

theorem mem_chainOf (devices : List (NamedCert Text)) (cert : Cert) :
    cert ∈ chainOf ops devices ↔ ∃ d ∈ devices, ops.x509 d.cert = some cert := by
  unfold chainOf
  rw [List.mem_filterMap]

/-- Loading rebuilds the chain; certificates still queued stay listed. -/
theorem loadState_inv (s : ClientStore Text Cert) (devices : List (NamedCert Text))
    (hfile : s.file = some devices) (hparses : ∀ d ∈ devices, ∃ cert, ops.x509 d.cert = some cert)
    (hqueue : QueueListed ops devices s.addCert) (hmarks : MarksAgree ops devices) :
    StoreInv ops (loadState ops s true) := by
  unfold loadState
  rw [hfile]
  simp only [if_true]
  refine ⟨rfl, hparses, fun cert => ?_, hmarks⟩
  rw [List.mem_append, mem_chainOf]
  exact ⟨fun hm => hm.elim id (hqueue cert), Or.inl⟩

theorem StoreInv.queueListed {s : ClientStore Text Cert} (h : StoreInv ops s) :
    QueueListed ops s.namedDevices s.addCert :=
  fun cert hm => (h.chain cert).mp (List.mem_append_right _ hm)

theorem StoreInv.load {s t : ClientStore Text Cert} (h : StoreInv ops s) (hfile : t.file = s.file)
    (hqueue : QueueListed ops s.namedDevices t.addCert)
    (hnone : s.namedDevices = [] → StoreInv ops t) : StoreInv ops (loadState ops t true) := by
  have hf := h.file
  cases hdevices : s.file with
  | none =>
    rw [hdevices, Option.getD_none] at hf
    have hload : loadState ops t true = t := by simp [loadState, hfile, hdevices]
    rw [hload]
    exact hnone hf.symm
  | some devices =>
    rw [hdevices, Option.getD_some] at hf
    subst hf
    exact loadState_inv ops t s.namedDevices (hfile.trans hdevices) h.parses hqueue h.marks

theorem pairClient_inv {s : ClientStore Text Cert} (h : StoreInv ops s) (name uuid : String)
    (text : Text) (hroom : s.addCert.length < addCertMax)
    (hmarks : MarksAgree ops (s.namedDevices ++ [{ name, uuid, cert := text }])) :
    StoreInv ops (pairClient ops s name uuid text false true) := by
  unfold pairClient
  cases hcert : ops.x509 text with
  | none => exact h
  | some cert =>
    have hkeep : ¬ addCertMax ≤ s.addCert.length := by omega
    simp only [addAuthorizedClient, raiseAddCert, saveState, if_true, Bool.false_eq_true, if_false,
      if_neg hkeep]
    refine ⟨rfl, ?_, fun c => ?_, hmarks⟩
    · intro d hd
      rcases List.mem_append.mp hd with hd | hd
      · exact h.parses d hd
      · rw [List.mem_singleton.mp hd]
        exact ⟨cert, hcert⟩
    · have hold := h.chain c
      simp only [List.mem_append, List.mem_singleton] at hold ⊢
      constructor
      · rintro (hm | hm | rfl)
        · obtain ⟨d, hd, hc⟩ := hold.mp (Or.inl hm)
          exact ⟨d, Or.inl hd, hc⟩
        · obtain ⟨d, hd, hc⟩ := hold.mp (Or.inr hm)
          exact ⟨d, Or.inl hd, hc⟩
        · exact ⟨_, Or.inr rfl, hcert⟩
      · rintro ⟨d, hd | rfl, hc⟩
        · rcases hold.mpr ⟨d, hd, hc⟩ with hm | hm
          · exact Or.inl hm
          · exact Or.inr (Or.inl hm)
        · exact Or.inr (Or.inr (Option.some.inj (hcert.symm.trans hc)).symm)

theorem verify_inv [DecidableEq Text] {s : ClientStore Text Cert} (h : StoreInv ops s) (cert : Cert) :
    StoreInv ops (verify ops s cert).1 := by
  refine ⟨h.file, h.parses, fun c => ?_, h.marks⟩
  show c ∈ (s.certChain ++ s.addCert) ++ [] ↔ _
  rw [List.append_nil]
  exact h.chain c

theorem MarksAgree.filter {devices : List (NamedCert Text)} (h : MarksAgree ops devices)
    (keep : NamedCert Text → Bool) : MarksAgree ops (devices.filter keep) :=
  ⟨fun d hd e he => h.1 d (List.mem_of_mem_filter hd) e (List.mem_of_mem_filter he),
    fun d hd => h.2 d (List.mem_of_mem_filter hd)⟩

theorem unpairClient_inv {s : ClientStore Text Cert} (h : StoreInv ops s) (uuid : String)
    (written : Bool) (hqueue : written = true →
      QueueListed ops (s.namedDevices.filter (fun d => d.uuid ≠ uuid)) s.addCert) :
    StoreInv ops (unpairClient ops s uuid written true) := by
  unfold unpairClient saveState
  cases written with
  | true =>
    exact loadState_inv ops _ _ rfl (fun d hd => h.parses d (List.mem_of_mem_filter hd))
      (hqueue rfl) (h.marks.filter ops _)
  | false =>
    -- the old list is read back; where there is no file there was no device to remove
    refine h.load ops rfl h.queueListed fun hempty => ?_
    have hsame : s.namedDevices.filter (fun d => d.uuid ≠ uuid) = s.namedDevices := by
      rw [hempty]
      rfl
    simp only [Bool.false_eq_true, if_false, hsame]
    exact h

theorem eraseAllClients_inv {s : ClientStore Text Cert} (hqueue : s.addCert = []) :
    StoreInv ops (eraseAllClients s true) := by
  unfold eraseAllClients saveState
  refine ⟨rfl, nofun, fun c => ?_, nofun, nofun⟩
  simp [hqueue]

theorem markFirst_certs (uuid : String) (enabled : Bool) (devices : List (NamedCert Text)) :
    (markFirst uuid enabled devices).map NamedCert.cert = devices.map NamedCert.cert := by
  induction devices with
  | nil => rfl
  | cons d rest ih =>
    unfold markFirst
    split_ifs
    · rfl
    · rw [List.map_cons, List.map_cons, ih]

theorem setClientEnabled_inv {s : ClientStore Text Cert} (h : StoreInv ops s) (uuid : String)
    (enabled : Bool) (hmarks : MarksAgree ops (markFirst uuid enabled s.namedDevices)) :
    StoreInv ops (setClientEnabled s uuid enabled true) := by
  -- a statement about certificates only holds of the marked list when it holds of the old one
  have hsame : ∀ p : Text → Prop, (∃ d ∈ markFirst uuid enabled s.namedDevices, p d.cert) ↔
      ∃ d ∈ s.namedDevices, p d.cert := by
    intro p
    have hiff : ∀ l : List (NamedCert Text),
        (∃ d ∈ l, p d.cert) ↔ ∃ t ∈ l.map NamedCert.cert, p t := by
      intro l
      simp
    rw [hiff, markFirst_certs, ← hiff]
  unfold setClientEnabled saveState
  simp only [if_true]
  split_ifs
  · refine ⟨rfl, fun d hd => ?_, fun c => ?_, hmarks⟩
    · obtain ⟨e, he, hcert⟩ := (hsame (fun t => t = d.cert)).mp ⟨d, hd, rfl⟩
      rw [← hcert]
      exact h.parses e he
    · rw [hsame fun t => ops.x509 t = some c]
      exact h.chain c
  · exact h

theorem nextStore_inv [DecidableEq Text] (s : ClientStore Text Cert) (e : StoreEvent Text Cert) (h : StoreInv ops s)
    (hsound : Sound ops s e) : StoreInv ops (nextStore ops s e) := by
  cases e with
  | pair name uuid text freshState written =>
    obtain ⟨rfl, rfl, hroom, hmarks⟩ := hsound
    exact pairClient_inv ops h name uuid text hroom hmarks
  | verify cert => exact verify_inv ops h cert
  | unpair uuid written readable =>
    obtain ⟨rfl, hqueue⟩ := hsound
    exact unpairClient_inv ops h uuid written hqueue
  | eraseAll written =>
    obtain ⟨rfl, hqueue⟩ := hsound
    exact eraseAllClients_inv ops hqueue
  | setEnabled uuid enabled written =>
    obtain ⟨rfl, hmarks⟩ := hsound
    exact setClientEnabled_inv ops h uuid enabled hmarks
  | save written =>
    cases written with
    | true => exact ⟨rfl, h.parses, h.chain, h.marks⟩
    | false => exact h
  | load readable =>
    cases readable with
    | true => exact h.load ops rfl h.queueListed fun _ => h
    | false =>
      have hload : nextStore ops s (.load false) = s := by
        unfold nextStore loadState
        cases s.file <;> rfl
      rw [hload]
      exact h
  | restart freshState readable =>
    obtain ⟨rfl, rfl⟩ := hsound
    refine h.load ops rfl nofun fun hempty => ⟨?_, nofun, fun c => by simp, nofun, nofun⟩
    exact h.file.trans hempty

/-- The contract holds in every state of a run of sound steps. -/
theorem client_contract [DecidableEq Text] [DecidableEq Cert] (l : List (StoreEvent Text Cert))
    (h : Runs (Sound ops) (nextStore ops) {} l) : Contract ops (l.foldl (nextStore ops) {}) :=
  (h.invariant (StoreInv ops) ⟨rfl, nofun, fun c => by simp, nofun, nofun⟩
    fun s e hs hsound => nextStore_inv ops s e hs hsound).contract

end Store

def plainOps : CertOps ℕ ℕ where
  x509 := some
  pem := id
  x509_pem _ := rfl
  verifyCert trusted cert := if trusted = cert then .ok else .depthZeroSelfSignedCert

/-- Two clients are paired, one is disabled, unpaired with a failed write, and enabled again; the
other one is unpaired. -/
theorem client_contract_two_clients :
    Contract plainOps ([.pair "tv" "a" 1 false true, .verify 1, .setEnabled "a" false true,
      .pair "phone" "b" 2 false true, .unpair "a" false true, .verify 2, .unpair "b" true true,
      .setEnabled "a" true true, .restart false true].foldl (nextStore plainOps) {}) :=
  client_contract plainOps _ (by decide)

/-- A client unpaired before its next connection is still queued, and is accepted from then on. -/
theorem unpaired_client_accepted :
    ¬ ∀ l : List (StoreEvent ℕ ℕ), Contract plainOps (l.foldl (nextStore plainOps) {}) := by
  intro hall
  have hrun := hall [.pair "tv" "a" 1 false true, .unpair "a" true true] 1 fun _ => rfl
  obtain ⟨d, hd, -⟩ := hrun.mp (by decide)
  have hfile : ([StoreEvent.pair "tv" "a" 1 false true, .unpair "a" true true].foldl
      (nextStore plainOps) {}).file = some [] := by decide
  rw [hfile] at hd
  exact absurd hd (by simp)

end Sunshine.Pairing
