import Mathlib.Data.List.DropRight
import Sunshine.Lib.Networks
import Sunshine.Lib.Texts

/-! Clients from trusted subnets (`is_trusted_subnet` of `network.cpp`).

The check asks for the hosts of each network. The first and the last address of an IPv4 network are not among them,
so these are left out where no other entry has them: `trusted_iff`. -/
namespace Sunshine.TrustedSubnet
open Networks Texts
set_option autoImplicit false

abbrev Text := List Char

inductive Address where
  | v4 (address : BitVec 32)
  | v6 (address : BitVec 128)
  deriving DecidableEq, Repr

/-- Boost.Asio: the parsers, which may fail, and whether `hosts()` of a network finds an address. -/
structure Asio where
  makeAddress : Text → Option Address
  makeNetworkV4 : Text → Option (Network 32)
  makeNetworkV6 : Text → Option (Network 128)
  hostsV4 : Network 32 → BitVec 32 → Bool
  hostsV6 : Network 128 → BitVec 128 → Bool

/-- An empty text is no address. The hosts of an IPv4 network are the addresses between the network address and the
broadcast address, and a network of one address is a host; those of an IPv6 network are all its addresses. -/
structure Asio.Documented (asio : Asio) : Prop where
  empty : asio.makeAddress [] = none
  hostsV4 : ∀ net a, asio.hostsV4 net a = true ↔
    if net.prefixLength = 32 then a = net.address else net.first < a ∧ a < net.last
  hostsV6 : ∀ net a, asio.hostsV6 net a = true ↔ net.first ≤ a ∧ a ≤ net.last

/-- IPv4-mapped addresses become regular IPv4 addresses. -/
def normalizeAddress : Address → Address
  | .v6 a => if a >>> 32 = 0xffff then .v4 (a.setWidth 32) else .v6 a
  | .v4 a => .v4 a

def isBlank (ch : Char) : Bool := ch = ' ' || ch = '\t' || ch = '\r' || ch = '\n'

def trim (cidr : Text) : Text := (cidr.dropWhile isBlank).rdropWhile isBlank

section Check

variable (asio : Asio)

def matchesEntry (addr : Address) (cidr : Text) : Bool :=
  match addr with
  | .v4 a =>
    match asio.makeNetworkV4 cidr with
    | some net => asio.hostsV4 net a
    | none => false
  | .v6 a =>
    match asio.makeNetworkV6 cidr with
    | some net => asio.hostsV6 net a
    | none => false

def subnetLoop (addr : Address) : List Text → Bool
  | [] => false
  | cidr :: rest =>
    if trim cidr = [] then subnetLoop addr rest
    else if matchesEntry asio addr (trim cidr) then true
    else subnetLoop addr rest

def isTrustedSubnet (clientIp trustedSubnets : Text) : Bool :=
  if trustedSubnets = [] ∨ clientIp = [] then false
  else
    match asio.makeAddress clientIp with
    | none => false
    | some addr => subnetLoop asio (normalizeAddress addr) (getlines ',' trustedSubnets)

/-! ## Membership -/

/-- The entries of the list, without the blanks around them. -/
def entries (trustedSubnets : Text) : List Text := ((getlines ',' trustedSubnets).map trim).filter (· ≠ [])

/-- The entry is well formed for the family of the address, and the address lies in its network. -/
def LiesIn (cidr : Text) : Address → Prop
  | .v4 a => ∃ net, asio.makeNetworkV4 cidr = some net ∧ net.Contains a
  | .v6 a => ∃ net, asio.makeNetworkV6 cidr = some net ∧ net.Contains a

def InTrusted (clientIp trustedSubnets : Text) : Prop :=
  ∃ addr, asio.makeAddress clientIp = some addr ∧
    ∃ cidr ∈ entries trustedSubnets, LiesIn asio cidr (normalizeAddress addr)

/-- The address lies in the entry, and not at an end of an IPv4 network of several addresses. -/
def LiesInside (cidr : Text) : Address → Prop
  | .v4 a => ∃ net, asio.makeNetworkV4 cidr = some net ∧ net.Contains a ∧
      (net.prefixLength = 32 ∨ a ≠ net.first ∧ a ≠ net.last)
  | .v6 a => ∃ net, asio.makeNetworkV6 cidr = some net ∧ net.Contains a

variable {asio}

theorem subnetLoop_iff (addr : Address) (lines : List Text) :
    subnetLoop asio addr lines = true ↔
      ∃ cidr ∈ (lines.map trim).filter (· ≠ []), matchesEntry asio addr cidr = true := by
  induction lines with
  | nil => simp [subnetLoop]
  | cons cidr rest ih =>
    unfold subnetLoop
    rw [List.map_cons]
    by_cases hempty : trim cidr = []
    · rw [if_pos hempty, List.filter_cons_of_neg (by simpa using hempty), ih]
    · rw [if_neg hempty, List.filter_cons_of_pos (by simpa using hempty), List.exists_mem_cons_iff, ← ih]
      cases matchesEntry asio addr (trim cidr) with
      | true => simp
      | false => simp

/-- A network of one address. -/
theorem contains_host {w : ℕ} {net : Network w} (hhost : net.prefixLength = w) (a : BitVec w) :
    net.Contains a ↔ a = net.address := by
  have hbits : net.hostBits = 0 := by
    unfold Network.hostBits
    rw [hhost, Nat.sub_self]
  rw [contains_iff_shift, hbits]
  simp

theorem hostsV4_iff (hasio : asio.Documented) (net : Network 32) (a : BitVec 32) :
    asio.hostsV4 net a = true ↔
      net.Contains a ∧ (net.prefixLength = 32 ∨ a ≠ net.first ∧ a ≠ net.last) := by
  rw [hasio.hostsV4]
  by_cases hhost : net.prefixLength = 32
  · rw [if_pos hhost, contains_host hhost]
    simp [hhost]
  · rw [if_neg hhost, contains_iff]
    constructor
    · rintro ⟨hfirst, hlast⟩
      refine ⟨⟨BitVec.le_of_lt hfirst, BitVec.le_of_lt hlast⟩, .inr ⟨?_, ?_⟩⟩
      · rintro rfl
        exact BitVec.lt_irrefl _ hfirst
      · rintro rfl
        exact BitVec.lt_irrefl _ hlast
    · rintro ⟨⟨hfirst, hlast⟩, hends⟩
      obtain ⟨hne, hne'⟩ := hends.resolve_left hhost
      exact ⟨BitVec.lt_of_le_ne hfirst (Ne.symm hne), BitVec.lt_of_le_ne hlast hne'⟩

theorem matchesEntry_iff (hasio : asio.Documented) (addr : Address) (cidr : Text) :
    matchesEntry asio addr cidr = true ↔ LiesInside asio cidr addr := by
  unfold matchesEntry LiesInside
  cases addr with
  | v4 a =>
    dsimp only
    cases asio.makeNetworkV4 cidr with
    | none => simp
    | some net => simp [hostsV4_iff hasio]
  | v6 a =>
    dsimp only
    cases asio.makeNetworkV6 cidr with
    | none => simp
    | some net => simp [hasio.hostsV6, contains_iff]

theorem LiesInside.liesIn {cidr : Text} {addr : Address} (h : LiesInside asio cidr addr) : LiesIn asio cidr addr := by
  cases addr with
  | v4 a =>
    obtain ⟨net, hnet, hcontains, -⟩ := h
    exact ⟨net, hnet, hcontains⟩
  | v6 a => exact h

theorem isTrustedSubnet_iff (hasio : asio.Documented) (clientIp trustedSubnets : Text) :
    isTrustedSubnet asio clientIp trustedSubnets = true ↔
      ∃ addr, asio.makeAddress clientIp = some addr ∧
        ∃ cidr ∈ entries trustedSubnets, LiesInside asio cidr (normalizeAddress addr) := by
  unfold isTrustedSubnet
  by_cases hempty : trustedSubnets = [] ∨ clientIp = []
  · rw [if_pos hempty]
    refine iff_of_false Bool.false_ne_true ?_
    rintro ⟨addr, haddr, cidr, hcidr, -⟩
    rcases hempty with rfl | rfl
    · cases hcidr
    · rw [hasio.empty] at haddr
      cases haddr
  · rw [if_neg hempty]
    cases asio.makeAddress clientIp with
    | none => simp
    | some addr =>
      simp only [subnetLoop_iff, matchesEntry_iff hasio, Option.some.injEq, exists_eq_left']
      rfl

/-- The check is membership exactly if an address that lies in a listed network also lies in one that does not have it
at an end. -/
theorem trusted_iff (hasio : asio.Documented) (clientIp trustedSubnets : Text) :
    (isTrustedSubnet asio clientIp trustedSubnets = true ↔ InTrusted asio clientIp trustedSubnets) ↔
      ∀ addr, asio.makeAddress clientIp = some addr →
        (∃ cidr ∈ entries trustedSubnets, LiesIn asio cidr (normalizeAddress addr)) →
          ∃ cidr ∈ entries trustedSubnets, LiesInside asio cidr (normalizeAddress addr) := by
  rw [isTrustedSubnet_iff hasio]
  unfold InTrusted
  constructor
  · intro h addr haddr hlies
    obtain ⟨addr', haddr', hinside⟩ := h.mpr ⟨addr, haddr, hlies⟩
    rw [haddr, Option.some.injEq] at haddr'
    exact haddr' ▸ hinside
  · intro h
    constructor
    · rintro ⟨addr, haddr, cidr, hcidr, hinside⟩
      exact ⟨addr, haddr, cidr, hcidr, hinside.liesIn⟩
    · rintro ⟨addr, haddr, hlies⟩
      exact ⟨addr, haddr, h addr haddr hlies⟩

end Check

/-! ## A network of two addresses -/

/-- Boost.Asio with the texts of two addresses and two networks. -/
def twoNetworks : Asio where
  makeAddress text :=
    if text = "10.0.0.1".toList then some (.v4 0x0a000001)
    else if text = "::ffff:10.0.0.1".toList then some (.v6 0xffff0a000001)
    else none
  makeNetworkV4 text :=
    if text = "10.0.0.0/24".toList then some ⟨0x0a000000, 24, by decide⟩
    else if text = "10.0.0.0/31".toList then some ⟨0x0a000000, 31, by decide⟩
    else none
  makeNetworkV6 _ := none
  hostsV4 net a := if net.prefixLength = 32 then a = net.address else net.first < a ∧ a < net.last
  hostsV6 net a := net.first ≤ a ∧ a ≤ net.last

theorem twoNetworks_documented : twoNetworks.Documented where
  empty := by decide
  hostsV4 net a := by
    have hhosts : twoNetworks.hostsV4 net a =
        if net.prefixLength = 32 then decide (a = net.address) else decide (net.first < a ∧ a < net.last) := rfl
    by_cases hhost : net.prefixLength = 32
    · rw [hhosts, if_pos hhost, if_pos hhost, decide_eq_true_iff]
    · rw [hhosts, if_neg hhost, if_neg hhost, decide_eq_true_iff]
  hostsV6 _ _ := decide_eq_true_iff

/-- A mapped address in the second entry, behind a malformed one. -/
theorem trusted_mapped : isTrustedSubnet twoNetworks "::ffff:10.0.0.1".toList "bad, 10.0.0.0/24".toList = true ↔
    InTrusted twoNetworks "::ffff:10.0.0.1".toList "bad, 10.0.0.0/24".toList := by
  refine (trusted_iff twoNetworks_documented _ _).mpr fun addr haddr _ => ?_
  have haddr' : addr = .v6 0xffff0a000001 := (Option.some.inj haddr).symm
  subst haddr'
  exact ⟨"10.0.0.0/24".toList, by decide, ⟨0x0a000000, 24, by decide⟩, by decide, by decide, by decide⟩

/-- The second address of a network of two. -/
theorem slash31_untrusted : isTrustedSubnet twoNetworks "10.0.0.1".toList "10.0.0.0/31".toList = false ∧
    InTrusted twoNetworks "10.0.0.1".toList "10.0.0.0/31".toList :=
  ⟨by decide, .v4 0x0a000001, by decide, "10.0.0.0/31".toList, by decide, ⟨0x0a000000, 31, by decide⟩, by decide,
    by decide⟩

end Sunshine.TrustedSubnet
