import Mathlib.Data.Nat.Basic
import Mathlib.Tactic.Ring

/-! Networks in an address space of `w` bits: an address with the length of its prefix.

An address lies in a network if the first bits agree. `contains_iff` says that these are the addresses between the
network's first and its last one. -/
namespace Sunshine.Networks
set_option autoImplicit false

structure Network (w : ℕ) where
  address : BitVec w
  prefixLength : ℕ
  length_le : prefixLength ≤ w
  deriving DecidableEq, Repr

section Bounds

variable {w : ℕ} (net : Network w)

def Network.hostBits : ℕ := w - net.prefixLength

def Network.netmask : BitVec w := BitVec.allOnes w <<< net.hostBits

/-- The network address. -/
def Network.first : BitVec w := net.address &&& net.netmask

/-- The broadcast address of an IPv4 network. -/
def Network.last : BitVec w := net.first ||| ~~~net.netmask

def Network.Contains (a : BitVec w) : Prop := ∀ i < net.prefixLength, a.getMsbD i = net.address.getMsbD i

instance (a : BitVec w) : Decidable (net.Contains a) :=
  inferInstanceAs (Decidable (∀ i < net.prefixLength, a.getMsbD i = net.address.getMsbD i))

theorem getLsbD_netmask (i : ℕ) : net.netmask.getLsbD i = (decide (i < w) && decide (net.hostBits ≤ i)) := by
  unfold Network.netmask
  rw [BitVec.getLsbD_shiftLeft, BitVec.getLsbD_allOnes]
  by_cases hw : i < w
  · by_cases hi : i < net.hostBits
    · simp [hi]
    · have hsub : i - net.hostBits < w := Nat.lt_of_le_of_lt (Nat.sub_le i _) hw
      simp [hw, hi, hsub, Nat.not_lt.mp hi]
  · simp [hw]

theorem first_eq : net.first = (net.address >>> net.hostBits) <<< net.hostBits := by
  apply BitVec.eq_of_getLsbD_eq
  intro i hi
  unfold Network.first
  rw [BitVec.getLsbD_and, getLsbD_netmask, BitVec.getLsbD_shiftLeft, BitVec.getLsbD_ushiftRight]
  by_cases hhost : i < net.hostBits
  · simp [hhost]
  · have hsum : net.hostBits + (i - net.hostBits) = i := Nat.add_sub_cancel' (Nat.not_lt.mp hhost)
    simp [hi, hhost, hsum, Nat.not_lt.mp hhost]

theorem not_netmask_eq : ~~~net.netmask = BitVec.allOnes w >>> net.prefixLength := by
  have hle := net.length_le
  apply BitVec.eq_of_getLsbD_eq
  intro i hi
  rw [BitVec.getLsbD_not, getLsbD_netmask, BitVec.getLsbD_ushiftRight, BitVec.getLsbD_allOnes]
  unfold Network.hostBits
  by_cases hhost : i < w - net.prefixLength
  · have hlt : net.prefixLength + i < w := by omega
    simp [hi, hlt]
    omega
  · have hge : ¬net.prefixLength + i < w := by omega
    simp [hi, hge]
    omega

theorem toNat_first : net.first.toNat = net.address.toNat / 2 ^ net.hostBits * 2 ^ net.hostBits := by
  have hle := Nat.div_mul_le_self net.address.toNat (2 ^ net.hostBits)
  rw [first_eq, BitVec.toNat_shiftLeft, BitVec.toNat_ushiftRight, Nat.shiftLeft_eq, Nat.shiftRight_eq_div_pow,
    Nat.mod_eq_of_lt (Nat.lt_of_le_of_lt hle net.address.isLt)]

theorem toNat_not_netmask : (~~~net.netmask).toNat = 2 ^ net.hostBits - 1 := by
  have hpow : 2 ^ w = 2 ^ net.prefixLength * 2 ^ net.hostBits := by
    rw [← Nat.pow_add, Network.hostBits, Nat.add_sub_cancel' net.length_le]
  rw [not_netmask_eq, BitVec.toNat_ushiftRight, BitVec.toNat_allOnes, Nat.shiftRight_eq_div_pow, hpow]
  have hpos : 0 < 2 ^ net.prefixLength := Nat.two_pow_pos _
  have hhost : 0 < 2 ^ net.hostBits := Nat.two_pow_pos _
  generalize 2 ^ net.hostBits = hosts at hhost ⊢
  generalize 2 ^ net.prefixLength = nets at hpos ⊢
  obtain ⟨hosts, rfl⟩ := Nat.exists_eq_succ_of_ne_zero (Nat.ne_of_gt hhost)
  have hsplit : nets * (hosts + 1) - 1 = (nets - 1) + hosts * nets := by
    rw [Nat.mul_succ, Nat.mul_comm]
    omega
  rw [Nat.succ_eq_add_one, hsplit, Nat.add_mul_div_right _ _ hpos, Nat.div_eq_of_lt (by omega)]
  omega

theorem toNat_last : net.last.toNat = net.first.toNat + (2 ^ net.hostBits - 1) := by
  have hhost : 0 < 2 ^ net.hostBits := Nat.two_pow_pos _
  unfold Network.last
  rw [BitVec.toNat_or, toNat_not_netmask, toNat_first, Nat.mul_comm,
    ← Nat.two_pow_add_eq_or_of_lt (Nat.sub_lt hhost Nat.one_pos)]

/-- Agreement in the first bits is agreement of what the shift leaves. -/
theorem contains_iff_shift (a : BitVec w) :
    net.Contains a ↔ a >>> net.hostBits = net.address >>> net.hostBits := by
  have hle := net.length_le
  unfold Network.Contains
  constructor
  · intro h
    apply BitVec.eq_of_getLsbD_eq
    intro i hi
    rw [BitVec.getLsbD_ushiftRight, BitVec.getLsbD_ushiftRight]
    by_cases hw : net.hostBits + i < w
    · have hbit := h (w - 1 - (net.hostBits + i)) (by unfold Network.hostBits at hw ⊢; omega)
      have hpos : w - 1 - (net.hostBits + i) < w := by omega
      have hsub : w - 1 - (w - 1 - (net.hostBits + i)) = net.hostBits + i := by omega
      simp only [BitVec.getMsbD, hpos, decide_true, Bool.true_and, hsub] at hbit
      exact hbit
    · rw [BitVec.getLsbD_of_ge _ _ (Nat.not_lt.mp hw), BitVec.getLsbD_of_ge _ _ (Nat.not_lt.mp hw)]
  · intro h i hi
    have hbit := congrArg (fun x => x.getLsbD (w - 1 - i - net.hostBits)) h
    have hsum : net.hostBits + (w - 1 - i - net.hostBits) = w - 1 - i := by
      unfold Network.hostBits
      omega
    simp only [BitVec.getLsbD_ushiftRight, hsum] at hbit
    rw [BitVec.getMsbD, BitVec.getMsbD, hbit]

/-- The addresses of a network are those from its first to its last one. -/
theorem contains_iff (a : BitVec w) : net.Contains a ↔ net.first ≤ a ∧ a ≤ net.last := by
  have hhost : 0 < 2 ^ net.hostBits := Nat.two_pow_pos _
  rw [contains_iff_shift, ← BitVec.toNat_inj, BitVec.toNat_ushiftRight, BitVec.toNat_ushiftRight,
    Nat.shiftRight_eq_div_pow, Nat.shiftRight_eq_div_pow, BitVec.le_def, BitVec.le_def, toNat_last, toNat_first,
    Nat.div_eq_iff hhost]
  omega

end Bounds

end Sunshine.Networks
