import Mathlib.Data.List.Basic
import Mathlib.Tactic.Ring

/-! Little-endian bytes of a number, and bit fields packed into one word. -/
namespace Sunshine.Bytes
set_option autoImplicit false

/-! ## Little-endian bytes -/

def leBytes : ℕ → ℕ → List UInt8
  | 0, _ => []
  | n + 1, v => UInt8.ofNat v :: leBytes n (v / 256)

def leValue : List UInt8 → ℕ
  | [] => 0
  | b :: bs => b.toNat + 256 * leValue bs

@[simp] theorem leBytes_length (n v : ℕ) : (leBytes n v).length = n := by
  induction n generalizing v with
  | zero => rfl
  | succ n ih => rw [leBytes, List.length_cons, ih]

theorem leValue_leBytes (n v : ℕ) (hv : v < 256 ^ n) : leValue (leBytes n v) = v := by
  induction n generalizing v with
  | zero =>
    have h0 : v = 0 := by simpa using hv
    rw [h0]
    rfl
  | succ n ih =>
    have hdiv : v / 256 < 256 ^ n := by
      apply Nat.div_lt_of_lt_mul
      rwa [← Nat.pow_succ']
    have hlow : (UInt8.ofNat v).toNat = v % 256 := by simp
    rw [leBytes, leValue, ih _ hdiv, hlow]
    exact Nat.mod_add_div v 256

theorem leBytes_leValue (bytes : List UInt8) : leBytes bytes.length (leValue bytes) = bytes := by
  induction bytes with
  | nil => rfl
  | cons b bytes ih =>
    have hb := b.toNat_lt
    have hdiv : (b.toNat + 256 * leValue bytes) / 256 = leValue bytes := by omega
    rw [leValue, List.length_cons, leBytes, hdiv, ih]
    congr 1
    apply UInt8.toNat_inj.mp
    rw [UInt8.toNat_ofNat']
    omega

theorem leValue_lt (bytes : List UInt8) : leValue bytes < 256 ^ bytes.length := by
  induction bytes with
  | nil => exact Nat.one_pos
  | cons b bytes ih =>
    have hb := b.toNat_lt
    rw [leValue, List.length_cons, Nat.pow_succ']
    omega

theorem leBytes_inj (n v u : ℕ) (hv : v < 256 ^ n) (hu : u < 256 ^ n)
    (h : leBytes n v = leBytes n u) : v = u := by
  rw [← leValue_leBytes n v hv, h, leValue_leBytes n u hu]

/-! ## Bit fields -/

theorem field_or (hi lo k : ℕ) (hlo : lo < 2 ^ k) : hi <<< k ||| lo = hi * 2 ^ k + lo := by
  rw [← Nat.shiftLeft_add_eq_or_of_lt hlo, Nat.shiftLeft_eq]

end Sunshine.Bytes

/-! Reads through pointers and views of a buffer, with the ways they go wrong: bytes outside the
buffer, an unsigned difference below zero, and a `substr` past the end of its view. -/
namespace Sunshine.Views
open Bytes
set_option autoImplicit false

inductive Fault where
  | outside
  | underflow
  | outOfRange
  deriving DecidableEq, Repr

def readAt (data : List UInt8) (off n : ℕ) : Except Fault (List UInt8) :=
  if off + n ≤ data.length then .ok ((data.drop off).take n) else .error .outside

def subSize (a b : ℕ) : Except Fault ℕ := if b ≤ a then .ok (a - b) else .error .underflow

def readLe (data : List UInt8) (off n : ℕ) : Except Fault ℕ := do
  return leValue (← readAt data off n)

/-- A pointer into a buffer and a length, which need not fit. -/
structure View where
  data : List UInt8
  off : ℕ
  len : ℕ
  deriving DecidableEq, Repr

def View.read (v : View) : Except Fault (List UInt8) := readAt v.data v.off v.len

def View.substr (v : View) (pos : ℕ) : Except Fault View :=
  if pos ≤ v.len then .ok { v with off := v.off + pos, len := v.len - pos } else .error .outOfRange

def View.first (v : View) (n : ℕ) : View := { v with len := min n v.len }

/-- The view lies in its buffer. -/
def View.Valid (v : View) : Prop := v.off + v.len ≤ v.data.length

instance : DecidablePred View.Valid := fun v =>
  inferInstanceAs (Decidable (v.off + v.len ≤ v.data.length))

def View.bytes (v : View) : List UInt8 := (v.data.drop v.off).take v.len

theorem readAt_ok {data : List UInt8} {off n : ℕ} (h : off + n ≤ data.length) :
    readAt data off n = .ok ((data.drop off).take n) := if_pos h

theorem readAt_outside {data : List UInt8} {off n : ℕ} (h : data.length < off + n) :
    readAt data off n = .error .outside := if_neg (by omega)

theorem readLe_ok {data : List UInt8} {off n : ℕ} (h : off + n ≤ data.length) :
    readLe data off n = .ok (leValue ((data.drop off).take n)) := by
  unfold readLe
  rw [readAt_ok h]
  rfl

theorem readLe_outside {data : List UInt8} {off n : ℕ} (h : data.length < off + n) :
    readLe data off n = .error .outside := by
  unfold readLe
  rw [readAt_outside h]
  rfl

theorem subSize_ok {a b : ℕ} (h : b ≤ a) : subSize a b = .ok (a - b) := if_pos h

@[simp] theorem View.bytes_length (v : View) (h : v.Valid) : v.bytes.length = v.len := by
  unfold View.Valid at h
  unfold View.bytes
  rw [List.length_take, List.length_drop]
  omega

theorem View.read_ok (v : View) (h : v.Valid) : v.read = .ok v.bytes := readAt_ok h

theorem View.read_outside (v : View) (h : ¬ v.Valid) : v.read = .error .outside :=
  readAt_outside (by unfold View.Valid at h; omega)

theorem View.substr_ok {v : View} {pos : ℕ} (h : pos ≤ v.len) :
    v.substr pos = .ok { v with off := v.off + pos, len := v.len - pos } := if_pos h

theorem View.substr_outOfRange {v : View} {pos : ℕ} (h : v.len < pos) :
    v.substr pos = .error .outOfRange := if_neg (by omega)

/-- Bytes of a valid view can be read through the pointer. -/
theorem View.readAt_ok {v : View} (h : v.Valid) {pos n : ℕ} (hn : pos + n ≤ v.len) :
    readAt v.data (v.off + pos) n = .ok ((v.bytes.drop pos).take n) := by
  unfold View.Valid at h
  rw [Views.readAt_ok (by omega)]
  unfold View.bytes
  rw [List.drop_take, List.drop_drop, List.take_take, Nat.min_eq_left (by omega)]

theorem View.readLe_ok {v : View} (h : v.Valid) {pos n : ℕ} (hn : pos + n ≤ v.len) :
    readLe v.data (v.off + pos) n = .ok (leValue ((v.bytes.drop pos).take n)) := by
  unfold readLe
  rw [View.readAt_ok h hn]
  rfl

end Sunshine.Views
