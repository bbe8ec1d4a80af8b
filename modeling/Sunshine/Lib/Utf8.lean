import Mathlib.Data.List.Basic

/-! Well-formed UTF-8, one byte at a time.

Between two characters the state is `start`; the other states say which bytes may follow of a character that has begun.
A byte below `0x80` is a character of its own, and no part of another one. -/
namespace Sunshine.Utf8
set_option autoImplicit false

inductive State where
  | start
  | tail1
  | tail2
  | tail3
  | afterE0
  | afterED
  | afterF0
  | afterF4
  deriving DecidableEq

def within (low high : ℕ) (next : State) (b : UInt8) : Option State :=
  if low ≤ b.toNat ∧ b.toNat ≤ high then some next else none

/-- The first byte of a character. -/
def first (b : UInt8) : Option State :=
  if b.toNat ≤ 0x7F then some .start
  else if b.toNat < 0xC2 then none
  else if b.toNat ≤ 0xDF then some .tail1
  else if b.toNat = 0xE0 then some .afterE0
  else if b.toNat = 0xED then some .afterED
  else if b.toNat ≤ 0xEF then some .tail2
  else if b.toNat = 0xF0 then some .afterF0
  else if b.toNat ≤ 0xF3 then some .tail3
  else if b.toNat = 0xF4 then some .afterF4
  else none

def step : State → UInt8 → Option State
  | .start, b => first b
  | .tail1, b => within 0x80 0xBF .start b
  | .tail2, b => within 0x80 0xBF .tail1 b
  | .tail3, b => within 0x80 0xBF .tail2 b
  | .afterE0, b => within 0xA0 0xBF .tail1 b
  | .afterED, b => within 0x80 0x9F .tail1 b
  | .afterF0, b => within 0x90 0xBF .tail2 b
  | .afterF4, b => within 0x80 0x8F .tail2 b

def run (q : State) (text : List UInt8) : Option State := text.foldlM step q

/-- The bytes of a code point. -/
def encode (code : ℕ) : List UInt8 :=
  if code < 0x80 then [UInt8.ofNat code]
  else if code < 0x800 then [UInt8.ofNat (0xC0 + code / 64), UInt8.ofNat (0x80 + code % 64)]
  else if code < 0x10000 then
    [UInt8.ofNat (0xE0 + code / 4096), UInt8.ofNat (0x80 + code / 64 % 64), UInt8.ofNat (0x80 + code % 64)]
  else
    [UInt8.ofNat (0xF0 + code / 262144), UInt8.ofNat (0x80 + code / 4096 % 64), UInt8.ofNat (0x80 + code / 64 % 64),
      UInt8.ofNat (0x80 + code % 64)]

def Valid (text : List UInt8) : Prop := run .start text = some .start

instance (text : List UInt8) : Decidable (Valid text) := inferInstanceAs (Decidable (_ = _))

variable {q : State} {b : UInt8}

theorem step_ascii (hb : b.toNat < 0x80) : step .start b = some .start := if_pos (by omega)

/-- A byte below `0x80` is no part of a character that has begun. -/
theorem step_inside (hq : q ≠ .start) (hb : b.toNat < 0x80) : step q b = none := by
  cases q with
  | start => exact absurd rfl hq
  | tail1 => exact if_neg (by omega)
  | tail2 => exact if_neg (by omega)
  | tail3 => exact if_neg (by omega)
  | afterE0 => exact if_neg (by omega)
  | afterED => exact if_neg (by omega)
  | afterF0 => exact if_neg (by omega)
  | afterF4 => exact if_neg (by omega)

theorem run_ascii {text : List UInt8} (htext : ∀ b ∈ text, b.toNat < 0x80) : run .start text = some .start := by
  induction text with
  | nil => rfl
  | cons b text ih =>
    rw [run, List.foldlM_cons, step_ascii (htext b List.mem_cons_self)]
    exact ih fun other hother => htext other (List.mem_cons_of_mem _ hother)

end Sunshine.Utf8
