import Sunshine.Lib.Remainders
import Sunshine.Platform.RamCursor
import Mathlib.Algebra.Order.Field.Basic
import Mathlib.Algebra.Order.Ring.Rat
import Mathlib.Tactic.FieldSimp

/-! The two blend states for cursors (`make_blend` of `display_vram.cpp`) as exact formulas, and for which pixels of a shape
they leave the colours that the drawing in memory leaves, up to one level. -/
namespace Sunshine.BlendStates
open CursorPixels RamCursor Residues
set_option autoImplicit false

/-- `D3D11_BLEND`. -/
inductive Factor where
  | srcAlpha
  | invSrcAlpha
  | invDestColor
  | invSrcColor

def Factor.value (src alpha dest : ℚ) : Factor → ℚ
  | .srcAlpha => alpha
  | .invSrcAlpha => 1 - alpha
  | .invDestColor => 1 - dest
  | .invSrcColor => 1 - src

/-- What is set of a `D3D11_BLEND_DESC` for the colours; the operation is an addition. -/
structure BlendDesc where
  srcBlend : Factor
  destBlend : Factor

/-- `make_blend`, enabled. -/
def makeBlend (invert : Bool) : BlendDesc :=
  if invert then { srcBlend := .invDestColor, destBlend := .invSrcColor }
  else { srcBlend := .srcAlpha, destBlend := .invSrcAlpha }

/-- Colours lie between zero and one. -/
def BlendDesc.apply (desc : BlendDesc) (src alpha dest : ℚ) : ℚ :=
  src * desc.srcBlend.value src alpha dest + dest * desc.destBlend.value src alpha dest

def level (v : UInt8) : ℚ := v.toNat / 255

/-- A colour of a pixel that is drawn over one of the image. -/
def paint (invert : Bool) (texel : Pixel) (k : Fin 3) (dest : ℚ) : ℚ :=
  (makeBlend invert).apply (level (texel.colour k)) (level texel.alpha) dest

/-- The same up to one of 255 levels. -/
def Near (v : UInt8) (shade : ℚ) : Prop := |(v.toNat : ℚ) - 255 * shade| ≤ 1

theorem paint_alpha (texel : Pixel) (k : Fin 3) (dest : ℚ) :
    paint false texel k dest = level (texel.colour k) * level texel.alpha + dest * (1 - level texel.alpha) := rfl

theorem paint_invert (texel : Pixel) (k : Fin 3) (dest : ℚ) :
    paint true texel k dest = level (texel.colour k) * (1 - dest) + dest * (1 - level (texel.colour k)) := rfl

/-- In whole numbers. -/
theorem near_iff {v : UInt8} {shade : ℚ} {scale : ℕ} {n : ℤ} (hscale : 0 < scale) (hshade : 255 * shade * scale = n) :
    Near v shade ↔ |(scale * v.toNat : ℤ) - n| ≤ scale := by
  have hpositive : (0 : ℚ) < scale := Nat.cast_pos.mpr hscale
  have hscaled : |(v.toNat : ℚ) - 255 * shade| * scale = |((scale * v.toNat - n : ℤ) : ℚ)| := by
    have hproduct : (v.toNat - 255 * shade) * scale = ((scale * v.toNat - n : ℤ) : ℚ) := by
      rw [sub_mul, hshade, mul_comm]
      push_cast
      rfl
    rw [← hproduct, abs_mul, abs_of_pos hpositive]
  rw [Near, ← mul_le_mul_iff_left₀ hpositive, hscaled, one_mul, ← Int.cast_abs]
  exact_mod_cast Iff.rfl

theorem near_level (v : UInt8) : Near v (level v) := by
  unfold Near level
  rw [mul_div_cancel₀ _ (by norm_num), sub_self, abs_zero]
  exact zero_le_one

/-! ## Whole pixels -/

section Differences
variable {c a d : ℕ}

theorem cast_product (ha : a ≤ 255) (n : ℕ) : ((n * (255 - a) : ℕ) : ℤ) = n * (255 - a) := by
  rw [Nat.cast_mul, Nat.cast_sub ha]
  rfl

/-- How far the rounded sum and the two parts are apart, in units of 1/255. -/
theorem sum_difference (ha : a ≤ 255) :
    |(255 * (c + (d * (255 - a) + 255 / 2) / 255 : ℕ) : ℤ) - (c * a + d * (255 - a))| ≤ 255 ↔
      c * (255 - a) + 127 ≤ 255 + (d * (255 - a) + 127) % 255 := by
  have hgap : (c * a : ℤ) = 255 * c - ((c * (255 - a) : ℕ) : ℤ) := by
    rw [cast_product ha]
    ring
  rw [hgap, ← cast_product ha d, abs_le]
  generalize d * (255 - a) = product
  generalize c * (255 - a) = gap
  push_cast
  omega

/-- Over white a colour that is more than its alpha wraps. -/
theorem wrapped_difference (ha : a ≤ 255) (hmore : a < c) (hgap : c * (255 - a) ≤ 255) :
    ¬|(255 * ((c + (255 * (255 - a) + 255 / 2) / 255) % 256 : ℕ) : ℤ) - (c * a + 255 * (255 - a))| ≤ 255 := by
  have hproduct : (c * a : ℤ) = 255 * c - ((c * (255 - a) : ℕ) : ℤ) := by
    rw [cast_product ha]
    ring
  rw [hproduct, abs_le]
  generalize c * (255 - a) = gap at *
  push_cast
  omega

end Differences

section Colors
variable (texel : Pixel) (k : Fin 3)

theorem alpha_shade (before : UInt8) : 255 * paint false texel k (level before) * (255 : ℕ) =
    (((texel.colour k).toNat * texel.alpha.toNat + before.toNat * (255 - texel.alpha.toNat) : ℤ) : ℚ) := by
  rw [paint_alpha]
  unfold level
  push_cast
  ring

/-- The colour is premultiplied, and weakening it by its alpha once more makes less than a level's difference. -/
def Straight : Prop :=
  texel.colour k ≤ texel.alpha ∧ (texel.colour k).toNat * (255 - texel.alpha.toNat) +
    (127 - 127 % Nat.gcd (255 - texel.alpha.toNat) 255) ≤ 255

/-- The image is left as it is. -/
def Faint : Prop := texel.alpha.toNat * max (texel.colour k).toNat (255 - (texel.colour k).toNat) ≤ 255

variable {texel k}

theorem blend_solid (h : texel.alpha = 255) (before : Pixel) :
    Near ((blend texel before).colour k) (paint false texel k (level (before.colour k))) := by
  have hfull : level texel.alpha = 1 := by
    rw [h]
    exact div_self (by decide)
  rw [paint_alpha, hfull, sub_self, mul_zero, mul_one, add_zero, blend, if_pos h]
  exact near_level _

theorem straight_solid (h : texel.alpha = 255) : Straight texel k := by
  unfold Straight
  rw [h]
  refine ⟨UInt8.le_iff_toNat_le.mpr (Nat.le_of_lt_succ (texel.colour k).toNat_lt), ?_⟩
  rw [show (255 : UInt8).toNat = 255 from rfl, Nat.sub_self, Nat.mul_zero]
  decide

theorem near_blend_iff (h : texel.alpha ≠ 255) (hcolor : texel.colour k ≤ texel.alpha) (before : Pixel) :
    Near ((blend texel before).colour k) (paint false texel k (level (before.colour k))) ↔
      (texel.colour k).toNat * (255 - texel.alpha.toNat) + 127 ≤
        255 + ((before.colour k).toNat * (255 - texel.alpha.toNat) + 127) % 255 := by
  have halpha := Nat.le_of_lt_succ texel.alpha.toNat_lt
  rw [near_iff (by decide) (alpha_shade texel k (before.colour k)), blend, if_neg h, mix_toNat hcolor]
  exact sum_difference halpha

/-- The colour that is drawn, before it is known to fit. -/
theorem blend_toNat (h : texel.alpha ≠ 255) (before : Pixel) : ((blend texel before).colour k).toNat =
    ((texel.colour k).toNat + ((before.colour k).toNat * (255 - texel.alpha.toNat) + 255 / 2) / 255) % 256 := by
  rw [blend, if_neg h]
  exact UInt8.toNat_ofNat'

theorem premultiplied_of_near (h : texel.alpha ≠ 255) (hnear : ∀ before : Pixel,
    Near ((blend texel before).colour k) (paint false texel k (level (before.colour k)))) :
    texel.colour k ≤ texel.alpha := by
  have halpha := Nat.le_of_lt_succ texel.alpha.toNat_lt
  have hcolor := Nat.le_of_lt_succ (texel.colour k).toNat_lt
  by_contra hmore
  have hless : texel.alpha.toNat < (texel.colour k).toNat := not_le.mp fun hle => hmore (UInt8.le_iff_toNat_le.mpr hle)
  have hblack := (near_iff (by decide) (alpha_shade texel k 0)).mp (hnear { colour := fun _ => 0, alpha := 0 })
  have hwhite := (near_iff (by decide) (alpha_shade texel k 255)).mp (hnear { colour := fun _ => 255, alpha := 0 })
  rw [blend_toNat h] at hblack hwhite
  refine wrapped_difference halpha hless ?_ hwhite
  -- over black nothing is added to the colour
  have hgap := cast_product halpha (texel.colour k).toNat
  have hzero : (texel.colour k).toNat + ((0 : UInt8).toNat * (255 - texel.alpha.toNat) + 255 / 2) / 255 =
      (texel.colour k).toNat := by
    rw [show (0 : UInt8).toNat = 0 from rfl, Nat.zero_mul]
    rfl
  rw [hzero, Nat.mod_eq_of_lt (Nat.lt_succ_of_le hcolor), show (0 : UInt8).toNat = 0 from rfl, Nat.cast_zero, zero_mul,
    add_zero, abs_le] at hblack
  have hdifference := hblack.2
  zify [halpha]
  push_cast at hdifference
  linarith only [hdifference]

theorem color_texel_iff : (∀ before : Pixel,
    Near ((blend texel before).colour k) (paint false texel k (level (before.colour k)))) ↔ Straight texel k := by
  by_cases hsolid : texel.alpha = 255
  · exact ⟨fun _ => straight_solid hsolid, fun _ => blend_solid hsolid⟩
  constructor
  · intro hnear
    have hcolor := premultiplied_of_near hsolid hnear
    refine ⟨hcolor, ?_⟩
    obtain ⟨d, hd, hremainder⟩ := exists_remainder 255 (255 - texel.alpha.toNat) 127 (by decide)
    have hworst := (near_blend_iff hsolid hcolor _).mp (hnear { colour := fun _ => UInt8.ofNat d, alpha := 0 })
    rw [UInt8.toNat_ofNat', Nat.mod_eq_of_lt (show d < 2 ^ 8 by omega), hremainder] at hworst
    have hle : 127 % Nat.gcd (255 - texel.alpha.toNat) 255 ≤ 127 := Nat.mod_le _ _
    omega
  · rintro ⟨hcolor, hgap⟩ before
    rw [near_blend_iff hsolid hcolor]
    have hremainder := remainder_ge 255 (255 - texel.alpha.toNat) 127 (before.colour k).toNat
    have hle : 127 % Nat.gcd (255 - texel.alpha.toNat) 255 ≤ 127 := Nat.mod_le _ _
    omega


theorem color_faint_iff : (∀ before : UInt8, Near before (paint false texel k (level before))) ↔ Faint texel k := by
  have halpha := Nat.le_of_lt_succ texel.alpha.toNat_lt
  have hcolor := Nat.le_of_lt_succ (texel.colour k).toNat_lt
  have hproduct : ∀ before : UInt8, Near before (paint false texel k (level before)) ↔
      |(texel.alpha.toNat * ((before.toNat : ℤ) - (texel.colour k).toNat) : ℤ)| ≤ 255 := by
    intro before
    rw [near_iff (by decide) (alpha_shade texel k before)]
    have hsame : ((255 : ℕ) * before.toNat : ℤ) - ((texel.colour k).toNat * texel.alpha.toNat +
        before.toNat * (255 - texel.alpha.toNat)) = texel.alpha.toNat * (before.toNat - (texel.colour k).toNat) := by
      push_cast
      ring
    rw [hsame]
    rfl
  unfold Faint
  constructor
  · intro hnear
    have hblack := (hproduct 0).mp (hnear 0)
    have hwhite := (hproduct 255).mp (hnear 255)
    rw [abs_mul, Nat.abs_cast] at hblack hwhite
    rcases Nat.le_total (texel.colour k).toNat (255 - (texel.colour k).toNat) with hle | hle
    · rw [Nat.max_eq_right hle]
      have habs : |(((255 : UInt8).toNat : ℤ) - (texel.colour k).toNat)| = (255 - (texel.colour k).toNat : ℕ) := by
        rw [show (255 : UInt8).toNat = 255 from rfl, Nat.cast_sub hcolor, abs_of_nonneg (by omega)]
      rw [habs] at hwhite
      exact_mod_cast hwhite
    · rw [Nat.max_eq_left hle]
      have habs : |(((0 : UInt8).toNat : ℤ) - (texel.colour k).toNat)| = (texel.colour k).toNat := by
        rw [show (0 : UInt8).toNat = 0 from rfl, Nat.cast_zero, zero_sub, abs_neg, Nat.abs_cast]
      rw [habs] at hblack
      exact_mod_cast hblack
  · intro hfaint before
    have hbefore := Nat.le_of_lt_succ before.toNat_lt
    rw [hproduct, abs_mul, Nat.abs_cast]
    have habs : |((before.toNat : ℤ) - (texel.colour k).toNat)| ≤
        (max (texel.colour k).toNat (255 - (texel.colour k).toNat) : ℕ) := by
      rw [abs_le]
      omega
    refine (mul_le_mul_of_nonneg_left habs (Int.natCast_nonneg _)).trans ?_
    exact_mod_cast hfaint

end Colors

end Sunshine.BlendStates
