import Sunshine.Lib.Overlaps
import Mathlib.Tactic.Linarith
import Mathlib.Tactic.NormNum

/-! A cursor's pixel over a pixel of the image (the blend in the two `blend_cursor` for Linux), and what a cursor at a place
of the image is to leave in it. -/
namespace Sunshine.CursorPixels
open Overlaps
set_option autoImplicit false

/-- Four bytes: three colours and the alpha. -/
structure Pixel where
  colour : Fin 3 → UInt8
  alpha : UInt8

/-- `colors_out + (colors_in * (255 - alpha) + 255 / 2) / 255`, in eight bits. -/
def mix (colorsOut colorsIn alpha : UInt8) : UInt8 :=
  UInt8.ofNat (colorsOut.toNat + (colorsIn.toNat * (255 - alpha.toNat) + 255 / 2) / 255)

/-- An opaque pixel is copied; the alpha of the image stays otherwise. -/
def blend (cursor pixel : Pixel) : Pixel :=
  if cursor.alpha = 255 then cursor
  else { pixel with colour := fun k => mix (cursor.colour k) (pixel.colour k) cursor.alpha }

/-- Premultiplied colours are laid over the image's: the sum in units of 1/255, to the nearest integer of eight bits. -/
def Over (cursor pixel after : Pixel) : Prop :=
  ∀ k, cursor.colour k ≤ cursor.alpha →
    |(255 * (after.colour k).toNat : ℤ) -
      (255 * (cursor.colour k).toNat + (pixel.colour k).toNat * (255 - cursor.alpha.toNat))| ≤ 127

theorem mix_toNat {colorsOut colorsIn alpha : UInt8} (h : colorsOut ≤ alpha) :
    (mix colorsOut colorsIn alpha).toNat =
      colorsOut.toNat + (colorsIn.toNat * (255 - alpha.toNat) + 255 / 2) / 255 := by
  have hout : colorsOut.toNat ≤ alpha.toNat := UInt8.le_iff_toNat_le.mp h
  have halpha := alpha.toNat_lt
  have hin : colorsIn.toNat * (255 - alpha.toNat) ≤ 255 * (255 - alpha.toNat) :=
    Nat.mul_le_mul_right _ (Nat.le_of_lt_succ colorsIn.toNat_lt)
  have hquotient : (colorsIn.toNat * (255 - alpha.toNat) + 255 / 2) / 255 ≤ 255 - alpha.toNat := by omega
  rw [mix, UInt8.toNat_ofNat']
  omega

theorem over_blend (cursor pixel : Pixel) : Over cursor pixel (blend cursor pixel) := by
  intro k hk
  have halpha := cursor.alpha.toNat_lt
  unfold blend
  split_ifs with hsolid
  · rw [hsolid]
    simp
  · simp only [mix_toNat hk]
    have hdivision := Nat.div_add_mod ((pixel.colour k).toNat * (255 - cursor.alpha.toNat) + 255 / 2) 255
    have hremainder := Nat.mod_lt ((pixel.colour k).toNat * (255 - cursor.alpha.toNat) + 255 / 2) (show 0 < 255 by decide)
    have hcast : ((pixel.colour k).toNat * (255 - cursor.alpha.toNat) : ℤ) =
        ((pixel.colour k).toNat * (255 - cursor.alpha.toNat) : ℕ) := by
      rw [Nat.cast_mul, Nat.cast_sub (by omega)]
      rfl
    rw [hcast, abs_le]
    generalize (pixel.colour k).toNat * (255 - cursor.alpha.toNat) = product at *
    omega

/-! ## What is to be in the image -/

/-- A cursor of `w` times `h` pixels at `left` and `top`: each pixel of the image under it is the blend with the cursor's
pixel over it, and nothing else changes. -/
def Shows (p : Plane) (left top : ℤ) (w h : ℕ) (cursor data after : ℕ → Pixel) : Prop :=
  Laid (fun row col before now =>
    now = blend (cursor (rowMajor w row col)) before ∧ Over (cursor (rowMajor w row col)) before now)
    p left top w h data after

/-- Where the cursor's pixel over a pixel of the image is kept, line by line. -/
abbrev Pair := ℕ × ℕ

/-- Drawing each pixel of the overlap once shows the cursor. -/
theorem shows_draw {p : Plane} {left top : ℤ} {w h : ℕ} {pairs : List Pair}
    (hpairs : pairs.Perm (overlap (rowMajor w) p left top w h)) (cursor data : ℕ → Pixel) :
    Shows p left top w h cursor data (draw blend cursor pairs data) :=
  laid_draw hpairs fun _ _ _ => ⟨rfl, over_blend _ _⟩

/-! ## Frames -/

/-- A frame as `alloc_img` makes it: 32-bit pixels, whole pixels in a line, and a size in bytes that is an `int`. -/
structure Img where
  width : ℕ
  height : ℕ
  rowPitch : ℕ
  pixelPitch : ℕ
  pixel : pixelPitch = 4
  whole : pixelPitch ∣ rowPitch
  lines : pixelPitch * width ≤ rowPitch
  bytes : height * rowPitch < 2 ^ 31
  width_lt : width < 2 ^ 31
  height_lt : height < 2 ^ 31

def Img.plane (img : Img) : Plane where
  width := img.width
  height := img.height
  stride := img.rowPitch / img.pixelPitch
  inside := by
    have hlines := img.lines
    rw [img.pixel] at hlines ⊢
    omega

/-- An image of two by one pixels. -/
def twoPixels : Img where
  width := 2
  height := 1
  rowPitch := 8
  pixelPitch := 4
  pixel := rfl
  whole := by decide
  lines := by decide
  bytes := by decide
  width_lt := by decide
  height_lt := by decide

theorem Img.room (img : Img) : img.height * img.plane.stride < 2 ^ 29 := by
  have hbytes := img.bytes
  obtain ⟨stride, hstride⟩ := img.whole
  have hplane : img.plane.stride = stride := by
    show img.rowPitch / img.pixelPitch = stride
    rw [hstride, Nat.mul_div_cancel_left _ (by rw [img.pixel]; decide)]
  rw [hstride, img.pixel] at hbytes
  rw [hplane]
  nlinarith

theorem one_lt_short : 1 < 2 ^ 16 := by decide

/-- An `int32_t`. -/
def IsInt32 (v : ℤ) : Prop := -2 ^ 31 ≤ v ∧ v < 2 ^ 31

instance (v : ℤ) : Decidable (IsInt32 v) := inferInstanceAs (Decidable (_ ∧ _))

end Sunshine.CursorPixels
