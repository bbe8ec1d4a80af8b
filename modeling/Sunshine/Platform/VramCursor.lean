import Sunshine.Platform.BlendStates

/-! The cursor that the capture into textures draws on Windows (`make_cursor_alpha_image`, `make_cursor_xor_image` and
`blend_cursor` of `display_vram.cpp`) beside the one of the capture into memory. -/
namespace Sunshine.VramCursor
open Overlaps CursorPixels RamCursor BlendStates
set_option autoImplicit false

def transparent : Pixel := { colour := fun _ => 0, alpha := 0 }
def black : Pixel := { colour := fun _ => 0, alpha := 0xFF }
def white : Pixel := { colour := fun _ => 0xFF, alpha := 0xFF }
def inverted : Pixel := { colour := fun _ => 0xFF, alpha := 0xFF }

/-- A buffer of `size` bytes, pixel by pixel. -/
structure CursorImg where
  size : ℕ
  pixels : List Pixel

def wholePixels (imgData : ℕ → UInt8) (size : ℕ) : List Pixel :=
  (List.range (size / 4)).map fun n => pixelAt imgData (4 * n)

/-- A copy of the buffer whose pixels are changed one by one. -/
def changedImg (c : Cursor) (imgData : ℕ → UInt8) (change : Pixel → Pixel) : CursorImg where
  size := c.pitch * c.height
  pixels := (wholePixels imgData (c.pitch * c.height)).map change

/-- The loop over the pixels of the copy does not end if there is a rest. -/
def forEachPixel (c : Cursor) (imgData : ℕ → UInt8) (change : Pixel → Pixel) : Option CursorImg :=
  if 4 ∣ c.pitch * c.height then some (changedImg c imgData change) else none

/-- The loop over the bytes of both planes, which writes until the buffer is full; numbers are unsigned. -/
def monochromeImg (c : Cursor) (imgData : ℕ → UInt8) (color : Bool → Bool → Pixel) : CursorImg :=
  let height := c.height / 2
  let bytes := c.pitch * height
  let size := c.width * height * 4 % 2 ^ 32
  { size := size
    pixels := ((lineBits bytes).take (size / 4)).map fun place =>
      color (bitAt imgData place.1 place.2) (bitAt imgData (bytes + place.1) place.2) }

def alphaTexel (pixel : Pixel) : Pixel :=
  if pixel.alpha = 0xFF then transparent else if pixel.alpha = 0 then { pixel with alpha := 0xFF } else pixel

def xorTexel (pixel : Pixel) : Pixel :=
  if pixel.alpha = 0xFF then pixel else if pixel.alpha = 0 then transparent else pixel

def alphaColor : Bool → Bool → Pixel
  | false, false => black
  | false, true => white
  | true, _ => transparent

def xorColor : Bool → Bool → Pixel
  | true, true => inverted
  | _, _ => transparent

def makeCursorAlphaImage (c : Cursor) (imgData : ℕ → UInt8) : Option CursorImg :=
  match c.type with
  | .maskedColor => forEachPixel c imgData alphaTexel
  | .color => some (changedImg c imgData id)
  | .monochrome => some (monochromeImg c imgData alphaColor)

def makeCursorXorImage (c : Cursor) (imgData : ℕ → UInt8) : Option CursorImg :=
  match c.type with
  | .color => some { size := 0, pixels := [] }
  | .maskedColor => forEachPixel c imgData xorTexel
  | .monochrome => some (monochromeImg c imgData xorColor)

structure Texture where
  width : ℕ
  height : ℕ
  texel : ℕ → ℕ → Pixel

/-- `set_cursor_texture`: no texture for an empty image, and nothing if `SysMemPitch` is zero. -/
def setCursorTexture (cursorImg : CursorImg) (width : ℕ) : Option Texture :=
  let sysMemPitch := 4 * width % 2 ^ 32
  if cursorImg.size = 0 then some { width := 0, height := 0, texel := fun _ _ => transparent }
  else if sysMemPitch = 0 then none
  else
    some
      { width := width
        height := cursorImg.size / sysMemPitch
        texel := fun row col => cursorImg.pixels.getD (row * (sysMemPitch / 4) + col) transparent }

/-- A colour of the image behind a `Draw` with the texture over it. -/
def Texture.draw (t : Texture) (invert : Bool) (x y : ℤ) (j i : ℕ) (k : Fin 3) (dest : ℚ) : ℚ :=
  if (y ≤ j ∧ (j : ℤ) < y + t.height) ∧ x ≤ i ∧ (i : ℤ) < x + t.width then
    paint invert (t.texel ((j : ℤ) - y).toNat ((i : ℤ) - x).toNat) k dest
  else dest

/-- What becomes of a colour of the image: first the alpha blending, then the inversion. -/
def blendCursor (c : Cursor) (imgData : ℕ → UInt8) : Option (ℕ → ℕ → Fin 3 → ℚ → ℚ) := do
  let alphaImg ← makeCursorAlphaImage c imgData
  let xorImg ← makeCursorXorImage c imgData
  let cursorAlpha ← setCursorTexture alphaImg c.width
  let cursorXor ← setCursorTexture xorImg c.width
  some fun j i k dest => cursorXor.draw true c.x c.y j i k (cursorAlpha.draw false c.x c.y j i k dest)


/-! ## Masked colours -/

section Masked
variable {pixel : Pixel} {k : Fin 3}

/-- A colour of the image behind both passes. -/
def maskedShade (pixel : Pixel) (k : Fin 3) (dest : ℚ) : ℚ :=
  paint true (xorTexel pixel) k (paint false (alphaTexel pixel) k dest)

theorem level_zero : level 0 = 0 := zero_div _

theorem level_full : level 0xFF = 1 := div_self (by decide)

theorem paint_transparent (invert : Bool) (k : Fin 3) (dest : ℚ) : paint invert transparent k dest = dest := by
  cases invert with
  | false =>
    rw [paint_alpha]
    show level 0 * level 0 + dest * (1 - level 0) = dest
    rw [level_zero]
    ring
  | true =>
    rw [paint_invert]
    show level 0 * (1 - dest) + dest * (1 - level 0) = dest
    rw [level_zero]
    ring

theorem maskedShade_replace (h : pixel.alpha = 0) (dest : ℚ) : maskedShade pixel k dest = level (pixel.colour k) := by
  have hne : ¬pixel.alpha = 0xFF := by
    rw [h]
    decide
  rw [maskedShade, xorTexel, alphaTexel, if_neg hne, if_pos h, if_neg hne, if_pos h, paint_transparent, paint_alpha]
  show level (pixel.colour k) * level 0xFF + dest * (1 - level 0xFF) = level (pixel.colour k)
  rw [level_full]
  ring

theorem maskedShade_invert (h : pixel.alpha = 0xFF) (dest : ℚ) :
    maskedShade pixel k dest = paint true pixel k dest := by
  rw [maskedShade, xorTexel, alphaTexel, if_pos h, if_pos h, paint_transparent]

/-- In units of 1/255 of a level. -/
theorem invert_shade (pixel : Pixel) (k : Fin 3) (before : UInt8) : 255 * paint true pixel k (level before) * (255 : ℕ) =
    (((pixel.colour k).toNat * (255 - before.toNat) + before.toNat * (255 - (pixel.colour k).toNat) : ℤ) : ℚ) := by
  rw [paint_invert]
  unfold level
  push_cast
  ring

/-- An alpha between the two that are meant is blended and inverted, in units of 1/65025 of a level. -/
theorem illegal_shade (h : pixel.alpha ≠ 0) (h' : pixel.alpha ≠ 0xFF) (k : Fin 3) (before : UInt8) :
    255 * maskedShade pixel k (level before) * (65025 : ℕ) =
      ((65025 * (pixel.colour k).toNat + (255 - 2 * (pixel.colour k).toNat) *
        ((pixel.colour k).toNat * pixel.alpha.toNat + before.toNat * (255 - pixel.alpha.toNat)) : ℤ) : ℚ) := by
  rw [maskedShade, xorTexel, alphaTexel, if_neg h', if_neg h, if_neg h', if_neg h, paint_invert, paint_alpha]
  unfold level
  push_cast
  ring

theorem toNat_pos_of_ne {v : UInt8} (h : v ≠ 0) : 0 < v.toNat :=
  Nat.pos_of_ne_zero fun hzero => h (UInt8.toNat_inj.mp hzero)

theorem toNat_lt_of_ne {v : UInt8} (h : v ≠ 0xFF) : v.toNat < 255 :=
  lt_of_le_of_ne (Nat.le_of_lt_succ v.toNat_lt) fun hfull => h (UInt8.toNat_inj.mp hfull)

/-- A pixel replaces the image's, or inverts it where its colours are all or nothing. -/
def MaskedAgrees (pixel : Pixel) (k : Fin 3) : Prop :=
  if pixel.alpha = 0 then True
  else if pixel.alpha = 0xFF then pixel.colour k = 0 ∨ pixel.colour k = 0xFF
  else
    ((pixel.colour k).toNat * pixel.alpha.toNat + 255 * (255 - pixel.alpha.toNat) : ℤ) *
      |255 - 2 * ((pixel.colour k).toNat : ℤ)| ≤ 65025

theorem toNat_xor_full (v : UInt8) : (v ^^^ 0xFF).toNat = 255 - v.toNat := by
  have hnot : v ^^^ 0xFF = ~~~v := UInt8.xor_neg_one
  rw [hnot, UInt8.toNat_not]
  rfl

theorem masked_texel_iff : (∀ before : Pixel, Near ((applyColorMasked before pixel).colour k)
    (maskedShade pixel k (level (before.colour k)))) ↔ MaskedAgrees pixel k := by
  have hcolor := Nat.le_of_lt_succ (pixel.colour k).toNat_lt
  have halpha := Nat.le_of_lt_succ pixel.alpha.toNat_lt
  unfold MaskedAgrees applyColorMasked
  split_ifs with hfull hzero hzero
  · rw [hfull] at hzero
    cases hzero
  · have hiff : ∀ before : Pixel, Near ((xorPixel before pixel).colour k) (maskedShade pixel k (level (before.colour k))) ↔
        |(255 * (before.colour k ^^^ pixel.colour k).toNat - ((pixel.colour k).toNat * (255 - (before.colour k).toNat) +
          (before.colour k).toNat * (255 - (pixel.colour k).toNat)) : ℤ)| ≤ 255 := by
      intro before
      rw [maskedShade_invert hfull]
      exact near_iff (by decide) (invert_shade pixel k (before.colour k))
    simp only [hiff]
    constructor
    · intro hnear
      by_contra hneither
      rw [not_or] at hneither
      have hpositive := toNat_pos_of_ne hneither.1
      have hless := toNat_lt_of_ne hneither.2
      -- over its own colour the pixel should give black
      have hsame := hnear pixel
      rw [UInt8.xor_self, show (0 : UInt8).toNat = 0 from rfl, abs_le] at hsame
      have hproduct : (254 : ℤ) ≤ (pixel.colour k).toNat * (255 - (pixel.colour k).toNat) := by
        nlinarith only [hpositive, hless]
      push_cast at hsame
      linarith only [hsame.1, hproduct]
    · intro hcolour before
      have hbefore := Nat.le_of_lt_succ (before.colour k).toNat_lt
      rcases hcolour with hnothing | hall
      · rw [hnothing, UInt8.xor_zero, show (0 : UInt8).toNat = 0 from rfl, abs_le]
        push_cast
        omega
      · rw [hall, toNat_xor_full, show (0xFF : UInt8).toNat = 255 from rfl, Nat.cast_sub hbefore, abs_le]
        push_cast
        omega
  · refine ⟨fun _ => trivial, fun _ before => ?_⟩
    rw [maskedShade_replace hzero]
    exact near_level _
  · have hiff : ∀ before : Pixel, Near (pixel.colour k) (maskedShade pixel k (level (before.colour k))) ↔
        ((pixel.colour k).toNat * pixel.alpha.toNat + (before.colour k).toNat * (255 - pixel.alpha.toNat) : ℤ) *
          |255 - 2 * ((pixel.colour k).toNat : ℤ)| ≤ 65025 := by
      intro before
      have hnonneg : (0 : ℤ) ≤ (pixel.colour k).toNat * pixel.alpha.toNat +
          (before.colour k).toNat * (255 - pixel.alpha.toNat) := by
        have hrest : (0 : ℤ) ≤ 255 - pixel.alpha.toNat := by omega
        positivity
      rw [near_iff (by decide) (illegal_shade hzero hfull k (before.colour k))]
      push_cast
      rw [sub_add_cancel_left, abs_neg, abs_mul, abs_of_nonneg hnonneg, mul_comm]
    simp only [hiff]
    constructor
    · exact fun hnear => hnear { colour := fun _ => 0xFF, alpha := 0 }
    · intro hall before
      have hbefore := Nat.le_of_lt_succ (before.colour k).toNat_lt
      refine le_trans (mul_le_mul_of_nonneg_right (add_le_add_right ?_ _) (abs_nonneg _)) hall
      exact mul_le_mul_of_nonneg_right (by exact_mod_cast hbefore) (by omega)


/-- The image is left as it is. -/
def MaskedFaint (pixel : Pixel) (k : Fin 3) : Prop :=
  (pixel.alpha = 0xFF ∧ (pixel.colour k).toNat ≤ 1) ∨ (pixel.alpha.toNat = 1 ∧ (pixel.colour k).toNat = 0)

/-- The two ends of the scale bound an alpha in between. -/
theorem faint_of_ends {c a : ℤ} (hc : 0 ≤ c ∧ c ≤ 255) (ha : 0 < a ∧ a < 255)
    (hwhite : 65025 * 255 - (65025 * c + (255 - 2 * c) * (c * a + 255 * (255 - a))) ≤ 65025)
    (hblack : 65025 * c + (255 - 2 * c) * (c * a) ≤ 65025) : a = 1 ∧ c = 0 := by
  have hsum : 64515 ≤ (255 - 2 * c) * (255 - a) := by linarith
  have hnone : c = 0 := by
    by_contra hne
    have hone : 1 ≤ c := by omega
    nlinarith
  subst hnone
  omega

theorem masked_faint_iff :
    (∀ before : UInt8, Near before (maskedShade pixel k (level before))) ↔ MaskedFaint pixel k := by
  have hcolor := Nat.le_of_lt_succ (pixel.colour k).toNat_lt
  have halpha := Nat.le_of_lt_succ pixel.alpha.toNat_lt
  unfold MaskedFaint
  by_cases hzero : pixel.alpha = 0
  · constructor
    · intro hnear
      -- one colour cannot be near to black and white
      have hshade : ∀ before : UInt8, 255 * maskedShade pixel k (level before) * (1 : ℕ) =
          (((pixel.colour k).toNat : ℤ) : ℚ) := by
        intro before
        rw [maskedShade_replace hzero, level, mul_div_cancel₀ _ (by decide), Nat.cast_one, mul_one]
        rfl
      have hblack := (near_iff (by decide) (hshade 0)).mp (hnear 0)
      have hwhite := (near_iff (by decide) (hshade 0xFF)).mp (hnear 0xFF)
      rw [show (0 : UInt8).toNat = 0 from rfl, abs_le] at hblack
      rw [show (0xFF : UInt8).toNat = 255 from rfl, abs_le] at hwhite
      push_cast at hblack hwhite
      omega
    · rintro (⟨hfull, -⟩ | ⟨hone, -⟩)
      · rw [hzero] at hfull
        cases hfull
      · rw [hzero] at hone
        cases hone
  by_cases hfull : pixel.alpha = 0xFF
  · have hiff : ∀ before : UInt8, Near before (maskedShade pixel k (level before)) ↔
        |((pixel.colour k).toNat * (2 * before.toNat - 255) : ℤ)| ≤ 255 := by
      intro before
      have hsame : ((255 : ℕ) * before.toNat - ((pixel.colour k).toNat * (255 - before.toNat) +
          before.toNat * (255 - (pixel.colour k).toNat)) : ℤ) = (pixel.colour k).toNat * (2 * before.toNat - 255) := by
        push_cast
        ring
      rw [maskedShade_invert hfull, near_iff (by decide) (invert_shade pixel k before), hsame]
      rfl
    simp only [hiff]
    constructor
    · intro hnear
      have hblack := hnear 0
      rw [show (0 : UInt8).toNat = 0 from rfl, abs_le] at hblack
      push_cast at hblack
      exact .inl ⟨hfull, by omega⟩
    · rintro (⟨-, hle⟩ | ⟨hone, -⟩) before
      · have hbefore := Nat.le_of_lt_succ before.toNat_lt
        rw [abs_mul, Nat.abs_cast]
        have hspan : |(2 * before.toNat - 255 : ℤ)| ≤ 255 := by
          rw [abs_le]
          omega
        have hcast : ((pixel.colour k).toNat : ℤ) ≤ 1 := by exact_mod_cast hle
        nlinarith only [hspan, hcast, abs_nonneg (2 * before.toNat - 255 : ℤ)]
      · rw [hfull] at hone
        cases hone
  · have hiff : ∀ before : UInt8, Near before (maskedShade pixel k (level before)) ↔
        |(65025 * before.toNat - (65025 * (pixel.colour k).toNat + (255 - 2 * (pixel.colour k).toNat) *
          ((pixel.colour k).toNat * pixel.alpha.toNat + before.toNat * (255 - pixel.alpha.toNat))) : ℤ)| ≤ 65025 :=
      fun before => near_iff (by decide) (illegal_shade hzero hfull k before)
    simp only [hiff]
    constructor
    · intro hnear
      have hblack := (abs_le.mp (hnear 0)).1
      have hwhite := (abs_le.mp (hnear 0xFF)).2
      rw [show (0 : UInt8).toNat = 0 from rfl, Nat.cast_zero, zero_mul, add_zero, mul_zero] at hblack
      have hpositive := toNat_pos_of_ne hzero
      have hless := toNat_lt_of_ne hfull
      obtain ⟨hone, hnone⟩ := faint_of_ends ⟨Int.natCast_nonneg _, by exact_mod_cast hcolor⟩
        ⟨by exact_mod_cast hpositive, by exact_mod_cast hless⟩ hwhite (by linarith only [hblack])
      exact .inr ⟨by exact_mod_cast hone, by exact_mod_cast hnone⟩
    · rintro (⟨hyes, -⟩ | ⟨hone, hnone⟩) before
      · exact absurd hyes hfull
      · have hbefore := Nat.le_of_lt_succ before.toNat_lt
        rw [hone, hnone, abs_le]
        push_cast
        omega

end Masked
/-- A cursor that lies inside the image. -/
structure InsideCursor (img : Img) extends Cursor where
  left : 0 ≤ x
  top : 0 ≤ y
  right : x + width ≤ img.width
  bottom : y + toCursor.lines ≤ img.height

/-- Both ways draw the same picture over any, up to one level of each colour. -/
def Agree (img : Img) (c : Cursor) (imgData : ℕ → UInt8) : Prop :=
  ∃ gpu, blendCursor c imgData = some gpu ∧ ∀ data, ∃ after, RamCursor.blendCursor img c imgData data = some after ∧
    ∀ j < img.height, ∀ i < img.width, ∀ k,
      Near ((after (j * img.plane.stride + i)).colour k)
        (gpu j i k (level ((data (j * img.plane.stride + i)).colour k)))

/-! ## Shapes of whole pixels -/

section Inside
variable {img : Img} (c : InsideCursor img)

theorem shown_columns : shown img.width c.x c.width = c.width := by
  have hleft := c.left
  have hright := c.right
  unfold shown
  omega

theorem shown_lines : shown img.height c.y c.lines = c.lines := by
  have htop := c.top
  have hbottom := c.bottom
  unfold shown
  omega

/-- The numbers of both axes; nothing is left out. -/
theorem inside_clip : ∃ columns lines, clip img.width c.width c.x = some columns ∧
    clip img.height c.lines c.y = some lines ∧ Clipped img.width c.width c.x columns ∧
      Clipped img.height c.lines c.y lines := by
  have hleft := c.left
  have hright := c.right
  have htop := c.top
  have hbottom := c.bottom
  have hwidth := img.width_lt
  have hheight := img.height_lt
  have hx : InRange img.width c.width c.x := by
    unfold InRange
    omega
  have hy : InRange img.height c.lines c.y := by
    unfold InRange
    omega
  obtain ⟨columns, hcolumns⟩ := exists_clip hx c.x_int img.width_lt c.width_lt
  obtain ⟨lines, hlines⟩ := exists_clip hy c.y_int img.height_lt c.toCursor.lines_lt
  exact ⟨columns, lines, hcolumns, hlines, clipped_of_clip hcolumns, clipped_of_clip hlines⟩

/-- A cursor with a line is no wider than a line of the image. -/
theorem width_small (hlines : 0 < c.lines) : c.width < 2 ^ 29 := by
  have hleft := c.left
  have hright := c.right
  have htop := c.top
  have hbottom := c.bottom
  have hroom := img.room
  have hinside : img.width ≤ img.plane.stride := img.plane.inside
  have hstride : img.plane.stride ≤ img.height * img.plane.stride := Nat.le_mul_of_pos_left _ (by omega)
  omega

end Inside

section Whole
variable {img : Img} {c : InsideCursor img}

/-- The pixels as both ways read them, as if there were no gaps between the lines. -/
def linear (width row col : ℕ) : Source := .pixel (4 * (row * width + col))

theorem linear_bytes (htype : c.type ≠ .monochrome) {row col : ℕ} (hrow : row < c.lines) (hcol : col < c.width) :
    4 * (row * c.width + col) + 4 ≤ c.pitch * c.height := by
  have hneeded := width_of_color htype
  rw [lines_of_color htype] at hrow
  calc 4 * (row * c.width + col) + 4 ≤ 4 * ((row + 1) * c.width) := by
        rw [Nat.succ_mul row]
        omega
    _ ≤ 4 * (c.height * c.width) := Nat.mul_le_mul_left _ (Nat.mul_le_mul_right _ hrow)
    _ = 4 * c.width * c.height := by rw [Nat.mul_comm c.height, Nat.mul_assoc]
    _ ≤ c.pitch * c.height := Nat.mul_le_mul_right _ hneeded

theorem whole_blended (htype : c.type ≠ .monochrome) : blended img c.toCursor =
    some (overlap (linear c.width) img.plane c.x c.y c.width c.lines) := by
  obtain ⟨columns, lines, hclip, hclip', hcolumns, hlines⟩ := inside_clip c
  have hleft := c.left
  have htop := c.top
  have hbytes := c.bytes
  have hcolor : blended img c.toCursor = blendedColor img c.toCursor := by
    unfold blended
    cases h : c.type with
    | monochrome => exact absurd h htype
    | color => rfl
    | maskedColor => rfl
  have hforward : ¬columns.delta < 0 := by
    refine not_lt.mpr (hcolumns.beside.mpr ?_)
    have hright := c.right
    unfold Beside
    omega
  rw [hcolor, blendedColor, ← lines_of_color htype, hclip, hclip', Option.bind_eq_bind, Option.bind_some, Option.bind_some,
    if_neg (by have := hlines.kept; have := hcolumns.kept; omega), hlines.cursorSkip,
    show (-c.y).toNat = 0 by omega, Nat.zero_mul, if_pos (by decide), hlines.delta, overlap_eq_block, block]
  refine collect_eq fun i hi => ?_
  have hi : i < c.lines := shown_lines c ▸ hi
  have hline : ∀ a < c.width, 4 * ((i * c.width + columns.cursorSkip) % 2 ^ 32) + 4 * a = 4 * (i * c.width + a) ∧
      (i + lines.imgSkip) * img.plane.stride + columns.imgSkip + a < img.height * img.plane.stride := by
    intro a ha
    have hright := c.right
    have hbottom := c.bottom
    have hinside : img.width ≤ img.plane.stride := img.plane.inside
    have hrow : (i + c.y.toNat + 1) * img.plane.stride ≤ img.height * img.plane.stride :=
      Nat.mul_le_mul_right _ (by omega)
    have hoffset := linear_bytes htype hi ha
    rw [Nat.succ_mul] at hrow
    rw [hcolumns.cursorSkip, hcolumns.imgSkip, hlines.imgSkip, show (-c.x).toNat = 0 by omega]
    generalize i * c.width = start at *
    generalize c.pitch * c.height = size at *
    omega
  unfold colorLine checked
  dsimp only
  rw [if_neg hforward, hcolumns.delta, hlines.cursorSkip, show (-c.y).toNat = 0 by omega, Nat.zero_mul, Nat.zero_add]
  have hplane : shown img.plane.width c.x c.width = c.width := shown_columns c
  rw [shown_columns c, if_pos]
  · unfold line
    rw [hplane]
    congr 1
    refine List.map_congr_left fun a ha => ?_
    have ha := List.mem_range.mp ha
    rw [(hline a ha).1, hcolumns.imgSkip, hlines.imgSkip, Nat.add_comm i, Nat.add_assoc, Nat.zero_add,
      show (-c.x).toNat + a = a by omega]
    rfl
  · intro access haccess
    obtain ⟨a, ha, rfl⟩ := List.mem_map.mp haccess
    have ha := List.mem_range.mp ha
    refine ⟨(hline a ha).2, ?_⟩
    show 4 * ((i * c.width + columns.cursorSkip) % 2 ^ 32) + 4 * a + 4 ≤ c.pitch * c.height
    rw [(hline a ha).1]
    exact linear_bytes htype hi ha

end Whole

section Whole
variable {img : Img} {c : InsideCursor img} {imgData : ℕ → UInt8}

/-- Under the rectangle of `w` times `h` at the cursor's corner. -/
abbrev Under (c : Cursor) (w h j i : ℕ) : Prop := (c.y ≤ j ∧ (j : ℤ) < c.y + h) ∧ c.x ≤ i ∧ (i : ℤ) < c.x + w

/-- What is left of a pixel of the image by the way into memory. -/
def painted (c : Cursor) (imgData : ℕ → UInt8) (j i : ℕ) (before : Pixel) : Pixel :=
  if Under c c.width c.lines j i then
    applied (c.type == .maskedColor) imgData (linear c.width ((j : ℤ) - c.y).toNat ((i : ℤ) - c.x).toNat) before
  else before

theorem whole_after (htype : c.type ≠ .monochrome) (data : ℕ → Pixel) :
    ∃ after, RamCursor.blendCursor img c.toCursor imgData data = some after ∧ ∀ j < img.height, ∀ i < img.width,
      after (j * img.plane.stride + i) = painted c.toCursor imgData j i (data (j * img.plane.stride + i)) := by
  have hlaid : Laid (fun row col before now =>
      now = applied (c.type == .maskedColor) imgData (linear c.width row col) before)
      img.plane c.x c.y c.width c.lines data
      (draw (fun apply pixel => apply pixel) (applied (c.type == .maskedColor) imgData)
        (overlap (linear c.width) img.plane c.x c.y c.width c.lines) data) :=
    laid_draw (List.Perm.refl _) fun _ _ _ => rfl
  refine ⟨_, by rw [RamCursor.blendCursor, whole_blended htype, Option.map_some], fun j hj i hi => ?_⟩
  have hpixel := hlaid.1 j hj i hi
  unfold painted Under
  by_cases hunder : (c.y ≤ j ∧ (j : ℤ) < c.y + c.lines) ∧ c.x ≤ i ∧ (i : ℤ) < c.x + c.width
  · rw [if_pos hunder] at hpixel ⊢
    exact hpixel
  · rw [if_neg hunder] at hpixel ⊢
    exact hpixel

/-- For all pictures is for each pixel of each. -/
theorem agree_iff_pixels (htype : c.type ≠ .monochrome) : Agree img c.toCursor imgData ↔
    ∃ gpu, blendCursor c.toCursor imgData = some gpu ∧ ∀ j < img.height, ∀ i < img.width, ∀ k, ∀ before : Pixel,
      Near ((painted c.toCursor imgData j i before).colour k) (gpu j i k (level (before.colour k))) := by
  constructor
  · rintro ⟨gpu, hgpu, hagree⟩
    refine ⟨gpu, hgpu, fun j hj i hi k before => ?_⟩
    obtain ⟨after, hafter, hnear⟩ := hagree fun _ => before
    obtain ⟨after', hafter', hpainted⟩ := @whole_after img c imgData htype fun _ => before
    obtain rfl := Option.some.inj (hafter.symm.trans hafter')
    rw [← hpainted j hj i hi]
    exact hnear j hj i hi k
  · rintro ⟨gpu, hgpu, hnear⟩
    refine ⟨gpu, hgpu, fun data => ?_⟩
    obtain ⟨after, hafter, hpainted⟩ := @whole_after img c imgData htype data
    refine ⟨after, hafter, fun j hj i hi k => ?_⟩
    rw [hpainted j hj i hi]
    exact hnear j hj i hi k _

/-- The lines of the texture; gaps between the lines of the shape make it higher. -/
def textureLines (c : Cursor) : ℕ := c.pitch * c.height / (4 * c.width)

/-- There is a pixel for each place of the texture, or no texture at all. -/
def Textured (c : Cursor) : Prop := c.pitch * c.height = 0 ∨ 0 < c.width

/-- The pixel that is drawn at a place of the texture. -/
abbrev texelAt (c : Cursor) (imgData : ℕ → UInt8) (row col : ℕ) : Pixel := pixelAt imgData (4 * (row * c.width + col))

theorem wholePixels_getD (change : Pixel → Pixel) {row col : ℕ} (hrow : row < textureLines c.toCursor)
    (hcol : col < c.width) :
    ((wholePixels imgData (c.pitch * c.height)).map change).getD (row * c.width + col) transparent =
      change (texelAt c.toCursor imgData row col) := by
  have hpixel : row * c.width + col < c.pitch * c.height / 4 := by
    have hlast : (row + 1) * (4 * c.width) ≤ c.pitch * c.height :=
      (Nat.mul_le_mul_right _ hrow).trans (Nat.div_mul_le_self _ _)
    rw [Nat.succ_mul row, Nat.mul_left_comm] at hlast
    omega
  unfold wholePixels
  rw [List.map_map, List.getD_eq_getElem?_getD, List.getElem?_map, List.getElem?_range hpixel]
  rfl

/-- Drawing with the texture of a buffer whose pixels have been changed one by one. -/
theorem whole_texture (htextured : Textured c.toCursor) (htype : c.type ≠ .monochrome) (change : Pixel → Pixel) :
    ∃ t, setCursorTexture (changedImg c.toCursor imgData change) c.width = some t ∧
      ∀ invert j i k dest, t.draw invert c.x c.y j i k dest =
        if Under c.toCursor c.width (textureLines c.toCursor) j i then
          paint invert (change (texelAt c.toCursor imgData ((j : ℤ) - c.y).toNat ((i : ℤ) - c.x).toNat)) k dest
        else dest := by
  unfold setCursorTexture changedImg
  dsimp only
  by_cases hsize : c.pitch * c.height = 0
  · rw [if_pos hsize]
    refine ⟨_, rfl, fun invert j i k dest => ?_⟩
    have hnone : textureLines c.toCursor = 0 := by rw [textureLines, hsize, Nat.zero_div]
    unfold Texture.draw
    rw [if_neg (fun h => by have := h.1; dsimp only at this; omega), if_neg]
    intro hunder
    have hlines := hunder.1
    omega
  · have hlines : 0 < c.lines := by
      rw [lines_of_color htype]
      exact Nat.pos_of_ne_zero fun h => hsize (by rw [h, Nat.mul_zero])
    have hsmall := width_small c hlines
    have hwidth : 0 < c.width := htextured.resolve_left hsize
    rw [if_neg hsize, Nat.mod_eq_of_lt (by omega), if_neg (by omega), Nat.mul_div_cancel_left _ (by decide)]
    refine ⟨_, rfl, fun invert j i k dest => ?_⟩
    unfold Texture.draw Under
    dsimp only
    have hheight : c.pitch * c.height / (4 * c.width) = textureLines c.toCursor := rfl
    rw [hheight]
    by_cases hunder : (c.y ≤ j ∧ (j : ℤ) < c.y + textureLines c.toCursor) ∧ c.x ≤ i ∧ (i : ℤ) < c.x + c.width
    · rw [if_pos hunder, if_pos hunder, wholePixels_getD change (by omega) (by omega)]
    · rw [if_neg hunder, if_neg hunder]

theorem no_texture (htextured : ¬Textured c.toCursor) (change : Pixel → Pixel) :
    setCursorTexture (changedImg c.toCursor imgData change) c.width = none := by
  unfold Textured at htextured
  rw [not_or] at htextured
  have hwidth : c.width = 0 := by omega
  unfold setCursorTexture changedImg
  dsimp only
  rw [if_neg htextured.1, hwidth]
  rfl

end Whole

section Agreement
variable {img : Img} {c : InsideCursor img} {imgData : ℕ → UInt8}

theorem lines_le_textureLines (htype : c.type ≠ .monochrome) (hwidth : 0 < c.width) :
    c.lines ≤ textureLines c.toCursor := by
  rw [textureLines, Nat.le_div_iff_mul_le (by omega), lines_of_color htype, Nat.mul_comm]
  exact Nat.mul_le_mul_right _ (width_of_color htype)

/-- What is drawn in memory over a pixel. -/
def drawnOver (c : Cursor) (texel before : Pixel) : Pixel :=
  if c.type == .maskedColor then applyColorMasked before texel else blend texel before

/-- For shapes of whole pixels both ways agree if they do for each pixel of the texture that is on the image: on the
shape's lines both draw, below these only one does. -/
theorem whole_agree_iff {defined : Prop} (htype : c.type ≠ .monochrome) (shade : Pixel → Fin 3 → ℚ → ℚ)
    (hsome : defined → Textured c.toCursor ∧ ∃ gpu, blendCursor c.toCursor imgData = some gpu ∧
      ∀ j i k dest, gpu j i k dest =
        if Under c.toCursor c.width (textureLines c.toCursor) j i then
          shade (texelAt c.toCursor imgData ((j : ℤ) - c.y).toNat ((i : ℤ) - c.x).toNat) k dest
        else dest)
    (hnone : ¬defined → blendCursor c.toCursor imgData = none) :
    Agree img c.toCursor imgData ↔ defined ∧ ∀ row < textureLines c.toCursor, c.y + row < img.height →
      ∀ col < c.width, ∀ k,
        if row < c.lines then
          ∀ before : Pixel, Near ((drawnOver c.toCursor (texelAt c.toCursor imgData row col) before).colour k)
            (shade (texelAt c.toCursor imgData row col) k (level (before.colour k)))
        else ∀ before : UInt8, Near before (shade (texelAt c.toCursor imgData row col) k (level before)) := by
  rw [agree_iff_pixels htype]
  have hleft := c.left
  have htop := c.top
  have hright := c.right
  constructor
  · rintro ⟨gpu, hgpu, hnear⟩
    have hdefined : defined := by
      by_contra hnot
      rw [hnone hnot] at hgpu
      cases hgpu
    obtain ⟨-, gpu', hgpu', hshade⟩ := hsome hdefined
    obtain rfl := Option.some.inj (hgpu.symm.trans hgpu')
    refine ⟨hdefined, fun row hrow hheight col hcol k => ?_⟩
    have hpixel := hnear (c.y.toNat + row) (by omega) (c.x.toNat + col) (by omega) k
    have hplace : (((c.y.toNat + row : ℕ) : ℤ) - c.y).toNat = row ∧ (((c.x.toNat + col : ℕ) : ℤ) - c.x).toNat = col := by
      omega
    have hunder : Under c.toCursor c.width (textureLines c.toCursor) (c.y.toNat + row) (c.x.toNat + col) := by
      unfold Under
      omega
    simp only [hshade, painted, if_pos hunder, hplace.1, hplace.2] at hpixel
    split_ifs with hlines
    · have hdrawn : Under c.toCursor c.width c.lines (c.y.toNat + row) (c.x.toNat + col) := by
        unfold Under
        omega
      simp only [if_pos hdrawn] at hpixel
      exact hpixel
    · have hbelow : ¬Under c.toCursor c.width c.lines (c.y.toNat + row) (c.x.toNat + col) := by
        unfold Under
        omega
      simp only [if_neg hbelow] at hpixel
      exact fun before => hpixel { colour := fun _ => before, alpha := 0 }
  · rintro ⟨hdefined, hnear⟩
    obtain ⟨-, gpu, hgpu, hshade⟩ := hsome hdefined
    refine ⟨gpu, hgpu, fun j hj i hi k before => ?_⟩
    rw [hshade]
    by_cases hunder : Under c.toCursor c.width (textureLines c.toCursor) j i
    · have hpixel := hnear ((j : ℤ) - c.y).toNat (by omega) (by omega) ((i : ℤ) - c.x).toNat (by omega) k
      rw [if_pos hunder]
      unfold painted
      by_cases hlines : ((j : ℤ) - c.y).toNat < c.lines
      · rw [if_pos hlines] at hpixel
        have hdrawn : Under c.toCursor c.width c.lines j i := by
          unfold Under at hunder ⊢
          omega
        rw [if_pos hdrawn]
        exact hpixel before
      · rw [if_neg hlines] at hpixel
        have hbelow : ¬Under c.toCursor c.width c.lines j i := by
          unfold Under
          omega
        rw [if_neg hbelow]
        exact hpixel (before.colour k)
    · have hnothing : ¬Under c.toCursor c.width c.lines j i := by
        intro hdrawn
        have hmore := lines_le_textureLines htype (show 0 < c.width by omega)
        exact hunder ⟨⟨hdrawn.1.1, by have := hdrawn.1.2; omega⟩, hdrawn.2⟩
      unfold painted
      rw [if_neg hunder, if_neg hnothing]
      exact near_level _

section Passes
variable {cursor : Cursor} {alphaImg xorImg : CursorImg}

theorem blendCursor_some {alpha xor : Texture} (halphaImg : makeCursorAlphaImage cursor imgData = some alphaImg)
    (hxorImg : makeCursorXorImage cursor imgData = some xorImg)
    (halpha : setCursorTexture alphaImg cursor.width = some alpha)
    (hxor : setCursorTexture xorImg cursor.width = some xor) :
    blendCursor cursor imgData = some fun j i k dest =>
      xor.draw true cursor.x cursor.y j i k (alpha.draw false cursor.x cursor.y j i k dest) := by
  unfold blendCursor
  simp only [halphaImg, hxorImg, halpha, hxor, Option.bind_eq_bind, Option.bind_some]

theorem blendCursor_none (halphaImg : makeCursorAlphaImage cursor imgData = some alphaImg)
    (hxorImg : makeCursorXorImage cursor imgData = some xorImg)
    (halpha : setCursorTexture alphaImg cursor.width = none) : blendCursor cursor imgData = none := by
  unfold blendCursor
  simp only [halphaImg, hxorImg, halpha, Option.bind_eq_bind, Option.bind_some, Option.bind_none]

end Passes

/-- A buffer of straight colours on the lines of the shape, and of faint ones where the texture is higher. -/
def ColorAgrees (img : Img) (c : Cursor) (imgData : ℕ → UInt8) : Prop :=
  Textured c ∧ ∀ row < textureLines c, c.y + row < img.height → ∀ col < c.width, ∀ k,
    if row < c.height then Straight (texelAt c imgData row col) k else Faint (texelAt c imgData row col) k

theorem color_agree_iff (htype : c.type = .color) :
    Agree img c.toCursor imgData ↔ ColorAgrees img c.toCursor imgData := by
  have hcolor : c.type ≠ .monochrome := by
    rw [htype]
    exact fun h => (by cases h)
  have halphaImg : makeCursorAlphaImage c.toCursor imgData = some (changedImg c.toCursor imgData id) := by
    rw [makeCursorAlphaImage, htype]
  have hxorImg : makeCursorXorImage c.toCursor imgData = some { size := 0, pixels := [] } := by
    rw [makeCursorXorImage, htype]
  have hsome : Textured c.toCursor → Textured c.toCursor ∧ ∃ gpu, blendCursor c.toCursor imgData = some gpu ∧
      ∀ j i k dest, gpu j i k dest = if Under c.toCursor c.width (textureLines c.toCursor) j i then
        paint false (texelAt c.toCursor imgData ((j : ℤ) - c.y).toNat ((i : ℤ) - c.x).toNat) k dest else dest := by
    intro htextured
    obtain ⟨t, ht, hdraw⟩ := @whole_texture img c imgData htextured hcolor id
    refine ⟨htextured, _, blendCursor_some halphaImg hxorImg ht rfl, fun j i k dest => ?_⟩
    have hempty : ∀ dest, Texture.draw { width := 0, height := 0, texel := fun _ _ => transparent } true c.x c.y j i k
        dest = dest := fun dest => if_neg fun h => by have := h.1; dsimp only at this; omega
    rw [hempty, hdraw]
    rfl
  have hnone : ¬Textured c.toCursor → blendCursor c.toCursor imgData = none := by
    intro htextured
    exact blendCursor_none halphaImg hxorImg (no_texture htextured id)
  have hover : ∀ texel before, drawnOver c.toCursor texel before = blend texel before := by
    intro texel before
    unfold drawnOver
    rw [htype]
    rfl
  rw [whole_agree_iff hcolor (paint false) hsome hnone, ColorAgrees, lines_of_color hcolor]
  simp only [hover, color_texel_iff, color_faint_iff]

/-- A buffer of whole pixels that replace or invert on the lines of the shape, and do next to nothing below. -/
def MaskedColorAgrees (img : Img) (c : Cursor) (imgData : ℕ → UInt8) : Prop :=
  (4 ∣ c.pitch * c.height ∧ Textured c) ∧ ∀ row < textureLines c, c.y + row < img.height → ∀ col < c.width, ∀ k,
    if row < c.height then MaskedAgrees (texelAt c imgData row col) k else MaskedFaint (texelAt c imgData row col) k

theorem masked_agree_iff (htype : c.type = .maskedColor) :
    Agree img c.toCursor imgData ↔ MaskedColorAgrees img c.toCursor imgData := by
  have hcolor : c.type ≠ .monochrome := by
    rw [htype]
    exact fun h => (by cases h)
  have halphaImg : 4 ∣ c.pitch * c.height →
      makeCursorAlphaImage c.toCursor imgData = some (changedImg c.toCursor imgData alphaTexel) := by
    intro hwhole
    rw [makeCursorAlphaImage, htype]
    exact if_pos hwhole
  have hxorImg : 4 ∣ c.pitch * c.height →
      makeCursorXorImage c.toCursor imgData = some (changedImg c.toCursor imgData xorTexel) := by
    intro hwhole
    rw [makeCursorXorImage, htype]
    exact if_pos hwhole
  have hsome : 4 ∣ c.pitch * c.height ∧ Textured c.toCursor → Textured c.toCursor ∧
      ∃ gpu, blendCursor c.toCursor imgData = some gpu ∧
        ∀ j i k dest, gpu j i k dest = if Under c.toCursor c.width (textureLines c.toCursor) j i then
          maskedShade (texelAt c.toCursor imgData ((j : ℤ) - c.y).toNat ((i : ℤ) - c.x).toNat) k dest else dest := by
    rintro ⟨hwhole, htextured⟩
    obtain ⟨alpha, halpha, hdrawAlpha⟩ := @whole_texture img c imgData htextured hcolor alphaTexel
    obtain ⟨xor, hxor, hdrawXor⟩ := @whole_texture img c imgData htextured hcolor xorTexel
    refine ⟨htextured, _, blendCursor_some (halphaImg hwhole) (hxorImg hwhole) halpha hxor, fun j i k dest => ?_⟩
    rw [hdrawXor, hdrawAlpha]
    split_ifs
    · rfl
    · rfl
  have hnone : ¬(4 ∣ c.pitch * c.height ∧ Textured c.toCursor) → blendCursor c.toCursor imgData = none := by
    intro hnot
    by_cases hwhole : 4 ∣ c.pitch * c.height
    · exact blendCursor_none (halphaImg hwhole) (hxorImg hwhole) (no_texture (fun h => hnot ⟨hwhole, h⟩) alphaTexel)
    · unfold blendCursor makeCursorAlphaImage forEachPixel
      rw [htype]
      dsimp only
      rw [if_neg hwhole]
      rfl
  have hover : ∀ texel before, drawnOver c.toCursor texel before = applyColorMasked before texel := by
    intro texel before
    unfold drawnOver
    rw [htype]
    rfl
  rw [whole_agree_iff hcolor maskedShade hsome hnone, MaskedColorAgrees, lines_of_color hcolor]
  simp only [hover, masked_texel_iff, masked_faint_iff]

end Agreement

end Sunshine.VramCursor
