import Sunshine.Platform.VramCursor

/-! Monochrome cursors on both ways of the Windows capture, and for which cursors the two agree (`gpu_agrees_iff`). -/
namespace Sunshine.VramMasks
open Overlaps CursorPixels RamCursor BlendStates VramCursor
set_option autoImplicit false

/-! ## The way into memory -/

section Memory
variable {img : Img} {c : InsideCursor img}

/-- The cursor has no more pixels than the image. -/
theorem inside_pixels (c : InsideCursor img) : c.lines * c.width < 2 ^ 29 := by
  have hleft := c.left
  have hright := c.right
  have htop := c.top
  have hbottom := c.bottom
  have hinside : img.width ≤ img.plane.stride := img.plane.inside
  have hle : c.lines * c.width ≤ img.height * img.plane.stride := Nat.mul_le_mul (by omega) (by omega)
  exact lt_of_le_of_lt hle img.room

/-- The pixels of the whole bytes that are drawn of a line. -/
def drawnColumns (c : Cursor) : ℕ := 8 * (c.width / (c.width / c.pitch))

/-- All that is drawn, as lines of that width. -/
abbrev drawnBlock (img : Img) (c : Cursor) : List Access :=
  block c.source img.plane.stride c.x.toNat c.y.toNat 0 0 (drawnColumns c) c.lines

theorem monochrome_blended (htype : c.type = .monochrome) : blended img c.toCursor =
    if 0 < c.pitch ∧ c.pitch ≤ c.width then
      collect (fun i => checked img c.toCursor (line c.source img.plane.stride c.x.toNat c.y.toNat 0 0
        (drawnColumns c.toCursor) i)) c.lines
    else none := by
  obtain ⟨columns, lines, hclip, hclip', hcolumns, hlines⟩ := inside_clip c
  have hleft := c.left
  have htop := c.top
  have hheight := lines_of_monochrome htype
  have hshown := shown_lines c
  have hcol := shown_columns c
  have hmono : blended img c.toCursor = blendedMonochrome img c.toCursor := by
    unfold blended
    rw [htype]
  rw [hmono, blendedMonochrome]
  dsimp only
  rw [← hheight, hclip, hclip', Option.bind_eq_bind, Option.bind_some, Option.bind_some,
    if_neg (by have := hlines.kept; have := hcolumns.kept; omega), hlines.cursorSkip, show (-c.y).toNat = 0 by omega,
    Nat.zero_mul, if_pos (by decide), toNat_tdiv, hcolumns.delta, hlines.delta, hshown, hcol]
  by_cases hpitch : 0 < c.pitch ∧ c.pitch ≤ c.width
  · have hquotient := Nat.div_pos hpitch.2 hpitch.1
    rw [if_pos hpitch, if_neg (by omega)]
    refine collect_congr fun i hi => ?_
    have hint : (i + c.lines) * c.pitch < 2 ^ 31 := by
      calc (i + c.lines) * c.pitch ≤ (2 * c.lines) * c.width := Nat.mul_le_mul (by omega) hpitch.2
        _ = 2 * (c.lines * c.width) := Nat.mul_assoc _ _ _
        _ < 2 ^ 31 := by
          have hpixels := inside_pixels c
          omega
    rw [monochromeLine_eq htype hcolumns hlines, show (-c.x).toNat = 0 by omega, show (-c.y).toNat = 0 by omega,
      Nat.sub_zero, if_pos hint]
    rfl
  · have hzero : c.pitch = 0 ∨ c.width / c.pitch = 0 := by
      by_cases hpos : c.pitch = 0
      · exact .inl hpos
      · exact .inr (Nat.div_eq_of_lt (by omega))
    rw [if_neg hpitch, if_pos hzero]

end Memory

section Memory
variable {img : Img} {c : InsideCursor img}

theorem block_of_blended (htype : c.type = .monochrome) {accesses : List Access}
    (haccesses : blended img c.toCursor = some accesses) :
    (0 < c.pitch ∧ c.pitch ≤ c.width) ∧ accesses = drawnBlock img c.toCursor ∧
      ∀ access ∈ accesses, access.1 < img.height * img.plane.stride ∧ c.Holds access.2 := by
  rw [monochrome_blended htype] at haccesses
  split_ifs at haccesses with hpitch
  have hinside : ∀ i < c.lines, ∀ access ∈ line c.source img.plane.stride c.x.toNat c.y.toNat 0 0
      (drawnColumns c.toCursor) i, access.1 < img.height * img.plane.stride ∧ c.Holds access.2 := by
    intro i hi
    obtain ⟨part, hpart, -⟩ := row_of_collect haccesses hi
    unfold checked at hpart
    split_ifs at hpart with hbounds
    exact hbounds
  have hblock := collect_eq fun i hi => (show checked img c.toCursor _ = some _ from if_pos (hinside i hi))
  obtain rfl := Option.some.inj (haccesses.symm.trans hblock)
  refine ⟨hpitch, rfl, fun access haccess => ?_⟩
  obtain ⟨i, hi, hmem⟩ := List.mem_flatMap.mp haccess
  exact hinside i (List.mem_range.mp hi) access hmem

theorem blended_of_block (htype : c.type = .monochrome) (hpitch : 0 < c.pitch ∧ c.pitch ≤ c.width)
    (hinside : ∀ access ∈ drawnBlock img c.toCursor, access.1 < img.height * img.plane.stride ∧ c.Holds access.2) :
    blended img c.toCursor = some (drawnBlock img c.toCursor) := by
  rw [monochrome_blended htype, if_pos hpitch]
  refine collect_eq fun i hi => if_pos fun access haccess => hinside access ?_
  exact List.mem_flatMap.mpr ⟨i, List.mem_range.mpr hi, haccess⟩

end Memory

/-! ## The way into textures -/

section Texture
variable {img : Img} {c : InsideCursor img} {imgData : ℕ → UInt8}

/-- A colour of the image behind both passes over a pixel with the two bits. -/
def maskShade (and xor : Bool) (k : Fin 3) (dest : ℚ) : ℚ :=
  paint true (xorColor and xor) k (paint false (alphaColor and xor) k dest)

/-- The bits of the planes are numbered through. -/
def planeBit (c : Cursor) (imgData : ℕ → UInt8) (plane row col : ℕ) : Bool :=
  bitAt imgData (plane * c.pitch * (c.height / 2) + (row * c.width + col) / 8) ((row * c.width + col) % 8)

theorem monochrome_pixels (htype : c.type = .monochrome) (color : Bool → Bool → Pixel) {row col : ℕ}
    (hrow : row < c.lines) (hcol : col < c.width) :
    (monochromeImg c.toCursor imgData color).pixels.getD (row * c.width + col) transparent =
      color (planeBit c.toCursor imgData 0 row col) (planeBit c.toCursor imgData 1 row col) := by
  have hneeded : (c.width + 7) / 8 ≤ c.pitch := by
    have hline := c.line
    rwa [htype] at hline
  have hpixels := inside_pixels c
  rw [lines_of_monochrome htype] at hrow hpixels
  have hlast : (row + 1) * c.width ≤ c.height / 2 * c.width := Nat.mul_le_mul_right _ hrow
  have hsize : c.width * (c.height / 2) * 4 % 2 ^ 32 / 4 = c.height / 2 * c.width := by
    rw [Nat.mul_comm c.width]
    omega
  have hbits : c.height / 2 * c.width ≤ 8 * (c.pitch * (c.height / 2)) := by
    calc c.height / 2 * c.width ≤ c.height / 2 * (8 * c.pitch) := Nat.mul_le_mul_left _ (by omega)
      _ = 8 * (c.pitch * (c.height / 2)) := by rw [Nat.mul_left_comm, Nat.mul_comm c.pitch]
  rw [Nat.succ_mul row] at hlast
  unfold monochromeImg planeBit
  dsimp only
  rw [hsize, lineBits_eq, ← List.map_take, List.take_range, Nat.min_eq_left hbits, List.map_map,
    List.getD_eq_getElem?_getD, List.getElem?_map, List.getElem?_range (by omega), Nat.zero_mul, Nat.zero_mul, Nat.zero_add,
    Nat.one_mul]
  rfl

theorem monochrome_texture (htype : c.type = .monochrome) (color : Bool → Bool → Pixel) :
    ∃ t, setCursorTexture (monochromeImg c.toCursor imgData color) c.width = some t ∧
      ∀ invert j i k dest, t.draw invert c.x c.y j i k dest =
        if Under c.toCursor c.width c.lines j i then
          paint invert (color (planeBit c.toCursor imgData 0 ((j : ℤ) - c.y).toNat ((i : ℤ) - c.x).toNat)
            (planeBit c.toCursor imgData 1 ((j : ℤ) - c.y).toNat ((i : ℤ) - c.x).toNat)) k dest
        else dest := by
  have hpixels := inside_pixels c
  have hlines := lines_of_monochrome htype
  have hsize : (monochromeImg c.toCursor imgData color).size = 4 * (c.lines * c.width) := by
    rw [monochromeImg]
    dsimp only
    rw [← hlines, Nat.mul_comm c.width, Nat.mod_eq_of_lt (by omega), Nat.mul_comm]
  unfold setCursorTexture
  dsimp only
  rw [hsize]
  by_cases hnothing : 4 * (c.lines * c.width) = 0
  · rw [if_pos hnothing]
    refine ⟨_, rfl, fun invert j i k dest => ?_⟩
    have hempty : c.lines = 0 ∨ c.width = 0 := Nat.mul_eq_zero.mp (by omega)
    have hnone : ¬Under c.toCursor c.width c.lines j i := by
      unfold Under
      omega
    unfold Texture.draw
    rw [if_neg hnone, if_neg]
    intro hunder
    have hheight := hunder.1
    dsimp only at hheight
    omega
  · have hpositive := Nat.pos_of_ne_zero fun h => hnothing (congrArg (4 * ·) h)
    have hwidth := Nat.pos_of_mul_pos_left hpositive
    have hsmall := width_small c (Nat.pos_of_mul_pos_right hpositive)
    rw [if_neg hnothing, Nat.mod_eq_of_lt (by omega), if_neg (by omega), Nat.mul_div_cancel_left _ (by decide),
      Nat.mul_div_mul_left _ _ (by decide), Nat.mul_div_cancel _ hwidth]
    refine ⟨_, rfl, fun invert j i k dest => ?_⟩
    unfold Texture.draw Under
    dsimp only
    by_cases hunder : (c.y ≤ j ∧ (j : ℤ) < c.y + c.lines) ∧ c.x ≤ i ∧ (i : ℤ) < c.x + c.width
    · rw [if_pos hunder, if_pos hunder, monochrome_pixels htype color (by omega) (by omega)]
    · rw [if_neg hunder, if_neg hunder]

theorem monochrome_gpu (htype : c.type = .monochrome) : ∃ gpu, blendCursor c.toCursor imgData = some gpu ∧
    ∀ j i k dest, gpu j i k dest =
      if Under c.toCursor c.width c.lines j i then
        maskShade (planeBit c.toCursor imgData 0 ((j : ℤ) - c.y).toNat ((i : ℤ) - c.x).toNat)
          (planeBit c.toCursor imgData 1 ((j : ℤ) - c.y).toNat ((i : ℤ) - c.x).toNat) k dest
      else dest := by
  obtain ⟨alpha, halpha, hdrawAlpha⟩ := @monochrome_texture img c imgData htype alphaColor
  obtain ⟨xor, hxor, hdrawXor⟩ := @monochrome_texture img c imgData htype xorColor
  have halphaImg : makeCursorAlphaImage c.toCursor imgData = some (monochromeImg c.toCursor imgData alphaColor) := by
    rw [makeCursorAlphaImage, htype]
  have hxorImg : makeCursorXorImage c.toCursor imgData = some (monochromeImg c.toCursor imgData xorColor) := by
    rw [makeCursorXorImage, htype]
  refine ⟨_, blendCursor_some halphaImg hxorImg halpha hxor, fun j i k dest => ?_⟩
  rw [hdrawXor, hdrawAlpha]
  split_ifs
  · rfl
  · rfl

end Texture

/-! ## The bits of a pixel -/

section Bits

theorem maskShade_eq (and xor : Bool) (k : Fin 3) (dest : ℚ) : maskShade and xor k dest =
    if and then if xor then 1 - dest else dest else if xor then 1 else 0 := by
  have hblack : ∀ dest, paint false black k dest = 0 := by
    intro dest
    rw [paint_alpha]
    show level 0 * level 0xFF + dest * (1 - level 0xFF) = 0
    rw [level_zero, level_full]
    ring
  have hwhite : ∀ dest, paint false white k dest = 1 := by
    intro dest
    rw [paint_alpha]
    show level 0xFF * level 0xFF + dest * (1 - level 0xFF) = 1
    rw [level_full]
    ring
  have hinverted : ∀ dest, paint true inverted k dest = 1 - dest := by
    intro dest
    rw [paint_invert]
    show level 0xFF * (1 - dest) + dest * (1 - level 0xFF) = 1 - dest
    rw [level_full]
    ring
  unfold maskShade
  cases and with
  | false =>
    cases xor with
    | false => exact (paint_transparent _ _ _).trans (hblack dest)
    | true => exact (paint_transparent _ _ _).trans (hwhite dest)
  | true =>
    cases xor with
    | false => exact (paint_transparent _ _ _).trans (paint_transparent _ _ _)
    | true => exact (congrArg _ (paint_transparent _ _ _)).trans (hinverted dest)

/-- What the two bits leave of a colour. -/
theorem masked_colour (and xor : Bool) (before : Pixel) (k : Fin 3) :
    ((xorPixel (andPixel before (maskOf and)) (maskOf xor)).colour k).toNat =
      if and then if xor then 255 - (before.colour k).toNat else (before.colour k).toNat else if xor then 255 else 0 := by
  unfold xorPixel andPixel maskOf
  cases and with
  | false =>
    cases xor with
    | false => simp
    | true => simp
  | true =>
    have hfull : before.colour k &&& 255 = before.colour k := UInt8.and_neg_one
    cases xor with
    | false =>
      show (before.colour k &&& 255 ^^^ 0).toNat = _
      rw [hfull, UInt8.xor_zero]
      rfl
    | true =>
      show (before.colour k &&& 255 ^^^ 255).toNat = _
      rw [hfull]
      exact toNat_xor_full _

/-- With the same bits both ways agree. -/
theorem near_bits (and xor : Bool) (before : Pixel) (k : Fin 3) :
    Near ((xorPixel (andPixel before (maskOf and)) (maskOf xor)).colour k)
      (maskShade and xor k (level (before.colour k))) := by
  have hbefore := Nat.le_of_lt_succ (before.colour k).toNat_lt
  unfold Near
  rw [masked_colour, maskShade_eq]
  split_ifs
  · have hsame : (255 : ℚ) - (before.colour k).toNat - 255 * (1 - (before.colour k).toNat / 255) = 0 := by ring
    rw [level, Nat.cast_sub hbefore, Nat.cast_ofNat, hsame, abs_zero]
    exact zero_le_one
  · exact near_level _
  · norm_num
  · norm_num

end Bits

/-! ## When both ways agree -/

section Agreement
variable {img : Img} {c : InsideCursor img} {imgData : ℕ → UInt8}

/-- The lines of the shape have no gaps, or there is one whose last whole bytes lie in the image's own gap and in the
shape's buffer. -/
def MonochromeAgrees (img : Img) (c : Cursor) : Prop :=
  (0 < c.pitch ∧ c.pitch ≤ c.width) ∧ (c.lines = 0 ∨ c.width = 8 * c.pitch ∨
    (c.lines = 1 ∧ c.x + c.width = img.width ∧ c.x + drawnColumns c ≤ img.plane.stride ∧
      c.pitch + c.width / (c.width / c.pitch) ≤ c.pitch * c.height))

/-- What the way into memory leaves. -/
abbrev memoryAfter (img : Img) (c : Cursor) (imgData : ℕ → UInt8) (data : ℕ → Pixel) : ℕ → Pixel :=
  draw (fun apply pixel => apply pixel) (applied (c.type == .maskedColor) imgData) (drawnBlock img c) data

/-- The two bits of a place of the shape, as the way into memory reads them. -/
def shapeBit (c : Cursor) (imgData : ℕ → UInt8) (plane row col : ℕ) : Bool :=
  bitAt imgData ((row + plane * (c.height / 2)) * c.pitch + col / 8) (col % 8)

theorem applied_masks (htype : c.type = .monochrome) (row col : ℕ) (before : Pixel) :
    applied (c.type == .maskedColor) imgData (c.source row col) before =
      xorPixel (andPixel before (maskOf (shapeBit c.toCursor imgData 0 row col)))
        (maskOf (shapeBit c.toCursor imgData 1 row col)) := by
  unfold Cursor.source shapeBit
  rw [htype, Nat.zero_mul, Nat.add_zero, Nat.one_mul]
  rfl

theorem agree_iff_drawn (htype : c.type = .monochrome) : Agree img c.toCursor imgData ↔
    blended img c.toCursor = some (drawnBlock img c.toCursor) ∧ ∀ data, ∀ j < img.height, ∀ i < img.width, ∀ k,
      Near ((memoryAfter img c.toCursor imgData data (j * img.plane.stride + i)).colour k)
        (if Under c.toCursor c.width c.lines j i then
          maskShade (planeBit c.toCursor imgData 0 ((j : ℤ) - c.y).toNat ((i : ℤ) - c.x).toNat)
            (planeBit c.toCursor imgData 1 ((j : ℤ) - c.y).toNat ((i : ℤ) - c.x).toNat) k
            (level ((data (j * img.plane.stride + i)).colour k))
        else level ((data (j * img.plane.stride + i)).colour k)) := by
  obtain ⟨gpu, hgpu, hshade⟩ := @monochrome_gpu img c imgData htype
  constructor
  · rintro ⟨gpu', hgpu', hagree⟩
    obtain rfl := Option.some.inj (hgpu.symm.trans hgpu')
    have hblended : blended img c.toCursor = some (drawnBlock img c.toCursor) := by
      obtain ⟨after, hafter, -⟩ := hagree fun _ => transparent
      obtain ⟨accesses, haccesses, -⟩ := Option.map_eq_some_iff.mp hafter
      rw [haccesses, (block_of_blended htype haccesses).2.1]
    refine ⟨hblended, fun data j hj i hi k => ?_⟩
    obtain ⟨after, hafter, hnear⟩ := hagree data
    rw [RamCursor.blendCursor, hblended, Option.map_some] at hafter
    obtain rfl := Option.some.inj hafter
    rw [← hshade]
    exact hnear j hj i hi k
  · rintro ⟨hblended, hnear⟩
    refine ⟨gpu, hgpu, fun data => ⟨memoryAfter img c.toCursor imgData data, ?_, fun j hj i hi k => ?_⟩⟩
    · rw [RamCursor.blendCursor, hblended, Option.map_some]
    · rw [hshade]
      exact hnear data j hj i hi k

/-- Both ways agree where each pixel under the cursor is drawn once with the right bits and no other is drawn. -/
theorem agree_of_pixels (htype : c.type = .monochrome)
    (hblended : blended img c.toCursor = some (drawnBlock img c.toCursor))
    (hunder : ∀ row < c.lines, ∀ col < c.width, ∀ data,
      memoryAfter img c.toCursor imgData data ((c.y.toNat + row) * img.plane.stride + (c.x.toNat + col)) =
        xorPixel (andPixel (data ((c.y.toNat + row) * img.plane.stride + (c.x.toNat + col)))
          (maskOf (planeBit c.toCursor imgData 0 row col))) (maskOf (planeBit c.toCursor imgData 1 row col)))
    (helse : ∀ j < img.height, ∀ i < img.width, ¬Under c.toCursor c.width c.lines j i →
      j * img.plane.stride + i ∉ (drawnBlock img c.toCursor).map Prod.fst) : Agree img c.toCursor imgData := by
  have hleft := c.left
  have htop := c.top
  refine (agree_iff_drawn htype).mpr ⟨hblended, fun data j hj i hi k => ?_⟩
  by_cases hcovered : Under c.toCursor c.width c.lines j i
  · have hpixel := hunder ((j : ℤ) - c.y).toNat (by omega) ((i : ℤ) - c.x).toNat (by omega) data
    rw [show c.y.toNat + ((j : ℤ) - c.y).toNat = j by omega, show c.x.toNat + ((i : ℤ) - c.x).toNat = i by omega] at hpixel
    rw [if_pos hcovered, hpixel]
    exact near_bits _ _ _ _
  · rw [if_neg hcovered, memoryAfter, draw_notMem (helse j hj i hi hcovered)]
    exact near_level _

end Agreement

section Enough
variable {img : Img} {c : InsideCursor img} {imgData : ℕ → UInt8}

theorem planeBit_eq {row : ℕ} (h : c.width = 8 * c.pitch ∨ row = 0) (plane col : ℕ) :
    planeBit c.toCursor imgData plane row col = shapeBit c.toCursor imgData plane row col := by
  have hnumber : (row * c.width + col) / 8 = row * c.pitch + col / 8 ∧ (row * c.width + col) % 8 = col % 8 := by
    rcases h with hwidth | rfl
    · rw [hwidth, Nat.mul_left_comm]
      omega
    · rw [Nat.zero_mul, Nat.zero_mul, Nat.zero_add, Nat.zero_add]
      exact ⟨rfl, rfl⟩
  unfold planeBit shapeBit
  rw [hnumber.1, hnumber.2]
  congr 1
  rw [Nat.add_mul, Nat.mul_right_comm plane]
  omega

theorem agree_of_nodup (htype : c.type = .monochrome)
    (hblended : blended img c.toCursor = some (drawnBlock img c.toCursor))
    (hnodup : ((drawnBlock img c.toCursor).map Prod.fst).Nodup) (hcolumns : c.width ≤ drawnColumns c.toCursor)
    (hbits : c.width = 8 * c.pitch ∨ c.lines = 1)
    (helse : ∀ j < img.height, ∀ i < img.width, ¬Under c.toCursor c.width c.lines j i →
      j * img.plane.stride + i ∉ (drawnBlock img c.toCursor).map Prod.fst) : Agree img c.toCursor imgData := by
  refine agree_of_pixels htype hblended (fun row hrow col hcol data => ?_) helse
  have hmem : ((c.y.toNat + row) * img.plane.stride + (c.x.toNat + col), c.source (0 + row) (0 + col)) ∈
      drawnBlock img c.toCursor :=
    List.mem_flatMap.mpr ⟨row, List.mem_range.mpr hrow, List.mem_map.mpr ⟨col, List.mem_range.mpr (by omega), rfl⟩⟩
  rw [memoryAfter, draw_mem hnodup hmem, Nat.zero_add, Nat.zero_add, applied_masks htype,
    planeBit_eq (hbits.imp id fun _ => by omega), planeBit_eq (hbits.imp id fun _ => by omega)]

theorem drawnColumns_dense (hpitch : 0 < c.pitch) (hdense : c.width = 8 * c.pitch) :
    drawnColumns c.toCursor = c.width := by
  unfold drawnColumns
  rw [hdense, Nat.mul_div_cancel _ hpitch, Nat.mul_div_cancel_left _ (by decide)]

/-- There are at least as many bytes as a line has. -/
theorem pitch_le_bytes (hpitch : 0 < c.pitch ∧ c.pitch ≤ c.width) : c.pitch ≤ c.width / (c.width / c.pitch) := by
  rw [Nat.le_div_iff_mul_le (Nat.div_pos hpitch.2 hpitch.1)]
  exact Nat.mul_div_le _ _

theorem agree_dense (htype : c.type = .monochrome) (hpitch : 0 < c.pitch ∧ c.pitch ≤ c.width)
    (hdense : c.width = 8 * c.pitch) : Agree img c.toCursor imgData := by
  have hleft := c.left
  have htop := c.top
  have hcolumns := drawnColumns_dense hpitch.1 hdense
  have hoverlap : drawnBlock img c.toCursor = overlap c.source img.plane c.x c.y c.width c.lines := by
    have hwidth : shown img.plane.width c.x c.width = c.width := shown_columns c
    have hheight : shown img.plane.height c.y c.lines = c.lines := shown_lines c
    rw [overlap_eq_block, hwidth, hheight, show (-c.x).toNat = 0 by omega, show (-c.y).toNat = 0 by omega, drawnBlock,
      hcolumns]
  have hblended := blended_of_block htype hpitch fun access haccess => overlap_inside (hoverlap ▸ haccess)
  refine agree_of_nodup htype hblended ?_ hcolumns.ge (.inl hdense) fun j hj i hi hnot hmem => ?_
  · rw [hoverlap]
    exact overlap_nodup _ _ _ _ _
  · rw [hoverlap] at hmem
    obtain ⟨⟨d, source⟩, hpair, hd⟩ := List.mem_map.mp hmem
    obtain ⟨j', hj', i', hi', hrow, hcol, haddress, -⟩ := mem_overlap.mp hpair
    obtain ⟨rfl, rfl⟩ := address_inj (p := img.plane) hi hi' (hd.symm.trans haddress)
    exact hnot ⟨hrow, hcol⟩

/-- One line, whose last bytes lie between two lines of the image. -/
theorem agree_single (htype : c.type = .monochrome) (hpitch : 0 < c.pitch ∧ c.pitch ≤ c.width) (hlines : c.lines = 1)
    (hedge : c.x + c.width = img.width) (hgap : c.x + drawnColumns c.toCursor ≤ img.plane.stride)
    (hbuffer : c.pitch + c.width / (c.width / c.pitch) ≤ c.pitch * c.height) : Agree img c.toCursor imgData := by
  have hleft := c.left
  have htop := c.top
  have hbottom := c.bottom
  have hneeded : (c.width + 7) / 8 ≤ c.pitch := by
    have hline := c.line
    rwa [htype] at hline
  have hheight := lines_of_monochrome htype
  have hbytes := pitch_le_bytes hpitch
  have hline : drawnBlock img c.toCursor =
      line c.source img.plane.stride c.x.toNat c.y.toNat 0 0 (drawnColumns c.toCursor) 0 := by
    rw [drawnBlock, hlines, block_succ]
    rfl
  have hrow : (c.y.toNat + 1) * img.plane.stride ≤ img.height * img.plane.stride := Nat.mul_le_mul_right _ (by omega)
  rw [Nat.succ_mul] at hrow
  have hblended : blended img c.toCursor = some (drawnBlock img c.toCursor) := by
    refine blended_of_block htype hpitch fun access haccess => ?_
    rw [hline] at haccess
    obtain ⟨a, ha, rfl⟩ := List.mem_map.mp haccess
    have ha := List.mem_range.mp ha
    refine ⟨?_, ?_⟩
    · show (c.y.toNat + 0) * img.plane.stride + (c.x.toNat + a) < img.height * img.plane.stride
      rw [Nat.add_zero]
      omega
    unfold drawnColumns at ha
    unfold Cursor.source
    rw [htype]
    show (0 + 0) * c.pitch + (0 + a) / 8 < c.pitch * c.height ∧
      (0 + 0 + c.height / 2) * c.pitch + (0 + a) / 8 < c.pitch * c.height
    rw [← hheight, hlines, Nat.zero_add, Nat.zero_add, Nat.zero_add, Nat.zero_mul, Nat.one_mul]
    omega
  refine agree_of_nodup htype hblended ?_ (by unfold drawnColumns; omega) (.inr hlines) fun j hj i hi hnot hmem => ?_
  · rw [hline]
    exact line_nodup _ _ _ _ _ _ _ _
  · rw [hline] at hmem
    obtain ⟨pair, hpair, haddress⟩ := List.mem_map.mp hmem
    obtain ⟨a, ha, rfl⟩ := List.mem_map.mp hpair
    have ha := List.mem_range.mp ha
    have hinside : img.width ≤ img.plane.stride := img.plane.inside
    have hplace := @address_inj { img.plane with width := img.plane.stride, inside := le_rfl } (c.x.toNat + a)
      (c.y.toNat + 0) i j (by dsimp only; omega) (by dsimp only; omega) haddress
    refine hnot ?_
    unfold Under
    omega

end Enough

section Needed
variable {img : Img} {c : InsideCursor img} {imgData : ℕ → UInt8}

theorem not_near_white {v : UInt8} {shade : ℚ} (hv : v.toNat = 255) (hshade : shade = 0) : ¬Near v shade := by
  unfold Near
  rw [hv, hshade]
  norm_num

theorem bitAt_none {byte bit : ℕ} (h : imgData byte = 0) : bitAt imgData byte bit = false := by
  unfold bitAt
  rw [h]
  exact Nat.zero_testBit _

theorem bitAt_all {byte bit : ℕ} (h : imgData byte = 255) (hbit : bit < 8) : bitAt imgData byte bit = true := by
  unfold bitAt
  rw [h]
  show Nat.testBit (2 ^ 8 - 1) (7 - bit) = true
  rw [Nat.testBit_two_pow_sub_one]
  exact decide_eq_true (by omega)

/-- Over a black picture, a pixel of the first line beside the cursor that turns white. -/
theorem beside_of_agree (htype : c.type = .monochrome) (hlines : 0 < c.lines) {a j i : ℕ}
    (ha : a < drawnColumns c.toCursor) (hlast : a < img.plane.stride ∨ c.lines = 1) (hj : j < img.height)
    (hi : i < img.width) (haddress : j * img.plane.stride + i = (c.y.toNat + 0) * img.plane.stride + (c.x.toNat + a))
    (hbeside : ¬Under c.toCursor c.width c.lines j i) (hbit : shapeBit c.toCursor imgData 1 0 a = true) :
    ¬Agree img c.toCursor imgData := by
  intro hagree
  obtain ⟨-, hnear⟩ := (agree_iff_drawn htype).mp hagree
  have hpixel := hnear (fun _ => transparent) j hj i hi 0
  refine not_near_white ?_ ?_ hpixel
  · rw [haddress, memoryAfter, draw_block hlines ha hlast, Nat.zero_add, Nat.zero_add, applied_masks htype, masked_colour,
      hbit]
    cases shapeBit c.toCursor imgData 0 0 a with
    | false => rfl
    | true => rfl
  · rw [if_neg hbeside]
    exact level_zero

/-- A pixel of the image right of the cursor is drawn too. -/
theorem edge_of_agree (htype : c.type = .monochrome) (hlines : 0 < c.lines)
    (hmore : c.width < drawnColumns c.toCursor) (h : ∀ imgData, Agree img c.toCursor imgData) :
    c.x + c.width = img.width := by
  by_contra hedge
  have hleft := c.left
  have htop := c.top
  have hright := c.right
  have hbottom := c.bottom
  have hinside : img.width ≤ img.plane.stride := img.plane.inside
  refine beside_of_agree htype hlines hmore (.inl (by omega)) (show c.y.toNat < img.height by omega)
    (show c.x.toNat + c.width < img.width by omega) rfl ?_ ?_ (h fun _ => 255)
  · unfold Under
    omega
  · exact bitAt_all rfl (Nat.mod_lt _ (by decide))

/-- The second line of a shape with gaps is read from a different place. -/
theorem single_of_agree (htype : c.type = .monochrome) (hpitch : 0 < c.pitch ∧ c.pitch ≤ c.width)
    (hcolumns : 0 < drawnColumns c.toCursor) (hsparse : c.width < 8 * c.pitch)
    (h : ∀ imgData, Agree img c.toCursor imgData) : c.lines ≤ 1 := by
  by_contra hmore
  have hleft := c.left
  have htop := c.top
  have hright := c.right
  have hbottom := c.bottom
  have hheight := lines_of_monochrome htype
  have hinside : img.width ≤ img.plane.stride := img.plane.inside
  have hplane : 2 * c.pitch ≤ c.lines * c.pitch := Nat.mul_le_mul_right _ (by omega)
  -- a shape whose only bit is the first one of the second line, in the second plane
  have hagree := h fun byte => if byte = c.lines * c.pitch + c.pitch then 128 else 0
  obtain ⟨-, hnear⟩ := (agree_iff_drawn htype).mp hagree
  have hpixel := hnear (fun _ => transparent) (c.y.toNat + 1) (by omega) (c.x.toNat + 0) (by omega) 0
  refine not_near_white ?_ ?_ hpixel
  · rw [memoryAfter, draw_block (show 1 < c.lines by omega) hcolumns (.inl (by omega)), Nat.zero_add, Nat.zero_add,
      applied_masks htype, masked_colour]
    have hand : shapeBit c.toCursor (fun byte => if byte = c.lines * c.pitch + c.pitch then 128 else 0) 0 1 0 = false := by
      refine bitAt_none (if_neg ?_)
      rw [Nat.zero_mul, Nat.add_zero, Nat.one_mul]
      omega
    have hxor : shapeBit c.toCursor (fun byte => if byte = c.lines * c.pitch + c.pitch then 128 else 0) 1 1 0 = true := by
      have hbyte : (1 + 1 * (c.height / 2)) * c.pitch + 0 / 8 = c.lines * c.pitch + c.pitch := by
        rw [← hheight, Nat.one_mul, Nat.add_mul, Nat.one_mul, Nat.zero_div]
        omega
      unfold shapeBit bitAt
      dsimp only
      rw [if_pos hbyte]
      rfl
    rw [hand, hxor]
    rfl
  · have hunder : Under c.toCursor c.width c.lines (c.y.toNat + 1) (c.x.toNat + 0) := by
      unfold Under
      omega
    have hplace : (((c.y.toNat + 1 : ℕ) : ℤ) - c.y).toNat = 1 ∧ (((c.x.toNat + 0 : ℕ) : ℤ) - c.x).toNat = 0 := by omega
    have hbit : ∀ plane ≤ 1, planeBit c.toCursor (fun byte => if byte = c.lines * c.pitch + c.pitch then 128 else 0)
        plane 1 0 = false := by
      intro plane hle
      refine bitAt_none (if_neg ?_)
      have hoffset : plane * c.pitch * (c.height / 2) = 0 ∨ plane * c.pitch * (c.height / 2) = c.lines * c.pitch := by
        rw [← hheight]
        obtain rfl | rfl : plane = 0 ∨ plane = 1 := by omega
        · exact .inl (by rw [Nat.zero_mul, Nat.zero_mul])
        · exact .inr (by rw [Nat.one_mul, Nat.mul_comm])
      omega
    rw [if_pos hunder, hplace.1, hplace.2, hbit 0 (by omega), hbit 1 (by omega), maskShade_eq]
    rfl

theorem agrees_of_agree (htype : c.type = .monochrome) (h : ∀ imgData, Agree img c.toCursor imgData) :
    MonochromeAgrees img c.toCursor := by
  have hleft := c.left
  have htop := c.top
  have hright := c.right
  have hbottom := c.bottom
  have hneeded : (c.width + 7) / 8 ≤ c.pitch := by
    have hline := c.line
    rwa [htype] at hline
  have hheight := lines_of_monochrome htype
  have hblended := ((agree_iff_drawn htype).mp (h fun _ => 255)).1
  obtain ⟨hpitch, -, hbounds⟩ := block_of_blended htype hblended
  have hbytes := pitch_le_bytes hpitch
  refine ⟨hpitch, ?_⟩
  by_cases hnone : c.lines = 0
  · exact .inl hnone
  by_cases hdense : c.width = 8 * c.pitch
  · exact .inr (.inl hdense)
  have hcolumns : drawnColumns c.toCursor = 8 * (c.width / (c.width / c.pitch)) := rfl
  have hone : c.lines = 1 := by
    have hsingle := single_of_agree htype hpitch (by omega) (by omega) h
    omega
  have hedge := edge_of_agree htype (by omega) (by omega) h
  have hmem : ∀ a < drawnColumns c.toCursor, ((c.y.toNat + 0) * img.plane.stride + (c.x.toNat + a),
      c.source (0 + 0) (0 + a)) ∈ drawnBlock img c.toCursor := fun a ha =>
    List.mem_flatMap.mpr ⟨0, List.mem_range.mpr (by omega), List.mem_map.mpr ⟨a, List.mem_range.mpr ha, rfl⟩⟩
  refine .inr (.inr ⟨hone, hedge, ?_, ?_⟩)
  · by_contra hgap
    have hinside : img.width ≤ img.plane.stride := img.plane.inside
    have hnext : (c.y.toNat + 0) * img.plane.stride + (c.x.toNat + (img.plane.stride - c.x.toNat)) =
        (c.y.toNat + 1) * img.plane.stride + 0 := by
      rw [Nat.succ_mul, Nat.add_zero, Nat.add_zero]
      omega
    have hin := (hbounds _ (hmem (img.plane.stride - c.x.toNat) (by omega))).1
    dsimp only at hin
    rw [hnext, Nat.add_zero] at hin
    have hbelow := Nat.lt_of_mul_lt_mul_right hin
    refine beside_of_agree htype (by omega) (show img.plane.stride - c.x.toNat < drawnColumns c.toCursor by omega)
      (.inr hone) hbelow (show 0 < img.width by omega) hnext.symm ?_ ?_ (h fun _ => 255)
    · unfold Under
      omega
    · exact bitAt_all rfl (Nat.mod_lt _ (by decide))
  · have hlast := (hbounds _ (hmem (drawnColumns c.toCursor - 1) (by omega))).2
    unfold Cursor.source at hlast
    rw [htype] at hlast
    have hmask : (0 + 0 + c.height / 2) * c.pitch + (0 + (drawnColumns c.toCursor - 1)) / 8 < c.pitch * c.height := hlast.2
    rw [← hheight, hone, Nat.zero_add, Nat.zero_add, Nat.one_mul] at hmask
    omega

theorem monochrome_agree_iff (htype : c.type = .monochrome) :
    (∀ imgData, Agree img c.toCursor imgData) ↔ MonochromeAgrees img c.toCursor := by
  refine ⟨agrees_of_agree htype, ?_⟩
  rintro ⟨hpitch, hnone | hdense | ⟨hone, hedge, hgap, hbuffer⟩⟩ imgData
  · have hempty : drawnBlock img c.toCursor = [] := by
      rw [drawnBlock, hnone]
      rfl
    refine agree_of_pixels htype ?_ (fun row hrow => ?_) fun j _ i _ _ => ?_
    · refine blended_of_block htype hpitch fun access haccess => ?_
      rw [hempty] at haccess
      cases haccess
    · rw [hnone] at hrow
      exact absurd hrow (Nat.not_lt_zero row)
    · rw [hempty]
      exact List.not_mem_nil
  · exact agree_dense htype hpitch hdense
  · exact agree_single htype hpitch hone hedge hgap hbuffer

end Needed

/-- The two ways agree for straight colours, for masked colours that replace or invert all or nothing, and for monochrome
cursors with whole bytes in their lines, and for no others; a shape with gaps has more lines as a texture. -/
theorem gpu_agrees_iff (img : Img) (c : InsideCursor img) :
    match c.type with
    | .color => ∀ imgData, Agree img c.toCursor imgData ↔ ColorAgrees img c.toCursor imgData
    | .maskedColor => ∀ imgData, Agree img c.toCursor imgData ↔ MaskedColorAgrees img c.toCursor imgData
    | .monochrome => (∀ imgData, Agree img c.toCursor imgData) ↔ MonochromeAgrees img c.toCursor := by
  cases htype : c.type with
  | color => exact fun imgData => color_agree_iff htype
  | maskedColor => exact fun imgData => masked_agree_iff htype
  | monochrome => exact monochrome_agree_iff htype

/-- A pixel whose colour is half transparent. -/
def shadow : InsideCursor twoPixels where
  toCursor := { leftCursor with x := 0, x_int := leftCursor.y_int }
  left := by decide
  top := by decide
  right := by decide
  bottom := by decide

/-- The texture's colour is weakened by its alpha and the buffer's is not. -/
theorem shadow_differs : ¬∀ (img : Img) (c : InsideCursor img) (imgData : ℕ → UInt8), Agree img c.toCursor imgData := by
  intro h
  have hagrees := (color_agree_iff rfl).mp (h twoPixels shadow fun _ => 128)
  have hstraight := hagrees.2 0 (by decide) (by decide) 0 (by decide) 0
  rw [if_pos (by decide)] at hstraight
  exact absurd hstraight.2 (by decide)

end Sunshine.VramMasks
