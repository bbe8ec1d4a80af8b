import Sunshine.Platform.CursorPixels
import Mathlib.Data.Int.Bitwise

/-! The cursor that the X11 capture draws into a frame (`blend_cursor` of `x11grab.cpp`). `x11_cursor_shown_iff` says for which
sizes and positions exactly the overlap of cursor and image is drawn. -/
namespace Sunshine.X11Cursor
open Overlaps CursorPixels
set_option autoImplicit false

/-- The fields of an `XFixesCursorImage` in sixteen bits, with `width * height` pixels. -/
structure Overlay where
  x : ℤ
  y : ℤ
  xhot : ℕ
  yhot : ℕ
  width : ℕ
  height : ℕ
  width_lt : width < 2 ^ 16
  height_lt : height < 2 ^ 16

/-- `overlay->x` behind the two subtractions and the maximum, each stored in a `short`. -/
def place (x : ℤ) (hot : ℕ) (offset : ℤ) : Option ℕ :=
  let hotspot := (x - hot).bmod (2 ^ 16)
  if IsInt32 (hotspot - offset) then some (max 0 ((hotspot - offset).bmod (2 ^ 16))).toNat else none

/-- `delta_width`, a minimum of two `uint16_t`. -/
def delta (size screen place : ℕ) : ℕ := min size ((screen - place) % 2 ^ 16)

/-- A line of the loop; the numbers of a line's pixels in cursor and image are computed as `int`. -/
def blendLine (img : Img) (overlay : Overlay) (x y deltaWidth line : ℕ) : Option (List Pair) :=
  if line * overlay.width + deltaWidth < 2 ^ 31 ∧ (line + y) * (img.rowPitch / img.pixelPitch) + x < 2 ^ 31 then
    let pairs := (List.range deltaWidth).map fun a =>
      ((line + y) * (img.rowPitch / img.pixelPitch) + x + a, line * overlay.width + a)
    if ∀ pair ∈ pairs,
        pair.1 < img.height * (img.rowPitch / img.pixelPitch) ∧ pair.2 < overlay.width * overlay.height then
      some pairs
    else none
  else none

/-- The pixels that are blended, unless an `int` overflows or an access is out of bounds. -/
def blended (img : Img) (overlay : Overlay) (offsetX offsetY : ℤ) : Option (List Pair) := do
  let x ← place overlay.x overlay.xhot offsetX
  let y ← place overlay.y overlay.yhot offsetY
  collect (blendLine img overlay x y (delta overlay.width img.width x)) (delta overlay.height img.height y)

def blendCursor (img : Img) (overlay : Overlay) (offsetX offsetY : ℤ) (pixels data : ℕ → Pixel) :
    Option (ℕ → Pixel) :=
  (blended img overlay offsetX offsetY).map fun pairs => draw blend pixels pairs data

/-! ## When exactly the overlap is drawn -/

/-- The accesses are those of the overlap, each once, and the image shows the cursor, whatever its pixels are. The
cursor's corner is in front of its hot spot, in the coordinates of the display. -/
def ShownRight (img : Img) (overlay : Overlay) (offsetX offsetY : ℤ) : Prop :=
  ∃ pairs, blended img overlay offsetX offsetY = some pairs ∧
    pairs.Perm (overlap (rowMajor overlay.width) img.plane (overlay.x - overlay.xhot - offsetX) (overlay.y - overlay.yhot - offsetY)
      overlay.width overlay.height) ∧
    ∀ pixels data, ∃ after, blendCursor img overlay offsetX offsetY pixels data = some after ∧
      Shows img.plane (overlay.x - overlay.xhot - offsetX) (overlay.y - overlay.yhot - offsetY) overlay.width
        overlay.height pixels data after

/-- The corner is in the image's plane in 15 bits, and the size that is cut at the image's edge is not cut in 16. -/
def Holds (screen : ℕ) (corner : ℤ) (size : ℕ) : Prop :=
  0 ≤ corner ∧ corner < 2 ^ 15 ∧ ((screen : ℤ) - corner < 2 ^ 16 ∨ (size : ℤ) ≤ (screen - corner) % 2 ^ 16)

/-- A corner in 16 bits, no less than zero. -/
def held (corner : ℤ) : ℕ := (max 0 (corner.bmod (2 ^ 16))).toNat

def Drawable (img : Img) (overlay : Overlay) (left top : ℤ) : Prop :=
  let cols := shown img.width left overlay.width
  let rows := shown img.height top overlay.height
  if 0 < cols ∧ 0 < rows then
    Holds img.width left overlay.width ∧ Holds img.height top overlay.height ∧
      (rows - 1) * overlay.width + cols < 2 ^ 31
  else
    delta overlay.height img.height (held top) = 0 ∨ delta overlay.width img.width (held left) = 0 ∧
      (delta overlay.height img.height (held top) - 1) * overlay.width < 2 ^ 31

section Placing

theorem place_eq (x : ℤ) (hot : ℕ) (offset : ℤ) :
    place x hot offset =
      if IsInt32 ((x - hot).bmod (2 ^ 16) - offset) then some (held (x - hot - offset)) else none := by
  unfold place held
  dsimp only
  rw [Int.bmod_sub_bmod]

theorem held_lt (corner : ℤ) : held corner < 2 ^ 15 := by
  have hlt : corner.bmod (2 ^ 16) < ((2 ^ 16 : ℕ) + 1) / 2 := Int.bmod_lt (by decide)
  unfold held
  omega

theorem held_of_holds {screen : ℕ} {corner : ℤ} {size : ℕ} (h : Holds screen corner size) : held corner = corner.toNat := by
  have hsame : corner.bmod (2 ^ 16) = corner := Int.bmod_eq_of_le (by have := h.1; omega) (by have := h.2.1; omega)
  rw [held, hsame, max_eq_right h.1]

end Placing

section Drawing
variable {img : Img} {overlay : Overlay} {left top : ℤ} {x y : ℕ} {pairs : List Pair}

theorem delta_of_holds {screen : ℕ} {corner : ℤ} {size : ℕ} (h : Holds screen corner size) (hsize : size < 2 ^ 16) :
    delta size screen corner.toNat = shown screen corner size := by
  obtain ⟨hzero, hhigh, hcut⟩ := h
  unfold delta shown
  omega

/-- What is drawn keeps within the image and the cursor. -/
theorem blendLine_eq (img : Img) (overlay : Overlay) {x y : ℕ} (hx : x < 2 ^ 15) {line : ℕ}
    (hline : line < delta overlay.height img.height y) :
    blendLine img overlay x y (delta overlay.width img.width x) line =
      if line * overlay.width + delta overlay.width img.width x < 2 ^ 31 then
        some (Overlaps.line (rowMajor overlay.width) img.plane.stride x y 0 0 (delta overlay.width img.width x) line)
      else none := by
  have hinside := img.plane.inside
  have hroom := img.room
  have hrow : (line + y + 1) * img.plane.stride ≤ img.height * img.plane.stride := by
    refine Nat.mul_le_mul_right _ ?_
    unfold delta at hline
    omega
  have hsource : (line + 1) * overlay.width ≤ overlay.height * overlay.width := by
    refine Nat.mul_le_mul_right _ ?_
    unfold delta at hline
    omega
  have hwidth : delta overlay.width img.width x + x ≤ img.plane.stride ∨ delta overlay.width img.width x = 0 := by
    unfold delta
    have hplane : img.width ≤ img.plane.stride := hinside
    omega
  rw [Nat.succ_mul] at hrow hsource
  have hstride : img.rowPitch / img.pixelPitch = img.plane.stride := rfl
  unfold blendLine
  rw [hstride]
  by_cases hint : line * overlay.width + delta overlay.width img.width x < 2 ^ 31
  · rw [if_pos ⟨hint, by omega⟩, if_pos hint]
    dsimp only
    rw [if_pos]
    · unfold Overlaps.line
      rw [Nat.zero_add]
      simp only [rowMajor, Nat.zero_add, Nat.add_assoc, Nat.add_comm line y]
    · intro pair hpair
      obtain ⟨a, ha, rfl⟩ := List.mem_map.mp hpair
      have ha := List.mem_range.mp ha
      have hcolumn : delta overlay.width img.width x ≤ overlay.width := Nat.min_le_left _ _
      rw [Nat.mul_comm overlay.width overlay.height]
      dsimp only
      omega
  · rw [if_neg (fun h => hint h.1), if_neg hint]

/-- The lines that are drawn, with the corner drawn at `x` and `y`. -/
abbrev drawnLines (img : Img) (overlay : Overlay) (x y : ℕ) : Option (List Pair) :=
  collect (blendLine img overlay x y (delta overlay.width img.width x)) (delta overlay.height img.height y)

theorem drawnLines_some (hx : x < 2 ^ 15) (hpairs : drawnLines img overlay x y = some pairs) :
    pairs = block (rowMajor overlay.width) img.plane.stride x y 0 0 (delta overlay.width img.width x)
        (delta overlay.height img.height y) ∧
      ∀ line < delta overlay.height img.height y,
        line * overlay.width + delta overlay.width img.width x < 2 ^ 31 := by
  have hrow : ∀ line < delta overlay.height img.height y,
      line * overlay.width + delta overlay.width img.width x < 2 ^ 31 := by
    intro line hline
    obtain ⟨part, hpart, -⟩ := row_of_collect hpairs hline
    rw [blendLine_eq img overlay hx hline] at hpart
    split_ifs at hpart with hint
    exact hint
  have hdrawn := collect_eq fun line hline =>
    (blendLine_eq img overlay hx hline).trans (if_pos (hrow line hline))
  exact ⟨Option.some.inj (hpairs.symm.trans hdrawn), hrow⟩

theorem drawnLines_eq (hx : x < 2 ^ 15)
    (hint : delta overlay.height img.height y = 0 ∨ (delta overlay.height img.height y - 1) * overlay.width +
      delta overlay.width img.width x < 2 ^ 31) :
    drawnLines img overlay x y = some (block (rowMajor overlay.width) img.plane.stride x y 0 0
      (delta overlay.width img.width x) (delta overlay.height img.height y)) := by
  refine collect_eq fun line hline => (blendLine_eq img overlay hx hline).trans (if_pos ?_)
  have hle : line * overlay.width ≤ (delta overlay.height img.height y - 1) * overlay.width :=
    Nat.mul_le_mul_right _ (by omega)
  omega

theorem block_of_none (stride w x y cols rows : ℕ) (h : rows = 0 ∨ cols = 0) :
    block (rowMajor w) stride x y 0 0 cols rows = [] := by
  refine List.eq_nil_of_length_eq_zero ?_
  rw [length_block]
  exact Nat.mul_eq_zero.mpr h

theorem drawn_of_drawable (h : Drawable img overlay left top) :
    drawnLines img overlay (held left) (held top) =
      some (overlap (rowMajor overlay.width) img.plane left top overlay.width overlay.height) := by
  unfold Drawable at h
  dsimp only at h
  split_ifs at h with hsome
  · obtain ⟨hleft, htop, hint⟩ := h
    have hcols := delta_of_holds hleft overlay.width_lt
    have hrows := delta_of_holds htop overlay.height_lt
    have hx := held_lt left
    rw [held_of_holds hleft] at hx ⊢
    rw [held_of_holds htop, drawnLines_eq hx (.inr (by rw [hrows, hcols]; exact hint)), hcols, hrows, overlap_eq_block,
      show (-left).toNat = 0 by have := hleft.1; omega, show (-top).toNat = 0 by have := htop.1; omega]
    rfl
  · have hnone : shown img.height top overlay.height = 0 ∨ shown img.width left overlay.width = 0 := by omega
    rw [overlap_of_none _ img.plane hnone]
    rcases h with hrows | ⟨hcols, hint⟩
    · rw [drawnLines_eq (held_lt left) (.inl hrows), block_of_none _ _ _ _ _ _ (.inl hrows)]
    · rw [drawnLines_eq (held_lt left) (.inr (by rw [hcols]; exact hint)), block_of_none _ _ _ _ _ _ (.inr hcols)]

theorem delta_le_shown {screen size : ℕ} {corner : ℤ} (hcorner : corner = held corner) :
    delta size screen (held corner) ≤ shown screen corner size := by
  unfold delta shown
  omega

theorem holds_of_delta {screen size : ℕ} {corner : ℤ} (hcorner : corner = held corner)
    (hdelta : delta size screen (held corner) = shown screen corner size) (hsize : size < 2 ^ 16)
    (hsome : 0 < shown screen corner size) : Holds screen corner size := by
  have hlow := held_lt corner
  unfold delta at hdelta
  unfold shown at hdelta hsome
  refine ⟨by omega, by omega, ?_⟩
  omega

/-- Where a pixel is drawn the first one of the cursor is, so the corner is where it should be. -/
theorem corner_of_drawn {x y cols rows : ℕ} (hcols : 0 < cols) (hrows : 0 < rows) (hx : x < img.width)
    (hperm : (block (rowMajor overlay.width) img.plane.stride x y 0 0 cols rows).Perm
      (overlap (rowMajor overlay.width) img.plane left top overlay.width overlay.height)) : left = x ∧ top = y := by
  have hfirst : ((y * img.plane.stride + x, 0) : Pair) ∈
      block (rowMajor overlay.width) img.plane.stride x y 0 0 cols rows := by
    refine List.mem_flatMap.mpr ⟨0, List.mem_range.mpr hrows, List.mem_map.mpr ⟨0, List.mem_range.mpr hcols, ?_⟩⟩
    simp [rowMajor]
  obtain ⟨j, hj, i, hi, hrow, hcol, hd, hs⟩ := mem_overlap.mp (hperm.mem_iff.mp hfirst)
  obtain ⟨rfl, rfl⟩ := address_inj (show x < img.plane.width from hx) hi hd
  have hzero := Nat.add_eq_zero_iff.mp hs.symm
  have hline := (Nat.mul_eq_zero.mp hzero.1).resolve_right (by omega)
  omega

theorem drawable_of_drawn (hpairs : drawnLines img overlay (held left) (held top) = some pairs)
    (hperm : pairs.Perm (overlap (rowMajor overlay.width) img.plane left top overlay.width overlay.height)) :
    Drawable img overlay left top := by
  obtain ⟨rfl, hint⟩ := drawnLines_some (held_lt left) hpairs
  have hlength := hperm.length_eq
  rw [length_block, length_overlap] at hlength
  unfold Drawable
  dsimp only
  split_ifs with hsome
  · have hpositive : 0 < delta overlay.height img.height (held top) * delta overlay.width img.width (held left) := by
      rw [hlength]
      exact Nat.mul_pos hsome.2 hsome.1
    have hrows := Nat.pos_of_mul_pos_right hpositive
    have hcols := Nat.pos_of_mul_pos_left hpositive
    have hinside : held left < img.width := by
      unfold delta at hcols
      omega
    obtain ⟨hx, hy⟩ := corner_of_drawn hcols hrows hinside hperm
    have hcolsLe := @delta_le_shown img.width overlay.width left hx
    have hrowsLe := @delta_le_shown img.height overlay.height top hy
    have hplane : shown img.plane.height top overlay.height * shown img.plane.width left overlay.width =
        shown img.height top overlay.height * shown img.width left overlay.width := rfl
    rw [hplane] at hlength
    -- as many pixels in all, and in neither direction more
    have hsameRows : delta overlay.height img.height (held top) = shown img.height top overlay.height := by
      by_contra hne
      have hless := Nat.mul_lt_mul_of_lt_of_le (lt_of_le_of_ne hrowsLe hne) hcolsLe hsome.1
      omega
    have hsameCols : delta overlay.width img.width (held left) = shown img.width left overlay.width := by
      by_contra hne
      have hless := Nat.mul_lt_mul_of_le_of_lt hrowsLe (lt_of_le_of_ne hcolsLe hne) hsome.2
      omega
    refine ⟨holds_of_delta hx hsameCols overlay.width_lt hsome.1, holds_of_delta hy hsameRows overlay.height_lt hsome.2, ?_⟩
    have hlast := hint _ (Nat.sub_one_lt (Nat.pos_iff_ne_zero.mp hrows))
    rwa [hsameRows, hsameCols] at hlast
  · have hzero : delta overlay.height img.height (held top) * delta overlay.width img.width (held left) = 0 := by
      rw [hlength]
      refine Nat.mul_eq_zero.mpr ?_
      have hplane : shown img.plane.width left overlay.width = shown img.width left overlay.width ∧
          shown img.plane.height top overlay.height = shown img.height top overlay.height := ⟨rfl, rfl⟩
      omega
    by_cases hrows : delta overlay.height img.height (held top) = 0
    · exact .inl hrows
    · have hcols := (Nat.mul_eq_zero.mp hzero).resolve_left hrows
      have hlast := hint _ (Nat.sub_one_lt hrows)
      rw [hcols] at hlast
      exact .inr ⟨hcols, hlast⟩

end Drawing

/-- Exactly the overlap is drawn if the corner with its 16 bits lies in the image, or if nothing is to be drawn and
nothing is. -/
theorem x11_cursor_shown_iff (img : Img) (overlay : Overlay) (offsetX offsetY : ℤ) :
    ShownRight img overlay offsetX offsetY ↔
      IsInt32 ((overlay.x - overlay.xhot).bmod (2 ^ 16) - offsetX) ∧
        IsInt32 ((overlay.y - overlay.yhot).bmod (2 ^ 16) - offsetY) ∧
          Drawable img overlay (overlay.x - overlay.xhot - offsetX) (overlay.y - overlay.yhot - offsetY) := by
  have hblended : blended img overlay offsetX offsetY =
      if IsInt32 ((overlay.x - overlay.xhot).bmod (2 ^ 16) - offsetX) ∧
          IsInt32 ((overlay.y - overlay.yhot).bmod (2 ^ 16) - offsetY) then
        drawnLines img overlay (held (overlay.x - overlay.xhot - offsetX)) (held (overlay.y - overlay.yhot - offsetY))
      else none := by
    unfold blended
    rw [place_eq, place_eq]
    by_cases hx : IsInt32 ((overlay.x - overlay.xhot).bmod (2 ^ 16) - offsetX)
    · by_cases hy : IsInt32 ((overlay.y - overlay.yhot).bmod (2 ^ 16) - offsetY)
      · rw [if_pos hx, if_pos hy, if_pos ⟨hx, hy⟩]
        rfl
      · rw [if_pos hx, if_neg hy, if_neg (fun h => hy h.2)]
        rfl
    · have hneither : ¬(IsInt32 ((overlay.x - overlay.xhot).bmod (2 ^ 16) - offsetX) ∧
          IsInt32 ((overlay.y - overlay.yhot).bmod (2 ^ 16) - offsetY)) := fun h => hx h.1
      rw [if_neg hx, if_neg hneither]
      rfl
  constructor
  · rintro ⟨pairs, hpairs, hperm, -⟩
    rw [hblended] at hpairs
    split_ifs at hpairs with hint
    exact ⟨hint.1, hint.2, drawable_of_drawn hpairs hperm⟩
  · rintro ⟨hx, hy, hdrawable⟩
    rw [if_pos ⟨hx, hy⟩, drawn_of_drawable hdrawable] at hblended
    refine ⟨_, hblended, List.Perm.refl _, fun pixels data => ⟨_, ?_, shows_draw (List.Perm.refl _) pixels data⟩⟩
    rw [blendCursor, hblended, Option.map_some]

/-- A line of two pixels whose hot spot is the second one, over the first pixel of the display. -/
def arrow : Overlay where
  x := 0
  y := 0
  xhot := 1
  yhot := 0
  width := 2
  height := 1
  width_lt := by decide
  height_lt := one_lt_short

/-- The cursor is drawn one pixel to the right of its place. -/
theorem arrow_shifted : ¬∀ (img : Img) (overlay : Overlay) (offsetX offsetY : ℤ),
    IsInt32 ((overlay.x - overlay.xhot).bmod (2 ^ 16) - offsetX) →
      IsInt32 ((overlay.y - overlay.yhot).bmod (2 ^ 16) - offsetY) → ShownRight img overlay offsetX offsetY := by
  intro h
  obtain ⟨pairs, hpairs, hperm, -⟩ := h twoPixels arrow 0 0 (by decide) (by decide)
  have hdrawn : blended twoPixels arrow 0 0 = some [(0, 0), (1, 1)] := by decide
  rw [hdrawn] at hpairs
  obtain rfl := Option.some.inj hpairs
  exact absurd hperm.length_eq (by decide)

end Sunshine.X11Cursor
