import Sunshine.Platform.CursorPixels

/-! The cursor that the KMS capture draws into a frame (`blend_cursor` of `kmsgrab.cpp`). `kms_cursor_shown_iff` says for which
sizes and positions exactly the overlap of cursor and image is drawn. -/
namespace Sunshine.KmsCursor
open Overlaps CursorPixels
set_option autoImplicit false

/-- The position and the size of the source; its properties are fixed-point numbers with sixteen bits in front of the
point. There are four bytes for each pixel. -/
structure Cursor where
  x : ℤ
  y : ℤ
  srcW : ℕ
  srcH : ℕ
  srcW_lt : srcW < 2 ^ 16
  srcH_lt : srcH < 2 ^ 16

/-- Where drawing begins in the image, how much of the cursor is left out in front, and how much is drawn: `cursor_x`,
`cursor_delta_x` and `delta_width`, and the same for the lines. -/
structure Axis where
  cursor : ℕ
  skipped : ℕ
  count : ℕ

/-- The last difference is one of unsigned numbers. -/
def clip (screen : ℕ) (position : ℤ) (src : ℕ) : Axis :=
  let cursor := max 0 position
  let delta := cursor - max (-(src : ℤ)) position
  { cursor := cursor.toNat
    skipped := delta.toNat
    count := ((min (src : ℤ) (max 0 (screen - cursor)) - delta) % 2 ^ 32).toNat }

/-- A line of the loop: from `cursor_begin` to `cursor_end`, whose offsets in bytes are `uint32_t`. It never ends if the
end lies in front. -/
def blendLine (img : Img) (c : Cursor) (columns lines : Axis) (y : ℕ) : Option (List Pair) :=
  let cursorBegin := ((y + lines.skipped) * c.srcW + columns.skipped) * 4 % 2 ^ 32 / 4
  let cursorEnd := ((y + lines.skipped) * c.srcW + columns.count + columns.skipped) * 4 % 2 ^ 32 / 4
  if cursorEnd < cursorBegin then none
  else
    let pairs := (List.range (cursorEnd - cursorBegin)).map fun a =>
      ((y + lines.cursor) * (img.rowPitch / img.pixelPitch) + (columns.cursor + a), cursorBegin + a)
    if ∀ pair ∈ pairs, pair.1 < img.height * (img.rowPitch / img.pixelPitch) ∧ pair.2 < c.srcW * c.srcH then some pairs
    else none

/-- The pixels that are blended, unless an `int` overflows or an access is out of bounds. The line's number is an `int`
too. -/
def blended (img : Img) (c : Cursor) (offsetX offsetY : ℤ) : Option (List Pair) :=
  if IsInt32 (c.x - offsetX) ∧ IsInt32 (c.y - offsetY) then
    let columns := clip img.width (c.x - offsetX) c.srcW
    let lines := clip img.height (c.y - offsetY) c.srcH
    if lines.count < 2 ^ 31 then collect (blendLine img c columns lines) lines.count else none
  else none

def blendCursor (img : Img) (c : Cursor) (offsetX offsetY : ℤ) (pixels data : ℕ → Pixel) : Option (ℕ → Pixel) :=
  (blended img c offsetX offsetY).map fun pairs => draw blend pixels pairs data

/-! ## What the clipping gives -/

/-- The cursor does not hang over the left or upper edge, or it is no larger than the image. -/
def Clear (screen : ℕ) (position : ℤ) (src : ℕ) : Prop := 0 ≤ position ∨ src ≤ screen

section Clipping
variable {screen : ℕ} {position : ℤ} {src : ℕ}

theorem clip_cursor : (clip screen position src).cursor = position.toNat := by
  unfold clip
  dsimp only
  omega

theorem clip_skipped : (clip screen position src).skipped = min src (-position).toNat := by
  unfold clip
  dsimp only
  omega

theorem clip_count_clear (h : Clear screen position src) (hsrc : src < 2 ^ 16) :
    (clip screen position src).count = shown screen position src := by
  unfold Clear at h
  unfold clip shown
  dsimp only
  omega

/-- Too little is drawn of a cursor that is larger than the image and hangs over its edge. -/
theorem clip_count_inside (h : ¬Clear screen position src) (hinside : -position ≤ screen) (hsrc : src < 2 ^ 16) :
    (clip screen position src).count = screen - (-position).toNat ∧
      (clip screen position src).count < shown screen position src := by
  unfold Clear at h
  unfold clip shown
  dsimp only
  omega

theorem clip_count_wrapped (h : ¬Clear screen position src) (houtside : (screen : ℤ) < -position)
    (hsrc : src < 2 ^ 16) :
    (clip screen position src).count + (clip screen position src).skipped = 2 ^ 32 + screen ∧
      screen < (clip screen position src).skipped ∧ (clip screen position src).skipped < 2 ^ 16 := by
  unfold Clear at h
  unfold clip
  dsimp only
  omega

theorem skipped_of_shown (h : 0 < shown screen position src) :
    (clip screen position src).skipped = (-position).toNat := by
  rw [clip_skipped]
  unfold shown at h
  omega

end Clipping

/-! ## Lines -/

section Lines
variable {img : Img} {c : Cursor} {columns lines : Axis} {y : ℕ} {part : List Pair}

theorem blendLine_some (h : blendLine img c columns lines y = some part) :
    ((y + lines.skipped) * c.srcW + columns.skipped) % 2 ^ 30 + part.length =
        ((y + lines.skipped) * c.srcW + columns.count + columns.skipped) % 2 ^ 30 ∧
      ∀ pair ∈ part, pair.2 + 1 < 2 ^ 30 := by
  unfold blendLine at h
  dsimp only at h
  split_ifs at h with horder hbounds
  obtain rfl := Option.some.inj h
  rw [List.length_map, List.length_range]
  refine ⟨by omega, fun pair hpair => ?_⟩
  obtain ⟨a, ha, rfl⟩ := List.mem_map.mp hpair
  have ha := List.mem_range.mp ha
  dsimp only
  omega

theorem length_blendLine (h : blendLine img c columns lines y = some part) : part.length ≤ columns.count := by
  have hlength := (blendLine_some h).1
  generalize (y + lines.skipped) * c.srcW = start at hlength
  omega

/-- A count that wrapped takes nearly all there is room for. -/
theorem length_blendLine_wrapped {screen : ℕ} (h : blendLine img c columns lines y = some part)
    (hcount : columns.count + columns.skipped = 2 ^ 32 + screen) (hskipped : screen < columns.skipped)
    (hlow : columns.skipped < 2 ^ 16) : 2 ^ 29 ≤ part.length := by
  have hlength := (blendLine_some h).1
  generalize (y + lines.skipped) * c.srcW = start at hlength
  omega

/-- With offsets that do not wrap a line of the block is drawn. -/
theorem blendLine_eq (hfits : (y + lines.skipped) * c.srcW + columns.skipped + columns.count < 2 ^ 30)
    (hbounds : ∀ pair ∈ line (rowMajor c.srcW) img.plane.stride columns.cursor lines.cursor columns.skipped lines.skipped
      columns.count y, pair.1 < img.height * img.plane.stride ∧ pair.2 < c.srcW * c.srcH) :
    blendLine img c columns lines y = some (line (rowMajor c.srcW) img.plane.stride columns.cursor lines.cursor columns.skipped
      lines.skipped columns.count y) := by
  have hbegin : ((y + lines.skipped) * c.srcW + columns.skipped) * 4 % 2 ^ 32 / 4 =
      (lines.skipped + y) * c.srcW + columns.skipped := by
    rw [Nat.add_comm lines.skipped y]
    omega
  have hend : ((y + lines.skipped) * c.srcW + columns.count + columns.skipped) * 4 % 2 ^ 32 / 4 =
      (lines.skipped + y) * c.srcW + columns.skipped + columns.count := by
    rw [Nat.add_comm lines.skipped y]
    omega
  unfold blendLine
  dsimp only
  rw [hbegin, hend, if_neg (by omega), Nat.add_sub_cancel_left, Nat.add_comm y lines.cursor]
  simp only [line, rowMajor, Nat.add_assoc] at hbounds ⊢
  exact if_pos hbounds

end Lines

/-! ## When exactly the overlap is drawn -/

/-- The accesses are those of the overlap, each once, and the image shows the cursor, whatever its pixels are. -/
def ShownRight (img : Img) (c : Cursor) (offsetX offsetY : ℤ) : Prop :=
  ∃ pairs, blended img c offsetX offsetY = some pairs ∧
    pairs.Perm (overlap (rowMajor c.srcW) img.plane (c.x - offsetX) (c.y - offsetY) c.srcW c.srcH) ∧
    ∀ pixels data, ∃ after, blendCursor img c offsetX offsetY pixels data = some after ∧
      Shows img.plane (c.x - offsetX) (c.y - offsetY) c.srcW c.srcH pixels data after

theorem shownRight_iff_perm (img : Img) (c : Cursor) (offsetX offsetY : ℤ) :
    ShownRight img c offsetX offsetY ↔ ∃ pairs, blended img c offsetX offsetY = some pairs ∧
      pairs.Perm (overlap (rowMajor c.srcW) img.plane (c.x - offsetX) (c.y - offsetY) c.srcW c.srcH) := by
  constructor
  · rintro ⟨pairs, hpairs, hperm, -⟩
    exact ⟨pairs, hpairs, hperm⟩
  · rintro ⟨pairs, hpairs, hperm⟩
    refine ⟨pairs, hpairs, hperm, fun pixels data => ⟨draw blend pixels pairs data, ?_, shows_draw hperm pixels data⟩⟩
    rw [blendCursor, hpairs, Option.map_some]

/-- The offsets of the last pixel that is to be drawn do not wrap. -/
def OffsetsFit (img : Img) (c : Cursor) (left top : ℤ) : Prop :=
  ((-top).toNat + shown img.height top c.srcH - 1) * c.srcW + (-left).toNat + shown img.width left c.srcW < 2 ^ 30

/-- For the corner that the cursor has in the image. -/
def Drawable (img : Img) (c : Cursor) (left top : ℤ) : Prop :=
  (Clear img.height top c.srcH ∧ (shown img.height top c.srcH = 0 ∨
      Clear img.width left c.srcW ∧ (shown img.width left c.srcW = 0 ∨ OffsetsFit img c left top))) ∨
    (¬Clear img.height top c.srcH ∧ shown img.width left c.srcW = 0 ∧ -top ≤ img.height ∧
      (Clear img.width left c.srcW ∨ -top = img.height))

section Drawing
variable {img : Img} {c : Cursor} {left top : ℤ} {pairs : List Pair}

theorem overlap_small (img : Img) (left top : ℤ) (w h : ℕ) : (overlap (rowMajor w) img.plane left top w h).length < 2 ^ 29 := by
  rw [length_overlap]
  refine lt_of_le_of_lt (Nat.mul_le_mul (shown_le _ _ _) ?_) img.room
  exact (shown_le _ _ _).trans img.plane.inside

/-- The lines that are drawn. -/
abbrev drawnLines (img : Img) (c : Cursor) (left top : ℤ) : Option (List Pair) :=
  collect (blendLine img c (clip img.width left c.srcW) (clip img.height top c.srcH)) (clip img.height top c.srcH).count

theorem collect_nothing {columns lines : Axis} (hcount : columns.count = 0) (rows : ℕ) :
    collect (blendLine img c columns lines) rows = some [] := by
  have hline : ∀ b < rows, blendLine img c columns lines b = some ((fun _ => []) b) := by
    intro b _
    unfold blendLine
    rw [hcount, Nat.add_zero]
    dsimp only
    rw [if_neg (lt_irrefl _), Nat.sub_self, List.range_zero, List.map_nil, if_pos (by simp)]
  rw [collect_eq hline, List.flatMap_eq_nil_iff.mpr fun _ _ => rfl]

theorem drawn_of_drawable (h : Drawable img c left top) :
    (clip img.height top c.srcH).count < 2 ^ 31 ∧
      drawnLines img c left top = some (overlap (rowMajor c.srcW) img.plane left top c.srcW c.srcH) := by
  have hheight := img.height_lt
  have hsmall := shown_le img.height top c.srcH
  unfold drawnLines
  rcases h with ⟨hclear, hrows⟩ | ⟨hclear, hcols, hinside, hempty⟩
  · rw [clip_count_clear hclear c.srcH_lt]
    refine ⟨by omega, ?_⟩
    rcases hrows with hrows | ⟨hclearX, hcols⟩
    · rw [hrows, overlap_of_none _ img.plane (.inl hrows)]
      rfl
    · by_cases hnone : shown img.height top c.srcH = 0 ∨ shown img.width left c.srcW = 0
      · rw [overlap_of_none _ img.plane hnone]
        cases hnone with
        | inl hrows =>
          rw [hrows]
          rfl
        | inr hzero => exact collect_nothing ((clip_count_clear hclearX c.srcW_lt).trans hzero) _
      · rw [not_or] at hnone
        have hfits : OffsetsFit img c left top := hcols.resolve_left hnone.2
        unfold OffsetsFit at hfits
        rw [overlap_eq_block, block]
        refine collect_eq fun y hy => ?_
        have hline := @blendLine_eq img c (clip img.width left c.srcW) (clip img.height top c.srcH) y
        rw [clip_cursor, clip_cursor, skipped_of_shown (Nat.pos_of_ne_zero hnone.1),
          skipped_of_shown (Nat.pos_of_ne_zero hnone.2), clip_count_clear hclearX c.srcW_lt] at hline
        refine hline ?_ fun pair hpair => ?_
        · have hrow : (y + (-top).toNat) * c.srcW ≤ ((-top).toNat + shown img.height top c.srcH - 1) * c.srcW :=
            Nat.mul_le_mul_right _ (by omega)
          omega
        · have hmem : pair ∈ overlap (rowMajor c.srcW) img.plane left top c.srcW c.srcH := by
            rw [overlap_eq_block, block]
            exact List.mem_flatMap.mpr ⟨y, List.mem_range.mpr hy, hpair⟩
          exact overlap_bounds hmem
  · have hcount := (clip_count_inside hclear hinside c.srcH_lt).1
    rw [overlap_of_none _ img.plane (.inr hcols)]
    refine ⟨by omega, ?_⟩
    rcases hempty with hclearX | hedge
    · exact collect_nothing ((clip_count_clear hclearX c.srcW_lt).trans hcols) _
    · rw [hcount, show img.height - (-top).toNat = 0 by omega]
      rfl

/-- A cursor that is larger than the image and hangs over its left edge leaves too little in each line. -/
theorem lines_short (hclear : ¬Clear img.width left c.srcW) (hcount : 0 < (clip img.height top c.srcH).count)
    (hpairs : drawnLines img c left top = some pairs) (hsmall : pairs.length < 2 ^ 29) :
    ∃ m < shown img.width left c.srcW, pairs.length ≤ (clip img.height top c.srcH).count * m := by
  by_cases hinside : -left ≤ img.width
  · obtain ⟨-, hless⟩ := clip_count_inside hclear hinside c.srcW_lt
    exact ⟨_, hless, length_collect hpairs fun _ _ _ hpart => length_blendLine hpart⟩
  · obtain ⟨hsum, hskipped, hlow⟩ := clip_count_wrapped hclear (by omega) c.srcW_lt
    obtain ⟨part, hpart, hle⟩ := row_of_collect hpairs hcount
    have hlong := length_blendLine_wrapped hpart hsum hskipped hlow
    omega

theorem offsetsFit_of_drawn (hpairs : drawnLines img c left top = some pairs)
    (hperm : pairs.Perm (overlap (rowMajor c.srcW) img.plane left top c.srcW c.srcH)) (hrows : shown img.height top c.srcH ≠ 0)
    (hcols : shown img.width left c.srcW ≠ 0) : OffsetsFit img c left top := by
  -- the last pixel of the overlap is read at an offset that does not wrap
  have hlast : (((top.toNat + (shown img.height top c.srcH - 1)) * img.plane.stride +
      (left.toNat + (shown img.width left c.srcW - 1)),
      ((-top).toNat + (shown img.height top c.srcH - 1)) * c.srcW + ((-left).toNat + (shown img.width left c.srcW - 1)))
      : Pair) ∈ overlap (rowMajor c.srcW) img.plane left top c.srcW c.srcH := by
    rw [overlap_eq_block, block]
    refine List.mem_flatMap.mpr ⟨_, List.mem_range.mpr (Nat.sub_one_lt hrows), ?_⟩
    exact List.mem_map.mpr ⟨_, List.mem_range.mpr (Nat.sub_one_lt hcols), rfl⟩
  obtain ⟨y, -, part, hpart, hmem⟩ := mem_collect hpairs (hperm.mem_iff.mpr hlast)
  have hoffset := (blendLine_some hpart).2 _ hmem
  unfold OffsetsFit
  rw [Nat.add_sub_assoc (Nat.one_le_iff_ne_zero.mpr hrows)]
  dsimp only at hoffset
  omega

theorem drawable_of_drawn (hpairs : drawnLines img c left top = some pairs)
    (hcount : (clip img.height top c.srcH).count < 2 ^ 31)
    (hperm : pairs.Perm (overlap (rowMajor c.srcW) img.plane left top c.srcW c.srcH)) : Drawable img c left top := by
  have hlength : pairs.length = shown img.height top c.srcH * shown img.width left c.srcW := by
    rw [hperm.length_eq, length_overlap]
    rfl
  have hsmall : pairs.length < 2 ^ 29 := hperm.length_eq ▸ overlap_small img left top c.srcW c.srcH
  by_cases hclear : Clear img.height top c.srcH
  · refine .inl ⟨hclear, ?_⟩
    have hlines := clip_count_clear hclear c.srcH_lt
    by_cases hrows : shown img.height top c.srcH = 0
    · exact .inl hrows
    · have hclearX : Clear img.width left c.srcW := by
        by_contra hclearX
        obtain ⟨m, hm, hshort⟩ := lines_short hclearX (by omega) hpairs hsmall
        rw [hlines, hlength] at hshort
        exact absurd (Nat.le_of_mul_le_mul_left hshort (Nat.pos_of_ne_zero hrows)) (Nat.not_le.mpr hm)
      by_cases hcols : shown img.width left c.srcW = 0
      · exact .inr ⟨hclearX, .inl hcols⟩
      · exact .inr ⟨hclearX, .inr (offsetsFit_of_drawn hpairs hperm hrows hcols)⟩
  · have hinside : -top ≤ img.height := by
      by_contra houtside
      obtain ⟨hsum, -, hlow⟩ := clip_count_wrapped hclear (by omega) c.srcH_lt
      omega
    obtain ⟨hlines, hless⟩ := clip_count_inside hclear hinside c.srcH_lt
    have habove : top < 0 := not_le.mp fun h => hclear (.inl h)
    have hnone : shown img.width left c.srcW = 0 ∧ (Clear img.width left c.srcW ∨ -top = img.height) := by
      by_cases hclearX : Clear img.width left c.srcW
      · refine ⟨?_, .inl hclearX⟩
        -- whole lines are missing
        by_contra hcols
        have hshort : pairs.length ≤ (clip img.height top c.srcH).count * shown img.width left c.srcW := by
          rw [← clip_count_clear hclearX c.srcW_lt]
          exact length_collect hpairs fun _ _ _ hpart => length_blendLine hpart
        rw [hlength] at hshort
        exact absurd (Nat.le_of_mul_le_mul_right hshort (Nat.pos_of_ne_zero hcols)) (Nat.not_le.mpr hless)
      · by_cases hnothing : (clip img.height top c.srcH).count = 0
        · have hzero : shown img.height top c.srcH * shown img.width left c.srcW = 0 := by
            rw [← hlength]
            refine Nat.le_zero.mp ((length_collect hpairs fun _ _ _ hpart => length_blendLine hpart).trans ?_)
            rw [hnothing, Nat.zero_mul]
          exact ⟨(Nat.mul_eq_zero.mp hzero).resolve_left (by omega), .inr (by omega)⟩
        · obtain ⟨m, hm, hshort⟩ := lines_short hclearX (Nat.pos_of_ne_zero hnothing) hpairs hsmall
          rw [hlength] at hshort
          have hproduct := Nat.mul_lt_mul_of_lt_of_le hless hm.le (Nat.zero_lt_of_lt hm)
          omega
    exact .inr ⟨hclear, hnone.1, hinside, hnone.2⟩

end Drawing

/-- Exactly the overlap is drawn if the position fits and the cursor does not hang over an edge that it is too large
for, unless nothing is to be drawn and nothing is. -/
theorem kms_cursor_shown_iff (img : Img) (c : Cursor) (offsetX offsetY : ℤ) :
    ShownRight img c offsetX offsetY ↔
      IsInt32 (c.x - offsetX) ∧ IsInt32 (c.y - offsetY) ∧ Drawable img c (c.x - offsetX) (c.y - offsetY) := by
  rw [shownRight_iff_perm]
  unfold blended
  dsimp only
  constructor
  · rintro ⟨pairs, hpairs, hperm⟩
    split_ifs at hpairs with hint hcount
    exact ⟨hint.1, hint.2, drawable_of_drawn hpairs hcount hperm⟩
  · rintro ⟨hx, hy, hdrawable⟩
    obtain ⟨hcount, hdrawn⟩ := drawn_of_drawable hdrawable
    rw [if_pos ⟨hx, hy⟩, if_pos hcount]
    exact ⟨_, hdrawn, List.Perm.refl _⟩

/-- A line of four pixels that begins one pixel to the left. -/
def wideCursor : Cursor where
  x := -1
  y := 0
  srcW := 4
  srcH := 1
  srcW_lt := by decide
  srcH_lt := one_lt_short

/-- One of the two pixels under the cursor is left as it was. -/
theorem wide_cursor_cut : ¬∀ (img : Img) (c : Cursor) (offsetX offsetY : ℤ),
    IsInt32 (c.x - offsetX) → IsInt32 (c.y - offsetY) → ShownRight img c offsetX offsetY := by
  intro h
  obtain ⟨pairs, hpairs, hperm, -⟩ := h twoPixels wideCursor 0 0 (by decide) (by decide)
  have hdrawn : blended twoPixels wideCursor 0 0 = some [(0, 1)] := by decide
  rw [hdrawn] at hpairs
  obtain rfl := Option.some.inj hpairs
  exact absurd hperm.length_eq (by decide)

end Sunshine.KmsCursor
