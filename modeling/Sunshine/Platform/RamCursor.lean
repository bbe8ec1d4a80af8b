import Sunshine.Platform.CursorPixels

/-! The cursor that the capture into memory draws into a frame on Windows (`blend_cursor` of `display_ram.cpp`).
`ram_cursor_shown_iff` says for which shapes, sizes and positions exactly the overlap of cursor and image is drawn. -/
namespace Sunshine.RamCursor
open Overlaps CursorPixels
set_option autoImplicit false

/-- `DXGI_OUTDUPL_POINTER_SHAPE_TYPE`. -/
inductive ShapeType where
  | monochrome
  | color
  | maskedColor
  deriving DecidableEq

/-- The bytes that a line of the shape needs. -/
def ShapeType.lineBytes : ShapeType → ℕ → ℕ
  | .monochrome, width => (width + 7) / 8
  | _, width => 4 * width

/-- `cursor_t` with its `shape_info`, whose numbers the code keeps as `int`; `img_data` has `pitch * height` bytes, as many
as fit the `UINT` for its size. -/
structure Cursor where
  type : ShapeType
  width : ℕ
  height : ℕ
  pitch : ℕ
  x : ℤ
  y : ℤ
  line : type.lineBytes width ≤ pitch
  bytes : pitch * height < 2 ^ 32
  width_lt : width < 2 ^ 31
  height_lt : height < 2 ^ 31
  pitch_lt : pitch < 2 ^ 31
  x_int : IsInt32 x
  y_int : IsInt32 y

/-- A monochrome shape has two planes, one below the other. -/
def Cursor.lines (c : Cursor) : ℕ :=
  match c.type with
  | .monochrome => c.height / 2
  | _ => c.height

/-- Where a pixel of the shape is kept: the first of its four bytes, or its byte in both planes and the bit in these. -/
inductive Source where
  | pixel (offset : ℕ)
  | masks (andMask xorMask bit : ℕ)
  deriving DecidableEq

def Cursor.source (c : Cursor) (row col : ℕ) : Source :=
  match c.type with
  | .monochrome => .masks (row * c.pitch + col / 8) ((row + c.height / 2) * c.pitch + col / 8) (col % 8)
  | _ => .pixel (row * c.pitch + 4 * col)

def Cursor.Holds (c : Cursor) : Source → Prop
  | .pixel offset => offset + 4 ≤ c.pitch * c.height
  | .masks andMask xorMask _ => andMask < c.pitch * c.height ∧ xorMask < c.pitch * c.height

instance (c : Cursor) (source : Source) : Decidable (c.Holds source) := by
  cases source <;> unfold Cursor.Holds <;> infer_instance

abbrev Access := ℕ × Source

/-! ## What is done with a pixel -/

def xorPixel (pixel mask : Pixel) : Pixel :=
  { colour := fun k => pixel.colour k ^^^ mask.colour k, alpha := pixel.alpha ^^^ mask.alpha }

def andPixel (pixel mask : Pixel) : Pixel :=
  { colour := fun k => pixel.colour k &&& mask.colour k, alpha := pixel.alpha &&& mask.alpha }

def pixelAt (imgData : ℕ → UInt8) (offset : ℕ) : Pixel :=
  { colour := fun k => imgData (offset + k), alpha := imgData (offset + 3) }

/-- The bits of a byte are counted from the left. -/
def bitAt (imgData : ℕ → UInt8) (byte bit : ℕ) : Bool := (imgData byte).toNat.testBit (7 - bit)

/-- `-1` or `0`. -/
def maskOf (bit : Bool) : Pixel :=
  if bit then { colour := fun _ => 255, alpha := 255 } else { colour := fun _ => 0, alpha := 0 }

/-- `apply_color_masked`. -/
def applyColorMasked (pixel cursorPixel : Pixel) : Pixel :=
  if cursorPixel.alpha = 0xFF then xorPixel pixel cursorPixel else cursorPixel

/-- `apply_color_alpha` is the blend of the other platforms. -/
def applied (masked : Bool) (imgData : ℕ → UInt8) : Source → Pixel → Pixel
  | .pixel offset, pixel =>
    if masked then applyColorMasked pixel (pixelAt imgData offset) else blend (pixelAt imgData offset) pixel
  | .masks andMask xorMask bit, pixel =>
    xorPixel (andPixel pixel (maskOf (bitAt imgData andMask bit))) (maskOf (bitAt imgData xorMask bit))

/-! ## Which pixels are drawn -/

/-- `cursor_skip_x`, `cursor_width`, `img_skip_x` and `delta_width`, and the same for the lines. -/
structure Axis where
  cursorSkip : ℕ
  kept : ℤ
  imgSkip : ℕ
  delta : ℤ

/-- Nothing if an `int` overflows. -/
def clip (screen len : ℕ) (position : ℤ) : Option Axis :=
  let cursorSkip := -min 0 position
  let truncate := max 0 (position - screen)
  let kept := len - cursorSkip - truncate
  let imgSkip := max 0 position
  if IsInt32 cursorSkip ∧ IsInt32 (position - screen) ∧ IsInt32 kept ∧ IsInt32 (kept - truncate) then
    some
      { cursorSkip := cursorSkip.toNat
        kept := kept
        imgSkip := imgSkip.toNat
        delta := min (kept - truncate) (max 0 (screen - imgSkip)) }
  else none

/-- Nothing if an access is out of bounds. -/
def checked (img : Img) (c : Cursor) (part : List Access) : Option (List Access) :=
  if ∀ access ∈ part, access.1 < img.height * (img.rowPitch / img.pixelPitch) ∧ c.Holds access.2 then some part
  else none

/-- A line of `blend_cursor_color`. The number of its first pixel is unsigned; the loop from `cursor_begin` to `cursor_end`
does not end if the end lies in front. -/
def colorLine (img : Img) (c : Cursor) (columns lines : Axis) (i : ℕ) : Option (List Access) :=
  let cursorBegin := lines.cursorSkip * c.pitch + 4 * ((i * c.width + columns.cursorSkip) % 2 ^ 32)
  if columns.delta < 0 then none
  else
    checked img c ((List.range columns.delta.toNat).map fun a =>
      ((i + lines.imgSkip) * (img.rowPitch / img.pixelPitch) + columns.imgSkip + a, .pixel (cursorBegin + 4 * a)))

def blendedColor (img : Img) (c : Cursor) : Option (List Access) := do
  let columns ← clip img.width c.width c.x
  let lines ← clip img.height c.height c.y
  if lines.kept > c.height ∨ columns.kept > c.width then some []
  else if lines.cursorSkip * c.pitch < 2 ^ 31 then collect (colorLine img c columns lines) lines.delta.toNat
  else none

/-- The bits of a line as the two loops over its bytes come to them. -/
def lineBits (bytesPerRow : ℕ) : List (ℕ × ℕ) :=
  (List.range bytesPerRow).flatMap fun x => (List.range 8).map fun bit => (x, bit)

/-- The bits that are drawn: `skip_x` counts down. -/
def unskipped : ℕ → List (ℕ × ℕ) → List (ℕ × ℕ)
  | skip + 1, _ :: bits => unskipped skip bits
  | _, bits => bits

/-- A line of `blend_cursor_monochrome`. -/
def monochromeLine (img : Img) (c : Cursor) (columns lines : Axis) (bytesPerRow i : ℕ) : Option (List Access) :=
  let andMask := lines.cursorSkip * c.pitch + i * c.pitch
  let xorMask := lines.cursorSkip * c.pitch + (i + c.height / 2) * c.pitch
  if (i + c.height / 2) * c.pitch < 2 ^ 31 then
    checked img c ((unskipped columns.cursorSkip (lineBits bytesPerRow)).mapIdx fun a place =>
      ((i + lines.imgSkip) * (img.rowPitch / img.pixelPitch) + columns.imgSkip + a,
        .masks (andMask + place.1) (xorMask + place.1) place.2))
  else none

/-- Nothing if a division is by zero. -/
def blendedMonochrome (img : Img) (c : Cursor) : Option (List Access) := do
  let columns ← clip img.width c.width c.x
  let lines ← clip img.height (c.height / 2) c.y
  if lines.kept > c.height / 2 ∨ columns.kept > c.width then some []
  else if lines.cursorSkip * c.pitch < 2 ^ 31 then
    if c.pitch = 0 ∨ c.width / c.pitch = 0 then none
    else
      let bytesPerRow := columns.delta.tdiv (c.width / c.pitch : ℕ)
      collect (monochromeLine img c columns lines bytesPerRow.toNat) lines.delta.toNat
  else none

/-- The pixels that are drawn. -/
def blended (img : Img) (c : Cursor) : Option (List Access) :=
  match c.type with
  | .monochrome => blendedMonochrome img c
  | _ => blendedColor img c

def blendCursor (img : Img) (c : Cursor) (imgData : ℕ → UInt8) (data : ℕ → Pixel) : Option (ℕ → Pixel) :=
  (blended img c).map fun accesses =>
    draw (fun apply pixel => apply pixel) (applied (c.type == .maskedColor) imgData) accesses data

/-! ## When exactly the overlap is drawn -/

/-- What a pixel of the image is to become under the shape's pixel in a line and column: the colours laid over it, replaced
or inverted, or masked twice. -/
def Meets (c : Cursor) (imgData : ℕ → UInt8) (row col : ℕ) (before now : Pixel) : Prop :=
  now = applied (c.type == .maskedColor) imgData (c.source row col) before ∧
    (c.type = .color → Over (pixelAt imgData (row * c.pitch + 4 * col)) before now)

/-- The accesses are those of the overlap, each once, and the image shows the cursor, whatever its shape's bytes are. -/
def ShownRight (img : Img) (c : Cursor) : Prop :=
  ∃ accesses, blended img c = some accesses ∧
    accesses.Perm (overlap c.source img.plane c.x c.y c.width c.lines) ∧
    ∀ imgData data, ∃ after, blendCursor img c imgData data = some after ∧
      Laid (Meets c imgData) img.plane c.x c.y c.width c.lines data after

/-- No `int` overflows between the position and the size that is left. -/
def InRange (screen len : ℕ) (position : ℤ) : Prop :=
  -2 ^ 31 < position ∧ -2 ^ 31 ≤ position - screen ∧ -2 ^ 31 ≤ len - 2 * (position - screen)

/-- The size that is left is not negative. -/
def Beside (screen len : ℕ) (position : ℤ) : Prop := 0 ≤ position + len ∧ 2 * (position - screen) ≤ len

/-- Lines follow each other without a gap, or there is one only. -/
def ColorFits (img : Img) (c : Cursor) : Prop :=
  shown img.height c.y c.lines = 0 ∨ Beside img.width c.width c.x ∧
    (shown img.width c.x c.width = 0 ∨ shown img.height c.y c.lines = 1 ∨ c.pitch = 4 * c.width)

/-- The whole bytes of a line have as many pixels as are to be drawn. -/
def MonochromeFits (img : Img) (c : Cursor) : Prop :=
  0 < c.pitch ∧ c.pitch ≤ c.width ∧ (shown img.height c.y c.lines = 0 ∨
    8 * (shown img.width c.x c.width / (c.width / c.pitch)) - (-c.x).toNat = shown img.width c.x c.width ∧
      (shown img.height c.y c.lines - 1 + c.lines) * c.pitch < 2 ^ 31)

def Drawable (img : Img) (c : Cursor) : Prop :=
  InRange img.width c.width c.x ∧ InRange img.height c.lines c.y ∧ (-c.y).toNat * c.pitch < 2 ^ 31 ∧
    match c.type with
    | .monochrome => MonochromeFits img c
    | _ => ColorFits img c

theorem meets_applied (c : Cursor) (imgData : ℕ → UInt8) (row col : ℕ) (before : Pixel) :
    Meets c imgData row col before (applied (c.type == .maskedColor) imgData (c.source row col) before) := by
  refine ⟨rfl, fun hcolor => ?_⟩
  have hsource : c.source row col = .pixel (row * c.pitch + 4 * col) := by
    unfold Cursor.source
    rw [hcolor]
  rw [hsource, hcolor]
  exact over_blend _ _

theorem shownRight_iff_perm (img : Img) (c : Cursor) :
    ShownRight img c ↔ ∃ accesses, blended img c = some accesses ∧
      accesses.Perm (overlap c.source img.plane c.x c.y c.width c.lines) := by
  constructor
  · rintro ⟨accesses, hblended, hperm, -⟩
    exact ⟨accesses, hblended, hperm⟩
  · rintro ⟨accesses, hblended, hperm⟩
    refine ⟨accesses, hblended, hperm, fun imgData data =>
      ⟨draw (fun apply pixel => apply pixel) (applied (c.type == .maskedColor) imgData) accesses data, ?_, ?_⟩⟩
    · rw [blendCursor, hblended, Option.map_some]
    · exact laid_draw hperm (meets_applied c imgData)

section Clipping
variable {screen len : ℕ} {position : ℤ} {a : Axis}

/-- What the numbers of an axis are. -/
structure Clipped (screen len : ℕ) (position : ℤ) (a : Axis) : Prop where
  range : InRange screen len position
  cursorSkip : a.cursorSkip = (-position).toNat
  kept : a.kept ≤ len
  imgSkip : a.imgSkip = position.toNat
  delta : a.delta.toNat = shown screen position len
  beside : 0 ≤ a.delta ↔ Beside screen len position

theorem clipped_of_clip (h : clip screen len position = some a) : Clipped screen len position a := by
  unfold clip at h
  dsimp only at h
  split_ifs at h with hint
  obtain rfl := Option.some.inj h
  unfold IsInt32 at hint
  constructor
  · unfold InRange
    omega
  · dsimp only
    omega
  · dsimp only
    omega
  · dsimp only
    omega
  · unfold shown
    dsimp only
    omega
  · unfold Beside
    dsimp only
    omega

theorem exists_clip (h : InRange screen len position) (hint : IsInt32 position) (hscreen : screen < 2 ^ 31)
    (hlen : len < 2 ^ 31) : ∃ a, clip screen len position = some a := by
  unfold InRange at h
  unfold IsInt32 at hint
  unfold clip
  dsimp only
  rw [if_pos]
  · exact ⟨_, rfl⟩
  · unfold IsInt32
    omega

end Clipping

section Bounds
variable {img : Img} {c : Cursor}

theorem Cursor.lines_lt (c : Cursor) : c.lines < 2 ^ 31 := by
  have hheight := c.height_lt
  unfold Cursor.lines
  split <;> omega

theorem source_holds {row col : ℕ} (hrow : row < c.lines) (hcol : col < c.width) : c.Holds (c.source row col) := by
  have hline := c.line
  unfold Cursor.lines at hrow
  unfold Cursor.source Cursor.Holds
  cases htype : c.type with
  | monochrome =>
    rw [htype] at hline hrow
    have hneeded : (c.width + 7) / 8 ≤ c.pitch := hline
    have hlast : (row + c.height / 2 + 1) * c.pitch ≤ c.height * c.pitch :=
      Nat.mul_le_mul_right _ (by dsimp only at hrow; omega)
    have hfirst : row * c.pitch ≤ (row + c.height / 2) * c.pitch := Nat.mul_le_mul_right _ (by omega)
    rw [Nat.succ_mul] at hlast
    rw [Nat.mul_comm c.pitch c.height]
    dsimp only
    omega
  | color =>
    rw [htype] at hline hrow
    have hneeded : 4 * c.width ≤ c.pitch := hline
    have hlast : (row + 1) * c.pitch ≤ c.height * c.pitch := Nat.mul_le_mul_right _ hrow
    rw [Nat.succ_mul] at hlast
    rw [Nat.mul_comm c.pitch c.height]
    dsimp only
    omega
  | maskedColor =>
    rw [htype] at hline hrow
    have hneeded : 4 * c.width ≤ c.pitch := hline
    have hlast : (row + 1) * c.pitch ≤ c.height * c.pitch := Nat.mul_le_mul_right _ hrow
    rw [Nat.succ_mul] at hlast
    rw [Nat.mul_comm c.pitch c.height]
    dsimp only
    omega

theorem overlap_inside {access : Access} (h : access ∈ overlap c.source img.plane c.x c.y c.width c.lines) :
    access.1 < img.height * img.plane.stride ∧ c.Holds access.2 := by
  obtain ⟨j, hj, i, hi, hrow, hcol, hd, hs⟩ := mem_overlap.mp h
  rw [hd, hs]
  refine ⟨?_, source_holds (by omega) (by omega)⟩
  have hinside := img.plane.inside
  have hrows : (j + 1) * img.plane.stride ≤ img.height * img.plane.stride := Nat.mul_le_mul_right _ hj
  rw [Nat.succ_mul] at hrows
  omega

/-- A line of the overlap. -/
abbrev overlapLine (img : Img) (c : Cursor) (i : ℕ) : List Access :=
  Overlaps.line c.source img.plane.stride c.x.toNat c.y.toNat (-c.x).toNat (-c.y).toNat (shown img.width c.x c.width) i

theorem checked_overlapLine {i : ℕ} (hi : i < shown img.height c.y c.lines) :
    checked img c (overlapLine img c i) = some (overlapLine img c i) := by
  unfold checked
  rw [if_pos]
  intro access haccess
  refine overlap_inside ?_
  rw [overlap_eq_block, block]
  exact List.mem_flatMap.mpr ⟨i, List.mem_range.mpr hi, haccess⟩

theorem checked_some {part part' : List Access} (h : checked img c part = some part') : part' = part := by
  unfold checked at h
  split_ifs at h
  exact (Option.some.inj h).symm

/-- Lines that are those of the overlap are drawn. -/
theorem collect_overlap {row : ℕ → Option (List Access)}
    (h : ∀ i < shown img.height c.y c.lines, row i = some (overlapLine img c i)) :
    collect row (shown img.height c.y c.lines) = some (overlap c.source img.plane c.x c.y c.width c.lines) := by
  rw [overlap_eq_block, block]
  exact collect_eq h

end Bounds

/-! ## Shapes of whole pixels -/

section Color
variable {img : Img} {c : Cursor} {columns lines : Axis} {accesses : List Access}

theorem lines_of_color (htype : c.type ≠ .monochrome) : c.lines = c.height := by
  unfold Cursor.lines
  cases h : c.type with
  | monochrome => exact absurd h htype
  | color => rfl
  | maskedColor => rfl

theorem source_of_color (htype : c.type ≠ .monochrome) (row col : ℕ) :
    c.source row col = .pixel (row * c.pitch + 4 * col) := by
  unfold Cursor.source
  cases h : c.type with
  | monochrome => exact absurd h htype
  | color => rfl
  | maskedColor => rfl

theorem width_of_color (htype : c.type ≠ .monochrome) : 4 * c.width ≤ c.pitch := by
  have hline := c.line
  cases h : c.type with
  | monochrome => exact absurd h htype
  | color => rwa [h] at hline
  | maskedColor => rwa [h] at hline

theorem colorLine_overlap (htype : c.type ≠ .monochrome) (hcolumns : Clipped img.width c.width c.x columns)
    (hlines : Clipped img.height c.lines c.y lines) {i : ℕ} (hi : i < shown img.height c.y c.lines)
    (hbeside : Beside img.width c.width c.x)
    (hfits : shown img.width c.x c.width = 0 ∨ i = 0 ∨ c.pitch = 4 * c.width) :
    colorLine img c columns lines i = some (overlapLine img c i) := by
  have hforward : ¬columns.delta < 0 := not_lt.mpr (hcolumns.beside.mpr hbeside)
  unfold colorLine
  dsimp only
  rw [if_neg hforward, ← checked_overlapLine hi]
  congr 1
  unfold overlapLine Overlaps.line
  rw [hcolumns.delta, hcolumns.cursorSkip, hcolumns.imgSkip, hlines.cursorSkip, hlines.imgSkip]
  refine List.map_congr_left fun a ha => ?_
  have ha := List.mem_range.mp ha
  rw [source_of_color htype]
  -- the pixel's number does not wrap: the shape's buffer is too small for that
  have hneeded := width_of_color htype
  have hrow : (i + 1) * c.width ≤ c.height * c.width := by
    refine Nat.mul_le_mul_right _ ?_
    rw [lines_of_color htype] at hi
    unfold shown at hi
    omega
  have hbuffer : c.height * (4 * c.width) ≤ c.pitch * c.height := by
    rw [Nat.mul_comm]
    exact Nat.mul_le_mul_right _ hneeded
  have hbytes := c.bytes
  have hcol : (-c.x).toNat + a < c.width := by
    unfold shown at ha
    omega
  have hnumber : (i * c.width + (-c.x).toNat) % 2 ^ 32 = i * c.width + (-c.x).toNat := by
    refine Nat.mod_eq_of_lt ?_
    rw [Nat.succ_mul] at hrow
    rw [Nat.mul_left_comm] at hbuffer
    omega
  have hoffset : (-c.y).toNat * c.pitch + 4 * (i * c.width + (-c.x).toNat) + 4 * a =
      ((-c.y).toNat + i) * c.pitch + 4 * ((-c.x).toNat + a) := by
    rcases hfits with hnone | rfl | hpitch
    · omega
    · rw [Nat.zero_mul, Nat.add_zero]
      omega
    · rw [hpitch]
      ring
  rw [hnumber, hoffset, Nat.add_comm i, Nat.add_assoc]
  rfl

theorem colorFits_of_drawn (htype : c.type ≠ .monochrome) (hcolumns : Clipped img.width c.width c.x columns)
    (hlines : Clipped img.height c.lines c.y lines)
    (haccesses : collect (colorLine img c columns lines) (shown img.height c.y c.lines) = some accesses)
    (hperm : accesses.Perm (overlap c.source img.plane c.x c.y c.width c.lines)) : ColorFits img c := by
  by_cases hrows : shown img.height c.y c.lines = 0
  · exact .inl hrows
  have hbeside : Beside img.width c.width c.x := by
    obtain ⟨part, hpart, -⟩ := row_of_collect haccesses (Nat.pos_of_ne_zero hrows)
    unfold colorLine at hpart
    dsimp only at hpart
    split_ifs at hpart with hnegative
    exact hcolumns.beside.mp (not_lt.mp hnegative)
  refine .inr ⟨hbeside, ?_⟩
  by_cases hcols : shown img.width c.x c.width = 0
  · exact .inl hcols
  by_cases hone : shown img.height c.y c.lines = 1
  · exact .inr (.inl hone)
  -- the first pixel of the second line
  have hsecond : ((c.y.toNat + 1) * img.plane.stride + (c.x.toNat + 0), c.source ((-c.y).toNat + 1) ((-c.x).toNat + 0)) ∈
      overlap c.source img.plane c.x c.y c.width c.lines := by
    rw [overlap_eq_block, block]
    refine List.mem_flatMap.mpr ⟨1, List.mem_range.mpr (by dsimp only [Img.plane]; omega), ?_⟩
    exact List.mem_map.mpr ⟨0, List.mem_range.mpr (Nat.pos_of_ne_zero hcols), rfl⟩
  obtain ⟨i, -, part, hpart, hmem⟩ := mem_collect haccesses (hperm.mem_iff.mpr hsecond)
  unfold colorLine at hpart
  dsimp only at hpart
  split_ifs at hpart with hnegative
  rw [checked_some hpart] at hmem
  obtain ⟨a, ha, haccess⟩ := List.mem_map.mp hmem
  have ha := List.mem_range.mp ha
  rw [hcolumns.delta] at ha
  obtain ⟨haddress, hsource⟩ := Prod.mk.inj haccess
  rw [hlines.imgSkip, hcolumns.imgSkip, Nat.add_assoc] at haddress
  have hinside : c.x.toNat + a < img.plane.width ∧ c.x.toNat + 0 < img.plane.width ∧ (-c.x).toNat < c.width := by
    unfold shown at ha
    dsimp only [Img.plane]
    omega
  obtain ⟨hi, ha⟩ := address_inj hinside.1 hinside.2.1 haddress
  obtain rfl : i = 1 := by omega
  obtain rfl : a = 0 := by omega
  rw [source_of_color htype, hlines.cursorSkip, hcolumns.cursorSkip, Nat.one_mul, Nat.succ_mul (-c.y).toNat] at hsource
  have hoffset := Source.pixel.inj hsource
  have hwidth := c.width_lt
  refine .inr (.inr ?_)
  omega

theorem color_drawn_iff (htype : c.type ≠ .monochrome) :
    (∃ accesses, blendedColor img c = some accesses ∧
      accesses.Perm (overlap c.source img.plane c.x c.y c.width c.lines)) ↔
    InRange img.width c.width c.x ∧ InRange img.height c.lines c.y ∧ (-c.y).toNat * c.pitch < 2 ^ 31 ∧
      ColorFits img c := by
  have hheight := lines_of_color htype
  unfold blendedColor
  rw [← hheight]
  constructor
  · rintro ⟨accesses, haccesses, hperm⟩
    obtain ⟨columns, hclipped, haccesses⟩ := Option.bind_eq_some_iff.mp haccesses
    obtain ⟨lines, hclipped', haccesses⟩ := Option.bind_eq_some_iff.mp haccesses
    have hcolumns := clipped_of_clip hclipped
    have hlines := clipped_of_clip hclipped'
    rw [if_neg (by have := hlines.kept; have := hcolumns.kept; omega), hlines.cursorSkip, hlines.delta] at haccesses
    split_ifs at haccesses with hskip
    exact ⟨hcolumns.range, hlines.range, hskip, colorFits_of_drawn htype hcolumns hlines haccesses hperm⟩
  · rintro ⟨hx, hy, hskip, hfits⟩
    obtain ⟨columns, hclipped⟩ := exists_clip hx c.x_int img.width_lt c.width_lt
    obtain ⟨lines, hclipped'⟩ := exists_clip hy c.y_int img.height_lt c.lines_lt
    have hcolumns := clipped_of_clip hclipped
    have hlines := clipped_of_clip hclipped'
    refine ⟨_, ?_, List.Perm.refl _⟩
    rw [hclipped, hclipped', Option.bind_eq_bind, Option.bind_some, Option.bind_some, if_neg (by have := hlines.kept; have := hcolumns.kept; omega), hlines.cursorSkip, hlines.delta, if_pos hskip]
    refine collect_overlap fun i hi => ?_
    rcases hfits with hnone | ⟨hbeside, hcols⟩
    · omega
    · refine colorLine_overlap htype hcolumns hlines hi hbeside ?_
      rcases hcols with hcols | hone | hpitch
      · exact .inl hcols
      · exact .inr (.inl (by omega))
      · exact .inr (.inr hpitch)

end Color

/-! ## Shapes of two planes -/

theorem unskipped_eq (skip : ℕ) (bits : List (ℕ × ℕ)) : unskipped skip bits = bits.drop skip := by
  induction skip generalizing bits with
  | zero => rfl
  | succ skip ih =>
    cases bits with
    | nil => rfl
    | cons bit bits => exact ih bits

theorem lineBits_eq (bytesPerRow : ℕ) : lineBits bytesPerRow = (List.range (8 * bytesPerRow)).map fun n => (n / 8, n % 8) := by
  unfold lineBits
  induction bytesPerRow with
  | zero => rfl
  | succ bytes ih =>
    rw [show List.range (bytes + 1) = List.range bytes ++ [bytes] from List.range_succ, List.flatMap_append, ih,
      Nat.mul_succ, List.range_add, List.map_append, List.flatMap_singleton,
      List.map_map]
    congr 1
    refine List.map_congr_left fun bit hbit => ?_
    have hbit := List.mem_range.mp hbit
    show (bytes, bit) = ((8 * bytes + bit) / 8, (8 * bytes + bit) % 8)
    rw [Nat.mul_add_div (by decide), Nat.mul_add_mod, Nat.div_eq_of_lt hbit, Nat.mod_eq_of_lt hbit, Nat.add_zero]

theorem unskipped_lineBits (skip bytesPerRow : ℕ) : unskipped skip (lineBits bytesPerRow) =
    (List.range (8 * bytesPerRow - skip)).map fun a => ((skip + a) / 8, (skip + a) % 8) := by
  rw [unskipped_eq, lineBits_eq, ← List.map_drop, List.range_eq_range', List.drop_range', Nat.mul_one, Nat.zero_add,
    List.range'_eq_map_range, List.map_map]
  rfl

theorem toNat_tdiv (d : ℤ) (n : ℕ) : (d.tdiv n).toNat = d.toNat / n := by
  cases d with
  | ofNat d => rfl
  | negSucc d =>
    rw [Int.toNat_negSucc, Nat.zero_div]
    refine Int.toNat_of_nonpos (neg_nonneg.mp ?_)
    rw [← Int.neg_tdiv]
    exact Int.tdiv_nonneg (neg_nonneg.mpr (Int.negSucc_lt_zero d).le) (Int.natCast_nonneg n)

section Monochrome
variable {img : Img} {c : Cursor} {columns lines : Axis} {accesses : List Access} {bytesPerRow i : ℕ}

theorem lines_of_monochrome (htype : c.type = .monochrome) : c.lines = c.height / 2 := by
  unfold Cursor.lines
  rw [htype]

theorem monochromeLine_eq (htype : c.type = .monochrome) (hcolumns : Clipped img.width c.width c.x columns)
    (hlines : Clipped img.height c.lines c.y lines) (bytesPerRow i : ℕ) :
    monochromeLine img c columns lines bytesPerRow i =
      if (i + c.lines) * c.pitch < 2 ^ 31 then
        checked img c (Overlaps.line c.source img.plane.stride c.x.toNat c.y.toNat (-c.x).toNat (-c.y).toNat
          (8 * bytesPerRow - (-c.x).toNat) i)
      else none := by
  unfold monochromeLine
  dsimp only
  rw [lines_of_monochrome htype, unskipped_lineBits, hcolumns.cursorSkip, hcolumns.imgSkip, hlines.cursorSkip,
    hlines.imgSkip]
  congr 2
  unfold Overlaps.line
  refine List.ext_getElem (by simp) fun a ha _ => ?_
  simp only [List.getElem_mapIdx, List.getElem_map, List.getElem_range, Cursor.source, htype]
  have hmask : (-c.y).toNat * c.pitch + i * c.pitch = ((-c.y).toNat + i) * c.pitch := (Nat.add_mul _ _ _).symm
  have hxor : (-c.y).toNat * c.pitch + (i + c.height / 2) * c.pitch = ((-c.y).toNat + i + c.height / 2) * c.pitch := by
    rw [Nat.add_assoc, Nat.add_mul (-c.y).toNat]
  rw [hmask, hxor, Nat.add_comm i, Nat.add_assoc]
  rfl

theorem monochromeFits_of_drawn (htype : c.type = .monochrome) (hcolumns : Clipped img.width c.width c.x columns)
    (hlines : Clipped img.height c.lines c.y lines) (hpitch : 0 < c.pitch ∧ c.pitch ≤ c.width)
    (haccesses : collect (monochromeLine img c columns lines (shown img.width c.x c.width / (c.width / c.pitch)))
      (shown img.height c.y c.lines) = some accesses)
    (hperm : accesses.Perm (overlap c.source img.plane c.x c.y c.width c.lines)) : MonochromeFits img c := by
  refine ⟨hpitch.1, hpitch.2, ?_⟩
  by_cases hrows : shown img.height c.y c.lines = 0
  · exact .inl hrows
  refine .inr ⟨?_, ?_⟩
  · have hlength := hperm.length_eq
    rw [length_overlap, length_collect_eq haccesses fun i _ part hpart => by
      rw [monochromeLine_eq htype hcolumns hlines] at hpart
      split_ifs at hpart
      rw [checked_some hpart, length_line]] at hlength
    exact Nat.eq_of_mul_eq_mul_left (Nat.pos_of_ne_zero hrows) hlength
  · obtain ⟨part, hpart, -⟩ := row_of_collect haccesses (Nat.sub_one_lt hrows)
    rw [monochromeLine_eq htype hcolumns hlines] at hpart
    split_ifs at hpart with hint
    exact hint

theorem monochrome_drawn_iff (htype : c.type = .monochrome) :
    (∃ accesses, blendedMonochrome img c = some accesses ∧
      accesses.Perm (overlap c.source img.plane c.x c.y c.width c.lines)) ↔
    InRange img.width c.width c.x ∧ InRange img.height c.lines c.y ∧ (-c.y).toNat * c.pitch < 2 ^ 31 ∧
      MonochromeFits img c := by
  have hheight := lines_of_monochrome htype
  unfold blendedMonochrome
  dsimp only
  rw [← hheight]
  constructor
  · rintro ⟨accesses, haccesses, hperm⟩
    obtain ⟨columns, hclipped, haccesses⟩ := Option.bind_eq_some_iff.mp haccesses
    obtain ⟨lines, hclipped', haccesses⟩ := Option.bind_eq_some_iff.mp haccesses
    have hcolumns := clipped_of_clip hclipped
    have hlines := clipped_of_clip hclipped'
    rw [if_neg (by have := hlines.kept; have := hcolumns.kept; omega), hlines.cursorSkip, hlines.delta, toNat_tdiv,
      hcolumns.delta] at haccesses
    split_ifs at haccesses with hskip hzero
    have hpitch : 0 < c.pitch ∧ c.pitch ≤ c.width := by
      rw [not_or] at hzero
      exact ⟨Nat.pos_of_ne_zero hzero.1, not_lt.mp fun hlt => hzero.2 (Nat.div_eq_of_lt hlt)⟩
    exact ⟨hcolumns.range, hlines.range, hskip, monochromeFits_of_drawn htype hcolumns hlines hpitch haccesses hperm⟩
  · rintro ⟨hx, hy, hskip, hpos, hle, hfits⟩
    obtain ⟨columns, hclipped⟩ := exists_clip hx c.x_int img.width_lt c.width_lt
    obtain ⟨lines, hclipped'⟩ := exists_clip hy c.y_int img.height_lt c.lines_lt
    have hcolumns := clipped_of_clip hclipped
    have hlines := clipped_of_clip hclipped'
    have hzero : ¬(c.pitch = 0 ∨ c.width / c.pitch = 0) := by
      have hquotient := Nat.div_pos hle hpos
      omega
    refine ⟨_, ?_, List.Perm.refl _⟩
    rw [hclipped, hclipped', Option.bind_eq_bind, Option.bind_some, Option.bind_some,
      if_neg (by have := hlines.kept; have := hcolumns.kept; omega), hlines.cursorSkip, hlines.delta, if_pos hskip,
      if_neg hzero, toNat_tdiv, hcolumns.delta]
    refine collect_overlap fun i hi => ?_
    obtain ⟨hwhole, hint⟩ := hfits.resolve_left (by omega)
    have hrow : (i + c.lines) * c.pitch < 2 ^ 31 := lt_of_le_of_lt (Nat.mul_le_mul_right _ (by omega)) hint
    rw [monochromeLine_eq htype hcolumns hlines, if_pos hrow, hwhole]
    exact checked_overlapLine hi

end Monochrome

/-- Exactly the overlap is drawn if no `int` overflows, a shape of whole pixels has no gaps between several lines and
does not lie far to the side, and the bytes of a monochrome line give as many pixels as the image has under them. -/
theorem ram_cursor_shown_iff (img : Img) (c : Cursor) : ShownRight img c ↔ Drawable img c := by
  rw [shownRight_iff_perm]
  unfold blended Drawable
  cases htype : c.type with
  | monochrome => exact monochrome_drawn_iff htype
  | color => exact color_drawn_iff fun h => by rw [htype] at h; cases h
  | maskedColor => exact color_drawn_iff fun h => by rw [htype] at h; cases h

/-- One pixel, two to the left of the image. -/
def leftCursor : Cursor where
  type := .color
  width := 1
  height := 1
  pitch := 4
  x := -2
  y := 0
  line := by decide
  bytes := by decide
  width_lt := twoPixels.height_lt
  height_lt := twoPixels.height_lt
  pitch_lt := by decide
  x_int := by decide
  y_int := by decide

/-- The loop over its line begins behind its end. -/
theorem left_cursor_runs_away : ¬∀ (img : Img) (c : Cursor), ShownRight img c := by
  intro h
  obtain ⟨accesses, haccesses, -⟩ := h twoPixels leftCursor
  have hblended : blended twoPixels leftCursor = none := by decide
  rw [hblended] at haccesses
  cases haccesses

end Sunshine.RamCursor
