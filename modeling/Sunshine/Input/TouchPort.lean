import Mathlib.Algebra.Order.Field.Rat
import Mathlib.Algebra.Order.Field.Basic
import Mathlib.Data.Rat.Cast.Order
import Mathlib.Tactic.FieldSimp
import Mathlib.Tactic.Linarith
import Mathlib.Tactic.Positivity
import Mathlib.Tactic.Ring
import Sunshine.Lib.Clamps

/-! From a point of the client's surface to a point of the display: `make_port`, `client_to_touchport` and the handler of
absolute mouse packets. Numbers are exact.

The picture of the display is scaled into the stream and centred, so that bars are left on two sides; a point in a bar is
moved to the border of the picture. The sizes of a packet are signed, and the handler refuses zero only. -/
namespace Sunshine.TouchPort
open Clamps
set_option autoImplicit false

structure Display where
  offsetX : ℤ
  offsetY : ℤ
  width : ℤ
  height : ℤ
  envWidth : ℤ
  envHeight : ℤ
  logicalWidth : ℤ := 0
  logicalHeight : ℤ := 0
  envLogicalWidth : ℤ := 0
  envLogicalHeight : ℤ := 0

/-- `video::config_t` as far as `make_port` reads it. -/
structure StreamSize where
  width : ℤ
  height : ℤ

/-- `platf::touch_port_t`. -/
structure PlatformPort where
  offsetX : ℤ
  offsetY : ℤ
  width : ℤ
  height : ℤ
  logicalWidth : ℤ := 0
  logicalHeight : ℤ := 0
  deriving DecidableEq

/-- `input::touch_port_t`. -/
structure Port extends PlatformPort where
  envWidth : ℤ
  envHeight : ℤ
  clientOffsetX : ℚ
  clientOffsetY : ℚ
  scalarInv : ℚ
  scalarTpcoords : ℚ
  envLogicalWidth : ℤ
  envLogicalHeight : ℤ

/-- `operator bool`. -/
def Port.isSet (port : Port) : Bool := port.width ≠ 0 ∧ port.height ≠ 0 ∧ port.envWidth ≠ 0 ∧ port.envHeight ≠ 0

def Display.hasLogical (display : Display) : Bool :=
  0 < display.logicalWidth ∧ 0 < display.logicalHeight ∧ 0 < display.envLogicalWidth ∧ 0 < display.envLogicalHeight

/-- `scalar` of `make_port`: how much of a pixel of the stream a pixel of the display is. -/
def scalar (display : Display) (config : StreamSize) : ℚ :=
  min ((config.width : ℚ) / display.width) ((config.height : ℚ) / display.height)

def scalarTpcoords (display : Display) : ℚ :=
  if display.hasLogical then
    min ((display.width : ℚ) / display.logicalWidth) ((display.height : ℚ) / display.logicalHeight)
  else 1

def makePort (display : Display) (config : StreamSize) : Port where
  offsetX := display.offsetX
  offsetY := display.offsetY
  width := config.width
  height := config.height
  envWidth := display.envWidth
  envHeight := display.envHeight
  clientOffsetX := (config.width - scalar display config * display.width) * (1 / 2)
  clientOffsetY := (config.height - scalar display config * display.height) * (1 / 2)
  scalarInv := 1 / scalar display config
  scalarTpcoords := scalarTpcoords display
  envLogicalWidth := if display.hasLogical then display.envLogicalWidth else 0
  envLogicalHeight := if display.hasLogical then display.envLogicalHeight else 0

/-! ## The mapping -/

/-- The arguments of a clamp. -/
structure Bounded where
  value : ℚ
  low : ℚ
  high : ℚ

def Bounded.result (b : Bounded) : ℚ := clamp b.value b.low b.high

/-- One axis of a touch port. -/
structure Axis where
  dim : ℤ
  offset : ℤ
  clientOffset : ℚ
  scalarInv : ℚ
  scalarTpcoords : ℚ

def Port.x (port : Port) : Axis := ⟨port.width, port.offsetX, port.clientOffsetX, port.scalarInv, port.scalarTpcoords⟩

def Port.y (port : Port) : Axis := ⟨port.height, port.offsetY, port.clientOffsetY, port.scalarInv, port.scalarTpcoords⟩

/-- The clamp to the client's surface. -/
def ontoSurface (val size : ℚ) : Bounded := ⟨val, 0, size⟩

/-- The clamp to the picture, in pixels of the stream. -/
def Axis.ontoPicture (axis : Axis) (val size : ℚ) : Bounded :=
  let scalar := axis.dim / size
  ⟨(ontoSurface val size).result * scalar, axis.clientOffset, size * scalar - axis.clientOffset⟩

def Axis.final (axis : Axis) (val size : ℚ) : ℚ :=
  let x := ((axis.ontoPicture val size).result - axis.clientOffset) * axis.scalarInv
  (x + axis.offset * axis.scalarTpcoords) / axis.scalarTpcoords

/-- What `input_t` keeps for absolute positions. -/
structure Surface where
  touchPortEvent : Option Port
  touchPort : Port

/-- The touch port in force for the next packet: a new one, if there is one. -/
def Surface.current (input : Surface) : Port := input.touchPortEvent.getD input.touchPort

/-- `client_to_touchport`. -/
def clientToTouchport (input : Surface) (val size : ℚ × ℚ) : Surface × Option (ℚ × ℚ) :=
  let touchPort := input.current
  let input := { input with touchPortEvent := none, touchPort := touchPort }
  if touchPort.isSet then (input, some (touchPort.x.final val.1 size.1, touchPort.y.final val.2 size.2))
  else (input, none)

/-! ## The handler -/

/-- `NV_ABS_MOUSE_MOVE_PACKET`, in the byte order of the host. -/
structure AbsMouseMove where
  x : Int16
  y : Int16
  width : Int16
  height : Int16

/-- A call of `platf::abs_mouse`. -/
structure AbsMouse where
  port : PlatformPort
  x : ℚ
  y : ℚ

def absPort (port : Port) : PlatformPort :=
  if port.envLogicalWidth ≠ 0 ∧ port.envLogicalHeight ≠ 0 then
    { offsetX := port.offsetX, offsetY := port.offsetY, width := port.envLogicalWidth, height := port.envLogicalHeight }
  else { offsetX := port.offsetX, offsetY := port.offsetY, width := port.envWidth, height := port.envHeight }

/-- `passthrough` of an absolute mouse packet; what it does to the delay of the left button is not part of it here. -/
def passthrough (mouse : Bool) (input : Surface) (packet : AbsMouseMove) : Surface × Option AbsMouse :=
  if ¬mouse then (input, none)
  else if packet.width = 0 ∨ packet.height = 0 then (input, none)
  else
    match clientToTouchport input (packet.x.toInt, packet.y.toInt) (packet.width.toInt, packet.height.toInt) with
    | (input, none) => (input, none)
    | (input, some tpcoords) => (input, some ⟨absPort input.touchPort, tpcoords.1, tpcoords.2⟩)

/-! ## One axis -/

def Bounded.Ordered (b : Bounded) : Prop := b.low ≤ b.high

/-- The axis shows this many pixels of a display, with bars of one size on both sides. -/
structure Axis.Shows (axis : Axis) (extent : ℚ) : Prop where
  dim_pos : 0 < axis.dim
  bar : 0 ≤ axis.clientOffset
  inv_pos : 0 < axis.scalarInv
  tp_pos : 0 < axis.scalarTpcoords
  extent_nonneg : 0 ≤ extent
  picture : (axis.dim - 2 * axis.clientOffset) * axis.scalarInv = extent

/-- Where the client shows a point of the display. -/
def Axis.shown (axis : Axis) (point size : ℚ) : ℚ := (axis.clientOffset + point / axis.scalarInv) * (size / axis.dim)

section Axes

variable {axis : Axis} {extent size val val' : ℚ}

theorem ontoSurface_ordered_iff : (ontoSurface val size).Ordered ↔ 0 ≤ size := Iff.rfl

theorem dim_scaled (hsize : size ≠ 0) : size * (axis.dim / size) = axis.dim := by
  field_simp

theorem ontoPicture_ordered (val : ℚ) (hshows : axis.Shows extent) (hsize : size ≠ 0) : (axis.ontoPicture val size).Ordered := by
  have hwide : 0 ≤ (axis.dim - 2 * axis.clientOffset : ℚ) := by
    have hproduct := hshows.picture ▸ hshows.extent_nonneg
    exact nonneg_of_mul_nonneg_left hproduct hshows.inv_pos
  unfold Bounded.Ordered Axis.ontoPicture
  dsimp only
  rw [dim_scaled hsize]
  linarith

/-- The place in the picture, in pixels of the stream. -/
theorem final_eq (hshows : axis.Shows extent) (val size : ℚ) :
    axis.final val size = axis.offset + ((axis.ontoPicture val size).result - axis.clientOffset) * axis.scalarInv / axis.scalarTpcoords := by
  have htp := hshows.tp_pos.ne'
  unfold Axis.final
  field_simp
  ring

theorem final_mem (hshows : axis.Shows extent) (hsize : size ≠ 0) :
    axis.offset ≤ axis.final val size ∧ axis.final val size ≤ axis.offset + extent / axis.scalarTpcoords := by
  have hordered := ontoPicture_ordered val hshows hsize
  have hlow : axis.clientOffset ≤ (axis.ontoPicture val size).result := low_le_clamp hordered
  have hhigh : (axis.ontoPicture val size).result ≤ size * (axis.dim / size) - axis.clientOffset := clamp_le_high hordered
  rw [dim_scaled hsize] at hhigh
  rw [final_eq hshows]
  have hinv := hshows.inv_pos
  have htp := hshows.tp_pos
  constructor
  · have hpart : 0 ≤ ((axis.ontoPicture val size).result - axis.clientOffset) * axis.scalarInv / axis.scalarTpcoords :=
      div_nonneg (mul_nonneg (by linarith) hinv.le) htp.le
    linarith
  · have hpart : ((axis.ontoPicture val size).result - axis.clientOffset) * axis.scalarInv ≤ extent := by
      rw [← hshows.picture]
      exact mul_le_mul_of_nonneg_right (by linarith) hinv.le
    have hscaled := div_le_div_of_nonneg_right hpart htp.le
    linarith

theorem final_mono (hshows : axis.Shows extent) (hsize : 0 < size) (hval : val ≤ val') :
    axis.final val size ≤ axis.final val' size := by
  have hdim : (0 : ℚ) ≤ axis.dim / size := div_nonneg (by exact_mod_cast hshows.dim_pos.le) hsize.le
  have hsurface : (ontoSurface val size).result ≤ (ontoSurface val' size).result := clamp_mono hsize.le hval
  have hpicture : (axis.ontoPicture val size).result ≤ (axis.ontoPicture val' size).result :=
    clamp_mono (ontoPicture_ordered val hshows hsize.ne') (mul_le_mul_of_nonneg_right hsurface hdim)
  rw [final_eq hshows, final_eq hshows]
  have hpart := mul_le_mul_of_nonneg_right (sub_le_sub_right hpicture axis.clientOffset) hshows.inv_pos.le
  have hscaled := div_le_div_of_nonneg_right hpart hshows.tp_pos.le
  linarith

/-- A point of the display is where it is shown. -/
theorem final_shown (hshows : axis.Shows extent) (hsize : 0 < size) {point : ℚ} (hlow : 0 ≤ point) (hhigh : point ≤ extent) :
    axis.final (axis.shown point size) size = axis.offset + point / axis.scalarTpcoords := by
  have hinv := hshows.inv_pos
  have htp := hshows.tp_pos
  have hbar := hshows.bar
  have hdim : (0 : ℚ) < axis.dim := by exact_mod_cast hshows.dim_pos
  have hplace : 0 ≤ point / axis.scalarInv := div_nonneg hlow hinv.le
  have hpicture : point / axis.scalarInv ≤ axis.dim - 2 * axis.clientOffset := by
    rw [div_le_iff₀ hinv, hshows.picture]
    exact hhigh
  have hsurface : (ontoSurface (axis.shown point size) size).result = axis.shown point size := by
    refine clamp_of_mem ?_ ?_
    · exact mul_nonneg (by linarith) (div_nonneg hsize.le hdim.le)
    · have hpart : (axis.clientOffset + point / axis.scalarInv) * (size / axis.dim) ≤ axis.dim * (size / axis.dim) :=
        mul_le_mul_of_nonneg_right (by linarith) (div_nonneg hsize.le hdim.le)
      have hwhole : axis.dim * (size / axis.dim) = size := by field_simp
      exact hpart.trans_eq hwhole
  have hstream : axis.shown point size * (axis.dim / size) = axis.clientOffset + point / axis.scalarInv := by
    unfold Axis.shown
    field_simp
  have hresult : (axis.ontoPicture (axis.shown point size) size).result = axis.clientOffset + point / axis.scalarInv := by
    unfold Bounded.result Axis.ontoPicture
    dsimp only
    rw [hsurface, hstream, dim_scaled hsize.ne']
    exact clamp_of_mem (by linarith) (by linarith)
  rw [final_eq hshows, hresult]
  field_simp
  ring

theorem final_left (hshows : axis.Shows extent) (hsize : 0 < size) (hval : val ≤ axis.shown 0 size) :
    axis.final val size = axis.offset := by
  have hedge := final_shown hshows hsize le_rfl hshows.extent_nonneg
  rw [zero_div, add_zero] at hedge
  exact le_antisymm ((final_mono hshows hsize hval).trans_eq hedge) (final_mem hshows hsize.ne').1

theorem final_right (hshows : axis.Shows extent) (hsize : 0 < size) (hval : axis.shown extent size ≤ val) :
    axis.final val size = axis.offset + extent / axis.scalarTpcoords := by
  have hedge := final_shown hshows hsize hshows.extent_nonneg le_rfl
  exact le_antisymm (final_mem hshows hsize.ne').2 (hedge.symm.trans_le (final_mono hshows hsize hval))

end Axes

/-! ## The touch port of a display -/

/-- What is there to be streamed, and into how large a stream. -/
structure Positive (display : Display) (config : StreamSize) : Prop where
  width : 0 < display.width
  height : 0 < display.height
  envWidth : 0 < display.envWidth
  envHeight : 0 < display.envHeight
  streamWidth : 0 < config.width
  streamHeight : 0 < config.height

section Ports

variable {display : Display} {config : StreamSize}

theorem scalar_pos (hpos : Positive display config) : 0 < scalar display config := by
  have hwidth : (0 : ℚ) < display.width := by exact_mod_cast hpos.width
  have hheight : (0 : ℚ) < display.height := by exact_mod_cast hpos.height
  have hstream : (0 : ℚ) < config.width := by exact_mod_cast hpos.streamWidth
  have hstream' : (0 : ℚ) < config.height := by exact_mod_cast hpos.streamHeight
  exact lt_min (div_pos hstream hwidth) (div_pos hstream' hheight)

theorem scalarTpcoords_pos (hpos : Positive display config) : 0 < scalarTpcoords display := by
  unfold scalarTpcoords
  split_ifs with hlogical
  · obtain ⟨hwidth, hheight, -, -⟩ := of_decide_eq_true hlogical
    have hw : (0 : ℚ) < display.width := by exact_mod_cast hpos.width
    have hh : (0 : ℚ) < display.height := by exact_mod_cast hpos.height
    have hlw : (0 : ℚ) < display.logicalWidth := by exact_mod_cast hwidth
    have hlh : (0 : ℚ) < display.logicalHeight := by exact_mod_cast hheight
    exact lt_min (div_pos hw hlw) (div_pos hh hlh)
  · exact one_pos

theorem shows_of_scaled {axis : Axis} {extent factor : ℚ} (hdim : 0 < axis.dim) (hfactor : 0 < factor) (hextent : 0 < extent)
    (hfits : factor * extent ≤ axis.dim) (hoffset : axis.clientOffset = (axis.dim - factor * extent) * (1 / 2))
    (hinv : axis.scalarInv = 1 / factor) (htp : 0 < axis.scalarTpcoords) : axis.Shows extent where
  dim_pos := hdim
  bar := by
    rw [hoffset]
    exact mul_nonneg (by linarith) (by norm_num)
  inv_pos := by
    rw [hinv]
    exact one_div_pos.mpr hfactor
  tp_pos := htp
  extent_nonneg := hextent.le
  picture := by
    rw [hoffset, hinv]
    field_simp
    ring

theorem shows_x (hpos : Positive display config) : (makePort display config).x.Shows display.width := by
  have hwidth : (0 : ℚ) < display.width := by exact_mod_cast hpos.width
  have hfits : scalar display config * display.width ≤ config.width := by
    rw [← le_div_iff₀ hwidth]
    exact min_le_left _ _
  exact shows_of_scaled hpos.streamWidth (scalar_pos hpos) hwidth hfits rfl rfl (scalarTpcoords_pos hpos)

theorem shows_y (hpos : Positive display config) : (makePort display config).y.Shows display.height := by
  have hheight : (0 : ℚ) < display.height := by exact_mod_cast hpos.height
  have hfits : scalar display config * display.height ≤ config.height := by
    rw [← le_div_iff₀ hheight]
    exact min_le_right _ _
  exact shows_of_scaled hpos.streamHeight (scalar_pos hpos) hheight hfits rfl rfl (scalarTpcoords_pos hpos)

end Ports

/-! ## Packets -/

/-- What packets of these sizes do on a display: they are handled, no clamp has its bounds out of order, and the pointer
stays on the display, moves the way the client's does, and is where the picture shows it to be. -/
structure StaysOn (display : Display) (input : Surface) (width height : Int16) : Prop where
  handled : ∀ x y : Int16, ∃ call, (passthrough true input ⟨x, y, width, height⟩).2 = some call
  ordered : ∀ x y : Int16,
    (ontoSurface x.toInt width.toInt).Ordered ∧ (input.current.x.ontoPicture x.toInt width.toInt).Ordered ∧
      (ontoSurface y.toInt height.toInt).Ordered ∧ (input.current.y.ontoPicture y.toInt height.toInt).Ordered
  inside : ∀ (x y : Int16) (call : AbsMouse), (passthrough true input ⟨x, y, width, height⟩).2 = some call →
    (display.offsetX ≤ call.x ∧ call.x ≤ display.offsetX + display.width / scalarTpcoords display) ∧
      display.offsetY ≤ call.y ∧ call.y ≤ display.offsetY + display.height / scalarTpcoords display
  monotone : ∀ (x x' y y' : Int16) (call call' : AbsMouse), (passthrough true input ⟨x, y, width, height⟩).2 = some call →
    (passthrough true input ⟨x', y', width, height⟩).2 = some call' →
      (x.toInt ≤ x'.toInt → call.x ≤ call'.x) ∧ (y.toInt ≤ y'.toInt → call.y ≤ call'.y)
  borders : ∀ val result : ℚ × ℚ, (clientToTouchport input val (width.toInt, height.toInt)).2 = some result →
    (val.1 ≤ input.current.x.shown 0 width.toInt → result.1 = display.offsetX) ∧
      (input.current.x.shown display.width width.toInt ≤ val.1 →
        result.1 = display.offsetX + display.width / scalarTpcoords display) ∧
      (val.2 ≤ input.current.y.shown 0 height.toInt → result.2 = display.offsetY) ∧
      (input.current.y.shown display.height height.toInt ≤ val.2 →
        result.2 = display.offsetY + display.height / scalarTpcoords display)
  points : ∀ point : ℚ × ℚ, 0 ≤ point.1 → point.1 ≤ display.width → 0 ≤ point.2 → point.2 ≤ display.height →
    (clientToTouchport input (input.current.x.shown point.1 width.toInt, input.current.y.shown point.2 height.toInt)
      (width.toInt, height.toInt)).2 = some (display.offsetX + point.1 / scalarTpcoords display,
        display.offsetY + point.2 / scalarTpcoords display)

section Packets

variable {display : Display} {config : StreamSize} {input : Surface} {width height : Int16}

theorem makePort_isSet (hpos : Positive display config) : (makePort display config).isSet = true :=
  decide_eq_true ⟨hpos.streamWidth.ne', hpos.streamHeight.ne', hpos.envWidth.ne', hpos.envHeight.ne'⟩

theorem clientToTouchport_eq (hset : input.current.isSet = true) (val size : ℚ × ℚ) :
    (clientToTouchport input val size).2 = some (input.current.x.final val.1 size.1, input.current.y.final val.2 size.2) := by
  simp only [clientToTouchport, hset, if_true]

theorem passthrough_eq (hset : input.current.isSet = true) (hwidth : width ≠ 0) (hheight : height ≠ 0) (x y : Int16) :
    (passthrough true input ⟨x, y, width, height⟩).2 = some ⟨absPort input.current,
      input.current.x.final x.toInt width.toInt, input.current.y.final y.toInt height.toInt⟩ := by
  have hsizes : ¬(width = 0 ∨ height = 0) := not_or.mpr ⟨hwidth, hheight⟩
  simp only [passthrough, clientToTouchport, if_neg hsizes, hset, if_true, not_true, if_false]

theorem toInt_ne_zero {size : Int16} (hsize : size ≠ 0) : size.toInt ≠ 0 :=
  fun hzero => hsize (Int16.toInt_inj.mp hzero)

/-- The pointer stays on the display, and goes where the client puts it, exactly if the sizes of the packet are
positive. -/
theorem absMouse_stays_iff (display : Display) (config : StreamSize) (hpos : Positive display config) (input : Surface)
    (hport : input.current = makePort display config) (width height : Int16) (hwidth : width ≠ 0) (hheight : height ≠ 0) :
    StaysOn display input width height ↔ 0 < width.toInt ∧ 0 < height.toInt := by
  have hset : input.current.isSet = true := hport ▸ makePort_isSet hpos
  have hx : input.current.x.Shows display.width := hport ▸ shows_x hpos
  have hy : input.current.y.Shows display.height := hport ▸ shows_y hpos
  have hw := toInt_ne_zero hwidth
  have hh := toInt_ne_zero hheight
  constructor
  · intro hstays
    obtain ⟨hsurface, -, hsurface', -⟩ := hstays.ordered 0 0
    have hw' : 0 ≤ width.toInt := by exact_mod_cast ontoSurface_ordered_iff.mp hsurface
    have hh' : 0 ≤ height.toInt := by exact_mod_cast ontoSurface_ordered_iff.mp hsurface'
    exact ⟨lt_of_le_of_ne hw' hw.symm, lt_of_le_of_ne hh' hh.symm⟩
  · rintro ⟨hw', hh'⟩
    have hsizeX : (0 : ℚ) < width.toInt := by exact_mod_cast hw'
    have hsizeY : (0 : ℚ) < height.toInt := by exact_mod_cast hh'
    have hpass := passthrough_eq hset hwidth hheight
    have hclient := clientToTouchport_eq hset
    have hoffsetX : input.current.x.offset = display.offsetX := by rw [hport]; rfl
    have hoffsetY : input.current.y.offset = display.offsetY := by rw [hport]; rfl
    have htpX : input.current.x.scalarTpcoords = scalarTpcoords display := by rw [hport]; rfl
    have htpY : input.current.y.scalarTpcoords = scalarTpcoords display := by rw [hport]; rfl
    constructor
    case handled => exact fun x y => ⟨_, hpass x y⟩
    case ordered =>
      intro x y
      exact ⟨hsizeX.le, ontoPicture_ordered _ hx hsizeX.ne', hsizeY.le, ontoPicture_ordered _ hy hsizeY.ne'⟩
    case inside =>
      intro x y call hcall
      obtain rfl := Option.some.inj ((hpass x y).symm.trans hcall)
      rw [← hoffsetX, ← hoffsetY]
      exact ⟨htpX ▸ final_mem hx hsizeX.ne', htpY ▸ final_mem hy hsizeY.ne'⟩
    case monotone =>
      intro x x' y y' call call' hcall hcall'
      obtain rfl := Option.some.inj ((hpass x y).symm.trans hcall)
      obtain rfl := Option.some.inj ((hpass x' y').symm.trans hcall')
      exact ⟨fun hle => final_mono hx hsizeX (by exact_mod_cast hle), fun hle => final_mono hy hsizeY (by exact_mod_cast hle)⟩
    case borders =>
      intro val result hresult
      obtain rfl := Option.some.inj ((hclient _ _).symm.trans hresult)
      rw [← hoffsetX, ← hoffsetY]
      exact ⟨final_left hx hsizeX, fun hval => htpX ▸ final_right hx hsizeX hval, final_left hy hsizeY,
        fun hval => htpY ▸ final_right hy hsizeY hval⟩
    case points =>
      intro point hlow hhigh hlow' hhigh'
      rw [hclient, final_shown hx hsizeX hlow hhigh, final_shown hy hsizeY hlow' hhigh', hoffsetX, hoffsetY, htpX, htpY]

/-- A display with bars to its left and its right, at half its size. -/
theorem absMouse_stays_letterboxed :
    StaysOn { offsetX := 100, offsetY := 0, width := 1600, height := 1200, envWidth := 3200, envHeight := 1200 }
      ⟨some (makePort { offsetX := 100, offsetY := 0, width := 1600, height := 1200, envWidth := 3200, envHeight := 1200 }
        ⟨1280, 600⟩), makePort ⟨0, 0, 0, 0, 0, 0, 0, 0, 0, 0⟩ ⟨0, 0⟩⟩ 1280 600 :=
  (absMouse_stays_iff _ ⟨1280, 600⟩ ⟨by decide, by decide, by decide, by decide, by decide, by decide⟩ _ rfl 1280 600
    (by decide) (by decide)).mpr ⟨by decide, by decide⟩

/-- The width -1: the first clamp has its upper bound below its lower one. -/
theorem absMouse_negative_strays :
    ¬∀ (display : Display) (config : StreamSize), Positive display config → ∀ input : Surface,
      input.current = makePort display config → ∀ width height : Int16, width ≠ 0 → height ≠ 0 →
        StaysOn display input width height := by
  intro hall
  have hpos : Positive ⟨0, 0, 1920, 1080, 1920, 1080, 0, 0, 0, 0⟩ ⟨1920, 1080⟩ :=
    ⟨by decide, by decide, by decide, by decide, by decide, by decide⟩
  have hstays := hall _ _ hpos ⟨none, makePort ⟨0, 0, 1920, 1080, 1920, 1080, 0, 0, 0, 0⟩ ⟨1920, 1080⟩⟩ rfl (-1) 1080
    (by decide) (by decide)
  have hsurface : (0 : ℚ) ≤ ((-1 : Int16).toInt : ℚ) := (hstays.ordered 0 0).1
  have hnegative : (-1 : Int16).toInt = -1 := by decide
  rw [hnegative] at hsurface
  norm_num at hsurface

end Packets

end Sunshine.TouchPort
