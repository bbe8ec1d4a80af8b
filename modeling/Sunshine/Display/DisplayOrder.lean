import Mathlib.Algebra.Order.Ring.Int
import Mathlib.Data.List.Perm.Basic
import Sunshine.Lib.JoinedOrders

/-! The order of displays: `start_portal_session` sorts the streams of the portal, `get_output_names` the outputs of KWin, each
with a comparison that joins its coordinates by "or".

`display_order_iff` says for which layouts the comparisons are strict weak orders and the order is that of no enumeration. -/
namespace Sunshine.DisplayOrder
open JoinedOrders
set_option autoImplicit false

/-! ## The portal -/

/-- `touch_port_t` and the name of a Wayland monitor. -/
structure Monitor where
  offsetX : ℤ
  offsetY : ℤ
  logicalWidth : ℤ
  logicalHeight : ℤ
  name : String
  deriving DecidableEq

/-- A stream of the response, with the properties that it may lack. -/
structure PortalStream where
  node : UInt32
  size : Option (ℤ × ℤ)
  position : Option (ℤ × ℤ)
  serial : Option UInt64
  deriving DecidableEq

/-- `pipewire_streaminfo_t` -/
structure StreamInfo where
  pipewireNode : UInt32
  pipewireObjectSerial : UInt64
  width : ℤ
  height : ℤ
  posX : ℤ
  posY : ℤ
  monitorName : String
  deriving DecidableEq

/-- `SPA_ID_INVALID` -/
def spaIdInvalid : UInt64 := 0xffffffff

def Monitor.matches (position size : ℤ × ℤ) (monitor : Monitor) : Bool :=
  monitor.offsetX = position.1 ∧ monitor.offsetY = position.2 ∧ monitor.logicalWidth = size.1 ∧
    monitor.logicalHeight = size.2

/-- A stream without a size is ignored, one without a position is at the origin. -/
def streamInfo (monitors : List Monitor) (stream : PortalStream) : Option StreamInfo :=
  stream.size.map fun size =>
    let position := stream.position.getD (0, 0)
    { pipewireNode := stream.node
      pipewireObjectSerial := stream.serial.getD spaIdInvalid
      width := size.1
      height := size.2
      posX := position.1
      posY := position.2
      monitorName := ((monitors.find? (Monitor.matches position size)).map Monitor.name).getD "" }

def streamBefore (a b : StreamInfo) : Bool := a.posX < b.posX || a.posY < b.posY

/-- The loop of `start_portal_session` over the streams, in front of the sort. -/
def pipewireStreams (monitors : List Monitor) (streams : List PortalStream) : List StreamInfo :=
  streams.filterMap (streamInfo monitors)

def startPortalSession (sort : List StreamInfo → List StreamInfo) (monitors : List Monitor) (streams : List PortalStream) :
    List StreamInfo := sort (pipewireStreams monitors streams)

/-! ## KWin -/

/-- `output_parameter_t` -/
structure OutputParameter where
  name : String
  width : ℤ
  height : ℤ
  posX : ℤ
  posY : ℤ
  order : ℕ
  deriving DecidableEq

def getOrderForOutputName (outputOrder : List String) (name : String) : ℕ := outputOrder.findIdx fun known => known = name

def outputBefore (a b : OutputParameter) : Bool := a.order < b.order || a.posX < b.posX || a.posY < b.posY

/-- The outputs with their present order. -/
def orderedOutputs (outputOrder : List String) (outputs : List OutputParameter) : List OutputParameter :=
  outputs.map fun output => { output with order := getOrderForOutputName outputOrder output.name }

def sortedOutputs (sort : List OutputParameter → List OutputParameter) (outputOrder : List String)
    (outputs : List OutputParameter) : List OutputParameter := sort (orderedOutputs outputOrder outputs)

def getOutputNames (sort : List OutputParameter → List OutputParameter) (outputOrder : List String)
    (outputs : List OutputParameter) : List String := (sortedOutputs sort outputOrder outputs).map OutputParameter.name

/-! ## The order -/

def streamCoords : List (StreamInfo → ℤ) := [StreamInfo.posX, StreamInfo.posY]

def outputCoords : List (OutputParameter → ℤ) := [fun output => output.order, OutputParameter.posX, OutputParameter.posY]

theorem streamBefore_eq : streamBefore = joined streamCoords := by
  funext a b
  simp [streamBefore, joined, streamCoords]

theorem outputBefore_eq : outputBefore = joined outputCoords := by
  funext a b
  simp [outputBefore, joined, outputCoords, Bool.or_assoc]

/-- The streams can be sorted, and come in the same order whatever the order of the response. -/
def PortalIndependent (sort : List StreamInfo → List StreamInfo) (monitors : List Monitor) (streams : List PortalStream) :
    Prop :=
  StrictWeakOrder streamBefore (pipewireStreams monitors streams) ∧
    ∀ streams', streams'.Perm streams → startPortalSession sort monitors streams' = startPortalSession sort monitors streams

/-- The outputs can be sorted, and come in the same order whatever the order in the map. -/
def KwinIndependent (sort : List OutputParameter → List OutputParameter) (outputOrder : List String)
    (outputs : List OutputParameter) : Prop :=
  StrictWeakOrder outputBefore (orderedOutputs outputOrder outputs) ∧
    ∀ outputs', outputs'.Perm outputs → sortedOutputs sort outputOrder outputs' = sortedOutputs sort outputOrder outputs

section Layouts

variable {sortStreams : List StreamInfo → List StreamInfo} {sortOutputs : List OutputParameter → List OutputParameter}

theorem portalIndependent_iff (hsort : Sorts streamBefore sortStreams) {monitors : List Monitor} {streams : List PortalStream}
    (hdistinct : Distinct streamCoords (pipewireStreams monitors streams)) :
    PortalIndependent sortStreams monitors streams ↔ InLine streamCoords (pipewireStreams monitors streams) := by
  rw [streamBefore_eq] at hsort
  unfold PortalIndependent
  rw [streamBefore_eq]
  constructor
  · rintro ⟨horder, -⟩
    exact (joined_strictWeakOrder_iff _ _).mp horder
  · intro hline
    obtain ⟨horder, hsame⟩ := (orderIndependent_iff hsort hdistinct).mpr hline
    exact ⟨horder, fun streams' hperm => hsame _ (hperm.filterMap (streamInfo monitors))⟩

theorem kwinIndependent_iff (hsort : Sorts outputBefore sortOutputs) {outputOrder : List String}
    {outputs : List OutputParameter} (hdistinct : Distinct outputCoords (orderedOutputs outputOrder outputs)) :
    KwinIndependent sortOutputs outputOrder outputs ↔ InLine outputCoords (orderedOutputs outputOrder outputs) := by
  rw [outputBefore_eq] at hsort
  unfold KwinIndependent
  rw [outputBefore_eq]
  constructor
  · rintro ⟨horder, -⟩
    exact (joined_strictWeakOrder_iff _ _).mp horder
  · intro hline
    obtain ⟨horder, hsame⟩ := (orderIndependent_iff hsort hdistinct).mpr hline
    exact ⟨horder, fun outputs' hperm => hsame _ (hperm.map _)⟩

theorem getOutputNames_perm {outputOrder : List String} {outputs outputs' : List OutputParameter}
    (h : KwinIndependent sortOutputs outputOrder outputs) (hperm : outputs'.Perm outputs) :
    getOutputNames sortOutputs outputOrder outputs' = getOutputNames sortOutputs outputOrder outputs :=
  congrArg (List.map OutputParameter.name) (h.2 outputs' hperm)

/-- For displays that are at different places, the order depends on no enumeration exactly if of any two displays one is in
no coordinate behind the other. -/
theorem display_order_iff (hstreams : Sorts streamBefore sortStreams) (houtputs : Sorts outputBefore sortOutputs)
    (monitors : List Monitor) (streams : List PortalStream) (outputOrder : List String) (outputs : List OutputParameter)
    (hdistinct : Distinct streamCoords (pipewireStreams monitors streams))
    (hdistinct' : Distinct outputCoords (orderedOutputs outputOrder outputs)) :
    (PortalIndependent sortStreams monitors streams ↔ InLine streamCoords (pipewireStreams monitors streams)) ∧
      (KwinIndependent sortOutputs outputOrder outputs ↔ InLine outputCoords (orderedOutputs outputOrder outputs)) :=
  ⟨portalIndependent_iff hstreams hdistinct, kwinIndependent_iff houtputs hdistinct'⟩

end Layouts

/-! ## Two displays -/

section Examples

def streamsBy (before : StreamInfo → StreamInfo → Bool) (l : List StreamInfo) : List StreamInfo :=
  l.mergeSort fun a b => !before b a

def outputsBy (before : OutputParameter → OutputParameter → Bool) (l : List OutputParameter) : List OutputParameter :=
  l.mergeSort fun a b => !before b a

def streamAt (node : UInt32) (x y : ℤ) : PortalStream := ⟨node, some (1920, 1080), some (x, y), none⟩

def outputAt (name : String) (x y : ℤ) : OutputParameter := ⟨name, 1920, 1080, x, y, 0⟩

/-- Two displays, the second to the right of the first and below it. -/
theorem diagonal_independent :
    PortalIndependent (streamsBy streamBefore) [] [streamAt 40 0 0, streamAt 41 1920 200] ∧
      KwinIndependent (outputsBy outputBefore) ["DP-1", "DP-2"] [outputAt "DP-1" 0 0, outputAt "DP-2" 1920 200] := by
  obtain ⟨hportal, hkwin⟩ := display_order_iff (sorts_mergeSort streamBefore) (sorts_mergeSort outputBefore) []
    [streamAt 40 0 0, streamAt 41 1920 200] ["DP-1", "DP-2"] [outputAt "DP-1" 0 0, outputAt "DP-2" 1920 200]
    (by unfold Distinct; decide) (by unfold Distinct; decide)
  exact ⟨hportal.mpr (by unfold InLine; decide), hkwin.mpr (by unfold InLine; decide)⟩

/-- A display to the right of the other and above it is in front of it and behind it. -/
theorem antidiagonal_dependent : ¬∀ streams : List PortalStream,
    Distinct streamCoords (pipewireStreams [] streams) → PortalIndependent (streamsBy streamBefore) [] streams := by
  intro hall
  obtain ⟨horder, -⟩ := hall [streamAt 40 0 200, streamAt 41 1920 0] (by unfold Distinct; decide)
  have hasymm := horder.asymm ⟨40, spaIdInvalid, 1920, 1080, 0, 200, ""⟩ (by decide)
    ⟨41, spaIdInvalid, 1920, 1080, 1920, 0, ""⟩ (by decide) (by decide)
  exact absurd hasymm (by decide)

end Examples

end Sunshine.DisplayOrder
