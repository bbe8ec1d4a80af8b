import Sunshine.Input.BatchRuns
import Sunshine.Lib.Remainders

/-! Scrolling, from the packets of a client to the pixels that macOS posts.

A distance may come in many packets and in few, and the queue may batch them. `SplitIndependent` says that it
does not matter how: the platform is told the same distance, and macOS posts the same pixels up to one. -/
namespace Sunshine.Scrolling
open Batching (Packet Scroll HScroll Device)
open Remainders
set_option autoImplicit false

/-! ## The accumulators -/

structure Config where
  mouse : Bool
  highResolutionScrolling : Bool

def wheelDelta : ℤ := 120

/-- `accumulated_vscroll_delta` and `accumulated_hscroll_delta`: what is left is less than a tick. -/
structure ScrollDelta where
  value : ℤ
  low : -wheelDelta < value
  high : value < wheelDelta

/-- An accumulator, and the distances that were handed to the platform. -/
structure Wheel where
  accumulated : ScrollDelta
  distances : List ℤ

/-- What is left when the full ticks are taken out. -/
def rest (sum : ℤ) : ScrollDelta :=
  ⟨sum - sum.tdiv wheelDelta * wheelDelta, by
    have hbounds := tmod_bounds (n := wheelDelta) (by decide) sum
    rw [Int.tmod_def, Int.mul_comm] at hbounds
    exact hbounds.1, by
    have hbounds := tmod_bounds (n := wheelDelta) (by decide) sum
    rw [Int.tmod_def, Int.mul_comm] at hbounds
    exact hbounds.2⟩

section Model

variable (config : Config)

/-- What either handler does with its amount. -/
def passthroughAmount (amount : Int16) (w : Wheel) : Wheel :=
  if !config.mouse then w
  else if config.highResolutionScrolling then { w with distances := w.distances ++ [amount.toInt] }
  else
    let sum := w.accumulated.value + amount.toInt
    let fullTicks := sum.tdiv wheelDelta
    { accumulated := rest sum
      distances := w.distances ++ if fullTicks ≠ 0 then [fullTicks * wheelDelta] else [] }

structure State where
  vscroll : Wheel
  hscroll : Wheel

def passthroughScroll (packet : Scroll) (s : State) : State :=
  { s with vscroll := passthroughAmount config packet.scrollAmt1 s.vscroll }

def passthroughHScroll (packet : HScroll) (s : State) : State :=
  { s with hscroll := passthroughAmount config packet.scrollAmount s.hscroll }

def passthrough (s : State) : Packet → State
  | .scroll packet => passthroughScroll config packet s
  | .hscroll packet => passthroughHScroll config packet s
  | _ => s

end Model

/-! ## Pixels on macOS -/

/-- The line height that the event source gives, rounded, and the lines of a detent. -/
structure MacosInput where
  pixelsPerLine : ℤ
  scrollLinesPerDetent : ℤ

def MacosInput.pixelsPerDetent (mac : MacosInput) : ℤ := max 1 mac.pixelsPerLine * max 1 mac.scrollLinesPerDetent

/-- The product fits 64 bits; the quotient is cast to an `int`. -/
def scrollPixels (mac : MacosInput) (highResDistance : ℤ) : ℤ :=
  ((highResDistance * mac.pixelsPerDetent).tdiv wheelDelta).bmod (2 ^ 32)

/-- The wheel event that is posted, if there is anything to post. -/
def postScroll (wheelY wheelX : ℤ) : Option (ℤ × ℤ) :=
  if wheelY = 0 ∧ wheelX = 0 then none else some (wheelY, wheelX)

def scroll (mac : MacosInput) (highResDistance : ℤ) : Option (ℤ × ℤ) :=
  postScroll (scrollPixels mac highResDistance) 0

def hscroll (mac : MacosInput) (highResDistance : ℤ) : Option (ℤ × ℤ) :=
  postScroll 0 (scrollPixels mac highResDistance)

/-! ## Splitting a distance -/

inductive Axis where
  | vertical
  | horizontal

def Axis.device : Axis → Device
  | .vertical => .vscroll
  | .horizontal => .hscroll

/-- The amount of a packet of the axis. -/
def Axis.amount : Axis → Packet → Option Int16
  | .vertical, .scroll packet => some packet.scrollAmt1
  | .horizontal, .hscroll packet => some packet.scrollAmount
  | _, _ => none

def Axis.wheel : Axis → State → Wheel
  | .vertical, s => s.vscroll
  | .horizontal, s => s.hscroll

def Axis.amounts (axis : Axis) (packets : List Packet) : List Int16 := packets.filterMap axis.amount

/-- The pixels that macOS posts for the distances, on the axis. -/
def Axis.pixels (axis : Axis) (mac : MacosInput) (distances : List ℤ) : ℤ :=
  match axis with
  | .vertical => ((distances.filterMap (scroll mac)).map Prod.fst).sum
  | .horizontal => ((distances.filterMap (hscroll mac)).map Prod.snd).sum

/-- Packets that arrive, with drains of the queue between them that end with an empty queue. -/
structure Way where
  events : List Batching.Event
  drained : (events.foldl Batching.step Batching.initial).inputQueue = []

def Way.queued (way : Way) : List Packet := (way.events.foldl Batching.step Batching.initial).queued

/-- What the queue hands on, some of it batched. -/
def Way.handled (way : Way) : List Packet :=
  (way.events.foldl Batching.step Batching.initial).passed.map Batching.Entry.packet

def Way.distances (way : Way) (axis : Axis) : List ℤ := (axis.amounts way.queued).map Int16.toInt

/-- The accumulators begin as they are. -/
def Way.run (config : Config) (vscroll hscroll : ScrollDelta) (way : Way) : State :=
  way.handled.foldl (passthrough config) ⟨⟨vscroll, []⟩, ⟨hscroll, []⟩⟩

/-- From any accumulators, two ways to send one distance in one direction have the same result: the same distance is
handed to the platform, all of it or all of its ticks with the rest kept, and macOS posts the same pixels up to one. -/
def SplitIndependent (config : Config) (mac : MacosInput) : Prop :=
  ∀ (axis : Axis) (vscroll hscroll : ScrollDelta) (first second : Way),
    OneSign (first.distances axis) → OneSign (second.distances axis) →
      (first.distances axis).sum = (second.distances axis).sum →
        let start := axis.wheel ⟨⟨vscroll, []⟩, ⟨hscroll, []⟩⟩
        let w₁ := axis.wheel (first.run config vscroll hscroll)
        let w₂ := axis.wheel (second.run config vscroll hscroll)
        w₁.distances.sum = w₂.distances.sum ∧
          (if config.highResolutionScrolling then w₁.distances.sum = (first.distances axis).sum
            else wheelDelta ∣ w₁.distances.sum ∧ w₁.distances.sum + w₁.accumulated.value =
              start.accumulated.value + (first.distances axis).sum) ∧
          |axis.pixels mac w₁.distances - axis.pixels mac w₂.distances| ≤ 1

/-- With mouse input enabled: a unit of distance is a number of pixels, or only whole ticks are sent; and the pixels of
one packet fit an `int`. -/
def PixelsKept (config : Config) (mac : MacosInput) : Prop :=
  config.mouse = true ∧
    if config.highResolutionScrolling then
      wheelDelta ∣ mac.pixelsPerDetent ∧ -65536 < (mac.pixelsPerDetent / wheelDelta).bmod (2 ^ 32) ∧
        (mac.pixelsPerDetent / wheelDelta).bmod (2 ^ 32) ≤ 65536
    else 274 * |mac.pixelsPerDetent.bmod (2 ^ 32)| < 2 ^ 31

end Sunshine.Scrolling
