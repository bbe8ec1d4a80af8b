import Sunshine.Lib.Picks
import Sunshine.Session.RtspReader
import Mathlib.Algebra.Order.Ring.Nat
import Mathlib.Data.List.Sort

/-! The names of the KMS displays (`kms_display_names`) and the planes that `display_t::init` finds for them.
`kms_names_agree_iff` says for which answers of the kernel each name finds the plane that it was made for. -/
namespace Sunshine.KmsNames
open Rtsp Texts Picks
set_option autoImplicit false

/-! ## What the kernel answers -/

/-- `drmModeGetConnectorTypeName`. -/
structure TypeNames (Kind : Type) where
  name : Kind → Text
  name_inj : Function.Injective name

structure Connector (Kind : Type) where
  type : Kind
  crtcId : ℕ

/-- A plane, with its property that makes it a cursor. -/
structure Plane where
  planeId : ℕ
  fbId : ℕ
  crtcId : ℕ
  isCursor : Bool
  deriving DecidableEq

/-- A file under `/dev/dri` with what `card_t` reads of it. `fb` gives the first handle of a framebuffer, which is zero
without permission. -/
structure Card (Kind : Type) where
  file : Text
  opens : Bool
  isNvidia : Bool
  planes : List Plane
  connectors : List (Connector Kind)
  fb : ℕ → Option ℕ
  crtc : ℕ → Bool
  ids : (planes.map Plane.planeId).Nodup

/-- The files in the order of the directory. All planes can be counted with an `int`. -/
structure Kernel (Kind : Type) where
  cards : List (Card Kind)
  files : (cards.map Card.file).Nodup
  counted : (cards.map fun card => card.planes.length).sum < 2 ^ 31

inductive MemType where
  | system
  | vaapi
  | dxgi
  | cuda
  | videotoolbox
  | vulkan
  | unknown
  deriving DecidableEq

structure Config where
  memType : MemType
  /-- The user has chosen NVENC. -/
  nvenc : Bool

section Model
variable {Kind : Type} [DecidableEq Kind] (types : TypeNames Kind) (config : Config)

/-- The cards that are not left out, in both loops. -/
def taken (card : Card Kind) : Bool :=
  card.file.take 4 = ['c', 'a', 'r', 'd'] ∧ card.opens ∧ (config.memType = .cuda → card.isNvidia ∨ config.nvenc) ∧
    ¬(config.memType = .vaapi ∧ card.isNvidia)

/-! ## `kms_display_names` -/

structure Monitor (Kind : Type) where
  type : Kind
  index : ℕ
  monitorIndex : ℕ

abbrev CrtcToMonitor (Kind : Type) := List (ℕ × Monitor Kind)

def formatKmsConnectorName (type : Kind) (index : ℕ) : Text := types.name type ++ '-' :: Nat.toDigits 10 index

/-- `card_t::monitors`, with the counts that all cards share. -/
def monitors (connTypeCount : Kind → ℕ) : List (Connector Kind) → List (ℕ × Monitor Kind) × (Kind → ℕ)
  | [] => ([], connTypeCount)
  | connector :: rest =>
    let index := connTypeCount connector.type + 1
    let next := monitors (Function.update connTypeCount connector.type index) rest
    ((connector.crtcId, { type := connector.type, index := index, monitorIndex := 0 }) :: next.1, next.2)

/-- An entry that is there stays. -/
def emplace (map : CrtcToMonitor Kind) (entry : ℕ × Monitor Kind) : CrtcToMonitor Kind :=
  if (map.lookup entry.1).isSome then map else map.orderedInsert (fun a b => a.1 ≤ b.1) entry

def mapCrtcToMonitor (monitors : List (ℕ × Monitor Kind)) : CrtcToMonitor Kind := monitors.foldl emplace []

def setMonitorIndex (crtcId count : ℕ) (map : CrtcToMonitor Kind) : CrtcToMonitor Kind :=
  map.map fun entry => if entry.1 = crtcId then (entry.1, { entry.2 with monitorIndex := count }) else entry

/-- A name with the plane that it was made for. -/
structure Naming (Kind : Type) where
  name : Text
  card : Card Kind
  plane : Plane

def nameOf (monitor : Option (Monitor Kind)) (count : ℕ) : Text :=
  match monitor with
  | some monitor => formatKmsConnectorName types monitor.type monitor.index
  | none => Nat.toDigits 10 count

/-- The loop over the planes of a card. A framebuffer without a handle ends it. -/
def namePlanes (card : Card Kind) (map : CrtcToMonitor Kind) (count : ℕ) : List Plane → List (Naming Kind) × CrtcToMonitor Kind
  | [] => ([], map)
  | plane :: rest =>
    if plane.fbId = 0 ∨ plane.isCursor then namePlanes card map count rest
    else if card.fb plane.fbId = none then namePlanes card map count rest
    else if card.fb plane.fbId = some 0 then ([], map)
    else if card.crtc plane.crtcId = false then namePlanes card map count rest
    else
      let next := namePlanes card (setMonitorIndex plane.crtcId count map) (count + 1) rest
      ({ name := nameOf types (map.lookup plane.crtcId) count, card := card, plane := plane } :: next.1, next.2)

structure CardDescriptor (Kind : Type) where
  path : Text
  crtcToMonitor : CrtcToMonitor Kind

/-- The loop over the cards: the names, and `card_descriptors`. -/
def nameCards (connTypeCount : Kind → ℕ) (count : ℕ) : List (Card Kind) → List (Naming Kind) × List (CardDescriptor Kind)
  | [] => ([], [])
  | card :: rest =>
    if taken config card then
      let counted := monitors connTypeCount card.connectors
      let named := namePlanes types card (mapCrtcToMonitor counted.1) count card.planes
      let next := nameCards counted.2 (count + named.1.length) rest
      (named.1 ++ next.1, { path := card.file, crtcToMonitor := named.2 } :: next.2)
    else nameCards connTypeCount count rest

def namings (kernel : Kernel Kind) : List (Naming Kind) := (nameCards types config (fun _ => 0) 0 kernel.cards).1

def cardDescriptors (kernel : Kernel Kind) : List (CardDescriptor Kind) :=
  (nameCards types config (fun _ => 0) 0 kernel.cards).2

def kmsDisplayNames (kernel : Kernel Kind) : List Text := (namings types config kernel).map Naming.name

/-! ## `display_t::init` -/

/-- For all but digits the fallback, and for a number that does not fit. -/
def parseMonitorIndex (text : Text) (fallback : ℤ) : ℤ :=
  if text = [] then fallback
  else if text.all isDigit then (parseInteger (-9223372036854775808) 9223372036854775807 text).getD fallback
  else fallback

def mapKmsDisplayName (displayName : Text) (monitors : List (Monitor Kind)) : ℤ :=
  if displayName = [] then 0
  else
    let index := parseMonitorIndex displayName (-1)
    if 0 ≤ index then index
    else
      match monitors.find? fun monitor => displayName = formatKmsConnectorName types monitor.type monitor.index with
      | some monitor => monitor.monitorIndex
      | none => 0

inductive Search (Kind : Type) where
  | found (card : Card Kind) (plane : Plane)
  | failed
  | next (monitor : ℕ)

/-- The loop over the planes of a card that counts up to the monitor's index. -/
def searchPlanes (monitorIndex : ℤ) (descriptors : List (CardDescriptor Kind)) (card : Card Kind) (monitor : ℕ) :
    List Plane → Search Kind
  | [] => .next monitor
  | plane :: rest =>
    if plane.fbId = 0 ∨ plane.isCursor then searchPlanes monitorIndex descriptors card monitor rest
    else if (monitor : ℤ) ≠ monitorIndex then searchPlanes monitorIndex descriptors card (monitor + 1) rest
    else if card.fb plane.fbId = none ∨ card.fb plane.fbId = some 0 then .failed
    else if card.crtc plane.crtcId = false then searchPlanes monitorIndex descriptors card monitor rest
    else if (descriptors.find? fun descriptor => descriptor.path = card.file).isSome then .found card plane
    else .failed

def resume (search : Search Kind) (following : ℕ → Search Kind) : Search Kind :=
  match search with
  | .next monitor => following monitor
  | done => done

def searchCards (monitorIndex : ℤ) (descriptors : List (CardDescriptor Kind)) (monitor : ℕ) : List (Card Kind) → Search Kind
  | [] => .failed
  | card :: rest =>
    if taken config card then
      resume (searchPlanes monitorIndex descriptors card monitor card.planes) fun monitor =>
        searchCards monitorIndex descriptors monitor rest
    else searchCards monitorIndex descriptors monitor rest

/-- The part of `display_t::init` that finds a plane. The index is kept as an `int`. -/
def init (kernel : Kernel Kind) (displayName : Text) : Search Kind :=
  let descriptors := cardDescriptors types config kernel
  let monitors := descriptors.flatMap fun descriptor => descriptor.crtcToMonitor.map Prod.snd
  let monitorIndex := (mapKmsDisplayName types displayName monitors).bmod (2 ^ 32)
  searchCards config monitorIndex descriptors 0 kernel.cards

end Model

end Sunshine.KmsNames
