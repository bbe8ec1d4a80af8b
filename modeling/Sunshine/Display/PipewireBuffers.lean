import Sunshine.Lib.Ledger
import Sunshine.Lib.Transitions

/-! The buffers of a PipeWire stream: the process callback takes them from the stream and keeps the newest DMA-BUF or copies
the newest frame in memory, the other callbacks forget it, and `fill_img` puts it into an image. The callbacks run with the
lock of the loop, which `fill_img` takes, so that each of them is one step.

`buffers_conserved_iff` says in which runs every buffer is kept or queued back, and each image gets one frame. -/
namespace Sunshine.PipewireBuffers
open Ledger Transitions
set_option autoImplicit false

/-! ## Buffers and frames -/

/-- One of the `datas` of a buffer, with the stride and the offset of its chunk. -/
structure Plane where
  fd : ℤ
  stride : BitVec 32
  offset : BitVec 32
  deriving DecidableEq

/-- `pw_buffer`. Of `datas[0]`, `data` is what the pointer points to and `size` is that of the chunk; `damage` is the size of
the first damaged region. -/
structure Buffer where
  id : ℕ
  dmabuf : Bool
  data : Option (ℕ → UInt8)
  size : ℕ
  plane : Plane
  planes : List Plane
  header : Option (UInt64 × UInt64)
  flags : UInt32
  damage : Option (UInt32 × UInt32)

structure FrameMetadata where
  arrivalTimestamp : ℤ
  sequence : Option UInt64
  pts : Option UInt64
  flags : Option UInt32
  damaged : Option Bool
  deriving DecidableEq

def FrameMetadata.empty : FrameMetadata := ⟨0, none, none, none, none⟩

/-- What `on_param_changed` keeps of a format that it can parse. -/
structure VideoFormat where
  width : UInt32
  height : UInt32
  modifier : UInt64
  drmFormat : UInt64
  deriving DecidableEq

structure SurfaceDescriptor where
  width : UInt32
  height : UInt32
  modifier : UInt64
  fourcc : UInt64
  planes : List Plane
  deriving DecidableEq

inductive Pixels where
  | untouched
  | dmabuf (sd : SurfaceDescriptor)
  | memory (data : List UInt8) (rowPitch : BitVec 32)
  deriving DecidableEq

/-- What one call of `fill_img` writes into an image. -/
structure Fill where
  metadata : FrameMetadata
  pixels : Pixels
  deriving DecidableEq

def captureFrameMetadata (now : ℤ) (buf : Buffer) : FrameMetadata where
  arrivalTimestamp := now
  sequence := buf.header.map Prod.fst
  pts := buf.header.map Prod.snd
  flags := some buf.flags
  damaged := (buf.damage.filter fun region => 0 < region.1 && 0 < region.2).map fun _ => true

/-- The bytes of the chunk. -/
def Buffer.bytes (buf : Buffer) (data : ℕ → UInt8) : List UInt8 := (List.range buf.size).map data

theorem Buffer.length_bytes (buf : Buffer) (data : ℕ → UInt8) : (buf.bytes data).length = buf.size := by
  unfold bytes
  rw [List.length_map, List.length_range]

/-- `fill_img_dmabuf` -/
def fillImgDmabuf (format : VideoFormat) (buf : Buffer) : SurfaceDescriptor where
  width := format.width
  height := format.height
  modifier := format.modifier
  fourcc := format.drmFormat
  planes := (buf.plane :: buf.planes).take 4

/-! ## The stream -/

inductive StreamState where
  | error
  | unconnected
  | connecting
  | paused
  | streaming
  deriving DecidableEq

/-- `stream_data_t`. Not in the source are what was taken and queued back (`ops`), the newest frame that was published with
its time, and what the images got, each with the frame that was published then. -/
structure State where
  currentBuffer : Option Buffer
  currentFrameDmabuf : Bool
  frameMetadata : FrameMetadata
  localStride : BitVec 64
  frontBuffer : List UInt8
  backBuffer : List UInt8
  format : VideoFormat
  streamDead : Bool
  ops : List (Op ℕ)
  published : Option (Buffer × ℤ)
  fills : List (Option (Buffer × ℤ) × Fill)

def start : State where
  currentBuffer := none
  currentFrameDmabuf := false
  frameMetadata := .empty
  localStride := 0
  frontBuffer := []
  backBuffer := []
  format := ⟨0, 0, 0, 0⟩
  streamDead := false
  ops := []
  published := none
  fills := []

inductive Event where
  | process (now : ℤ) (batch : List Buffer)
  | stateChanged (old state : StreamState)
  | paramChanged (format : Option VideoFormat)
  | fillImg
  /-- The capture thread takes the note that the stream is dead. -/
  | revived

/-- Each buffer but the last is queued back when the one behind it is taken. -/
def drain : Option Buffer → List Buffer → List (Op ℕ) × Option Buffer
  | b, [] => ([], b)
  | b, aux :: batch =>
    let rest := drain (some aux) batch
    (.acquire aux.id :: (releases (b.map Buffer.id) ++ rest.1), rest.2)

/-- A vector only ever grows. -/
def copyInto (back bytes : List UInt8) : List UInt8 :=
  let resized := if back.length < bytes.length then back ++ List.replicate (bytes.length - back.length) 0 else back
  bytes ++ resized.drop bytes.length

def publishDmabuf (s : State) (now : ℤ) (b : Buffer) : State := { s with
  currentBuffer := some b
  currentFrameDmabuf := true
  frameMetadata := captureFrameMetadata now b
  ops := s.ops ++ releases (s.currentBuffer.map Buffer.id)
  published := some (b, now) }

/-- The buffer is copied, the retained one queued back, the stride read, and the buffer queued back. -/
def publishMemory (s : State) (now : ℤ) (b : Buffer) (data : ℕ → UInt8) : State := { s with
  currentBuffer := none
  currentFrameDmabuf := false
  frameMetadata := captureFrameMetadata now b
  localStride := b.plane.stride.signExtend 64
  frontBuffer := copyInto s.backBuffer (b.bytes data)
  backBuffer := s.frontBuffer
  ops := s.ops ++ (.use b.id :: (releases (s.currentBuffer.map Buffer.id) ++ [.use b.id, .release b.id]))
  published := some (b, now) }

def onProcess (s : State) (now : ℤ) (batch : List Buffer) : State :=
  match (drain none batch).2 with
  | none => { s with ops := s.ops ++ (drain none batch).1 }
  | some b =>
    let s := { s with ops := s.ops ++ ((drain none batch).1 ++ [.use b.id]) }
    if b.dmabuf then publishDmabuf s now b
    else
      match b.data with
      | some data => publishMemory s now b data
      | none => s

def onStreamStateChanged (s : State) (old state : StreamState) : State :=
  match state with
  | .paused => if old = .streaming then { s with currentBuffer := none, streamDead := true } else s
  | .error | .unconnected => { s with streamDead := true }
  | .connecting | .streaming => s

def onParamChanged (s : State) (format : Option VideoFormat) : State := { s with
  currentBuffer := none
  format := format.getD s.format }

/-- An empty chunk, or no frame in memory, leaves the pixels of the image as they are. -/
def fillPixels (s : State) : Pixels :=
  match s.currentFrameDmabuf, s.currentBuffer with
  | true, some buf => if buf.size ≠ 0 then .dmabuf (fillImgDmabuf s.format buf) else .untouched
  | true, none => .untouched
  | false, _ => if s.frontBuffer ≠ [] then .memory s.frontBuffer (s.localStride.setWidth 32) else .untouched

/-- What `fill_img` writes, where it does not leave early. -/
def filled (s : State) : Option Fill :=
  if s.streamDead then none
  else if s.currentFrameDmabuf = true ∧ s.currentBuffer = none then none
  else some ⟨s.frameMetadata, fillPixels s⟩

def fillImg (s : State) : State :=
  match filled s with
  | none => s
  | some fill => { s with
    ops := s.ops ++ (if s.currentFrameDmabuf then (s.currentBuffer.map fun buf => .use buf.id).toList else [])
    fills := s.fills ++ [(s.published, fill)] }

def next (s : State) : Event → State
  | .process now batch => onProcess s now batch
  | .stateChanged old state => onStreamStateChanged s old state
  | .paramChanged format => onParamChanged s format
  | .fillImg => fillImg s
  | .revived => { s with streamDead := false }

/-! ## What is asked of a run -/

def Buffer.Holds (b : Buffer) : Pixels → Prop
  | .untouched => True
  | .dmabuf sd => b.dmabuf = true ∧ sd.planes = (b.plane :: b.planes).take 4
  | .memory data rowPitch => b.dmabuf = false ∧ b.data.map b.bytes = some data ∧ rowPitch = b.plane.stride

/-- The metadata, the pixels and the stride are those of one frame; before the first there are none. -/
def FromOne (published : Option (Buffer × ℤ)) (fill : Fill) : Prop :=
  match published with
  | none => fill = ⟨.empty, .untouched⟩
  | some (b, now) => fill.metadata = captureFrameMetadata now b ∧ b.Holds fill.pixels

/-- The buffers that were taken and not queued back are the retained one, none was queued back or read without being held,
and each image got one frame. -/
structure Conserved (s : State) : Prop where
  accounted : account 0 s.ops = some (one (s.currentBuffer.map Buffer.id))
  filled : ∀ pair ∈ s.fills, FromOne pair.1 pair.2

/-- The newest buffer of a batch has a frame, no buffer is forgotten, and the vector that is copied to an image holds nothing
behind the frame that was published last. -/
def Clean (s : State) : Event → Prop
  | .process _ batch => ∀ b, batch.getLast? = some b → b.dmabuf = true ∨ b.data ≠ none
  | .stateChanged old state => state = .paused → old = .streaming → s.currentBuffer = none
  | .paramChanged _ => s.currentBuffer = none
  | .fillImg => s.streamDead = false → s.currentFrameDmabuf = false →
      ∀ b now, s.published = some (b, now) → s.frontBuffer.length = b.size
  | .revived => True

/-! ## Taking buffers from the stream -/

theorem drain_snd (b : Option Buffer) (batch : List Buffer) : (drain b batch).2 = batch.getLast?.or b := by
  induction batch generalizing b with
  | nil => rfl
  | cons aux batch ih =>
    rw [drain]
    dsimp only
    rw [ih, List.getLast?_cons]
    cases batch.getLast? with
    | none => rfl
    | some last => rfl

/-- Of a batch, the last buffer is held behind the loop. -/
theorem account_drain (held : Multiset ℕ) (b : Option Buffer) (batch : List Buffer) :
    account (one (b.map Buffer.id) + held) (drain b batch).1 = some (one ((drain b batch).2.map Buffer.id) + held) := by
  induction batch generalizing b with
  | nil => rfl
  | cons aux batch ih =>
    rw [drain]
    dsimp only
    rw [account_acquire, add_left_comm, account_releases]
    exact ih (some aux)

section Steps

variable {s : State}

/-- What the callbacks keep of the frame that was published last. -/
structure Consistent (s : State) : Prop where
  fresh : s.published = none → s.currentFrameDmabuf = false ∧ s.frontBuffer = [] ∧ s.frameMetadata = .empty
  metadata : ∀ b now, s.published = some (b, now) → s.frameMetadata = captureFrameMetadata now b
  kind : ∀ b now, s.published = some (b, now) → s.currentFrameDmabuf = b.dmabuf
  retained : ∀ b now, s.published = some (b, now) → b.dmabuf = true → ∀ c, s.currentBuffer = some c → c = b
  copied : ∀ b now, s.published = some (b, now) → b.dmabuf = false →
    ∃ data rest, b.data = some data ∧ s.frontBuffer = b.bytes data ++ rest ∧ s.localStride = b.plane.stride.signExtend 64

theorem consistent_forget (h : Consistent s) : Consistent { s with currentBuffer := none } :=
  ⟨h.fresh, h.metadata, h.kind, fun _ _ _ _ _ hcurrent => (Option.some_ne_none _ hcurrent.symm).elim, h.copied⟩

theorem consistent_publishDmabuf (s : State) (now : ℤ) {b : Buffer} (hb : b.dmabuf = true) :
    Consistent (publishDmabuf s now b) := by
  have hthis : ∀ c t, (publishDmabuf s now b).published = some (c, t) → c = b ∧ t = now := by
    intro c t h
    obtain ⟨rfl, rfl⟩ := Prod.mk.inj (Option.some.inj h)
    exact ⟨rfl, rfl⟩
  constructor
  · exact nofun
  · intro c t h
    obtain ⟨rfl, rfl⟩ := hthis c t h
    rfl
  · intro c t h
    obtain ⟨rfl, rfl⟩ := hthis c t h
    exact hb.symm
  · intro c t h _ d hd
    obtain ⟨rfl, rfl⟩ := hthis c t h
    exact (Option.some.inj hd).symm
  · intro c t h hc
    obtain ⟨rfl, rfl⟩ := hthis c t h
    exact Bool.noConfusion (hc.symm.trans hb)

theorem consistent_publishMemory (s : State) (now : ℤ) {b : Buffer} {data : ℕ → UInt8} (hb : b.dmabuf = false)
    (hdata : b.data = some data) : Consistent (publishMemory s now b data) := by
  have hthis : ∀ c t, (publishMemory s now b data).published = some (c, t) → c = b ∧ t = now := by
    intro c t h
    obtain ⟨rfl, rfl⟩ := Prod.mk.inj (Option.some.inj h)
    exact ⟨rfl, rfl⟩
  constructor
  · exact nofun
  · intro c t h
    obtain ⟨rfl, rfl⟩ := hthis c t h
    rfl
  · intro c t h
    obtain ⟨rfl, rfl⟩ := hthis c t h
    exact hb.symm
  · intro c t h hc
    obtain ⟨rfl, rfl⟩ := hthis c t h
    exact Bool.noConfusion (hc.symm.trans hb)
  · intro c t h _
    obtain ⟨rfl, rfl⟩ := hthis c t h
    exact ⟨data, _, hdata, rfl, rfl⟩

theorem consistent_onProcess (h : Consistent s) (now : ℤ) (batch : List Buffer) : Consistent (onProcess s now batch) := by
  unfold onProcess
  cases (drain none batch).2 with
  | none => exact ⟨h.fresh, h.metadata, h.kind, h.retained, h.copied⟩
  | some b =>
    dsimp only
    split_ifs with hb
    · exact consistent_publishDmabuf _ now hb
    · cases hdata : b.data with
      | none => exact ⟨h.fresh, h.metadata, h.kind, h.retained, h.copied⟩
      | some data => exact consistent_publishMemory _ now (Bool.eq_false_iff.mpr hb) hdata

theorem consistent_next (h : Consistent s) (event : Event) : Consistent (next s event) := by
  cases event with
  | process now batch => exact consistent_onProcess h now batch
  | stateChanged old state =>
    unfold next onStreamStateChanged
    cases state with
    | paused =>
      dsimp only
      split_ifs
      · have hforget := consistent_forget h
        exact ⟨hforget.fresh, hforget.metadata, hforget.kind, hforget.retained, hforget.copied⟩
      · exact h
    | error => exact ⟨h.fresh, h.metadata, h.kind, h.retained, h.copied⟩
    | unconnected => exact ⟨h.fresh, h.metadata, h.kind, h.retained, h.copied⟩
    | connecting => exact h
    | streaming => exact h
  | paramChanged format =>
    have hforget := consistent_forget h
    exact ⟨hforget.fresh, hforget.metadata, hforget.kind, hforget.retained, hforget.copied⟩
  | fillImg =>
    unfold next fillImg
    cases filled s with
    | none => exact h
    | some fill => exact ⟨h.fresh, h.metadata, h.kind, h.retained, h.copied⟩
  | revived => exact ⟨h.fresh, h.metadata, h.kind, h.retained, h.copied⟩

/-! ## Accounts -/

/-- Forgetting the retained buffer is right exactly if there is none. -/
theorem forget_iff {s' : State} (h : Conserved s) (hcurrent : s'.currentBuffer = none) (hops : s'.ops = s.ops)
    (hfills : s'.fills = s.fills) : Conserved s' ↔ s.currentBuffer = none := by
  constructor
  · intro hgood
    have haccount := hgood.accounted
    rw [hops, h.accounted, hcurrent, Option.some.injEq] at haccount
    cases hc : s.currentBuffer with
    | none => rfl
    | some b =>
      rw [hc] at haccount
      exact absurd haccount (Multiset.singleton_ne_zero b.id)
  · intro hc
    refine ⟨?_, hfills ▸ h.filled⟩
    rw [hops, h.accounted, hc, hcurrent]

theorem conserved_of_same {s' : State} (h : Conserved s) (hcurrent : s'.currentBuffer = s.currentBuffer)
    (hops : s'.ops = s.ops) (hfills : s'.fills = s.fills) : Conserved s' := by
  refine ⟨?_, hfills ▸ h.filled⟩
  rw [hops, hcurrent]
  exact h.accounted

/-- The loop that takes the buffers, and a look at the newest of them. -/
theorem account_taken (h : Conserved s) {batch : List Buffer} {b : Buffer} (hb : (drain none batch).2 = some b) :
    account 0 (s.ops ++ ((drain none batch).1 ++ [.use b.id])) =
      some ({b.id} + one (s.currentBuffer.map Buffer.id)) := by
  refine account_then h.accounted ?_
  have hdrain := account_drain (one (s.currentBuffer.map Buffer.id)) none batch
  rw [hb, Option.map_none, one_none, zero_add] at hdrain
  rw [account_append, hdrain]
  exact account_use _ b.id []

theorem conserved_publishDmabuf {ops : List (Op ℕ)} (h : Conserved s) (now : ℤ) (b : Buffer)
    (hops : account 0 ops = some ({b.id} + one (s.currentBuffer.map Buffer.id))) :
    Conserved (publishDmabuf { s with ops := ops } now b) := by
  refine ⟨account_then hops ?_, h.filled⟩
  rw [add_comm]
  exact account_releases_only {b.id} (s.currentBuffer.map Buffer.id)

theorem conserved_publishMemory {ops : List (Op ℕ)} (h : Conserved s) (now : ℤ) (b : Buffer) (data : ℕ → UInt8)
    (hops : account 0 ops = some ({b.id} + one (s.currentBuffer.map Buffer.id))) :
    Conserved (publishMemory { s with ops := ops } now b data) := by
  refine ⟨account_then hops ?_, h.filled⟩
  rw [account_use, add_comm, account_releases]
  have hheld : ({b.id} : Multiset ℕ) = {b.id} + 0 := (add_zero _).symm
  rw [hheld, account_use, account_release]
  rfl

theorem process_iff (h : Conserved s) (now : ℤ) (batch : List Buffer) :
    Conserved (onProcess s now batch) ↔ Clean s (.process now batch) := by
  have hlast : (drain none batch).2 = batch.getLast? := by rw [drain_snd, Option.or_none]
  unfold onProcess Clean
  cases hb : (drain none batch).2 with
  | none =>
    rw [hb] at hlast
    obtain rfl := List.getLast?_eq_none_iff.mp hlast.symm
    exact iff_of_true (conserved_of_same h rfl (List.append_nil _) rfl)
      fun b hlast => (Option.some_ne_none b hlast.symm).elim
  | some b =>
    have htaken := account_taken h hb
    rw [hb] at hlast
    have hthis : (∀ c, batch.getLast? = some c → c.dmabuf = true ∨ c.data ≠ none) ↔ b.dmabuf = true ∨ b.data ≠ none := by
      rw [← hlast]
      exact ⟨fun hall => hall b rfl, fun hb c hc => Option.some.inj hc ▸ hb⟩
    refine Iff.trans ?_ hthis.symm
    dsimp only
    split_ifs with hdmabuf
    · exact iff_of_true (conserved_publishDmabuf h now b htaken) (.inl hdmabuf)
    · cases hdata : b.data with
      | some data => exact iff_of_true (conserved_publishMemory h now b data htaken) (.inr (Option.some_ne_none data))
      | none =>
        refine iff_of_false (fun hgood => ?_) fun hclean => hclean.elim hdmabuf fun hne => hne rfl
        have haccount : {b.id} + one (s.currentBuffer.map Buffer.id) = one (s.currentBuffer.map Buffer.id) :=
          Option.some.inj (htaken.symm.trans hgood.accounted)
        have hcard := congrArg Multiset.card haccount
        rw [Multiset.card_add, Multiset.card_singleton] at hcard
        omega

/-! ## Images -/

theorem stride_back (stride : BitVec 32) : (stride.signExtend 64).setWidth 32 = stride := by
  ext i hi
  have hwide : i < 64 := by omega
  rw [BitVec.getElem_setWidth, BitVec.getLsbD_signExtend, if_pos hi, decide_eq_true hwide, Bool.true_and,
    BitVec.getLsbD_eq_getElem hi]

theorem fromOne_iff (hs : Consistent s) {fill : Fill} (hfill : filled s = some fill) :
    FromOne s.published fill ↔ Clean s .fillImg := by
  unfold filled at hfill
  split_ifs at hfill with hdead hlost
  obtain rfl := Option.some.inj hfill
  unfold FromOne Clean
  cases hpublished : s.published with
  | none =>
    obtain ⟨hkind, hfront, hmetadata⟩ := hs.fresh hpublished
    refine iff_of_true ?_ fun _ _ _ _ hsome => (Option.some_ne_none _ hsome.symm).elim
    unfold fillPixels
    rw [hkind, hfront, hmetadata]
    rfl
  | some pair =>
    obtain ⟨b, now⟩ := pair
    have hkind := hs.kind b now hpublished
    have hmetadata := hs.metadata b now hpublished
    dsimp only
    rw [hmetadata, eq_self_iff_true, true_and]
    cases hdmabuf : b.dmabuf with
    | true =>
      rw [hdmabuf] at hkind
      obtain ⟨c, hc⟩ := Option.ne_none_iff_exists'.mp fun hnone => hlost ⟨hkind, hnone⟩
      obtain rfl := hs.retained b now hpublished hdmabuf c hc
      refine iff_of_true ?_ fun _ hfalse => Bool.noConfusion (hkind.symm.trans hfalse)
      unfold fillPixels
      rw [hkind, hc]
      dsimp only
      split_ifs
      · exact ⟨hdmabuf, rfl⟩
      · trivial
    | false =>
      rw [hdmabuf] at hkind
      obtain ⟨data, rest, hdata, hfront, hstride⟩ := hs.copied b now hpublished hdmabuf
      have hlength : s.frontBuffer.length = b.size ↔ rest = [] := by
        rw [hfront, List.length_append, b.length_bytes, ← List.length_eq_zero_iff]
        omega
      have hclean : (s.streamDead = false → s.currentFrameDmabuf = false → ∀ c t, some (b, now) = some (c, t) →
          s.frontBuffer.length = c.size) ↔ rest = [] := by
        rw [← hlength]
        constructor
        · intro hall
          exact hall (Bool.eq_false_iff.mpr hdead) hkind b now rfl
        · rintro heq - - c t hthis
          obtain ⟨rfl, -⟩ := Prod.mk.inj (Option.some.inj hthis)
          exact heq
      rw [hclean]
      unfold fillPixels
      rw [hkind]
      dsimp only
      split_ifs with hempty
      · constructor
        · rintro ⟨-, hbytes, -⟩
          rw [hdata, Option.map_some, Option.some.injEq, hfront] at hbytes
          exact List.append_right_eq_self.mp hbytes.symm
        · rintro rfl
          refine ⟨hdmabuf, ?_, ?_⟩
          · rw [hdata, hfront, List.append_nil]
            rfl
          · rw [hstride, stride_back]
      · rw [not_not] at hempty
        rw [hempty] at hfront
        exact iff_of_true trivial (List.append_eq_nil_iff.mp hfront.symm).2

theorem fillImg_iff (hs : Consistent s) (h : Conserved s) : Conserved (fillImg s) ↔ Clean s .fillImg := by
  unfold fillImg
  cases hfill : filled s with
  | none =>
    refine iff_of_true h fun hlive hmemory => ?_
    unfold filled at hfill
    rw [if_neg (by rw [hlive]; exact Bool.false_ne_true),
      if_neg (by rw [hmemory]; exact fun hboth => Bool.noConfusion hboth.1)] at hfill
    cases hfill
  | some fill =>
    rw [← fromOne_iff hs hfill]
    constructor
    · intro hgood
      exact hgood.filled (s.published, fill) (List.mem_append_right _ List.mem_cons_self)
    · intro hone
      refine ⟨account_then h.accounted ?_, fun pair hpair => ?_⟩
      · by_cases hkind : s.currentFrameDmabuf = true
        · cases hc : s.currentBuffer with
          | none => rw [if_pos hkind]; rfl
          | some c =>
            rw [if_pos hkind]
            exact account_use 0 c.id []
        · rw [if_neg hkind]
          rfl
      · cases List.mem_append.mp hpair with
        | inl hold => exact h.filled pair hold
        | inr hnew => exact List.mem_singleton.mp hnew ▸ hone

theorem conserved_next_iff (hs : Consistent s) (h : Conserved s) (event : Event) :
    Conserved (next s event) ↔ Clean s event := by
  cases event with
  | process now batch => exact process_iff h now batch
  | stateChanged old state =>
    unfold next onStreamStateChanged Clean
    cases state with
    | paused =>
      dsimp only
      split_ifs with hold
      · have hiff : Conserved { s with currentBuffer := none, streamDead := true } ↔ s.currentBuffer = none :=
          forget_iff h rfl rfl rfl
        exact ⟨fun hgood _ _ => hiff.mp hgood, fun hclean => hiff.mpr (hclean rfl hold)⟩
      · exact iff_of_true h fun _ hstreaming => absurd hstreaming hold
    | error => exact iff_of_true (conserved_of_same h rfl rfl rfl) nofun
    | unconnected => exact iff_of_true (conserved_of_same h rfl rfl rfl) nofun
    | connecting => exact iff_of_true h nofun
    | streaming => exact iff_of_true h nofun
  | paramChanged format => exact forget_iff h rfl rfl rfl
  | fillImg => exact fillImg_iff hs h
  | revived => exact iff_of_true (conserved_of_same h rfl rfl rfl) trivial

end Steps

/-! ## Runs -/

/-- Whatever is called in which order, the buffers are conserved and every image gets one frame at every point exactly if
all steps are clean. -/
theorem buffers_conserved_iff (events : List Event) :
    (∀ front, front <+: events → Conserved (front.foldl next start)) ↔ Runs Clean next start events := by
  have hnone : ∀ {pair}, start.published ≠ some pair := fun {pair} => (Option.some_ne_none pair).symm
  have hstart : Consistent start :=
    ⟨fun _ => ⟨rfl, rfl, rfl⟩, fun _ _ h => (hnone h).elim, fun _ _ h => (hnone h).elim, fun _ _ h => (hnone h).elim,
      fun _ _ h => (hnone h).elim⟩
  exact (runs_true events).always_iff Consistent Conserved hstart ⟨rfl, fun _ hpair => absurd hpair List.not_mem_nil⟩
    (fun s event hs _ => consistent_next hs event) fun s event hs h _ => conserved_next_iff hs h event

/-- A buffer in memory without data. -/
def emptyBuffer : Buffer where
  id := 7
  dmabuf := false
  data := none
  size := 0
  plane := ⟨-1, 0, 0⟩
  planes := []
  header := none
  flags := 0
  damage := none

theorem empty_buffer_kept : ¬∀ events : List Event, Conserved (events.foldl next start) := by
  intro hall
  have haccount := (hall [.process 0 [emptyBuffer]]).accounted
  exact absurd haccount (by decide)

end Sunshine.PipewireBuffers
