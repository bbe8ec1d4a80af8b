import Mathlib.Tactic.Abel
import Sunshine.Lib.Entries
import Sunshine.Lib.Ledger
import Sunshine.Lib.Transitions

/-! Screencopy of a Wayland compositor: the callbacks of `dmabuf_t`, which share one GBM buffer, one `wl_buffer` and two
descriptors between all frames that are outstanding.

`resources_conserved` says in which runs everything is released once, and that a frame is published with the descriptor of
its own buffer. -/
namespace Sunshine.Screencopy
open Ledger Transitions
set_option autoImplicit false

/-! ## The state -/

/-- What has to be released, with a number that is never given again. -/
inductive Resource where
  | frame (number : ℕ)
  | bo (number : ℕ)
  | wlBuffer (number : ℕ)
  | fd (number : ℕ)
  deriving DecidableEq

inductive Status where
  | waiting
  | ready
  | reinit
  deriving DecidableEq

structure DmabufInfo where
  format : UInt32
  width : UInt32
  height : UInt32
  deriving DecidableEq

/-- `egl::surface_descriptor_t`, of which only the first plane is used. -/
structure SurfaceDescriptor where
  width : UInt32
  height : UInt32
  fourcc : UInt32
  modifier : UInt64
  fd : Option ℕ
  pitch : UInt32
  deriving DecidableEq

def SurfaceDescriptor.empty : SurfaceDescriptor := ⟨0, 0, 0, 0, none, 0⟩

def SurfaceDescriptor.resource (sd : SurfaceDescriptor) : Option Resource := sd.fd.map .fd

/-- A frame that the compositor has not finished, with the descriptor of the buffer that it is copied into. -/
inductive Phase where
  | announced
  | creating
  | copying (buffer : SurfaceDescriptor)
  deriving DecidableEq

/-- `dmabuf_t` with the objects of the compositor that call it. `current` is the descriptor that `current_frame` points
to, `nextFrame` the other one; a descriptor is in `params` until its buffer is created or fails. -/
structure State where
  status : Status
  shmSupported : Bool
  dmabufInfo : Option DmabufInfo
  gbmDev : Bool
  currentBo : Option ℕ
  currentWlBuffer : Option ℕ
  current : SurfaceDescriptor
  nextFrame : SurfaceDescriptor
  frames : List (ℕ × Phase)
  params : List (ℕ × SurfaceDescriptor)
  frameCount : ℕ
  boCount : ℕ
  wlBufferCount : ℕ
  fdCount : ℕ
  ops : List (Op Resource)
  /-- The descriptor published when a frame became ready, and that of its buffer. -/
  published : List (SurfaceDescriptor × SurfaceDescriptor)
  finished : Bool

def start : State where
  status := .ready
  shmSupported := false
  dmabufInfo := none
  gbmDev := false
  currentBo := none
  currentWlBuffer := none
  current := .empty
  nextFrame := .empty
  frames := []
  params := []
  frameCount := 0
  boCount := 0
  wlBufferCount := 0
  fdCount := 0
  ops := []
  published := []
  finished := false

/-- What the calls of one `buffer_done` return: `init_gbm`, the two ways to create a buffer, its descriptor, its stride and
its modifier. -/
structure Answers where
  initGbm : Bool
  createWithModifiers : Bool
  create : Bool
  getFd : Bool
  stride : UInt32
  modifier : UInt64

/-- Whether the compositor has the DMA-BUF interface, and the formats that it lists modifiers for. -/
structure Config where
  dmabufInterface : Bool
  hasModifiers : UInt32 → Bool

inductive Event where
  | listen
  | buffer (frame : ℕ)
  | linuxDmabuf (frame : ℕ) (info : DmabufInfo)
  | bufferDone (frame : ℕ) (answers : Answers)
  | bufferParamsCreated (frame : ℕ)
  | bufferParamsFailed (frame : ℕ)
  | ready (frame : ℕ)
  | failed (frame : ℕ)
  /-- `wlr_vram_t::snapshot` hands the current descriptor to an image. -/
  | snapshot
  /-- The destructor. -/
  | destroy

/-! ## The callbacks -/

def setPhase (frames : List (ℕ × Phase)) (frame : ℕ) (phase : Phase) : List (ℕ × Phase) :=
  frames.map fun entry => if entry.1 = frame then (frame, phase) else entry

def destroyBo (s : State) : State := { s with
  currentBo := none
  ops := s.ops ++ releases (s.currentBo.map .bo) }

def destroyWlBuffer (s : State) : State := { s with
  currentWlBuffer := none
  ops := s.ops ++ releases (s.currentWlBuffer.map .wlBuffer) }

def cleanupGbm (s : State) : State := destroyWlBuffer (destroyBo s)

/-- The descriptor of the frame that `current_frame` does not point to is closed. -/
def destroyNext (s : State) : State := { s with
  nextFrame := { s.nextFrame with fd := none }
  ops := s.ops ++ releases s.nextFrame.resource }

/-- `frame_t::destroy` of the current frame; a hand-over to an image does the same to it. -/
def dropCurrent (s : State) : State := { s with
  current := { s.current with fd := none }
  ops := s.ops ++ releases s.current.resource }

/-- The last a callback does to its frame. -/
def destroyFrame (s : State) (frame : ℕ) (status : Status) : State := { s with
  status := status
  frames := s.frames.filter fun entry => entry.1 ≠ frame
  ops := s.ops ++ [.release (.frame frame)] }

def listen (s : State) : State := { s with
  status := .waiting
  shmSupported := false
  dmabufInfo := none
  frames := (s.frameCount, .announced) :: s.frames
  frameCount := s.frameCount + 1
  ops := s.ops ++ [.acquire (.frame s.frameCount)] }

/-- What a call that creates a buffer leaves in `current_bo`. -/
def setBo (s : State) (created : Bool) : State :=
  if created then
    { s with currentBo := some s.boCount, boCount := s.boCount + 1, ops := s.ops ++ [.acquire (.bo s.boCount)] }
  else { s with currentBo := none }

def createBo (config : Config) (s : State) (format : UInt32) (answers : Answers) : State :=
  let s := if config.hasModifiers format then setBo s answers.createWithModifiers else s
  if s.currentBo = none then setBo s answers.create else s

/-- The descriptor of a buffer. -/
def described (info : DmabufInfo) (answers : Answers) (fd : ℕ) : SurfaceDescriptor where
  width := info.width
  height := info.height
  fourcc := info.format
  modifier := answers.modifier
  fd := some fd
  pitch := answers.stride

/-- From `gbm_bo_get_fd` to the request that creates the buffer. -/
def exportBo (s : State) (frame : ℕ) (info : DmabufInfo) (answers : Answers) (bo : ℕ) : State :=
  if ¬answers.getFd then
    destroyFrame { s with currentBo := none, ops := s.ops ++ [.use (.bo bo), .release (.bo bo)] } frame .reinit
  else { s with
    nextFrame := { s.nextFrame with modifier := answers.modifier, fd := some s.fdCount, pitch := answers.stride }
    frames := setPhase s.frames frame .creating
    params := (frame, described info answers s.fdCount) :: s.params
    fdCount := s.fdCount + 1
    ops := s.ops ++ [.use (.bo bo), .acquire (.fd s.fdCount), .use (.fd s.fdCount)] }

def createAndCopyDmabuf (config : Config) (s : State) (frame : ℕ) (info : DmabufInfo) (answers : Answers) : State :=
  if s.gbmDev = false ∧ answers.initGbm = false then destroyFrame s frame .reinit
  else
    let s := createBo config { s with gbmDev := true } info.format answers
    match s.currentBo with
    | none => destroyFrame s frame .reinit
    | some bo => exportBo s frame info answers bo

/-- The format is stored before the buffer is created; there is no other than the DMA-BUF path. -/
def bufferDone (config : Config) (s : State) (frame : ℕ) (answers : Answers) : State :=
  match s.dmabufInfo with
  | some info =>
    if config.dmabufInterface then
      createAndCopyDmabuf config { s with
        nextFrame := { s.nextFrame with fourcc := info.format, width := info.width, height := info.height } }
        frame info answers
    else destroyFrame s frame .reinit
  | none => destroyFrame s frame .reinit

/-- The callback reads the frame, takes the buffer over and starts the copy. -/
def bufferParamsCreated (s : State) (frame : ℕ) (buffer : SurfaceDescriptor) : State := { s with
  currentWlBuffer := some s.wlBufferCount
  wlBufferCount := s.wlBufferCount + 1
  frames := setPhase s.frames frame (.copying buffer)
  params := s.params.filter fun entry => entry.1 ≠ frame
  ops := s.ops ++ [.acquire (.wlBuffer s.wlBufferCount), .use (.frame frame), .use (.wlBuffer s.wlBufferCount)] }

def bufferParamsFailed (s : State) (frame : ℕ) : State :=
  destroyFrame (cleanupGbm { s with
    params := s.params.filter fun entry => entry.1 ≠ frame
    ops := s.ops ++ [.use (.frame frame)] }) frame .reinit

def ready (s : State) (frame : ℕ) (buffer : SurfaceDescriptor) : State :=
  let dropped := dropCurrent s
  let swapped := { dropped with
    current := dropped.nextFrame
    nextFrame := dropped.current
    published := dropped.published ++ [(dropped.nextFrame, buffer)] }
  destroyFrame (cleanupGbm (destroyWlBuffer swapped)) frame .ready

def failed (s : State) (frame : ℕ) : State := destroyFrame (destroyNext (cleanupGbm s)) frame .reinit

def destroy (s : State) : State := { destroyNext (dropCurrent (cleanupGbm s)) with finished := true }

def next (config : Config) (s : State) : Event → State
  | .listen => listen s
  | .buffer _ => { s with shmSupported := true }
  | .linuxDmabuf _ info => { s with dmabufInfo := some info }
  | .bufferDone frame answers => bufferDone config s frame answers
  | .bufferParamsCreated frame => (s.params.lookup frame).elim s fun buffer => bufferParamsCreated s frame buffer
  | .bufferParamsFailed frame => bufferParamsFailed s frame
  | .ready frame =>
    match s.frames.lookup frame with
    | some (.copying buffer) => ready s frame buffer
    | _ => s
  | .failed frame => failed s frame
  | .snapshot => dropCurrent s
  | .destroy => destroy s

/-- The order of the protocol. A snapshot is not repeated on a display that has to be set up again, and hands over where
it has seen `READY`. -/
def enabled (s : State) (event : Event) : Prop :=
  s.finished = false ∧
    match event with
    | .listen => s.status ≠ .reinit
    | .buffer frame | .linuxDmabuf frame _ | .bufferDone frame _ => (frame, .announced) ∈ s.frames
    | .bufferParamsCreated frame | .bufferParamsFailed frame => frame ∈ s.params.map Prod.fst
    | .ready frame => ∃ buffer, (frame, .copying buffer) ∈ s.frames
    | .failed frame => ∃ phase, (frame, phase) ∈ s.frames ∧ phase ≠ .announced
    | .snapshot => s.status = .ready
    | .destroy => True

/-- No second frame is started beside another, no frame fails while its buffer is being created, and none is outstanding
at the end. -/
def Clean (s : State) : Event → Prop
  | .listen => s.frames = []
  | .failed frame => (frame, .creating) ∉ s.frames
  | .destroy => s.frames = []
  | _ => True

/-- Nothing is released that is not held, or used; at the end nothing is held; and each frame was published with the
descriptor of its buffer. -/
structure Conserved (s : State) : Prop where
  accounted : ∃ held, account 0 s.ops = some held ∧ (s.finished = true → held = 0)
  published : ∀ pair ∈ s.published, pair.1 = pair.2

/-! ## Accounts -/

section Accounts
variable {config : Config} {s : State} {frame : ℕ} {phase : Phase}

def heldFrames (frames : List (ℕ × Phase)) : Multiset Resource := frames.map fun entry => Resource.frame entry.1

/-- What the members hold. -/
def held (s : State) : Multiset Resource :=
  heldFrames s.frames + (one (s.currentBo.map .bo) +
    (one (s.currentWlBuffer.map .wlBuffer) + (one s.current.resource + one s.nextFrame.resource)))

/-- All that was acquired and not released is held by a member. -/
def Accounted (s : State) : Prop := account 0 s.ops = some (held s)

theorem Accounted.releases {s' : State} (h : Accounted s) {resource : Option Resource}
    (hops : s'.ops = s.ops ++ releases resource) (hheld : held s = one resource + held s') : Accounted s' := by
  unfold Accounted
  rw [hops]
  refine account_then h ?_
  rw [hheld]
  exact account_releases_only _ _

theorem Accounted.congr {s' : State} (h : Accounted s) (hops : s'.ops = s.ops) (hheld : held s = held s') :
    Accounted s' := by
  unfold Accounted
  rw [hops, ← hheld]
  exact h

theorem accounted_destroyBo (h : Accounted s) : Accounted (destroyBo s) := by
  refine h.releases rfl ?_
  simp only [held, destroyBo, Option.map_none, one_none]
  abel

theorem accounted_destroyWlBuffer (h : Accounted s) : Accounted (destroyWlBuffer s) := by
  refine h.releases rfl ?_
  simp only [held, destroyWlBuffer, Option.map_none, one_none]
  abel

theorem accounted_cleanupGbm (h : Accounted s) : Accounted (cleanupGbm s) :=
  accounted_destroyWlBuffer (accounted_destroyBo h)

theorem accounted_dropCurrent (h : Accounted s) : Accounted (dropCurrent s) := by
  refine h.releases rfl ?_
  simp only [held, dropCurrent, SurfaceDescriptor.resource, Option.map_none, one_none]
  abel

theorem accounted_destroyNext (h : Accounted s) : Accounted (destroyNext s) := by
  refine h.releases rfl ?_
  simp only [held, destroyNext, SurfaceDescriptor.resource, Option.map_none, one_none]
  abel

theorem held_frame (hframes : s.frames = [(frame, phase)]) : held s = {.frame frame} + (one (s.currentBo.map .bo) +
    (one (s.currentWlBuffer.map .wlBuffer) + (one s.current.resource + one s.nextFrame.resource))) := by
  unfold held
  rw [hframes]
  rfl

theorem frames_destroyFrame (hframes : s.frames = [(frame, phase)]) (status : Status) :
    (destroyFrame s frame status).frames = [] := by
  simp [destroyFrame, hframes]

theorem accounted_destroyFrame (h : Accounted s) (hframes : s.frames = [(frame, phase)]) (status : Status) :
    Accounted (destroyFrame s frame status) := by
  have hrest : held (destroyFrame s frame status) = one (s.currentBo.map .bo) +
      (one (s.currentWlBuffer.map .wlBuffer) + (one s.current.resource + one s.nextFrame.resource)) := by
    unfold held
    rw [frames_destroyFrame hframes]
    exact zero_add _
  refine account_then h ?_
  rw [held_frame hframes, hrest]
  exact account_release _ _ []

theorem accounted_listen (h : Accounted s) : Accounted (listen s) := by
  refine account_then h ?_
  show some ({.frame s.frameCount} + held s) = some (held (listen s))
  congr 1
  unfold held
  rw [← add_assoc]
  rfl

/-- Where a buffer is held, `current_bo` must not be set again. -/
theorem accounted_setBo (h : Accounted s) (hbo : s.currentBo = none) (created : Bool) : Accounted (setBo s created) := by
  unfold setBo
  cases created with
  | true =>
    rw [if_pos rfl]
    refine account_then h ?_
    show some ({.bo s.boCount} + held s) = some _
    congr 1
    simp only [held, hbo, Option.map_none, Option.map_some, one_none, one_some]
    abel
  | false =>
    rw [if_neg (by decide)]
    exact h.congr rfl (by simp only [held, hbo])

theorem setBo_rest (s : State) (created : Bool) :
    ∃ bo count ops, setBo s created = { s with currentBo := bo, boCount := count, ops := ops } := by
  unfold setBo
  split_ifs
  · exact ⟨_, _, _, rfl⟩
  · exact ⟨none, s.boCount, s.ops, rfl⟩

theorem createBo_rest (config : Config) (s : State) (format : UInt32) (answers : Answers) :
    ∃ bo count ops, createBo config s format answers = { s with currentBo := bo, boCount := count, ops := ops } := by
  unfold createBo
  obtain ⟨bo, count, ops, hset⟩ := setBo_rest s answers.createWithModifiers
  dsimp only
  split_ifs with hmodifiers hnone hnone
  · rw [hset]
    obtain ⟨bo', count', ops', hset'⟩ :=
      setBo_rest { s with currentBo := bo, boCount := count, ops := ops } answers.create
    exact ⟨bo', count', ops', hset'⟩
  · exact ⟨bo, count, ops, hset⟩
  · exact setBo_rest s answers.create
  · exact ⟨s.currentBo, s.boCount, s.ops, rfl⟩

theorem accounted_createBo (h : Accounted s) (hbo : s.currentBo = none) (format : UInt32) (answers : Answers) :
    Accounted (createBo config s format answers) := by
  unfold createBo
  dsimp only
  split_ifs with hmodifiers hnone
  · exact accounted_setBo (accounted_setBo h hbo _) hnone _
  · exact accounted_setBo h hbo _
  · exact accounted_setBo h hbo _

/-- Where a descriptor is open, it must not be overwritten. -/
theorem accounted_described (h : Accounted s) (hnext : s.nextFrame.fd = none) {bo : ℕ} (hbo : s.currentBo = some bo)
    (sd : SurfaceDescriptor) (hfd : sd.fd = some s.fdCount) {frames : List (ℕ × Phase)}
    (hframes : heldFrames frames = heldFrames s.frames) (params : List (ℕ × SurfaceDescriptor)) :
    Accounted { s with
      nextFrame := sd
      frames := frames
      params := params
      fdCount := s.fdCount + 1
      ops := s.ops ++ [.use (.bo bo), .acquire (.fd s.fdCount), .use (.fd s.fdCount)] } := by
  refine account_then h ?_
  have hhas : held s = {.bo bo} + (heldFrames s.frames + (one (s.currentWlBuffer.map .wlBuffer) + one s.current.resource)) := by
    simp only [held, hbo, SurfaceDescriptor.resource, hnext, Option.map_none, Option.map_some, one_none, one_some]
    abel
  rw [hhas, account_use, account_acquire, account_use, account_nil]
  congr 1
  simp only [held, hbo, hframes, SurfaceDescriptor.resource, hfd, Option.map_some, one_some]
  abel

theorem accounted_lost {bo : ℕ} (h : Accounted s) (hbo : s.currentBo = some bo) :
    Accounted { s with currentBo := none, ops := s.ops ++ [.use (.bo bo), .release (.bo bo)] } := by
  refine account_then h ?_
  have hhas : held s = {.bo bo} + (heldFrames s.frames +
      (one (s.currentWlBuffer.map .wlBuffer) + (one s.current.resource + one s.nextFrame.resource))) := by
    simp only [held, hbo, Option.map_some, one_some]
    abel
  rw [hhas, account_use, account_release, account_nil]
  congr 1
  simp only [held, Option.map_none, one_none]
  abel

theorem heldFrames_setPhase (frames : List (ℕ × Phase)) (frame : ℕ) (phase : Phase) :
    heldFrames (setPhase frames frame phase) = heldFrames frames := by
  unfold heldFrames setPhase
  rw [List.map_map]
  congr 1
  refine List.map_congr_left fun entry _ => ?_
  dsimp only [Function.comp]
  split_ifs with heq
  · rw [heq]
  · rfl

/-- Where a `wl_buffer` is held, it must not be overwritten; the callback reads its frame. -/
theorem accounted_bufferParamsCreated (h : Accounted s) (hwl : s.currentWlBuffer = none)
    (hframes : s.frames = [(frame, phase)]) (buffer : SurfaceDescriptor) :
    Accounted (bufferParamsCreated s frame buffer) := by
  refine account_then h ?_
  have hhas : {.wlBuffer s.wlBufferCount} + held s = {.frame frame} + ({.wlBuffer s.wlBufferCount} +
      (one (s.currentBo.map .bo) + (one s.current.resource + one s.nextFrame.resource))) := by
    rw [held_frame hframes, hwl, Option.map_none, one_none]
    abel
  have hswap : {Resource.frame frame} + ({.wlBuffer s.wlBufferCount} +
      (one (s.currentBo.map .bo) + (one s.current.resource + one s.nextFrame.resource))) =
      {.wlBuffer s.wlBufferCount} + ({.frame frame} +
        (one (s.currentBo.map .bo) + (one s.current.resource + one s.nextFrame.resource))) := add_left_comm _ _ _
  rw [account_acquire, hhas, account_use, hswap, account_use, account_nil]
  congr 1
  have hframes' : heldFrames (bufferParamsCreated s frame buffer).frames = {.frame frame} := by
    show heldFrames (setPhase s.frames frame _) = _
    rw [heldFrames_setPhase, hframes]
    rfl
  unfold held
  rw [hframes']
  simp only [bufferParamsCreated, Option.map_some, one_some]
  abel

end Accounts

/-! ## One frame at a time -/

/-- Where the one frame is. -/
inductive Stage (s : State) : Prop where
  | idle (frames : s.frames = []) (params : s.params = []) (bo : s.currentBo = none) (wl : s.currentWlBuffer = none)
      (waiting : s.status ≠ .waiting) (clear : s.status = .ready → s.nextFrame.fd = none)
  | announced (frame : ℕ) (frames : s.frames = [(frame, .announced)]) (params : s.params = []) (bo : s.currentBo = none)
      (wl : s.currentWlBuffer = none) (clear : s.nextFrame.fd = none)
  | creating (frame : ℕ) (frames : s.frames = [(frame, .creating)]) (params : s.params = [(frame, s.nextFrame)])
      (wl : s.currentWlBuffer = none)
  | copying (frame : ℕ) (frames : s.frames = [(frame, .copying s.nextFrame)]) (params : s.params = [])

structure Inv (s : State) : Prop where
  accounted : Accounted s
  published : ∀ pair ∈ s.published, pair.1 = pair.2
  stage : s.finished = false → Stage s
  bare : s.finished = true → held s = 0

section Steps
variable {config : Config} {s : State} {frame : ℕ} {phase : Phase}

/-- Before the destruction only the stage has to be shown. -/
theorem Inv.live (accounted : Accounted s) (published : ∀ pair ∈ s.published, pair.1 = pair.2)
    (hlive : s.finished = false) (stage : Stage s) : Inv s :=
  ⟨accounted, published, fun _ => stage, fun hfinished => absurd (hlive.symm.trans hfinished) (by decide)⟩

theorem Stage.of_announced (h : Stage s) (hmem : (frame, Phase.announced) ∈ s.frames) :
    s.frames = [(frame, .announced)] ∧ s.params = [] ∧ s.currentBo = none ∧ s.currentWlBuffer = none ∧
      s.nextFrame.fd = none := by
  cases h with
  | idle frames => exact absurd hmem (by rw [frames]; exact List.not_mem_nil)
  | announced frame' frames params bo wl clear =>
    rw [frames, List.mem_singleton] at hmem
    obtain ⟨rfl, -⟩ := Prod.mk.inj hmem
    exact ⟨frames, params, bo, wl, clear⟩
  | creating frame' frames => exact absurd hmem (by simp [frames])
  | copying frame' frames => exact absurd hmem (by simp [frames])

theorem Stage.of_params (h : Stage s) (hmem : frame ∈ s.params.map Prod.fst) :
    s.frames = [(frame, .creating)] ∧ s.params = [(frame, s.nextFrame)] ∧ s.currentWlBuffer = none := by
  cases h with
  | idle _ params => exact absurd hmem (by simp [params])
  | announced _ _ params => exact absurd hmem (by simp [params])
  | creating frame' frames params wl =>
    obtain rfl : frame = frame' := by simpa [params] using hmem
    exact ⟨frames, params, wl⟩
  | copying _ _ params => exact absurd hmem (by simp [params])

theorem Stage.of_copying (h : Stage s) (hmem : (frame, phase) ∈ s.frames) (hannounced : phase ≠ .announced)
    (hcreating : (frame, .creating) ∉ s.frames) : s.frames = [(frame, .copying s.nextFrame)] ∧ s.params = [] := by
  cases h with
  | idle frames => exact absurd hmem (by rw [frames]; exact List.not_mem_nil)
  | announced frame' frames =>
    rw [frames, List.mem_singleton] at hmem
    exact absurd (Prod.mk.inj hmem).2 hannounced
  | creating frame' frames =>
    rw [frames, List.mem_singleton] at hmem
    obtain ⟨rfl, rfl⟩ := Prod.mk.inj hmem
    exact absurd (by rw [frames]; exact List.mem_singleton.mpr rfl) hcreating
  | copying frame' frames params =>
    have hmem' := hmem
    rw [frames, List.mem_singleton] at hmem'
    obtain ⟨rfl, -⟩ := Prod.mk.inj hmem'
    exact ⟨frames, params⟩

theorem Stage.of_free (h : Stage s) (hframes : s.frames = []) : s.params = [] ∧ s.currentBo = none ∧
    s.currentWlBuffer = none ∧ s.status ≠ .waiting ∧ (s.status = .ready → s.nextFrame.fd = none) := by
  cases h with
  | idle _ params bo wl waiting clear => exact ⟨params, bo, wl, waiting, clear⟩
  | announced _ frames => exact absurd (hframes.symm.trans frames) (List.cons_ne_nil _ _).symm
  | creating _ frames => exact absurd (hframes.symm.trans frames) (List.cons_ne_nil _ _).symm
  | copying _ frames => exact absurd (hframes.symm.trans frames) (List.cons_ne_nil _ _).symm

theorem inv_listen (h : Inv s) (hlive : s.finished = false) (hreinit : s.status ≠ .reinit) (hframes : s.frames = []) :
    Inv (listen s) := by
  obtain ⟨hparams, hbo, hwl, hwaiting, hclear⟩ := (h.stage hlive).of_free hframes
  have hready : s.status = .ready := by
    cases hstatus : s.status with
    | waiting => exact absurd hstatus hwaiting
    | ready => rfl
    | reinit => exact absurd hstatus hreinit
  refine .live (accounted_listen h.accounted) h.published hlive ?_
  exact .announced s.frameCount (by simp [listen, hframes]) hparams hbo hwl (hclear hready)

theorem inv_reinit (h : Inv s) (hlive : s.finished = false) (hmem : (frame, .announced) ∈ s.frames) :
    Inv (destroyFrame s frame .reinit) := by
  obtain ⟨hframes, hparams, hbo, hwl, -⟩ := (h.stage hlive).of_announced hmem
  refine .live (accounted_destroyFrame h.accounted hframes .reinit) h.published hlive ?_
  exact .idle (frames_destroyFrame hframes .reinit) hparams hbo hwl (fun hstatus => Status.noConfusion hstatus)
    fun hstatus => Status.noConfusion hstatus

theorem setPhase_single (frame : ℕ) (phase phase' : Phase) : setPhase [(frame, phase)] frame phase' = [(frame, phase')] := by
  simp [setPhase]

theorem inv_exportBo (accounted : Accounted s) (published : ∀ pair ∈ s.published, pair.1 = pair.2)
    (hlive : s.finished = false) (hframes : s.frames = [(frame, .announced)]) (hparams : s.params = [])
    (hwl : s.currentWlBuffer = none) (hnext : s.nextFrame.fd = none) {info : DmabufInfo}
    (hinfo : s.nextFrame.fourcc = info.format ∧ s.nextFrame.width = info.width ∧ s.nextFrame.height = info.height)
    {bo : ℕ} (hbo : s.currentBo = some bo) (answers : Answers) : Inv (exportBo s frame info answers bo) := by
  unfold exportBo
  cases answers.getFd with
  | false =>
    rw [if_pos (by decide)]
    refine .live (accounted_destroyFrame (accounted_lost accounted hbo) hframes .reinit) published hlive ?_
    exact .idle (frames_destroyFrame hframes .reinit) hparams rfl hwl (fun hstatus => Status.noConfusion hstatus)
      fun hstatus => Status.noConfusion hstatus
  | true =>
    rw [if_neg (by decide)]
    refine .live (accounted_described accounted hnext hbo _ rfl (heldFrames_setPhase _ _ _) _) published hlive ?_
    refine .creating frame ?_ ?_ hwl
    · exact (congrArg (fun frames => setPhase frames frame .creating) hframes).trans (setPhase_single frame _ _)
    · dsimp only
      rw [hparams, hinfo.1, hinfo.2.1, hinfo.2.2]
      rfl

theorem inv_createAndCopyDmabuf (h : Inv s) (hlive : s.finished = false) (hmem : (frame, .announced) ∈ s.frames)
    {info : DmabufInfo}
    (hinfo : s.nextFrame.fourcc = info.format ∧ s.nextFrame.width = info.width ∧ s.nextFrame.height = info.height)
    (answers : Answers) : Inv (createAndCopyDmabuf config s frame info answers) := by
  obtain ⟨hframes, hparams, hbo, hwl, hclear⟩ := (h.stage hlive).of_announced hmem
  unfold createAndCopyDmabuf
  split_ifs with hgbm
  · exact inv_reinit h hlive hmem
  · dsimp only
    have haccounted := @accounted_createBo config { s with gbmDev := true } (h.accounted.congr rfl rfl) hbo info.format answers
    obtain ⟨bo, count, ops, hcreated⟩ := createBo_rest config { s with gbmDev := true } info.format answers
    rw [hcreated] at haccounted ⊢
    cases bo with
    | none =>
      refine .live (accounted_destroyFrame haccounted hframes .reinit) h.published hlive ?_
      exact .idle (frames_destroyFrame hframes .reinit) hparams rfl hwl (fun hstatus => Status.noConfusion hstatus)
        fun hstatus => Status.noConfusion hstatus
    | some bo => exact inv_exportBo haccounted h.published hlive hframes hparams hwl hclear hinfo rfl answers

theorem inv_bufferDone (h : Inv s) (hlive : s.finished = false) (hmem : (frame, .announced) ∈ s.frames)
    (answers : Answers) : Inv (bufferDone config s frame answers) := by
  unfold bufferDone
  split
  · next info _ =>
    split_ifs with hinterface
    · obtain ⟨hframes, hparams, hbo, hwl, hclear⟩ := (h.stage hlive).of_announced hmem
      have h' : Inv { s with
          nextFrame := { s.nextFrame with fourcc := info.format, width := info.width, height := info.height } } :=
        .live (h.accounted.congr rfl rfl) h.published hlive (.announced frame hframes hparams hbo hwl hclear)
      exact inv_createAndCopyDmabuf h' hlive hmem ⟨rfl, rfl, rfl⟩ answers
    · exact inv_reinit h hlive hmem
  · exact inv_reinit h hlive hmem

theorem inv_bufferParamsCreated (h : Inv s) (hlive : s.finished = false) (hmem : frame ∈ s.params.map Prod.fst) :
    Inv ((s.params.lookup frame).elim s fun buffer => bufferParamsCreated s frame buffer) := by
  obtain ⟨hframes, hparams, hwl⟩ := (h.stage hlive).of_params hmem
  have hlookup : s.params.lookup frame = some s.nextFrame := by rw [hparams, List.lookup_cons_self]
  rw [hlookup]
  refine .live (accounted_bufferParamsCreated h.accounted hwl hframes s.nextFrame) h.published hlive ?_
  refine .copying frame ?_ ?_
  · exact (congrArg (fun frames => setPhase frames frame _) hframes).trans (setPhase_single frame _ _)
  · show (s.params.filter fun entry => entry.1 ≠ frame) = []
    simp [hparams]

theorem inv_bufferParamsFailed (h : Inv s) (hlive : s.finished = false) (hmem : frame ∈ s.params.map Prod.fst) :
    Inv (bufferParamsFailed s frame) := by
  obtain ⟨hframes, hparams, hwl⟩ := (h.stage hlive).of_params hmem
  have hused : Accounted { s with
      params := s.params.filter fun entry => entry.1 ≠ frame
      ops := s.ops ++ [.use (.frame frame)] } := by
    refine account_then h.accounted ?_
    rw [held_frame hframes, account_use, account_nil]
    exact congrArg some (held_frame hframes).symm
  have hparams' : (s.params.filter fun entry => entry.1 ≠ frame) = [] := by simp [hparams]
  refine .live (accounted_destroyFrame (accounted_cleanupGbm hused) hframes .reinit) h.published hlive ?_
  exact .idle (frames_destroyFrame hframes .reinit) hparams' rfl rfl (fun hstatus => Status.noConfusion hstatus)
    fun hstatus => Status.noConfusion hstatus

theorem inv_ready (h : Inv s) (hlive : s.finished = false) {buffer : SurfaceDescriptor}
    (hmem : (frame, .copying buffer) ∈ s.frames) : Inv (ready s frame buffer) := by
  have hcreating : (frame, .creating) ∉ s.frames := by
    intro hcreating
    cases h.stage hlive with
    | idle frames => exact absurd hmem (by rw [frames]; exact List.not_mem_nil)
    | announced _ frames => exact absurd hmem (by simp [frames])
    | creating _ frames => exact absurd hmem (by simp [frames])
    | copying _ frames => exact absurd hcreating (by simp [frames])
  obtain ⟨hframes, hparams⟩ := (h.stage hlive).of_copying hmem (fun heq => Phase.noConfusion heq) hcreating
  have hown : buffer = s.nextFrame := by
    rw [hframes, List.mem_singleton] at hmem
    exact Phase.copying.inj (Prod.mk.inj hmem).2
  have hswapped : Accounted { dropCurrent s with
      current := (dropCurrent s).nextFrame
      nextFrame := (dropCurrent s).current
      published := (dropCurrent s).published ++ [((dropCurrent s).nextFrame, buffer)] } := by
    refine (accounted_dropCurrent h.accounted).congr rfl ?_
    unfold held
    rw [add_comm (one (dropCurrent s).current.resource)]
  refine .live (accounted_destroyFrame (accounted_cleanupGbm (accounted_destroyWlBuffer hswapped)) hframes .ready)
    (fun pair hpair => ?_) hlive ?_
  · cases List.mem_append.mp hpair with
    | inl hpair => exact h.published pair hpair
    | inr hpair =>
      rw [List.mem_singleton.mp hpair]
      exact hown.symm
  · exact .idle (frames_destroyFrame hframes .ready) hparams rfl rfl (fun hstatus => Status.noConfusion hstatus) fun _ => rfl

theorem inv_failed (h : Inv s) (hlive : s.finished = false) (hmem : (frame, phase) ∈ s.frames)
    (hannounced : phase ≠ .announced) (hcreating : (frame, .creating) ∉ s.frames) : Inv (failed s frame) := by
  obtain ⟨hframes, hparams⟩ := (h.stage hlive).of_copying hmem hannounced hcreating
  refine .live (accounted_destroyFrame (accounted_destroyNext (accounted_cleanupGbm h.accounted)) hframes .reinit)
    h.published hlive ?_
  exact .idle (frames_destroyFrame hframes .reinit) hparams rfl rfl (fun hstatus => Status.noConfusion hstatus) fun _ => rfl

theorem inv_snapshot (h : Inv s) (hlive : s.finished = false) : Inv (dropCurrent s) := by
  refine .live (accounted_dropCurrent h.accounted) h.published hlive ?_
  cases h.stage hlive with
  | idle frames params bo wl waiting clear => exact .idle frames params bo wl waiting clear
  | announced frame frames params bo wl clear => exact .announced frame frames params bo wl clear
  | creating frame frames params wl => exact .creating frame frames params wl
  | copying frame frames params => exact .copying frame frames params

theorem inv_destroy (h : Inv s) (hframes : s.frames = []) : Inv (destroy s) := by
  refine ⟨(accounted_destroyNext (accounted_dropCurrent (accounted_cleanupGbm h.accounted))).congr rfl rfl, h.published,
    fun hlive => absurd hlive (by simp [destroy]), fun _ => ?_⟩
  show heldFrames s.frames + (0 + (0 + (0 + 0))) = 0
  rw [hframes]
  rfl

theorem inv_next (h : Inv s) {event : Event} (henabled : enabled s event) (hclean : Clean s event) :
    Inv (next config s event) := by
  obtain ⟨hlive, henabled⟩ := henabled
  cases event with
  | listen => exact inv_listen h hlive henabled hclean
  | buffer frame =>
    obtain ⟨hframes, hparams, hbo, hwl, hclear⟩ := (h.stage hlive).of_announced henabled
    exact .live (h.accounted.congr rfl rfl) h.published hlive (.announced frame hframes hparams hbo hwl hclear)
  | linuxDmabuf frame info =>
    obtain ⟨hframes, hparams, hbo, hwl, hclear⟩ := (h.stage hlive).of_announced henabled
    exact .live (h.accounted.congr rfl rfl) h.published hlive (.announced frame hframes hparams hbo hwl hclear)
  | bufferDone frame answers => exact inv_bufferDone h hlive henabled answers
  | bufferParamsCreated frame => exact inv_bufferParamsCreated h hlive henabled
  | bufferParamsFailed frame => exact inv_bufferParamsFailed h hlive henabled
  | ready frame =>
    obtain ⟨buffer, hmem⟩ := henabled
    show Inv (match s.frames.lookup frame with | some (.copying buffer) => ready s frame buffer | _ => s)
    split
    · next buffer hlookup => exact inv_ready h hlive (Entries.mem_of_lookup hlookup)
    · exact h
  | failed frame =>
    obtain ⟨phase, hmem, hannounced⟩ := henabled
    exact inv_failed h hlive hmem hannounced hclean
  | snapshot => exact inv_snapshot h hlive
  | destroy => exact inv_destroy h hclean

end Steps

/-! ## Runs -/

theorem inv_start : Inv start :=
  .live rfl (fun _ hpair => (by cases hpair)) rfl (.idle rfl rfl rfl rfl (fun hstatus => Status.noConfusion hstatus) fun _ => rfl)

/-- Whatever the calls return, a run with one frame at a time conserves its resources. -/
theorem resources_conserved (config : Config) (events : List Event)
    (h : Runs (fun s event => enabled s event ∧ Clean s event) (next config) start events) :
    Conserved (events.foldl (next config) start) := by
  have hinv := h.invariant Inv inv_start fun _ _ hs hstep => inv_next hs hstep.1 hstep.2
  exact ⟨⟨_, hinv.accounted, hinv.bare⟩, hinv.published⟩

/-! ## Two frames -/

section Frames

def xrgb : DmabufInfo := ⟨0x34325258, 1920, 1080⟩

def allGood : Answers := ⟨true, true, true, true, 7680, 0⟩

def noModifiers : Config := ⟨true, fun _ => false⟩

/-- A frame up to the start of the copy. -/
def copied (frame : ℕ) : List Event :=
  [.listen, .linuxDmabuf frame xrgb, .bufferDone frame allGood, .bufferParamsCreated frame]

def inTurn : List Event := copied 0 ++ [.ready 0, .snapshot] ++ copied 1 ++ [.ready 1, .destroy]

theorem frames_in_turn_conserved : Conserved (inTurn.foldl (next noModifiers) start) := by
  refine resources_conserved noModifiers _ ?_
  have hready : Status.ready ≠ .reinit := by decide
  refine ⟨⟨⟨rfl, hready⟩, rfl⟩, ⟨⟨rfl, .head _⟩, trivial⟩, ⟨⟨rfl, .head _⟩, trivial⟩, ⟨⟨rfl, .head _⟩, trivial⟩,
    ⟨⟨rfl, _, .head _⟩, trivial⟩, ⟨⟨rfl, rfl⟩, trivial⟩, ⟨⟨rfl, hready⟩, rfl⟩, ⟨⟨rfl, .head _⟩, trivial⟩,
    ⟨⟨rfl, .head _⟩, trivial⟩, ⟨⟨rfl, .head _⟩, trivial⟩, ⟨⟨rfl, _, .head _⟩, trivial⟩, ⟨⟨rfl, trivial⟩, rfl⟩, trivial⟩

/-- After a snapshot that timed out, the frame that is ready is published with the buffer of the other. -/
theorem overlapping_frames_mixed : ¬∀ events : List Event, Runs enabled (next noModifiers) start events →
    Conserved (events.foldl (next noModifiers) start) := by
  intro hall
  have hwaiting : Status.waiting ≠ .reinit := by decide
  have hruns : Runs enabled (next noModifiers) start (copied 0 ++ copied 1 ++ [.ready 0]) :=
    ⟨⟨rfl, by decide⟩, ⟨rfl, .head _⟩, ⟨rfl, .head _⟩, ⟨rfl, .head _⟩, ⟨rfl, hwaiting⟩, ⟨rfl, .head _⟩, ⟨rfl, .head _⟩,
      ⟨rfl, .head _⟩, ⟨rfl, _, .tail _ (.head _)⟩, trivial⟩
  have hsame := (hall _ hruns).published (described xrgb allGood 1, described xrgb allGood 0) (.head _)
  exact absurd hsame (by decide)

end Frames

end Sunshine.Screencopy
