import Mathlib.Data.Int.Notation
import Sunshine.Lib.Transitions

/-! The UPnP thread: each refresh looks for a gateway and maps the ports on it, one call after the other, and at the end the
ports are unmapped. Other hosts change the table of a gateway at any time.

`cleaned_up_iff` says in which runs the thread asks for all that it mapped to be deleted, and for nothing of another host. -/
namespace Sunshine.Upnp
open Transitions
set_option autoImplicit false

/-! ## Ports -/

inductive Proto where
  | tcp
  | udp
  deriving DecidableEq

/-- The key of a mapping; the port is the same on both sides. -/
structure Port where
  wan : ℕ
  proto : Proto
  deriving DecidableEq

/-- `net::map_port` -/
def mapPort (base : ℕ) (offset : ℤ) : ℕ := (min 65535 (max 1024 ((base : ℤ) + offset))).toNat

/-- The mappings of `deinit_t`; the last is for a web interface that is open to the outside. -/
def mappingsOf (base : ℕ) (webUi : Bool) : List Port :=
  [⟨mapPort base 21, .tcp⟩, ⟨mapPort base 16, .udp⟩, ⟨mapPort base 27, .udp⟩, ⟨mapPort base 26, .udp⟩, ⟨mapPort base 0, .tcp⟩,
    ⟨mapPort base (-5), .tcp⟩] ++ if webUi then [⟨mapPort base 1, .tcp⟩] else []

/-! ## The thread and the gateways -/

/-- A mapping in the table of a gateway, by its number; its own ones lead to this host. -/
structure Entry where
  id : ℕ
  own : Bool
  deriving DecidableEq

inductive Purpose where
  | replacing
  | unmapping
  deriving DecidableEq

/-- A call of `UPNP_DeletePortMapping`, with what stood there, and whether the thread had tried to replace that before. -/
structure Request where
  gateway : ℕ
  port : Port
  entry : Option Entry
  purpose : Purpose
  tried : Bool
  deriving DecidableEq

/-- Where the thread is; in front of a call with the gateway and the ports that are left. -/
inductive Phase where
  | discovering
  | validating
  | mapping (gateway : ℕ) (rest : List Port)
  | replacing (gateway : ℕ) (port : Port) (rest : List Port)
  | adding (gateway : ℕ) (port : Port) (rest : List Port) (indefinite : Bool)
  | retrying (gateway : ℕ) (port : Port) (rest : List Port)
  | waiting
  | unmapping (gateway : ℕ) (rest : List Port)
  | ended
  deriving DecidableEq

/-- `mapped` and `mappedUrls` are the thread's. Not in the source are the gateway that it used last, the tables, what it
created and has not asked to delete since (`pending`), its requests, the mappings that it tried to replace, and whether the
last discovery and validation succeeded. -/
structure State where
  phase : Phase
  shutdown : Bool
  mapped : Bool
  mappedUrls : Option ℕ
  lastGateway : Option ℕ
  table : ℕ → Port → Option Entry
  ids : ℕ
  pending : List (ℕ × Port)
  requests : List Request
  tried : List ℕ
  found : Bool

/-- The thread starts with what the gateways have. -/
def start (table : ℕ → Port → Option Entry) (ids : ℕ) : State where
  phase := .discovering
  shutdown := false
  mapped := false
  mappedUrls := none
  lastGateway := none
  table := table
  ids := ids
  pending := []
  requests := []
  tried := []
  found := false

/-- What `UPNP_GetSpecificPortMappingEntry` returns. A mapping of another address is a conflict. -/
inductive Answer where
  | notFound
  | own (isStatic : Bool)
  | conflict
  | failed (unauthorized : Bool)
  deriving DecidableEq

inductive Event where
  | shutdown
  /-- A mapping comes, goes or is replaced without the thread. -/
  | others (gateway : ℕ) (port : Port) (own : Option Bool)
  | discovered (ok : Bool)
  /-- The gateway, where the status is 1 or 2. -/
  | validated (gateway : Option ℕ)
  | looked (answer : Answer)
  | asked (ok : Bool)
  | added (ok : Bool)
  /-- The loop over the mappings is left. -/
  | mapped
  | refreshed
  /-- The wait sees the shutdown. -/
  | left
  | unmapped

/-! ## The calls -/

def setEntry (table : ℕ → Port → Option Entry) (gateway : ℕ) (port : Port) (entry : Option Entry) : ℕ → Port → Option Entry :=
  fun other otherPort => if other = gateway ∧ otherPort = port then entry else table other otherPort

/-- `UPNP_DeletePortMapping` -/
def ask (s : State) (gateway : ℕ) (port : Port) (purpose : Purpose) (ok : Bool) : State := { s with
  table := if ok then setEntry s.table gateway port none else s.table
  pending := s.pending.filter fun mapping => mapping ≠ (gateway, port)
  requests := s.requests ++ [{
    gateway := gateway
    port := port
    entry := s.table gateway port
    purpose := purpose
    tried := (s.table gateway port).any fun entry => entry.id ∈ s.tried }]
  tried := if purpose = .replacing then ((s.table gateway port).map Entry.id).toList ++ s.tried else s.tried }

/-- `UPNP_AddPortMapping` succeeds. -/
def create (s : State) (gateway : ℕ) (port : Port) : State := { s with
  table := setEntry s.table gateway port (some ⟨s.ids, true⟩)
  ids := s.ids + 1
  pending := (gateway, port) :: s.pending }

/-- What `map_upnp_port` does behind the lookup. -/
def afterLookup (gateway : ℕ) (port : Port) (rest : List Port) : Answer → Phase
  | .notFound => .adding gateway port rest false
  | .own true => .mapping gateway rest
  | .own false => .adding gateway port rest false
  | .conflict => .replacing gateway port rest
  | .failed unauthorized => .adding gateway port rest (!unauthorized)

def asked (s : State) (ok : Bool) : State :=
  match s.phase with
  | .replacing gateway port rest => { ask s gateway port .replacing ok with
      phase := if ok then .adding gateway port rest false else .mapping gateway rest }
  | .unmapping gateway (port :: rest) => { ask s gateway port .unmapping ok with phase := .unmapping gateway rest }
  | _ => s

/-- A lease is tried first, then a static mapping. -/
def added (s : State) (ok : Bool) : State :=
  match s.phase with
  | .adding gateway port rest indefinite =>
    if ok then { create s gateway port with phase := .mapping gateway rest }
    else { s with phase := if indefinite then .mapping gateway rest else .retrying gateway port rest }
  | .retrying gateway port rest =>
    if ok then { create s gateway port with phase := .mapping gateway rest } else { s with phase := .mapping gateway rest }
  | _ => s

/-- A refresh that finds no gateway. -/
def lose (s : State) : State := { s with
  phase := .waiting
  mapped := false
  found := false }

def validated (mappings : List Port) (s : State) : Option ℕ → State
  | some gateway => { s with
    phase := .mapping gateway mappings
    lastGateway := some gateway
    found := true }
  | none => lose s

def next (mappings : List Port) (s : State) : Event → State
  | .shutdown => { s with shutdown := true }
  | .others gateway port own => { s with
    table := setEntry s.table gateway port (own.map fun own => ⟨s.ids, own⟩)
    ids := s.ids + 1 }
  | .discovered ok => if ok then { s with phase := .validating } else lose s
  | .validated gateway => validated mappings s gateway
  | .looked answer =>
    match s.phase with
    | .mapping gateway (port :: rest) => { s with phase := afterLookup gateway port rest answer }
    | _ => s
  | .asked ok => asked s ok
  | .added ok => added s ok
  | .mapped =>
    match s.phase with
    | .mapping gateway _ => { s with phase := .waiting, mapped := true, mappedUrls := some gateway }
    | _ => s
  | .refreshed => { s with phase := .discovering }
  | .left =>
    if s.mapped then { s with phase := s.mappedUrls.elim .ended fun gateway => .unmapping gateway mappings }
    else { s with phase := .ended }
  | .unmapped => { s with phase := .ended }

/-- What a lookup that does not fail says of the table; an own mapping may have been made under another address. -/
def Truthful (entry : Option Entry) : Answer → Prop
  | .notFound => entry = none
  | .own _ => ∃ e, entry = some e ∧ e.own = true
  | .conflict => entry ≠ none
  | .failed _ => True

def Enabled (s : State) : Event → Prop
  | .shutdown | .others _ _ _ => True
  | .discovered _ => s.phase = .discovering
  | .validated _ => s.phase = .validating
  | .looked answer => s.shutdown = false ∧
      ∃ gateway port rest, s.phase = .mapping gateway (port :: rest) ∧ Truthful (s.table gateway port) answer
  | .asked _ => (∃ gateway port rest, s.phase = .replacing gateway port rest) ∨
      ∃ gateway port rest, s.phase = .unmapping gateway (port :: rest)
  | .added _ => (∃ gateway port rest indefinite, s.phase = .adding gateway port rest indefinite) ∨
      ∃ gateway port rest, s.phase = .retrying gateway port rest
  | .mapped => ∃ gateway rest, s.phase = .mapping gateway rest ∧ (rest = [] ∨ s.shutdown = true)
  | .refreshed => s.phase = .waiting ∧ s.shutdown = false
  | .left => s.phase = .waiting ∧ s.shutdown = true
  | .unmapped => ∃ gateway, s.phase = .unmapping gateway []

/-! ## What is asked of a run -/

/-- On the gateway that was used last, everything the thread created is asked to be deleted. -/
def NonePending (s : State) : Prop := ∀ gateway, s.lastGateway = some gateway → ∀ port, (gateway, port) ∉ s.pending

/-- A request that hits a mapping of another host is a try to replace it, or comes after one. -/
def Request.Fair (request : Request) : Prop :=
  ∀ entry, request.entry = some entry → entry.own = false → request.purpose = .replacing ∨ request.tried = true

structure CleanedUp (s : State) : Prop where
  unmapped : s.phase = .ended → NonePending s
  fair : ∀ request ∈ s.requests, request.Fair

/-- The thread is left after a refresh that found its gateway, or with nothing to delete; and where it unmaps a port, there is
no mapping of another host that it did not try to replace before. -/
def Clean (s : State) : Event → Prop
  | .left => s.found = true ∨ NonePending s
  | .asked _ => ∀ gateway port rest, s.phase = .unmapping gateway (port :: rest) →
      ∀ entry, s.table gateway port = some entry → entry.own = false → entry.id ∈ s.tried
  | _ => True

/-! ## Steps -/

/-- What holds where the thread is. -/
def Placed (mappings : List Port) (s : State) : Prop :=
  match s.phase with
  | .discovering | .validating | .ended => True
  | .mapping gateway rest => s.lastGateway = some gateway ∧ s.found = true ∧ ∀ port ∈ rest, port ∈ mappings
  | .replacing gateway port rest | .adding gateway port rest _ | .retrying gateway port rest =>
    s.lastGateway = some gateway ∧ s.found = true ∧ ∀ other ∈ port :: rest, other ∈ mappings
  | .waiting => s.mapped = s.found ∧
      (s.mapped = true → ∃ gateway, s.mappedUrls = some gateway ∧ s.lastGateway = some gateway)
  | .unmapping gateway rest => s.lastGateway = some gateway ∧ ∀ port, (gateway, port) ∈ s.pending → port ∈ rest

structure Inv (mappings : List Port) (s : State) : Prop where
  placed : Placed mappings s
  listed : ∀ mapping ∈ s.pending, mapping.2 ∈ mappings

section Steps

variable {mappings : List Port} {s : State}

theorem mem_ask {mapping : ℕ × Port} {gateway : ℕ} {port : Port} (purpose : Purpose) (ok : Bool)
    (h : mapping ∈ (ask s gateway port purpose ok).pending) : mapping ∈ s.pending ∧ mapping ≠ (gateway, port) := by
  obtain ⟨hmem, hne⟩ := List.mem_filter.mp h
  exact ⟨hmem, of_decide_eq_true hne⟩

theorem inv_lose (h : Inv mappings s) : Inv mappings (lose s) := ⟨⟨rfl, fun hmapped => Bool.noConfusion hmapped⟩, h.listed⟩

theorem inv_validated (h : Inv mappings s) (gateway : Option ℕ) : Inv mappings (validated mappings s gateway) := by
  cases gateway with
  | none => exact inv_lose h
  | some gateway => exact ⟨⟨rfl, rfl, fun _ hport => hport⟩, h.listed⟩

theorem inv_looked (h : Inv mappings s) {gateway : ℕ} {port : Port} {rest : List Port}
    (hphase : s.phase = .mapping gateway (port :: rest)) (answer : Answer) :
    Inv mappings { s with phase := afterLookup gateway port rest answer } := by
  have hplaced := h.placed
  unfold Placed at hplaced
  rw [hphase] at hplaced
  obtain ⟨hgateway, hfound, hports⟩ := hplaced
  refine ⟨?_, h.listed⟩
  cases answer with
  | notFound => exact ⟨hgateway, hfound, hports⟩
  | own isStatic =>
    cases isStatic with
    | true => exact ⟨hgateway, hfound, fun other hother => hports other (List.mem_cons_of_mem _ hother)⟩
    | false => exact ⟨hgateway, hfound, hports⟩
  | conflict => exact ⟨hgateway, hfound, hports⟩
  | failed unauthorized => exact ⟨hgateway, hfound, hports⟩

theorem inv_replacing (h : Inv mappings s) {gateway : ℕ} {port : Port} {rest : List Port}
    (hphase : s.phase = .replacing gateway port rest) (ok : Bool) : Inv mappings (asked s ok) := by
  have hplaced := h.placed
  unfold Placed at hplaced
  rw [hphase] at hplaced
  obtain ⟨hgateway, hfound, hports⟩ := hplaced
  unfold asked
  rw [hphase]
  refine ⟨?_, fun mapping hmapping => h.listed mapping (mem_ask .replacing ok hmapping).1⟩
  cases ok with
  | true => exact ⟨hgateway, hfound, hports⟩
  | false => exact ⟨hgateway, hfound, fun other hother => hports other (List.mem_cons_of_mem _ hother)⟩

theorem inv_unmapping (h : Inv mappings s) {gateway : ℕ} {port : Port} {rest : List Port}
    (hphase : s.phase = .unmapping gateway (port :: rest)) (ok : Bool) : Inv mappings (asked s ok) := by
  have hplaced := h.placed
  unfold Placed at hplaced
  rw [hphase] at hplaced
  obtain ⟨hgateway, hports⟩ := hplaced
  unfold asked
  rw [hphase]
  refine ⟨⟨hgateway, fun other hother => ?_⟩, fun mapping hmapping => h.listed mapping (mem_ask .unmapping ok hmapping).1⟩
  obtain ⟨hmem, hne⟩ := mem_ask .unmapping ok hother
  exact (List.mem_cons.mp (hports other hmem)).resolve_left fun heq => hne (by rw [heq])

theorem listed_create (h : Inv mappings s) {gateway : ℕ} {port : Port} (hport : port ∈ mappings) :
    ∀ mapping ∈ (create s gateway port).pending, mapping.2 ∈ mappings := by
  intro mapping hmapping
  cases List.mem_cons.mp hmapping with
  | inl heq => exact heq ▸ hport
  | inr hmem => exact h.listed mapping hmem

theorem inv_adding (h : Inv mappings s) {gateway : ℕ} {port : Port} {rest : List Port} {indefinite : Bool}
    (hphase : s.phase = .adding gateway port rest indefinite) (ok : Bool) : Inv mappings (added s ok) := by
  have hplaced := h.placed
  unfold Placed at hplaced
  rw [hphase] at hplaced
  obtain ⟨hgateway, hfound, hports⟩ := hplaced
  have hrest : ∀ other ∈ rest, other ∈ mappings := fun other hother => hports other (List.mem_cons_of_mem _ hother)
  unfold added
  rw [hphase]
  cases ok with
  | true => exact ⟨⟨hgateway, hfound, hrest⟩, listed_create h (hports port List.mem_cons_self)⟩
  | false =>
    refine ⟨?_, h.listed⟩
    cases indefinite with
    | true => exact ⟨hgateway, hfound, hrest⟩
    | false => exact ⟨hgateway, hfound, hports⟩

theorem inv_retrying (h : Inv mappings s) {gateway : ℕ} {port : Port} {rest : List Port}
    (hphase : s.phase = .retrying gateway port rest) (ok : Bool) : Inv mappings (added s ok) := by
  have hplaced := h.placed
  unfold Placed at hplaced
  rw [hphase] at hplaced
  obtain ⟨hgateway, hfound, hports⟩ := hplaced
  have hrest : ∀ other ∈ rest, other ∈ mappings := fun other hother => hports other (List.mem_cons_of_mem _ hother)
  unfold added
  rw [hphase]
  cases ok with
  | true => exact ⟨⟨hgateway, hfound, hrest⟩, listed_create h (hports port List.mem_cons_self)⟩
  | false => exact ⟨⟨hgateway, hfound, hrest⟩, h.listed⟩

theorem inv_mapped (h : Inv mappings s) {gateway : ℕ} {rest : List Port} (hphase : s.phase = .mapping gateway rest) :
    Inv mappings (next mappings s .mapped) := by
  have hplaced := h.placed
  unfold Placed at hplaced
  rw [hphase] at hplaced
  obtain ⟨hgateway, hfound, -⟩ := hplaced
  unfold next
  rw [hphase]
  exact ⟨⟨hfound.symm, fun _ => ⟨gateway, rfl, hgateway⟩⟩, h.listed⟩

theorem inv_left (h : Inv mappings s) (hphase : s.phase = .waiting) : Inv mappings (next mappings s .left) := by
  have hplaced := h.placed
  unfold Placed at hplaced
  rw [hphase] at hplaced
  obtain ⟨-, hurls⟩ := hplaced
  unfold next
  split_ifs with hmapped
  · obtain ⟨gateway, hmappedUrls, hgateway⟩ := hurls hmapped
    rw [hmappedUrls]
    exact ⟨⟨hgateway, fun port hport => h.listed (gateway, port) hport⟩, h.listed⟩
  · exact ⟨trivial, h.listed⟩

theorem inv_next (h : Inv mappings s) {event : Event} (henabled : Enabled s event) : Inv mappings (next mappings s event) := by
  cases event with
  | shutdown => exact ⟨h.placed, h.listed⟩
  | others gateway port own => exact ⟨h.placed, h.listed⟩
  | discovered ok =>
    cases ok with
    | true => exact ⟨trivial, h.listed⟩
    | false => exact inv_lose h
  | validated gateway => exact inv_validated h gateway
  | looked answer =>
    obtain ⟨-, gateway, port, rest, hphase, -⟩ := henabled
    unfold next
    rw [hphase]
    exact inv_looked h hphase answer
  | asked ok =>
    rcases henabled with ⟨gateway, port, rest, hphase⟩ | ⟨gateway, port, rest, hphase⟩
    · exact inv_replacing h hphase ok
    · exact inv_unmapping h hphase ok
  | added ok =>
    rcases henabled with ⟨gateway, port, rest, indefinite, hphase⟩ | ⟨gateway, port, rest, hphase⟩
    · exact inv_adding h hphase ok
    · exact inv_retrying h hphase ok
  | mapped =>
    obtain ⟨gateway, rest, hphase, -⟩ := henabled
    exact inv_mapped h hphase
  | refreshed => exact ⟨trivial, h.listed⟩
  | left => exact inv_left h henabled.1
  | unmapped => exact ⟨trivial, h.listed⟩

theorem cleanedUp_of_live {s' : State} (h : CleanedUp s) (hrequests : s'.requests = s.requests) (hlive : s'.phase ≠ .ended) :
    CleanedUp s' := ⟨fun hended => absurd hended hlive, hrequests ▸ h.fair⟩

/-- A request leaves a good log exactly if it hits no mapping of another host that it may not. -/
theorem fair_ask_iff (h : CleanedUp s) (gateway : ℕ) (port : Port) (purpose : Purpose) (ok : Bool) :
    (∀ request ∈ (ask s gateway port purpose ok).requests, request.Fair) ↔
      ∀ entry, s.table gateway port = some entry → entry.own = false → purpose = .replacing ∨ entry.id ∈ s.tried := by
  have hnew : ∀ entry, s.table gateway port = some entry →
      (((s.table gateway port).any fun entry => entry.id ∈ s.tried) = true ↔ entry.id ∈ s.tried) := by
    intro entry hentry
    rw [hentry]
    exact decide_eq_true_iff
  constructor
  · intro hall entry hentry hown
    have hfair := hall _ (List.mem_append_right _ List.mem_cons_self) entry hentry hown
    exact hfair.imp_right (hnew entry hentry).mp
  · intro hnone request hrequest
    cases List.mem_append.mp hrequest with
    | inl hold => exact h.fair request hold
    | inr hlast =>
      rw [List.mem_singleton.mp hlast]
      exact fun entry hentry hown => (hnone entry hentry hown).imp_right (hnew entry hentry).mpr

theorem asked_iff (h : CleanedUp s) {ok : Bool} (henabled : Enabled s (.asked ok)) :
    CleanedUp (asked s ok) ↔ Clean s (.asked ok) := by
  rcases henabled with ⟨gateway, port, rest, hphase⟩ | ⟨gateway, port, rest, hphase⟩
  · refine iff_of_true ?_ fun other otherPort otherRest hother => ?_
    · unfold asked
      rw [hphase]
      refine ⟨fun hended => ?_, (fair_ask_iff h gateway port .replacing ok).mpr fun _ _ _ => .inl rfl⟩
      cases ok <;> exact Phase.noConfusion hended
    · rw [hphase] at hother
      exact Phase.noConfusion hother
  · unfold asked
    rw [hphase]
    constructor
    · intro hgood other otherPort otherRest hother entry hentry hown
      rw [hphase] at hother
      injection hother with hgateway hports
      injection hports with hport
      subst hgateway hport
      exact ((fair_ask_iff h _ _ .unmapping ok).mp hgood.fair entry hentry hown).resolve_left Purpose.noConfusion
    · intro hclean
      exact ⟨fun hended => Phase.noConfusion hended, (fair_ask_iff h gateway port .unmapping ok).mpr fun entry hentry hown =>
        .inr (hclean gateway port rest hphase entry hentry hown)⟩

theorem left_iff (hinv : Inv mappings s) (h : CleanedUp s) (hphase : s.phase = .waiting) :
    CleanedUp (next mappings s .left) ↔ Clean s .left := by
  have hplaced := hinv.placed
  unfold Placed at hplaced
  rw [hphase] at hplaced
  obtain ⟨hmapped, hurls⟩ := hplaced
  unfold next
  split_ifs with hm
  · obtain ⟨gateway, hmappedUrls, -⟩ := hurls hm
    rw [hmappedUrls]
    exact iff_of_true (cleanedUp_of_live h rfl Phase.noConfusion) (.inl (hmapped ▸ hm))
  · have hfound : s.found ≠ true := hmapped ▸ hm
    constructor
    · intro hgood
      exact .inr (hgood.unmapped rfl)
    · intro hclean
      exact ⟨fun _ => hclean.resolve_left hfound, h.fair⟩

theorem cleanedUp_unmapped (hinv : Inv mappings s) (h : CleanedUp s) {gateway : ℕ} (hphase : s.phase = .unmapping gateway []) :
    CleanedUp (next mappings s .unmapped) := by
  have hplaced := hinv.placed
  unfold Placed at hplaced
  rw [hphase] at hplaced
  obtain ⟨hgateway, hports⟩ := hplaced
  refine ⟨fun _ other hother port hport => ?_, h.fair⟩
  obtain rfl : gateway = other := Option.some.inj (hgateway.symm.trans hother)
  exact absurd (hports port hport) List.not_mem_nil

theorem cleanedUp_looked (h : CleanedUp s) {answer : Answer} (henabled : Enabled s (.looked answer)) :
    CleanedUp (next mappings s (.looked answer)) := by
  obtain ⟨-, gateway, port, rest, hphase, -⟩ := henabled
  unfold next
  rw [hphase]
  refine cleanedUp_of_live h rfl fun hended => ?_
  cases answer with
  | own isStatic => cases isStatic <;> exact Phase.noConfusion hended
  | notFound => exact Phase.noConfusion hended
  | conflict => exact Phase.noConfusion hended
  | failed unauthorized => exact Phase.noConfusion hended

theorem cleanedUp_added (h : CleanedUp s) {ok : Bool} (henabled : Enabled s (.added ok)) : CleanedUp (added s ok) := by
  unfold added
  rcases henabled with ⟨gateway, port, rest, indefinite, hphase⟩ | ⟨gateway, port, rest, hphase⟩
  · rw [hphase]
    dsimp only
    split_ifs
    · exact cleanedUp_of_live h rfl Phase.noConfusion
    · exact cleanedUp_of_live h rfl Phase.noConfusion
    · exact cleanedUp_of_live h rfl Phase.noConfusion
  · rw [hphase]
    dsimp only
    split_ifs
    · exact cleanedUp_of_live h rfl Phase.noConfusion
    · exact cleanedUp_of_live h rfl Phase.noConfusion

theorem cleanedUp_next_iff (hinv : Inv mappings s) (h : CleanedUp s) {event : Event} (henabled : Enabled s event) :
    CleanedUp (next mappings s event) ↔ Clean s event := by
  cases event with
  | shutdown => exact iff_of_true ⟨h.unmapped, h.fair⟩ trivial
  | others gateway port own => exact iff_of_true ⟨h.unmapped, h.fair⟩ trivial
  | discovered ok =>
    refine iff_of_true ?_ trivial
    cases ok <;> exact cleanedUp_of_live h rfl Phase.noConfusion
  | validated gateway =>
    refine iff_of_true ?_ trivial
    cases gateway <;> exact cleanedUp_of_live h rfl Phase.noConfusion
  | looked answer => exact iff_of_true (cleanedUp_looked h henabled) trivial
  | asked ok => exact asked_iff h henabled
  | added ok => exact iff_of_true (cleanedUp_added h henabled) trivial
  | mapped =>
    obtain ⟨gateway, rest, hphase, -⟩ := henabled
    refine iff_of_true ?_ trivial
    unfold next
    rw [hphase]
    exact cleanedUp_of_live h rfl Phase.noConfusion
  | refreshed => exact iff_of_true (cleanedUp_of_live h rfl Phase.noConfusion) trivial
  | left => exact left_iff hinv h henabled.1
  | unmapped =>
    obtain ⟨gateway, hphase⟩ := henabled
    exact iff_of_true (cleanedUp_unmapped hinv h hphase) trivial

end Steps

/-! ## Runs -/

/-- Whatever the calls return and the other hosts do, a run is clean at every point exactly if all its steps are. -/
theorem cleaned_up_iff (mappings : List Port) (table : ℕ → Port → Option Entry) (ids : ℕ) (events : List Event)
    (h : Runs Enabled (next mappings) (start table ids) events) :
    (∀ front, front <+: events → CleanedUp (front.foldl (next mappings) (start table ids))) ↔
      Runs Clean (next mappings) (start table ids) events := by
  have hstart : CleanedUp (start table ids) :=
    ⟨fun hended => Phase.noConfusion hended, fun request hrequest => absurd hrequest List.not_mem_nil⟩
  exact h.always_iff (Inv mappings) CleanedUp ⟨trivial, fun _ hmapping => absurd hmapping List.not_mem_nil⟩ hstart
    (fun s event hinv henabled => inv_next hinv henabled) fun s event hinv hgood henabled =>
      cleanedUp_next_iff hinv hgood henabled

/-- The thread is stopped behind its first mapping. -/
def stoppedRun : List Event :=
  [.discovered true, .validated (some 0), .looked .notFound, .added true, .shutdown, .mapped, .left] ++
    List.replicate 6 (.asked true) ++ [.unmapped]

theorem stopped_cleaned_up :
    CleanedUp (stoppedRun.foldl (next (mappingsOf 47989 false)) (start (fun _ _ => none) 0)) := by
  have henabled : Runs Enabled (next (mappingsOf 47989 false)) (start (fun _ _ => none) 0) stoppedRun :=
    ⟨rfl, rfl, ⟨rfl, 0, _, _, rfl, rfl⟩, .inl ⟨0, _, _, false, rfl⟩, trivial, ⟨0, _, rfl, .inr rfl⟩, ⟨rfl, rfl⟩,
      .inr ⟨0, _, _, rfl⟩, .inr ⟨0, _, _, rfl⟩, .inr ⟨0, _, _, rfl⟩, .inr ⟨0, _, _, rfl⟩, .inr ⟨0, _, _, rfl⟩,
      .inr ⟨0, _, _, rfl⟩, ⟨0, rfl⟩, trivial⟩
  have hclean : Runs Clean (next (mappingsOf 47989 false)) (start (fun _ _ => none) 0) stoppedRun := by
    refine ⟨trivial, trivial, trivial, trivial, trivial, trivial, .inl rfl, ?_, ?_, ?_, ?_, ?_, ?_, trivial, trivial⟩
    all_goals intro gateway port rest hphase entry hentry hown
    all_goals cases hphase
    · cases hentry
      cases hown
    -- Nothing stands at the other ports.
    all_goals cases hentry
  exact (cleaned_up_iff _ _ 0 stoppedRun henabled).mpr hclean stoppedRun List.prefix_rfl

/-- The first port is mapped, and no gateway is found at the next refresh. -/
def lostRun : List Event :=
  [.discovered true, .validated (some 0), .looked .notFound, .added true] ++
    (List.replicate 5 [.looked .notFound, .added false, .added false]).flatten ++
    [.mapped, .refreshed, .discovered false, .shutdown, .left]

theorem lost_not_cleaned_up :
    ¬∀ (mappings : List Port) (table : ℕ → Port → Option Entry) (ids : ℕ) (events : List Event),
      Runs Enabled (next mappings) (start table ids) events → CleanedUp (events.foldl (next mappings) (start table ids)) := by
  intro hall
  have henabled : Runs Enabled (next (mappingsOf 47989 false)) (start (fun _ _ => none) 0) lostRun :=
    ⟨rfl, rfl, ⟨rfl, 0, _, _, rfl, rfl⟩, .inl ⟨0, _, _, false, rfl⟩,
      ⟨rfl, 0, _, _, rfl, rfl⟩, .inl ⟨0, _, _, false, rfl⟩, .inr ⟨0, _, _, rfl⟩,
      ⟨rfl, 0, _, _, rfl, rfl⟩, .inl ⟨0, _, _, false, rfl⟩, .inr ⟨0, _, _, rfl⟩,
      ⟨rfl, 0, _, _, rfl, rfl⟩, .inl ⟨0, _, _, false, rfl⟩, .inr ⟨0, _, _, rfl⟩,
      ⟨rfl, 0, _, _, rfl, rfl⟩, .inl ⟨0, _, _, false, rfl⟩, .inr ⟨0, _, _, rfl⟩,
      ⟨rfl, 0, _, _, rfl, rfl⟩, .inl ⟨0, _, _, false, rfl⟩, .inr ⟨0, _, _, rfl⟩,
      ⟨0, [], rfl, .inl rfl⟩, ⟨rfl, rfl⟩, rfl, trivial, ⟨rfl, rfl⟩, trivial⟩
  exact (hall _ _ 0 lostRun henabled).unmapped rfl 0 rfl _ List.mem_cons_self

end Sunshine.Upnp
