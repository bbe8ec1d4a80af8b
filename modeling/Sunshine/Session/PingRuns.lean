import Sunshine.Lib.Registrations
import Sunshine.Lib.Transitions
import Sunshine.Session.Pings

/-! Which sessions receive their pings, over all orders of registrations, datagrams and removals.

A session whose ping arrives while it waits receives a datagram of its own, and stays registered as long as it waits,
in every run that keeps clear of four kinds of steps: `received_of_clear`. Two legacy clients of one address do not. -/
namespace Sunshine.Pings
open ThreadSafe Registrations Transitions
set_option autoImplicit false

variable {α : Type}

/-! ## The registrations -/

namespace Phase

/-- The registration under the key has been raised. -/
def registered : Phase → SessionId α → Bool
  | phase, .address _ => phase ≠ .registerAddress
  | phase, .payload _ => phase ≠ .registerAddress ∧ phase ≠ .registerPayload

def unregistered : Phase → SessionId α → Bool
  | phase, .address _ => phase = .unregisterPayload ∨ phase = .done
  | phase, .payload _ => phase = .done

end Phase

def Has (sessions : ℕ → Session α) (raised : Phase → SessionId α → Bool) (phases : ℕ → Phase) (i : ℕ)
    (k : SocketType × SessionId α) : Prop :=
  (sessions i).socket = k.1 ∧ k.2 ∈ (sessions i).keys ∧ raised (phases i) k.2 = true

def Message.change (message : Message α) : Change ℕ (SocketType × SessionId α) :=
  match message.messages with
  | some i => .register i (message.socket, message.sessionId)
  | none => .remove message.raisedBy (message.socket, message.sessionId)

def State.phases (s : State α) (i : ℕ) : Phase := (s.waiters i).phase

def Tabled (sessions : ℕ → Session α) (s : State α) : Prop :=
  Table (Has sessions Phase.registered s.phases) (Has sessions Phase.unregistered s.phases)
    (s.messageQueueQueue.queue.map Message.change) fun k => s.peerToSession k.1 k.2

section Phases

variable {sessions : ℕ → Session α} {raised : Phase → SessionId α → Bool} {phases : ℕ → Phase} {i : ℕ} {phase : Phase}

theorem has_update (h : ∀ id ∈ (sessions i).keys, raised phase id = raised (phases i) id) (j : ℕ)
    (k : SocketType × SessionId α) :
    Has sessions raised (Function.update phases i phase) j k ↔ Has sessions raised phases j k := by
  unfold Has
  by_cases hj : j = i
  · subst hj
    rw [Function.update_self]
    refine and_congr_right fun _ => and_congr_right fun hkey => ?_
    rw [h k.2 hkey]
  · rw [Function.update_of_ne hj]

theorem has_update_key {id : SessionId α} (hid : id ∈ (sessions i).keys) (hnew : raised phase id = true)
    (h : ∀ other ∈ (sessions i).keys, other ≠ id → raised phase other = raised (phases i) other)
    (hkeep : raised (phases i) id = false) (j : ℕ) (k : SocketType × SessionId α) :
    Has sessions raised (Function.update phases i phase) j k ↔
      Has sessions raised phases j k ∨ j = i ∧ k = ((sessions i).socket, id) := by
  unfold Has
  by_cases hj : j = i
  · subst hj
    rw [Function.update_self]
    by_cases hk : k.2 = id
    · simp only [hk, hid, hnew, hkeep, Bool.false_eq_true, and_true, and_false, false_or, true_and]
      rw [← hk, Prod.ext_iff]
      simp [eq_comm]
    · have hne : k ≠ ((sessions j).socket, id) := fun heq => hk (congrArg Prod.snd heq)
      simp only [hne, and_false, or_false]
      refine and_congr_right fun _ => and_congr_right fun hkey => ?_
      rw [h k.2 hkey hk]
  · simp [hj]

end Phases

section Tables

variable {sessions : ℕ → Session α} {s s' : State α} {i : ℕ} {w : Waiter α} {id : SessionId α}

theorem phases_update (hwaiters : s'.waiters = Function.update s.waiters i w) :
    s'.phases = Function.update s.phases i w.phase := by
  funext j
  unfold State.phases
  rw [hwaiters]
  by_cases hj : j = i
  · subst hj
    rw [Function.update_self, Function.update_self]
  · rw [Function.update_of_ne hj, Function.update_of_ne hj]

/-- The keys raised so far are the same in both phases. -/
def SameKeys (session : Session α) (phase phase' : Phase) : Prop :=
  ∀ id ∈ session.keys, phase'.registered id = phase.registered id ∧ phase'.unregistered id = phase.unregistered id

theorem tabled_update (h : Tabled sessions s) (hwaiters : s'.waiters = Function.update s.waiters i w)
    (hqueue : s'.messageQueueQueue = s.messageQueueQueue) (hentries : s'.peerToSession = s.peerToSession)
    (hsame : SameKeys (sessions i) (s.waiters i).phase w.phase) : Tabled sessions s' := by
  unfold Tabled
  rw [phases_update hwaiters, hqueue, hentries]
  exact Table.of_iff h (has_update fun id hid => (hsame id hid).1) (has_update fun id hid => (hsame id hid).2)

/-- `phase'` is `phase` with the registration under one more key raised. -/
structure Registers (session : Session α) (id : SessionId α) (phase phase' : Phase) : Prop where
  mem : id ∈ session.keys
  before : phase.registered id = false
  behind : phase'.registered id = true
  others : ∀ other ∈ session.keys, other ≠ id → phase'.registered other = phase.registered other
  unregistered : ∀ other ∈ session.keys, phase'.unregistered other = phase.unregistered other

structure Unregisters (session : Session α) (id : SessionId α) (phase phase' : Phase) : Prop where
  mem : id ∈ session.keys
  registered : phase.registered id = true
  before : phase.unregistered id = false
  behind : phase'.unregistered id = true
  others : ∀ other ∈ session.keys, other ≠ id → phase'.unregistered other = phase.unregistered other
  same : ∀ other ∈ session.keys, phase'.registered other = phase.registered other

theorem tabled_register (h : Tabled sessions s) (hwaiters : s'.waiters = Function.update s.waiters i w)
    (hqueue : s'.messageQueueQueue.queue = s.messageQueueQueue.queue ++ [⟨(sessions i).socket, id, some i, i⟩])
    (hentries : s'.peerToSession = s.peerToSession)
    (hregisters : Registers (sessions i) id (s.waiters i).phase w.phase) : Tabled sessions s' := by
  unfold Tabled
  rw [phases_update hwaiters, hqueue, hentries, List.map_append]
  have htable : Table (Has sessions Phase.registered s.phases)
      (Has sessions Phase.unregistered (Function.update s.phases i w.phase)) _ _ :=
    Table.of_iff h (fun _ _ => Iff.rfl) (has_update hregisters.unregistered)
  refine Table.register htable (fun hhas => ?_) (has_update_key hregisters.mem hregisters.behind hregisters.others
    hregisters.before)
  have hfalse := hregisters.before
  rw [show (s.waiters i).phase.registered id = true from hhas.2.2] at hfalse
  cases hfalse

theorem tabled_remove (h : Tabled sessions s) (hwaiters : s'.waiters = Function.update s.waiters i w)
    (hqueue : s'.messageQueueQueue.queue = s.messageQueueQueue.queue ++ [⟨(sessions i).socket, id, none, i⟩])
    (hentries : s'.peerToSession = s.peerToSession)
    (hunregisters : Unregisters (sessions i) id (s.waiters i).phase w.phase) : Tabled sessions s' := by
  unfold Tabled
  rw [phases_update hwaiters, hqueue, hentries, List.map_append]
  have htable : Table (Has sessions Phase.registered (Function.update s.phases i w.phase))
      (Has sessions Phase.unregistered s.phases) _ _ :=
    Table.of_iff h (has_update hunregisters.same) fun _ _ => Iff.rfl
  have hjoined : Has sessions Phase.registered s.phases i ((sessions i).socket, id) :=
    ⟨rfl, hunregisters.mem, hunregisters.registered⟩
  refine Table.remove htable ((has_update hunregisters.same i _).mpr hjoined) (fun hhas => ?_)
    (has_update_key hunregisters.mem hunregisters.behind hunregisters.others hunregisters.before)
  have hfalse := hunregisters.before
  rw [show (s.waiters i).phase.unregistered id = true from hhas.2.2] at hfalse
  cases hfalse

end Tables

/-! ## The waits -/

/-- The datagram has the payload of the session, or comes from the address of a legacy client. -/
def Session.Matches (layout : PingLayout) (session : Session α) (peer : Endpoint α) (msg : Bytes) : Prop :=
  layout.size ≤ msg.length ∧ pingPayload layout msg = session.expectedPayload ∨
    session.sessionIdV1 = false ∧ peer.address = session.address

def Phase.early (phase : Phase) : Bool := phase = .registerAddress ∨ phase = .registerPayload

structure Waiter.Ok (layout : PingLayout) (session : Session α) (w : Waiter α) : Prop where
  running : w.phase.early = true ∨ w.phase = .waiting → w.messages.continues = true
  own : ∀ m ∈ w.messages.queue, session.Matches layout m.1 m.2
  received : ∀ peer msg, w.result = some (.received peer msg) → session.Matches layout peer msg
  address : session.sessionIdV1 = false → w.peer.address = session.address
  unpinged : w.phase.early = true → w.pinged = false
  finished : w.phase.early = false → w.phase ≠ .waiting → w.result ≠ none
  ready : w.pinged = true → w.phase = .waiting → ∃ m ∈ w.messages.queue, session.accepts m.2 = true

structure Invariant (layout : PingLayout) (sessions : ℕ → Session α) (s : State α) : Prop where
  running : s.messageQueueQueue.continues = true
  tabled : Tabled sessions s
  waiters : ∀ i, (s.waiters i).Ok layout (sessions i)

section Waits

variable {layout : PingLayout} {sessions : ℕ → Session α} {s s' : State α} {i : ℕ} {w : Waiter α}

theorem waiters_update (h : ∀ j, (s.waiters j).Ok layout (sessions j))
    (hwaiters : s'.waiters = Function.update s.waiters i w) (hw : w.Ok layout (sessions i)) (j : ℕ) :
    (s'.waiters j).Ok layout (sessions j) := by
  rw [hwaiters]
  by_cases hj : j = i
  · subst hj
    rw [Function.update_self]
    exact hw
  · rw [Function.update_of_ne hj]
    exact h j

theorem Invariant.update (h : Invariant layout sessions s) (hwaiters : s'.waiters = Function.update s.waiters i w)
    (hqueue : s'.messageQueueQueue = s.messageQueueQueue) (hentries : s'.peerToSession = s.peerToSession)
    (hsame : SameKeys (sessions i) (s.waiters i).phase w.phase) (hw : w.Ok layout (sessions i)) :
    Invariant layout sessions s' :=
  ⟨hqueue ▸ h.running, tabled_update h.tabled hwaiters hqueue hentries hsame, waiters_update h.waiters hwaiters hw⟩

/-- The call leaves its wait without a datagram. -/
theorem Waiter.Ok.giveUp (h : w.Ok layout (sessions i)) :
    Waiter.Ok layout (sessions i) { w with phase := .stopping, result := some .timedOut } where
  running hphase := by simp [Phase.early] at hphase
  own := h.own
  received peer msg hresult := by cases hresult
  address := h.address
  unpinged hphase := by simp [Phase.early] at hphase
  finished _ _ hnone := by cases hnone
  ready _ hphase := by cases hphase

theorem sameKeys_stopping (session : Session α) : SameKeys session .waiting .stopping := by
  intro id _
  cases id with
  | address a => exact ⟨rfl, rfl⟩
  | payload bytes => exact ⟨rfl, rfl⟩

theorem timeout_invariant (h : Invariant layout sessions s) (i : ℕ) : Invariant layout sessions (s.timeout i) := by
  unfold State.timeout
  by_cases hphase : (s.waiters i).phase = .waiting
  · simp only [if_pos hphase]
    refine h.update rfl rfl rfl ?_ (h.waiters i).giveUp
    rw [hphase]
    exact sameKeys_stopping (sessions i)
  · simp only [if_neg hphase]
    exact h

/-! ## Receiving -/

theorem popFor_cons {q : Queue (Endpoint α × Bytes)} {m : Endpoint α × Bytes} {rest : List (Endpoint α × Bytes)}
    (hrunning : q.continues = true) (hqueue : q.queue = m :: rest) :
    q.popFor = (.returns (some m), { q with queue := rest }) := by
  unfold Queue.popFor Queue.popForLoop
  simp [hrunning, hqueue]

theorem popFor_nil {q : Queue (Endpoint α × Bytes)} (hrunning : q.continues = true) (hqueue : q.queue = []) :
    q.popFor = (.waits, q) := by
  unfold Queue.popFor Queue.popForLoop
  simp [hrunning, hqueue]

/-- What a call of `recv_ping` that is given a datagram becomes. -/
def Waiter.given (session : Session α) (w : Waiter α) (m : Endpoint α × Bytes)
    (rest : List (Endpoint α × Bytes)) : Waiter α :=
  if session.accepts m.2 then
    { w with
      messages := { w.messages with queue := rest }
      peer := m.1
      phase := .stopping
      result := some (.received m.1 m.2) }
  else { w with messages := { w.messages with queue := rest } }

theorem receive_cons {m : Endpoint α × Bytes} {rest : List (Endpoint α × Bytes)} (hphase : (s.waiters i).phase = .waiting)
    (hrunning : (s.waiters i).messages.continues = true) (hqueue : (s.waiters i).messages.queue = m :: rest) :
    s.receive sessions i =
      { s with waiters := Function.update s.waiters i ((s.waiters i).given (sessions i) m rest) } := by
  unfold State.receive Waiter.given
  simp only [if_pos hphase, popFor_cons hrunning hqueue]
  split <;> rfl

theorem receive_nil (hrunning : (s.waiters i).messages.continues = true) (hqueue : (s.waiters i).messages.queue = []) :
    s.receive sessions i = s := by
  unfold State.receive
  simp only [popFor_nil hrunning hqueue, ite_self]

/-- A legacy client is answered from the address it registered. -/
def Answered (sessions : ℕ → Session α) (s : State α) (i : ℕ) : Prop :=
  (sessions i).sessionIdV1 = false → ∀ m ∈ (s.waiters i).messages.queue.head?,
    (sessions i).accepts m.2 = true → m.1.address = (sessions i).address

theorem Waiter.Ok.given (h : w.Ok layout (sessions i)) {m : Endpoint α × Bytes} {rest : List (Endpoint α × Bytes)}
    (hphase : w.phase = .waiting) (hqueue : w.messages.queue = m :: rest)
    (hanswered : (sessions i).sessionIdV1 = false → (sessions i).accepts m.2 = true →
      m.1.address = (sessions i).address) : (w.given (sessions i) m rest).Ok layout (sessions i) := by
  have hown : ∀ other ∈ rest, (sessions i).Matches layout other.1 other.2 := fun other hother =>
    h.own other (hqueue ▸ List.mem_cons_of_mem m hother)
  unfold Waiter.given
  cases haccepts : (sessions i).accepts m.2 with
  | true =>
    rw [if_pos rfl]
    constructor
    · intro hphase
      simp [Phase.early] at hphase
    · exact hown
    · intro peer msg hresult
      simp only [Option.some.injEq, Result.received.injEq] at hresult
      obtain ⟨rfl, rfl⟩ := hresult
      exact h.own m (hqueue ▸ List.mem_cons_self)
    · exact fun hlegacy => hanswered hlegacy haccepts
    · intro hphase
      simp [Phase.early] at hphase
    · intro _ _ hnone
      cases hnone
    · intro _ hphase
      cases hphase
  | false =>
    rw [if_neg Bool.false_ne_true]
    refine ⟨h.running, hown, h.received, h.address, h.unpinged, h.finished, fun hpinged _ => ?_⟩
    obtain ⟨ping, hping, hacceptsPing⟩ := h.ready hpinged hphase
    rw [hqueue] at hping
    refine ⟨ping, (List.mem_cons.mp hping).resolve_left ?_, hacceptsPing⟩
    rintro rfl
    rw [haccepts] at hacceptsPing
    cases hacceptsPing

theorem given_sameKeys (hphase : w.phase = .waiting) (m : Endpoint α × Bytes) (rest : List (Endpoint α × Bytes)) :
    SameKeys (sessions i) w.phase (w.given (sessions i) m rest).phase := by
  unfold Waiter.given
  split
  · rw [hphase]
    exact sameKeys_stopping (sessions i)
  · exact fun _ _ => ⟨rfl, rfl⟩

theorem receive_invariant (h : Invariant layout sessions s) (hanswered : Answered sessions s i) :
    Invariant layout sessions (s.receive sessions i) := by
  by_cases hphase : (s.waiters i).phase = .waiting
  · have hrunning := (h.waiters i).running (.inr hphase)
    cases hqueue : (s.waiters i).messages.queue with
    | nil =>
      rw [receive_nil hrunning hqueue]
      exact h
    | cons m rest =>
      rw [receive_cons hphase hrunning hqueue]
      refine h.update rfl rfl rfl (given_sameKeys hphase m rest) ((h.waiters i).given hphase hqueue fun hlegacy =>
        hanswered hlegacy m ?_)
      rw [hqueue]
      rfl
  · have hsame : s.receive sessions i = s := if_neg hphase
    rw [hsame]
    exact h

/-- Some number of turns of its loop, and the call returns with a datagram of its own. -/
def Receives (layout : PingLayout) (sessions : ℕ → Session α) (s : State α) (i : ℕ) : Prop :=
  ∃ n peer msg, (((fun s => s.receive sessions i)^[n] s).waiters i).result = some (.received peer msg) ∧
    (sessions i).Matches layout peer msg

theorem receives_of_mem {l : List (Endpoint α × Bytes)} (hphase : (s.waiters i).phase = .waiting)
    (hrunning : (s.waiters i).messages.continues = true) (hqueue : (s.waiters i).messages.queue = l)
    (hown : ∀ m ∈ l, (sessions i).Matches layout m.1 m.2) (hready : ∃ m ∈ l, (sessions i).accepts m.2 = true) :
    Receives layout sessions s i := by
  induction l generalizing s with
  | nil =>
    obtain ⟨m, hm, -⟩ := hready
    cases hm
  | cons m rest ih =>
    have hreceive : (s.receive sessions i).waiters i = (s.waiters i).given (sessions i) m rest := by
      rw [receive_cons hphase hrunning hqueue]
      exact Function.update_self ..
    cases haccepts : (sessions i).accepts m.2 with
    | true =>
      refine ⟨1, m.1, m.2, ?_, hown m List.mem_cons_self⟩
      rw [Function.iterate_one, hreceive, Waiter.given, if_pos haccepts]
    | false =>
      have hgiven : ((s.receive sessions i).waiters i) =
          { s.waiters i with messages := { (s.waiters i).messages with queue := rest } } := by
        rw [hreceive, Waiter.given, if_neg (by simp [haccepts])]
      obtain ⟨ping, hping, hacceptsPing⟩ := hready
      have hne : ping ≠ m := by
        rintro rfl
        rw [haccepts] at hacceptsPing
        cases hacceptsPing
      obtain ⟨n, peer, msg, hresult, hmatches⟩ := @ih (s.receive sessions i) (by rw [hgiven]; exact hphase)
        (by rw [hgiven]; exact hrunning) (by rw [hgiven]) (fun other hother => hown other (List.mem_cons_of_mem m hother))
        ⟨ping, (List.mem_cons.mp hping).resolve_left hne, hacceptsPing⟩
      exact ⟨n + 1, peer, msg, by rw [Function.iterate_succ_apply]; exact hresult, hmatches⟩

/-! ## Registering and unregistering -/

/-- The phases in which the next step raises a message. -/
def Phase.raises (session : Session α) : Phase → Bool
  | .registerAddress => !session.sessionIdV1
  | .registerPayload => true
  | .unregisterAddress => !session.sessionIdV1
  | .unregisterPayload => true
  | _ => false

theorem raise_queue (h : Invariant layout sessions s) (hroom : ¬s.messageQueueQueue.Full) (message : Message α) :
    (s.raise message).messageQueueQueue =
      { s.messageQueueQueue with queue := s.messageQueueQueue.queue ++ [message] } :=
  s.messageQueueQueue.raise_of_not_full h.running hroom message

theorem Invariant.register (h : Invariant layout sessions s) (hroom : ¬s.messageQueueQueue.Full) {id : SessionId α}
    {phase : Phase} (hregisters : Registers (sessions i) id (s.waiters i).phase phase)
    (hok : Waiter.Ok layout (sessions i) { s.waiters i with phase }) :
    Invariant layout sessions ((s.raise ⟨(sessions i).socket, id, some i, i⟩).setPhase i phase) := by
  have hqueue := raise_queue h hroom ⟨(sessions i).socket, id, some i, i⟩
  refine ⟨?_, ?_, waiters_update h.waiters rfl hok⟩
  · show (s.raise _).messageQueueQueue.continues = true
    rw [hqueue]
    exact h.running
  · exact tabled_register h.tabled rfl (congrArg Queue.queue hqueue) rfl hregisters

theorem Invariant.unregister (h : Invariant layout sessions s) (hroom : ¬s.messageQueueQueue.Full) {id : SessionId α}
    {phase : Phase} (hunregisters : Unregisters (sessions i) id (s.waiters i).phase phase)
    (hok : Waiter.Ok layout (sessions i) { s.waiters i with phase }) :
    Invariant layout sessions ((s.raise ⟨(sessions i).socket, id, none, i⟩).setPhase i phase) := by
  have hqueue := raise_queue h hroom ⟨(sessions i).socket, id, none, i⟩
  refine ⟨?_, ?_, waiters_update h.waiters rfl hok⟩
  · show (s.raise _).messageQueueQueue.continues = true
    rw [hqueue]
    exact h.running
  · exact tabled_remove h.tabled rfl (congrArg Queue.queue hqueue) rfl hunregisters

theorem keys_legacy {session : Session α} (h : session.sessionIdV1 = false) :
    session.keys = [.address session.address, .payload session.expectedPayload] := by
  simp [Session.keys, h]

theorem keys_v1 {session : Session α} (h : session.sessionIdV1 = true) :
    session.keys = [.payload session.expectedPayload] := by
  simp [Session.keys, h]

theorem payload_mem_keys (session : Session α) : .payload session.expectedPayload ∈ session.keys := by
  cases h : session.sessionIdV1 with
  | true => simp [keys_v1 h]
  | false => simp [keys_legacy h]

/-- Before the wait. -/
theorem Waiter.Ok.early (h : w.Ok layout (sessions i)) (hphase : w.phase.early = true) {phase : Phase}
    (hphase' : phase.early = true ∨ phase = .waiting) : Waiter.Ok layout (sessions i) { w with phase } where
  running _ := h.running (.inl hphase)
  own := h.own
  received := h.received
  address := h.address
  unpinged _ := h.unpinged hphase
  finished hlate hne := (hphase'.elim (fun hearly => by rw [hlate] at hearly; cases hearly) hne).elim
  ready hpinged _ := by
    have hfalse := (h.unpinged hphase).symm.trans hpinged
    cases hfalse

/-- Behind the wait. -/
theorem Waiter.Ok.late (h : w.Ok layout (sessions i)) (hphase : w.phase.early = false) (hne : w.phase ≠ .waiting)
    {phase : Phase} (hphase' : phase.early = false) (hne' : phase ≠ .waiting) (messages : Queue (Endpoint α × Bytes))
    (hown : ∀ m ∈ messages.queue, (sessions i).Matches layout m.1 m.2) :
    Waiter.Ok layout (sessions i) { w with phase, messages } where
  running hearly := (hearly.elim (fun hearly => by rw [hphase'] at hearly; cases hearly) hne').elim
  own := hown
  received := h.received
  address := h.address
  unpinged hearly := by
    rw [hphase'] at hearly
    cases hearly
  finished _ _ := h.finished hphase hne
  ready _ hwaiting := absurd hwaiting hne'

theorem registers_address (hlegacy : (sessions i).sessionIdV1 = false) :
    Registers (sessions i) (.address (sessions i).address) .registerAddress .registerPayload := by
  refine ⟨by simp [keys_legacy hlegacy], rfl, rfl, fun other hother hne => ?_, fun other _ => ?_⟩
  · rw [keys_legacy hlegacy] at hother
    simp only [List.mem_cons, hne, List.not_mem_nil, or_false, false_or] at hother
    rw [hother]
    rfl
  · cases other <;> rfl

theorem registers_payload (session : Session α) :
    Registers session (.payload session.expectedPayload) .registerPayload .waiting := by
  refine ⟨payload_mem_keys session, rfl, rfl, fun other hother hne => ?_, fun other _ => ?_⟩
  · cases other with
    | address a => rfl
    | payload bytes =>
      unfold Session.keys at hother
      split at hother <;> simp_all
  · cases other <;> rfl

theorem unregisters_address (hlegacy : (sessions i).sessionIdV1 = false) :
    Unregisters (sessions i) (.address (sessions i).address) .unregisterAddress .unregisterPayload := by
  refine ⟨by simp [keys_legacy hlegacy], rfl, rfl, rfl, fun other hother hne => ?_, fun other _ => ?_⟩
  · rw [keys_legacy hlegacy] at hother
    simp only [List.mem_cons, hne, List.not_mem_nil, or_false, false_or] at hother
    rw [hother]
    rfl
  · cases other <;> rfl

theorem unregisters_payload (session : Session α) :
    Unregisters session (.payload session.expectedPayload) .unregisterPayload .done := by
  refine ⟨payload_mem_keys session, rfl, rfl, rfl, fun other hother hne => ?_, fun other _ => ?_⟩
  · cases other with
    | address a => rfl
    | payload bytes =>
      unfold Session.keys at hother
      split at hother <;> simp_all
  · cases other <;> rfl

/-- Without the key of the address, its phases are passed over. -/
theorem sameKeys_v1 (hv1 : (sessions i).sessionIdV1 = true) {phase phase' : Phase}
    (hpayload : ∀ id : SessionId α, id = .payload (sessions i).expectedPayload →
      phase'.registered id = phase.registered id ∧ phase'.unregistered id = phase.unregistered id) :
    SameKeys (sessions i) phase phase' := by
  intro id hid
  rw [keys_v1 hv1, List.mem_singleton] at hid
  exact hpayload id hid

theorem act_invariant (h : Invariant layout sessions s)
    (hroom : (s.waiters i).phase.raises (sessions i) = true → ¬s.messageQueueQueue.Full) :
    Invariant layout sessions (s.act sessions i) := by
  have hok := h.waiters i
  unfold State.act
  cases hphase : (s.waiters i).phase with
  | registerAddress =>
    rw [hphase] at hroom
    have hearly : Waiter.Ok layout (sessions i) { s.waiters i with phase := .registerPayload } :=
      hok.early (by rw [hphase]; rfl) (.inl rfl)
    cases hv1 : (sessions i).sessionIdV1 with
    | true =>
      dsimp only
      rw [if_pos hv1]
      refine h.update rfl rfl rfl (hphase ▸ sameKeys_v1 hv1 ?_) hearly
      rintro _ rfl
      exact ⟨rfl, rfl⟩
    | false =>
      dsimp only
      rw [if_neg (by simp [hv1]), hok.address hv1]
      exact h.register (hroom (by simp [Phase.raises, hv1])) (hphase ▸ registers_address hv1) hearly
  | registerPayload =>
    rw [hphase] at hroom
    exact h.register (hroom rfl) (hphase ▸ registers_payload _) (hok.early (by rw [hphase]; rfl) (.inr rfl))
  | waiting => exact h
  | stopping =>
    refine h.update rfl rfl rfl ?_ (hok.late (by rw [hphase]; rfl) (by simp [hphase]) rfl (by simp) _ hok.own)
    intro id _
    rw [hphase]
    cases id <;> exact ⟨rfl, rfl⟩
  | unregisterAddress =>
    rw [hphase] at hroom
    have hlate : Waiter.Ok layout (sessions i) { s.waiters i with phase := .unregisterPayload } :=
      hok.late (by rw [hphase]; rfl) (by simp [hphase]) rfl (by simp) _ hok.own
    cases hv1 : (sessions i).sessionIdV1 with
    | true =>
      dsimp only
      rw [if_pos hv1]
      refine h.update rfl rfl rfl (hphase ▸ sameKeys_v1 hv1 ?_) hlate
      rintro _ rfl
      exact ⟨rfl, rfl⟩
    | false =>
      dsimp only
      rw [if_neg (by simp [hv1]), hok.address hv1]
      exact h.unregister (hroom (by simp [Phase.raises, hv1])) (hphase ▸ unregisters_address hv1) hlate
  | unregisterPayload =>
    rw [hphase] at hroom
    exact h.unregister (hroom rfl) (hphase ▸ unregisters_payload _)
      (hok.late (by rw [hphase]; rfl) (by simp [hphase]) rfl (by simp) _ hok.own)
  | done => exact h

end Waits

/-! ## What the invariant says -/

section Kept

variable {layout : PingLayout} {sessions : ℕ → Session α} {s : State α} {i : ℕ} {datagram : Datagram α}

theorem start_invariant : Invariant layout sessions (start sessions) := by
  refine ⟨rfl, Table.empty fun i k hhas => ?_, fun i => ?_⟩
  · obtain ⟨-, -, hregistered⟩ := hhas
    cases hid : k.2 <;> rw [hid] at hregistered <;> cases hregistered
  · refine ⟨fun _ => rfl, ?_, ?_, fun _ => rfl, fun _ => rfl, ?_, ?_⟩
    · intro m hm
      cases hm
    · intro peer msg hresult
      cases hresult
    · intro hearly
      cases hearly
    · intro hpinged
      cases hpinged

theorem Invariant.receives (h : Invariant layout sessions s) {i : ℕ} (hpinged : (s.waiters i).pinged = true)
    (hresult : (s.waiters i).result ≠ some .timedOut) : Receives layout sessions s i := by
  have hok := h.waiters i
  cases hreturned : (s.waiters i).result with
  | some result =>
    cases result with
    | received peer msg => exact ⟨0, peer, msg, hreturned, hok.received peer msg hreturned⟩
    | timedOut => exact absurd hreturned hresult
  | none =>
    have hearly : (s.waiters i).phase.early = false := by
      cases hearly : (s.waiters i).phase.early with
      | false => rfl
      | true =>
        rw [hok.unpinged hearly] at hpinged
        cases hpinged
    have hphase : (s.waiters i).phase = .waiting := by
      by_contra hne
      exact hok.finished hearly hne hreturned
    exact receives_of_mem hphase (hok.running (.inr hphase)) rfl hok.own (hok.ready hpinged hphase)

theorem stays_registered (h : Invariant layout sessions s) {id : SessionId α} (hid : id ∈ (sessions i).keys)
    (hregistered : (s.waiters i).phase.registered id = true)
    (hunregistered : (s.waiters i).phase.unregistered id = false) :
    s.peerToSession (sessions i).socket id = some i ∨
      .register i ((sessions i).socket, id) ∈ s.messageQueueQueue.queue.map Message.change := by
  refine h.tabled.stays i ((sessions i).socket, id) ⟨rfl, hid, hregistered⟩ fun hleft => ?_
  rw [show (s.waiters i).phase.unregistered id = true from hleft.2.2] at hunregistered
  cases hunregistered

theorem Invariant.registered (h : Invariant layout sessions s) {i : ℕ} {id : SessionId α}
    (hid : id ∈ (sessions i).keys) (hregistered : (s.waiters i).phase.registered id = true)
    (hunregistered : (s.waiters i).phase.unregistered id = false) :
    s.peerToSession (sessions i).socket id = some i ∨
      ∃ message ∈ s.messageQueueQueue.queue, message.socket = (sessions i).socket ∧ message.sessionId = id ∧
        message.messages = some i := by
  refine (stays_registered h hid hregistered hunregistered).imp_right fun hmem => ?_
  obtain ⟨message, hmessage, hchange⟩ := List.mem_map.mp hmem
  refine ⟨message, hmessage, ?_⟩
  unfold Message.change at hchange
  cases hmessages : message.messages with
  | none =>
    rw [hmessages] at hchange
    cases hchange
  | some j =>
    rw [hmessages] at hchange
    obtain ⟨rfl, hkey⟩ := Change.register.inj hchange
    exact ⟨congrArg Prod.fst hkey, congrArg Prod.snd hkey, rfl⟩

/-- What is looked up by a key of a session is the session's own. -/
theorem matches_of_target {session : Session α} {id : SessionId α} (hid : id ∈ session.keys)
    (htarget : State.target layout datagram = some id) : session.Matches layout datagram.peer datagram.bytes := by
  unfold State.target at htarget
  split at htarget
  · cases htarget
  · split at htarget
    · cases htarget
      refine .inr ?_
      cases hv1 : session.sessionIdV1 with
      | true => simp [keys_v1 hv1] at hid
      | false =>
        simp only [keys_legacy hv1, List.mem_cons, SessionId.address.injEq, reduceCtorEq, List.not_mem_nil,
          or_false] at hid
        exact ⟨rfl, hid⟩
    · split at htarget
      · next hsize =>
        cases htarget
        refine .inl ⟨hsize, ?_⟩
        cases hv1 : session.sessionIdV1 with
        | true => simpa [keys_v1 hv1] using hid
        | false => simpa [keys_legacy hv1] using hid
      · cases htarget

theorem matches_of_receiver (h : Invariant layout sessions s) (hreceiver : s.receiver layout datagram = some i) :
    (sessions i).Matches layout datagram.peer datagram.bytes := by
  unfold State.receiver at hreceiver
  obtain ⟨id, htarget, hentry⟩ := Option.bind_eq_some_iff.mp hreceiver
  exact matches_of_target (h.tabled.entries i (datagram.socket, id) hentry).2.1 htarget

end Kept

/-! ## Datagrams -/

section Datagrams

variable [DecidableEq α] {layout : PingLayout} {sessions : ℕ → Session α} {s : State α} {i : ℕ} {w : Waiter α}
  {datagram : Datagram α}

theorem entries_populate (s : State α) (message : Message α) :
    (fun k : SocketType × SessionId α => (s.populate message).peerToSession k.1 k.2) =
      Function.update (fun k => s.peerToSession k.1 k.2) (message.socket, message.sessionId)
        (message.apply (s.peerToSession message.socket message.sessionId)) := by
  funext k
  unfold State.populate
  dsimp only
  by_cases hsocket : k.1 = message.socket
  · by_cases hid : k.2 = message.sessionId
    · have hk : k = (message.socket, message.sessionId) := Prod.ext hsocket hid
      rw [hk, Function.update_self, Function.update_self, Function.update_self]
    · have hk : k ≠ (message.socket, message.sessionId) := fun heq => hid (congrArg Prod.snd heq)
      rw [Function.update_of_ne hk, hsocket, Function.update_self, Function.update_of_ne hid]
  · have hk : k ≠ (message.socket, message.sessionId) := fun heq => hsocket (congrArg Prod.fst heq)
    rw [Function.update_of_ne hk, Function.update_of_ne hsocket]

/-- No other session is registered where a registration is entered. -/
def Free (s : State α) : Prop :=
  ∀ message ∈ s.messageQueueQueue.queue.head?, ∀ i ∈ message.messages,
    ∀ j ∈ s.peerToSession message.socket message.sessionId, j = i

theorem populate_invariant (h : Invariant layout sessions s) (hfree : Free s) {message : Message α}
    {rest : List (Message α)} (hqueue : s.messageQueueQueue.queue = message :: rest) :
    Invariant layout sessions
      ({ s with messageQueueQueue := { s.messageQueueQueue with queue := rest } }.populate message) := by
  refine ⟨h.running, ?_, h.waiters⟩
  have htable := h.tabled
  unfold Tabled at htable ⊢
  rw [entries_populate]
  rw [hqueue, List.map_cons] at htable
  cases hmessages : message.messages with
  | some i =>
    have hchange : message.change = .register i (message.socket, message.sessionId) := by
      rw [Message.change, hmessages]
    rw [hchange] at htable
    have hnone : s.peerToSession message.socket message.sessionId = none := by
      cases hentry : s.peerToSession message.socket message.sessionId with
      | none => rfl
      | some j =>
        have hother := (htable.registers i (message.socket, message.sessionId) List.mem_cons_self).2
        have hj : j = i := hfree message (by rw [hqueue]; rfl) i hmessages j hentry
        exact absurd (hj ▸ hentry) hother
    have happly : message.apply (s.peerToSession message.socket message.sessionId) = some i := by
      rw [Message.apply, hmessages, hnone]
      rfl
    rw [happly]
    exact htable.drain_register hnone
  | none =>
    have hchange : message.change = .remove message.raisedBy (message.socket, message.sessionId) := by
      rw [Message.change, hmessages]
    rw [hchange] at htable
    have happly : message.apply (s.peerToSession message.socket message.sessionId) = none := by
      rw [Message.apply, hmessages]
    rw [happly]
    exact htable.drain_remove.2

/-- A datagram that is no ping of its receiver does not clear the receiver's queue. -/
def Harmless (layout : PingLayout) (sessions : ℕ → Session α) (s : State α) (datagram : Datagram α) : Prop :=
  ∀ i ∈ s.receiver layout datagram, (sessions i).isPing layout datagram = false → ¬(s.waiters i).messages.Full

theorem isPing_iff (session : Session α) : session.isPing layout datagram = true ↔
    datagram.socket = session.socket ∧ datagram.failed = false ∧
      (datagram.bytes.length ≠ 4 ∧ datagram.bytes ≠ [] ∧ layout.size ≤ datagram.bytes.length ∧
          pingPayload layout datagram.bytes = session.expectedPayload ∨
        session.sessionIdV1 = false ∧ datagram.peer.address = session.address ∧ datagram.bytes = legacyPing) :=
  decide_eq_true_iff

theorem accepts_of_isPing {session : Session α} (h : session.isPing layout datagram = true) :
    session.accepts datagram.bytes = true := by
  obtain ⟨-, -, ⟨-, -, -, hpayload⟩ | ⟨hlegacy, -, htext⟩⟩ := (isPing_iff session).mp h
  · have hinfix : session.expectedPayload <:+: datagram.bytes := by
      rw [← hpayload]
      exact (List.take_prefix _ _).isInfix.trans (List.drop_suffix _ _).isInfix
    simp [Session.accepts, hinfix]
  · simp [Session.accepts, hlegacy, htext]

/-- A ping is looked up by a key of its session. -/
theorem target_of_isPing {session : Session α} (h : session.isPing layout datagram = true) :
    ∃ id ∈ session.keys, State.target layout datagram = some id := by
  obtain ⟨-, hok, ⟨hlength, hnil, hsize, hpayload⟩ | ⟨hlegacy, haddress, htext⟩⟩ := (isPing_iff session).mp h
  · refine ⟨.payload session.expectedPayload, payload_mem_keys session, ?_⟩
    simp [State.target, hok, hlength, hnil, hsize, hpayload]
  · refine ⟨.address session.address, by simp [keys_legacy hlegacy], ?_⟩
    simp [State.target, hok, htext, legacyPing, haddress]

/-- A waiting session whose ping is dispatched is the receiver. -/
theorem receiver_of_isPing (h : Invariant layout sessions s) (hqueue : s.messageQueueQueue.queue = [])
    (hphase : (s.waiters i).phase = .waiting) (hping : (sessions i).isPing layout datagram = true) :
    s.receiver layout datagram = some i := by
  obtain ⟨id, hid, htarget⟩ := target_of_isPing hping
  have hsocket := ((isPing_iff _).mp hping).1
  have hstays := stays_registered h hid (by rw [hphase]; cases id <;> rfl) (by rw [hphase]; cases id <;> rfl)
  rw [hqueue] at hstays
  have hentry := hstays.resolve_right List.not_mem_nil
  rw [State.receiver, htarget, hsocket]
  exact hentry

/-- The queue of a session behind the dispatch of a datagram. -/
theorem dispatch_messages (s : State α) (datagram : Datagram α) (i : ℕ) :
    ((s.dispatch layout sessions datagram).waiters i).messages =
      if s.receiver layout datagram = some i then (s.waiters i).messages.raise (datagram.peer, datagram.bytes)
      else (s.waiters i).messages := rfl

theorem dispatch_pinged (s : State α) (datagram : Datagram α) (i : ℕ) :
    ((s.dispatch layout sessions datagram).waiters i).pinged =
      ((s.waiters i).pinged || decide ((s.waiters i).phase = .waiting) && (sessions i).isPing layout datagram) := rfl

theorem dispatch_ready (h : Invariant layout sessions s) (hqueue : s.messageQueueQueue.queue = [])
    (hharmless : Harmless layout sessions s datagram)
    (hpinged : ((s.dispatch layout sessions datagram).waiters i).pinged = true)
    (hphase : (s.waiters i).phase = .waiting) :
    ∃ m ∈ ((s.dispatch layout sessions datagram).waiters i).messages.queue, (sessions i).accepts m.2 = true := by
  have hrunning := (h.waiters i).running (.inr hphase)
  rw [dispatch_messages]
  cases hping : (sessions i).isPing layout datagram with
  | true =>
    rw [if_pos (receiver_of_isPing h hqueue hphase hping)]
    exact ⟨_, (s.waiters i).messages.mem_raise_self hrunning _, accepts_of_isPing hping⟩
  | false =>
    rw [dispatch_pinged, hping, Bool.and_false, Bool.or_false] at hpinged
    obtain ⟨m, hm, haccepts⟩ := (h.waiters i).ready hpinged hphase
    by_cases hreceiver : s.receiver layout datagram = some i
    · rw [if_pos hreceiver, (s.waiters i).messages.raise_of_not_full hrunning (hharmless i hreceiver hping)]
      exact ⟨m, List.mem_append_left _ hm, haccepts⟩
    · rw [if_neg hreceiver]
      exact ⟨m, hm, haccepts⟩

theorem dispatch_ok (h : Invariant layout sessions s) (hqueue : s.messageQueueQueue.queue = [])
    (hharmless : Harmless layout sessions s datagram) (i : ℕ) :
    ((s.dispatch layout sessions datagram).waiters i).Ok layout (sessions i) := by
  have hok := h.waiters i
  constructor
  · intro hphase
    have hrunning := hok.running hphase
    rw [dispatch_messages]
    split
    · rw [Queue.continues_raise]
      exact hrunning
    · exact hrunning
  · intro m hm
    rw [dispatch_messages] at hm
    split at hm
    · next hreceiver =>
      rcases Queue.mem_of_mem_raise _ hm with hold | rfl
      · exact hok.own m hold
      · exact matches_of_receiver h hreceiver
    · exact hok.own m hm
  · exact hok.received
  · exact hok.address
  · intro hphase
    have hne : (s.waiters i).phase ≠ .waiting := by
      intro hwaiting
      have hearly : (s.waiters i).phase.early = true := hphase
      rw [hwaiting] at hearly
      cases hearly
    rw [dispatch_pinged, hok.unpinged hphase, decide_eq_false hne]
    rfl
  · exact hok.finished
  · exact fun hpinged hphase => dispatch_ready h hqueue hharmless hpinged hphase

theorem dispatch_invariant (h : Invariant layout sessions s) (hqueue : s.messageQueueQueue.queue = [])
    (hharmless : Harmless layout sessions s datagram) :
    Invariant layout sessions (s.dispatch layout sessions datagram) :=
  ⟨h.running, h.tabled, dispatch_ok h hqueue hharmless⟩

end Datagrams

/-! ## Runs -/

section Runs

variable [DecidableEq α] {layout : PingLayout} {sessions : ℕ → Session α} {s : State α}

/-- A step that keeps clear of what loses registrations and pings: a message raised to a full queue of messages, a
registration entered where another session is registered, a legacy client answered from another address, and a queue
cleared by a datagram that is no ping. -/
def Clear (layout : PingLayout) (sessions : ℕ → Session α) (s : State α) : Access α → Prop
  | .act i => (s.waiters i).phase.raises (sessions i) = true → ¬s.messageQueueQueue.Full
  | .receive i => Answered sessions s i
  | .timeout _ => True
  | .arrive _ => True
  | .drain => ∀ datagram ∈ s.handling,
      Free s ∧ (s.messageQueueQueue.queue = [] → Harmless layout sessions s datagram)

instance : ∀ (s : State α) (access : Access α), Decidable (Clear layout sessions s access)
  | s, .act i => inferInstanceAs (Decidable ((s.waiters i).phase.raises (sessions i) = true →
      ¬s.messageQueueQueue.Full))
  | s, .receive i => inferInstanceAs (Decidable ((sessions i).sessionIdV1 = false →
      ∀ m ∈ (s.waiters i).messages.queue.head?, (sessions i).accepts m.2 = true →
        m.1.address = (sessions i).address))
  | _, .timeout _ => inferInstanceAs (Decidable True)
  | _, .arrive _ => inferInstanceAs (Decidable True)
  | s, .drain => inferInstanceAs (Decidable (∀ datagram ∈ s.handling,
      (∀ message ∈ s.messageQueueQueue.queue.head?, ∀ i ∈ message.messages,
        ∀ j ∈ s.peerToSession message.socket message.sessionId, j = i) ∧
      (s.messageQueueQueue.queue = [] → ∀ i ∈ s.receiver layout datagram,
        (sessions i).isPing layout datagram = false → ¬(s.waiters i).messages.Full)))

theorem drain_invariant (h : Invariant layout sessions s) (hclear : Clear layout sessions s .drain) :
    Invariant layout sessions (s.drain layout sessions) := by
  unfold State.drain
  cases hhandling : s.handling with
  | none => exact h
  | some datagram =>
    obtain ⟨hfree, hharmless⟩ := hclear datagram hhandling
    have hrunning : ¬s.messageQueueQueue.continues = false := by simp [h.running]
    cases hqueue : s.messageQueueQueue.queue with
    | nil =>
      have hpop : s.messageQueueQueue.tryPop = (none, s.messageQueueQueue) := by
        rw [Queue.tryPop, if_neg hrunning, hqueue]
      simp only [hpop]
      exact dispatch_invariant h hqueue (hharmless hqueue)
    | cons message rest =>
      have hpop : s.messageQueueQueue.tryPop =
          (some message, { s.messageQueueQueue with queue := rest }) := by
        rw [Queue.tryPop, if_neg hrunning, hqueue]
      have hpopulate := populate_invariant h hfree hqueue
      rw [hhandling] at hpopulate
      simp only [hpop]
      exact hpopulate

theorem next_invariant (access : Access α) (h : Invariant layout sessions s)
    (hclear : Clear layout sessions s access) : Invariant layout sessions (next layout sessions s access) := by
  cases access with
  | act i => exact act_invariant h hclear
  | receive i => exact receive_invariant h hclear
  | timeout i => exact timeout_invariant h i
  | arrive datagram =>
    show Invariant layout sessions (if s.handling = none then _ else s)
    by_cases hidle : s.handling = none
    · rw [if_pos hidle]
      exact ⟨h.running, h.tabled, h.waiters⟩
    · rw [if_neg hidle]
      exact h
  | drain => exact drain_invariant h hclear

/-- Every session whose ping came while it waited receives a datagram of its own unless its time runs out first, what a
session returns with is its own, and a session stays registered until it removes its queue itself. -/
structure Good (layout : PingLayout) (sessions : ℕ → Session α) (s : State α) : Prop where
  receives : ∀ i, (s.waiters i).pinged = true → (s.waiters i).result ≠ some .timedOut → Receives layout sessions s i
  own : ∀ i peer msg, (s.waiters i).result = some (.received peer msg) → (sessions i).Matches layout peer msg
  registered : ∀ i, ∀ id ∈ (sessions i).keys, (s.waiters i).phase.registered id = true →
    (s.waiters i).phase.unregistered id = false → s.peerToSession (sessions i).socket id = some i ∨
      ∃ message ∈ s.messageQueueQueue.queue, message.socket = (sessions i).socket ∧ message.sessionId = id ∧
        message.messages = some i

/-- In a run whose steps all keep clear, every state reached is good. -/
theorem received_of_clear {accesses : List (Access α)}
    (h : Runs (Clear layout sessions) (next layout sessions) (start sessions) accesses) :
    Good layout sessions (accesses.foldl (next layout sessions) (start sessions)) := by
  have hinv := h.invariant (Invariant layout sessions) start_invariant fun _ access hs hclear =>
    next_invariant access hs hclear
  exact ⟨fun i hpinged hresult => hinv.receives hpinged hresult, fun i => (hinv.waiters i).received,
    fun _ _ hid hregistered hunregistered => hinv.registered hid hregistered hunregistered⟩

end Runs

/-! ## Two clients of one address -/

def sharedLayout : PingLayout := ⟨20, 0, 16⟩

/-- Legacy clients of one address. -/
def sharedAddress (i : ℕ) : Session ℕ := ⟨.video, false, List.replicate 16 i.toUInt8, 7⟩

def ping : Datagram ℕ := ⟨.video, false, ⟨7, 5000⟩, legacyPing⟩

/-- One client alone. -/
def aloneRun : List (Access ℕ) :=
  [.act 0, .act 0, .arrive ping, .drain, .drain, .drain, .receive 0, .act 0, .act 0]

/-- Both wait, a ping comes, and the second one's time runs out. -/
def sharedRun : List (Access ℕ) :=
  [.act 0, .act 0, .act 1, .act 1, .arrive ping, .drain, .drain, .drain, .drain, .drain, .timeout 1, .act 1, .act 1,
    .act 1, .arrive ping, .drain, .drain, .drain]

theorem alone_received : Good sharedLayout sharedAddress
    (aloneRun.foldl (next sharedLayout sharedAddress) (start sharedAddress)) :=
  received_of_clear (by decide)

def sharedState (n : ℕ) : State ℕ :=
  (sharedRun.take n).foldl (next sharedLayout sharedAddress) (start sharedAddress)

/-- The second client's ping has come while it waits, and its queue is empty. Then its removal unregisters the first
one, which still waits. -/
theorem shared_unregistered :
    (((sharedState 10).waiters 1).phase = .waiting ∧ ((sharedState 10).waiters 1).pinged = true ∧
      ((sharedState 10).waiters 1).messages.queue = [] ∧ (sharedState 10).peerToSession .video (.address 7) = some 0) ∧
    ((sharedState 18).waiters 0).phase = .waiting ∧ (sharedState 18).messageQueueQueue.queue = [] ∧
      (sharedState 18).peerToSession .video (.address 7) = none := by
  decide

end Sunshine.Pings
