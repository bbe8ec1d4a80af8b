import Mathlib.Data.List.Nodup
import Mathlib.Logic.Function.Basic
import Sunshine.Lib.Transitions
import Sunshine.Session.Lifecycle

/-! The peers of the control stream: `control_server_t::get_session` and `iterate`, and the loop of
`controlBroadcastThread` over the sessions.

A session is in the list of the server from its start until the loop finds it stopping; in between a peer of ENet is
bound to it, in the session and in the map from peers. What is sent, and the handlers of the messages but for what they
do to the session's times and state, is left out. The loop holds the lock of the list, so that its passes over the
sessions are steps of their own. -/
namespace Sunshine.ControlPeers
open Session Transitions
set_option autoImplicit false

variable {Address : Type}

/-! ## The server -/

structure StreamSession (Address : Type) where
  /-- `ML_FF_SESSION_ID_V1` of `mlFeatureFlags` -/
  sessionIdV1 : Bool
  connectData : UInt32
  expectedPeerAddress : Address
  peer : Option ℕ
  state : StateE
  pingTimeout : ℤ
  lastInputTime : ℤ

def StreamSession.stop (session : StreamSession Address) : StreamSession Address :=
  { session with state := if session.state = .running then .stopping else session.state }

/-- A connection that ENet has on a peer: the data that came with it, and its other end. -/
structure Connection (Address : Type) where
  data : UInt32
  address : Address

/-- Where the loop over the sessions stands, and the time that it has taken at its start. -/
structure Scan where
  pos : ℕ
  now : ℤ

/-- The sessions by the numbers of their allocation, and which of them have been given back. `connections` is what ENet
has on its peers; `served` is the history of the events that a session was found for. -/
structure ControlServer (Address : Type) where
  heap : ℕ → StreamSession Address
  allocated : ℕ
  freed : List ℕ
  sessions : List ℕ
  peerToSession : ℕ → Option ℕ
  scan : Option Scan
  controlEnd : List ℕ
  finished : Bool
  connections : ℕ → Option (Connection Address)
  served : List (Connection Address × ℕ)

structure Config where
  pingTimeout : ℤ
  idleTimeoutMin : ℤ

variable (config : Config) (s : ControlServer Address)

def ControlServer.put (i : ℕ) (session : StreamSession Address) : ControlServer Address :=
  { s with heap := Function.update s.heap i session }

def ControlServer.stop (i : ℕ) : ControlServer Address := s.put i (s.heap i).stop

/-! ## Events of ENet -/

/-- Whether the slow path of `get_session` takes the session for the connection. -/
def StreamSession.takes [DecidableEq Address] (session : StreamSession Address) (peerAddr : Address)
    (connectData : UInt32) : Bool :=
  session.peer.isNone &&
    if session.sessionIdV1 then session.connectData = connectData else session.expectedPeerAddress = peerAddr

def getSession [DecidableEq Address] (peer : ℕ) (peerAddr : Address) (connectData : UInt32) :
    ControlServer Address × Option ℕ :=
  match s.peerToSession peer with
  | some i => (s, some i)
  | none =>
    match s.sessions.find? fun i => (s.heap i).takes peerAddr connectData with
    | none => (s, none)
    | some i =>
      ({ s.put i { s.heap i with peer := some peer } with
        peerToSession := Function.update s.peerToSession peer (some i) }, some i)

/-- `ENetEvent`; of a message, whether it is input and whether its handler stops the session. -/
inductive EventType where
  | connect
  | disconnect
  | receive (input stops : Bool)

def handle (i : ℕ) (now : ℤ) : EventType → ControlServer Address
  | .connect => s
  | .disconnect => s.stop i
  | .receive input stops =>
    let t := if input then s.put i { s.heap i with lastInputTime := now } else s
    if stops then t.stop i else t

/-- `iterate` with an event on a peer that has `connection`; `data` is what the event says. -/
def iterate [DecidableEq Address] (peer : ℕ) (connection : Connection Address) (data : UInt32) (type : EventType)
    (now : ℤ) : ControlServer Address :=
  match getSession s peer connection.address data with
  | (t, none) => { t with connections := Function.update t.connections peer none }
  | (t, some i) =>
    let t := t.put i { t.heap i with pingTimeout := now + config.pingTimeout }
    handle { t with served := t.served ++ [(connection, i)] } i now type

/-! ## The loop over the sessions -/

/-- The watchdogs of one pass. -/
def watch (i : ℕ) (now : ℤ) : ControlServer Address :=
  let t := if (s.heap i).pingTimeout < now then s.stop i else s
  if 0 < config.idleTimeoutMin ∧
      config.idleTimeoutMin * 60 ≤ (now - (t.heap i).lastInputTime).tdiv 1000000000 then t.stop i
  else t

/-- What is left of a session that is stopping: its peer is disconnected and its end is told. -/
def erase (i : ℕ) (scan : Scan) : ControlServer Address :=
  let t := { s with sessions := s.sessions.eraseIdx scan.pos }
  let t := match (t.heap i).peer with
    | none => t
    | some peer => { t with
        peerToSession := Function.update t.peerToSession peer none
        connections := Function.update t.connections peer none }
  { t with controlEnd := t.controlEnd ++ [i] }

/-- One pass, or the end of the loop. -/
def scanStep (scan : Scan) (shutdown : Bool) : ControlServer Address :=
  match s.sessions[scan.pos]? with
  | none => { s with scan := none }
  | some i =>
    if shutdown then { s with scan := none }
    else
      let t := watch config s i scan.now
      if (t.heap i).state = .stopping then erase t i scan else { t with scan := some { scan with pos := scan.pos + 1 } }

/-! ## Runs -/

/-- `start` is `session::start` up to the list, `ready` and `running` the rest of it; `stop` is `session::stop` of any
thread, and `free` gives a session back behind `session::join`. -/
inductive Event (Address : Type) where
  | start (sessionIdV1 : Bool) (connectData : UInt32) (address : Address) (now : ℤ)
  | ready (i : ℕ) (now : ℤ)
  | running (i : ℕ)
  | stop (i : ℕ)
  | free (i : ℕ)
  | connect (peer : ℕ) (connection : Connection Address) (now : ℤ)
  | receive (peer : ℕ) (data : UInt32) (input stops : Bool) (now : ℤ)
  | disconnect (peer : ℕ) (data : UInt32) (now : ℤ)
  | scanBegin (now : ℤ)
  | scanStep (shutdown : Bool)
  | finish

def next [DecidableEq Address] (config : Config) (s : ControlServer Address) : Event Address → ControlServer Address
  | .start sessionIdV1 connectData address now =>
    { s with
      heap := Function.update s.heap s.allocated ⟨sessionIdV1, connectData, address, none, .stopped, 0, now⟩
      allocated := s.allocated + 1
      sessions := s.sessions ++ [s.allocated] }
  | .ready i now => s.put i { s.heap i with pingTimeout := now + config.pingTimeout }
  | .running i => s.put i { s.heap i with state := .running }
  | .stop i => s.stop i
  | .free i => { s with freed := s.freed ++ [i] }
  | .connect peer connection now =>
    iterate config { s with connections := Function.update s.connections peer (some connection) } peer connection
      connection.data .connect now
  | .receive peer data input stops now =>
    match s.connections peer with
    | none => s
    | some connection => iterate config s peer connection data (.receive input stops) now
  | .disconnect peer data now =>
    match s.connections peer with
    | none => s
    | some connection =>
      -- ENet has reset the peer when the event is given out
      iterate config { s with connections := Function.update s.connections peer none } peer connection data .disconnect now
  | .scanBegin now => { s with scan := some ⟨0, now⟩ }
  | .scanStep shutdown =>
    match s.scan with
    | none => s
    | some scan => scanStep config s scan shutdown
  | .finish => { s with controlEnd := s.controlEnd ++ s.sessions, finished := true }

/-- What can happen: the control thread does one thing at a time, the list is locked during its loop, a peer has one
connection at a time, and a session is given back when its end has been told. -/
def Enabled : Event Address → Prop
  | .start .. => s.scan = none
  | .ready i _ => i < s.allocated
  | .running i => i < s.allocated
  | .stop i => i < s.allocated
  | .free i => i ∈ s.controlEnd ∧ i ∉ s.freed
  | .connect peer _ _ => s.connections peer = none ∧ s.scan = none ∧ s.finished = false
  | .receive .. => s.scan = none ∧ s.finished = false
  | .disconnect .. => s.scan = none ∧ s.finished = false
  | .scanBegin _ => s.scan = none ∧ s.finished = false
  | .scanStep _ => s.finished = false
  | .finish => s.scan = none ∧ s.finished = false

instance : DecidablePred (Enabled s) := fun event =>
  match event with
  | .start .. => inferInstanceAs (Decidable (_ = none))
  | .ready i _ => inferInstanceAs (Decidable (i < _))
  | .running i => inferInstanceAs (Decidable (i < _))
  | .stop i => inferInstanceAs (Decidable (i < _))
  | .free i => inferInstanceAs (Decidable (i ∈ _ ∧ i ∉ _))
  | .connect .. => inferInstanceAs (Decidable (_ = none ∧ _ = none ∧ _ = false))
  | .receive .. => inferInstanceAs (Decidable (_ = none ∧ _ = false))
  | .disconnect .. => inferInstanceAs (Decidable (_ = none ∧ _ = false))
  | .scanBegin _ => inferInstanceAs (Decidable (_ = none ∧ _ = false))
  | .scanStep _ => inferInstanceAs (Decidable (_ = false))
  | .finish => inferInstanceAs (Decidable (_ = none ∧ _ = false))

def initial (heap : ℕ → StreamSession Address) : ControlServer Address :=
  ⟨heap, 0, [], [], fun _ => none, none, [], false, fun _ => none, []⟩

/-! ## What is kept -/

/-- The map and the sessions name the same peers; while the control thread runs, it reaches no session that has been
given back, and has told the end of exactly those that it has taken off its list. -/
structure PeersKept (s : ControlServer Address) : Prop where
  agree : ∀ peer i, s.peerToSession peer = some i ↔ i ∈ s.sessions ∧ (s.heap i).peer = some peer
  alive : s.finished = false → ∀ i ∈ s.sessions, i ∉ s.freed
  told : s.finished = false → ∀ i < s.allocated, s.controlEnd.count i = if i ∈ s.sessions then 0 else 1

structure Inv (s : ControlServer Address) : Prop where
  nodup : s.sessions.Nodup
  lt_allocated : ∀ i ∈ s.sessions, i < s.allocated
  ended_lt : ∀ i ∈ s.controlEnd, i < s.allocated
  agree : ∀ peer i, s.peerToSession peer = some i ↔ i ∈ s.sessions ∧ (s.heap i).peer = some peer
  told : s.finished = false → ∀ i < s.allocated, s.controlEnd.count i = if i ∈ s.sessions then 0 else 1
  ended : ∀ i ∈ s.freed, i ∈ s.controlEnd

theorem Inv.kept (h : Inv s) : PeersKept s where
  agree := h.agree
  alive := fun hrunning i hi hfreed => by
    have hcount := h.told hrunning i (h.lt_allocated i hi)
    rw [if_pos hi] at hcount
    exact List.count_eq_zero.mp hcount (h.ended i hfreed)
  told := h.told

variable {config s} {t : ControlServer Address} {i : ℕ}

def StreamSession.SameClient (session other : StreamSession Address) : Prop :=
  other.sessionIdV1 = session.sessionIdV1 ∧ other.connectData = session.connectData ∧
    other.expectedPeerAddress = session.expectedPeerAddress

/-- Only times and states of sessions differ. -/
structure Frame (s t : ControlServer Address) : Prop where
  peer : ∀ i, (t.heap i).peer = (s.heap i).peer
  client : ∀ i, (s.heap i).SameClient (t.heap i)
  allocated : t.allocated = s.allocated
  freed : t.freed = s.freed
  sessions : t.sessions = s.sessions
  peerToSession : t.peerToSession = s.peerToSession
  scan : t.scan = s.scan
  controlEnd : t.controlEnd = s.controlEnd
  finished : t.finished = s.finished
  connections : t.connections = s.connections
  served : t.served = s.served

theorem Frame.refl (s : ControlServer Address) : Frame s s :=
  ⟨fun _ => rfl, fun _ => ⟨rfl, rfl, rfl⟩, rfl, rfl, rfl, rfl, rfl, rfl, rfl, rfl, rfl⟩

theorem Frame.trans {u : ControlServer Address} (hst : Frame s t) (htu : Frame t u) : Frame s u where
  peer i := (htu.peer i).trans (hst.peer i)
  client i := ⟨(htu.client i).1.trans (hst.client i).1, (htu.client i).2.1.trans (hst.client i).2.1,
    (htu.client i).2.2.trans (hst.client i).2.2⟩
  allocated := htu.allocated.trans hst.allocated
  freed := htu.freed.trans hst.freed
  sessions := htu.sessions.trans hst.sessions
  peerToSession := htu.peerToSession.trans hst.peerToSession
  scan := htu.scan.trans hst.scan
  controlEnd := htu.controlEnd.trans hst.controlEnd
  finished := htu.finished.trans hst.finished
  connections := htu.connections.trans hst.connections
  served := htu.served.trans hst.served

theorem put_heap_self (session : StreamSession Address) : (s.put i session).heap i = session := Function.update_self _ _ _

theorem put_heap_of_ne (session : StreamSession Address) {j : ℕ} (h : j ≠ i) : (s.put i session).heap j = s.heap j :=
  Function.update_of_ne h _ _

theorem sameClient_put {session : StreamSession Address} (h : (s.heap i).SameClient session) (j : ℕ) :
    (s.heap j).SameClient ((s.put i session).heap j) := by
  by_cases hj : j = i
  · rw [hj, put_heap_self]
    exact h
  · rw [put_heap_of_ne _ hj]
    exact ⟨rfl, rfl, rfl⟩

/-- Writing a session of the same client with the same peer. -/
theorem frame_put {session : StreamSession Address} (hpeer : session.peer = (s.heap i).peer)
    (hclient : (s.heap i).SameClient session) : Frame s (s.put i session) := by
  refine { Frame.refl s with peer := fun j => ?_, client := sameClient_put hclient }
  by_cases hj : j = i
  · rw [hj, put_heap_self, hpeer]
  · rw [put_heap_of_ne _ hj]

theorem frame_stop (s : ControlServer Address) (i : ℕ) : Frame s (s.stop i) := frame_put rfl ⟨rfl, rfl, rfl⟩

theorem frame_handle (s : ControlServer Address) (i : ℕ) (now : ℤ) (type : EventType) : Frame s (handle s i now type) := by
  cases type with
  | connect => exact Frame.refl s
  | disconnect => exact frame_stop s i
  | receive input stops =>
    have hinput : Frame s (if input = true then s.put i { s.heap i with lastInputTime := now } else s) := by
      cases input with
      | false => exact Frame.refl s
      | true => exact frame_put rfl ⟨rfl, rfl, rfl⟩
    cases stops with
    | false => exact hinput
    | true => exact hinput.trans (frame_stop _ i)

theorem frame_watch (config : Config) (s : ControlServer Address) (i : ℕ) (now : ℤ) : Frame s (watch config s i now) := by
  unfold watch
  have hping : Frame s (if (s.heap i).pingTimeout < now then s.stop i else s) := by
    split_ifs
    · exact frame_stop s i
    · exact Frame.refl s
  dsimp only
  generalize (if (s.heap i).pingTimeout < now then s.stop i else s) = t at hping ⊢
  split_ifs
  · exact hping.trans (frame_stop t i)
  · exact hping

theorem Inv.frame (h : Inv s) (hst : Frame s t) : Inv t := by
  constructor
  · exact hst.sessions ▸ h.nodup
  · rw [hst.sessions, hst.allocated]
    exact h.lt_allocated
  · rw [hst.controlEnd, hst.allocated]
    exact h.ended_lt
  · intro peer i
    rw [hst.peerToSession, hst.sessions, hst.peer]
    exact h.agree peer i
  · rw [hst.finished, hst.allocated, hst.controlEnd, hst.sessions]
    exact h.told
  · rw [hst.freed, hst.controlEnd]
    exact h.ended

/-! ## A session for an event -/

/-- A session without a peer is bound to one that no session has. -/
theorem Inv.bind (h : Inv s) {peer : ℕ} (hi : i ∈ s.sessions) (hnone : (s.heap i).peer = none)
    (hfree : s.peerToSession peer = none) :
    Inv { s.put i { s.heap i with peer := some peer } with
      peerToSession := Function.update s.peerToSession peer (some i) } := by
  refine { h with agree := fun peer' j => ?_ }
  show Function.update s.peerToSession peer (some i) peer' = some j ↔
    j ∈ s.sessions ∧ (Function.update s.heap i { s.heap i with peer := some peer } j).peer = some peer'
  by_cases hj : j = i
  · rw [hj, Function.update_self]
    by_cases hpeer : peer' = peer
    · rw [hpeer, Function.update_self]
      exact iff_of_true rfl ⟨hi, rfl⟩
    · rw [Function.update_of_ne hpeer, h.agree, hnone]
      refine iff_of_false (fun hboth => Option.some_ne_none _ hboth.2.symm) fun hboth => ?_
      exact hpeer (Option.some.inj hboth.2).symm
  · rw [Function.update_of_ne hj]
    by_cases hpeer : peer' = peer
    · rw [hpeer, Function.update_self]
      refine iff_of_false (fun heq => hj (Option.some.inj heq).symm) fun hboth => ?_
      exact Option.some_ne_none j (((h.agree peer j).mpr hboth).symm.trans hfree)
    · rw [Function.update_of_ne hpeer]
      exact h.agree peer' j

theorem inv_connections (h : Inv s) (connections : ℕ → Option (Connection Address)) :
    Inv { s with connections := connections } :=
  ⟨h.nodup, h.lt_allocated, h.ended_lt, h.agree, h.told, h.ended⟩

theorem inv_served (h : Inv s) (served : List (Connection Address × ℕ)) : Inv { s with served := served } :=
  ⟨h.nodup, h.lt_allocated, h.ended_lt, h.agree, h.told, h.ended⟩

section Iterate
variable [DecidableEq Address]

/-- What `get_session` does. -/
theorem getSession_cases (s : ControlServer Address) (peer : ℕ) (peerAddr : Address) (connectData : UInt32) :
    (∃ i, s.peerToSession peer = some i ∧ getSession s peer peerAddr connectData = (s, some i)) ∨
      (s.peerToSession peer = none ∧ getSession s peer peerAddr connectData = (s, none)) ∨
      ∃ i ∈ s.sessions, (s.heap i).takes peerAddr connectData = true ∧ s.peerToSession peer = none ∧
        getSession s peer peerAddr connectData =
          ({ s.put i { s.heap i with peer := some peer } with
            peerToSession := Function.update s.peerToSession peer (some i) }, some i) := by
  unfold getSession
  cases hmapped : s.peerToSession peer with
  | some i => exact .inl ⟨i, rfl, rfl⟩
  | none =>
    cases hfound : s.sessions.find? fun i => (s.heap i).takes peerAddr connectData with
    | none => exact .inr (.inl ⟨rfl, rfl⟩)
    | some i =>
      have htakes : (s.heap i).takes peerAddr connectData = true :=
        List.find?_some (p := fun i => (s.heap i).takes peerAddr connectData) hfound
      exact .inr (.inr ⟨i, List.mem_of_find?_eq_some hfound, htakes, rfl, rfl⟩)

theorem peer_of_takes {session : StreamSession Address} {peerAddr : Address} {connectData : UInt32}
    (h : session.takes peerAddr connectData = true) : session.peer = none :=
  Option.isNone_iff_eq_none.mp (Bool.and_eq_true _ _ ▸ h).1

/-- What `iterate` does, up to times and states: it serves the session that the peer is bound to, rejects the peer, or
binds it to a session. -/
theorem iterate_cases (config : Config) (s : ControlServer Address) (peer : ℕ) (connection : Connection Address)
    (data : UInt32) (type : EventType) (now : ℤ) :
    (∃ i, s.peerToSession peer = some i ∧
        Frame { s with served := s.served ++ [(connection, i)] } (iterate config s peer connection data type now)) ∨
      (s.peerToSession peer = none ∧ iterate config s peer connection data type now =
        { s with connections := Function.update s.connections peer none }) ∨
      ∃ i ∈ s.sessions, (s.heap i).takes connection.address data = true ∧ s.peerToSession peer = none ∧
        Frame { s.put i { s.heap i with peer := some peer } with
          peerToSession := Function.update s.peerToSession peer (some i)
          served := s.served ++ [(connection, i)] } (iterate config s peer connection data type now) := by
  have hserve : ∀ (t : ControlServer Address) (i : ℕ), Frame { t with served := t.served ++ [(connection, i)] }
      (handle { t.put i { t.heap i with pingTimeout := now + config.pingTimeout } with
        served := t.served ++ [(connection, i)] } i now type) := by
    intro t i
    have hput : Frame { t with served := t.served ++ [(connection, i)] }
        { t.put i { t.heap i with pingTimeout := now + config.pingTimeout } with
          served := t.served ++ [(connection, i)] } := frame_put rfl ⟨rfl, rfl, rfl⟩
    exact hput.trans (frame_handle _ i now type)
  unfold iterate
  obtain ⟨i, hmapped, hresult⟩ | ⟨hnone, hresult⟩ | ⟨i, hi, htakes, hnone, hresult⟩ :=
    getSession_cases s peer connection.address data
  · rw [hresult]
    exact .inl ⟨i, hmapped, hserve s i⟩
  · rw [hresult]
    exact .inr (.inl ⟨hnone, rfl⟩)
  · rw [hresult]
    exact .inr (.inr ⟨i, hi, htakes, hnone, hserve { s.put i { s.heap i with peer := some peer } with
      peerToSession := Function.update s.peerToSession peer (some i) } i⟩)

theorem inv_iterate (h : Inv s) (peer : ℕ) (connection : Connection Address) (data : UInt32) (type : EventType) (now : ℤ) :
    Inv (iterate config s peer connection data type now) := by
  obtain ⟨i, -, hframe⟩ | ⟨-, hresult⟩ | ⟨i, hi, htakes, hnone, hframe⟩ :=
    iterate_cases config s peer connection data type now
  · exact (inv_served h _).frame hframe
  · rw [hresult]
    exact inv_connections h _
  · exact (inv_served (h.bind hi (peer_of_takes htakes) hnone) _).frame hframe

end Iterate

/-! ## A session that is taken off the list -/

theorem mem_eraseIdx_iff {l : List ℕ} {pos i j : ℕ} (hnodup : l.Nodup) (hpos : l[pos]? = some i) :
    j ∈ l.eraseIdx pos ↔ j ∈ l ∧ j ≠ i := by
  obtain ⟨hlt, rfl⟩ := List.getElem?_eq_some_iff.mp hpos
  rw [← List.Nodup.erase_getElem hnodup pos hlt, hnodup.mem_erase_iff, and_comm]

theorem erase_rest (s : ControlServer Address) (i : ℕ) (scan : Scan) :
    (erase s i scan).heap = s.heap ∧ (erase s i scan).sessions = s.sessions.eraseIdx scan.pos ∧
      (erase s i scan).controlEnd = s.controlEnd ++ [i] ∧ (erase s i scan).scan = s.scan ∧
      (erase s i scan).allocated = s.allocated ∧ (erase s i scan).freed = s.freed := by
  unfold erase
  dsimp only
  cases (s.heap i).peer with
  | none => exact ⟨rfl, rfl, rfl, rfl, rfl, rfl⟩
  | some bound => exact ⟨rfl, rfl, rfl, rfl, rfl, rfl⟩

theorem inv_erase (h : Inv s) {scan : Scan} (hrunning : s.finished = false) (hpos : s.sessions[scan.pos]? = some i) :
    Inv (erase s i scan) := by
  have hi : i ∈ s.sessions := List.mem_of_getElem? hpos
  have hmem : ∀ j, j ∈ s.sessions.eraseIdx scan.pos ↔ j ∈ s.sessions ∧ j ≠ i := fun j => mem_eraseIdx_iff h.nodup hpos
  have hagree : ∀ peer j, (erase s i scan).peerToSession peer = some j ↔
      j ∈ s.sessions.eraseIdx scan.pos ∧ (s.heap j).peer = some peer := by
    intro peer j
    rw [hmem]
    unfold erase
    dsimp only
    cases hpeer : (s.heap i).peer with
    | none =>
      dsimp only
      rw [h.agree]
      refine ⟨fun hboth => ⟨⟨hboth.1, ?_⟩, hboth.2⟩, fun hboth => ⟨hboth.1.1, hboth.2⟩⟩
      rintro rfl
      exact Option.some_ne_none peer (hboth.2.symm.trans hpeer)
    | some bound =>
      dsimp only
      by_cases heq : peer = bound
      · rw [heq, Function.update_self]
        refine iff_of_false (Option.some_ne_none j).symm fun hboth => hboth.1.2 ?_
        exact Option.some.inj (((h.agree bound j).mpr ⟨hboth.1.1, hboth.2⟩).symm.trans ((h.agree bound i).mpr ⟨hi, hpeer⟩))
      · rw [Function.update_of_ne heq, h.agree]
        refine ⟨fun hboth => ⟨⟨hboth.1, ?_⟩, hboth.2⟩, fun hboth => ⟨hboth.1.1, hboth.2⟩⟩
        rintro rfl
        exact heq (Option.some.inj (hboth.2.symm.trans hpeer))
  obtain ⟨hheap, hsessions, hend, -, hallocated, hfreed⟩ := erase_rest s i scan
  constructor
  · rw [hsessions]
    exact h.nodup.sublist (List.eraseIdx_sublist _ _)
  · intro j hj
    rw [hsessions, hmem] at hj
    rw [hallocated]
    exact h.lt_allocated j hj.1
  · intro j hj
    rw [hend, List.mem_append, List.mem_singleton] at hj
    rw [hallocated]
    rcases hj with hj | rfl
    · exact h.ended_lt j hj
    · exact h.lt_allocated j hi
  · rw [hheap, hsessions]
    exact hagree
  · intro _ j hj
    rw [hallocated] at hj
    have htold := h.told hrunning j hj
    rw [hend, hsessions, List.count_append, htold]
    by_cases heq : j = i
    · rw [heq, if_pos hi, if_neg fun hin => ((hmem i).mp hin).2 rfl, List.count_singleton_self]
    · rw [List.count_eq_zero.mpr (List.mem_singleton.not.mpr heq), Nat.add_zero]
      exact if_congr ⟨fun hin => (hmem j).mpr ⟨hin, heq⟩, fun hin => ((hmem j).mp hin).1⟩ rfl rfl
  · rw [hfreed, hend]
    exact fun j hj => List.mem_append_left _ (h.ended j hj)

theorem inv_scan (h : Inv s) (scan : Option Scan) : Inv { s with scan := scan } :=
  ⟨h.nodup, h.lt_allocated, h.ended_lt, h.agree, h.told, h.ended⟩

theorem inv_scanStep (h : Inv s) (hrunning : s.finished = false) (scan : Scan) (shutdown : Bool) :
    Inv (scanStep config s scan shutdown) := by
  unfold scanStep
  cases hpos : s.sessions[scan.pos]? with
  | none => exact inv_scan h none
  | some i =>
    dsimp only
    split_ifs with hshutdown hstopping
    · exact inv_scan h none
    · have hframe := frame_watch config s i scan.now
      exact inv_erase (h.frame hframe) (hframe.finished.trans hrunning) (hframe.sessions.symm ▸ hpos)
    · exact inv_scan (h.frame (frame_watch config s i scan.now)) _

/-! ## All runs -/

theorem inv_start (h : Inv s) (session : StreamSession Address) (hpeer : session.peer = none) :
    Inv { s with
      heap := Function.update s.heap s.allocated session
      allocated := s.allocated + 1
      sessions := s.sessions ++ [s.allocated] } := by
  have hnew : s.allocated ∉ s.sessions := fun hin => Nat.lt_irrefl _ (h.lt_allocated _ hin)
  constructor
  · exact List.nodup_append.mpr ⟨h.nodup, List.nodup_singleton _, fun j hj k hk heq =>
      hnew (List.mem_singleton.mp hk ▸ heq ▸ hj)⟩
  · intro j hj
    rcases List.mem_append.mp hj with hj | hj
    · exact Nat.lt_succ_of_lt (h.lt_allocated j hj)
    · rw [List.mem_singleton.mp hj]
      exact Nat.lt_succ_self _
  · exact fun j hj => Nat.lt_succ_of_lt (h.ended_lt j hj)
  · intro peer j
    show s.peerToSession peer = some j ↔
      j ∈ s.sessions ++ [s.allocated] ∧ (Function.update s.heap s.allocated session j).peer = some peer
    rw [h.agree, List.mem_append, List.mem_singleton]
    by_cases heq : j = s.allocated
    · rw [heq, Function.update_self, hpeer]
      exact iff_of_false (fun hboth => hnew hboth.1) fun hboth => Option.some_ne_none peer hboth.2.symm
    · rw [Function.update_of_ne heq, or_iff_left heq]
  · intro hrunning j hj
    show s.controlEnd.count j = if j ∈ s.sessions ++ [s.allocated] then 0 else 1
    by_cases heq : j = s.allocated
    · rw [heq, if_pos (List.mem_append_right _ (List.mem_singleton_self _)), List.count_eq_zero]
      exact fun hin => Nat.lt_irrefl _ (h.ended_lt _ hin)
    · rw [h.told hrunning j (Nat.lt_of_le_of_ne (Nat.le_of_lt_succ hj) heq)]
      refine if_congr ?_ rfl rfl
      rw [List.mem_append, List.mem_singleton, or_iff_left heq]
  · exact h.ended

theorem inv_initial (heap : ℕ → StreamSession Address) : Inv (initial heap) where
  nodup := List.nodup_nil
  lt_allocated := fun _ hi => absurd hi List.not_mem_nil
  ended_lt := fun _ hi => absurd hi List.not_mem_nil
  agree := fun _ i => iff_of_false (Option.some_ne_none i).symm fun hboth => List.not_mem_nil hboth.1
  told := fun _ i hi => absurd hi (Nat.not_lt_zero i)
  ended := fun _ hi => absurd hi List.not_mem_nil

section Runs
variable [DecidableEq Address]

theorem inv_next (h : Inv s) {event : Event Address} (henabled : Enabled s event) : Inv (next config s event) := by
  cases event with
  | start sessionIdV1 connectData address now => exact inv_start h _ rfl
  | ready i now => exact h.frame (frame_put rfl ⟨rfl, rfl, rfl⟩)
  | running i => exact h.frame (frame_put rfl ⟨rfl, rfl, rfl⟩)
  | stop i => exact h.frame (frame_stop s i)
  | free i =>
    refine { h with ended := fun j hj => ?_ }
    rcases List.mem_append.mp hj with hj | hj
    · exact h.ended j hj
    · rw [List.mem_singleton.mp hj]
      exact henabled.1
  | connect peer connection now => exact inv_iterate (inv_connections h _) peer connection connection.data .connect now
  | receive peer data input stops now =>
    cases hconnection : s.connections peer with
    | none =>
      simp only [next, hconnection]
      exact h
    | some connection =>
      simp only [next, hconnection]
      exact inv_iterate h peer connection data (.receive input stops) now
  | disconnect peer data now =>
    cases hconnection : s.connections peer with
    | none =>
      simp only [next, hconnection]
      exact h
    | some connection =>
      simp only [next, hconnection]
      exact inv_iterate (inv_connections h _) peer connection data .disconnect now
  | scanBegin now => exact inv_scan h _
  | scanStep shutdown =>
    cases hscan : s.scan with
    | none =>
      simp only [next, hscan]
      exact h
    | some scan =>
      simp only [next, hscan]
      exact inv_scanStep h henabled scan shutdown
  | finish =>
    refine ⟨h.nodup, h.lt_allocated, fun j hj => ?_, h.agree, fun hrunning => (Bool.false_ne_true hrunning.symm).elim,
      fun j hj => List.mem_append_left _ (h.ended j hj)⟩
    rcases List.mem_append.mp hj with hj | hj
    · exact h.ended_lt j hj
    · exact h.lt_allocated j hj

/-- Whatever is started, stopped and given back, and whatever comes from the peers, between any two passes of the loop. -/
theorem peers_kept (config : Config) (heap : ℕ → StreamSession Address) (events : List (Event Address))
    (hruns : Runs Enabled (next config) (initial heap) events) :
    PeersKept (events.foldl (next config) (initial heap)) :=
  (hruns.invariant Inv (inv_initial heap) fun _ _ h henabled => inv_next h henabled).kept

end Runs

end Sunshine.ControlPeers
