import Sunshine.Session.ControlPeers

/-! Which session the events of a peer are served for, and what a whole loop over the sessions does.

A peer that ENet gives to another client before the loop has taken the old session off the list is served for the old
one: `served_right_iff`. -/
namespace Sunshine.ControlPeers
open Session Transitions
set_option autoImplicit false

variable {Address : Type} {config : Config} {s t : ControlServer Address} {i : ℕ}

/-! ## The right session -/

section Right
variable [DecidableEq Address]

/-- What a client is known by: the data that it was given or, for an old one, its address. -/
def StreamSession.Identifies (session : StreamSession Address) (connection : Connection Address) : Prop :=
  if session.sessionIdV1 then session.connectData = connection.data
  else session.expectedPeerAddress = connection.address

/-- Every event is served for a session of the client that it comes from. -/
def ServedRight (s : ControlServer Address) : Prop := ∀ pair ∈ s.served, (s.heap pair.2).Identifies pair.1

/-- ENet does not give a peer to another client while the server still has it bound. -/
def Clean (s : ControlServer Address) : Event Address → Prop
  | .connect peer connection _ => ∀ i, s.peerToSession peer = some i → (s.heap i).Identifies connection
  | _ => True

instance (session : StreamSession Address) (connection : Connection Address) :
    Decidable (session.Identifies connection) :=
  inferInstanceAs (Decidable (if session.sessionIdV1 = true then session.connectData = connection.data
    else session.expectedPeerAddress = connection.address))

instance (s : ControlServer Address) : DecidablePred (Clean s) := fun event =>
  match event with
  | .connect peer connection _ =>
    inferInstanceAs (Decidable (∀ i ∈ s.peerToSession peer, (s.heap i).Identifies connection))
  | .start .. | .ready .. | .running _ | .stop _ | .free _ | .receive .. | .disconnect .. | .scanBegin _ | .scanStep _
  | .finish => inferInstanceAs (Decidable True)

structure Bound (s : ControlServer Address) : Prop where
  inv : Inv s
  connected : ∀ peer connection, s.connections peer = some connection →
    ∃ i, s.peerToSession peer = some i ∧ (connection, i) ∈ s.served
  served_lt : ∀ pair ∈ s.served, pair.2 < s.allocated

omit [DecidableEq Address] in
theorem StreamSession.SameClient.identifies_iff {session other : StreamSession Address} (h : session.SameClient other)
    (connection : Connection Address) : other.Identifies connection ↔ session.Identifies connection := by
  unfold StreamSession.Identifies
  rw [h.1, h.2.1, h.2.2]

omit [DecidableEq Address] in
theorem right_congr (hclient : ∀ i, (s.heap i).SameClient (t.heap i)) (hserved : t.served = s.served) :
    ServedRight t ↔ ServedRight s := by
  unfold ServedRight
  rw [hserved]
  exact forall₂_congr fun pair _ => (hclient pair.2).identifies_iff pair.1

omit [DecidableEq Address] in
theorem Bound.frame (h : Bound s) (hst : Frame s t) : Bound t := by
  refine ⟨h.inv.frame hst, ?_, ?_⟩
  · rw [hst.connections, hst.peerToSession, hst.served]
    exact h.connected
  · rw [hst.served, hst.allocated]
    exact h.served_lt

omit [DecidableEq Address] in
/-- One more event is served. -/
theorem right_append_iff (s : ControlServer Address) (connection : Connection Address) (i : ℕ) :
    ServedRight { s with served := s.served ++ [(connection, i)] } ↔
      ServedRight s ∧ (s.heap i).Identifies connection := by
  unfold ServedRight
  dsimp only
  rw [List.forall_mem_append, List.forall_mem_singleton]

theorem identifies_of_takes {session : StreamSession Address} {connection : Connection Address}
    (h : session.takes connection.address connection.data = true) : session.Identifies connection := by
  have hmatch := (Bool.and_eq_true _ _ ▸ h).2
  unfold StreamSession.Identifies
  cases hv1 : session.sessionIdV1 with
  | true =>
    rw [hv1] at hmatch
    exact of_decide_eq_true hmatch
  | false =>
    rw [hv1] at hmatch
    exact of_decide_eq_true hmatch

omit [DecidableEq Address] in
theorem Bound.serve (h : Bound s) {peer : ℕ} (hmapped : s.peerToSession peer = some i) {connection : Connection Address}
    (connections : ℕ → Option (Connection Address))
    (hconnections : ∀ other, connections other = s.connections other ∨
      other = peer ∧ connections other ∈ [none, some connection]) :
    Bound { s with connections := connections, served := s.served ++ [(connection, i)] } := by
  refine ⟨inv_served (inv_connections h.inv connections) (s.served ++ [(connection, i)]),
    fun other found hfound => ?_, fun pair hpair => ?_⟩
  · rcases hconnections other with hsame | ⟨rfl, hone⟩
    · obtain ⟨j, hj, hserved⟩ := h.connected other found (hsame ▸ hfound)
      exact ⟨j, hj, List.mem_append_left _ hserved⟩
    · refine ⟨i, hmapped, List.mem_append_right _ ?_⟩
      change connections other = some found at hfound
      rw [hfound] at hone
      rcases List.mem_cons.mp hone with hnone | hsome
      · exact absurd hnone (Option.some_ne_none found)
      · rw [Option.some.inj (List.mem_singleton.mp hsome)]
        exact List.mem_singleton_self _
  · rcases List.mem_append.mp hpair with hpair | hpair
    · exact h.served_lt pair hpair
    · rw [List.mem_singleton.mp hpair]
      exact h.inv.lt_allocated i ((h.inv.agree peer i).mp hmapped).1

omit [DecidableEq Address] in
/-- A session is bound to a free peer; what is served for it is its client's. -/
theorem Bound.bind (h : Bound s) {peer : ℕ} (hi : i ∈ s.sessions) (hnone : (s.heap i).peer = none)
    (hfree : s.peerToSession peer = none) :
    Bound { s.put i { s.heap i with peer := some peer } with
      peerToSession := Function.update s.peerToSession peer (some i) } := by
  refine ⟨h.inv.bind hi hnone hfree, fun other found hfound => ?_, h.served_lt⟩
  obtain ⟨j, hj, hserved⟩ := h.connected other found hfound
  refine ⟨j, ?_, hserved⟩
  have hother : other ≠ peer := by
    rintro rfl
    exact Option.some_ne_none j (hj.symm.trans hfree)
  exact (Function.update_of_ne hother _ _).trans hj

/-- A new connection is served right exactly if the session that the peer is still bound to is its client's. -/
theorem bound_connect (h : Bound s) (hright : ServedRight s) (peer : ℕ) (connection : Connection Address) (now : ℤ) :
    Bound (next config s (.connect peer connection now)) ∧
      (ServedRight (next config s (.connect peer connection now)) ↔ Clean s (.connect peer connection now)) := by
  set t : ControlServer Address := { s with connections := Function.update s.connections peer (some connection) } with ht
  have hconnections : ∀ other, t.connections other = s.connections other ∨
      other = peer ∧ t.connections other ∈ [none, some connection] := by
    intro other
    by_cases hother : other = peer
    · refine .inr ⟨hother, ?_⟩
      have hself : t.connections other = some connection := hother ▸ Function.update_self _ _ _
      rw [hself]
      exact List.mem_cons_of_mem _ (List.mem_singleton_self _)
    · exact .inl (Function.update_of_ne hother _ _)
  show Bound (iterate config t peer connection connection.data .connect now) ∧
    (ServedRight (iterate config t peer connection connection.data .connect now) ↔ _)
  obtain ⟨i, hmapped, hframe⟩ | ⟨hnone, hresult⟩ | ⟨i, hi, htakes, hfree, hframe⟩ :=
    iterate_cases config t peer connection connection.data .connect now
  · -- the peer has a session
    refine ⟨(h.serve hmapped t.connections hconnections).frame hframe, ?_⟩
    rw [right_congr hframe.client hframe.served, right_append_iff]
    constructor
    · intro hboth j hj
      obtain rfl := Option.some.inj (hmapped.symm.trans hj)
      exact hboth.2
    · exact fun hclean => ⟨hright, hclean i hmapped⟩
  · -- it is rejected
    rw [hresult]
    refine ⟨⟨inv_connections h.inv _, fun other found hfound => ?_, h.served_lt⟩, ?_⟩
    · by_cases hother : other = peer
      · rw [hother] at hfound
        exact absurd (Function.update_self peer none t.connections ▸ hfound) (Option.some_ne_none found).symm
      · have hrest : Function.update t.connections peer none other = s.connections other := by
          rw [Function.update_of_ne hother, ht]
          exact Function.update_of_ne hother _ _
        exact h.connected other found (hrest ▸ hfound)
    · exact iff_of_true hright fun j hj => absurd (hj.symm.trans hnone) (Option.some_ne_none j)
  · -- it gets one
    have hbind := h.bind hi (peer_of_takes htakes) hfree
    have hmapped : Function.update s.peerToSession peer (some i) peer = some i := Function.update_self _ _ _
    refine ⟨(hbind.serve hmapped t.connections hconnections).frame hframe, ?_⟩
    refine iff_of_true ?_ fun j hj => absurd (hj.symm.trans hfree) (Option.some_ne_none j)
    rw [right_congr hframe.client hframe.served]
    have hput := right_append_iff { s.put i { s.heap i with peer := some peer } with
      peerToSession := Function.update s.peerToSession peer (some i) } connection i
    have hclient : ∀ j, (s.heap j).SameClient ((s.put i { s.heap i with peer := some peer }).heap j) :=
      sameClient_put ⟨rfl, rfl, rfl⟩
    refine hput.mpr ⟨(right_congr hclient rfl).mpr hright, ?_⟩
    exact ((hclient i).identifies_iff connection).mpr (identifies_of_takes htakes)

omit [DecidableEq Address] in
/-- What is left of a session is not served. -/
theorem Bound.erase (h : Bound s) {scan : Scan} (hrunning : s.finished = false) (hpos : s.sessions[scan.pos]? = some i) :
    Bound (ControlPeers.erase s i scan) ∧ (ServedRight (ControlPeers.erase s i scan) ↔ ServedRight s) := by
  have hinv := inv_erase h.inv hrunning hpos
  unfold ControlPeers.erase at hinv ⊢
  dsimp only at hinv ⊢
  cases hpeer : (s.heap i).peer with
  | none =>
    rw [hpeer] at hinv
    exact ⟨⟨hinv, h.connected, h.served_lt⟩, Iff.rfl⟩
  | some peer =>
    rw [hpeer] at hinv
    refine ⟨⟨hinv, fun other found hfound => ?_, h.served_lt⟩, Iff.rfl⟩
    by_cases hother : other = peer
    · rw [hother] at hfound
      exact absurd ((Function.update_self peer none s.connections).symm.trans hfound) (Option.some_ne_none found).symm
    · obtain ⟨j, hj, hserved⟩ := h.connected other found ((Function.update_of_ne hother _ _).symm.trans hfound)
      exact ⟨j, (Function.update_of_ne hother _ _).trans hj, hserved⟩

omit [DecidableEq Address] in
theorem Bound.scanStep (config : Config) (h : Bound s) (hrunning : s.finished = false) (scan : Scan) (shutdown : Bool) :
    Bound (ControlPeers.scanStep config s scan shutdown) ∧
      (ServedRight (ControlPeers.scanStep config s scan shutdown) ↔ ServedRight s) := by
  unfold ControlPeers.scanStep
  cases hpos : s.sessions[scan.pos]? with
  | none => exact ⟨⟨inv_scan h.inv none, h.connected, h.served_lt⟩, Iff.rfl⟩
  | some i =>
    have hframe := frame_watch config s i scan.now
    have hwatched := h.frame hframe
    have hright := right_congr hframe.client hframe.served
    dsimp only
    split_ifs with hshutdown hstopping
    · exact ⟨⟨inv_scan h.inv none, h.connected, h.served_lt⟩, Iff.rfl⟩
    · obtain ⟨hbound, hiff⟩ := hwatched.erase (hframe.finished.trans hrunning) (hframe.sessions.symm ▸ hpos)
      exact ⟨hbound, hiff.trans hright⟩
    · exact ⟨⟨inv_scan hwatched.inv _, hwatched.connected, hwatched.served_lt⟩, hright⟩

/-- What comes on a connection is served for the session that it was served for before. -/
theorem bound_iterate (config : Config) (h : Bound s) (hright : ServedRight s) {peer : ℕ} {connection : Connection Address}
    (hconnected : s.connections peer = some connection) (connections : ℕ → Option (Connection Address))
    (hconnections : ∀ other, connections other = s.connections other ∨
      other = peer ∧ connections other ∈ [none, some connection]) (data : UInt32) (type : EventType) (now : ℤ) :
    Bound (iterate config { s with connections := connections } peer connection data type now) ∧
      ServedRight (iterate config { s with connections := connections } peer connection data type now) := by
  obtain ⟨i, hmapped, hserved⟩ := h.connected peer connection hconnected
  obtain ⟨j, hj, hframe⟩ | ⟨hnone, -⟩ | ⟨j, -, -, hnone, -⟩ :=
    iterate_cases config { s with connections := connections } peer connection data type now
  · obtain rfl : i = j := Option.some.inj (hmapped.symm.trans hj)
    refine ⟨(h.serve hmapped connections hconnections).frame hframe, ?_⟩
    rw [right_congr hframe.client hframe.served]
    exact (right_append_iff s connection i).mpr ⟨hright, hright _ hserved⟩
  · exact absurd (hmapped.symm.trans hnone) (Option.some_ne_none i)
  · exact absurd (hmapped.symm.trans hnone) (Option.some_ne_none i)

theorem bound_next (h : Bound s) (hright : ServedRight s) {event : Event Address} (henabled : Enabled s event) :
    Bound (next config s event) ∧ (ServedRight (next config s event) ↔ Clean s event) := by
  have hframed : ∀ t, Frame s t → Bound t ∧ (ServedRight t ↔ True) := fun t hframe =>
    ⟨h.frame hframe, iff_true_intro ((right_congr hframe.client hframe.served).mpr hright)⟩
  have hinv : Inv (next config s event) := inv_next h.inv henabled
  cases event with
  | start sessionIdV1 connectData address now =>
    refine ⟨⟨hinv, h.connected, fun pair hpair => Nat.lt_succ_of_lt (h.served_lt pair hpair)⟩,
      iff_true_intro fun pair hpair => ?_⟩
    have hold : pair.2 ≠ s.allocated := Nat.ne_of_lt (h.served_lt pair hpair)
    have hsame := hright pair hpair
    rwa [← Function.update_of_ne hold ⟨sessionIdV1, connectData, address, none, .stopped, 0, now⟩ s.heap] at hsame
  | ready i now => exact hframed _ (frame_put rfl ⟨rfl, rfl, rfl⟩)
  | running i => exact hframed _ (frame_put rfl ⟨rfl, rfl, rfl⟩)
  | stop i => exact hframed _ (frame_stop s i)
  | free i => exact ⟨⟨hinv, h.connected, h.served_lt⟩, iff_true_intro hright⟩
  | connect peer connection now => exact bound_connect h hright peer connection now
  | receive peer data input stops now =>
    cases hconnection : s.connections peer with
    | none =>
      simp only [next, hconnection]
      exact ⟨h, iff_true_intro hright⟩
    | some connection =>
      simp only [next, hconnection]
      have hboth := bound_iterate config h hright hconnection s.connections (fun _ => .inl rfl) data
        (.receive input stops) now
      exact ⟨hboth.1, iff_true_intro hboth.2⟩
  | disconnect peer data now =>
    cases hconnection : s.connections peer with
    | none =>
      simp only [next, hconnection]
      exact ⟨h, iff_true_intro hright⟩
    | some connection =>
      simp only [next, hconnection]
      have hboth := bound_iterate config h hright hconnection (Function.update s.connections peer none)
        (fun other => ?_) data .disconnect now
      · exact ⟨hboth.1, iff_true_intro hboth.2⟩
      · by_cases hother : other = peer
        · refine .inr ⟨hother, ?_⟩
          rw [hother, Function.update_self]
          exact List.mem_cons_self
        · exact .inl (Function.update_of_ne hother _ _)
  | scanBegin now => exact ⟨⟨hinv, h.connected, h.served_lt⟩, iff_true_intro hright⟩
  | scanStep shutdown =>
    cases hscan : s.scan with
    | none =>
      simp only [next, hscan]
      exact ⟨h, iff_true_intro hright⟩
    | some scan =>
      simp only [next, hscan]
      have hboth := h.scanStep config henabled scan shutdown
      exact ⟨hboth.1, iff_true_intro (hboth.2.mpr hright)⟩
  | finish => exact ⟨⟨hinv, h.connected, h.served_lt⟩, iff_true_intro hright⟩

/-- Every event is served for a session of its client exactly as long as ENet gives no peer to another client while the
session of the one before is still on the list. -/
theorem served_right_iff (config : Config) (heap : ℕ → StreamSession Address) (events : List (Event Address))
    (hruns : Runs Enabled (next config) (initial heap) events) :
    (∀ front, front <+: events → ServedRight (front.foldl (next config) (initial heap))) ↔
      Runs Clean (next config) (initial heap) events := by
  refine hruns.always_good_iff Bound ServedRight ⟨inv_initial heap, fun _ found hfound => ?_, fun _ hpair => ?_⟩
    (fun _ hpair => absurd hpair List.not_mem_nil) (fun s event h hright henabled _ => (bound_next h hright henabled).1)
    fun s event h hright henabled => (bound_next h hright henabled).2
  · exact absurd hfound (Option.some_ne_none found).symm
  · exact absurd hpair List.not_mem_nil

end Right

/-! ## A whole loop -/

/-- Whether the session is stopping behind the watchdogs. -/
def StreamSession.Ends (config : Config) (now : ℤ) (session : StreamSession Address) : Prop :=
  session.state = .stopping ∨ session.state = .running ∧ (session.pingTimeout < now ∨
    0 < config.idleTimeoutMin ∧ config.idleTimeoutMin * 60 ≤ (now - session.lastInputTime).tdiv 1000000000)

instance (config : Config) (now : ℤ) (session : StreamSession Address) : Decidable (session.Ends config now) :=
  inferInstanceAs (Decidable (_ ∨ _))

theorem stop_stopping_iff (session : StreamSession Address) :
    session.stop.state = .stopping ↔ session.state = .stopping ∨ session.state = .running := by
  unfold StreamSession.stop
  dsimp only
  split_ifs with hrunning
  · exact iff_of_true rfl (.inr hrunning)
  · exact (or_iff_left hrunning).symm

theorem watch_stopping_iff (config : Config) (s : ControlServer Address) (i : ℕ) (now : ℤ) :
    ((watch config s i now).heap i).state = .stopping ↔ (s.heap i).Ends config now := by
  have hself : ∀ t : ControlServer Address, (t.stop i).heap i = (t.heap i).stop := fun t => put_heap_self _
  have hinput : (s.heap i).stop.lastInputTime = (s.heap i).lastInputTime := rfl
  unfold watch StreamSession.Ends
  dsimp only
  by_cases hping : (s.heap i).pingTimeout < now
  · rw [if_pos hping, hself, hinput]
    have htwice : (s.heap i).stop.stop.state = .stopping ↔ (s.heap i).stop.state = .stopping := by
      rw [stop_stopping_iff, stop_stopping_iff]
      refine ⟨fun h => h.elim id fun hrunning => ?_, .inl⟩
      unfold StreamSession.stop at hrunning
      dsimp only at hrunning
      split_ifs at hrunning with hsame
      exact absurd hrunning hsame
    have hboth : (s.heap i).state = .stopping ∨ (s.heap i).state = .running ∧ ((s.heap i).pingTimeout < now ∨
        0 < config.idleTimeoutMin ∧ config.idleTimeoutMin * 60 ≤ (now - (s.heap i).lastInputTime).tdiv 1000000000) ↔
        (s.heap i).stop.state = .stopping := by
      rw [stop_stopping_iff, and_iff_left (.inl hping)]
    rw [hboth]
    split_ifs
    · rw [hself, hself, htwice]
    · rw [hself]
  · rw [if_neg hping, or_iff_right hping]
    split_ifs with hidle
    · rw [hself, stop_stopping_iff, and_iff_left hidle]
    · exact ⟨.inl, fun h => h.elim id fun hboth => absurd hboth.2 hidle⟩

theorem watch_heap_of_ne (config : Config) (s : ControlServer Address) (now : ℤ) {j : ℕ} (h : j ≠ i) :
    (watch config s i now).heap j = s.heap j := by
  have hother : ∀ t : ControlServer Address, (t.stop i).heap j = t.heap j := fun t => put_heap_of_ne _ h
  unfold watch
  dsimp only
  split_ifs
  · rw [hother, hother]
  · rw [hother]
  · rw [hother]
  · rfl

section Loop
variable [DecidableEq Address]

/-- The passes from a place on take the sessions off that end, and leave the others. -/
theorem passes_eq (config : Config) (now : ℤ) (rest front : List ℕ) (s : ControlServer Address)
    (hnodup : (front ++ rest).Nodup) (hsessions : s.sessions = front ++ rest) (hscan : s.scan = some ⟨front.length, now⟩)
    (hfront : ∀ i ∈ front, (s.heap i).state ≠ .stopping) :
    let t := (List.replicate (rest.length + 1) (Event.scanStep false)).foldl (next config) s
    t.scan = none ∧ t.sessions = front ++ rest.filter (fun i => ¬(s.heap i).Ends config now) ∧
      t.controlEnd = s.controlEnd ++ rest.filter (fun i => (s.heap i).Ends config now) ∧
      ∀ i ∈ t.sessions, (t.heap i).state ≠ .stopping := by
  induction rest generalizing front s with
  | nil =>
    have hstep : next config s (.scanStep false) = { s with scan := none } := by
      simp only [next, hscan, scanStep]
      rw [hsessions, List.append_nil, List.getElem?_eq_none (Nat.le_refl _)]
    intro t
    have ht : t = { s with scan := none } := hstep
    rw [ht]
    refine ⟨rfl, hsessions, (List.append_nil _).symm, fun i hi => hfront i ?_⟩
    change i ∈ s.sessions at hi
    rwa [hsessions, List.append_nil] at hi
  | cons i rest ih =>
    have hpos : s.sessions[front.length]? = some i := by
      rw [hsessions, List.getElem?_append_right (Nat.le_refl _), Nat.sub_self]
      rfl
    have hframe := frame_watch config s i now
    obtain ⟨hnodupFront, hnodupRest, hapart⟩ := List.nodup_append.mp hnodup
    obtain ⟨hnotRest, hnodupTail⟩ := List.nodup_cons.mp hnodupRest
    have hother : ∀ j ∈ rest, (watch config s i now).heap j = s.heap j := fun j hj =>
      watch_heap_of_ne config s now fun heq => hnotRest (heq ▸ hj)
    have hfilter : ∀ p : StreamSession Address → Bool, ∀ t : ControlServer Address,
        t.heap = (watch config s i now).heap → rest.filter (fun j => p (t.heap j)) = rest.filter fun j => p (s.heap j) :=
      fun p t ht => List.filter_congr fun j hj => by rw [ht, hother j hj]
    have hkept : ∀ j ∈ front, ((watch config s i now).heap j).state ≠ .stopping := by
      intro j hj
      rw [watch_heap_of_ne config s now fun heq => hapart j hj i List.mem_cons_self heq]
      exact hfront j hj
    intro t
    have ht : t = (List.replicate (rest.length + 1) (Event.scanStep false)).foldl (next config)
        (next config s (.scanStep false)) := rfl
    by_cases hends : (s.heap i).Ends config now
    · -- the session is taken off, and the place is that of the one behind it
      have hstep : next config s (.scanStep false) = erase (watch config s i now) i ⟨front.length, now⟩ := by
        simp only [next, hscan, scanStep]
        rw [hpos]
        dsimp only
        rw [if_neg Bool.false_ne_true, if_pos ((watch_stopping_iff config s i now).mpr hends)]
      obtain ⟨hheap, hlist, hend, hplace, -, -⟩ := erase_rest (watch config s i now) i ⟨front.length, now⟩
      have hleft : (s.sessions.eraseIdx front.length) = front ++ rest := by
        rw [hsessions, List.eraseIdx_append_of_length_le (Nat.le_refl _), Nat.sub_self]
        rfl
      have hrest := ih front (erase (watch config s i now) i ⟨front.length, now⟩)
        (hnodup.sublist (List.Sublist.append_left (List.sublist_cons_self i rest) front))
        (hlist.trans ((congrArg (List.eraseIdx · front.length) hframe.sessions).trans hleft))
        (hplace.trans (hframe.scan.trans hscan)) (hheap.symm ▸ hkept)
      rw [hfilter (fun session => ¬session.Ends config now) _ hheap, hfilter (fun session => session.Ends config now) _ hheap,
        hend, hframe.controlEnd] at hrest
      rw [ht, hstep, List.filter_cons_of_neg (by simpa using hends), List.filter_cons_of_pos (by simpa using hends)]
      rw [List.append_assoc, List.singleton_append] at hrest
      exact hrest
    · -- the session stays, and the next pass is for the one behind it
      have hstep : next config s (.scanStep false) =
          { watch config s i now with scan := some ⟨(front ++ [i]).length, now⟩ } := by
        simp only [next, hscan, scanStep]
        rw [hpos]
        dsimp only
        rw [if_neg Bool.false_ne_true, if_neg fun h => hends ((watch_stopping_iff config s i now).mp h), List.length_append]
        rfl
      have hrest := ih (front ++ [i]) { watch config s i now with scan := some ⟨(front ++ [i]).length, now⟩ }
        (by rwa [List.append_assoc, List.singleton_append])
        (by rw [List.append_assoc, List.singleton_append, ← hsessions]; exact hframe.sessions) rfl fun j hj => by
          rcases List.mem_append.mp hj with hj | hj
          · exact hkept j hj
          · rw [List.mem_singleton.mp hj]
            exact fun h => hends ((watch_stopping_iff config s i now).mp h)
      rw [hfilter (fun session => ¬session.Ends config now) _ rfl, hfilter (fun session => session.Ends config now) _ rfl,
        hframe.controlEnd, List.append_assoc, List.singleton_append] at hrest
      rw [ht, hstep, List.filter_cons_of_pos (by simpa using hends), List.filter_cons_of_neg (by simpa using hends)]
      exact hrest

/-- A loop that no shutdown breaks off takes exactly the sessions off the list that are stopping, late with their pings
or idle, and tells their ends in the order of the list. -/
theorem loop_takes_off (config : Config) (heap : ℕ → StreamSession Address) (events : List (Event Address))
    (hruns : Runs Enabled (next config) (initial heap) events) (now : ℤ) :
    let s := events.foldl (next config) (initial heap)
    let t := (List.replicate (s.sessions.length + 1) (Event.scanStep false)).foldl (next config)
      (next config s (.scanBegin now))
    t.scan = none ∧ t.sessions = s.sessions.filter (fun i => ¬(s.heap i).Ends config now) ∧
      t.controlEnd = s.controlEnd ++ s.sessions.filter (fun i => (s.heap i).Ends config now) ∧
      ∀ i ∈ t.sessions, (t.heap i).state ≠ .stopping := by
  have hinv := hruns.invariant Inv (inv_initial heap) fun _ _ h henabled => inv_next h henabled
  intro s
  exact passes_eq config now s.sessions [] (next config s (.scanBegin now)) hinv.nodup rfl rfl fun _ hi =>
    absurd hi List.not_mem_nil

end Loop

/-! ## A peer that is used again -/

def nobody (_ : ℕ) : StreamSession Unit := ⟨false, 0, (), none, .stopped, 0, 0⟩

def noIdle : Config := ⟨10000000000, 0⟩

/-- The first client leaves, and before the next loop ENet gives its peer to the second. -/
def reused : List (Event Unit) :=
  [.start true 1 () 0, .start true 2 () 0, .ready 0 0, .running 0, .connect 7 ⟨1, ()⟩ 1, .disconnect 7 0 2,
    .connect 7 ⟨2, ()⟩ 3]

theorem reused_peer : ¬∀ front, front <+: reused → ServedRight (front.foldl (next noIdle) (initial nobody)) := fun h =>
  absurd ((served_right_iff noIdle nobody reused (by decide)).mp h) (by decide)

theorem reused_kept : PeersKept (reused.foldl (next noIdle) (initial nobody)) :=
  peers_kept noIdle nobody reused (by decide)

theorem reused_loop :
    let s := reused.foldl (next noIdle) (initial nobody)
    let t := (List.replicate (s.sessions.length + 1) (Event.scanStep false)).foldl (next noIdle)
      (next noIdle s (.scanBegin 4))
    t.scan = none ∧ t.sessions = s.sessions.filter (fun i => ¬(s.heap i).Ends noIdle 4) ∧
      t.controlEnd = s.controlEnd ++ s.sessions.filter (fun i => (s.heap i).Ends noIdle 4) ∧
      ∀ i ∈ t.sessions, (t.heap i).state ≠ .stopping :=
  loop_takes_off noIdle nobody reused (by decide) 4

end Sunshine.ControlPeers
