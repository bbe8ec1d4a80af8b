import Mathlib.Data.List.Basic
import Mathlib.Logic.Function.Basic
import Mathlib.Algebra.Order.Ring.Nat
import Mathlib.Tactic.Common
import Sunshine.Lib.Transitions

/-! What the packets of the shared video queue point to.

A packet has the streaming session in its `channel_data` and, if FFmpeg has encoded it, the list of
replacements of its encode session. Neither keeps what it points to alive, and the end of a session or of
an encode session does not go through the queue; `handled_intact` says what keeps the broadcast thread
from a packet whose session or encode session is gone. -/
namespace Sunshine.PacketLifetime
open Transitions
set_option autoImplicit false

structure Packet where
  channelData : ℕ
  replacements : Option ℕ
  deriving DecidableEq, Repr

/-- `released` is from the beginning of the destructor on. -/
inductive SessionState where
  | unallocated
  | running
  | joined
  | released
  deriving DecidableEq, Repr

/-- `tearingDown` is in the detached thread of `ASYNC_TEARDOWN`. -/
inductive EncodeState where
  | unmade
  | encoding
  | tearingDown
  | destroyed
  deriving DecidableEq, Repr

/-- `encoder` is the encode session that a session encodes with, on its own thread or on the capture thread.
`sessionCount` counts those that hold a reference to the broadcast context. -/
structure Broadcast where
  sessions : ℕ → SessionState := fun _ => .unallocated
  encoder : ℕ → Option ℕ := fun _ => none
  encodeSessions : ℕ → EncodeState := fun _ => .unmade
  avcodec : ℕ → Bool := fun _ => false
  sessionCount : ℕ := 0
  running : Bool := false
  packets : List Packet := []
  handling : Option Packet := none

inductive PacketEvent where
  | start (i : ℕ)
  | makeEncoder (i e : ℕ) (avcodec : Bool)
  | encode (i : ℕ)
  | leaveEncoder (i : ℕ) (asyncTeardown : Bool)
  | tornDown (e : ℕ)
  | join (i : ℕ)
  | release (i : ℕ)
  | endBroadcast
  | pop
  | handled
  deriving DecidableEq, Repr

/-- The capacity of a queue for which none is given. -/
def maxPackets : ℕ := 32

def packetOf (s : Broadcast) (i e : ℕ) : Packet :=
  { channelData := i, replacements := if s.avcodec e then some e else none }

/-- `queue_t::raise`. -/
def Broadcast.raise (s : Broadcast) (p : Packet) : Broadcast :=
  if s.running then
    { s with packets := (if maxPackets ≤ s.packets.length then [] else s.packets) ++ [p] }
  else s

def nextBroadcast (s : Broadcast) : PacketEvent → Broadcast
  | .start i =>
    { s with
      sessions := Function.update s.sessions i .running
      sessionCount := s.sessionCount + 1
      running := true
      packets := if s.sessionCount = 0 then [] else s.packets }
  | .makeEncoder i e avcodec =>
    { s with
      encoder := Function.update s.encoder i (some e)
      encodeSessions := Function.update s.encodeSessions e .encoding
      avcodec := Function.update s.avcodec e avcodec }
  | .encode i =>
    match s.encoder i with
    | some e => s.raise (packetOf s i e)
    | none => s
  | .leaveEncoder i asyncTeardown =>
    match s.encoder i with
    | some e =>
      { s with
        encoder := Function.update s.encoder i none
        encodeSessions :=
          Function.update s.encodeSessions e (if asyncTeardown then .tearingDown else .destroyed) }
    | none => s
  | .tornDown e => { s with encodeSessions := Function.update s.encodeSessions e .destroyed }
  | .join i => { s with sessions := Function.update s.sessions i .joined }
  | .release i =>
    { s with
      sessions := Function.update s.sessions i .released
      sessionCount := s.sessionCount - 1 }
  | .endBroadcast => { s with running := false, packets := [] }
  | .pop => { s with packets := s.packets.tail, handling := s.packets.head? }
  | .handled => { s with handling := none }

/-- A session is joined when its video thread has ended, and no session starts while the destructor of the last
one ends the broadcast. -/
def PacketEnabled (s : Broadcast) : PacketEvent → Prop
  | .start i => s.sessions i = .unallocated ∧ (s.sessionCount = 0 → s.running = false)
  | .makeEncoder i e _ => s.sessions i = .running ∧ s.encoder i = none ∧ s.encodeSessions e = .unmade
  | .encode i => (s.encoder i).isSome = true
  | .leaveEncoder i _ => (s.encoder i).isSome = true
  | .tornDown e => s.encodeSessions e = .tearingDown
  | .join i => s.sessions i = .running ∧ s.encoder i = none
  | .release i => s.sessions i = .joined
  | .endBroadcast => s.running = true ∧ s.sessionCount = 0 ∧ s.handling = none
  | .pop => s.running = true ∧ s.handling = none ∧ s.packets ≠ []
  | .handled => s.handling ≠ none

instance decidablePacketEnabled (s : Broadcast) : ∀ e : PacketEvent, Decidable (PacketEnabled s e)
  | .start i => inferInstanceAs (Decidable (s.sessions i = _ ∧ (s.sessionCount = 0 → s.running = _)))
  | .makeEncoder i e _ =>
    inferInstanceAs (Decidable (s.sessions i = _ ∧ s.encoder i = _ ∧ s.encodeSessions e = _))
  | .encode i => inferInstanceAs (Decidable ((s.encoder i).isSome = _))
  | .leaveEncoder i _ => inferInstanceAs (Decidable ((s.encoder i).isSome = _))
  | .tornDown e => inferInstanceAs (Decidable (s.encodeSessions e = _))
  | .join i => inferInstanceAs (Decidable (s.sessions i = _ ∧ s.encoder i = _))
  | .release i => inferInstanceAs (Decidable (s.sessions i = _))
  | .endBroadcast => inferInstanceAs (Decidable (s.running = _ ∧ s.sessionCount = 0 ∧ s.handling = _))
  | .pop => inferInstanceAs (Decidable (s.running = _ ∧ s.handling = _ ∧ s.packets ≠ []))
  | .handled => inferInstanceAs (Decidable (s.handling ≠ none))

/-! ## Packets and what they point to -/

def Intact (s : Broadcast) (p : Packet) : Prop :=
  s.sessions p.channelData ≠ .released ∧ ∀ e, p.replacements = some e → s.encodeSessions e ≠ .destroyed

def HandlesIntact (s : Broadcast) : Prop := ∀ p, s.handling = some p → Intact s p

def Broadcast.outstanding (s : Broadcast) : List Packet := s.handling.toList ++ s.packets

/-- When a session is released, and when an encode session is destroyed, no packet that points to it is in the queue
or in the hands of the broadcast thread. -/
def Unreferenced (s : Broadcast) : PacketEvent → Prop
  | .release i => ∀ p ∈ s.outstanding, p.channelData ≠ i
  | .leaveEncoder i asyncTeardown =>
    asyncTeardown = false → ∀ p ∈ s.outstanding, p.replacements = none ∨ p.replacements ≠ s.encoder i
  | .tornDown e => ∀ p ∈ s.outstanding, p.replacements ≠ some e
  | _ => True

instance decidableUnreferenced (s : Broadcast) : ∀ e : PacketEvent, Decidable (Unreferenced s e)
  | .release i => inferInstanceAs (Decidable (∀ p ∈ s.outstanding, p.channelData ≠ i))
  | .leaveEncoder i asyncTeardown =>
    inferInstanceAs (Decidable (asyncTeardown = false →
      ∀ p ∈ s.outstanding, p.replacements = none ∨ p.replacements ≠ s.encoder i))
  | .tornDown e => inferInstanceAs (Decidable (∀ p ∈ s.outstanding, p.replacements ≠ some e))
  | .start _ | .makeEncoder .. | .encode _ | .join _ | .endBroadcast | .pop | .handled =>
    inferInstanceAs (Decidable True)

/-- A session with an encode session runs, and the encode session is its own and encodes. -/
structure BroadcastOk (s : Broadcast) : Prop where
  encodes : ∀ i e, s.encoder i = some e → s.sessions i = .running ∧ s.encodeSessions e = .encoding
  own : ∀ i j e, s.encoder i = some e → s.encoder j = some e → i = j

theorem broadcastOk_initial : BroadcastOk {} where
  encodes _ _ h := by cases h
  own _ _ _ h := by cases h

section Steps
variable {s t : Broadcast}

/-- A session that changes its state while it has no encode session. -/
theorem BroadcastOk.move (h : BroadcastOk s) {i : ℕ} (state : SessionState)
    (hi : ∀ e, s.encoder i ≠ some e) (hencoder : t.encoder = s.encoder)
    (hsessions : t.sessions = Function.update s.sessions i state)
    (hencodeSessions : t.encodeSessions = s.encodeSessions) : BroadcastOk t where
  encodes j e hj := by
    rw [hencoder] at hj
    have hji : j ≠ i := by
      intro heq
      subst heq
      exact hi e hj
    rw [hsessions, hencodeSessions, Function.update_of_ne hji]
    exact h.encodes j e hj
  own := by
    rw [hencoder]
    exact h.own

theorem BroadcastOk.idle (h : BroadcastOk s) {i : ℕ} (hi : s.sessions i ≠ .running) (e : ℕ) :
    s.encoder i ≠ some e := fun hencoder => hi (h.encodes i e hencoder).1

theorem BroadcastOk.same (h : BroadcastOk s) (hsessions : t.sessions = s.sessions)
    (hencoder : t.encoder = s.encoder) (hencodeSessions : t.encodeSessions = s.encodeSessions) :
    BroadcastOk t where
  encodes := by
    rw [hencoder, hsessions, hencodeSessions]
    exact h.encodes
  own := by
    rw [hencoder]
    exact h.own

theorem BroadcastOk.next (h : BroadcastOk s) (a : PacketEvent) (hen : PacketEnabled s a) :
    BroadcastOk (nextBroadcast s a) := by
  cases a with
  | start i => exact h.move (i := i) .running (h.idle (by simp [hen.1])) rfl rfl rfl
  | join i => exact h.move (i := i) .joined (by simp [hen.2]) rfl rfl rfl
  | release i =>
    have hi : s.sessions i = .joined := hen
    exact h.move (i := i) .released (h.idle (by simp [hi])) rfl rfl rfl
  | makeEncoder i e avcodec =>
    obtain ⟨hi, -, he⟩ := hen
    have hfresh : ∀ j, s.encoder j ≠ some e := by
      intro j hj
      rw [(h.encodes j e hj).2] at he
      cases he
    constructor
    · intro j e' hj
      simp only [nextBroadcast] at hj ⊢
      by_cases hji : j = i
      · subst hji
        rw [Function.update_self, Option.some.injEq] at hj
        subst hj
        exact ⟨hi, Function.update_self _ _ _⟩
      · rw [Function.update_of_ne hji] at hj
        have hne : e' ≠ e := fun heq => hfresh j (heq ▸ hj)
        rw [Function.update_of_ne hne]
        exact h.encodes j e' hj
    · intro j k e' hj hk
      simp only [nextBroadcast] at hj hk
      by_cases hji : j = i
      · by_cases hki : k = i
        · rw [hji, hki]
        · rw [Function.update_of_ne hki] at hk
          rw [hji, Function.update_self, Option.some.injEq] at hj
          exact absurd (hj ▸ hk) (hfresh k)
      · rw [Function.update_of_ne hji] at hj
        by_cases hki : k = i
        · rw [hki, Function.update_self, Option.some.injEq] at hk
          exact absurd (hk ▸ hj) (hfresh j)
        · rw [Function.update_of_ne hki] at hk
          exact h.own j k e' hj hk
  | encode i =>
    simp only [nextBroadcast, Broadcast.raise]
    split
    · split
      · exact h.same rfl rfl rfl
      · exact h
    · exact h
  | leaveEncoder i asyncTeardown =>
    simp only [nextBroadcast]
    split
    · rename_i e he
      have hkept : ∀ j e', Function.update s.encoder i none j = some e' →
          j ≠ i ∧ s.encoder j = some e' := by
        intro j e' hj
        by_cases hji : j = i
        · rw [hji, Function.update_self] at hj
          cases hj
        · rw [Function.update_of_ne hji] at hj
          exact ⟨hji, hj⟩
      constructor
      · intro j e' hj
        obtain ⟨hji, hold⟩ := hkept j e' hj
        have hne : e' ≠ e := fun heq => hji (h.own j i e (heq ▸ hold) he)
        dsimp only
        rw [Function.update_of_ne hne]
        exact h.encodes j e' hold
      · intro j k e' hj hk
        exact h.own j k e' (hkept j e' hj).2 (hkept k e' hk).2
    · exact h
  | tornDown e =>
    have he : s.encodeSessions e = .tearingDown := hen
    refine ⟨fun j e' hj => ?_, h.own⟩
    have hold := h.encodes j e' hj
    have hne : e' ≠ e := by
      intro heq
      rw [heq, he] at hold
      cases hold.2
    simp only [nextBroadcast]
    rw [Function.update_of_ne hne]
    exact hold
  | endBroadcast | pop | handled => exact h.same rfl rfl rfl

/-- Packets that stay outstanding stay intact if what they point to does. -/
theorem intact_keeps (hs : ∀ p ∈ s.outstanding, Intact s p)
    (hout : ∀ p ∈ t.outstanding, p ∈ s.outstanding)
    (hkept : ∀ p ∈ s.outstanding, Intact s p → Intact t p) : ∀ p ∈ t.outstanding, Intact t p :=
  fun p hp => hkept p (hout p hp) (hs p (hout p hp))

theorem intact_update {sessions : ℕ → SessionState} {i : ℕ} {state : SessionState} {p : Packet}
    (h : sessions p.channelData ≠ .released) (hstate : p.channelData = i → state ≠ .released) :
    Function.update sessions i state p.channelData ≠ .released := by
  by_cases hi : p.channelData = i
  · rw [← hi, Function.update_self]
    exact hstate hi
  · rw [Function.update_of_ne hi]
    exact h

theorem encodes_update {encodeSessions : ℕ → EncodeState} {e : ℕ} {state : EncodeState} {p : Packet}
    (h : ∀ e', p.replacements = some e' → encodeSessions e' ≠ .destroyed)
    (hstate : p.replacements = some e → state ≠ .destroyed) (e' : ℕ) (he' : p.replacements = some e') :
    Function.update encodeSessions e state e' ≠ .destroyed := by
  by_cases hee : e' = e
  · subst hee
    rw [Function.update_self]
    exact hstate he'
  · rw [Function.update_of_ne hee]
    exact h e' he'

/-- The packet of a raise is intact, and what is outstanding behind it was so before or is that packet. -/
theorem intact_encode (h : BroadcastOk s) (hs : ∀ p ∈ s.outstanding, Intact s p) {i e : ℕ}
    (he : s.encoder i = some e) :
    ∀ p ∈ (s.raise (packetOf s i e)).outstanding, Intact s p := by
  have hnew : Intact s (packetOf s i e) := by
    obtain ⟨hrunning, hencoding⟩ := h.encodes i e he
    refine ⟨by simp [packetOf, hrunning], fun e' he' => ?_⟩
    simp only [packetOf] at he'
    split at he'
    · rw [← Option.some.inj he', hencoding]
      exact fun heq => by cases heq
    · cases he'
  intro p hp
  unfold Broadcast.raise at hp
  split at hp
  · rcases List.mem_append.mp hp with hp | hp
    · exact hs p (List.mem_append_left _ hp)
    · rcases List.mem_append.mp hp with hp | hp
      · split at hp
        · cases hp
        · exact hs p (List.mem_append_right _ hp)
      · rw [List.mem_singleton.mp hp]
        exact hnew
  · exact hs p hp

theorem pop_outstanding (hidle : s.handling = none) :
    (nextBroadcast s .pop).outstanding = s.outstanding := by
  cases hpackets : s.packets with
  | nil => simp [Broadcast.outstanding, nextBroadcast, hidle, hpackets]
  | cons p q => simp [Broadcast.outstanding, nextBroadcast, hidle, hpackets]

theorem outstanding_intact_next (h : BroadcastOk s) (hs : ∀ p ∈ s.outstanding, Intact s p)
    (a : PacketEvent) (hen : PacketEnabled s a) (hfree : Unreferenced s a) :
    ∀ p ∈ (nextBroadcast s a).outstanding, Intact (nextBroadcast s a) p := by
  cases a with
  | start i =>
    refine intact_keeps hs (fun p hp => ?_) (fun p _ hold => ?_)
    · refine (List.mem_append.mp hp).elim (List.mem_append_left _) (fun hp => ?_)
      simp only [nextBroadcast] at hp
      split at hp
      · cases hp
      · exact List.mem_append_right _ hp
    · exact ⟨intact_update hold.1 (fun _ heq => by cases heq), hold.2⟩
  | join i =>
    exact intact_keeps hs (fun p hp => hp) (fun p _ hold =>
      ⟨intact_update hold.1 (fun _ heq => by cases heq), hold.2⟩)
  | release i =>
    exact intact_keeps hs (fun p hp => hp) (fun p hp hold =>
      ⟨intact_update hold.1 (fun hi => absurd hi (hfree p hp)), hold.2⟩)
  | makeEncoder i e avcodec =>
    exact intact_keeps hs (fun p hp => hp) (fun p _ hold =>
      ⟨hold.1, encodes_update hold.2 (fun _ heq => by cases heq)⟩)
  | encode i =>
    cases he : s.encoder i with
    | none =>
      have hsome : (s.encoder i).isSome = true := hen
      rw [he] at hsome
      cases hsome
    | some e =>
      have hnext : nextBroadcast s (.encode i) = s.raise (packetOf s i e) := by
        simp only [nextBroadcast, he]
      have hsame : ∀ p, Intact s p → Intact (s.raise (packetOf s i e)) p := by
        intro p hp
        unfold Broadcast.raise
        split <;> exact hp
      intro p hp
      rw [hnext] at hp ⊢
      exact hsame p (intact_encode h hs he p hp)
  | leaveEncoder i asyncTeardown =>
    cases he : s.encoder i with
    | none => simpa only [nextBroadcast, he] using hs
    | some e =>
      simp only [nextBroadcast, he]
      refine intact_keeps hs (fun p hp => hp) (fun p hp hold =>
        ⟨hold.1, encodes_update hold.2 (fun hreplacements => ?_)⟩)
      cases asyncTeardown with
      | true => exact fun heq => by cases heq
      | false =>
        rcases hfree rfl p hp with hnone | hother
        · rw [hnone] at hreplacements
          cases hreplacements
        · rw [he] at hother
          exact absurd hreplacements hother
  | tornDown e =>
    exact intact_keeps hs (fun p hp => hp) (fun p hp hold =>
      ⟨hold.1, encodes_update hold.2 (fun hreplacements => absurd hreplacements (hfree p hp))⟩)
  | endBroadcast =>
    refine intact_keeps hs (fun p hp => ?_) (fun p _ hold => hold)
    refine (List.mem_append.mp hp).elim (List.mem_append_left _) (fun hp => ?_)
    cases hp
  | pop =>
    refine intact_keeps hs (fun p hp => ?_) (fun p _ hold => hold)
    rwa [pop_outstanding hen.2.1] at hp
  | handled =>
    exact intact_keeps hs (fun p hp => List.mem_append_right _ hp) (fun p _ hold => hold)

end Steps

/-! ## Runs -/

/-- If no session and no encode session goes while packets that point to it are outstanding, the broadcast thread
handles intact packets only. -/
theorem handled_intact (l : List PacketEvent)
    (hrun : Runs (fun s a => PacketEnabled s a ∧ Unreferenced s a) nextBroadcast {} l) :
    HandlesIntact (l.foldl nextBroadcast {}) := by
  obtain ⟨-, hintact⟩ := hrun.invariant
    (fun s => BroadcastOk s ∧ ∀ p ∈ s.outstanding, Intact s p)
    ⟨broadcastOk_initial, fun p hp => by cases hp⟩
    (fun s a hs ha => ⟨hs.1.next a ha.1, outstanding_intact_next hs.1 hs.2 a ha.1 ha.2⟩)
  intro p hp
  apply hintact p
  rw [Broadcast.outstanding, hp]
  exact List.mem_cons_self

/-- An encode session is left and destroyed behind its packets; the session goes on with another one. -/
def reencoded : List PacketEvent :=
  [.start 0, .makeEncoder 0 0 true, .encode 0, .pop, .leaveEncoder 0 true, .handled, .tornDown 0,
    .makeEncoder 0 1 true, .encode 0, .pop]

theorem handled_intact_reencoded : HandlesIntact (reencoded.foldl nextBroadcast {}) :=
  handled_intact reencoded (by decide +kernel)

/-- What is outstanding and not intact is handled sooner or later, if the broadcast thread goes on. -/
theorem handled_of_outstanding {s : Broadcast} {p : Packet} (hrunning : s.running = true)
    (hp : p ∈ s.outstanding) (hbroken : ¬Intact s p) :
    ∃ l, Runs PacketEnabled nextBroadcast s l ∧ ¬HandlesIntact (l.foldl nextBroadcast s) := by
  have hqueued : ∀ (q : List Packet) (s : Broadcast), s.running = true → s.handling = none →
      s.packets = q → p ∈ q → ¬Intact s p →
      ∃ l, Runs PacketEnabled nextBroadcast s l ∧ ¬HandlesIntact (l.foldl nextBroadcast s) := by
    intro q
    induction q with
    | nil =>
      intro s _ _ _ hq
      cases hq
    | cons first q ih =>
      intro s hrun hidle hpackets hq hbroken
      have hpop : PacketEnabled s .pop := ⟨hrun, hidle, by simp [hpackets]⟩
      have hfirst : (nextBroadcast s .pop).handling = some first := by
        simp [nextBroadcast, hpackets]
      rcases List.mem_cons.mp hq with heq | hrest
      · exact ⟨[.pop], ⟨hpop, trivial⟩, fun hall => hbroken (hall p (by rw [heq]; exact hfirst))⟩
      · have hhandled : PacketEnabled (nextBroadcast s .pop) .handled := by
          simp [PacketEnabled, hfirst]
        obtain ⟨l, hl, hbad⟩ := ih (nextBroadcast (nextBroadcast s .pop) .handled) hrun rfl
          (by simp [nextBroadcast, hpackets]) hrest hbroken
        exact ⟨.pop :: .handled :: l, ⟨hpop, hhandled, hl⟩, hbad⟩
  rcases List.mem_append.mp hp with hhandling | hpackets
  · refine ⟨[], trivial, fun hall => hbroken (hall p ?_)⟩
    simpa using hhandling
  · cases hidle : s.handling with
    | none => exact hqueued s.packets s hrunning hidle rfl hpackets hbroken
    | some other =>
      have hhandled : PacketEnabled s .handled := by simp [PacketEnabled, hidle]
      obtain ⟨l, hl, hbad⟩ := hqueued s.packets (nextBroadcast s .handled) hrunning rfl rfl hpackets
        hbroken
      exact ⟨.handled :: l, ⟨hhandled, hl⟩, hbad⟩

/-- A session ends while its last packet is in the queue, with another session to keep the thread alive: first the
encode session goes, then the session itself, and then the packet is handled. -/
def leftBehind : List PacketEvent :=
  [.start 0, .start 1, .makeEncoder 0 0 true, .encode 0, .leaveEncoder 0 false, .join 0, .release 0,
    .pop]

theorem handled_released : Runs PacketEnabled nextBroadcast {} leftBehind ∧
    (leftBehind.foldl nextBroadcast {}).handling = some ⟨0, some 0⟩ ∧
    (leftBehind.foldl nextBroadcast {}).sessions 0 = .released ∧
    (leftBehind.foldl nextBroadcast {}).encodeSessions 0 = .destroyed ∧
    ¬HandlesIntact (leftBehind.foldl nextBroadcast {}) := by
  have hhandling : (leftBehind.foldl nextBroadcast {}).handling = some ⟨0, some 0⟩ := by
    decide +kernel
  have hreleased : (leftBehind.foldl nextBroadcast {}).sessions 0 = .released := by decide +kernel
  exact ⟨by decide +kernel, hhandling, hreleased, by decide +kernel,
    fun hall => (hall _ hhandling).1 hreleased⟩

end Sunshine.PacketLifetime
