import Sunshine.Pairing.Requests

/-! A `getservercert` that is repeated, and the session that a PIN goes to.

`getservercert_repeats_iff` says for which requests it makes no difference that a session was there:
the reset leaves the certificate of the old one. `pin_touches_iff` says for which session a PIN
submission does what it should. -/
namespace Sunshine.Pairing
open Transitions
set_option autoImplicit false

section Retries

variable {Cert Key : Type} (crypto : Crypto Cert Key)

/-! ## The map -/

/-- Every session is under its own unique id. -/
def KeyedById (s : Server Key) : Prop := ∀ uid sess, s.mapIdSess uid = some sess → sess.uniqueID = uid

theorem KeyedById.put {s : Server Key} (h : KeyedById s) {uid : Bytes} {new : Option (PairSession Key)}
    (hnew : ∀ sess, new = some sess → sess.uniqueID = uid) : KeyedById (s.put uid new) := by
  intro uid' sess hsess
  rcases put_some hsess with ⟨rfl, hsome⟩ | ⟨-, hold⟩
  · exact hnew sess hsome
  · exact h uid' sess hold

theorem getservercert_uniqueID (sess : PairSession Key) (pin : Acceptance) :
    (getservercert crypto sess pin).sess.uniqueID = sess.uniqueID := by
  unfold getservercert
  by_cases hphase : sess.lastPhase ≠ .none
  · rw [if_pos hphase]
    rfl
  · rw [if_neg hphase]
    by_cases hshort : sess.salt.length < 32
    · simp only [if_pos hshort]
      rfl
    · simp only [if_neg hshort]
      cases decodeHex (sess.salt.take 32) with
      | none => rfl
      | some salt => rfl

theorem clientchallenge_uniqueID (sess : PairSession Key) (challenge serversecret serverchallenge : Bytes) :
    (clientchallenge crypto sess challenge serversecret serverchallenge).sess.uniqueID = sess.uniqueID := by
  unfold clientchallenge
  by_cases hphase : sess.lastPhase ≠ .getservercert
  · rw [if_pos hphase]
    rfl
  · rw [if_neg hphase]
    cases sess.cipherKey with
    | none => rfl
    | some key => rfl

theorem serverchallengeresp_uniqueID (sess : PairSession Key) (response : Bytes) :
    (serverchallengeresp crypto sess response).sess.uniqueID = sess.uniqueID := by
  unfold serverchallengeresp
  by_cases hphase : sess.lastPhase ≠ .clientchallenge
  · rw [if_pos hphase]
    rfl
  · rw [if_neg hphase]
    cases sess.cipherKey with
    | none => rfl
    | some key =>
      by_cases hempty : sess.serversecret = []
      · simp only [if_pos hempty]
        rfl
      · simp only [if_neg hempty]
        rfl

theorem clientpairingsecret_removed (sess : PairSession Key) (secret : Bytes) :
    (clientpairingsecret crypto sess secret).1.removed = true := by
  unfold clientpairingsecret
  by_cases hphase : sess.lastPhase ≠ .serverchallengeresp
  · rw [if_pos hphase]
    rfl
  · rw [if_neg hphase]
    by_cases hshort : secret.length ≤ 16
    · simp only [if_pos hshort]
      rfl
    · simp only [if_neg hshort]
      cases crypto.x509 sess.cert with
      | none => rfl
      | some x509 => simp only; split <;> rfl

/-! ## A request that starts or restarts a session -/

/-- A PIN is known right away, and the salt gives no key with it. -/
def dropsSession (r : PairRequest) : Bool :=
  match r.salt with
  | none => false
  | some salt => (r.trustedSubnet || r.stdinPin.isSome) &&
      (decide (salt.length < 32) || (decodeHex (salt.take 32)).isNone)

/-- What `startPairing` makes of the session it works on. -/
def started (pinsGiven : ℕ) (r : PairRequest) (sess : PairSession Key) : Option (PairSession Key) :=
  let kept := fun out : Outcome Key => if out.removed then none else some out.sess
  match r.salt with
  | none => some sess
  | some salt =>
    if r.trustedSubnet then
      kept (getservercert crypto
        { sess with salt, name := [97, 117, 116, 111, 45, 112, 97, 105, 114, 101, 100] }
        ⟨pinsGiven, .trustedSubnet, autoPin⟩)
    else
      match r.stdinPin with
      | some pin => kept (getservercert crypto { sess with salt } ⟨pinsGiven, .stdin, pin⟩)
      | none => some { sess with salt, responseHeld := true }

def pinsUsed (r : PairRequest) : ℕ := if r.salt.isSome && (r.trustedSubnet || r.stdinPin.isSome) then 1 else 0

theorem startPairing_eq (s : Server Key) (uid : Bytes) {r : PairRequest} {clientcert : Bytes}
    (hcert : r.clientcert = some clientcert) :
    (startPairing crypto s uid r).1 =
      { s.put uid (started crypto s.pinsGiven r (restart s uid (fromHexVec clientcert))) with
        pinsGiven := s.pinsGiven + pinsUsed r } := by
  unfold startPairing started pinsUsed
  rw [hcert]
  cases r.salt with
  | none => rfl
  | some salt =>
    cases r.trustedSubnet with
    | true => rfl
    | false =>
      cases r.stdinPin with
      | none => rfl
      | some pin => rfl

/-- `getservercert` fails and drops the session, or it gives it its key. -/
theorem getservercert_effect (sess : PairSession Key) (pin : Acceptance) :
    if sess.lastPhase ≠ .none ∨ sess.salt.length < 32 ∨ decodeHex (sess.salt.take 32) = none then
      (getservercert crypto sess pin).removed = true ∧ (getservercert crypto sess pin).reply.paired = some 0
    else (getservercert crypto sess pin).removed = false ∧
      (getservercert crypto sess pin).reply.paired = some 1 ∧
      (getservercert crypto sess pin).sess.cert = sess.cert ∧
      (getservercert crypto sess pin).sess.lastPhase = .getservercert := by
  unfold getservercert
  by_cases hphase : sess.lastPhase ≠ .none
  · rw [if_pos (.inl hphase), if_pos hphase]
    exact ⟨rfl, rfl⟩
  · rw [if_neg hphase]
    by_cases hshort : sess.salt.length < 32
    · rw [if_pos (.inr (.inl hshort))]
      simp only [if_pos hshort]
      exact ⟨rfl, rfl⟩
    · simp only [if_neg hshort]
      cases hsalt : decodeHex (sess.salt.take 32) with
      | none =>
        rw [if_pos (.inr (.inr rfl))]
        exact ⟨rfl, rfl⟩
      | some salt =>
        rw [if_neg (by simp [hphase, hshort])]
        exact ⟨rfl, rfl, rfl, rfl⟩

/-- A session that is restarted is dropped, or it keeps its certificate. -/
theorem started_spec (pinsGiven : ℕ) (r : PairRequest) {sess : PairSession Key}
    (hphase : sess.lastPhase = .none) :
    if dropsSession r = true then started crypto pinsGiven r sess = none
    else ∃ sess', started crypto pinsGiven r sess = some sess' ∧ sess'.cert = sess.cert := by
  have hgiven : ∀ (sess' : PairSession Key) (pin : Acceptance) (salt : Bytes), sess'.lastPhase = .none →
      sess'.cert = sess.cert → sess'.salt = salt →
      if (decide (salt.length < 32) || (decodeHex (salt.take 32)).isNone) = true then
        (if (getservercert crypto sess' pin).removed then none
          else some (getservercert crypto sess' pin).sess) = none
      else ∃ sess'', (if (getservercert crypto sess' pin).removed then none
          else some (getservercert crypto sess' pin).sess) = some sess'' ∧ sess''.cert = sess.cert := by
    rintro sess' pin salt hphase' hcert rfl
    have heffect := getservercert_effect crypto sess' pin
    by_cases hbad : sess'.salt.length < 32 ∨ decodeHex (sess'.salt.take 32) = none
    · rw [if_pos (.inr hbad)] at heffect
      rw [if_pos (by simpa using hbad), if_pos heffect.1]
    · rw [if_neg (by simpa [hphase'] using hbad)] at heffect
      rw [if_neg (by simpa using hbad), heffect.1]
      exact ⟨_, rfl, heffect.2.2.1.trans hcert⟩
  unfold dropsSession started
  cases r.salt with
  | none => exact ⟨sess, rfl, rfl⟩
  | some salt =>
    cases r.trustedSubnet with
    | true => exact hgiven _ _ salt hphase rfl rfl
    | false =>
      cases r.stdinPin with
      | none => exact ⟨_, rfl, rfl⟩
      | some pin => exact hgiven _ _ salt hphase rfl rfl

/-! ## Repeating it -/

/-- What shows of a session. -/
structure SessionState (Key : Type) where
  lastPhase : PairPhase
  cipherKey : Option Key
  cert : Bytes
  uniqueID : Bytes
  name : Bytes

def PairSession.state (sess : PairSession Key) : SessionState Key :=
  ⟨sess.lastPhase, sess.cipherKey, sess.cert, sess.uniqueID, sess.name⟩

def Server.stateOf (s : Server Key) (uid : Bytes) : Option (SessionState Key) :=
  (s.mapIdSess uid).map PairSession.state

/-- Whatever is requested and submitted after it, the request leaves the session as if none had been there. -/
def RepeatsAsFresh (s : Server Key) (uid : Bytes) (r : PairRequest) : Prop :=
  ∀ later : List Event,
    (later.foldl (next crypto) (pair crypto s r).1).stateOf uid =
      (later.foldl (next crypto) (pair crypto (s.put uid none) r).1).stateOf uid

theorem put_mapIdSess (s : Server Key) (uid : Bytes) (a : Option (PairSession Key)) :
    (s.put uid a).mapIdSess uid = a := Function.update_self _ _ _

theorem restart_fresh (s : Server Key) (uid cert : Bytes) :
    restart (s.put uid none) uid cert = { uniqueID := uid, cert } := by
  unfold restart
  rw [put_mapIdSess]

theorem put_put (s : Server Key) (uid : Bytes) (a b : Option (PairSession Key)) :
    (s.put uid a).put uid b = s.put uid b := by
  unfold Server.put
  rw [Function.update_idem]

/-- A repeated request equals a fresh one exactly if it comes with the certificate of the old session, or if it
leaves no session. -/
theorem getservercert_repeats_iff {s : Server Key} (hkeyed : KeyedById s) {uid : Bytes} {old : PairSession Key}
    (hold : s.mapIdSess uid = some old) {r : PairRequest} (huid : r.uniqueid = some uid)
    (hphrase : r.phrase = some .getservercert) :
    RepeatsAsFresh crypto s uid r ↔
      ∃ clientcert, r.clientcert = some clientcert ∧
        (fromHexVec clientcert = old.cert ∨ dropsSession r = true) := by
  have hpair : ∀ s : Server Key, (pair crypto s r).1 = (startPairing crypto s uid r).1 := by
    intro s
    unfold pair
    rw [huid, hphrase]
  unfold RepeatsAsFresh
  simp only [hpair]
  cases hcert : r.clientcert with
  | none =>
    have hmissing : ∀ s : Server Key, (startPairing crypto s uid r).1 = s := by
      intro s
      unfold startPairing
      rw [hcert]
    simp only [hmissing, false_and, exists_false, iff_false, reduceCtorEq]
    intro h
    have hstate := h []
    simp only [List.foldl_nil, Server.stateOf, hold, put_mapIdSess] at hstate
    cases hstate
  | some clientcert =>
    have hrestart : restart s uid (fromHexVec clientcert) = { uniqueID := uid, cert := old.cert } := by
      unfold restart
      rw [hold, ← hkeyed uid old hold]
    simp only [startPairing_eq crypto _ uid hcert, restart_fresh, put_put, hrestart, Option.some.injEq,
      exists_eq_left']
    have hfresh := fun cert => @started_spec _ _ crypto s.pinsGiven r { uniqueID := uid, cert } rfl
    have hgiven : (s.put uid none).pinsGiven = s.pinsGiven := rfl
    rw [hgiven]
    constructor
    · intro h
      by_contra hneither
      obtain ⟨hne, hkept⟩ := not_or.mp hneither
      simp only [if_neg hkept] at hfresh
      obtain ⟨sess₁, hstarted₁, hcert₁⟩ := hfresh old.cert
      obtain ⟨sess₂, hstarted₂, hcert₂⟩ := hfresh (fromHexVec clientcert)
      have hstate := h []
      simp only [List.foldl_nil, Server.stateOf, put_mapIdSess, hstarted₁, hstarted₂, Option.map_some,
        Option.some.injEq] at hstate
      exact hne (hcert₂.symm.trans ((congrArg SessionState.cert hstate).symm.trans hcert₁))
    · rintro (hsame | hdrops)
      · intro later
        rw [hsame]
      · simp only [if_pos hdrops] at hfresh
        intro later
        rw [hfresh, hfresh]

/-! ## Runs keep the map keyed -/

theorem keep_keyed {s : Server Key} (h : KeyedById s) {uid : Bytes} {out : Outcome Key}
    (hout : out.sess.uniqueID = uid) : KeyedById (s.keep uid out) := by
  refine h.put fun sess hsess => ?_
  cases hremoved : out.removed with
  | true =>
    rw [hremoved] at hsess
    cases hsess
  | false =>
    rw [hremoved] at hsess
    cases hsess
    exact hout

theorem restart_uniqueID {s : Server Key} (h : KeyedById s) (uid cert : Bytes) :
    (restart s uid cert).uniqueID = uid := by
  unfold restart
  cases hold : s.mapIdSess uid with
  | none => rfl
  | some old => exact h uid old hold

theorem started_uniqueID (pinsGiven : ℕ) (r : PairRequest) {sess sess' : PairSession Key}
    (hstarted : started crypto pinsGiven r sess = some sess') : sess'.uniqueID = sess.uniqueID := by
  have hkept : ∀ (given : PairSession Key) (pin : Acceptance),
      (if (getservercert crypto given pin).removed then none
        else some (getservercert crypto given pin).sess) = some sess' →
      given.uniqueID = sess.uniqueID → sess'.uniqueID = sess.uniqueID := by
    intro given pin hsome hgiven
    cases hremoved : (getservercert crypto given pin).removed with
    | true =>
      rw [hremoved] at hsome
      cases hsome
    | false =>
      rw [hremoved] at hsome
      cases hsome
      exact (getservercert_uniqueID crypto given pin).trans hgiven
  unfold started at hstarted
  cases hsalt : r.salt with
  | none =>
    rw [hsalt] at hstarted
    cases hstarted
    rfl
  | some salt =>
    rw [hsalt] at hstarted
    cases htrusted : r.trustedSubnet with
    | true =>
      simp only [htrusted, if_true] at hstarted
      exact hkept _ _ hstarted rfl
    | false =>
      simp only [htrusted, Bool.false_eq_true, if_false] at hstarted
      cases hpin : r.stdinPin with
      | none =>
        rw [hpin] at hstarted
        cases hstarted
        rfl
      | some pin =>
        simp only [hpin] at hstarted
        exact hkept _ _ hstarted rfl

theorem continuePairing_keyed {s : Server Key} (h : KeyedById s) {uid : Bytes} {sess : PairSession Key}
    (hsess : s.mapIdSess uid = some sess) (r : PairRequest) : KeyedById (continuePairing crypto s uid sess r).1 := by
  have huid := h uid sess hsess
  unfold continuePairing
  cases r.clientchallenge with
  | some challenge => exact keep_keyed h ((clientchallenge_uniqueID crypto sess _ _ _).trans huid)
  | none =>
    cases r.serverchallengeresp with
    | some response => exact keep_keyed h ((serverchallengeresp_uniqueID crypto sess _).trans huid)
    | none =>
      cases r.clientpairingsecret with
      | some secret =>
        show KeyedById (s.keep uid (clientpairingsecret crypto sess (fromHexVec secret)).1)
        unfold Server.keep
        rw [if_pos (clientpairingsecret_removed crypto sess _)]
        exact h.put nofun
      | none => exact h

theorem startPairing_keyed {s : Server Key} (h : KeyedById s) (uid : Bytes) (r : PairRequest) :
    KeyedById (startPairing crypto s uid r).1 := by
  cases hcert : r.clientcert with
  | none =>
    unfold startPairing
    rw [hcert]
    exact h
  | some clientcert =>
    rw [startPairing_eq crypto s uid hcert]
    exact h.put fun sess hsess => (started_uniqueID crypto _ r hsess).trans (restart_uniqueID h uid _)

theorem pin_keyed {s : Server Key} (h : KeyedById s) (p name picked : Bytes) :
    KeyedById (pin crypto s p name picked).1 := by
  unfold pin
  cases hsess : s.mapIdSess picked with
  | none => exact h
  | some sess =>
    by_cases hlength : p.length ≠ 4
    · simp only [if_pos hlength]
      exact h
    · simp only [if_neg hlength]
      by_cases hdigits : p.all isDigit = false
      · simp only [if_pos hdigits]
        exact h
      · simp only [if_neg hdigits]
        by_cases hpaired :
            (getservercert crypto sess ⟨s.pinsGiven, .entered, p⟩).reply.paired.getD 1 = 0
        · simp only [if_pos hpaired]
          exact h.put nofun
        · simp only [if_neg hpaired]
          refine h.put fun sess' hsess' => ?_
          cases hsess'
          exact (getservercert_uniqueID crypto sess _).trans (h picked sess hsess)

theorem next_keyed (s : Server Key) (e : Event) (h : KeyedById s) : KeyedById (next crypto s e) := by
  cases e with
  | pair r =>
    show KeyedById (pair crypto s r).1
    obtain hsame | ⟨uid, hstarts⟩ | ⟨uid, sess, hsess, hcontinues⟩ := pair_cases crypto s r
    · rw [hsame]
      exact h
    · rw [hstarts]
      exact startPairing_keyed crypto h uid r
    · rw [hcontinues]
      exact continuePairing_keyed crypto h hsess r
  | pin p name picked => exact pin_keyed crypto h p name picked

theorem keyed_runs (l : List Event) : KeyedById (l.foldl (next crypto) {}) :=
  (runs_true l).invariant KeyedById (fun _ _ h => by cases h) fun s e hs _ => next_keyed crypto s e hs

/-! ## The session that a PIN goes to -/

/-- A parked response to `getservercert`. -/
def PairSession.Waiting (sess : PairSession Key) : Prop := sess.responseHeld = true ∧ sess.lastPhase = .none

instance (sess : PairSession Key) : Decidable sess.Waiting := inferInstanceAs (Decidable (_ ∧ _))

def Touched (before after : Server Key) (uid : Bytes) : Prop := before.mapIdSess uid ≠ after.mapIdSess uid

/-- `pin` on the session `picked`, the one that the map begins with. -/
structure TouchesWaiting (s : Server Key) (p name picked : Bytes) : Prop where
  one : ∀ uid uid', Touched s (pin crypto s p name picked).1 uid →
    Touched s (pin crypto s p name picked).1 uid' → uid = uid'
  waiting : ∀ uid, Touched s (pin crypto s p name picked).1 uid →
    ∃ sess, s.mapIdSess uid = some sess ∧ sess.responseHeld = true
  unchanged : (∀ uid sess, s.mapIdSess uid = some sess → ¬sess.Waiting) →
    (∀ uid, ¬Touched s (pin crypto s p name picked).1 uid) ∧ (pin crypto s p name picked).2 = false
  later : ∀ uid sess, s.mapIdSess uid = some sess → sess.lastPhase ≠ .none →
    ¬Touched s (pin crypto s p name picked).1 uid

/-- Four digits. -/
def ValidPin (p : Bytes) : Prop := p.length = 4 ∧ p.all isDigit = true

instance (p : Bytes) : Decidable (ValidPin p) := inferInstanceAs (Decidable (_ ∧ _))

theorem pin_other (s : Server Key) (p name picked : Bytes) {uid : Bytes} (hne : uid ≠ picked) :
    (pin crypto s p name picked).1.mapIdSess uid = s.mapIdSess uid := by
  unfold pin
  cases s.mapIdSess picked with
  | none => rfl
  | some sess =>
    simp only
    split
    · rfl
    · split
      · rfl
      · split
        · exact Function.update_of_ne hne _ _
        · exact Function.update_of_ne hne _ _

theorem pin_idle (s : Server Key) {p name picked : Bytes}
    (h : s.mapIdSess picked = none ∨ ¬ValidPin p) : pin crypto s p name picked = (s, false) := by
  unfold pin
  cases hsess : s.mapIdSess picked with
  | none => rfl
  | some sess =>
    have hinvalid : ¬ValidPin p := h.resolve_left (by simp [hsess])
    by_cases hlength : p.length ≠ 4
    · simp only [if_pos hlength]
    · have hdigits : p.all isDigit = false := by
        rw [← Bool.not_eq_true]
        exact fun hall => hinvalid ⟨not_not.mp hlength, hall⟩
      simp only [if_neg hlength, if_pos hdigits]

/-- A valid PIN changes the session it goes to in any phase. -/
theorem pin_touches {s : Server Key} {p name picked : Bytes} {sess : PairSession Key}
    (hsess : s.mapIdSess picked = some sess) (hvalid : ValidPin p) :
    Touched s (pin crypto s p name picked).1 picked := by
  have hlength : ¬p.length ≠ 4 := not_not.mpr hvalid.1
  have hdigits : ¬p.all isDigit = false := by simp [hvalid.2]
  have hpin : (pin crypto s p name picked).1.mapIdSess picked =
      if (getservercert crypto sess ⟨s.pinsGiven, .entered, p⟩).reply.paired.getD 1 = 0 then none
      else some { (getservercert crypto sess ⟨s.pinsGiven, .entered, p⟩).sess with name, responseHeld := false } := by
    unfold pin
    rw [hsess]
    simp only [if_neg hlength, if_neg hdigits]
    split
    · exact put_mapIdSess _ picked none
    · exact put_mapIdSess _ picked (some _)
  unfold Touched
  rw [hpin, hsess]
  have heffect := getservercert_effect crypto sess ⟨s.pinsGiven, .entered, p⟩
  split at heffect
  · rw [heffect.2]
    exact Option.some_ne_none _
  · rename_i hgood
    rw [heffect.2.1]
    intro heq
    have hphase := congrArg PairSession.lastPhase (Option.some.inj heq)
    rw [heffect.2.2.2] at hphase
    exact hgood (.inl (by rw [hphase]; decide))

/-- A valid PIN must go to a session that waits. -/
theorem pin_touches_iff (s : Server Key) (p name picked : Bytes) :
    TouchesWaiting crypto s p name picked ↔
      (ValidPin p → ∀ sess, s.mapIdSess picked = some sess → sess.Waiting) := by
  constructor
  · intro h hvalid sess hsess
    have htouched := @pin_touches _ _ crypto s p name picked sess hsess hvalid
    obtain ⟨sess', hsess', hheld⟩ := h.waiting picked htouched
    cases hsess.symm.trans hsess'
    refine ⟨hheld, ?_⟩
    by_contra hphase
    exact h.later picked sess hsess hphase htouched
  · intro h
    have hpicked : ∀ uid, Touched s (pin crypto s p name picked).1 uid →
        uid = picked ∧ ∃ sess, s.mapIdSess uid = some sess ∧ sess.Waiting := by
      intro uid htouched
      have huid : uid = picked := by
        by_contra hne
        exact htouched (pin_other crypto s p name picked hne).symm
      refine ⟨huid, ?_⟩
      subst huid
      by_cases hvalid : ValidPin p
      · cases hsess : s.mapIdSess uid with
        | none =>
          rw [Touched, pin_idle crypto s (.inl hsess)] at htouched
          exact absurd rfl htouched
        | some sess => exact ⟨sess, rfl, h hvalid sess hsess⟩
      · rw [Touched, pin_idle crypto s (.inr hvalid)] at htouched
        exact absurd rfl htouched
    refine ⟨fun uid uid' huid huid' => (hpicked uid huid).1.trans (hpicked uid' huid').1.symm,
      fun uid huid => ?_, fun hnone => ⟨fun uid huid => ?_, ?_⟩, fun uid sess hsess hphase huid => ?_⟩
    · obtain ⟨-, sess, hsess, hwaiting⟩ := hpicked uid huid
      exact ⟨sess, hsess, hwaiting.1⟩
    · obtain ⟨-, sess, hsess, hwaiting⟩ := hpicked uid huid
      exact hnone uid sess hsess hwaiting
    · have hidle : s.mapIdSess picked = none ∨ ¬ValidPin p := by
        cases hsess : s.mapIdSess picked with
        | none => exact .inl rfl
        | some sess => exact .inr fun hvalid => hnone picked sess hsess (h hvalid sess hsess)
      rw [pin_idle crypto s hidle]
    · obtain ⟨-, sess', hsess', hwaiting⟩ := hpicked uid huid
      cases hsess.symm.trans hsess'
      exact hphase hwaiting.2

end Retries

/-! ## One client comes again, and a second one waits -/

def plainCrypto : Crypto Unit Bytes where
  x509 _ := some ()
  signature _ := [7]
  hash := id
  genAesKey salt pin := salt ++ pin
  ecbDecrypt _ ciphertext := ciphertext
  ecbEncrypt _ plaintext := plaintext
  sign256 := id
  verify256 _ _ _ := true
  servercert := []
  serverSignature := []

/-- A `getservercert` of a client with its certificate. -/
def startRequest (uid clientcert : Bytes) : PairRequest :=
  { uniqueid := some uid, phrase := some .getservercert, clientcert := some clientcert
    salt := some (List.replicate 32 48) }

/-- Client 1 has got its PIN; client 2 waits for its own. -/
def pairingTwo : List Event :=
  [.pair (startRequest [1] [48, 49]), .pin [49, 50, 51, 52] [] [1], .pair (startRequest [2] [48, 49])]

def twoPairing : Server Bytes := pairingTwo.foldl (next plainCrypto) {}

theorem repeats_same_cert : RepeatsAsFresh plainCrypto twoPairing [1] (startRequest [1] [48, 49]) :=
  (getservercert_repeats_iff plainCrypto (keyed_runs plainCrypto pairingTwo) rfl rfl rfl).mpr
    ⟨[48, 49], rfl, .inl rfl⟩

/-- The new certificate of client 1 is not taken over. -/
theorem cert_not_replaced : ¬RepeatsAsFresh plainCrypto twoPairing [1] (startRequest [1] [48, 50]) := by
  intro h
  have hcert := congrArg (Option.map SessionState.cert) (h [])
  exact absurd hcert (by decide)

/-- The PIN for client 2 goes to the session of client 1, which is dropped. -/
theorem pin_drops_other : ¬TouchesWaiting plainCrypto twoPairing [49, 50, 51, 52] [] [1] := by
  intro h
  have htouched : Touched twoPairing (pin plainCrypto twoPairing [49, 50, 51, 52] [] [1]).1 [1] :=
    fun heq => absurd (congrArg Option.isSome heq) (by decide)
  obtain ⟨sess, hsess, hheld⟩ := h.waiting [1] htouched
  have hheld' := congrArg (Option.map PairSession.responseHeld) hsess
  rw [Option.map_some, hheld] at hheld'
  exact absurd hheld' (by decide)

end Sunshine.Pairing
