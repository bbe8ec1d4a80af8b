import Mathlib.Logic.Function.Basic
import Sunshine.Lib.Transitions
import Sunshine.Pairing.Phases

/-! Pairing requests and PIN submissions (`pair` and `pin` of `nvhttp.cpp`).

The sessions live in a map by unique id; `pair` starts or restarts one and dispatches to the phases,
`pin` takes an arbitrary session and gives it its PIN. Every PIN given to a session is numbered, and
the numbers of the hash comparisons are recorded. `pairing_safe` is about any sequence of requests
and submissions. -/
namespace Sunshine.Pairing
open Transitions
set_option autoImplicit false

/-! ## Requests -/

inductive Phrase where
  | getservercert
  | pairchallenge
  | other
  deriving DecidableEq, Repr

/-- The arguments of a `/pair` request as they arrive, the configuration it meets, and the secrets
drawn for it. -/
structure PairRequest where
  uniqueid : Option Bytes := none
  phrase : Option Phrase := none
  clientcert : Option Bytes := none
  salt : Option Bytes := none
  clientchallenge : Option Bytes := none
  serverchallengeresp : Option Bytes := none
  clientpairingsecret : Option Bytes := none
  trustedSubnet : Bool := false
  stdinPin : Option Bytes := none
  serversecret : Bytes := []
  serverchallenge : Bytes := []
  deriving DecidableEq, Repr

inductive Answer where
  | reply (r : Reply)
  /-- The response is kept for `pin`. -/
  | held
  /-- `get_arg` threw for a missing argument. -/
  | missing (arg : String)
  deriving DecidableEq, Repr

structure Server (Key : Type) where
  mapIdSess : Bytes → Option (PairSession Key) := fun _ => none
  authorized : List (Authorization Key) := []
  pinsGiven : ℕ := 0
  hashChecks : List ℕ := []

section Requests

variable {Cert Key : Type} (crypto : Crypto Cert Key)

def Server.put (s : Server Key) (uid : Bytes) (sess : Option (PairSession Key)) : Server Key :=
  { s with mapIdSess := Function.update s.mapIdSess uid sess }

def Server.keep (s : Server Key) (uid : Bytes) (out : Outcome Key) : Server Key :=
  s.put uid (if out.removed then none else some out.sess)

/-- The session a `getservercert` request works on: a new one, or the old one reset. Its certificate
is not replaced. -/
def restart (s : Server Key) (uid cert : Bytes) : PairSession Key :=
  match s.mapIdSess uid with
  | none => { uniqueID := uid, cert }
  | some old => { uniqueID := old.uniqueID, cert := old.cert }

/-- `getservercert` with a PIN that is known right away. -/
def startWithPin (s : Server Key) (uid : Bytes) (sess : PairSession Key) (source : PinSource)
    (pin : Bytes) : Server Key × Answer :=
  let out := getservercert crypto sess ⟨s.pinsGiven, source, pin⟩
  ({ s.keep uid out with pinsGiven := s.pinsGiven + 1 }, .reply out.reply)

def startPairing (s : Server Key) (uid : Bytes) (r : PairRequest) : Server Key × Answer :=
  match r.clientcert with
  | none => (s, .missing "clientcert")
  | some clientcert =>
    let sess := restart s uid (fromHexVec clientcert)
    match r.salt with
    | none => (s.put uid (some sess), .missing "salt")
    | some salt =>
      let sess := { sess with salt }
      if r.trustedSubnet then
        -- `"auto-paired"`
        startWithPin crypto s uid
          { sess with name := [97, 117, 116, 111, 45, 112, 97, 105, 114, 101, 100] }
          .trustedSubnet autoPin
      else
        match r.stdinPin with
        | some pin => startWithPin crypto s uid sess .stdin pin
        | none => (s.put uid (some { sess with responseHeld := true }), .held)

def continuePairing (s : Server Key) (uid : Bytes) (sess : PairSession Key) (r : PairRequest) :
    Server Key × Answer :=
  match r.clientchallenge with
  | some challenge =>
    let out := clientchallenge crypto sess (fromHexVec challenge) r.serversecret r.serverchallenge
    (s.keep uid out, .reply out.reply)
  | none =>
    match r.serverchallengeresp with
    | some response =>
      let out := serverchallengeresp crypto sess (fromHexVec response)
      (s.keep uid out, .reply out.reply)
    | none =>
      match r.clientpairingsecret with
      | some secret =>
        let result := clientpairingsecret crypto sess (fromHexVec secret)
        let checks := if result.2.1 then (sess.acceptance.map Acceptance.id).toList else []
        ({ s.keep uid result.1 with
            authorized := s.authorized ++ result.2.2.toList
            hashChecks := s.hashChecks ++ checks }, .reply result.1.reply)
      | none =>
        (s, .reply { statusCode := some 404, statusMessage := "Invalid pairing request" })

def pair (s : Server Key) (r : PairRequest) : Server Key × Answer :=
  match r.uniqueid with
  | none => (s, .reply { statusCode := some 400, statusMessage := "Missing uniqueid parameter" })
  | some uid =>
    match r.phrase with
    | some .getservercert => startPairing crypto s uid r
    | some .pairchallenge => (s, .reply { paired := some 1, statusCode := some 200 })
    | _ =>
      match s.mapIdSess uid with
      | none => (s, .reply { statusCode := some 400, statusMessage := "Invalid uniqueid" })
      | some sess => continuePairing crypto s uid sess r

/-- `pin`, on whichever session `map_id_sess.begin()` picks. The node is taken out of the map and put
back only when `getservercert` accepted the PIN. -/
def pin (s : Server Key) (pin name picked : Bytes) : Server Key × Bool :=
  match s.mapIdSess picked with
  | none => (s, false)
  | some sess =>
    if pin.length ≠ 4 then (s, false)
    else if pin.all isDigit = false then (s, false)
    else
      let out := getservercert crypto sess ⟨s.pinsGiven, .entered, pin⟩
      let s := { s with pinsGiven := s.pinsGiven + 1 }
      if out.reply.paired.getD 1 = 0 then (s.put picked none, false)
      else
        (s.put picked (some { out.sess with name, responseHeld := false }), out.sess.responseHeld)

inductive Event where
  | pair (r : PairRequest)
  | pin (pin name picked : Bytes)
  deriving DecidableEq, Repr

def next (s : Server Key) : Event → Server Key
  | .pair r => (pair crypto s r).1
  | .pin p name picked => (pin crypto s p name picked).1

/-! ## The invariant -/

/-- Every live session made the progress of its phase; the PINs of live sessions are numbered apart
and not yet used for a comparison, and each comparison used another one. -/
structure Inv (s : Server Key) : Prop where
  progress : ∀ uid sess, s.mapIdSess uid = some sess → Progress crypto sess
  fresh : ∀ uid sess p, s.mapIdSess uid = some sess → sess.acceptance = some p →
    p.id < s.pinsGiven ∧ p.id ∉ s.hashChecks
  distinct : ∀ uid uid' sess sess' p p', s.mapIdSess uid = some sess →
    s.mapIdSess uid' = some sess' → sess.acceptance = some p → sess'.acceptance = some p' →
    p.id = p'.id → uid = uid'
  checks : s.hashChecks.Nodup
  given : ∀ i ∈ s.hashChecks, i < s.pinsGiven
  earned : ∀ a ∈ s.authorized,
    Earned crypto a ∧ ∃ p, a.sess.acceptance = some p ∧ p.id ∈ s.hashChecks

theorem put_some {s : Server Key} {uid uid' : Bytes} {new : Option (PairSession Key)}
    {sess : PairSession Key} (h : (s.put uid new).mapIdSess uid' = some sess) :
    (uid' = uid ∧ new = some sess) ∨ (uid' ≠ uid ∧ s.mapIdSess uid' = some sess) := by
  unfold Server.put at h
  by_cases hu : uid' = uid
  · subst hu
    exact Or.inl ⟨rfl, by simpa using h⟩
  · exact Or.inr ⟨hu, by simpa [Function.update_of_ne hu] using h⟩

/-- A session may be replaced by one of its own phases, or dropped. -/
theorem Inv.put {s : Server Key} (h : Inv crypto s) (uid : Bytes)
    (new : Option (PairSession Key)) (hprogress : ∀ sess, new = some sess → Progress crypto sess)
    (hpin : ∀ sess p, new = some sess → sess.acceptance = some p →
      ∃ old, s.mapIdSess uid = some old ∧ old.acceptance = some p) :
    Inv crypto (s.put uid new) := by
  refine ⟨?_, ?_, ?_, h.checks, h.given, h.earned⟩
  · intro uid' sess hs
    rcases put_some hs with ⟨-, hn⟩ | ⟨-, ho⟩
    · exact hprogress sess hn
    · exact h.progress uid' sess ho
  · intro uid' sess p hs hp
    rcases put_some hs with ⟨-, hn⟩ | ⟨-, ho⟩
    · obtain ⟨old, hold, holdp⟩ := hpin sess p hn hp
      exact h.fresh uid old p hold holdp
    · exact h.fresh uid' sess p ho hp
  · -- a replaced session keeps its number, so two entries with one number were one before
    have hold : ∀ uid' sess p, (s.put uid new).mapIdSess uid' = some sess →
        sess.acceptance = some p → ∃ old, s.mapIdSess uid' = some old ∧ old.acceptance = some p := by
      intro uid' sess p hs hp
      rcases put_some hs with ⟨rfl, hn⟩ | ⟨-, ho⟩
      · exact hpin sess p hn hp
      · exact ⟨sess, ho, hp⟩
    intro u u' sess sess' p p' hs hs' hp hp' hid
    obtain ⟨old, ho, hop⟩ := hold u sess p hs hp
    obtain ⟨old', ho', hop'⟩ := hold u' sess' p' hs' hp'
    exact h.distinct u u' old old' p p' ho ho' hop hop' hid

/-- A session may be given the next PIN, or dropped with it. -/
theorem Inv.give {s : Server Key} (h : Inv crypto s) (uid : Bytes)
    (new : Option (PairSession Key)) (hprogress : ∀ sess, new = some sess → Progress crypto sess)
    (hpin : ∀ sess p, new = some sess → sess.acceptance = some p → p.id = s.pinsGiven) :
    Inv crypto { s.put uid new with pinsGiven := s.pinsGiven + 1 } := by
  refine ⟨?_, ?_, ?_, h.checks, fun i hi => Nat.lt_succ_of_lt (h.given i hi), h.earned⟩
  · intro uid' sess hs
    rcases put_some hs with ⟨-, hn⟩ | ⟨-, ho⟩
    · exact hprogress sess hn
    · exact h.progress uid' sess ho
  · intro uid' sess p hs hp
    rcases put_some hs with ⟨-, hn⟩ | ⟨-, ho⟩
    · have hid := hpin sess p hn hp
      refine ⟨by simp only; omega, fun hmem => ?_⟩
      have hlt := h.given p.id hmem
      omega
    · obtain ⟨hlt, hnot⟩ := h.fresh uid' sess p ho hp
      exact ⟨Nat.lt_succ_of_lt hlt, hnot⟩
  · intro u u' sess sess' p p' hs hs' hp hp' hid
    rcases put_some hs with ⟨hu, hn⟩ | ⟨-, ho⟩ <;> rcases put_some hs' with ⟨hu', hn'⟩ | ⟨-, ho'⟩
    · rw [hu, hu']
    · have := hpin sess p hn hp
      have := (h.fresh u' sess' p' ho' hp').1
      omega
    · have := hpin sess' p' hn' hp'
      have := (h.fresh u sess p ho hp).1
      omega
    · exact h.distinct u u' sess sess' p p' ho ho' hp hp' hid

theorem restart_progress (s : Server Key) (uid cert : Bytes) :
    (restart s uid cert).lastPhase = .none ∧ (restart s uid cert).history = [] ∧
      (restart s uid cert).acceptance = none := by
  unfold restart
  cases s.mapIdSess uid <;> exact ⟨rfl, rfl, rfl⟩

theorem progress_of_fresh (sess : PairSession Key) (h1 : sess.lastPhase = .none)
    (h2 : sess.history = []) (h3 : sess.acceptance = none) : Progress crypto sess := by
  unfold Progress
  rw [h1]
  exact ⟨h2, h3⟩

theorem startWithPin_inv {s : Server Key} (h : Inv crypto s) (uid : Bytes)
    (sess : PairSession Key) (source : PinSource) (p : Bytes)
    (hvalid : Acceptance.Valid ⟨s.pinsGiven, source, p⟩) (hsess : Progress crypto sess) :
    Inv crypto (startWithPin crypto s uid sess source p).1 := by
  unfold startWithPin Server.keep
  rcases getservercert_spec crypto sess ⟨s.pinsGiven, source, p⟩ hvalid hsess with
    ⟨hrem, -⟩ | ⟨hrem, -, hacc, hprog⟩
  · simp only [hrem, if_true]
    exact h.give crypto uid none (fun _ hs => (Option.some_ne_none _ hs.symm).elim)
      (fun _ _ hs => (Option.some_ne_none _ hs.symm).elim)
  · simp only [hrem, Bool.false_eq_true, if_false]
    refine h.give crypto uid (some _) (fun sess' hs => Option.some.inj hs ▸ hprog)
      (fun sess' p' hs hp => ?_)
    rw [← Option.some.inj hs, hacc] at hp
    rw [← Option.some.inj hp]

theorem startPairing_inv {s : Server Key} (h : Inv crypto s) (uid : Bytes) (r : PairRequest) :
    Inv crypto (startPairing crypto s uid r).1 := by
  unfold startPairing
  cases r.clientcert with
  | none => exact h
  | some clientcert =>
    obtain ⟨h1, h2, h3⟩ := restart_progress s uid (fromHexVec clientcert)
    have hput : ∀ sess : PairSession Key, sess.lastPhase = .none → sess.history = [] →
        sess.acceptance = none → Inv crypto (s.put uid (some sess)) := by
      intro sess g1 g2 g3
      refine h.put crypto uid (some sess)
        (fun sess' hs => Option.some.inj hs ▸ progress_of_fresh crypto sess g1 g2 g3)
        (fun sess' p hs hp => ?_)
      rw [← Option.some.inj hs, g3] at hp
      cases hp
    cases r.salt with
    | none => exact hput _ h1 h2 h3
    | some salt =>
      simp only
      split_ifs
      · exact startWithPin_inv crypto h uid _ .trustedSubnet autoPin rfl
          (progress_of_fresh crypto _ h1 h2 h3)
      · cases r.stdinPin with
        | none => exact hput _ h1 h2 h3
        | some p =>
          exact startWithPin_inv crypto h uid _ .stdin p trivial
            (progress_of_fresh crypto _ h1 h2 h3)

theorem keep_inv {s : Server Key} (h : Inv crypto s) (uid : Bytes) (sess : PairSession Key)
    (hs : s.mapIdSess uid = some sess) (out : Outcome Key)
    (hout : out.removed = true ∨
      (out.sess.acceptance = sess.acceptance ∧ Progress crypto out.sess)) :
    Inv crypto (s.keep uid out) := by
  unfold Server.keep
  rcases hout with hrem | ⟨hacc, hprog⟩
  · rw [if_pos hrem]
    exact h.put crypto uid none (fun _ hs => (Option.some_ne_none _ hs.symm).elim)
      (fun _ _ hs => (Option.some_ne_none _ hs.symm).elim)
  · by_cases hrem : out.removed = true
    · rw [if_pos hrem]
      exact h.put crypto uid none (fun _ hs => (Option.some_ne_none _ hs.symm).elim)
        (fun _ _ hs => (Option.some_ne_none _ hs.symm).elim)
    · rw [if_neg hrem]
      refine h.put crypto uid (some out.sess) (fun sess' hs' => Option.some.inj hs' ▸ hprog)
        (fun sess' p hs' hp => ⟨sess, hs, ?_⟩)
      rw [← hacc, Option.some.inj hs']
      exact hp

theorem secret_inv {s : Server Key} (h : Inv crypto s) (uid : Bytes) (sess : PairSession Key)
    (hs : s.mapIdSess uid = some sess) (r : Outcome Key × Bool × Option (Authorization Key))
    (hr : SecretSpec crypto sess r) :
    Inv crypto { s.keep uid r.1 with
      authorized := s.authorized ++ r.2.2.toList
      hashChecks := s.hashChecks ++
        if r.2.1 then (sess.acceptance.map Acceptance.id).toList else [] } := by
  obtain ⟨hp, hf, hd, hn, hg, he⟩ := keep_inv crypto h uid sess hs r.1 (Or.inl hr.removed)
  have hmap : (s.keep uid r.1).mapIdSess = Function.update s.mapIdSess uid none := by
    unfold Server.keep Server.put
    rw [if_pos hr.removed]
  by_cases hcheck : r.2.1 = true
  · obtain ⟨p, hacc⟩ := hr.checked hcheck
    obtain ⟨hlt, hnot⟩ := h.fresh uid sess p hs hacc
    rw [if_pos hcheck, hacc]
    simp only [Option.map_some, Option.toList_some]
    refine ⟨hp, ?_, hd, ?_, ?_, ?_⟩
    · -- the other live sessions carry other numbers
      intro uid' sess' p' hs' hp'
      have hs'' := hs'
      rw [hmap] at hs''
      by_cases hu : uid' = uid
      · rw [hu, Function.update_self] at hs''
        cases hs''
      · rw [Function.update_of_ne hu] at hs''
        obtain ⟨hlt', hnot'⟩ := h.fresh uid' sess' p' hs'' hp'
        refine ⟨hlt', fun hmem => ?_⟩
        rcases List.mem_append.mp hmem with hmem | hmem
        · exact hnot' hmem
        · exact hu (h.distinct uid' uid sess' sess p' p hs'' hs hp' hacc (List.mem_singleton.mp hmem))
    · exact List.nodup_append.mpr ⟨h.checks, List.pairwise_singleton _ _, fun i hi j hj hij => by
        rw [List.mem_singleton.mp hj] at hij
        exact hnot (hij ▸ hi)⟩
    · intro i hi
      rcases List.mem_append.mp hi with hi | hi
      · exact h.given i hi
      · rw [List.mem_singleton.mp hi]
        exact hlt
    · intro a ha
      rcases List.mem_append.mp ha with ha | ha
      · obtain ⟨hearned, q, hq, hmem⟩ := h.earned a ha
        exact ⟨hearned, q, hq, List.mem_append_left _ hmem⟩
      · obtain ⟨-, hsame, hearned⟩ := hr.earned a (Option.mem_toList.mp ha)
        exact ⟨hearned, p, hsame.trans hacc,
          List.mem_append_right _ (List.mem_singleton.mpr rfl)⟩
  · have hnone : r.2.2 = none := by
      cases ha : r.2.2 with
      | none => rfl
      | some a => exact absurd (hr.earned a ha).1 hcheck
    rw [if_neg hcheck, hnone]
    simp only [Option.toList_none, List.append_nil]
    exact ⟨hp, hf, hd, hn, hg, he⟩

theorem continuePairing_inv {s : Server Key} (h : Inv crypto s) (uid : Bytes)
    (sess : PairSession Key) (hs : s.mapIdSess uid = some sess) (r : PairRequest) :
    Inv crypto (continuePairing crypto s uid sess r).1 := by
  have hprog := h.progress uid sess hs
  unfold continuePairing
  cases r.clientchallenge with
  | some challenge =>
    exact keep_inv crypto h uid sess hs _ (clientchallenge_spec crypto sess _ _ _ hprog)
  | none =>
    cases r.serverchallengeresp with
    | some response =>
      exact keep_inv crypto h uid sess hs _ (serverchallengeresp_spec crypto sess _ hprog)
    | none =>
      cases r.clientpairingsecret with
      | some secret =>
        exact secret_inv crypto h uid sess hs _ (clientpairingsecret_spec crypto sess _ hprog)
      | none => exact h

/-- A request leaves the sessions, starts one or continues one. -/
theorem pair_cases (s : Server Key) (r : PairRequest) : (pair crypto s r).1 = s ∨
    (∃ uid, pair crypto s r = startPairing crypto s uid r) ∨
      ∃ uid sess, s.mapIdSess uid = some sess ∧ pair crypto s r = continuePairing crypto s uid sess r := by
  unfold pair
  cases r.uniqueid with
  | none => exact .inl rfl
  | some uid =>
    dsimp only
    cases hsess : s.mapIdSess uid with
    | none =>
      cases r.phrase with
      | none => exact .inl rfl
      | some phrase =>
        cases phrase with
        | getservercert => exact .inr (.inl ⟨uid, rfl⟩)
        | pairchallenge => exact .inl rfl
        | other => exact .inl rfl
    | some sess =>
      cases r.phrase with
      | none => exact .inr (.inr ⟨uid, sess, hsess, rfl⟩)
      | some phrase =>
        cases phrase with
        | getservercert => exact .inr (.inl ⟨uid, rfl⟩)
        | pairchallenge => exact .inl rfl
        | other => exact .inr (.inr ⟨uid, sess, hsess, rfl⟩)

theorem pair_inv {s : Server Key} (h : Inv crypto s) (r : PairRequest) :
    Inv crypto (pair crypto s r).1 := by
  obtain hsame | ⟨uid, hstarts⟩ | ⟨uid, sess, hsess, hcontinues⟩ := pair_cases crypto s r
  · rw [hsame]
    exact h
  · rw [hstarts]
    exact startPairing_inv crypto h uid r
  · rw [hcontinues]
    exact continuePairing_inv crypto h uid sess hsess r

theorem pin_inv {s : Server Key} (h : Inv crypto s) (p name picked : Bytes) :
    Inv crypto (pin crypto s p name picked).1 := by
  unfold pin
  cases hs : s.mapIdSess picked with
  | none => exact h
  | some sess =>
    simp only
    by_cases hlen : p.length ≠ 4
    · rw [if_pos hlen]
      exact h
    · rw [if_neg hlen]
      by_cases hdig : p.all isDigit = false
      · rw [if_pos hdig]
        exact h
      · rw [if_neg hdig]
        have hvalid : Acceptance.Valid ⟨s.pinsGiven, .entered, p⟩ :=
          ⟨not_not.mp hlen, by simpa using hdig⟩
        rcases getservercert_spec crypto sess ⟨s.pinsGiven, .entered, p⟩ hvalid
          (h.progress picked sess hs) with ⟨-, hpaired⟩ | ⟨-, hpaired, hacc, hprog⟩
        · simp only [hpaired, Option.getD_some, if_true]
          exact h.give crypto picked none (fun _ hs => (Option.some_ne_none _ hs.symm).elim)
            (fun _ _ hs => (Option.some_ne_none _ hs.symm).elim)
        · simp only [hpaired, Option.getD_some, Nat.one_ne_zero, if_false]
          set out := getservercert crypto sess ⟨s.pinsGiven, .entered, p⟩
          -- the name and the held response play no part in the progress
          have hprog' : Progress crypto { out.sess with name, responseHeld := false } := by
            unfold Progress at hprog ⊢
            cases hphase : out.sess.lastPhase <;> rw [hphase] at hprog
            · exact hprog
            · obtain ⟨q, key, ⟨k1, k2, k3, k4⟩, hh⟩ := hprog
              exact ⟨q, key, ⟨k1, k2, k3, k4⟩, hh⟩
            · obtain ⟨q, key, c, sec, ⟨k1, k2, k3, k4⟩, hh⟩ := hprog
              exact ⟨q, key, c, sec, ⟨k1, k2, k3, k4⟩, hh⟩
            · obtain ⟨q, key, c, sec, resp, ⟨k1, k2, k3, k4⟩, hh⟩ := hprog
              exact ⟨q, key, c, sec, resp, ⟨k1, k2, k3, k4⟩, hh⟩
            · exact hprog
          refine h.give crypto picked (some _) (fun sess' hs' => Option.some.inj hs' ▸ hprog')
            (fun sess' p' hs' hp' => ?_)
          rw [← Option.some.inj hs'] at hp'
          rw [← Option.some.inj (hacc.symm.trans hp')]

theorem next_inv (s : Server Key) (e : Event) (h : Inv crypto s) : Inv crypto (next crypto s e) := by
  cases e with
  | pair r => exact pair_inv crypto h r
  | pin p name picked => exact pin_inv crypto h p name picked

theorem inv_init : Inv crypto ({} : Server Key) where
  progress uid sess h := by cases h
  fresh uid sess p h := by cases h
  distinct uid uid' sess sess' p p' h := by cases h
  checks := List.nodup_nil
  given i h := by cases h
  earned a h := by cases h

/-! ## Runs -/

/-- Every authorized client was earned by its session, no live session has a failed call behind it,
and each PIN given to a session is good for at most one comparison. -/
structure PairingSafe (s : Server Key) : Prop where
  earned : ∀ a ∈ s.authorized, Earned crypto a
  counted : ∀ a ∈ s.authorized, ∃ p, a.sess.acceptance = some p ∧ p.id ∈ s.hashChecks
  checks : s.hashChecks.Nodup
  live : ∀ uid sess, s.mapIdSess uid = some sess → ∀ call ∈ sess.history, call.2 = true

theorem Progress.no_failure {sess : PairSession Key} (h : Progress crypto sess) :
    ∀ call ∈ sess.history, call.2 = true := by
  unfold Progress at h
  cases hphase : sess.lastPhase <;> rw [hphase] at h
  · rw [h.1]
    exact nofun
  · obtain ⟨p, key, -, hh⟩ := h
    rw [hh]
    simp
  · obtain ⟨p, key, c, sec, -, hh⟩ := h
    rw [hh]
    simp
  · obtain ⟨p, key, c, sec, resp, -, hh, -⟩ := h
    rw [hh]
    simp
  · exact h.elim

/-- For any sequence of requests and PIN submissions of any unique ids. -/
theorem pairing_safe (l : List Event) : PairingSafe crypto (l.foldl (next crypto) {}) := by
  have h : Inv crypto (l.foldl (next crypto) {}) :=
    (runs_true l).invariant (Inv crypto) (inv_init crypto) fun s e hs _ => next_inv crypto s e hs
  exact ⟨fun a ha => (h.earned a ha).1, fun a ha => (h.earned a ha).2, h.checks,
    fun uid sess hs => (h.progress uid sess hs).no_failure crypto⟩

end Requests

/-- A full pairing with transparent cryptography authorizes one client. -/
example :
    let crypto : Crypto Unit Bytes :=
      { x509 := fun _ => some (), signature := fun _ => [7], hash := id
        genAesKey := fun salt pin => salt ++ pin, ecbDecrypt := fun _ c => c
        ecbEncrypt := fun _ p => p, sign256 := id, verify256 := fun _ _ _ => true
        servercert := [], serverSignature := [] }
    let zeros (n : ℕ) : Bytes := List.replicate n 48
    let request : PairRequest := { uniqueid := some [1] }
    (([.pair { request with phrase := some .getservercert, clientcert := some [], salt := some (zeros 32) },
      .pin [49, 50, 51, 52] [] [1],
      .pair { request with clientchallenge := some [], serversecret := [1], serverchallenge := [9] },
      .pair { request with serverchallengeresp := some ([48, 57, 48, 55] ++ zeros 32) },
      .pair { request with clientpairingsecret := some (zeros 34) }] : List Event).foldl
        (next crypto) {}).authorized.length = 1 := by decide

end Sunshine.Pairing
