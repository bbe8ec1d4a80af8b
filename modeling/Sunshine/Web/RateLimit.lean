import Sunshine.Lib.FixedWindow
import Sunshine.Web.Requests

/-! The rate limit of the web interface over runs of authentication attempts, with each reading of the clock.

A bucket is counted from its first attempt on and dropped when it is older than the window, or at a success. So a window
of time may have the failures of two buckets: `attempts_limited`. -/
namespace Sunshine.Web
open Config Tokens FixedWindow
set_option autoImplicit false

abbrev Failures := List (Text × RateBucket)

/-- A request with what the host holds at the time, and the readings of the clock in `rate_limit_allow` and in
`rate_limit_record_failure`: at the start, and where a bucket is made. -/
structure Attempt (Other : Type) where
  content : Content Other
  request : Request
  times : Times

section Attempts
variable {Other : Type} (lib : Library) (window : ℕ)

/-- `prune_rate_limits`, with the window in ticks of the clock. -/
def pruneAt (now : ℕ) (failures : Failures) : Failures :=
  failures.filter fun entry => ¬window < now - entry.2.windowStart

/-- A bucket that is too old starts again. -/
def refreshAt (now : ℕ) (bucket : RateBucket) : RateBucket :=
  if window < now - bucket.windowStart then ⟨now, 0⟩ else bucket

/-- The bucket of the address in the pruned table. -/
def bucketAt (now made : ℕ) (failures : Failures) (ip : Text) : RateBucket :=
  refreshAt window now (rateBucket made (pruneAt window now failures) ip)

def allowAt (now made : ℕ) (ip : Text) (failures : Failures) : Failures × Bool :=
  let bucket := bucketAt window now made failures ip
  (setBucket (pruneAt window now failures) ip bucket, bucket.failures < loginFailLimit)

def recordFailureAt (now made : ℕ) (ip : Text) (failures : Failures) : Failures :=
  let bucket := bucketAt window now made failures ip
  setBucket (pruneAt window now failures) ip { bucket with failures := bucket.failures + 1 }

def resetAt (ip : Text) (failures : Failures) : Failures := failures.filter (·.1 ≠ ip)

/-- The bearer token, and else the user and the password. -/
def checkCredentials (attempt : Attempt Other) : Option Granted :=
  match authenticateBearer lib.hash attempt.content.apiTokens attempt.request.authorization with
  | some result => some ⟨result.grantedScopes, result.isAdmin⟩
  | none => if basicAccepted lib attempt.content attempt.request.authorization then some ⟨[], true⟩ else none

/-- `authenticate` behind its rate limit. -/
def authenticateAllowed (attempt : Attempt Other) (failures : Failures) : Failures × Except Response Granted :=
  let address := attempt.request.remoteAddress
  if 1024 * 1024 < attempt.request.content.length then (failures, .error .payloadTooLarge)
  else if attempt.content.username = [] then (failures, .error .redirect)
  else
    match checkCredentials lib attempt with
    | some granted => (resetAt address failures, .ok granted)
    | none =>
      (recordFailureAt window attempt.times.hitNow attempt.times.hitMade address failures, .error .unauthorized)

def authenticateAt (attempt : Attempt Other) (failures : Failures) : Failures × Except Response Granted :=
  let address := attempt.request.remoteAddress
  let allowed := allowAt window attempt.times.now attempt.times.made address failures
  if lib.deniedAddress address then (failures, .error .forbidden)
  else if allowed.2 then authenticateAllowed lib window attempt allowed.1
  else (allowed.1, .error .tooManyRequests)

/-- The attempts of a run with what came of them. -/
def attempts (failures : Failures) : List (Attempt Other) → List (Attempt Other × Except Response Granted)
  | [] => []
  | attempt :: l =>
    (attempt, (authenticateAt lib window attempt failures).2) ::
      attempts (authenticateAt lib window attempt failures).1 l

/-- The attempts are one behind the other. -/
def InOrder : ℕ → List (Attempt Other) → Prop
  | _, [] => True
  | t, attempt :: l => t ≤ attempt.times.now ∧ InOrder attempt.times.hitMade l

end Attempts

/-! ## One address -/

section
variable {Other : Type} {lib : Library} {window now made : ℕ} {ip address : Text} {failures : Failures}
  {bucket : RateBucket}

def RateBucket.counter (bucket : RateBucket) : Counter := ⟨bucket.windowStart, bucket.failures⟩

/-- What the table has for an address. -/
def slot (ip : Text) (failures : Failures) : Option Counter := (failures.lookup ip).map RateBucket.counter

/-- What an attempt is to an address. -/
def outcome (ip : Text) (entry : Attempt Other × Except Response Granted) : Outcome :=
  if entry.1.request.remoteAddress ≠ ip then .elsewhere
  else
    match entry.2 with
    | .ok _ => .cleared
    | .error .unauthorized => .hit
    | .error .tooManyRequests => .refused
    | .error .forbidden => .elsewhere
    | .error _ => .idle

/-- The addresses of the table are distinct. -/
def Keyed (failures : Failures) : Prop := (failures.map Prod.fst).Nodup

theorem keyed_filter (h : Keyed failures) (p : Text × RateBucket → Bool) : Keyed (failures.filter p) :=
  h.sublist (List.filter_sublist.map Prod.fst)

theorem keyed_setBucket (h : Keyed failures) (ip : Text) (bucket : RateBucket) :
    Keyed (setBucket failures ip bucket) := by
  refine List.nodup_cons.mpr ⟨fun hmem => ?_, keyed_filter h _⟩
  obtain ⟨entry, hentry, heq⟩ := List.mem_map.mp hmem
  exact absurd heq (by simpa using (List.mem_filter.mp hentry).2)

theorem slot_prune (h : Keyed failures) (window now : ℕ) (ip : Text) :
    slot ip (pruneAt window now failures) = expire window now (slot ip failures) := by
  rw [slot, pruneAt, Entries.lookup_filter h, slot]
  cases failures.lookup ip with
  | none => rfl
  | some bucket =>
    by_cases hold : window < now - bucket.windowStart
    · have hdrop : expire window now (some bucket.counter) = none := expire_old hold
      rw [Option.filter_some_neg (by simp [hold]), Option.map_some, hdrop]
      rfl
    · have hkeep : expire window now (some bucket.counter) = some bucket.counter := expire_fresh hold
      rw [Option.filter_some_pos (by simp [hold]), Option.map_some, hkeep]

theorem slot_setBucket_self (failures : Failures) (ip : Text) (bucket : RateBucket) :
    slot ip (setBucket failures ip bucket) = some bucket.counter := by
  rw [slot, setBucket, List.lookup_cons_self]
  rfl

theorem slot_filter_ne (h : Keyed failures) (hne : address ≠ ip) :
    slot ip (failures.filter (·.1 ≠ address)) = slot ip failures := by
  rw [slot, Entries.lookup_filter h, slot]
  cases failures.lookup ip with
  | none => rfl
  | some bucket => simp [hne.symm]

theorem slot_setBucket_ne (h : Keyed failures) (hne : address ≠ ip) (bucket : RateBucket) :
    slot ip (setBucket failures address bucket) = slot ip failures := by
  rw [slot, setBucket, Entries.lookup_cons_ne hne.symm]
  exact slot_filter_ne h hne

/-- None of the pruned table is too old. -/
theorem bucketAt_eq (hmade : now ≤ made) :
    bucketAt window now made failures ip = rateBucket made (pruneAt window now failures) ip := by
  refine if_neg ?_
  rw [rateBucket]
  cases hlookup : (pruneAt window now failures).lookup ip with
  | none =>
    show ¬window < now - made
    omega
  | some bucket =>
    have hmem := List.mem_filter.mp (Entries.mem_of_lookup hlookup)
    simpa using hmem.2

/-- The bucket of an address is the one of the table or a new one. -/
theorem counter_bucketAt (h : Keyed failures) (hmade : now ≤ made) :
    some (bucketAt window now made failures ip).counter = use made (expire window now (slot ip failures)) := by
  rw [← slot_prune h, bucketAt_eq hmade, rateBucket, slot]
  cases (pruneAt window now failures).lookup ip with
  | none => rfl
  | some bucket => rfl

variable (window ip) in
theorem hits_bucketAt (h : Keyed failures) (hmade : now ≤ made) :
    hits (use made (expire window now (slot ip failures))) = (bucketAt window now made failures ip).failures := by
  rw [← counter_bucketAt h hmade]
  rfl

variable (window ip) in
theorem slot_allowAt (h : Keyed failures) (hmade : now ≤ made) :
    slot ip (allowAt window now made ip failures).1 = use made (expire window now (slot ip failures)) := by
  rw [← counter_bucketAt h hmade]
  exact slot_setBucket_self _ ip _

variable (window now made) in
theorem slot_allowAt_ne (h : Keyed failures) (hne : address ≠ ip) :
    slot ip (allowAt window now made address failures).1 = expire window now (slot ip failures) := by
  rw [← slot_prune h]
  exact slot_setBucket_ne (keyed_filter h _) hne _

variable (window ip) in
theorem slot_recordFailureAt (h : Keyed failures) (hmade : now ≤ made) :
    slot ip (recordFailureAt window now made ip failures) = hit (use made (expire window now (slot ip failures))) := by
  rw [← counter_bucketAt h hmade]
  exact slot_setBucket_self _ ip _

theorem slot_recordFailureAt_ne (h : Keyed failures) (hne : address ≠ ip) :
    slot ip (recordFailureAt window now made address failures) = expire window now (slot ip failures) := by
  rw [← slot_prune h]
  exact slot_setBucket_ne (keyed_filter h _) hne _

theorem slot_resetAt (h : Keyed failures) (ip : Text) : slot ip (resetAt ip failures) = none := by
  rw [slot, resetAt, Entries.lookup_filter h]
  cases failures.lookup ip with
  | none => rfl
  | some bucket => simp

variable (window now made address) in
theorem keyed_allowAt (h : Keyed failures) : Keyed (allowAt window now made address failures).1 :=
  keyed_setBucket (keyed_filter h _) address _

/-! ## One attempt -/

/-- With one reading of the clock, in seconds. -/
theorem authenticate_eq (lib : Library) (now : ℕ) (request : Request) {Stats : Type} (host : Host Other Stats) :
    authenticate lib now request host =
      ({ host with loginFailures := (authenticateAt lib loginFailWindow ⟨host.content, request, .once now⟩
          host.loginFailures).1 },
        (authenticateAt lib loginFailWindow ⟨host.content, request, .once now⟩ host.loginFailures).2) := by
  have hallow : rateLimitAllow now request.remoteAddress host =
      ({ host with loginFailures := (allowAt loginFailWindow now now request.remoteAddress host.loginFailures).1 },
        (allowAt loginFailWindow now now request.remoteAddress host.loginFailures).2) := by
    rw [allowAt, bucketAt_eq (Nat.le_refl now)]
    rfl
  have hrecord (host : Host Other Stats) : rateLimitRecordFailure now request.remoteAddress host =
      { host with
        loginFailures := recordFailureAt loginFailWindow now now request.remoteAddress host.loginFailures } := by
    rw [recordFailureAt, bucketAt_eq (Nat.le_refl now)]
    rfl
  unfold authenticate authenticateAt authenticateAllowed checkCredentials
  rw [hallow]
  dsimp only [Times.once]
  by_cases hdenied : lib.deniedAddress request.remoteAddress = true
  · rw [if_pos hdenied, if_pos hdenied]
  · rw [if_neg hdenied, if_neg hdenied]
    cases hallowed : (allowAt loginFailWindow now now request.remoteAddress host.loginFailures).2 with
    | false => rfl
    | true =>
      rw [if_neg (by simp), if_pos rfl]
      by_cases hlarge : 1024 * 1024 < request.content.length
      · rw [if_pos hlarge, if_pos hlarge]
      · rw [if_neg hlarge, if_neg hlarge]
        by_cases hwelcome : host.content.username = []
        · rw [if_pos hwelcome, if_pos hwelcome]
        · rw [if_neg hwelcome, if_neg hwelcome]
          cases authenticateBearer lib.hash host.content.apiTokens request.authorization with
          | some result => rfl
          | none =>
            cases basicAccepted lib host.content request.authorization with
            | true => rfl
            | false =>
              show (rateLimitRecordFailure now request.remoteAddress _, _) = _
              rw [hrecord]
              rfl

variable (lib window) in
theorem authenticateAt_keyed (attempt : Attempt Other) (h : Keyed failures) :
    Keyed (authenticateAt lib window attempt failures).1 := by
  have hkeyed := keyed_allowAt window attempt.times.now attempt.times.made attempt.request.remoteAddress h
  unfold authenticateAt authenticateAllowed
  dsimp only
  split_ifs
  · exact h
  · exact hkeyed
  · exact hkeyed
  · cases checkCredentials lib attempt with
    | some granted =>
      show Keyed (resetAt _ _)
      exact keyed_filter hkeyed _
    | none =>
      show Keyed (recordFailureAt window _ _ _ _)
      exact keyed_setBucket (keyed_filter hkeyed _) _ _
  · exact hkeyed

/-- What an attempt does to the bucket of its own address. -/
theorem authenticateAt_own (attempt : Attempt Other) (h : Keyed failures)
    (hip : attempt.request.remoteAddress = ip) :
    Step loginFailLimit window attempt.times (slot ip failures)
      (outcome ip (attempt, (authenticateAt lib window attempt failures).2))
      (slot ip (authenticateAt lib window attempt failures).1) := by
  have hnow := attempt.times.now_le
  have hhits := hits_bucketAt window ip h hnow
  have hallow := slot_allowAt window ip h hnow
  have hkeyed := keyed_allowAt window attempt.times.now attempt.times.made ip h
  have hrecord := slot_recordFailureAt window ip hkeyed attempt.times.hitNow_le
  have hallowed : (allowAt window attempt.times.now attempt.times.made ip failures).2 = true ↔
      hits (use attempt.times.made (expire window attempt.times.now (slot ip failures))) < loginFailLimit := by
    rw [hhits]
    exact decide_eq_true_iff
  rw [outcome, if_neg (not_not.mpr hip)]
  unfold authenticateAt authenticateAllowed
  dsimp only
  rw [hip]
  split_ifs with hdenied hroom hlarge hwelcome
  · exact .stays
  · show Step _ _ _ _ .idle _
    rw [hallow]
    exact .idle
  · show Step _ _ _ _ .idle _
    rw [hallow]
    exact .idle
  · cases checkCredentials lib attempt with
    | some granted =>
      show Step _ _ _ _ .cleared (slot ip (resetAt ip _))
      rw [slot_resetAt hkeyed]
      exact .cleared
    | none =>
      show Step _ _ _ _ .hit (slot ip (recordFailureAt window _ _ ip _))
      rw [hrecord, hallow]
      exact .hit (hallowed.mp hroom)
  · show Step _ _ _ _ .refused _
    rw [hallow]
    exact .refused (Nat.not_lt.mp fun hlt => hroom (hallowed.mpr hlt))

/-- An attempt of another address drops a bucket that is too old, and no more. -/
theorem authenticateAt_other (attempt : Attempt Other) (h : Keyed failures)
    (hip : attempt.request.remoteAddress ≠ ip) :
    Step loginFailLimit window attempt.times (slot ip failures)
      (outcome ip (attempt, (authenticateAt lib window attempt failures).2))
      (slot ip (authenticateAt lib window attempt failures).1) := by
  have hallow := slot_allowAt_ne window attempt.times.now attempt.times.made h hip
  have hkeyed := keyed_allowAt window attempt.times.now attempt.times.made attempt.request.remoteAddress h
  rw [outcome, if_pos hip]
  unfold authenticateAt authenticateAllowed
  dsimp only
  split_ifs
  · exact .stays
  · rw [hallow]
    exact .elsewhere
  · rw [hallow]
    exact .elsewhere
  · cases checkCredentials lib attempt with
    | some granted =>
      show Step _ _ _ _ _ (slot ip (resetAt attempt.request.remoteAddress _))
      rw [resetAt, slot_filter_ne hkeyed hip, hallow]
      exact .elsewhere
    | none =>
      show Step _ _ _ _ _ (slot ip (recordFailureAt window _ _ attempt.request.remoteAddress _))
      rw [slot_recordFailureAt_ne hkeyed hip, hallow]
      exact .elsewhereHit
  · rw [hallow]
    exact .elsewhere

theorem authenticateAt_step (attempt : Attempt Other) (h : Keyed failures) (ip : Text) :
    Step loginFailLimit window attempt.times (slot ip failures)
      (outcome ip (attempt, (authenticateAt lib window attempt failures).2))
      (slot ip (authenticateAt lib window attempt failures).1) := by
  by_cases hip : attempt.request.remoteAddress = ip
  · exact authenticateAt_own attempt h hip
  · exact authenticateAt_other attempt h hip

/-! ## Runs -/

/-- What an entry of a run is to an address, with its times. -/
def event (ip : Text) (entry : Attempt Other × Except Response Granted) : Times × Outcome :=
  (entry.1.times, outcome ip entry)

variable (lib window) in
theorem attempts_trace (l : List (Attempt Other)) (h : Keyed failures) (ip : Text) :
    ∃ slot', Trace loginFailLimit window (slot ip failures) ((attempts lib window failures l).map (event ip)) slot' := by
  induction l generalizing failures with
  | nil => exact ⟨_, .nil _⟩
  | cons attempt l ih =>
    obtain ⟨slot', hrest⟩ := ih (authenticateAt_keyed lib window attempt h)
    exact ⟨slot', .cons (authenticateAt_step attempt h ip) hrest⟩

variable (lib window) in
theorem ordered_attempts {t : ℕ} {l : List (Attempt Other)} (h : InOrder t l) (failures : Failures) (ip : Text) :
    Ordered t ((attempts lib window failures l).map (event ip)) := by
  induction l generalizing t failures with
  | nil => trivial
  | cons attempt l ih => exact ⟨h.1, ih h.2 _⟩

/-- In a window of time, and with no success of the address between them, an address has twice the limit of failed
checks, at most; and an address that is refused has made as many as the limit itself, in the last window and since its
last success. -/
theorem attempts_limited (lib : Library) (window : ℕ) (l : List (Attempt Other)) (horder : InOrder 0 l) (ip : Text) :
    (∀ before segment after, attempts lib window [] l = before ++ segment ++ after →
      (∀ entry ∈ segment, outcome ip entry ≠ .cleared) → ∀ base,
        (segment.countP fun entry => outcome ip entry = .hit ∧ base ≤ entry.1.times.hitMade ∧
          entry.1.times.hitMade ≤ base + window) ≤ 2 * loginFailLimit) ∧
      ∀ before entry after, attempts lib window [] l = before ++ entry :: after → outcome ip entry = .refused →
        ∃ old recent, before = old ++ recent ∧ (∀ other ∈ recent, outcome ip other ≠ .cleared) ∧
          loginFailLimit ≤ recent.countP fun other => outcome ip other = .hit ∧
            entry.1.times.now ≤ other.1.times.hitMade + window := by
  have hempty : Keyed [] := List.nodup_nil
  obtain ⟨slot', htrace⟩ := attempts_trace lib window l hempty ip
  have hordered := ordered_attempts lib window horder [] ip
  constructor
  · intro before segment after hsplit hsegment base
    rw [hsplit, List.map_append, List.map_append] at htrace hordered
    have hle := htrace.le hordered (fun other hother => ?_) base
    · rw [List.countP_map] at hle
      exact hle
    · obtain ⟨entry, hentry, rfl⟩ := List.mem_map.mp hother
      exact hsegment entry hentry
  · intro before entry after hsplit hrefused
    have hevent : event ip entry = (entry.1.times, .refused) := congrArg (entry.1.times, ·) hrefused
    rw [hsplit, List.map_append, List.map_cons, hevent] at htrace hordered
    obtain ⟨old, recent, hbefore, hrecent, hcount⟩ := htrace.refused (by decide) hordered
    obtain ⟨old', recent', rfl, rfl, rfl⟩ := List.map_eq_append_iff.mp hbefore
    refine ⟨old', recent', rfl, fun other hother => hrecent _ (List.mem_map_of_mem hother), ?_⟩
    rw [List.countP_map] at hcount
    exact hcount

/-! ## Examples -/

/-- No address is denied, and nothing is encoded or hashed. -/
def plainLibrary : Library := ⟨fun _ => false, id, fun _ => []⟩

/-- An attempt at one reading of the clock, of the user `a` with any password. -/
def attemptAt (now : ℕ) (authorization : Option Text) : Attempt Unit where
  content := ⟨[], [], [], [], [], [], "a".toList, [], [], false, ()⟩
  request := ⟨.post, [], "::1".toList, none, none, none, none, none, authorization, []⟩
  times := .once now

def failing (n now : ℕ) : List (Attempt Unit) := List.replicate n (attemptAt now none)

theorem attempts_limited_two : InOrder 0 [attemptAt 0 none, attemptAt 1 none] ∧
    ∀ before entry after,
      attempts plainLibrary loginFailWindow [] [attemptAt 0 none, attemptAt 1 none] = before ++ entry :: after →
      outcome "::1".toList entry = .refused → ∃ old recent, before = old ++ recent ∧
        (∀ other ∈ recent, outcome "::1".toList other ≠ .cleared) ∧
        loginFailLimit ≤ recent.countP fun other => outcome "::1".toList other = .hit ∧
          entry.1.times.now ≤ other.1.times.hitMade + loginFailWindow :=
  have horder : InOrder 0 [attemptAt 0 none, attemptAt 1 none] := ⟨Nat.le_refl 0, Nat.zero_le 1, trivial⟩
  ⟨horder, (attempts_limited plainLibrary loginFailWindow _ horder "::1".toList).2⟩

/-- The bucket of the first failure is too old two seconds after nine more, and a success drops the bucket: nineteen
and twenty-seven failed checks within a window. -/
theorem attempts_seam :
    ((attempts plainLibrary loginFailWindow [] (failing 1 0 ++ failing 9 29 ++ failing 10 31)).countP fun entry =>
      outcome "::1".toList entry = .hit ∧ 29 ≤ entry.1.times.hitMade ∧ entry.1.times.hitMade ≤ 29 + loginFailWindow) = 19 ∧
    ((attempts plainLibrary loginFailWindow [] (failing 9 0 ++ [attemptAt 0 (some "Basic a:b".toList)] ++ failing 9 1 ++
        [attemptAt 1 (some "Basic a:b".toList)] ++ failing 9 2)).countP fun entry =>
      outcome "::1".toList entry = .hit ∧ 0 ≤ entry.1.times.hitMade ∧
        entry.1.times.hitMade ≤ 0 + loginFailWindow) = 27 := by
  decide

end

end Sunshine.Web
