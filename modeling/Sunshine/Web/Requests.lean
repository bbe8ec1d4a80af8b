import Sunshine.Web.Tokens

/-! The checks of a request to the web interface: its authentication with the rate limit, the scope, the content type
and the CSRF token.

None of them changes what the host holds; they keep their own books. -/
namespace Sunshine.Web
open Config Texts Tokens
set_option autoImplicit false

/-- The methods that may change something. -/
inductive Method where
  | post
  | put
  | delete
  deriving DecidableEq

/-- A request, with the headers that the handlers look at; of several of one name they see the first. -/
structure Request where
  method : Method
  path : Text
  remoteAddress : Text
  origin : Option Text
  referer : Option Text
  xCsrfToken : Option Text
  csrfTokenQuery : Option Text
  contentType : Option Text
  authorization : Option Text
  content : Text

inductive Response where
  | success
  | badRequest (message : String)
  | notFound
  | forbidden
  | lacksScope
  | tooManyRequests
  | payloadTooLarge
  | redirect
  | unauthorized
  deriving DecidableEq

/-! ## The host -/

/-- What the web interface serves: configuration, apps, covers, tokens, clients and credentials, and all else that a
handler may change. -/
structure Content (Other : Type) where
  configFile : Text
  csrfAllowedOrigins : List Text
  appsFile : Text
  covers : List (Text × List UInt8)
  apiTokens : List ApiToken
  clients : List Text
  username : Text
  password : Text
  salt : Text
  appRunning : Bool
  other : Other

structure CsrfToken where
  token : Text
  expiration : ℕ

/-- `rate_bucket_t`. -/
structure RateBucket where
  windowStart : ℕ
  failures : ℕ

/-- The content with the books of the checks: `csrf_tokens` by client and `g_login_failures` by address. `netStats` is
the event that the video loop drains. -/
structure Host (Other Stats : Type) where
  content : Content Other
  csrfTokens : List (Text × CsrfToken)
  loginFailures : List (Text × RateBucket)
  netStats : Option Stats

/-- Functions of other libraries, and the class of an address. -/
structure Library where
  deniedAddress : Text → Bool
  decodeBase64 : Text → Text
  hash : Text → List UInt8

section Checks

variable {Other Stats : Type} (lib : Library) (now : ℕ)

/-! ## The rate limit -/

def loginFailLimit : ℕ := 10

def loginFailWindow : ℕ := 30

def pruneRateLimits (failures : List (Text × RateBucket)) : List (Text × RateBucket) :=
  failures.filter fun entry => ¬ loginFailWindow < now - entry.2.windowStart

/-- The bucket of the address, a new one if there is none. -/
def rateBucket (failures : List (Text × RateBucket)) (ip : Text) : RateBucket :=
  (failures.lookup ip).getD ⟨now, 0⟩

def setBucket (failures : List (Text × RateBucket)) (ip : Text) (bucket : RateBucket) : List (Text × RateBucket) :=
  (ip, bucket) :: failures.filter (·.1 ≠ ip)

def rateLimitAllow (ip : Text) (host : Host Other Stats) : Host Other Stats × Bool :=
  let failures := pruneRateLimits now host.loginFailures
  let bucket := rateBucket now failures ip
  ({ host with loginFailures := setBucket failures ip bucket }, bucket.failures < loginFailLimit)

def rateLimitRecordFailure (ip : Text) (host : Host Other Stats) : Host Other Stats :=
  let failures := pruneRateLimits now host.loginFailures
  let bucket := rateBucket now failures ip
  { host with loginFailures := setBucket failures ip { bucket with failures := bucket.failures + 1 } }

def rateLimitReset (ip : Text) (host : Host Other Stats) : Host Other Stats :=
  { host with loginFailures := host.loginFailures.filter (·.1 ≠ ip) }

/-! ## Authentication -/

/-- The user and the password in an `Authorization` header, if there is a password. -/
def basicCredentials (authorization : Text) : Option (Text × Text) :=
  let authData := lib.decodeBase64 (authorization.drop 6)
  let username := authData.takeWhile (· ≠ ':')
  if username.length + 1 < authData.length then some (username, authData.drop (username.length + 1)) else none

def basicAccepted (content : Content Other) (authorization : Option Text) : Bool :=
  match authorization with
  | none => false
  | some authorization =>
    match basicCredentials lib authorization with
    | none => false
    | some (username, password) =>
      iequals username content.username && utilHex (lib.hash (password ++ content.salt)) = content.password

/-- `auth_result_t` of a request that is authenticated. -/
structure Granted where
  grantedScopes : List ApiScope
  isAdmin : Bool

def authenticate (request : Request) (host : Host Other Stats) : Host Other Stats × Except Response Granted :=
  if lib.deniedAddress request.remoteAddress then (host, .error .forbidden)
  else
    let (host, allowed) := rateLimitAllow now request.remoteAddress host
    if !allowed then (host, .error .tooManyRequests)
    else if 1024 * 1024 < request.content.length then (host, .error .payloadTooLarge)
    else if host.content.username = [] then (host, .error .redirect)
    else
      match authenticateBearer lib.hash host.content.apiTokens request.authorization with
      | some result => (rateLimitReset request.remoteAddress host, .ok ⟨result.grantedScopes, result.isAdmin⟩)
      | none =>
        if basicAccepted lib host.content request.authorization then
          (rateLimitReset request.remoteAddress host, .ok ⟨[], true⟩)
        else (rateLimitRecordFailure now request.remoteAddress host, .error .unauthorized)

def hasScope (granted : Granted) (scope : ApiScope) : Bool :=
  granted.isAdmin || granted.grantedScopes.any fun s => s = scope || s = .star

/-- The answer that was sent if the request may not go on. -/
def requireScope (request : Request) (scope : ApiScope) (host : Host Other Stats) :
    Host Other Stats × Option Response :=
  match authenticate lib now request host with
  | (host, .error response) => (host, some response)
  | (host, .ok granted) => (host, if hasScope granted scope then none else some .lacksScope)

/-! ## Content type -/

def trimBlanks (text : Text) : Text := (text.dropWhile Char.isWhitespace).rdropWhile Char.isWhitespace

def checkContentType (request : Request) (expected : Text) : Option Response :=
  match request.contentType with
  | none => some (.badRequest "Content type not provided")
  | some actual =>
    if (trimBlanks (actual.takeWhile (· ≠ ';'))).map Char.toLower = expected then none
    else some (.badRequest "Content type mismatch")

/-! ## CSRF -/

/-- The user of a `Basic` header, or else the address. -/
def getClientId (request : Request) (content : Content Other) : Text :=
  match request.authorization with
  | none => request.remoteAddress
  | some authorization =>
    if content.username ≠ [] ∧ authorization.take 6 = "Basic ".toList then
      match basicCredentials lib authorization with
      | some (username, _) => username
      | none => request.remoteAddress
    else request.remoteAddress

def validateStoredCsrfToken (clientId providedToken : Text) (host : Host Other Stats) :
    Host Other Stats × Option Response :=
  match host.csrfTokens.lookup clientId with
  | none => (host, some (.badRequest "Invalid CSRF token"))
  | some stored =>
    if stored.expiration < now then
      ({ host with csrfTokens := host.csrfTokens.filter (·.1 ≠ clientId) }, some (.badRequest "CSRF token expired"))
    else if stored.token ≠ providedToken then (host, some (.badRequest "Invalid CSRF token"))
    else (host, none)

/-- Whether an allowed origin is the url or is followed by a port or a path in it. -/
def isAllowedOrigin (allowedOrigins : List Text) (url : Text) : Bool :=
  allowedOrigins.any fun allowedOrigin =>
    allowedOrigin.isPrefixOf url &&
      (url.length = allowedOrigin.length || url[allowedOrigin.length]? = some ':' ||
        url[allowedOrigin.length]? = some '/')

def allowedHeader (allowedOrigins : List Text) (header : Option Text) : Bool :=
  header.any (isAllowedOrigin allowedOrigins)

/-- The token of the header, or else of the query. -/
def providedCsrfToken (request : Request) : Option Text :=
  match request.xCsrfToken with
  | some token => some token
  | none => request.csrfTokenQuery

def validateCsrfToken (request : Request) (clientId : Text) (host : Host Other Stats) :
    Host Other Stats × Option Response :=
  if allowedHeader host.content.csrfAllowedOrigins request.origin then (host, none)
  else if allowedHeader host.content.csrfAllowedOrigins request.referer then (host, none)
  else if request.origin = none ∧ request.referer = none then (host, none)
  else
    match providedCsrfToken request with
    | none => (host, some (.badRequest "Missing CSRF token"))
    | some token => validateStoredCsrfToken now clientId token host

/-! ## What the checks leave -/

theorem authenticate_content (request : Request) (host : Host Other Stats) :
    (authenticate lib now request host).1.content = host.content ∧
      (authenticate lib now request host).1.csrfTokens = host.csrfTokens := by
  rw [authenticate]
  split
  · exact ⟨rfl, rfl⟩
  · simp only
    split
    · exact ⟨rfl, rfl⟩
    · split
      · exact ⟨rfl, rfl⟩
      · split
        · exact ⟨rfl, rfl⟩
        · split
          · exact ⟨rfl, rfl⟩
          · split <;> exact ⟨rfl, rfl⟩

theorem requireScope_content (request : Request) (scope : ApiScope) (host : Host Other Stats) :
    (requireScope lib now request scope host).1.content = host.content ∧
      (requireScope lib now request scope host).1.csrfTokens = host.csrfTokens := by
  have kept := authenticate_content lib now request host
  rw [requireScope]
  generalize authenticate lib now request host = result at kept ⊢
  obtain ⟨after, outcome⟩ := result
  cases outcome <;> exact kept

theorem validateCsrfToken_content (request : Request) (clientId : Text) (host : Host Other Stats) :
    (validateCsrfToken now request clientId host).1.content = host.content := by
  rw [validateCsrfToken]
  split_ifs
  · rfl
  · rfl
  · rfl
  · cases providedCsrfToken request with
    | none => rfl
    | some token =>
      simp only [validateStoredCsrfToken]
      cases host.csrfTokens.lookup clientId with
      | none => rfl
      | some stored =>
        simp only
        split_ifs <;> rfl

/-! ## Allowed origins and valid tokens -/

/-- The url is an allowed origin, with a port or a path behind it or nothing. -/
def AllowedOrigin (allowedOrigins : List Text) (url : Text) : Prop :=
  ∃ origin ∈ allowedOrigins, ∃ rest, url = origin ++ rest ∧ (rest = [] ∨ rest.head? = some ':' ∨ rest.head? = some '/')

theorem isAllowedOrigin_iff (allowedOrigins : List Text) (url : Text) :
    isAllowedOrigin allowedOrigins url = true ↔ AllowedOrigin allowedOrigins url := by
  rw [isAllowedOrigin, List.any_eq_true, AllowedOrigin]
  refine exists_congr fun origin => and_congr_right fun _ => ?_
  have next (rest : Text) : (origin ++ rest)[origin.length]? = rest.head? := by
    rw [List.getElem?_append_right le_rfl, Nat.sub_self, List.head?_eq_getElem?]
  rw [Bool.and_eq_true, List.isPrefixOf_iff_prefix]
  constructor
  · rintro ⟨⟨rest, rfl⟩, behind⟩
    refine ⟨rest, rfl, ?_⟩
    rw [next] at behind
    simpa [or_assoc] using behind
  · rintro ⟨rest, rfl, behind⟩
    refine ⟨List.prefix_append origin rest, ?_⟩
    rw [next]
    simpa [or_assoc] using behind

/-- The request carries the token that is stored for its client and has not expired. -/
def ValidCsrfToken (request : Request) (host : Host Other Stats) : Prop :=
  ∃ token stored, providedCsrfToken request = some token ∧
    host.csrfTokens.lookup (getClientId lib request host.content) = some stored ∧
    ¬ stored.expiration < now ∧ stored.token = token

/-- A request from a page: it has an `Origin` or a `Referer`, and none of them is allowed. -/
structure Foreign (request : Request) (content : Content Other) : Prop where
  present : request.origin ≠ none ∨ request.referer ≠ none
  origin : ∀ url, request.origin = some url → ¬ AllowedOrigin content.csrfAllowedOrigins url
  referer : ∀ url, request.referer = some url → ¬ AllowedOrigin content.csrfAllowedOrigins url

theorem allowedHeader_eq_false (allowedOrigins : List Text) (header : Option Text)
    (foreign : ∀ url, header = some url → ¬ AllowedOrigin allowedOrigins url) :
    allowedHeader allowedOrigins header = false := by
  cases header with
  | none => rfl
  | some url =>
    rw [allowedHeader, Option.any_some, Bool.eq_false_iff]
    exact fun allowed => foreign url rfl ((isAllowedOrigin_iff allowedOrigins url).mp allowed)

/-- A request of another page is refused without a valid token. -/
theorem validateCsrfToken_refused (request : Request) (host : Host Other Stats)
    (foreign : Foreign request host.content) (invalid : ¬ ValidCsrfToken lib now request host) :
    (validateCsrfToken now request (getClientId lib request host.content) host).2 ≠ none := by
  rw [validateCsrfToken, allowedHeader_eq_false _ _ foreign.origin, allowedHeader_eq_false _ _ foreign.referer,
    if_neg Bool.false_ne_true, if_neg Bool.false_ne_true,
    if_neg fun absent => foreign.present.elim (· absent.1) (· absent.2)]
  cases provided : providedCsrfToken request with
  | none => simp
  | some token =>
    simp only [validateStoredCsrfToken]
    cases stored : host.csrfTokens.lookup (getClientId lib request host.content) with
    | none => simp
    | some entry =>
      simp only
      by_cases expired : entry.expiration < now
      · simp [expired]
      · have mismatch : entry.token ≠ token := fun same => invalid ⟨token, entry, provided, stored, expired, same⟩
        simp [expired, mismatch]

end Checks

end Sunshine.Web
