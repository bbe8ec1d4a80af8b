import Sunshine.Web.Requests

/-! The routes of the web interface with a method that may change something, and their handlers.

What a handler does behind its checks is a parameter where it makes the CSRF check first; the handlers that do not are
written out. `handle_foreign` is about all routes with the check. -/
namespace Sunshine.Web
open Config Tokens
set_option autoImplicit false

/-! ## Routes -/

inductive Route where
  | saveApp
  | closeApp
  | deleteApp
  | updateClient
  | unpair
  | unpairAll
  | saveConfig
  | uploadCover
  | savePassword
  | savePin
  | createToken
  | deleteToken
  | postNetworkStats
  | resetDisplayDevicePersistence
  | restart
  | startUpdate
  | applyUpdate
  | cancelUpdate
  | installViGEmBus
  | badRequest
  deriving DecidableEq

def wordCharacter (ch : Char) : Bool := ch.isAlphanum || ch = '_' || ch = '-'

/-- The path is the front and a name of such characters. -/
def namedPath (front : String) (p : Char → Bool) (path : Text) : Bool :=
  front.toList.isPrefixOf path && path.drop front.length ≠ [] && (path.drop front.length).all p

/-- The routes of these methods, and the default of each. -/
def route (method : Method) (path : Text) : Route :=
  match method with
  | .post =>
    if path = "/api/apps".toList then .saveApp
    else if path = "/api/apps/close".toList then .closeApp
    else if path = "/api/clients/unpair".toList then .unpair
    else if path = "/api/clients/unpair-all".toList then .unpairAll
    else if path = "/api/clients/update".toList then .updateClient
    else if path = "/api/config".toList then .saveConfig
    else if path = "/api/covers/upload".toList then .uploadCover
    else if path = "/api/password".toList then .savePassword
    else if path = "/api/pin".toList then .savePin
    else if path = "/api/tokens".toList then .createToken
    else if path = "/api/stream/network-stats".toList then .postNetworkStats
    else if path = "/api/reset-display-device-persistence".toList then .resetDisplayDevicePersistence
    else if path = "/api/restart".toList then .restart
    else if path = "/api/update/start".toList then .startUpdate
    else if path = "/api/update/apply".toList then .applyUpdate
    else if path = "/api/update/cancel".toList then .cancelUpdate
    else if path = "/api/vigembus/install".toList then .installViGEmBus
    else .badRequest
  | .delete =>
    if namedPath "/api/apps/" Char.isDigit path then .deleteApp
    else if namedPath "/api/tokens/" wordCharacter path then .deleteToken
    else .badRequest
  | .put => .badRequest

/-! ## Handlers -/

structure CoverInput where
  key : Text
  url : Text
  data : Text

/-- What the handlers make of a body, of an url and of random bytes, and what the others do behind their checks. A
download that fails may have written a part of the file. -/
structure Services (Other Stats : Type) where
  lib : Library
  parseCover : Text → Option CoverInput
  parseToken : Text → Body
  parseStats : Text → Except String Stats
  urlEscape : Text → Text
  urlGetHost : Text → Text
  downloadFile : Text → Option (List UInt8 × Bool)
  decodeData : Text → List UInt8
  plainRaw : List UInt8
  saltRaw : List UInt8
  saveApp : Request → Content Other → Content Other × Response
  deleteApp : Request → Content Other → Content Other × Response
  updateClient : Request → Content Other → Content Other × Response
  unpair : Request → Content Other → Content Other × Response
  saveConfig : Request → Content Other → Content Other × Response
  savePassword : Request → Content Other → Content Other × Response
  savePin : Request → Content Other → Content Other × Response
  resetDisplayDevicePersistence : Request → Content Other → Content Other × Response
  restart : Request → Content Other → Content Other × Response
  startUpdate : Request → Content Other → Content Other × Response
  applyUpdate : Request → Content Other → Content Other × Response
  cancelUpdate : Request → Content Other → Content Other × Response
  installViGEmBus : Request → Content Other → Content Other × Response

section Handlers

variable {Other Stats : Type} (services : Services Other Stats) (now : ℕ)

def json : Text := "application/json".toList

def requireScopeIfAny (scope : Option ApiScope) (request : Request) (host : Host Other Stats) :
    Host Other Stats × Option Response :=
  match scope with
  | none => (host, none)
  | some scope => requireScope services.lib now request scope host

/-- The CSRF token of the client, and then the rest of the handler. -/
def csrfChecked (behind : Request → Content Other → Content Other × Response) (request : Request)
    (host : Host Other Stats) : Host Other Stats × Response :=
  match validateCsrfToken now request (getClientId services.lib request host.content) host with
  | (host, some response) => (host, response)
  | (host, none) =>
    let (content, response) := behind request host.content
    ({ host with content := content }, response)

def authorized (scope : Option ApiScope) (behind : Request → Content Other → Content Other × Response)
    (request : Request) (host : Host Other Stats) : Host Other Stats × Response :=
  match requireScopeIfAny services now scope request host with
  | (host, some response) => (host, response)
  | (host, none) => csrfChecked services now behind request host

/-- A handler of a JSON body. -/
def jsonHandler (scope : Option ApiScope) (behind : Request → Content Other → Content Other × Response)
    (request : Request) (host : Host Other Stats) : Host Other Stats × Response :=
  match checkContentType request json with
  | some response => (host, response)
  | none => authorized services now scope behind request host

def saveApp : Request → Host Other Stats → Host Other Stats × Response :=
  jsonHandler services now (some .configSet) services.saveApp

def closeApp : Request → Host Other Stats → Host Other Stats × Response :=
  authorized services now (some .appsClose) fun _ content => ({ content with appRunning := false }, .success)

def deleteApp : Request → Host Other Stats → Host Other Stats × Response :=
  authorized services now (some .configSet) services.deleteApp

def updateClient : Request → Host Other Stats → Host Other Stats × Response :=
  jsonHandler services now (some .star) services.updateClient

def unpair : Request → Host Other Stats → Host Other Stats × Response :=
  jsonHandler services now (some .clientsUnpair) services.unpair

def unpairAll : Request → Host Other Stats → Host Other Stats × Response :=
  authorized services now (some .clientsUnpair) fun _ content =>
    ({ content with clients := [], appRunning := false }, .success)

def saveConfig : Request → Host Other Stats → Host Other Stats × Response :=
  jsonHandler services now (some .configSet) services.saveConfig

/-- Without credentials the first user may set them. -/
def savePassword (request : Request) (host : Host Other Stats) : Host Other Stats × Response :=
  jsonHandler services now (if host.content.username = [] then none else some .star) services.savePassword request host

def savePin : Request → Host Other Stats → Host Other Stats × Response :=
  jsonHandler services now (some .clientsPair) services.savePin

def resetDisplayDevicePersistence : Request → Host Other Stats → Host Other Stats × Response :=
  authorized services now (some .displayReset) services.resetDisplayDevicePersistence

def restart : Request → Host Other Stats → Host Other Stats × Response :=
  authorized services now (some .star) services.restart

def startUpdate : Request → Host Other Stats → Host Other Stats × Response :=
  authorized services now (some .star) services.startUpdate

def applyUpdate : Request → Host Other Stats → Host Other Stats × Response :=
  authorized services now (some .star) services.applyUpdate

def cancelUpdate : Request → Host Other Stats → Host Other Stats × Response :=
  authorized services now (some .configSet) services.cancelUpdate

def installViGEmBus : Request → Host Other Stats → Host Other Stats × Response :=
  authorized services now (some .star) services.installViGEmBus

/-! ### Handlers without the CSRF check -/

def validCoverKey (key : Text) : Bool :=
  key ≠ [] && !key.contains '/' && !key.tails.any ("..".toList.isPrefixOf ·) && !key.contains '\x00'

/-- The covers with the picture of the key; a file that is there is replaced. -/
def writeCover (path : Text) (data : List UInt8) (content : Content Other) : Content Other :=
  { content with covers := (path, data) :: content.covers.filter (·.1 ≠ path) }

def storeCover (body : Text) (content : Content Other) : Content Other × Response :=
  match services.parseCover body with
  | none => (content, .badRequest "")
  | some input =>
    if !validCoverKey input.key then (content, .badRequest "Invalid cover key")
    else
      let path := services.urlEscape input.key ++ ".png".toList
      if input.url ≠ [] then
        if services.urlGetHost input.url ≠ "images.igdb.com".toList then
          (content, .badRequest "Only images.igdb.com is allowed")
        else
          match services.downloadFile input.url with
          | none => (content, .badRequest "Failed to download cover")
          | some (data, success) =>
            (writeCover path data content, if success then .success else .badRequest "Failed to download cover")
      else (writeCover path (services.decodeData input.data) content, .success)

def uploadCover (request : Request) (host : Host Other Stats) : Host Other Stats × Response :=
  match checkContentType request json with
  | some response => (host, response)
  | none =>
    match requireScope services.lib now request .configSet host with
    | (host, some response) => (host, response)
    | (host, none) =>
      let (content, response) := storeCover services request.content host.content
      ({ host with content := content }, response)

def refusal : Refused → Response
  | .badRequest message => .badRequest message
  | .typeError => .badRequest ""

/-- The token goes to the log and to the client only. -/
def createTokenHandler (request : Request) (host : Host Other Stats) : Host Other Stats × Response :=
  match requireScope services.lib now request .tokensManage host with
  | (host, some response) => (host, response)
  | (host, none) =>
    match createToken services.lib.hash host.content.apiTokens (services.parseToken request.content)
        services.plainRaw services.saltRaw with
    | .error refused => (host, refusal refused)
    | .ok _ => (host, .success)

def lastComponent (path : Text) : Text := path.rtakeWhile (· ≠ '/')

def deleteToken (request : Request) (host : Host Other Stats) : Host Other Stats × Response :=
  match requireScope services.lib now request .tokensManage host with
  | (host, some response) => (host, response)
  | (host, none) =>
    let name := lastComponent request.path
    if host.content.apiTokens.any (·.name = name) then
      ({ host with
        content := { host.content with apiTokens := host.content.apiTokens.eraseP (·.name = name) } }, .success)
    else (host, .notFound)

def postNetworkStats (request : Request) (host : Host Other Stats) : Host Other Stats × Response :=
  match requireScope services.lib now request .logsGet host with
  | (host, some response) => (host, response)
  | (host, none) =>
    match services.parseStats request.content with
    | .error message => (host, .badRequest message)
    | .ok stats => ({ host with netStats := some stats }, .success)

def dispatch (route : Route) : Request → Host Other Stats → Host Other Stats × Response :=
  match route with
  | .saveApp => saveApp services now
  | .closeApp => closeApp services now
  | .deleteApp => deleteApp services now
  | .updateClient => updateClient services now
  | .unpair => unpair services now
  | .unpairAll => unpairAll services now
  | .saveConfig => saveConfig services now
  | .uploadCover => uploadCover services now
  | .savePassword => savePassword services now
  | .savePin => savePin services now
  | .createToken => createTokenHandler services now
  | .deleteToken => deleteToken services now
  | .postNetworkStats => postNetworkStats services now
  | .resetDisplayDevicePersistence => resetDisplayDevicePersistence services now
  | .restart => restart services now
  | .startUpdate => startUpdate services now
  | .applyUpdate => applyUpdate services now
  | .cancelUpdate => cancelUpdate services now
  | .installViGEmBus => installViGEmBus services now
  | .badRequest => fun _ host => (host, .badRequest "")

def handle (request : Request) (host : Host Other Stats) : Host Other Stats × Response :=
  dispatch services now (route request.method request.path) request host

/-! ## Requests of other pages -/

section Foreign

variable (request : Request) (host : Host Other Stats)

theorem csrfChecked_foreign (behind : Request → Content Other → Content Other × Response)
    (foreign : Foreign request host.content) (invalid : ¬ ValidCsrfToken services.lib now request host) :
    (csrfChecked services now behind request host).1.content = host.content := by
  have refused := validateCsrfToken_refused services.lib now request host foreign invalid
  have kept := validateCsrfToken_content now request (getClientId services.lib request host.content) host
  rw [csrfChecked]
  generalize validateCsrfToken now request (getClientId services.lib request host.content) host = result
    at refused kept ⊢
  obtain ⟨after, answer⟩ := result
  cases answer with
  | none => exact absurd rfl refused
  | some response => exact kept

theorem requireScopeIfAny_content (scope : Option ApiScope) :
    (requireScopeIfAny services now scope request host).1.content = host.content ∧
      (requireScopeIfAny services now scope request host).1.csrfTokens = host.csrfTokens := by
  cases scope with
  | none => exact ⟨rfl, rfl⟩
  | some scope => exact requireScope_content services.lib now request scope host

theorem authorized_foreign (scope : Option ApiScope)
    (behind : Request → Content Other → Content Other × Response) (foreign : Foreign request host.content)
    (invalid : ¬ ValidCsrfToken services.lib now request host) :
    (authorized services now scope behind request host).1.content = host.content := by
  have kept := requireScopeIfAny_content services now request host scope
  rw [authorized]
  generalize requireScopeIfAny services now scope request host = result at kept ⊢
  obtain ⟨after, answer⟩ := result
  obtain ⟨content, tokens⟩ : after.content = host.content ∧ after.csrfTokens = host.csrfTokens := kept
  cases answer with
  | some response => exact content
  | none =>
    -- the content and the tokens are still the same in front of the CSRF check
    have still : ¬ ValidCsrfToken services.lib now request after := by
      rw [ValidCsrfToken, content, tokens]
      exact invalid
    exact (csrfChecked_foreign services now request after behind (by rw [content]; exact foreign) still).trans content

theorem jsonHandler_foreign (scope : Option ApiScope)
    (behind : Request → Content Other → Content Other × Response) (foreign : Foreign request host.content)
    (invalid : ¬ ValidCsrfToken services.lib now request host) :
    (jsonHandler services now scope behind request host).1.content = host.content := by
  rw [jsonHandler]
  cases checkContentType request json with
  | some response => rfl
  | none => exact authorized_foreign services now request host scope behind foreign invalid

/-- A token is created without a change to the host. -/
theorem createTokenHandler_content : (createTokenHandler services now request host).1.content = host.content := by
  have kept := (requireScope_content services.lib now request .tokensManage host).1
  rw [createTokenHandler]
  generalize requireScope services.lib now request .tokensManage host = result at kept ⊢
  obtain ⟨after, outcome⟩ := result
  cases outcome with
  | some response => exact kept
  | none =>
    simp only
    split <;> exact kept

theorem postNetworkStats_content : (postNetworkStats services now request host).1.content = host.content := by
  have kept := (requireScope_content services.lib now request .logsGet host).1
  rw [postNetworkStats]
  generalize requireScope services.lib now request .logsGet host = result at kept ⊢
  obtain ⟨after, outcome⟩ := result
  cases outcome with
  | some response => exact kept
  | none =>
    simp only
    split <;> exact kept

/-- A request with these methods from another page, without a valid token: all handlers but those of covers and of a
token that is deleted leave the content of the host as it was. -/
theorem handle_foreign (foreign : Foreign request host.content)
    (invalid : ¬ ValidCsrfToken services.lib now request host)
    (checked : route request.method request.path ≠ .uploadCover ∧ route request.method request.path ≠ .deleteToken) :
    (handle services now request host).1.content = host.content := by
  rw [handle]
  cases target : route request.method request.path with
  | uploadCover => exact absurd target checked.1
  | deleteToken => exact absurd target checked.2
  | badRequest => rfl
  | createToken => exact createTokenHandler_content services now request host
  | postNetworkStats => exact postNetworkStats_content services now request host
  | saveApp | updateClient | unpair | saveConfig | savePassword | savePin =>
    exact jsonHandler_foreign services now request host _ _ foreign invalid
  | closeApp | deleteApp | unpairAll | resetDisplayDevicePersistence | restart | startUpdate | applyUpdate
  | cancelUpdate | installViGEmBus => exact authorized_foreign services now request host _ _ foreign invalid

end Foreign

end Handlers

/-! ## Requests that pass -/

namespace OtherPage

/-- The digest of the password and the salt. -/
def digest : List UInt8 := [101, 39, 201, 54, 26, 47, 70, 156, 82, 117, 175, 203, 93, 6, 229, 48, 19, 54, 124, 210, 49, 153, 93, 225, 61, 199, 33, 135, 17, 56, 131, 130]

def services : Services Unit Unit where
  lib := ⟨fun _ => false, fun _ => "u:p".toList, fun _ => digest⟩
  parseCover _ := some ⟨['k'], [], ['d']⟩
  parseToken _ := .invalid
  parseStats _ := .error ""
  urlEscape text := text
  urlGetHost text := text
  downloadFile _ := none
  decodeData _ := [1]
  plainRaw := []
  saltRaw := []
  saveApp _ content := (content, .success)
  deleteApp _ content := (content, .success)
  updateClient _ content := (content, .success)
  unpair _ content := (content, .success)
  saveConfig _ content := (content, .success)
  savePassword _ content := (content, .success)
  savePin _ content := (content, .success)
  resetDisplayDevicePersistence _ content := (content, .success)
  restart _ content := (content, .success)
  startUpdate _ content := (content, .success)
  applyUpdate _ content := (content, .success)
  cancelUpdate _ content := (content, .success)
  installViGEmBus _ content := (content, .success)

def host : Host Unit Unit where
  content :=
    { configFile := [], csrfAllowedOrigins := ["https://localhost".toList], appsFile := [], covers := []
      apiTokens := [⟨['t'], ['h'], ['s'], [.star]⟩], clients := [['c']], username := ['u']
      password := utilHex digest, salt := ['s'], appRunning := true, other := () }
  csrfTokens := []
  loginFailures := []
  netStats := none

/-- A request of the browser of the administrator, sent by another page. -/
def request (method : Method) (path : String) (referer : Option Text) : Request :=
  ⟨method, path.toList, [], some "https://evil".toList, referer, none, none, some json, some "Basic dTpw".toList, []⟩

theorem request_foreign (method : Method) (path : String) : Foreign (request method path none) host.content where
  present := Or.inl (by simp [request])
  origin url same := by
    obtain rfl := Option.some.inj same
    rw [← isAllowedOrigin_iff]
    decide
  referer url same := by cases same

theorem request_invalid (method : Method) (path : String) (referer : Option Text) :
    ¬ ValidCsrfToken services.lib 0 (request method path referer) host := by
  rintro ⟨token, stored, provided, -⟩
  cases provided

/-- All clients stay paired. -/
theorem handle_foreign_unpairAll :
    (handle services 0 (request .post "/api/clients/unpair-all" none) host).1.content.clients = [['c']] :=
  congrArg Content.clients (handle_foreign services 0 (request .post "/api/clients/unpair-all" none) host
    (request_foreign .post "/api/clients/unpair-all") (request_invalid .post "/api/clients/unpair-all" none)
    (by decide))

/-- With a foreign origin and without a token: a request with an allowed referer unpairs all clients, a cover is
stored and a token is deleted. -/
theorem foreign_passes :
    isAllowedOrigin host.content.csrfAllowedOrigins "https://evil".toList = false ∧
      (handle services 0 (request .post "/api/clients/unpair-all" (some "https://localhost/".toList))
        host).1.content.clients = [] ∧
      (handle services 0 (request .post "/api/covers/upload" none) host).1.content.covers =
        [("k.png".toList, [1])] ∧
      (handle services 0 (request .delete "/api/tokens/t" none) host).1.content.apiTokens = [] := by
  decide +kernel

end OtherPage

end Sunshine.Web
