import OptionX.IntradeBar.TradeHistory
import OptionX.TradingView.Json

/-!
# Login redirects

`follow_login_redirect` of `RequestManager.hpp`, and what it uses of `http_parsers.hpp` to split and classify redirect
targets. Cookies, page checks and the texts of HTTP errors are parameters, as are the answers of the server.
-/

namespace OptionX.IntradeBar

open Lib.Strings (cut)
open TradingView (text)

/-! ## Origins -/

def slash : UInt8 := 47

/-- `"://"`. -/
def schemeMark : Text := [58, slash, slash]

/-- What ends an authority: a slash, a question mark or a number sign. -/
def isDelimiter (c : UInt8) : Bool := c = slash || c = 63 || c = 35

def parseLoginRedirectOrigin (redirectUrl : Text) : Option Text :=
  match cut schemeMark redirectUrl with
  | none => none
  | some (scheme, rest) =>
    let authority := (rest.drop schemeMark.length).takeWhile (!isDelimiter ·)
    if scheme = [] ∨ authority = [] then none else some (scheme ++ schemeMark ++ authority)

/-- Case folding of the expressions, which are ASCII. -/
def foldCase (c : UInt8) : UInt8 := if 65 ≤ c ∧ c ≤ 90 then c + 32 else c

def isDigit (c : UInt8) : Bool := 48 ≤ c && c ≤ 57

/-- `"https://intrade"`, digits, `".bar"`, in any case. -/
def isNumberedIntradeOrigin (origin : Text) : Bool :=
  let folded := origin.map foldCase
  let index := (folded.drop 15).dropLast.dropLast.dropLast.dropLast
  index ≠ [] && index.all isDigit && folded = text "https://intrade" ++ index ++ text ".bar"

def isAllowedIntradeRedirectOrigin (origin : Text) : Bool :=
  origin.map foldCase = text "https://intrade.bar" || isNumberedIntradeOrigin origin

inductive IntradeLoginOrigin where
  | legacy | modernUnsupported | unknown
  deriving DecidableEq, Repr

def isModernIntradeOrigin (origin : Text) : Bool := origin.map foldCase = text "https://trading.intrade.bar"

def classifyIntradeLoginOrigin (origin : Text) : IntradeLoginOrigin :=
  if isAllowedIntradeRedirectOrigin origin then .legacy
  else if isModernIntradeOrigin origin then .modernUnsupported
  else .unknown

structure LoginRedirectTarget where
  path : Text
  origin : Option Text

def resolveLoginRedirectTarget (redirectUrl : Text) : Option LoginRedirectTarget :=
  match parseLoginRedirectOrigin redirectUrl with
  | none => if (cut schemeMark redirectUrl).isSome then none else some ⟨redirectUrl, none⟩
  | some origin =>
    let afterScheme := ((cut schemeMark redirectUrl).elim [] (·.2)).drop schemeMark.length
    -- the search for the path passes over a query
    let path := afterScheme.dropWhile (· ≠ slash)
    some ⟨if path = [] then [slash] else path, some origin⟩

/-! ## Responses -/

structure HttpResponse where
  statusCode : Int
  errorCode : Bool
  location : Option Text
  setCookies : List Text
  content : Text

/-- What the redirect chain asks of cookies and pages. -/
structure LoginTools where
  mergeSetCookies : Text → List Text → Text
  hasCookie : Text → Text → Bool
  parseCookies : Text → Option (Text × Text)
  describeCookieNames : Text → Text
  isModernIntradeLandingPage : Text → Bool
  validateDdosProtection : HttpResponse → Bool
  describeResponseError : HttpResponse → Text

inductive LoginRedirectResponseAnalysis where
  | follow (nextOrigin : Text) (nextTarget : LoginRedirectTarget) (location cookies : Text)
  | completeLegacy (cookies : Text)
  | unsupportedModern (reason : Text)
  | failure (reason : Text)

variable (tools : LoginTools)

def isAuthenticatedModernIntradeSession (origin cookies : Text) : Bool :=
  classifyIntradeLoginOrigin origin = .modernUnsupported && tools.hasCookie cookies (text "PHPSESSID")

/-- The answer to a redirect status. -/
def analyzeLocation (response : HttpResponse) (origin requestCookies : Text) : LoginRedirectResponseAnalysis :=
  match response.location with
  | none | some [] => .failure (text "Login redirect response had no Location header.")
  | some (c :: rest) =>
    match resolveLoginRedirectTarget (c :: rest) with
    | none => .failure (text "Malformed login redirect URL.")
    | some nextTarget =>
      let nextOrigin := nextTarget.origin.getD origin
      if nextTarget.origin.isSome && classifyIntradeLoginOrigin nextOrigin = .unknown then
        .failure (text "Rejected login redirect origin.")
      else .follow nextOrigin nextTarget (c :: rest) (tools.mergeSetCookies requestCookies response.setCookies)

def analyzeLoginRedirectResponse (response : Option HttpResponse) (origin requestCookies : Text) :
    LoginRedirectResponseAnalysis :=
  match response with
  | none => .failure (text "No response received from the server.")
  | some response =>
    if 300 ≤ response.statusCode && response.statusCode < 400 && !response.errorCode then
      analyzeLocation tools response origin requestCookies
    else if response.errorCode || response.statusCode ≠ 200 then .failure (tools.describeResponseError response)
    else if !tools.validateDdosProtection response then .failure (text "DDoS protection detected.")
    else
      let cookies := tools.mergeSetCookies requestCookies response.setCookies
      if isAuthenticatedModernIntradeSession tools origin cookies then
        .unsupportedModern (text ("Unsupported Intrade account: accounts created on " ++
          "trading.intrade.bar are not supported by this API."))
      else if classifyIntradeLoginOrigin origin = .modernUnsupported then
        .failure (text "Failed to parse login cookies.")
      else .completeLegacy cookies

/-! ## The chain -/

/-- A request with session cookies, and the URL or location text from which it was resolved. -/
structure LoginRequest where
  origin : Text
  path : Text
  cookies : Text
  target : Text

structure LoginResult where
  success : Bool
  userId : Text := []
  userHash : Text := []
  cookies : Text := []
  reason : Text := []

/-- The open request as its response callback captures it. -/
structure OpenRedirect where
  origin : Text
  requestCookies : Text
  redirectCount : Nat

/-- The hosts that the client and the API use. -/
structure Hosts where
  clientHost : Text
  clientOrigin : Text
  clientReferer : Text
  apiHost : Text

/-- The requests made, the open one, and the calls of the callback. -/
structure LoginState extends Hosts where
  requests : List LoginRequest := []
  pending : Option OpenRedirect := none
  calls : List LoginResult := []

/-- The captured arguments of `follow_login_redirect`. -/
structure LoginRedirect where
  tools : LoginTools
  originalHost : Text
  redirectUrl : Text
  cookies : Text
  userId : Text

namespace LoginRedirect

variable (login : LoginRedirect) (state : LoginState)

def originFromHost (host : Text) : Text := (parseLoginRedirectOrigin host).getD (host.rdropWhile (· = slash))

def restore : LoginState :=
  if login.originalHost = [] then state
  else
    { state with
      clientHost := login.originalHost
      clientOrigin := login.originalHost
      clientReferer := login.originalHost ++ [slash]
      apiHost := login.originalHost }

def call (result : LoginResult) : LoginState := { state with calls := state.calls ++ [result] }

def fail (reason : Text) : LoginState := call (login.restore state) { success := false, reason }

/-- The redirect handler. -/
def handler (origin path requestCookies target : Text) (redirectCount : Nat) : LoginState :=
  if redirectCount > 5 then login.fail state (text "Too many login redirects.")
  else
    { state with
      clientHost := origin
      clientOrigin := origin
      clientReferer := origin ++ text "/login"
      requests := state.requests ++ [⟨origin, path, requestCookies, target⟩]
      pending := some ⟨origin, requestCookies, redirectCount⟩ }

/-- The result of a chain that ended on a legacy origin. -/
def legacyResult (origin cookies : Text) (response : Option HttpResponse) : LoginResult :=
  match login.tools.parseCookies cookies with
  | some (userId, userHash) => { success := true, userId, userHash, cookies }
  | none =>
    if login.tools.hasCookie cookies (text "PHPSESSID") then { success := true, userId := login.userId, cookies }
    else
      let returnedPublicLanding := response.any fun response => login.tools.isModernIntradeLandingPage response.content
      { success := false
        reason := (if returnedPublicLanding then
            text "Login redirect returned a public landing page instead of an authenticated session; "
          else text "Failed to parse login cookies; ") ++
          text "origin=" ++ origin ++
          text ", status=" ++ text (toString (response.elim (-1) (·.statusCode))) ++
          text ", body_bytes=" ++ text (toString (response.elim 0 (·.content.length))) ++
          text ", cookie_names=" ++ login.tools.describeCookieNames cookies }

/-- The callback of the open request. -/
def onResponse (opened : OpenRedirect) (response : Option HttpResponse) : LoginState :=
  let state := { state with pending := none }
  match analyzeLoginRedirectResponse login.tools response opened.origin opened.requestCookies with
  | .failure reason | .unsupportedModern reason => login.fail state reason
  | .follow nextOrigin nextTarget location cookies =>
      login.handler state nextOrigin nextTarget.path cookies location (opened.redirectCount + 1)
  | .completeLegacy cookies => call (login.restore state) (login.legacyResult opened.origin cookies response)

/-- `follow_login_redirect` up to its first request. -/
def start (hosts : Hosts) : LoginState :=
  let state : LoginState := { toHosts := hosts }
  match resolveLoginRedirectTarget login.redirectUrl with
  | none => call state { success := false, reason := text "Malformed login redirect URL." }
  | some target =>
    let initialOrigin := target.origin.getD (originFromHost login.originalHost)
    if target.origin.isSome && classifyIntradeLoginOrigin initialOrigin = .unknown then
      call state { success := false, reason := text "Rejected login redirect origin." }
    else login.handler state initialOrigin target.path login.cookies login.redirectUrl 0

/-- The server answers the open request, as it likes after the requests so far. -/
def step (respond : List LoginRequest → Option HttpResponse) (state : LoginState) : LoginState :=
  match state.pending with
  | none => state
  | some opened => login.onResponse state opened (respond state.requests)

/-- The state after so many answers. -/
def run (hosts : Hosts) (respond : List LoginRequest → Option HttpResponse) (n : Nat) : LoginState :=
  (login.step respond)^[n] (login.start hosts)

end LoginRedirect

end OptionX.IntradeBar
