/-
  Kaguya.Web.Server — the web frontend (`web/src/main.rs`), with its client of the OIDC
  provider (`oidc.rs`) and of the auth service (`authsvc.rs`): the two tables of the
  store, and each handler as a program over the calls it makes. A method of the store is
  one call: it holds its table's mutex from its first read of the clock to its last.

  The clock is the system's, in seconds, and the arithmetic on it that of a release
  build: 64 bits, wrapping. URLs, base64 and SHA-256 are other crates', a parameter.

  What the handlers log is left out.
-/

import Kaguya.Auth.Service
import Kaguya.Lib.Dict

namespace Kaguya.Web.Server

open Kaguya.Lib (Prog Dict)
open Kaguya.Auth.Service (UserToken)

/-! ## The store -/

/-- `now`: a clock before the epoch reads zero. -/
def now (clock : Int64) : Int64 := if 0 ≤ clock then clock else 0

/-- Seconds a login may stay in flight. -/
def pendingTtl : Int64 := 600

structure Session where
  token : String
  userName : String
  sub : String
  expiresAt : Int64
  deriving DecidableEq

structure Pending where
  verifier : String
  expiresAt : Int64
  deriving DecidableEq

structure Store where
  sessions : Dict String Session
  pending : Dict String Pending

namespace Store

/-- `Store::default` -/
def empty : Store := ⟨Dict.empty, Dict.empty⟩

/-- The sweep reads the clock for each entry it looks at (`swept`), and the entry itself
    is dated by a last reading. -/
def startLogin (s : Store) (swept : String → Int64) (clock : Int64) (state verifier : String) : Store :=
  let m := s.pending.retain fun k p => decide (now (swept k) < p.expiresAt)
  { s with pending := m.insert state ⟨verifier, now clock + pendingTtl⟩ }

/-- The entry goes, expired or not. -/
def takePending (s : Store) (clock : Int64) (state : String) : Option String × Store :=
  (((s.pending.get state).filter fun p => decide (now clock < p.expiresAt)).map (·.verifier),
    { s with pending := s.pending.remove state })

def create (s : Store) (swept : String → Int64) (id : String) (session : Session) : Store :=
  let m := s.sessions.retain fun k e => decide (now (swept k) < e.expiresAt)
  { s with sessions := m.insert id session }

/-- `(token, user_name, sub)` of a live session. -/
def get (s : Store) (clock : Int64) (id : String) : Option (String × String × String) :=
  ((s.sessions.get id).filter fun e => decide (now clock < e.expiresAt)).map fun e => (e.token, e.userName, e.sub)

def remove (s : Store) (id : String) : Store := { s with sessions := s.sessions.remove id }

end Store

/-! ## Other crates -/

structure Crates where
  /-- `URL_SAFE_NO_PAD.encode` -/
  base64url : List UInt8 → String
  sha256 : List UInt8 → List UInt8
  /-- `Url::parse` -/
  parseUrl : String → Except String String
  /-- `query_pairs_mut().append_pair` -/
  appendPair : String → String → String → String

/-! ## Calls -/

structure Discovery where
  authorizationEndpoint : String
  tokenEndpoint : String

structure TokenResponse where
  idToken : String

structure RepoSummary where
  id : String
  name : String
  description : String
  defaultBranch : String

/-- An HTTP request answers with a body that is read, one that is not, or not at all. -/
abbrev Fetched (α : Type) := Except String (Except String α)

inductive Call where
  /-- `rand::random::<u128>()` -/
  | randomU128
  /-- `rand::random::<[u8; 32]>()` -/
  | randomBytes
  | now
  | startLogin (state verifier : String)
  | takePending (state : String)
  | createSession (id : String) (session : Session)
  | getSession (id : String)
  | removeSession (id : String)
  | getDiscovery (url : String)
  | postToken (url : String) (form : List (String × String))
  | connectAuth
  | exchangeExternal (externalToken tokenType : String)
  | listRepos (token : String)

@[reducible] def Call.Ans : Call → Type
  | randomU128 => BitVec 128
  | randomBytes => Vector UInt8 32
  | now => Int64
  | startLogin .. | createSession .. | removeSession _ => Unit
  | takePending _ => Option String
  | getSession _ => Option (String × String × String)
  | getDiscovery _ => Fetched Discovery
  | postToken .. => Fetched TokenResponse
  | connectAuth => Except String Unit
  | exchangeExternal .. => Except String (Option UserToken)
  | listRepos _ => Except String (List RepoSummary)

abbrev Act (α : Type) := Prog Call Call.Ans α

/-! ## OIDC -/

/-- `{:032x}` -/
def lowerHex (r : BitVec 128) : String := String.ofList (List.leftpad 32 '0' (Nat.toDigits 16 r.toNat))

/-- An unguessable opaque `state` value. -/
def randomState : Act String := do
  let r : BitVec 128 ← .ask Call.randomU128
  return lowerHex r

section Oidc

variable (crates : Crates)

/-- A fresh PKCE code verifier: 32 random bytes, base64url. -/
def codeVerifier : Act String := do
  let bytes : Vector UInt8 32 ← .ask Call.randomBytes
  return crates.base64url bytes.toList

/-- The S256 code challenge for a verifier. -/
def codeChallenge (verifier : String) : String := crates.base64url (crates.sha256 verifier.toUTF8.toList)

end Oidc

structure Oidc where
  issuer : String
  clientId : String
  redirectUri : String

/-- `trim_end_matches('/')` -/
def trimSlashes (s : String) : String := String.ofList (s.toList.reverse.dropWhile (· = '/')).reverse

namespace Oidc

variable (crates : Crates) (o : Oidc)

def discovery : Act (Except String Discovery) := do
  let url := trimSlashes o.issuer ++ "/.well-known/openid-configuration"
  let resp : Fetched Discovery ← .ask (Call.getDiscovery url)
  match resp with
  | .error e => return .error ("discovery " ++ url ++ ": " ++ e)
  | .ok (.error e) => return .error ("discovery parse: " ++ e)
  | .ok (.ok disco) => return .ok disco

/-- What is appended to the provider's authorize endpoint. -/
def authorizeQuery (state codeChallenge : String) : List (String × String) :=
  [("response_type", "code"), ("client_id", o.clientId), ("redirect_uri", o.redirectUri),
    ("scope", "openid profile email"), ("state", state), ("code_challenge", codeChallenge),
    ("code_challenge_method", "S256")]

/-- The endpoint with the query appended. -/
def authorizeAt (endpoint state codeChallenge : String) : Except String String :=
  match crates.parseUrl endpoint with
  | .error e => .error ("authorize url: " ++ e)
  | .ok url => .ok ((o.authorizeQuery state codeChallenge).foldl (fun url kv => crates.appendPair url kv.1 kv.2) url)

/-- The URL to redirect the browser to for login. -/
def authorizeUrl (state codeChallenge : String) : Act (Except String String) := do
  match ← o.discovery with
  | .error e => return .error e
  | .ok disco => return o.authorizeAt crates disco.authorizationEndpoint state codeChallenge

/-- What is posted to the provider's token endpoint. -/
def exchangeForm (code codeVerifier : String) : List (String × String) :=
  [("grant_type", "authorization_code"), ("code", code), ("redirect_uri", o.redirectUri), ("client_id", o.clientId),
    ("code_verifier", codeVerifier)]

/-- Exchange the callback's authorization code for the id token. -/
def exchangeCode (code codeVerifier : String) : Act (Except String String) := do
  match ← o.discovery with
  | .error e => return .error e
  | .ok disco =>
    let resp : Fetched TokenResponse ← .ask (Call.postToken disco.tokenEndpoint (o.exchangeForm code codeVerifier))
    match resp with
    | .error e => return .error ("token exchange: " ++ e)
    | .ok (.error e) => return .error ("token parse: " ++ e)
    | .ok (.ok resp) => return .ok resp.idToken

end Oidc

/-! ## The auth service -/

/-- The identity and token returned from an exchange, for the session. -/
structure Issued where
  token : String
  userId : String
  userName : String
  expiresAt : Int64

/-- What is kept of the service's reply; a reply without a token is an error. -/
def issuedOf (reply : Option UserToken) : Except String Issued :=
  match reply.filter fun t => !t.userToken.isEmpty with
  | none => .error "auth service returned no user token"
  | some t => .ok ⟨t.userToken, t.userId, t.userName, Int64.ofInt t.expiresAt⟩

/-- `AuthClient::exchange_external` -/
def exchangeExternal (idToken : String) : Act (Except String Issued) := do
  let conn : Except String Unit ← .ask Call.connectAuth
  match conn with
  | .error e => return .error ("auth connect: " ++ e)
  | .ok _ =>
    let resp : Except String (Option UserToken) ← .ask (Call.exchangeExternal idToken "external")
    match resp with
    | .error e => return .error ("exchange_external: " ++ e)
    | .ok reply => return issuedOf reply

/-! ## Cookies -/

/-- `COOKIE` -/
def cookieName : String := "kw_session"

/-- The value of the request's Cookie header, the part of the headers that is read. -/
structure HeaderMap where
  cookie : Option (List UInt8)

/-- `HeaderValue::to_str`: visible ASCII and tabs only. -/
def toStr (value : List UInt8) : Option (List Char) :=
  if value.all fun b => (32 ≤ b && b < 127) || b == 9 then some (value.map fun b => Char.ofNat b.toNat) else none

/-- `char::is_whitespace` -/
def isWhitespace (c : Char) : Bool :=
  let n := c.toNat
  (9 ≤ n && n ≤ 13) || n == 0x20 || n == 0x85 || n == 0xA0 || n == 0x1680 || (0x2000 ≤ n && n ≤ 0x200A) ||
    n == 0x2028 || n == 0x2029 || n == 0x202F || n == 0x205F || n == 0x3000

/-- `str::trim` -/
def trim (s : List Char) : List Char := ((s.dropWhile isWhitespace).reverse.dropWhile isWhitespace).reverse

def sessionId (headers : HeaderMap) : Option String := do
  let cookie ← headers.cookie.bind toStr
  (((cookie.splitOn ';').map trim).findSome? (cookieName ++ "=").toList.isPrefixOf?).map String.ofList

def sessionCookie (id : String) (maxAge : Int64) : String :=
  cookieName ++ "=" ++ id ++ "; HttpOnly; Secure; SameSite=Lax; Path=/; Max-Age=" ++ toString maxAge

def clearCookie : String := cookieName ++ "=; HttpOnly; Secure; SameSite=Lax; Path=/; Max-Age=0"

/-! ## Handlers -/

inductive Body where
  | empty
  | text (s : String)
  /-- `{ "user_name": .., "sub": .. }` -/
  | me (userName sub : String)
  | repos (list : List RepoSummary)

structure Response where
  status : Nat
  location : Option String
  setCookie : Option String
  body : Body

def redirect (location : String) (setCookie : Option String) : Response := ⟨303, some location, setCookie, .empty⟩

def plain (status : Nat) (text : String) : Response := ⟨status, none, none, .text text⟩

/-- The query of `/auth/callback`. -/
structure Callback where
  code : Option String
  state : Option String
  error : Option String
  deriving DecidableEq

def startLogin (state verifier : String) : Act Unit := .ask (Call.startLogin state verifier)

def takePending (state : String) : Act (Option String) := .ask (Call.takePending state)

def create (id : String) (session : Session) : Act Unit := .ask (Call.createSession id session)

def remove (id : String) : Act Unit := .ask (Call.removeSession id)

def readClock : Act Int64 := .ask Call.now

def session (headers : HeaderMap) : Act (Option (String × String × String)) :=
  match sessionId headers with
  | none => return none
  | some id => .ask (Call.getSession id)

section Handlers

variable (crates : Crates) (o : Oidc)

def login : Act Response := do
  let state ← randomState
  let verifier ← codeVerifier crates
  let challenge := codeChallenge crates verifier
  startLogin state verifier
  match ← o.authorizeUrl crates state challenge with
  | .ok url => return redirect url none
  | .error _ => return plain 502 "login unavailable"

/-- When the session of a fresh token ends. -/
def sessionExpiry (expiresAt : Int64) : Act Int64 := do
  if expiresAt > (← readClock) then return expiresAt else return (← readClock) + 3600

/-- The end of `callback`: a session for the identity. -/
def signIn (issued : Issued) : Act Response := do
  let exp ← sessionExpiry issued.expiresAt
  let sid ← randomState
  create sid ⟨issued.token, issued.userName, issued.userId, exp⟩
  return redirect "/" (some (sessionCookie sid (max (exp - (← readClock)) 0)))

def callback (q : Callback) : Act Response :=
  match q.error with
  | some _ => return redirect "/?login=failed" none
  | none =>
    match q.code, q.state with
    | some code, some state => do
      match ← takePending state with
      | none => return redirect "/?login=failed" none
      | some verifier =>
        match ← o.exchangeCode code verifier with
        | .error _ => return redirect "/?login=failed" none
        | .ok idToken =>
          match ← exchangeExternal idToken with
          | .error _ => return redirect "/?login=failed" none
          | .ok issued => signIn issued
    | _, _ => return redirect "/?login=failed" none

def logout (headers : HeaderMap) : Act Response := do
  if let some id := sessionId headers then remove id
  return redirect "/" (some clearCookie)

def me (headers : HeaderMap) : Act Response := do
  match ← session headers with
  | some (_, userName, sub) => return ⟨200, none, none, .me userName sub⟩
  | none => return plain 401 "not logged in"

def repos (headers : HeaderMap) : Act Response := do
  match ← session headers with
  | none => return plain 401 "not logged in"
  | some (token, _, _) =>
    let list : Except String (List RepoSummary) ← .ask (Call.listRepos token)
    match list with
    | .ok list => return ⟨200, none, none, .repos list⟩
    | .error _ => return plain 502 "could not list repositories"

/-- The requests that reach the store. -/
inductive Request where
  | login
  | callback (q : Callback)
  | logout (headers : HeaderMap)
  | me (headers : HeaderMap)
  | repos (headers : HeaderMap)

def Request.handle : Request → Act Response
  | .login => Server.login crates o
  | .callback q => Server.callback o q
  | .logout headers => Server.logout headers
  | .me headers => Server.me headers
  | .repos headers => Server.repos headers

end Handlers

end Kaguya.Web.Server
