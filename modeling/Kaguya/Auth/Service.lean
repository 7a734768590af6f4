/-
  Kaguya.Auth.Service — the RPCs of the auth service (`auth/src/main.rs`), with the
  minting of tokens (`keys.rs`) and the device login (`oidc_device.rs`): each handler is
  a program over the calls it makes. To a handler a call is one step: a verification, a
  method of the store, a signature, a look at the login sessions, a request to the
  provider. Other handlers run between its calls.

  What the handlers log is left out; every status they answer with is kept.

  `Rpc.serve` runs one handler alone: the store's calls on the tables, every other call
  answered by `Env`. `Admin.run` is the admin command line.
-/

import Kaguya.Auth.Store
import Kaguya.Auth.Verify

namespace Kaguya.Auth.Service

open Kaguya.Lib (Prog)
open Kaguya.Auth.Jwt
open Kaguya.Auth.Store
open Kaguya.Auth.Verify (VerifyError Unicode canonicalSubject)

/-! ## Calls -/

structure Discovery where
  deviceAuthorizationEndpoint : String
  tokenEndpoint : String

structure DeviceCodeResponse where
  deviceCode : String
  verificationUriComplete : Option String
  verificationUri : Option String
  expiresIn : Nat := 0

structure TokenResponse where
  idToken : Option String
  accessToken : Option String
  error : Option String

inductive Call where
  /-- `Identity::claims` -/
  | identity (bearer : String)
  /-- `OidcVerifier::verify` -/
  | oidc (token : String)
  | store (m : Method)
  /-- `jsonwebtoken::encode` with the service's key. -/
  | encode (header : Header) (claims : MintedClaims)
  /-- Seconds since the epoch, as `iat` has them. -/
  | nowSecs
  | randomId
  /-- `Sessions::insert`, with the time to live in seconds. -/
  | insertSession (sessionCode deviceCode tokenEndpoint clientState : String) (ttl : Nat)
  /-- `Sessions::resolve` -/
  | resolveSession (sessionCode clientState : String)
  | removeSession (sessionCode : String)
  | discovery
  | postDevice (endpoint : String)
  | postToken (endpoint deviceCode : String)

@[reducible] def Call.Ans : Call → Type
  | identity _ | oidc _ => Except VerifyError IdentityClaims
  | store m => m.Ans
  | encode .. => Except String String
  | nowSecs => UInt64
  | randomId => String
  | insertSession .. | removeSession _ => Unit
  | resolveSession .. => Option (String × String)
  | discovery => Except String Discovery
  | postDevice _ => Except String DeviceCodeResponse
  | postToken .. => Except String TokenResponse

abbrev Act (α : Type) := Prog Call Call.Ans α

def claims (bearer : String) : Act (Except VerifyError IdentityClaims) := .ask (Call.identity bearer)

/-- `Identity::subject` -/
def subject (bearer : String) : Act (Except VerifyError String) := do
  match ← claims bearer with
  | .ok claims => return .ok claims.sub
  | .error e => return .error e

def verifyOidc (token : String) : Act (Except VerifyError IdentityClaims) := .ask (Call.oidc token)

def recordOwner (owner urcId name : String) : Act (Except SqlError Unit) :=
  .ask (Call.store (Method.recordOwner owner urcId name))

def deleteFromStore (urcId : String) : Act (Except SqlError Unit) := .ask (Call.store (Method.deleteResource urcId))

def roleFor (sub urcId : String) : Act (Option Role) := .ask (Call.store (Method.roleFor sub urcId))

def accessible (sub : String) : Act (List String) := .ask (Call.store (Method.accessible sub))

/-! ## Minting -/

/-- `Signer::mint`: `kid` names the signing key in the header. -/
def mint (kid issuer audience subject name preferredUsername : String) (exp : UInt64)
    (resources : List ResourceGrant) : Act (Except String String) := do
  let iat : UInt64 ← .ask Call.nowSecs
  let claims : MintedClaims :=
    { iss := issuer
      sub := subject
      aud := [audience]
      iat
      exp
      name
      preferredUsername
      isServiceAccount := false
      resources }
  let header : Header := { alg := .rs256, kid := some kid }
  .ask (Call.encode header claims)

/-! ## Device login -/

structure DeviceStart where
  deviceCode : String
  loginUrl : String
  tokenEndpoint : String
  expiresIn : Nat

inductive Poll where
  | pending
  | token (t : String)
  | denied (error : String)
  deriving DecidableEq

def startDevice : Act (Except String DeviceStart) := do
  let disco : Except String Discovery ← .ask Call.discovery
  match disco with
  | .error e => return .error e
  | .ok disco =>
    let resp : Except String DeviceCodeResponse ← .ask (Call.postDevice disco.deviceAuthorizationEndpoint)
    match resp with
    | .error e => return .error e
    | .ok resp =>
      match resp.verificationUriComplete.or resp.verificationUri with
      | none => return .error "device authorization returned no verification URI"
      | some loginUrl => return .ok ⟨resp.deviceCode, loginUrl, disco.tokenEndpoint, resp.expiresIn⟩

/-- The id token if there is one, else the access token; no token and no terminal error
    is to keep polling. -/
def classify (r : TokenResponse) : Poll :=
  match r.idToken.filter (!·.isEmpty), r.accessToken.filter (!·.isEmpty) with
  | some token, _ => .token token
  | none, some token => .token token
  | none, none => match r.error with
    | none => .pending
    | some e => if e = "authorization_pending" ∨ e = "slow_down" then .pending else .denied e

def poll (tokenEndpoint deviceCode : String) : Act (Except String Poll) := do
  let resp : Except String TokenResponse ← .ask (Call.postToken tokenEndpoint deviceCode)
  match resp with
  | .error e => return .error e
  | .ok resp => return .ok (classify resp)

/-! ## Requests and responses -/

inductive Code where
  | unauthenticated
  | permissionDenied
  | notFound
  | internal
  | unimplemented
  deriving DecidableEq, Repr

structure Status where
  code : Code
  message : String
  deriving DecidableEq, Repr

structure ResourcePermission where
  resourceId : String
  permission : List String
  deriving DecidableEq, Repr

structure UserToken where
  userToken : String
  expiresAt : Int
  userId : String
  userName : String
  deriving DecidableEq, Repr

structure CheckUserPermissionResponse where
  allowedResourcePermission : List ResourcePermission
  deniedResourcePermission : List ResourcePermission
  deriving DecidableEq, Repr

structure LookupUserPermissionsResponse where
  resourcePermission : List ResourcePermission
  nextPageToken : Option String
  deriving DecidableEq, Repr

structure StartAuthSessionResponse where
  sessionCode : String
  loginUrl : String
  deriving DecidableEq, Repr

structure AuthConfig where
  /-- `kid` of the signing key. -/
  kid : String
  /-- `iss` stamped on minted tokens. -/
  authIssuer : String
  /-- `aud` stamped on minted tokens. -/
  audience : String

/-- A deployment for `lore.example`. -/
def AuthConfig.lore : AuthConfig := ⟨"kaguya-key", "https://auth.lore.example", "lore.example"⟩

/-- `str::strip_prefix` -/
def stripPrefix (p s : String) : Option String := (p.toList.isPrefixOf? s.toList).map String.ofList

/-- The bearer in the request's authorization metadata, when it is a string. -/
def bearer (authorization : Option String) : String := (authorization.bind (stripPrefix "Bearer ")).getD ""

theorem isPrefixOf?_append (l r : List Char) : l.isPrefixOf? (l ++ r) = some r := by
  induction l with
  | nil => rfl
  | cons c l ih => simp [List.isPrefixOf?, ih]

theorem bearer_of (token : String) : bearer (some ("Bearer " ++ token)) = token := by
  simp only [bearer, Option.bind_some, stripPrefix, String.toList_append, isPrefixOf?_append, Option.map_some,
    String.ofList_toList, Option.getD_some]

/-- A resource with a role's permission strings. -/
def grant (resourceId : String) (role : Role) : ResourcePermission := ⟨resourceId, role.permissions⟩

/-- Display fields for a minted token: `name` falls back through username, email and
    subject. -/
def displayNames (claims : IdentityClaims) : String × String :=
  let name := ((claims.name.or claims.preferredUsername).or claims.email).getD claims.sub
  let preferredUsername := (claims.preferredUsername.or claims.email).getD name
  (name, preferredUsername)

/-- `exp as i64` -/
def expiresAt (exp : UInt64) : Int := exp.toInt64.toInt

/-! ## Handlers -/

def createResource (authorization : Option String) (resourceId resourceName : String) : Act (Except Status Unit) := do
  match ← subject (bearer authorization) with
  | .error _ => return .error ⟨.unauthenticated, "invalid token"⟩
  | .ok sub =>
    match ← recordOwner sub resourceId resourceName with
    | .error _ => return .error ⟨.internal, "store error"⟩
    | .ok _ => return .ok ()

/-- Only an owner may delete the resource. -/
def deleteResource (authorization : Option String) (resourceId : String) : Act (Except Status Unit) := do
  match ← subject (bearer authorization) with
  | .error _ => return .error ⟨.unauthenticated, "invalid token"⟩
  | .ok sub =>
    if (← roleFor sub resourceId) ≠ some .owner then
      return .error ⟨.permissionDenied, "not an owner of this resource"⟩
    else
      match ← deleteFromStore resourceId with
      | .error _ => return .error ⟨.internal, "store error"⟩
      | .ok _ => return .ok ()

/-- The loop of `check_user_permission`, with what it has pushed so far. -/
def checkIds (sub : String) : List String → List ResourcePermission → List ResourcePermission →
    Act CheckUserPermissionResponse
  | [], allowed, denied => return ⟨allowed, denied⟩
  | id :: ids, allowed, denied => do
    match ← roleFor sub id with
    | some role => checkIds sub ids (allowed ++ [grant id role]) denied
    | none => checkIds sub ids allowed (denied ++ [⟨id, []⟩])

def checkUserPermission (authorization : Option String) (resourceId : List String) :
    Act (Except Status CheckUserPermissionResponse) := do
  match ← subject (bearer authorization) with
  | .error _ => return .error ⟨.unauthenticated, "invalid token"⟩
  | .ok sub => return .ok (← checkIds sub resourceId [] [])

/-- Every id that is listed, with its role. -/
def lookupIds (sub : String) : List String → Act (List ResourcePermission)
  | [] => return []
  | id :: ids => do
    let role := (← roleFor sub id).getD .member
    return grant id role :: (← lookupIds sub ids)

def lookupUserPermissions (authorization : Option String) : Act (Except Status LookupUserPermissionsResponse) := do
  match ← subject (bearer authorization) with
  | .error _ => return .error ⟨.unauthenticated, "invalid token"⟩
  | .ok sub => return .ok ⟨← lookupIds sub (← accessible sub), none⟩

/-- The time to live of a login session, in seconds. -/
def sessionTtl (expiresIn : Nat) : Nat := max 60 (min expiresIn 600)

def startAuthSession (clientState : String) : Act (Except Status StartAuthSessionResponse) := do
  match ← startDevice with
  | .error _ => return .error ⟨.internal, "could not start login"⟩
  | .ok start =>
    let sessionCode : String ← .ask Call.randomId
    let _ : Unit ← .ask (Call.insertSession sessionCode start.deviceCode start.tokenEndpoint clientState
      (sessionTtl start.expiresIn))
    return .ok ⟨sessionCode, start.loginUrl⟩

/-- Mint an identity token for a login: it carries no resource grants. Both login RPCs
    end so. -/
def mintAuthn (U : Unicode) (a : AuthConfig) (claims : IdentityClaims) : Act (Except Status UserToken) := do
  let subject := canonicalSubject U claims
  let names := displayNames claims
  match ← mint a.kid a.authIssuer a.audience subject names.1 names.2 claims.exp [] with
  | .error _ => return .error ⟨.internal, "token issuance failed"⟩
  | .ok authn => return .ok ⟨authn, expiresAt claims.exp, subject, names.1⟩

def getAuthSession (U : Unicode) (a : AuthConfig) (sessionCode clientState : String) :
    Act (Except Status (Option UserToken)) := do
  let session : Option (String × String) ← .ask (Call.resolveSession sessionCode clientState)
  match session with
  | none => return .error ⟨.notFound, "unknown or expired login session"⟩
  | some (deviceCode, tokenEndpoint) =>
    match ← poll tokenEndpoint deviceCode with
    | .ok .pending => return .ok none
    | .ok (.token idToken) =>
      match ← verifyOidc idToken with
      | .error _ => return .error ⟨.internal, "login token invalid"⟩
      | .ok claims =>
        let _ : Unit ← .ask (Call.removeSession sessionCode)
        match ← mintAuthn U a claims with
        | .error status => return .error status
        | .ok userToken => return .ok (some userToken)
    | .ok (.denied e) =>
      let _ : Unit ← .ask (Call.removeSession sessionCode)
      return .error ⟨.permissionDenied, "login not completed: " ++ e⟩
    | .error _ => return .error ⟨.internal, "login poll failed"⟩

def exchangeExternalTokenForUserToken (U : Unicode) (a : AuthConfig) (externalToken : String) :
    Act (Except Status UserToken) :=
  if externalToken.isEmpty then return .error ⟨.unauthenticated, "missing external token"⟩
  else do
    match ← verifyOidc externalToken with
    | .error _ => return .error ⟨.unauthenticated, "invalid external token"⟩
    | .ok claims => mintAuthn U a claims

/-- The requested resources the subject has a role on. -/
def grantedIds (sub : String) : List String → Act (List ResourceGrant)
  | [] => return []
  | id :: ids => do
    match ← roleFor sub id with
    | some role => return ⟨id, role.permissions⟩ :: (← grantedIds sub ids)
    | none => grantedIds sub ids

def exchangeUserTokenForMultiresourceToken (a : AuthConfig) (authorization : Option String) (resourceId : List String) :
    Act (Except Status UserToken) :=
  let token := bearer authorization
  if token.isEmpty then return .error ⟨.unauthenticated, "missing bearer token"⟩
  else do
    match ← claims token with
    | .error _ => return .error ⟨.unauthenticated, "invalid identity token"⟩
    | .ok claims =>
      let resources ← grantedIds claims.sub resourceId
      let names := displayNames claims
      match ← mint a.kid a.authIssuer a.audience claims.sub names.1 names.2 claims.exp resources with
      | .error _ => return .error ⟨.internal, "token issuance failed"⟩
      | .ok minted => return .ok ⟨minted, expiresAt claims.exp, claims.sub, names.1⟩

/-- The RPCs with the parts of their requests that are read. -/
inductive Rpc where
  | createResource (authorization : Option String) (resourceId resourceName : String)
  | deleteResource (authorization : Option String) (resourceId : String)
  | healthCheck
  | checkUserPermission (authorization : Option String) (resourceId : List String)
  | lookupUserPermissions (authorization : Option String)
  | getUserInfo
  | startAuthSession (clientState : String)
  | getAuthSession (sessionCode clientState : String)
  | refreshAuthSession
  | verifyUser
  | exchangeExternalTokenForUserToken (externalToken : String)
  | exchangeApiKeyForUserToken
  | exchangeUserTokenForMultiresourceToken (authorization : Option String) (resourceId : List String)
  | getUserId
  | getProviderUserId
  deriving DecidableEq

/-- The authorization of the RPCs that read one. -/
def Rpc.authorization : Rpc → Option (Option String)
  | createResource auth _ _ | deleteResource auth _ | checkUserPermission auth _ | lookupUserPermissions auth
  | exchangeUserTokenForMultiresourceToken auth _ => some auth
  | _ => none

inductive Reply where
  | created
  | deleted
  | health (status : String)
  | checked (r : CheckUserPermissionResponse)
  | looked (r : LookupUserPermissionsResponse)
  | userInfo
  | started (r : StartAuthSessionResponse)
  | session (userToken : Option UserToken)
  | exchanged (userToken : UserToken)
  deriving DecidableEq

def reply {α : Type} (f : α → Reply) (h : Act (Except Status α)) : Act (Except Status Reply) := do
  match ← h with
  | .ok a => return .ok (f a)
  | .error status => return .error status

def Rpc.handle (U : Unicode) (a : AuthConfig) : Rpc → Act (Except Status Reply)
  | createResource auth id name => reply (fun _ => .created) (Service.createResource auth id name)
  | deleteResource auth id => reply (fun _ => .deleted) (Service.deleteResource auth id)
  | healthCheck => return .ok (.health "ok")
  | checkUserPermission auth ids => reply .checked (Service.checkUserPermission auth ids)
  | lookupUserPermissions auth => reply .looked (Service.lookupUserPermissions auth)
  | getUserInfo => return .ok .userInfo
  | startAuthSession state => reply .started (Service.startAuthSession state)
  | getAuthSession code state => reply .session (Service.getAuthSession U a code state)
  | refreshAuthSession => return .error ⟨.unimplemented, "refresh_auth_session"⟩
  | verifyUser => return .error ⟨.unimplemented, "verify_user"⟩
  | exchangeExternalTokenForUserToken token => reply .exchanged (Service.exchangeExternalTokenForUserToken U a token)
  | exchangeApiKeyForUserToken => return .error ⟨.unimplemented, "exchange_api_key_for_user_token"⟩
  | exchangeUserTokenForMultiresourceToken auth ids =>
    reply .exchanged (Service.exchangeUserTokenForMultiresourceToken a auth ids)
  | getUserId => return .error ⟨.unimplemented, "get_user_id"⟩
  | getProviderUserId => return .error ⟨.unimplemented, "get_provider_user_id"⟩

/-! ## Admin commands -/

/-- The store method a command line names, if it is one. -/
def Admin.method : List String → Option Method
  | ["grant", subject, urc, role] => (Role.parse role).map (.grant subject urc)
  | ["revoke", subject, urc] => some (.revoke subject urc)
  | ["group-add", group, subject] => some (.addGroupMember group subject)
  | ["group-del", group, subject] => some (.removeGroupMember group subject)
  | ["ls", urc] => some (.listGrants urc)
  | _ => none

/-! ## Running one handler -/

/-- What answers the calls that are not the store's. -/
structure Env where
  identity : String → Except VerifyError IdentityClaims
  oidc : String → Except VerifyError IdentityClaims
  encode : Header → MintedClaims → Except String String
  /-- The wall clock. -/
  now : Int
  nowSecs : UInt64
  randomId : String
  resolveSession : String → String → Option (String × String)
  discovery : Except String Discovery
  postDevice : String → Except String DeviceCodeResponse
  postToken : String → String → Except String TokenResponse

def Call.exec (env : Env) : (c : Call) → Conn → Option c.Ans × Conn
  | .identity bearer, conn => (some (env.identity bearer), conn)
  | .oidc token, conn => (some (env.oidc token), conn)
  | .store m, conn => m.run env.now conn
  | .encode header claims, conn => (some (env.encode header claims), conn)
  | .nowSecs, conn => (some env.nowSecs, conn)
  | .randomId, conn => (some env.randomId, conn)
  | .insertSession .., conn => (some (), conn)
  | .resolveSession code state, conn => (some (env.resolveSession code state), conn)
  | .removeSession _, conn => (some (), conn)
  | .discovery, conn => (some env.discovery, conn)
  | .postDevice endpoint, conn => (some (env.postDevice endpoint), conn)
  | .postToken endpoint code, conn => (some (env.postToken endpoint code), conn)

/-- One RPC from its first call to its last, on a connection; no reply when it panics. -/
def Rpc.serve (U : Unicode) (a : AuthConfig) (env : Env) (rpc : Rpc) (conn : Conn) :
    Option (Except Status Reply) × Conn :=
  (rpc.handle U a).run (Call.exec env) conn

/-- An environment in which one bearer resolves, and the provider is out of reach. -/
def Env.ofCaller (token : String) (claims : IdentityClaims) : Env where
  identity b := if b = token then .ok claims else .error (.malformed "InvalidToken")
  oidc _ := .error (.jwks "unreachable")
  encode _ m := .ok ("minted for " ++ m.sub)
  now := 1700000000
  nowSecs := 1700000000
  randomId := "0"
  resolveSession _ _ := none
  discovery := .error "unreachable"
  postDevice _ := .error "unreachable"
  postToken _ _ := .error "unreachable"

@[simp] theorem Env.ofCaller_identity (token : String) (claims : IdentityClaims) :
    (Env.ofCaller token claims).identity token = .ok claims := if_pos rfl

end Kaguya.Auth.Service
