/-
  Kaguya.Auth.Verify — the verification of bearers (`auth/src/verify.rs`): the account
  a login lands on (`canonicalSubject`), the provider's tokens against its key set
  (`verifyWithJwks`, `OidcVerifier.verify` with the cached set), the service's own
  tokens (`SelfVerifier.claims`), and the two tried in turn (`Identity.claims`).

  What a verifier does besides computing are its calls: the clock, the cached key set
  behind its lock, and the fetch of the provider's. The Unicode tables of lower-casing
  are a parameter; ASCII is as ASCII is.

  Proved: `verifyWithJwks_ok` and `selfVerifier_ok`, what each verifier accepts;
  `run_verify`, the set `OidcVerifier.verify` verifies against.
-/

import Kaguya.Lib.Prog
import Kaguya.Auth.Jwt

namespace Kaguya.Auth.Verify

open Kaguya.Lib (Prog)
open Kaguya.Auth.Jwt

/-! ## The account of a login -/

/-- The Unicode data of `to_lowercase`, used beyond ASCII. -/
structure Unicode where
  toLower : Char → List Char
  caseIgnorable : Char → Bool
  cased : Char → Bool

def Unicode.lower (U : Unicode) (c : Char) : List Char := if c.toNat < 128 then [c.toLower] else U.toLower c

/-- No letters beyond ASCII. -/
def Unicode.ascii : Unicode := ⟨fun c => [c], fun _ => false, fun _ => false⟩

def Unicode.caseIgnorableThenCased (U : Unicode) (l : List Char) : Bool :=
  match (l.dropWhile U.caseIgnorable).head? with
  | some c => U.cased c
  | none => false

/-- A capital sigma ends a word or not; every other letter has its own lower case.
    `before` is what came before, last first. -/
def Unicode.lowerFrom (U : Unicode) (before : List Char) : List Char → List Char
  | [] => []
  | c :: rest =>
    (if c = 'Σ' then
      if U.caseIgnorableThenCased before && !U.caseIgnorableThenCased rest then ['ς'] else ['σ']
    else U.lower c) ++ U.lowerFrom (c :: before) rest

/-- `str::to_lowercase`. -/
def toLowercase (U : Unicode) (s : String) : String := String.ofList (U.lowerFrom [] s.toList)

/-- The canonical account id: a verified email, lowercased, or else the connector's
    subject. -/
def canonicalSubject (U : Unicode) (claims : IdentityClaims) : String :=
  match claims.email, claims.emailVerified with
  | some email, some true => if !email.isEmpty then toLowercase U email else claims.sub
  | _, _ => claims.sub

/-! ## Verifiers -/

inductive VerifyError where
  /-- The bearer is not a well-formed JWT, or carries no `kid`. -/
  | malformed (m : String)
  /-- No key with the token's `kid` in the provider's set, even after a refresh. -/
  | unknownKid (kid : String)
  /-- The provider's key set could not be fetched or parsed. -/
  | jwks (m : String)
  /-- Signature, issuer, audience or expiry did not check out. -/
  | invalid (m : String)
  deriving DecidableEq, Repr

section Verifiers

variable (lib : Jwt)

/-- The header's `kid`. -/
def headerKid (token : String) : Except VerifyError String :=
  match lib.decodeHeader token with
  | .error e => .error (.malformed e)
  | .ok header => match header.kid with
    | none => .error (.malformed "no kid in header")
    | some kid => .ok kid

/-- `Validation::new(RS256)` with the issuer and audiences set. -/
def rs256Validation (issuers audiences : List String) : Validation :=
  { lib.setAudience (lib.setIssuer (lib.validation .rs256) issuers) audiences with validateExp := true }

/-- Verify a token against a resolved key set at time `now`. -/
def verifyWithJwks (now : Nat) (token : String) (jwks : JwkSet lib) (issuer : String) (audiences : List String) :
    Except VerifyError IdentityClaims :=
  match headerKid lib token with
  | .error e => .error e
  | .ok kid => match jwks.find kid with
    | none => .error (.unknownKid kid)
    | some jwk => match lib.fromJwk jwk with
      | .error e => .error (.jwks ("bad jwk " ++ kid ++ ": " ++ e))
      | .ok key => match lib.decode now token key (rs256Validation lib [issuer] audiences) with
        | .error e => .error (.invalid e)
        | .ok claims => .ok claims

/-- The calls of a verifier: the clock in seconds, the cached key set, and the
    provider's. -/
inductive VerifyCall where
  | now
  | readJwks
  | fetchJwks
  | writeJwks (jwks : JwkSet lib)

@[reducible] def VerifyCall.Ans {lib : Jwt} : VerifyCall lib → Type
  | now => Nat
  | readJwks => Option (JwkSet lib)
  | fetchJwks => Except String (JwkSet lib)
  | writeJwks _ => Unit

abbrev Verifier (α : Type) := Prog (VerifyCall lib) VerifyCall.Ans α

def clock : Verifier lib Nat := .ask VerifyCall.now

def readJwks : Verifier lib (Option (JwkSet lib)) := .ask VerifyCall.readJwks

def fetchJwks : Verifier lib (Except String (JwkSet lib)) := .ask VerifyCall.fetchJwks

def writeJwks (jwks : JwkSet lib) : Verifier lib Unit := .ask (VerifyCall.writeJwks jwks)

structure OidcVerifier where
  issuer : String
  audiences : List String

/-- The set in hand has the token's key. -/
def cachedFor (kid : String) : Option (JwkSet lib) → Option (JwkSet lib)
  | some jwks => if (jwks.find kid).isSome then some jwks else none
  | none => none

/-- Verify a provider token, refetching the key set once if the token's key id is not
    in the cached one. -/
def OidcVerifier.verify (o : OidcVerifier) (token : String) : Verifier lib (Except VerifyError IdentityClaims) :=
  match headerKid lib token with
  | .error e => return .error e
  | .ok kid => do
    match cachedFor lib kid (← readJwks lib) with
    | some jwks => return verifyWithJwks lib (← clock lib) token jwks o.issuer o.audiences
    | none =>
      match ← fetchJwks lib with
      | .error m => return .error (.jwks m)
      | .ok jwks =>
        let result := verifyWithJwks lib (← clock lib) token jwks o.issuer o.audiences
        writeJwks lib jwks
        return result

/-- Verifies the tokens this service signed, with its own key. -/
structure SelfVerifier where
  key : lib.DecodingKey
  issuer : String
  audience : String

def SelfVerifier.new (ownJwk : lib.Jwk) (issuer audience : String) : Except VerifyError (SelfVerifier lib) :=
  match lib.fromJwk ownJwk with
  | .error e => .error (.jwks ("own jwk key: " ++ e))
  | .ok key => .ok ⟨key, issuer, audience⟩

/-- The claims of a token we signed, or none if it is not one of ours. -/
def SelfVerifier.claims {lib : Jwt} (v : SelfVerifier lib) (now : Nat) (token : String) : Option IdentityClaims :=
  match lib.decode now token v.key (rs256Validation lib [v.issuer] [v.audience]) with
  | .ok claims => some claims
  | .error _ => none

/-- Resolves whatever bearer the service is handed. -/
structure Identity where
  selfVerifier : SelfVerifier lib
  oidc : OidcVerifier

/-- Our own key first, then the provider. -/
def Identity.claims {lib : Jwt} (identity : Identity lib) (bearer : String) :
    Verifier lib (Except VerifyError IdentityClaims) := do
  match identity.selfVerifier.claims (← clock lib) bearer with
  | some claims => return .ok claims
  | none => identity.oidc.verify lib bearer

def Identity.subject {lib : Jwt} (identity : Identity lib) (bearer : String) :
    Verifier lib (Except VerifyError String) := do
  match ← identity.claims bearer with
  | .ok claims => return .ok claims.sub
  | .error e => return .error e

end Verifiers

/-! ## Running a verifier -/

/-- The clock, the cached key set and what the provider serves. -/
structure Provider (lib : Jwt) where
  now : Nat
  cached : Option (JwkSet lib)
  served : Except String (JwkSet lib)

def VerifyCall.exec {lib : Jwt} : (c : VerifyCall lib) → Provider lib → Option c.Ans × Provider lib
  | .now, p => (some p.now, p)
  | .readJwks, p => (some p.cached, p)
  | .fetchJwks, p => (some p.served, p)
  | .writeJwks jwks, p => (some (), { p with cached := some jwks })

/-- The set a token is verified against: the cached one if it has the token's key, else
    the one the provider serves. -/
def Provider.jwksFor {lib : Jwt} (p : Provider lib) (kid : String) : Except String (JwkSet lib) :=
  match cachedFor lib kid p.cached with
  | some jwks => .ok jwks
  | none => p.served

section Run

variable {lib : Jwt}

/-- What a token resolves to with the provider. -/
def OidcVerifier.resolve (o : OidcVerifier) (p : Provider lib) (token : String) : Except VerifyError IdentityClaims :=
  match headerKid lib token with
  | .error e => .error e
  | .ok kid => match p.jwksFor kid with
    | .error m => .error (.jwks m)
    | .ok jwks => verifyWithJwks lib p.now token jwks o.issuer o.audiences

def Identity.resolve (identity : Identity lib) (p : Provider lib) (bearer : String) :
    Except VerifyError IdentityClaims :=
  match identity.selfVerifier.claims p.now bearer with
  | some claims => .ok claims
  | none => identity.oidc.resolve p bearer

/-- `OidcVerifier.verify` is `verifyWithJwks` on the set it uses. -/
theorem run_verify (o : OidcVerifier) (token : String) (p : Provider lib) :
    ((o.verify lib token).run VerifyCall.exec p).1 = some (o.resolve p token) := by
  unfold OidcVerifier.verify OidcVerifier.resolve Provider.jwksFor
  cases headerKid lib token with
  | error e => rfl
  | ok kid =>
    refine (congrArg Prod.fst (Prog.run_bind_some VerifyCall.exec (p := readJwks lib) rfl)).trans ?_
    cases hc : cachedFor lib kid p.cached with
    | some jwks => simp only [hc]; rfl
    | none =>
      simp only [hc]
      refine (congrArg Prod.fst (Prog.run_bind_some VerifyCall.exec (p := fetchJwks lib) rfl)).trans ?_
      cases p.served with
      | error m => rfl
      | ok jwks => rfl

theorem run_identity_claims (identity : Identity lib) (bearer : String) (p : Provider lib) :
    ((identity.claims bearer).run VerifyCall.exec p).1 = some (identity.resolve p bearer) := by
  refine (congrArg Prod.fst (Prog.run_bind_some VerifyCall.exec (p := clock lib) rfl)).trans ?_
  unfold Identity.resolve
  cases identity.selfVerifier.claims p.now bearer with
  | some claims => rfl
  | none => exact run_verify identity.oidc bearer p

end Run

/-! ## What is accepted -/

section Accepted

variable {lib : Jwt}

theorem rs256Validation_eq (hd : lib.Documented) (issuers audiences : List String) :
    rs256Validation lib issuers audiences =
      { algorithms := [.rs256], requiredSpecClaims := [.exp], leeway := 60, validateExp := true, validateAud := true,
        iss := some issuers, aud := some audiences } := by
  unfold rs256Validation
  rw [hd.set_audience, hd.set_issuer, hd.validation_new]

/-- The token is signed with RS256 under the key, says `claims`, and is not past its
    expiry and the leeway. -/
structure Signed (lib : Jwt) (now : Nat) (token : String) (key : lib.DecodingKey) (payload : Payload)
    (claims : IdentityClaims) : Prop where
  header : ∃ header, lib.decodeHeader token = .ok header ∧ header.alg = .rs256
  family : lib.family key = .rsa
  verifies : lib.verifies key .rs256 token = true
  decoded : lib.payload token = some payload
  reads : payload.identity = some claims
  fresh : now ≤ claims.exp.toNat + 60

theorem decode_rs256_ok (hd : lib.Documented) {now : Nat} {token : String} {key : lib.DecodingKey}
    {issuers audiences : List String} {claims : IdentityClaims} :
    lib.decode now token key (rs256Validation lib issuers audiences) = .ok claims ↔
      ∃ payload, Signed lib now token key payload claims ∧ issuerOk payload.iss (some issuers) = true ∧
        audienceOk payload.aud (some audiences) = true := by
  rw [hd.decode_ok, rs256Validation_eq hd]
  constructor
  · intro h
    obtain ⟨header, payload, hh, ha, hf, hv, hp, hi, hok⟩ := h
    have hexp := hd.one_exp token payload claims hp hi
    have halg : header.alg = .rs256 := by simpa using ha
    simp only [Validation.accepts, hexp, List.all_cons, List.all_nil, Payload.carries, notExpired, Bool.and_true,
      Bool.not_true, Bool.false_or, Bool.true_and, Bool.and_eq_true, decide_eq_true_eq] at hok
    obtain ⟨⟨hfresh, hiss⟩, haud⟩ := hok
    have hfam : lib.family key = .rsa := hf .rs256 (List.mem_singleton.mpr rfl)
    exact ⟨payload, ⟨⟨header, hh, halg⟩, hfam, halg ▸ hv, hp, hi, by omega⟩, hiss, haud⟩
  · intro h
    obtain ⟨payload, ⟨⟨header, hh, halg⟩, hfam, hv, hp, hi, hfresh⟩, hiss, haud⟩ := h
    have hexp := hd.one_exp token payload claims hp hi
    refine ⟨header, payload, hh, by simp [halg], ?_, halg ▸ hv, hp, hi, ?_⟩
    · intro alg h
      rw [List.mem_singleton.mp h]
      exact hfam
    · have hle : now - 60 ≤ claims.exp.toNat := by omega
      simp [Validation.accepts, hexp, Payload.carries, notExpired, hle, hiss, haud]

/-- The key the set holds for the token: the first with the header's `kid`. -/
def KeyFor (lib : Jwt) (jwks : JwkSet lib) (token : String) (key : lib.DecodingKey) : Prop :=
  ∃ header kid jwk, lib.decodeHeader token = .ok header ∧ header.kid = some kid ∧ jwks.find kid = some jwk ∧
    lib.fromJwk jwk = .ok key

theorem headerKid_ok {token kid : String} :
    headerKid lib token = .ok kid ↔ ∃ header, lib.decodeHeader token = .ok header ∧ header.kid = some kid := by
  unfold headerKid
  cases lib.decodeHeader token with
  | error e => simp
  | ok header =>
    cases hk : header.kid with
    | none => simp [hk]
    | some kid' => simp [hk]

theorem verifyWithJwks_ok (hd : lib.Documented) {now : Nat} {token : String} {jwks : JwkSet lib} {issuer : String}
    {audiences : List String} {claims : IdentityClaims} :
    verifyWithJwks lib now token jwks issuer audiences = .ok claims ↔
      ∃ key payload, KeyFor lib jwks token key ∧ Signed lib now token key payload claims ∧
        issuerOk payload.iss (some [issuer]) = true ∧ audienceOk payload.aud (some audiences) = true := by
  unfold verifyWithJwks
  constructor
  · intro h
    split at h
    · cases h
    · rename_i kid hk
      split at h
      · cases h
      · rename_i jwk hj
        split at h
        · cases h
        · rename_i key hkey
          split at h
          · cases h
          · rename_i claims' hdec
            cases h
            obtain ⟨header, hh, hkid⟩ := headerKid_ok.mp hk
            obtain ⟨payload, hs, hiss, haud⟩ := (decode_rs256_ok hd).mp hdec
            exact ⟨key, payload, ⟨header, kid, jwk, hh, hkid, hj, hkey⟩, hs, hiss, haud⟩
  · intro h
    obtain ⟨key, payload, ⟨header, kid, jwk, hh, hkid, hj, hkey⟩, hs, hiss, haud⟩ := h
    have hk : headerKid lib token = .ok kid := headerKid_ok.mpr ⟨header, hh, hkid⟩
    have hdec := (decode_rs256_ok hd).mpr ⟨payload, hs, hiss, haud⟩
    simp only [hk, hj, hkey, hdec]

/-- The token's payload, whoever signed it. -/
def PayloadIs (lib : Jwt) (token : String) (claims : IdentityClaims) : Prop :=
  ∃ payload, lib.payload token = some payload ∧ payload.identity = some claims

theorem payloadIs_unique {token : String} {claims claims' : IdentityClaims} (h : PayloadIs lib token claims)
    (h' : PayloadIs lib token claims') : claims = claims' := by
  obtain ⟨payload, hp, hi⟩ := h
  obtain ⟨payload', hp', hi'⟩ := h'
  rw [hp, Option.some.injEq] at hp'
  subst hp'
  rw [hi, Option.some.injEq] at hi'
  exact hi'

theorem selfVerifier_ok (hd : lib.Documented) {v : SelfVerifier lib} {now : Nat} {token : String}
    {claims : IdentityClaims} :
    v.claims now token = some claims ↔
      ∃ payload, Signed lib now token v.key payload claims ∧ issuerOk payload.iss (some [v.issuer]) = true ∧
        audienceOk payload.aud (some [v.audience]) = true := by
  rw [← decode_rs256_ok hd]
  unfold SelfVerifier.claims
  split
  · rename_i claims' h
    rw [h, Option.some.injEq, Except.ok.injEq]
  · rename_i e h
    simp [h]

/-- Whichever verifier accepts a token, the claims are those of its payload. -/
theorem verifyWithJwks_payload (hd : lib.Documented) {now : Nat} {token : String} {jwks : JwkSet lib} {issuer : String}
    {audiences : List String} {claims : IdentityClaims}
    (h : verifyWithJwks lib now token jwks issuer audiences = .ok claims) : PayloadIs lib token claims := by
  obtain ⟨_, payload, _, hs, _⟩ := (verifyWithJwks_ok hd).mp h
  exact ⟨payload, hs.decoded, hs.reads⟩

theorem resolve_payload (hd : lib.Documented) {o : OidcVerifier} {p : Provider lib} {token : String}
    {claims : IdentityClaims} (h : o.resolve p token = .ok claims) : PayloadIs lib token claims := by
  unfold OidcVerifier.resolve at h
  split at h
  · cases h
  · split at h
    · cases h
    · exact verifyWithJwks_payload hd h

theorem identity_payload (hd : lib.Documented) {identity : Identity lib} {p : Provider lib} {bearer : String}
    {claims : IdentityClaims} (h : identity.resolve p bearer = .ok claims) : PayloadIs lib bearer claims := by
  unfold Identity.resolve at h
  split at h
  · rename_i claims' hself
    cases h
    obtain ⟨payload, hs, _⟩ := (selfVerifier_ok hd).mp hself
    exact ⟨payload, hs.decoded, hs.reads⟩
  · exact resolve_payload hd h

/-- A token the provider's verifier accepts is accepted as a bearer, by one verifier or
    the other. -/
theorem identity_accepts (hd : lib.Documented) {identity : Identity lib} {p : Provider lib} {token : String}
    {claims : IdentityClaims} (h : identity.oidc.resolve p token = .ok claims) :
    identity.resolve p token = .ok claims := by
  unfold Identity.resolve
  cases hs : identity.selfVerifier.claims p.now token with
  | none => exact h
  | some claims' =>
    have hself : identity.resolve p token = .ok claims' := by
      unfold Identity.resolve
      rw [hs]
    exact congrArg _ (payloadIs_unique (identity_payload hd hself) (resolve_payload hd h))

end Accepted

end Kaguya.Auth.Verify
