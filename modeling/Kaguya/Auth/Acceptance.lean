/-
  Kaguya.Auth.Acceptance — which provider tokens are accepted, against what the module
  promises ("we verify the bearer's signature, issuer, audience and expiry"):
  `Acceptable` asks for an `iss` that is the issuer and an `aud` that shares a value
  with ours.

  The code asks less: a token without `iss`, or without `aud`, skips that check, as
  `set_issuer` and `set_audience` only compare a claim the token carries and
  `required_spec_claims` stays `exp`; and an `iss` that lists several issuers needs only
  one of them to be ours. `acceptance_exact` says for every input when the two agree.
-/

import Kaguya.Auth.Verify

namespace Kaguya.Auth.Acceptance

open Kaguya.Auth.Jwt
open Kaguya.Auth.Verify

section Exact

variable (lib : Jwt)

/-- The checks made on a provider token: key, signature, payload and expiry by the code,
    issuer and audience as promised. -/
def Acceptable (now : Nat) (token : String) (jwks : JwkSet lib) (issuer : String) (audiences : List String)
    (claims : IdentityClaims) : Prop :=
  ∃ key payload, KeyFor lib jwks token key ∧ Signed lib now token key payload claims ∧
    payload.iss = .parsed (.single issuer) ∧ ∃ aud, payload.aud = .parsed aud ∧ aud.shares audiences = true

/-- `verify_with_jwks` accepts exactly what is acceptable. -/
def ExactAt (now : Nat) (token : String) (jwks : JwkSet lib) (issuer : String) (audiences : List String) : Prop :=
  ∀ claims, verifyWithJwks lib now token jwks issuer audiences = .ok claims ↔
    Acceptable lib now token jwks issuer audiences claims

/-- The same for `OidcVerifier.verify`, on the set it uses. -/
def VerifyExactAt (o : OidcVerifier) (p : Provider lib) (token : String) : Prop :=
  ∀ claims, ((o.verify lib token).run VerifyCall.exec p).1 = some (.ok claims) ↔
    ∃ kid jwks, headerKid lib token = .ok kid ∧ p.jwksFor kid = .ok jwks ∧
      Acceptable lib p.now token jwks o.issuer o.audiences claims

/-- `iss` is there as one string and `aud` in a form that is read. -/
def CarriesBoth (payload : Payload) : Prop :=
  (∃ iss, payload.iss = .parsed (.single iss)) ∧ ∃ aud, payload.aud = .parsed aud

/-- The token carries both claims, or another check turns it away. -/
def CarriesBothOrFails (now : Nat) (token : String) (jwks : JwkSet lib) (issuer : String) (audiences : List String) :
    Prop :=
  ∀ key payload claims, KeyFor lib jwks token key → Signed lib now token key payload claims →
    issuerOk payload.iss (some [issuer]) = true → audienceOk payload.aud (some audiences) = true → CarriesBoth payload

variable {lib}

/-- A single issuer that is compared is the issuer. -/
theorem issuerOk_single {iss issuer : String} :
    issuerOk (.parsed (.single iss)) (some [issuer]) = true ↔ iss = issuer := by
  simp [issuerOk, OneOrMany.shares]

theorem acceptable_iff {now : Nat} {token : String} {jwks : JwkSet lib} {issuer : String} {audiences : List String}
    {claims : IdentityClaims} :
    Acceptable lib now token jwks issuer audiences claims ↔
      ∃ key payload, KeyFor lib jwks token key ∧ Signed lib now token key payload claims ∧
        issuerOk payload.iss (some [issuer]) = true ∧ audienceOk payload.aud (some audiences) = true ∧
        CarriesBoth payload := by
  constructor
  · intro h
    obtain ⟨key, payload, hk, hs, hiss, aud, haud, hshares⟩ := h
    refine ⟨key, payload, hk, hs, ?_, ?_, ⟨issuer, hiss⟩, aud, haud⟩
    · rw [hiss]
      exact issuerOk_single.mpr rfl
    · rw [haud]
      exact hshares
  · intro h
    obtain ⟨key, payload, hk, hs, hiss, haud, ⟨iss, hi⟩, aud, ha⟩ := h
    rw [hi] at hiss
    rw [ha] at haud
    exact ⟨key, payload, hk, hs, issuerOk_single.mp hiss ▸ hi, aud, ha, haud⟩

theorem exactAt_iff (hd : lib.Documented) (now : Nat) (token : String) (jwks : JwkSet lib) (issuer : String)
    (audiences : List String) :
    ExactAt lib now token jwks issuer audiences ↔ CarriesBothOrFails lib now token jwks issuer audiences := by
  constructor
  · intro h key payload claims hk hs hiss haud
    have hok := (verifyWithJwks_ok hd).mpr ⟨key, payload, hk, hs, hiss, haud⟩
    obtain ⟨key', payload', hk', hs', _, _, hboth⟩ := acceptable_iff.mp ((h claims).mp hok)
    have hp : payload = payload' := Option.some.inj (hs.decoded.symm.trans hs'.decoded)
    exact hp ▸ hboth
  · intro h claims
    rw [verifyWithJwks_ok hd, acceptable_iff]
    constructor
    · intro h
      obtain ⟨key, payload, hk, hs, hiss, haud⟩ := h
      exact ⟨key, payload, hk, hs, hiss, haud, h key payload claims hk hs hiss haud⟩
    · intro h
      obtain ⟨key, payload, hk, hs, hiss, haud, _⟩ := h
      exact ⟨key, payload, hk, hs, hiss, haud⟩

/-- What `OidcVerifier.verify` accepts is what `verify_with_jwks` accepts on its set. -/
theorem run_verify_ok {o : OidcVerifier} {p : Provider lib} {token : String} {claims : IdentityClaims} :
    ((o.verify lib token).run VerifyCall.exec p).1 = some (.ok claims) ↔
      ∃ kid jwks, headerKid lib token = .ok kid ∧ p.jwksFor kid = .ok jwks ∧
        verifyWithJwks lib p.now token jwks o.issuer o.audiences = .ok claims := by
  rw [run_verify, OidcVerifier.resolve]
  cases hk : headerKid lib token with
  | error e => simp
  | ok kid =>
    cases hj : p.jwksFor kid with
    | error m => simp [hj]
    | ok jwks => simp [hj]

theorem verifyExactAt_iff (hd : lib.Documented) (o : OidcVerifier) (p : Provider lib) (token : String) :
    VerifyExactAt lib o p token ↔ ∀ kid jwks, headerKid lib token = .ok kid → p.jwksFor kid = .ok jwks →
      CarriesBothOrFails lib p.now token jwks o.issuer o.audiences := by
  constructor
  · intro h kid jwks hk hj
    refine (exactAt_iff hd p.now token jwks o.issuer o.audiences).mp fun claims => ?_
    have hx := h claims
    rw [run_verify_ok] at hx
    constructor
    · intro hok
      obtain ⟨kid', jwks', hk', hj', ha⟩ := hx.mp ⟨kid, jwks, hk, hj, hok⟩
      cases hk.symm.trans hk'
      cases hj.symm.trans hj'
      exact ha
    · intro ha
      obtain ⟨kid', jwks', hk', hj', hok⟩ := hx.mpr ⟨kid, jwks, hk, hj, ha⟩
      cases hk.symm.trans hk'
      cases hj.symm.trans hj'
      exact hok
  · intro h claims
    rw [run_verify_ok]
    refine exists_congr fun kid => exists_congr fun jwks => and_congr_right fun hk => and_congr_right fun hj => ?_
    exact (exactAt_iff hd p.now token jwks o.issuer o.audiences).mpr (h kid jwks hk hj) claims

/-- The verifiers are exact on the tokens that carry `iss` as one string and `aud`, or
    that fail another check, and on no others. -/
theorem acceptance_exact (hd : lib.Documented) :
    (∀ now token jwks issuer audiences,
      ExactAt lib now token jwks issuer audiences ↔ CarriesBothOrFails lib now token jwks issuer audiences) ∧
    ∀ o p token, VerifyExactAt lib o p token ↔ ∀ kid jwks, headerKid lib token = .ok kid → p.jwksFor kid = .ok jwks →
      CarriesBothOrFails lib p.now token jwks o.issuer o.audiences :=
  ⟨exactAt_iff hd, verifyExactAt_iff hd⟩

end Exact

/-! ## A token without `iss` -/

/-- A token the provider signed that names its audience and no issuer. -/
def noIssuer : Entry where
  token := "eyJ.no-iss.sig"
  header := ⟨.rs256, some "idp"⟩
  payload :=
    { iss := .notPresent, aud := .parsed (.single "lore"), exp := .parsed 2000,
      identity := some { sub := "alice", exp := 2000 } }
  signer := "idp-key"

def noIssuerJwks : JwkSet (ofBook [noIssuer]) := ⟨[(⟨some "idp", "idp-key", .rsa⟩ : BookJwk)]⟩

theorem ofBook_noIssuer : (ofBook [noIssuer]).Documented := ofBook_documented ⟨by decide, by decide⟩

theorem acceptance_exact_noIssuer :
    (∀ now token jwks issuer audiences, ExactAt (ofBook [noIssuer]) now token jwks issuer audiences ↔
      CarriesBothOrFails (ofBook [noIssuer]) now token jwks issuer audiences) ∧
    ∀ o p token, VerifyExactAt (ofBook [noIssuer]) o p token ↔
      ∀ kid jwks, headerKid (ofBook [noIssuer]) token = .ok kid → p.jwksFor kid = .ok jwks →
        CarriesBothOrFails (ofBook [noIssuer]) p.now token jwks o.issuer o.audiences :=
  acceptance_exact ofBook_noIssuer

/-- It is accepted, whatever the issuer. -/
theorem accepts_noIssuer :
    verifyWithJwks (ofBook [noIssuer]) 1000 noIssuer.token noIssuerJwks "https://idp" ["lore"] =
      .ok { sub := "alice", exp := 2000 } := rfl

theorem not_exactAt_noIssuer :
    ¬ ExactAt (ofBook [noIssuer]) 1000 noIssuer.token noIssuerJwks "https://idp" ["lore"] := by
  intro h
  obtain ⟨key, payload, _, hs, hiss, _⟩ := (h _).mp accepts_noIssuer
  have hp : payload = noIssuer.payload := (Option.some.inj hs.decoded).symm
  rw [hp] at hiss
  cases hiss

end Kaguya.Auth.Acceptance
