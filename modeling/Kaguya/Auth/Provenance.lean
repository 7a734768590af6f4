/-
  Kaguya.Auth.Provenance — where minted tokens come from. The system is the service in
  front of any number of clients: every RPC with any authorization, interleaved call by
  call, the store and the sessions answering anything. Its state is the log of what
  mattered, newest first: a token that `OidcVerifier.verify` accepted, a token minted, a
  bearer authenticated.

  A verification is the step at which it returns. Its own calls came before, between the
  steps of others, so the clock may have read anything and the cached key set may be any
  that the provider ever served (`yields_verify`, `yields_claims`: the steps are what the
  programs of `Kaguya.Auth.Verify` return when their calls are answered so;
  `verify_caches_served`: the cache holds no other sets).

  Signatures are ideal (`Unforged`): what verifies under the service's key has the
  payload of a token it minted before, what verifies under a key of the provider is a
  token that the provider signed. What a client makes of the tokens it has seen is free.

  Proved, by rely/guarantee over the threads (`sound`): every minted token and every
  authentication goes back to one accepted provider token, with its `exp`, and exchanging
  minted tokens changes nothing that a bearer is read for (`tokens_from_logins`).
-/

import Mathlib.Logic.Relation
import Kaguya.Auth.Runs

namespace Kaguya.Auth.Provenance

open Kaguya.Lib
open Kaguya.Auth.Jwt
open Kaguya.Auth.Service
open Kaguya.Auth.Verify
open Kaguya.Auth.Runs (holds_reply)

/-! ## The system -/

/-- A service in front of a provider. -/
structure Deployment (lib : Jwt) where
  identity : Identity lib
  signingKey : lib.EncodingKey
  /-- The key sets the provider serves, at one time or another. -/
  serves : JwkSet lib → Prop
  /-- The tokens the provider signed. -/
  signed : String → Prop

inductive Record where
  /-- `OidcVerifier.verify` accepted the token, its clock at `now`. -/
  | accepted (now : Nat) (token : String) (claims : IdentityClaims)
  /-- The RPC minted the token. -/
  | minted (rpc : Rpc) (token : String) (claims : MintedClaims)
  /-- `Identity.claims` resolved the bearer, the clock of the verifier at `now`. -/
  | authenticated (now : Nat) (bearer : String) (claims : IdentityClaims)

section System

variable {lib : Jwt} (d : Deployment lib)

/-- The answers a verifier's calls may get. -/
def Answered : (c : VerifyCall lib) → c.Ans → Prop
  | .readJwks, cached => ∀ jwks ∈ cached, d.serves jwks
  | .fetchJwks, fetched => ∀ jwks, fetched = .ok jwks → d.serves jwks
  | _, _ => True

/-- The provider's verifier accepts the token with a set that was served. -/
def Accepts (now : Nat) (token : String) (claims : IdentityClaims) : Prop :=
  ∃ jwks, d.serves jwks ∧
    verifyWithJwks lib now token jwks d.identity.oidc.issuer d.identity.oidc.audiences = .ok claims

/-- Only the service signs with its key, only the provider with the keys it serves. -/
structure Unforged (log : List Record) (token : String) : Prop where
  own : lib.verifies d.identity.selfVerifier.key .rs256 token = true →
    ∃ rpc t m, .minted rpc t m ∈ log ∧ lib.payload token = some m.payload
  provider : ∀ jwks key, d.serves jwks → KeyFor lib jwks token key → lib.verifies key .rs256 token = true →
    d.signed token

/-- `OidcVerifier.verify` returns. -/
def Verified (log : List Record) (token : String) : Except VerifyError IdentityClaims → List Record → Prop
  | .ok claims, log' => ∃ now, Accepts d now token claims ∧ log' = .accepted now token claims :: log
  | .error _, log' => log' = log

/-- `Identity.claims` returns: a token of ours, or else one of the provider's. -/
def Resolved (log : List Record) (bearer : String) : Except VerifyError IdentityClaims → List Record → Prop
  | .ok claims, log' =>
    (∃ now, d.identity.selfVerifier.claims now bearer = some claims ∧ log' = .authenticated now bearer claims :: log) ∨
    ∃ now before, Accepts d now bearer claims ∧ d.identity.selfVerifier.claims before bearer = none ∧
      log' = .authenticated now bearer claims :: .accepted now bearer claims :: log
  | .error _, log' => log' = log

/-- Encoding with the service's key. -/
def Encoded (rpc : Rpc) (log : List Record) (m : MintedClaims) : Except String String → List Record → Prop
  | .ok token, log' => log' = .minted rpc token m :: log
  | .error _, log' => log' = log

def callSem (rpc : Rpc) : (c : Call) → List Record → c.Ans → List Record → Prop
  | .identity bearer, log, r, log' => Unforged d log bearer ∧ Resolved d log bearer r log'
  | .oidc token, log, r, log' => Unforged d log token ∧ Verified d log token r log'
  | .encode header m, log, r, log' => r = lib.encode header m d.signingKey ∧ Encoded rpc log m r log'
  | _, log, _, log' => log' = log

def service (U : Unicode) (a : AuthConfig) :
    System Rpc Empty Call Call.Ans (Except Status Reply) (List Record) where
  sem := callSem d
  env e := e.elim
  body rpc := rpc.handle U a

abbrev Reach (U : Unicode) (a : AuthConfig) := (service d U a).Reach (fun _ _ => True) (· = [])

end System

/-! ## The steps are the verifiers' -/

section Yields

variable {lib : Jwt} {d : Deployment lib}

theorem headerKid_of_verify {now : Nat} {token : String} {jwks : JwkSet lib} {issuer : String} {audiences : List String}
    {claims : IdentityClaims} (h : verifyWithJwks lib now token jwks issuer audiences = .ok claims) :
    ∃ kid, headerKid lib token = .ok kid := by
  unfold verifyWithJwks at h
  split at h
  · cases h
  · rename_i kid hk
    exact ⟨kid, hk⟩

theorem cachedFor_mem {kid : String} {cached : Option (JwkSet lib)} {jwks : JwkSet lib}
    (h : cachedFor lib kid cached = some jwks) : jwks ∈ cached := by
  cases cached with
  | none => cases h
  | some set =>
    by_cases hf : (set.find kid).isSome = true
    · rw [cachedFor, if_pos hf] at h
      exact h
    · rw [cachedFor, if_neg hf] at h
      cases h

/-- With its calls answered from the run so far, `OidcVerifier.verify` can accept the
    token exactly when a step can. -/
theorem yields_verify {token : String} {claims : IdentityClaims} :
    Prog.Yields (Answered d) (d.identity.oidc.verify lib token) (.ok claims) ↔ ∃ now, Accepts d now token claims := by
  unfold OidcVerifier.verify
  constructor
  · intro h
    cases hk : headerKid lib token with
    | error e =>
      rw [hk] at h
      cases Prog.yields_ret.mp h
    | ok kid =>
      rw [hk] at h
      obtain ⟨cached, hcached, h⟩ := Prog.yields_ask.mp h
      cases hc : cachedFor lib kid cached with
      | some jwks =>
        rw [hc] at h
        obtain ⟨now, _, h⟩ := Prog.yields_ask.mp h
        exact ⟨now, jwks, hcached jwks (cachedFor_mem hc), (Prog.yields_ret.mp h).symm⟩
      | none =>
        rw [hc] at h
        obtain ⟨fetched, hfetched, h⟩ := Prog.yields_ask.mp h
        cases fetched with
        | error m => cases Prog.yields_ret.mp h
        | ok jwks =>
          obtain ⟨now, _, h⟩ := Prog.yields_ask.mp h
          obtain ⟨_, _, h⟩ := Prog.yields_ask.mp h
          exact ⟨now, jwks, hfetched jwks rfl, (Prog.yields_ret.mp h).symm⟩
  · intro h
    obtain ⟨now, jwks, hserved, hok⟩ := h
    obtain ⟨kid, hk⟩ := headerKid_of_verify hok
    rw [hk]
    -- nothing cached: the set is fetched
    have uncached : Answered d .readJwks none := fun jwks h => by cases h
    have fetched : Answered d .fetchJwks (.ok jwks) := fun jwks' h => by cases h; exact hserved
    refine .call none uncached (.call (.ok jwks) fetched (.call now trivial (.call () trivial ?_)))
    rw [← hok]
    exact .ret _

/-- Likewise `Identity.claims`. -/
theorem yields_claims {log : List Record} {bearer : String} {claims : IdentityClaims} :
    Prog.Yields (Answered d) (d.identity.claims bearer) (.ok claims) ↔
      ∃ log', Resolved d log bearer (.ok claims) log' := by
  unfold Identity.claims
  constructor
  · intro h
    obtain ⟨now, _, h⟩ := Prog.yields_ask.mp h
    cases hs : d.identity.selfVerifier.claims now bearer with
    | some c =>
      rw [hs] at h
      cases Prog.yields_ret.mp h
      exact ⟨_, Or.inl ⟨now, hs, rfl⟩⟩
    | none =>
      rw [hs] at h
      obtain ⟨now', hok⟩ := yields_verify.mp h
      exact ⟨_, Or.inr ⟨now', now, hok, hs, rfl⟩⟩
  · intro h
    obtain ⟨log', ⟨now, hs, _⟩ | ⟨now, before, hok, hs, _⟩⟩ := h
    · refine Prog.yields_ask.mpr ⟨now, trivial, ?_⟩
      rw [hs]
      exact .ret _
    · refine Prog.yields_ask.mpr ⟨before, trivial, ?_⟩
      rw [hs]
      exact yields_verify.mpr ⟨now, hok⟩

/-- The cache is only ever written with a set that was fetched. -/
theorem verify_caches_served (token : String) :
    Holds (fun c (_ : Unit) b _ => Answered d c b) (fun _ => True) (fun _ _ _ => True)
      (fun c _ => ∀ jwks, c = .writeJwks jwks → d.serves jwks) (d.identity.oidc.verify lib token)
      (fun _ _ => True) () := by
  unfold OidcVerifier.verify
  cases headerKid lib token with
  | error e => trivial
  | ok kid =>
    refine holds_ask (fun _ _ jwks h => by cases h) fun _ cached _ _ _ _ => ?_
    cases cachedFor lib kid cached with
    | some jwks => exact holds_ask (fun _ _ jwks h => by cases h) fun _ _ _ _ _ _ => trivial
    | none =>
      refine holds_ask (fun _ _ jwks h => by cases h) fun _ fetched _ _ _ hfetched => ?_
      cases fetched with
      | error m => trivial
      | ok jwks =>
        refine holds_ask (fun _ _ jwks h => by cases h) fun _ now _ _ _ _ => ?_
        refine holds_ask (fun _ _ jwks' h => ?_) fun _ _ _ _ _ _ => trivial
        cases h
        exact hfetched jwks rfl

end Yields

/-! ## What the log keeps -/

section Log

variable {lib : Jwt} (d : Deployment lib) (U : Unicode)

/-- A token with the claims, signed by the provider, was accepted before. -/
def Login (past : List Record) (o : IdentityClaims) : Prop :=
  ∃ now token, .accepted now token o ∈ past ∧ Accepts d now token o ∧ d.signed token

/-- The subject and the expiry are those of such a token. -/
def Descends (past : List Record) (sub : String) (exp : UInt64) : Prop :=
  ∃ o, Login d past o ∧ exp = o.exp ∧ (sub = o.sub ∨ sub = canonicalSubject U o)

/-- An exchange mints what its bearer says. -/
def FromBearer (lib : Jwt) (rpc : Rpc) (m : MintedClaims) : Prop :=
  ∀ auth ids, rpc = .exchangeUserTokenForMultiresourceToken auth ids →
    ∃ a iat claims resources, PayloadIs lib (bearer auth) claims ∧ m = mintedFor a iat claims.sub claims resources

/-- What a record owes to the log before it. -/
def Justified (past : List Record) : Record → Prop
  | .accepted now token claims => Accepts d now token claims ∧ d.signed token
  | .minted rpc token m => Descends d U past m.sub m.exp ∧ FromBearer lib rpc m ∧ lib.payload token = some m.payload
  | .authenticated now _ claims => Descends d U past claims.sub claims.exp ∧ now ≤ claims.exp.toNat + 60

def LogOk : List Record → Prop
  | [] => True
  | r :: past => Justified d U past r ∧ LogOk past

variable {d U}

theorem descends_mono {past log : List Record} {sub : String} {exp : UInt64} (hs : past <:+ log)
    (h : Descends d U past sub exp) : Descends d U log sub exp := by
  obtain ⟨o, ⟨now, token, hm, hl⟩, ho⟩ := h
  exact ⟨o, ⟨now, token, hs.subset hm, hl⟩, ho⟩

theorem logOk_append {newer past : List Record} (h : LogOk d U (newer ++ past)) : LogOk d U past := by
  induction newer with
  | nil => exact h
  | cons r newer ih => exact ih h.2

/-- Every record is justified by those before it. -/
theorem logOk_mem {log : List Record} (h : LogOk d U log) {r : Record} (hr : r ∈ log) :
    ∃ past, past <:+ log ∧ Justified d U past r := by
  obtain ⟨newer, past, rfl⟩ := List.append_of_mem hr
  exact ⟨past, (List.suffix_cons r past).trans (List.suffix_append newer _), (logOk_append h).1⟩

/-! ### Each call keeps it -/

/-- A token of ours says what it was minted with, so it descends as that did. -/
theorem own_descends (hd : lib.Documented) {log : List Record} {bearer : String} {now : Nat} {claims : IdentityClaims}
    (hlog : LogOk d U log) (hu : Unforged d log bearer) (h : d.identity.selfVerifier.claims now bearer = some claims) :
    Descends d U log claims.sub claims.exp ∧ now ≤ claims.exp.toNat + 60 := by
  obtain ⟨payload, hs, _⟩ := (selfVerifier_ok hd).mp h
  obtain ⟨rpc, t, m, hm, hpay⟩ := hu.own hs.verifies
  obtain ⟨past, hpast, hdesc, _⟩ := logOk_mem hlog hm
  have hclaims : claims = m.identity := payloadIs_unique ⟨payload, hs.decoded, hs.reads⟩ ⟨m.payload, hpay, rfl⟩
  refine ⟨?_, hs.fresh⟩
  rw [hclaims]
  exact descends_mono hpast hdesc

theorem accepts_fresh (hd : lib.Documented) {now : Nat} {token : String} {o : IdentityClaims}
    (h : Accepts d now token o) : now ≤ o.exp.toNat + 60 := by
  obtain ⟨jwks, _, hok⟩ := h
  obtain ⟨_, _, _, hs, _⟩ := (verifyWithJwks_ok hd).mp hok
  exact hs.fresh

theorem provider_signed (hd : lib.Documented) {log : List Record} {token : String} {now : Nat} {claims : IdentityClaims}
    (hu : Unforged d log token) (h : Accepts d now token claims) : d.signed token := by
  obtain ⟨jwks, hserved, hok⟩ := h
  obtain ⟨key, payload, hkey, hs, _⟩ := (verifyWithJwks_ok hd).mp hok
  exact hu.provider jwks key hserved hkey hs.verifies

/-- A token that was just accepted is a login. -/
theorem descends_accepted {log : List Record} {now : Nat} {token sub : String} {o : IdentityClaims}
    (hok : Accepts d now token o) (hsigned : d.signed token) (hsub : sub = o.sub ∨ sub = canonicalSubject U o) :
    Descends d U (.accepted now token o :: log) sub o.exp :=
  ⟨o, ⟨now, token, List.mem_cons_self, hok, hsigned⟩, rfl, hsub⟩

/-- Before a call that mints: the claims descend from a login. -/
def Pre (d : Deployment lib) (U : Unicode) (rpc : Rpc) (c : Call) (log : List Record) : Prop :=
  ∀ header m, c = .encode header m → Descends d U log m.sub m.exp ∧ FromBearer lib rpc m

theorem callSem_grows {rpc : Rpc} {c : Call} {log log' : List Record} {r : c.Ans} (h : callSem d rpc c log r log') :
    log <:+ log' := by
  cases c with
  | identity bearer =>
    rcases r with e | claims
    · exact h.2 ▸ List.suffix_refl _
    · rcases h.2 with ⟨now, _, rfl⟩ | ⟨now, before, _, _, rfl⟩
      · exact List.suffix_cons _ _
      · exact (List.suffix_cons _ _).trans (List.suffix_cons _ _)
  | oidc token =>
    rcases r with e | claims
    · exact h.2 ▸ List.suffix_refl _
    · obtain ⟨now, _, rfl⟩ := h.2
      exact List.suffix_cons _ _
  | encode header m =>
    rcases r with e | token
    · exact h.2 ▸ List.suffix_refl _
    · exact h.2 ▸ List.suffix_cons _ _
  | _ => exact h ▸ List.suffix_refl _

theorem callSem_logOk (hd : lib.Documented) {rpc : Rpc} {c : Call} {log log' : List Record} {r : c.Ans}
    (hlog : LogOk d U log) (hpre : Pre d U rpc c log) (h : callSem d rpc c log r log') : LogOk d U log' := by
  cases c with
  | identity bearer =>
    obtain ⟨hu, h⟩ := h
    rcases r with e | claims
    · exact h ▸ hlog
    · rcases h with ⟨now, hs, rfl⟩ | ⟨now, before, hok, _, rfl⟩
      · exact ⟨own_descends hd hlog hu hs, hlog⟩
      · have hsigned := provider_signed hd hu hok
        exact ⟨⟨descends_accepted hok hsigned (Or.inl rfl), accepts_fresh hd hok⟩, ⟨hok, hsigned⟩, hlog⟩
  | oidc token =>
    obtain ⟨hu, h⟩ := h
    rcases r with e | claims
    · exact h ▸ hlog
    · obtain ⟨now, hok, rfl⟩ := h
      exact ⟨⟨hok, provider_signed hd hu hok⟩, hlog⟩
  | encode header m =>
    obtain ⟨he, h⟩ := h
    rcases r with e | token
    · exact h ▸ hlog
    · obtain ⟨hdesc, hfrom⟩ := hpre header m rfl
      rw [h]
      exact ⟨⟨hdesc, hfrom, (hd.encode_ok header m d.signingKey token he.symm).2⟩, hlog⟩
  | _ => exact h ▸ hlog

/-- What an RPC knows once its bearer is resolved. -/
theorem resolved_descends (hd : lib.Documented) {log log' : List Record} {bearer : String} {claims : IdentityClaims}
    (hlog : LogOk d U log') (h : Resolved d log bearer (.ok claims) log') :
    Descends d U log' claims.sub claims.exp ∧ PayloadIs lib bearer claims := by
  rcases h with ⟨now, hs, rfl⟩ | ⟨now, before, ⟨jwks, _, hok⟩, _, rfl⟩
  · obtain ⟨payload, hsig, _⟩ := (selfVerifier_ok hd).mp hs
    exact ⟨descends_mono (List.suffix_cons _ _) hlog.1.1, payload, hsig.decoded, hsig.reads⟩
  · exact ⟨descends_mono (List.suffix_cons _ _) hlog.1.1, verifyWithJwks_payload hd hok⟩

/-- And once the provider's verifier accepted its token. -/
theorem verified_descends {log log' : List Record} {token : String} {claims : IdentityClaims} (hlog : LogOk d U log')
    (h : Verified d log token (.ok claims) log') : Descends d U log' (canonicalSubject U claims) claims.exp := by
  obtain ⟨now, hok, rfl⟩ := h
  exact descends_accepted hok hlog.1.2 (Or.inr rfl)

end Log

/-! ## The threads -/

section Threads

variable {lib : Jwt} {d : Deployment lib} {U : Unicode} {a : AuthConfig} {rpc : Rpc} {log : List Record}

/-- The RPC's thread at `log`: it mints what it may, while the log grows. -/
abbrev Mints {α : Type} (d : Deployment lib) (U : Unicode) (rpc : Rpc) (p : Act α) (Q : α → List Record → Prop)
    (log : List Record) : Prop :=
  Holds (callSem d rpc) (LogOk d U) (fun _ log log' => log <:+ log') (Pre d U rpc) p Q log

def NoEncode : Call → Prop
  | .encode .. => False
  | _ => True

theorem pre_noEncode {c : Call} (hc : NoEncode c) : Pre d U rpc c log := by
  intro header m e
  rw [e] at hc
  exact hc.elim

theorem mints_ask {α : Type} {c : Call} {f : c.Ans → Act α} {Q : α → List Record → Prop} (hc : NoEncode c)
    (hk : ∀ log₁ r log₂, log <:+ log₁ → LogOk d U log₂ → callSem d rpc c log₁ r log₂ → Mints d U rpc (f r) Q log₂) :
    Mints d U rpc (Prog.ask c >>= f) Q log :=
  holds_ask (fun _ _ => pre_noEncode hc) hk

/-- A program that mints only what descends keeps what descends. -/
theorem mints_makes {α : Type} {P : Call → Prop} {p : Act α} {sub : String} {exp : UInt64} (hp : p.Makes P)
    (hP : ∀ c log, P c → Descends d U log sub exp → Pre d U rpc c log) (h : Descends d U log sub exp) :
    Mints d U rpc p (fun _ log' => Descends d U log' sub exp) log :=
  holds_of_makes hp hP (fun _ _ _ h hs => descends_mono hs h) (fun _ _ _ _ h hs => descends_mono (callSem_grows hs) h) h

theorem mints_noEncode {α : Type} {p : Act α} (hp : p.Makes NoEncode) : Mints d U rpc p (fun _ _ => True) log :=
  holds_of_makes hp (fun _ _ hc _ => pre_noEncode hc) (fun _ _ _ _ _ => trivial) (fun _ _ _ _ _ _ => trivial) trivial

theorem mint_mints {sub : String} {claims : IdentityClaims} {resources : List ResourceGrant}
    (h : Descends d U log sub claims.exp) (hfrom : ∀ iat, FromBearer lib rpc (mintedFor a iat sub claims resources)) :
    Mints d U rpc (mint a.kid a.authIssuer a.audience sub (displayNames claims).1 (displayNames claims).2 claims.exp
      resources) (fun _ log' => Descends d U log' sub claims.exp) log := by
  refine mints_makes (makes_mint (P := fun c => ∀ header m, c = .encode header m →
    ∃ iat, m = mintedFor a iat sub claims resources) ?_ ?_) ?_ h
  · intro header m hc
    cases hc
  · intro iat header m hc
    cases hc
    exact ⟨iat, rfl⟩
  · intro c log' hc hdesc header m e
    obtain ⟨iat, rfl⟩ := hc header m e
    exact ⟨hdesc, hfrom iat⟩

/-- A login RPC mints for the canonical subject of its login. -/
theorem mintAuthn_mints {claims : IdentityClaims} (h : Descends d U log (canonicalSubject U claims) claims.exp)
    (hrpc : ∀ auth ids, rpc ≠ .exchangeUserTokenForMultiresourceToken auth ids) :
    Mints d U rpc (mintAuthn U a claims) (fun _ _ => True) log := by
  refine holds_bind (holds_mono (fun r log' _ => ?_) (mint_mints h fun iat auth ids e => absurd e (hrpc auth ids)))
  cases r <;> trivial

theorem exchangeExternal_mints {token : String}
    (hrpc : ∀ auth ids, rpc ≠ .exchangeUserTokenForMultiresourceToken auth ids) :
    Mints d U rpc (exchangeExternalTokenForUserToken U a token) (fun _ _ => True) log := by
  unfold exchangeExternalTokenForUserToken
  by_cases he : token.isEmpty = true
  · rw [if_pos he]
    trivial
  · rw [if_neg he]
    refine mints_ask trivial fun log₁ r log₂ _ hlog hr => ?_
    cases r with
    | error e => trivial
    | ok claims => exact mintAuthn_mints (verified_descends hlog hr.2) hrpc

theorem getAuthSession_mints {code state : String}
    (hrpc : ∀ auth ids, rpc ≠ .exchangeUserTokenForMultiresourceToken auth ids) :
    Mints d U rpc (getAuthSession U a code state) (fun _ _ => True) log := by
  refine mints_ask trivial fun log₁ session log₂ _ _ _ => ?_
  cases session with
  | none => trivial
  | some s =>
    refine holds_bind (holds_mono (fun r log₃ _ => ?_) (mints_noEncode (makes_poll s.2 s.1 trivial)))
    rcases r with e | p
    · trivial
    · cases p with
      | pending => trivial
      | denied e => exact mints_ask trivial fun _ _ _ _ _ _ => trivial
      | token t =>
        refine mints_ask trivial fun log₄ r log₅ _ hlog hr => ?_
        cases r with
        | error e => trivial
        | ok claims =>
          -- the log has grown when the session is gone, and the login is still in it
          refine mints_ask trivial fun log₆ _ log₇ hgrow _ hsem => ?_
          have hdesc := descends_mono (hgrow.trans (callSem_grows hsem)) (verified_descends hlog hr.2)
          refine holds_bind (holds_mono (fun r log₈ _ => ?_) (mintAuthn_mints hdesc hrpc))
          cases r <;> trivial

/-- The exchange mints for the subject of its bearer. -/
theorem exchange_mints (hd : lib.Documented) {auth : Option String} {ids : List String} :
    Mints d U (.exchangeUserTokenForMultiresourceToken auth ids) (exchangeUserTokenForMultiresourceToken a auth ids)
      (fun _ _ => True) log := by
  unfold exchangeUserTokenForMultiresourceToken
  by_cases he : (bearer auth).isEmpty = true
  · simp only [he, if_true]
    trivial
  · simp only [he]
    refine mints_ask trivial fun log₁ r log₂ _ hlog hr => ?_
    cases r with
    | error e => trivial
    | ok claims =>
      obtain ⟨hdesc, hpay⟩ := resolved_descends hd hlog hr.2
      have roles : Mints d U (.exchangeUserTokenForMultiresourceToken auth ids) (grantedIds claims.sub ids)
          (fun _ log' => Descends d U log' claims.sub claims.exp) log₂ :=
        mints_makes (makes_grantedIds (fun _ => trivial) ids) (fun _ _ hc _ => pre_noEncode hc) hdesc
      refine holds_bind (holds_mono (fun resources log₃ hdesc' => ?_) roles)
      refine holds_bind (holds_mono (fun r log₄ _ => ?_) (mint_mints hdesc' fun iat auth' ids' e => ?_))
      · cases r <;> trivial
      · cases e
        exact ⟨a, iat, claims, resources, hpay, rfl⟩

theorem may_noEncode {c : Call} (hm : ¬ rpc.Mints) (hc : rpc.May c) : NoEncode c := by
  cases c with
  | encode header m => exact hm hc
  | _ => trivial

theorem handle_mints (hd : lib.Documented) (rpc : Rpc) (log : List Record) :
    Mints d U rpc (rpc.handle U a) (fun _ _ => True) log := by
  by_cases hm : rpc.Mints
  · cases rpc with
    | getAuthSession code state => exact holds_reply (getAuthSession_mints fun _ _ h => by cases h)
    | exchangeExternalTokenForUserToken token => exact holds_reply (exchangeExternal_mints fun _ _ h => by cases h)
    | exchangeUserTokenForMultiresourceToken auth ids => exact holds_reply (exchange_mints hd)
    | _ => exact hm.elim
  · exact mints_noEncode (Prog.makes_mono (fun _ => may_noEncode hm) (handle_makes U a rpc))

theorem sound (hd : lib.Documented) (d : Deployment lib) (U : Unicode) (a : AuthConfig) :
    Sound (service d U a) (fun _ _ => True) (· = []) (LogOk d U) (fun _ _ log log' => log <:+ log') (Pre d U) where
  initial log h := h ▸ trivial
  act _ _ _ _ _ hlog hpre h := callSem_logOk hd hlog hpre h
  env e := e.elim
  body rpc log _ := handle_mints hd rpc log
  refl _ _ log := List.suffix_refl log
  trans _ _ _ _ _ h h' := h.trans h'
  others p v p' _ _ hs n i c k _ _ := by
    cases hs with
    | start i => exact List.suffix_refl _
    | act n i c k b log' _ h => exact callSem_grows h
    | env e => exact e.elim

theorem reach_logOk (hd : lib.Documented) {p : Pool Rpc Call Call.Ans (Except Status Reply) (List Record)}
    (hp : Reach d U a p) : LogOk d U p.shared := (reach_holds (sound hd d U a) hp).1

end Threads

/-! ## Provenance -/

section Provenance

variable {lib : Jwt} {d : Deployment lib} {U : Unicode} {a : AuthConfig} {log : List Record}

/-- The second token was minted in exchange for the first, a minted one. -/
def Exchange (log : List Record) (t t' : String × MintedClaims) : Prop :=
  (∃ rpc, .minted rpc t.1 t.2 ∈ log) ∧
    ∃ auth ids, .minted (.exchangeUserTokenForMultiresourceToken auth ids) t'.1 t'.2 ∈ log ∧ bearer auth = t.1

/-- Where the tokens of a log come from, whatever was exchanged for what. -/
structure FromLogins (d : Deployment lib) (U : Unicode) (log : List Record) : Prop where
  accepted : ∀ now token o, .accepted now token o ∈ log → d.signed token ∧ now ≤ o.exp.toNat + 60
  minted : ∀ newer rpc token m past, log = newer ++ .minted rpc token m :: past →
    ∃ o, Login d past o ∧ m.exp = o.exp ∧ (m.sub = o.sub ∨ m.sub = canonicalSubject U o)
  chain : ∀ t t', Relation.ReflTransGen (Exchange log) t t' →
    t'.2.sub = t.2.sub ∧ t'.2.exp = t.2.exp ∧ t'.2.name = t.2.name ∧ t'.2.preferredUsername = t.2.preferredUsername
  authenticated : ∀ newer now bearer claims past, log = newer ++ .authenticated now bearer claims :: past →
    ∃ o, Login d past o ∧ (claims.sub = o.sub ∨ claims.sub = canonicalSubject U o) ∧ now ≤ o.exp.toNat + 60

/-- The display names of a minted token are those it was minted with. -/
theorem displayNames_minted (m : MintedClaims) : displayNames m.identity = (m.name, m.preferredUsername) := rfl

/-- What an exchange for a token mints has the token's identity. -/
theorem exchange_identity (hlog : LogOk d U log) {t t' : String × MintedClaims} (h : Exchange log t t') :
    t'.2.identity = t.2.identity := by
  obtain ⟨⟨rpc, hm⟩, auth, ids, hm', hb⟩ := h
  obtain ⟨_, _, _, _, hpay⟩ := logOk_mem hlog hm
  obtain ⟨_, _, _, hfrom, _⟩ := logOk_mem hlog hm'
  obtain ⟨a, iat, claims, resources, hclaims, hmint⟩ := hfrom auth ids rfl
  rw [hb] at hclaims
  have hident : claims = t.2.identity := payloadIs_unique hclaims ⟨t.2.payload, hpay, rfl⟩
  rw [hmint, hident]
  rfl

theorem chain_identity (hlog : LogOk d U log) {t t' : String × MintedClaims}
    (h : Relation.ReflTransGen (Exchange log) t t') : t'.2.identity = t.2.identity := by
  induction h with
  | refl => rfl
  | tail _ hx ih => exact (exchange_identity hlog hx).trans ih

theorem chain_same {m m' : MintedClaims} (h : m'.identity = m.identity) :
    m'.sub = m.sub ∧ m'.exp = m.exp ∧ m'.name = m.name ∧ m'.preferredUsername = m.preferredUsername := by
  have hnames : displayNames m'.identity = displayNames m.identity := congrArg displayNames h
  rw [displayNames_minted, displayNames_minted, Prod.mk.injEq] at hnames
  exact ⟨congrArg IdentityClaims.sub h, congrArg IdentityClaims.exp h, hnames.1, hnames.2⟩

/-- In every run, every minted token and every authentication goes back to one accepted
    token of the provider, and neither outlives it. -/
theorem tokens_from_logins (hd : lib.Documented) {p : Pool Rpc Call Call.Ans (Except Status Reply) (List Record)}
    (hp : Reach d U a p) : FromLogins d U p.shared := by
  have hlog : LogOk d U p.shared := reach_logOk hd hp
  refine ⟨?_, ?_, ?_, ?_⟩
  · intro now token o hm
    obtain ⟨_, _, hok, hsigned⟩ := logOk_mem hlog hm
    exact ⟨hsigned, accepts_fresh hd hok⟩
  · intro newer rpc token m past e
    rw [e] at hlog
    exact (logOk_append hlog).1.1
  · intro t t' h
    exact chain_same (chain_identity hlog h)
  · intro newer now bearer claims past e
    rw [e] at hlog
    obtain ⟨⟨o, hlogin, hexp, hsub⟩, hfresh⟩ := (logOk_append hlog).1
    exact ⟨o, hlogin, hsub, hexp ▸ hfresh⟩

end Provenance

/-! ### A login and an exchange -/

def alice : IdentityClaims :=
  { sub := "alice", exp := 2000, email := some "Alice@example.com", emailVerified := some true }

/-- What her login mints, and what exchanging that mints. -/
def aliceMinted (iat : UInt64) : MintedClaims := mintedFor AuthConfig.lore iat "alice@example.com" alice []

/-- The tokens there are: the provider's for alice, and the service's. -/
def tokens : List Entry :=
  [ { token := "eyJ.alice.sig"
      header := ⟨.rs256, some "idp"⟩
      payload :=
        { iss := .parsed (.single "https://idp"), aud := .parsed (.single "lore"), exp := .parsed 2000,
          identity := some alice }
      signer := "idp-key" },
    { token := "eyJ.kaguya.sig"
      header := mintHeader AuthConfig.lore
      payload := (aliceMinted 1000).payload
      signer := "kaguya-key" } ]

theorem ofBook_tokens : (ofBook tokens).Documented := ofBook_documented ⟨by decide, by decide⟩

def idpJwks : JwkSet (ofBook tokens) := ⟨[(⟨some "idp", "idp-key", .rsa⟩ : BookJwk)]⟩

def lore : Deployment (ofBook tokens) where
  identity := ⟨⟨(⟨some "kaguya-key", "kaguya-key", .rsa⟩ : BookJwk), "https://auth.lore.example", "lore.example"⟩,
    ⟨"https://idp", ["lore"]⟩⟩
  signingKey := "kaguya-key"
  serves jwks := jwks = idpJwks
  signed token := token = "eyJ.alice.sig"

/-- She logs in and exchanges her token once, past its expiry but in the leeway. -/
def exchanged : List Record :=
  [ .minted (.exchangeUserTokenForMultiresourceToken (some "Bearer eyJ.kaguya.sig") []) "eyJ.kaguya.sig"
      (aliceMinted 2050),
    .authenticated 2050 "eyJ.kaguya.sig" (aliceMinted 1000).identity,
    .minted (.exchangeExternalTokenForUserToken "eyJ.alice.sig") "eyJ.kaguya.sig" (aliceMinted 1000),
    .accepted 1000 "eyJ.alice.sig" alice ]

theorem alice_unforged (log : List Record) : Unforged lore log "eyJ.alice.sig" where
  own h := absurd h (by decide)
  provider _ _ _ _ _ := rfl

theorem kaguya_unforged {log : List Record} {rpc : Rpc}
    (h : .minted rpc "eyJ.kaguya.sig" (aliceMinted 1000) ∈ log) : Unforged lore log "eyJ.kaguya.sig" where
  own _ := ⟨rpc, "eyJ.kaguya.sig", aliceMinted 1000, h, rfl⟩
  provider jwks key hserved hkey _ := by
    -- the provider has no key with this kid
    obtain ⟨header, kid, jwk, hh, hk, hj, _⟩ := hkey
    cases hh
    cases hk
    rw [show jwks = idpJwks from hserved] at hj
    cases hj

theorem exchanged_reached : ∃ p, Reach lore Unicode.ascii AuthConfig.lore p ∧ p.shared = exchanged := by
  let login : Rpc := .exchangeExternalTokenForUserToken "eyJ.alice.sig"
  let exchange : Rpc := .exchangeUserTokenForMultiresourceToken (some "Bearer eyJ.kaguya.sig") []
  have h0 : Reach lore Unicode.ascii AuthConfig.lore ⟨[], []⟩ := .init _ rfl
  -- the login
  have h1 := h0.step (.start login) trivial (.start _ login)
  have verified : callSem lore login (.oidc "eyJ.alice.sig") [] (.ok alice) (exchanged.drop 3) :=
    ⟨alice_unforged _, 1000, ⟨idpJwks, rfl, rfl⟩, rfl⟩
  have h2 := h1.step (.act 0) trivial (.act _ 0 login _ _ _ _ rfl verified)
  have timed : callSem lore login .nowSecs (exchanged.drop 3) (1000 : UInt64) (exchanged.drop 3) := rfl
  have h3 := h2.step (.act 0) trivial (.act _ 0 login Call.nowSecs _ (1000 : UInt64) _ rfl timed)
  have encoded : callSem lore login (.encode (mintHeader AuthConfig.lore) (aliceMinted 1000)) (exchanged.drop 3)
      (.ok "eyJ.kaguya.sig") (exchanged.drop 2) := ⟨rfl, rfl⟩
  have h4 := h3.step (.act 0) trivial (.act _ 0 login _ _ _ _ rfl encoded)
  -- the exchange
  have h5 := h4.step (.start exchange) trivial (.start _ exchange)
  have resolved : callSem lore exchange (.identity "eyJ.kaguya.sig") (exchanged.drop 2)
      (.ok (aliceMinted 1000).identity) (exchanged.drop 1) :=
    ⟨kaguya_unforged List.mem_cons_self, Or.inl ⟨2050, rfl, rfl⟩⟩
  have h6 := h5.step (.act 1) trivial (.act _ 1 exchange _ _ _ _ rfl resolved)
  have timed' : callSem lore exchange .nowSecs (exchanged.drop 1) (2050 : UInt64) (exchanged.drop 1) := rfl
  have h7 := h6.step (.act 1) trivial (.act _ 1 exchange Call.nowSecs _ (2050 : UInt64) _ rfl timed')
  have encoded' : callSem lore exchange (.encode (mintHeader AuthConfig.lore) (aliceMinted 2050)) (exchanged.drop 1)
      (.ok "eyJ.kaguya.sig") exchanged := ⟨rfl, rfl⟩
  have h8 := h7.step (.act 1) trivial (.act _ 1 exchange _ _ _ _ rfl encoded')
  exact ⟨_, h8, rfl⟩

theorem exchanged_from_logins : FromLogins lore Unicode.ascii exchanged := by
  obtain ⟨p, hp, e⟩ := exchanged_reached
  rw [← e]
  exact tokens_from_logins ofBook_tokens hp

end Kaguya.Auth.Provenance
