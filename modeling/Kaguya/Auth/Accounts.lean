/-
  Kaguya.Auth.Accounts — which account a login lands on. The login RPCs mint for the
  canonical subject: the verified email in lower case, or else the connector's `sub`.
  Two things the comment on `canonical_subject` promises do not follow:

  - Accounts do not collide. Emails and connector subjects share one space of strings,
    so a login without a verified email lands on somebody's account when its `sub` is
    their email in lower case (`accounts_apart_iff`: then and only then).
  - One person, one account. The RPCs that take a bearer act as its `sub`, not as the
    canonical subject. A raw provider token and the token minted for it are two accounts
    unless there is no verified email or it is the `sub` (`one_account_iff`). A minted
    token acts as what it was minted for.
-/

import Kaguya.Auth.Runs

namespace Kaguya.Auth.Accounts

open Kaguya.Lib
open Kaguya.Auth.Jwt
open Kaguya.Auth.Store
open Kaguya.Auth.Service
open Kaguya.Auth.Runs
open Kaguya.Auth.Verify

/-- The verified, non-empty email of a login. -/
def verifiedEmail (claims : IdentityClaims) : Option String :=
  match claims.email, claims.emailVerified with
  | some email, some true => if email.isEmpty then none else some email
  | _, _ => none

theorem canonicalSubject_eq (U : Unicode) (claims : IdentityClaims) :
    canonicalSubject U claims = ((verifiedEmail claims).map (toLowercase U)).getD claims.sub := by
  unfold canonicalSubject verifiedEmail
  rcases claims.email with _ | email
  · rfl
  · rcases claims.emailVerified with _ | _ | _
    · rfl
    · rfl
    · by_cases h : email.isEmpty = true
      · simp [h]
      · simp [h]

theorem canonicalSubject_email {U : Unicode} {claims : IdentityClaims} {e : String}
    (h : verifiedEmail claims = some e) : canonicalSubject U claims = toLowercase U e := by rw [canonicalSubject_eq, h]; rfl

theorem canonicalSubject_sub {U : Unicode} {claims : IdentityClaims} (h : verifiedEmail claims = none) :
    canonicalSubject U claims = claims.sub := by rw [canonicalSubject_eq, h]; rfl

/-! ## Accounts do not collide -/

/-- The same verified email up to letter case, or no verified email and the same `sub`. -/
def SamePerson (U : Unicode) (c c' : IdentityClaims) : Prop :=
  (∃ e e', verifiedEmail c = some e ∧ verifiedEmail c' = some e' ∧ toLowercase U e = toLowercase U e') ∨
    (verifiedEmail c = none ∧ verifiedEmail c' = none ∧ c.sub = c'.sub)

/-- A store state gives the two accounts different roles. -/
def Separated (U : Unicode) (a : AuthConfig) (c c' : IdentityClaims) : Prop :=
  ∃ db urcId, Reachable U a db ∧ db.roleFor (canonicalSubject U c) urcId ≠ none ∧
    db.roleFor (canonicalSubject U c') urcId = none

/-- Logins on one account are one person's, and a login without a verified email does
    not get the roles of a verified email's account. -/
structure AccountsApart (U : Unicode) (a : AuthConfig) (c c' : IdentityClaims) : Prop where
  same : canonicalSubject U c = canonicalSubject U c' → SamePerson U c c'
  roles : verifiedEmail c ≠ none → verifiedEmail c' = none → Separated U a c c'
  roles' : verifiedEmail c' ≠ none → verifiedEmail c = none → Separated U a c' c

/-- `c` has a verified email, `c'` none, and the `sub` of `c'` is that email in lower
    case. -/
def Poses (U : Unicode) (c c' : IdentityClaims) : Prop :=
  ∃ e, verifiedEmail c = some e ∧ verifiedEmail c' = none ∧ c'.sub = toLowercase U e

section Apart

variable {U : Unicode} {a : AuthConfig} {c c' : IdentityClaims}

theorem poses_same (h : Poses U c c') : canonicalSubject U c = canonicalSubject U c' := by
  obtain ⟨e, he, hn, hs⟩ := h
  rw [canonicalSubject_email he, canonicalSubject_sub hn, hs]

theorem not_samePerson (he : verifiedEmail c ≠ none) (hn : verifiedEmail c' = none) : ¬ SamePerson U c c' := by
  intro h
  rcases h with ⟨e, e', _, he', _⟩ | ⟨hc, _⟩
  · rw [hn] at he'
    cases he'
  · exact he hc

theorem samePerson_symm (h : SamePerson U c c') : SamePerson U c' c := by
  rcases h with ⟨e, e', he, he', hl⟩ | ⟨hn, hn', hs⟩
  · exact Or.inl ⟨e', e, he', he, hl.symm⟩
  · exact Or.inr ⟨hn', hn, hs.symm⟩

/-- Two subjects are told apart by a grant to the one. -/
theorem separated_of_ne (hne : canonicalSubject U c ≠ canonicalSubject U c') : Separated U a c c' := by
  let db : Db := (Method.grant (canonicalSubject U c) "urc-1" .member).effect 0 Db.empty
  refine ⟨db, "urc-1", reachable_admin reachable_empty ["grant", canonicalSubject U c, "urc-1", "member"] 0 rfl, ?_, ?_⟩
  · intro h
    refine roleFor_eq_none.mp h .member ⟨_, grants_grant.mpr (Or.inl rfl), rfl, Or.inl rfl, ?_⟩
    exact Role.parse_asStr .member
  · rw [roleFor_eq_none]
    intro role hp
    obtain ⟨row, hrow, _, hr, _⟩ := hp
    rcases grants_grant.mp hrow with rfl | ⟨hold, _⟩
    · rcases hr with hr | ⟨grp, hm, _⟩
      · exact hne hr
      · exact Table.not_mem_empty _ hm
    · exact Table.not_mem_empty row hold

theorem same_of_not_poses (h : ¬ Poses U c c') (h' : ¬ Poses U c' c)
    (hs : canonicalSubject U c = canonicalSubject U c') : SamePerson U c c' := by
  cases he : verifiedEmail c with
  | none =>
    cases he' : verifiedEmail c' with
    | none =>
      rw [canonicalSubject_sub he, canonicalSubject_sub he'] at hs
      exact Or.inr ⟨he, he', hs⟩
    | some e' =>
      rw [canonicalSubject_sub he, canonicalSubject_email he'] at hs
      exact absurd ⟨e', he', he, hs⟩ h'
  | some e =>
    cases he' : verifiedEmail c' with
    | none =>
      rw [canonicalSubject_email he, canonicalSubject_sub he'] at hs
      exact absurd ⟨e, he, he', hs.symm⟩ h
    | some e' =>
      rw [canonicalSubject_email he, canonicalSubject_email he'] at hs
      exact Or.inl ⟨e, e', he, he', hs⟩

theorem apart_of_not_poses (h : ¬ Poses U c c') (h' : ¬ Poses U c' c) : AccountsApart U a c c' where
  same := same_of_not_poses h h'
  roles he hn := separated_of_ne fun hs => not_samePerson he hn (same_of_not_poses h h' hs)
  roles' he hn := separated_of_ne fun hs => not_samePerson he hn (same_of_not_poses h' h hs)

/-- Two logins' accounts are apart unless the `sub` of the one is the verified email of
    the other. -/
theorem accounts_apart_iff (U : Unicode) (a : AuthConfig) (c c' : IdentityClaims) :
    AccountsApart U a c c' ↔ ¬ Poses U c c' ∧ ¬ Poses U c' c := by
  refine ⟨fun h => ⟨fun hp => ?_, fun hp => ?_⟩, fun ⟨h, h'⟩ => apart_of_not_poses h h'⟩
  · obtain ⟨e, he, hn, _⟩ := id hp
    exact not_samePerson (by simp [he]) hn (h.same (poses_same hp))
  · obtain ⟨e, he, hn, _⟩ := id hp
    exact not_samePerson (by simp [he]) hn (samePerson_symm (h.same (poses_same hp).symm))

end Apart

/-! ### Two accepted tokens -/

/-- A provider token with the claims, valid until 2000. -/
def providerToken (token : String) (claims : IdentityClaims) : Entry where
  token
  header := ⟨.rs256, some "idp"⟩
  payload :=
    { iss := .parsed (.single "https://idp"), aud := .parsed (.single "lore"), exp := .parsed claims.exp,
      identity := some claims }
  signer := "idp-key"

/-- The provider serves its one key. -/
def providerAt (book : List Entry) (now : Nat) : Provider (ofBook book) :=
  ⟨now, none, .ok ⟨[(⟨some "idp", "idp-key", .rsa⟩ : BookJwk)]⟩⟩

def loreOidc : OidcVerifier := ⟨"https://idp", ["lore"]⟩

/-- A person with a verified email, and a login whose connector subject is spelled like
    it. -/
def victim : IdentityClaims :=
  { sub := "Ci1", exp := 2000, email := some "Victim@example.com", emailVerified := some true }

def poser : IdentityClaims := { sub := "victim@example.com", exp := 2000 }

def posers : List Entry := [providerToken "eyJ.victim.sig" victim, providerToken "eyJ.poser.sig" poser]

/-- Both tokens are accepted, and the accounts are not apart. -/
theorem accounts_collide : ¬ ∀ c c' token token', loreOidc.resolve (providerAt posers 1000) token = .ok c →
    loreOidc.resolve (providerAt posers 1000) token' = .ok c' → AccountsApart Unicode.ascii AuthConfig.lore c c' := by
  intro h
  have hapart := h victim poser "eyJ.victim.sig" "eyJ.poser.sig" rfl rfl
  refine ((accounts_apart_iff _ _ _ _).mp hapart).1 ⟨"Victim@example.com", by decide, by decide, ?_⟩
  decide

/-! ## One person, one account -/

/-- The subject a call is made for. -/
def subjectOf : Call → Option String
  | .store (.recordOwner owner _ _) => some owner
  | .store (.roleFor sub _) => some sub
  | .store (.accessible sub) => some sub
  | .encode _ m => some m.sub
  | _ => none

/-- Served alone, the RPC makes a call for the subject. -/
def ActsAs (U : Unicode) (a : AuthConfig) (env : Env) (conn : Conn) (rpc : Rpc) (s : String) : Prop :=
  ∃ c ∈ (rpc.handle U a).calls (Call.exec env) conn, subjectOf c = some s

/-- The call is made for nobody else. -/
def For (s : String) (c : Call) : Prop := subjectOf c = none ∨ subjectOf c = some s

/-- The environment verifies as the deployment does with the provider as it is. -/
structure Agrees {lib : Jwt} (env : Env) (identity : Identity lib) (p : Provider lib) : Prop where
  claims : ∀ b, ((identity.claims b).run VerifyCall.exec p).1 = some (env.identity b)
  verify : ∀ t, ((identity.oidc.verify lib t).run VerifyCall.exec p).1 = some (env.oidc t)

/-- The RPC logs in with the token: it is sent, or the provider hands it out. -/
def LogsIn (env : Env) (token : String) (rpc : Rpc) : Prop :=
  rpc = .exchangeExternalTokenForUserToken token ∨
    ∃ code state deviceCode endpoint resp, rpc = .getAuthSession code state ∧
      env.resolveSession code state = some (deviceCode, endpoint) ∧ env.postToken endpoint deviceCode = .ok resp ∧
      classify resp = .token token

/-- The RPC presents the token as its bearer. -/
def Presents (token : String) (rpc : Rpc) : Prop := ∃ auth, rpc.authorization = some auth ∧ bearer auth = token

/-- Logging in with the token and presenting it raw are the same account, with the same
    roles. -/
def OneAccount {lib : Jwt} (U : Unicode) (a : AuthConfig) (identity : Identity lib) (token : String) : Prop :=
  ∀ env env' p p' conn conn' login rpc s s', Agrees env identity p → Agrees env' identity p' →
    LogsIn env token login → Presents token rpc → ActsAs U a env conn login s → ActsAs U a env' conn' rpc s' →
    s = s' ∧ ∀ db urcId, Db.roleFor db s urcId = Db.roleFor db s' urcId

section Acts

variable {U : Unicode} {a : AuthConfig} {env : Env} {conn : Conn} {claims : IdentityClaims} {token s : String}

theorem for_eq {s s' : String} {c : Call} (h : For s c) (hc : subjectOf c = some s') : s' = s := by
  rcases h with h | h
  · rw [hc] at h
    cases h
  · rw [hc, Option.some.injEq] at h
    exact h

/-- The calls of a handler that begins with one: that call, and those after its answer. -/
theorem calls_reply_ask {α : Type} {f : α → Reply} {q : Call} {b : q.Ans} {k : q.Ans → Act (Except Status α)}
    (hq : q.exec env conn = (some b, conn)) :
    (reply f (Prog.ask q >>= k)).calls (Call.exec env) conn = q :: (reply f (k b)).calls (Call.exec env) conn :=
  Prog.calls_call_some (Call.exec env) hq

theorem mem_reply_ask {α : Type} {f : α → Reply} {q : Call} {b : q.Ans} {k : q.Ans → Act (Except Status α)} {c : Call}
    (hq : q.exec env conn = (some b, conn))
    (hc : c ∈ (reply f (Prog.ask q >>= k)).calls (Call.exec env) conn) :
    c = q ∨ c ∈ (reply f (k b)).calls (Call.exec env) conn := by
  rw [calls_reply_ask hq] at hc
  exact List.mem_cons.mp hc

theorem mintAuthn_for : (mintAuthn U a claims).Makes (For (canonicalSubject U claims)) :=
  makes_mintAuthn (Or.inl rfl) fun _ => Or.inr rfl

/-- Only the minting of a login is for a subject: the canonical one. -/
theorem login_acts {rpc : Rpc} (hl : LogsIn env token rpc) (h : ActsAs U a env conn rpc s) :
    ∃ claims, env.oidc token = .ok claims ∧ s = canonicalSubject U claims := by
  obtain ⟨c, hc, hs⟩ := h
  have verified : (Call.oidc token).exec env conn = (some (env.oidc token), conn) := rfl
  have minting : ∀ {claims : IdentityClaims} {α : Type} {f : α → Reply} {p : Act (Except Status α)},
      p.Makes (For (canonicalSubject U claims)) → c ∈ (reply f p).calls (Call.exec env) conn →
      s = canonicalSubject U claims :=
    fun hp hc => for_eq (Prog.makes_calls (Call.exec env) (makes_reply hp) hc) hs
  rcases hl with rfl | ⟨code, state, deviceCode, endpoint, resp, rfl, hr, hp, ht⟩
  · change c ∈ (reply Reply.exchanged (exchangeExternalTokenForUserToken U a token)).calls (Call.exec env) conn at hc
    unfold exchangeExternalTokenForUserToken at hc
    by_cases he : token.isEmpty = true
    · rw [if_pos he] at hc
      cases hc
    · rw [if_neg he] at hc
      rcases mem_reply_ask verified hc with rfl | hc
      · cases hs
      · cases hv : env.oidc token with
        | error e =>
          rw [hv] at hc
          cases hc
        | ok claims =>
          rw [hv] at hc
          exact ⟨claims, rfl, minting mintAuthn_for hc⟩
  · have resolved : (Call.resolveSession code state).exec env conn = (some (some (deviceCode, endpoint)), conn) :=
      congrArg (fun r => (some r, conn)) hr
    have polled : (Call.postToken endpoint deviceCode).exec env conn = (some (.ok resp), conn) :=
      congrArg (fun r => (some r, conn)) hp
    have removed : (Call.removeSession code).exec env conn = (some (), conn) := rfl
    rcases mem_reply_ask resolved hc with rfl | hc
    · cases hs
    rcases mem_reply_ask polled hc with rfl | hc
    · cases hs
    simp only [Prog.bind, Prog.pure_eq, ht] at hc
    rcases mem_reply_ask verified hc with rfl | hc
    · cases hs
    cases hv : env.oidc token with
    | error e =>
      rw [hv] at hc
      cases hc
    | ok claims =>
      rw [hv] at hc
      rcases mem_reply_ask removed hc with rfl | hc
      · cases hs
      · refine ⟨claims, rfl, minting ?_ hc⟩
        exact Prog.makes_bind mintAuthn_for fun r => by cases r <;> trivial

/-- What an RPC does once its bearer is resolved is for the bearer's `sub`. -/
theorem mem_reply_subject {α : Type} {f : α → Reply} {b : String}
    {k : Except VerifyError String → Act (Except Status α)}
    {c : Call} (hc : c ∈ (reply f (subject b >>= k)).calls (Call.exec env) conn) :
    c = .identity b ∨ c ∈ (reply f (k ((env.identity b).map IdentityClaims.sub))).calls (Call.exec env) conn := by
  unfold subject at hc
  rw [Prog.bind_assoc] at hc
  have resolved : (Call.identity b).exec env conn = (some (env.identity b), conn) := rfl
  rcases mem_reply_ask resolved hc with hc | hc
  · exact Or.inl hc
  · cases hi : env.identity b <;> rw [hi] at hc <;> exact Or.inr hc

/-- An RPC whose bearer does not resolve acts as nobody. -/
theorem rejected_acts {rpc : Rpc} {e : VerifyError} (hp : Presents token rpc) (hi : env.identity token = .error e) :
    ¬ ActsAs U a env conn rpc s := by
  intro h
  obtain ⟨c, hc, hs⟩ := h
  obtain ⟨auth, hauth, rfl⟩ := hp
  have nobody : ∀ {α : Type} {f : α → Reply} {k : Except VerifyError String → Act (Except Status α)},
      (∀ e, ∃ status, k (.error e) = .ret (.error status)) →
      c ∈ (reply f (subject (bearer auth) >>= k)).calls (Call.exec env) conn → False := by
    intro α f k hk hc
    rcases mem_reply_subject hc with rfl | hc
    · cases hs
    · rw [hi] at hc
      obtain ⟨status, hret⟩ := hk e
      change c ∈ (reply f (k (.error e))).calls (Call.exec env) conn at hc
      rw [hret] at hc
      cases hc
  cases rpc with
  | createResource | deleteResource | checkUserPermission | lookupUserPermissions =>
    cases hauth
    exact nobody (fun _ => ⟨_, rfl⟩) hc
  | exchangeUserTokenForMultiresourceToken auth' ids =>
    cases hauth
    change c ∈ (reply Reply.exchanged
      (exchangeUserTokenForMultiresourceToken a auth ids)).calls (Call.exec env) conn at hc
    unfold exchangeUserTokenForMultiresourceToken at hc
    have resolved : (Call.identity (bearer auth)).exec env conn = (some (.error e), conn) :=
      congrArg (fun r => (some r, conn)) hi
    by_cases he : (bearer auth).isEmpty = true
    · simp only [he] at hc
      cases hc
    · simp only [he] at hc
      rcases mem_reply_ask resolved hc with rfl | hc
      · cases hs
      · cases hc
  | _ => cases hauth

/-- An RPC that presents a token acts as the token's `sub`. -/
theorem presents_acts {rpc : Rpc} (hp : Presents token rpc) (hi : env.identity token = .ok claims)
    (h : ActsAs U a env conn rpc s) : s = claims.sub := by
  obtain ⟨c, hc, hs⟩ := h
  obtain ⟨auth, hauth, rfl⟩ := hp
  have after : ∀ {α : Type} {f : α → Reply} {p : Act (Except Status α)}, p.Makes (For claims.sub) →
      c ∈ (reply f p).calls (Call.exec env) conn → s = claims.sub :=
    fun hp hc => for_eq (Prog.makes_calls (Call.exec env) (makes_reply hp) hc) hs
  have roles : ∀ id, For claims.sub (.store (.roleFor claims.sub id)) := fun _ => Or.inr rfl
  have resolving : c = .identity (bearer auth) → s = claims.sub := fun e => by
    rw [e] at hs
    cases hs
  cases rpc with
  | createResource auth' id name =>
    cases hauth
    rcases mem_reply_subject hc with hc | hc
    · exact resolving hc
    · rw [hi] at hc
      refine after (Prog.makes_bind (Prog.makes_ask (Or.inr rfl)) fun r => ?_) hc
      cases r <;> trivial
  | deleteResource auth' id =>
    cases hauth
    rcases mem_reply_subject hc with hc | hc
    · exact resolving hc
    · rw [hi] at hc
      refine after (Prog.makes_bind (Prog.makes_ask (roles id)) fun role => ?_) hc
      show Prog.Makes _ (if role ≠ some .owner then _ else _)
      by_cases h : role ≠ some .owner
      · rw [if_pos h]
        trivial
      · rw [if_neg h]
        exact Prog.makes_bind (Prog.makes_ask (Or.inl rfl)) fun r => by cases r <;> trivial
  | checkUserPermission auth' ids =>
    cases hauth
    rcases mem_reply_subject hc with hc | hc
    · exact resolving hc
    · rw [hi] at hc
      refine after ?_ hc
      exact Prog.makes_bind (makes_checkIds roles ids [] []) fun _ => trivial
  | lookupUserPermissions auth' =>
    cases hauth
    rcases mem_reply_subject hc with hc | hc
    · exact resolving hc
    · rw [hi] at hc
      refine after ?_ hc
      refine Prog.makes_bind (Prog.makes_ask (Or.inr rfl)) fun ids => ?_
      exact Prog.makes_bind (makes_lookupIds roles ids) fun _ => trivial
  | exchangeUserTokenForMultiresourceToken auth' ids =>
    cases hauth
    change c ∈ (reply Reply.exchanged
      (exchangeUserTokenForMultiresourceToken a auth ids)).calls (Call.exec env) conn at hc
    unfold exchangeUserTokenForMultiresourceToken at hc
    by_cases he : (bearer auth).isEmpty = true
    · simp only [he] at hc
      cases hc
    · simp only [he] at hc
      have resolved : (Call.identity (bearer auth)).exec env conn = (some (.ok claims), conn) :=
        congrArg (fun r => (some r, conn)) hi
      rcases mem_reply_ask resolved hc with hc | hc
      · exact resolving hc
      · refine after (Prog.makes_bind (makes_grantedIds roles ids) fun resources => ?_) hc
        refine Prog.makes_bind (makes_mint (Or.inl rfl) fun _ => Or.inr rfl) fun r => ?_
        cases r <;> trivial
  | _ => cases hauth

/-- A login with the token does mint. -/
theorem login_mints (ht : token.isEmpty = false) (hv : env.oidc token = .ok claims) (conn : Conn) :
    ActsAs U a env conn (.exchangeExternalTokenForUserToken token) (canonicalSubject U claims) := by
  refine ⟨.encode (mintHeader a) (mintedFor a env.nowSecs (canonicalSubject U claims) claims []), ?_, rfl⟩
  have verified : (Call.oidc token).exec env conn = (some (.ok claims), conn) :=
    congrArg (fun r => (some r, conn)) hv
  show _ ∈ (reply Reply.exchanged (exchangeExternalTokenForUserToken U a token)).calls (Call.exec env) conn
  unfold exchangeExternalTokenForUserToken
  rw [ht, if_neg Bool.false_ne_true]
  refine (calls_reply_ask verified).symm ▸ List.mem_cons_of_mem _ ?_
  exact List.mem_cons_of_mem _ List.mem_cons_self

/-- A request with the token as its bearer does reach the store. -/
theorem create_records (hi : env.identity token = .ok claims) (conn : Conn) :
    ActsAs U a env conn (.createResource (some ("Bearer " ++ token)) "urc-1" "") claims.sub := by
  refine ⟨.store (.recordOwner claims.sub "urc-1" ""), ?_, rfl⟩
  have resolved : (Call.identity token).exec env conn = (some (.ok claims), conn) :=
    congrArg (fun r => (some r, conn)) hi
  show _ ∈ (reply (fun _ => Reply.created)
    (createResource (some ("Bearer " ++ token)) "urc-1" "")).calls (Call.exec env) conn
  unfold createResource subject
  rw [bearer_of, Prog.bind_assoc]
  refine (calls_reply_ask resolved).symm ▸ List.mem_cons_of_mem _ ?_
  show _ ∈ (Prog.call (Call.store (.recordOwner claims.sub "urc-1" "")) _).calls (Call.exec env) conn
  unfold Prog.calls
  exact List.mem_cons_self

end Acts

section OneAccount

variable {lib : Jwt} {U : Unicode} {a : AuthConfig}

theorem Agrees.identity_eq {env : Env} {identity : Identity lib} {p : Provider lib} (h : Agrees env identity p)
    (b : String) : env.identity b = identity.resolve p b :=
  Option.some.inj ((h.claims b).symm.trans (run_identity_claims identity b p))

theorem Agrees.oidc_eq {env : Env} {identity : Identity lib} {p : Provider lib} (h : Agrees env identity p)
    (t : String) : env.oidc t = identity.oidc.resolve p t :=
  Option.some.inj ((h.verify t).symm.trans (run_verify identity.oidc t p))

/-- An environment that verifies as the deployment does. -/
def envOf (identity : Identity lib) (p : Provider lib) : Env :=
  { Env.ofCaller "" { sub := "", exp := 0 } with identity := identity.resolve p, oidc := identity.oidc.resolve p }

theorem envOf_agrees (identity : Identity lib) (p : Provider lib) : Agrees (envOf identity p) identity p :=
  ⟨fun b => run_identity_claims identity b p, fun t => run_verify identity.oidc t p⟩

/-- An email that is not verified does not count, and one that is is the `sub`. -/
def EmailIsSub (U : Unicode) (claims : IdentityClaims) : Prop :=
  ∀ e, verifiedEmail claims = some e → toLowercase U e = claims.sub

theorem canonicalSubject_eq_sub {claims : IdentityClaims} :
    canonicalSubject U claims = claims.sub ↔ EmailIsSub U claims := by
  unfold EmailIsSub
  cases h : verifiedEmail claims with
  | none => simp [canonicalSubject_sub h]
  | some e => simp [canonicalSubject_email h]

/-- For a token that the provider's verifier accepts, logging in with it and presenting
    it raw are one account exactly when it has no verified email or that is its `sub`;
    and a minted token, presented again, acts as the subject it was minted for. -/
theorem one_account_iff (hd : lib.Documented) {identity : Identity lib} {p : Provider lib} {token : String}
    {claims : IdentityClaims} (ht : token.isEmpty = false)
    (hv : ((identity.oidc.verify lib token).run VerifyCall.exec p).1 = some (.ok claims)) :
    (OneAccount U a identity token ↔ EmailIsSub U claims) ∧
    ∀ header m key minted env p' conn rpc s, lib.encode header m key = .ok minted → Agrees env identity p' →
      (∃ c, env.identity minted = .ok c) → Presents minted rpc → ActsAs U a env conn rpc s → s = m.sub := by
  have hres : identity.oidc.resolve p token = .ok claims := by
    rw [run_verify] at hv
    exact Option.some.inj hv
  have hpay : PayloadIs lib token claims := resolve_payload hd hres
  refine ⟨⟨fun h => ?_, fun h => ?_⟩, ?_⟩
  · have hag := envOf_agrees identity p
    have hi : (envOf identity p).identity token = .ok claims := identity_accepts hd hres
    have hpres : Presents token (.createResource (some ("Bearer " ++ token)) "urc-1" "") := ⟨_, rfl, bearer_of token⟩
    have heq := (h _ _ p p ⟨Db.empty, []⟩ ⟨Db.empty, []⟩ _ _ _ _ hag hag (Or.inl rfl) hpres
      (login_mints ht hres ⟨Db.empty, []⟩) (create_records hi ⟨Db.empty, []⟩)).1
    exact canonicalSubject_eq_sub.mp heq
  · intro env env' p₁ p₂ conn conn' login rpc s s' hag hag' hl hp ha ha'
    obtain ⟨c, hc, rfl⟩ := login_acts hl ha
    have hpc : PayloadIs lib token c := resolve_payload hd (hag.oidc_eq token ▸ hc)
    rw [payloadIs_unique hpc hpay]
    cases hi : env'.identity token with
    | error e => exact absurd ha' (rejected_acts hp hi)
    | ok c' =>
      have hpc' : PayloadIs lib token c' := identity_payload hd (hag'.identity_eq token ▸ hi)
      have hs : canonicalSubject U claims = s' := by
        rw [presents_acts hp hi ha', payloadIs_unique hpc' hpay]
        exact canonicalSubject_eq_sub.mpr h
      exact ⟨hs, fun db urcId => by rw [hs]⟩
  · intro header m key minted env p' conn rpc s henc hag hok hpres hacts
    obtain ⟨c, hc⟩ := hok
    have hs : s = c.sub := presents_acts hpres hc hacts
    have hpc : PayloadIs lib minted c := identity_payload hd (hag.identity_eq minted ▸ hc)
    have hpm : PayloadIs lib minted m.identity := ⟨_, (hd.encode_ok header m key minted henc).2, rfl⟩
    rw [hs, payloadIs_unique hpc hpm]
    rfl

end OneAccount

/-- The deployment whose provider signed these tokens. -/
def loreIdentity : Identity (ofBook posers) :=
  ⟨⟨(⟨some "kaguya-key", "kaguya-key", .rsa⟩ : BookJwk), "https://auth.lore.example", "lore.example"⟩, loreOidc⟩

theorem ofBook_posers : (ofBook posers).Documented := ofBook_documented ⟨by decide, by decide⟩

theorem victim_verifies :
    ((loreOidc.verify (ofBook posers) "eyJ.victim.sig").run VerifyCall.exec (providerAt posers 1000)).1 =
      some (.ok victim) := by
  rw [run_verify]
  rfl

theorem one_account_victim :
    OneAccount Unicode.ascii AuthConfig.lore loreIdentity "eyJ.victim.sig" ↔ EmailIsSub Unicode.ascii victim :=
  (one_account_iff ofBook_posers (by decide) victim_verifies).1

/-- Her email is not her `sub`: get-token.sh and a login are two accounts. -/
theorem two_accounts : ¬ ∀ token claims p,
    ((loreOidc.verify (ofBook posers) token).run VerifyCall.exec p).1 = some (.ok claims) →
    OneAccount Unicode.ascii AuthConfig.lore loreIdentity token := by
  intro h
  have hone := h "eyJ.victim.sig" victim (providerAt posers 1000) victim_verifies
  have hsub :=
    (@one_account_iff _ _ AuthConfig.lore ofBook_posers loreIdentity _ _ _ (by decide) victim_verifies).1.mp hone
  exact absurd (hsub "Victim@example.com" (by decide)) (by decide)

end Kaguya.Auth.Accounts
