/-
  Kaguya.Web.Expiry — a web session against the token it holds. The auth service stamps
  the token it mints with the `exp` of the identity token, which its verifier accepts for
  60 s longer, and replies with `exp as i64`. The callback keeps that as the session's
  end if it is ahead of its clock, and otherwise gives the session an hour.

  `Within`: the session ends no later than its token, and no lookup hands the token out
  at or after its `exp`. It holds exactly if the clock has not come to `exp` when the
  callback compares, or the hour wraps (`session_within_token`): a token accepted in its
  leeway gives a session of an hour with a token that has expired (`outlives_token`).
-/

import Kaguya.Auth.ServiceProofs
import Kaguya.Web.Login
import Mathlib.Algebra.Group.Int.Defs
import Mathlib.Algebra.Group.Nat.Defs

namespace Kaguya.Web.Expiry

open Kaguya.Lib
open Kaguya.Auth (Jwt)
open Kaguya.Auth.Jwt
open Kaguya.Auth.Verify (Unicode OidcVerifier verifyWithJwks canonicalSubject)
open Kaguya.Auth.Service (AuthConfig UserToken Rpc expiresAt exchangeExternalTokenForUserToken run_reply
  serve_exchangeExternal mintedFor mintHeader)
open Kaguya.Web.Server
open Kaguya.Web.Runs
open Kaguya.Web.Bookkeeping
open Kaguya.Web.Login

/-! ## The seconds -/

theorem toInt64_toInt (x : UInt64) :
    x.toInt64.toInt = if x.toNat < 2 ^ 63 then (x.toNat : Int) else x.toNat - 2 ^ 64 := by
  have hlt : x.toNat < 2 ^ 64 := x.toNat_lt
  have h : x.toInt64.toInt = x.toBitVec.toInt := rfl
  rw [h, BitVec.toInt_eq_toNat_cond]
  have hn : x.toBitVec.toNat = x.toNat := rfl
  rw [hn]
  split <;> split <;> omega

/-- `exp as i64` through the wire. -/
theorem ofInt_expiresAt (exp : UInt64) : Int64.ofInt (expiresAt exp) = exp.toInt64 := Int64.ofInt_toInt _

/-- An end that is ahead of the clock is the token's. -/
theorem live_end {exp : UInt64} {t : Int64} (ht : 0 ≤ t.toInt) (h : exp.toInt64 > t) :
    exp.toInt64.toInt = exp.toNat ∧ t.toInt < exp.toNat := by
  have hlt := Int64.lt_iff_toInt_lt.mp h
  have hexp := toInt64_toInt exp
  have hle := exp.toNat_lt
  split at hexp <;> omega

/-- An end that is not: the hour ends after the token, unless it wraps or `exp` does. -/
theorem stale_end {exp : UInt64} {t t' : Int64} (ht : 0 ≤ t.toInt) (hle : t.toInt ≤ t'.toInt) (h : ¬ exp.toInt64 > t) :
    (t' + 3600).toInt ≤ exp.toNat ↔ t.toInt < exp.toNat ∨ 2 ^ 63 ≤ t'.toInt + 3600 := by
  have hlt : ¬ t.toInt < exp.toInt64.toInt := fun hlt => h (Int64.lt_iff_toInt_lt.mpr hlt)
  have hexp := toInt64_toInt exp
  have ht'lt := Int64.toInt_lt t'
  have hsum : (t' + 3600).toInt = (t'.toInt + 3600).bmod (2 ^ 64) := Int64.toInt_add t' 3600
  rw [Int.bmod_def] at hsum
  split at hexp <;> split at hsum <;> omega

/-! ## The token of an exchange -/

/-- The `exp` claim of a token. -/
def TokenExp (lib : Jwt) (token : String) (exp : UInt64) : Prop :=
  ∃ payload, lib.payload token = some payload ∧ payload.exp = .parsed exp

/-- The auth service's verifier accepts the id token, and the service answers its exchange. -/
structure Exchanged (lib : Jwt) (U : Unicode) (a : AuthConfig) (v : OidcVerifier) (key : lib.EncodingKey)
    (idToken : String) (claims : IdentityClaims) (t : UserToken) : Prop where
  accepted : ∃ now jwks, verifyWithJwks lib now idToken jwks v.issuer v.audiences = .ok claims
  served : ∃ env conn, env.oidc idToken = .ok claims ∧
    (∀ header minted, env.encode header minted = lib.encode header minted key) ∧
    ((Rpc.exchangeExternalTokenForUserToken idToken).serve U a env conn).1 = some (.ok (.exchanged t))

variable {lib : Jwt} {U : Unicode} {a : AuthConfig} {v : OidcVerifier} {key : lib.EncodingKey} {idToken : String}
  {claims : IdentityClaims} {t : UserToken}

/-- What is minted, and what the reply says of it, has the identity token's `exp`. -/
theorem exchanged_exp (hd : lib.Documented) (h : Exchanged lib U a v key idToken claims t) :
    t.expiresAt = expiresAt claims.exp ∧ TokenExp lib t.userToken claims.exp := by
  obtain ⟨env, conn, hoidc, hencode, hserve⟩ := h.served
  cases hempty : idToken.isEmpty with
  | true =>
    have hrefused : ((Rpc.exchangeExternalTokenForUserToken idToken).serve U a env conn).1 =
        some (.error ⟨.unauthenticated, "missing external token"⟩) := by
      refine (congrArg Prod.fst (run_reply _ _ _)).trans ?_
      unfold exchangeExternalTokenForUserToken
      rw [hempty, if_pos rfl]
      rfl
    rw [hrefused] at hserve
    cases hserve
  | false =>
    rw [serve_exchangeExternal hempty hoidc conn, hencode] at hserve
    cases henc : lib.encode (mintHeader a) (mintedFor a env.nowSecs (canonicalSubject U claims) claims []) key with
    | error e =>
      rw [henc] at hserve
      cases hserve
    | ok token =>
      rw [henc] at hserve
      cases hserve
      exact ⟨rfl, _, (hd.encode_ok _ _ _ _ henc).2, rfl⟩

/-! ## The session of a callback -/

/-- The readings of the clock among calls, in order. -/
def readings : List WebAnswered → List Int64
  | [] => []
  | ⟨_, .now, t, _⟩ :: l => t :: readings l
  | _ :: l => readings l

/-- The session ends no later than its token, which is handed out before its `exp` only. -/
def Within (trace : History) (id : String) (session : Session) (exp : UInt64) : Prop :=
  session.expiresAt.toInt ≤ exp.toNat ∧ ∀ late early j b s s',
    trace = late ++ ⟨s, .called j (.getSession id) (some b), s'⟩ :: early → (now s'.clock).toInt < exp.toNat

variable {crates : Crates} {o : Oidc} {cond : History → WebPool → Step → Prop} {trace : History} {p : WebPool}

/-- Of two calls of a thread the later is made at a later time. -/
theorem own_clock (h : (web crates o).Run cond Empty trace p) {n : Nat} {l₁ l₂ : List WebAnswered} {x y : WebAnswered}
    (hown : trace.own n = l₁ ++ x :: y :: l₂) : x.after.clock ≤ y.before.clock := by
  have hown' : trace.own n = (l₁ ++ [x]) ++ y :: l₂ := by simpa using hown
  obtain ⟨late, early, rfl, hearly⟩ := Trace.own_split hown'
  have hx : x ∈ Trace.own n early := by
    rw [hearly]
    exact List.mem_append_right _ List.mem_cons_self
  obtain ⟨mid, first, rfl⟩ := List.append_of_mem (Trace.mem_own.mp hx)
  obtain ⟨q, _, hr, _, hs, _⟩ := System.run_split h
  have hle := run_clock hr
  rw [← System.happens_before hs] at hle
  exact hle

/-- A session that is handed out has not ended. -/
theorem handed_out (h : (web crates o).Run FreshIds Empty trace p) {m : Step} (hm : m ∈ trace) {k : Nat} {id : String}
    {session : Session} (hc : Creates m k id session) {late early : History} {j : Nat} {b : String × String × String}
    {s s' : State} (ht : trace = late ++ ⟨s, .called j (.getSession id) (some b), s'⟩ :: early) :
    now s'.clock < session.expiresAt := by
  obtain ⟨token, userName, sub⟩ := b
  have hlookups := run_lookups h
  obtain ⟨mid, m', first, k', expiresAt, rfl, hc', hlive, _⟩ := (hlookups.answers _ _ _ _ _ _ _ ht _ _ _).mp rfl
  have hm' : m' ∈ trace := by
    rw [ht]
    simp
  have heq := (hlookups.created m k id session hm hc).2.1 m' k' _ hm' hc'
  subst heq
  have hd := hc.symm.trans hc'
  injection hd with _ hd
  injection hd with _ hses
  rw [hses]
  exact hlive

/-- What a reply with a token is kept as. -/
theorem issuedOf_some {issued : Issued} (h : issuedOf (some t) = .ok issued) :
    issued = ⟨t.userToken, t.userId, t.userName, Int64.ofInt t.expiresAt⟩ := by
  unfold issuedOf at h
  cases he : t.userToken.isEmpty with
  | true =>
    simp [Option.filter, he] at h
  | false =>
    simp [Option.filter, he] at h
    exact h.symm

/-- The reply a callback's session is made of is the one its exchange got. -/
theorem signed_reply {q : Callback} {l : List WebAnswered} {prog : Act Response} {id : String} {session : Session}
    {s s' d d' : State} (hs : Signed o q id session s s' l prog)
    (hx : ⟨d, .exchangeExternal idToken "external", .ok (some t), d'⟩ ∈ l) :
    session.token = t.userToken ∧ ∃ first clocks rest, l = first ++ clocks ++ rest ∧ readings first = [] ∧
      Expiry (Int64.ofInt t.expiresAt) clocks session.expiresAt := by
  cases hs with
  | @mk code state verifier url w w' a a' b b' c c' e e' f f' disco resp reply issued r clocks l p hcode hstate
      hissued hexp hid htoken hname hsub hl hresp =>
    have hreply : reply = some t := by
      simp only [List.mem_cons, Answered.mk.injEq, reduceCtorEq, false_and, and_false, false_or,
        Call.exchangeExternal.injEq, List.mem_append] at hx
      rcases hx with ⟨_, ⟨rfl, _⟩, hans, _⟩ | hx | hx
      · cases eq_of_heq hans
        rfl
      · cases expiry_now hexp _ hx
      · cases hl _ hx
    subst hreply
    have hkept := issuedOf_some hissued
    subst hkept
    exact ⟨htoken, [_, _, _, _, _], clocks, _, rfl, rfl, hexp⟩

theorem readings_append (l l' : List WebAnswered) : readings (l ++ l') = readings l ++ readings l' := by
  induction l with
  | nil => rfl
  | cons x l ih =>
    obtain ⟨s, c, b, s'⟩ := x
    cases c with
    | now => exact congrArg (b :: ·) ih
    | _ => exact ih

/-- In every run: the session is within its token exactly if the token's `exp` is ahead
    of the clock when the callback compares, or the hour it falls back to wraps. -/
theorem session_within_token {lib : Jwt} (hd : lib.Documented) (U : Unicode) (a : AuthConfig) (v : OidcVerifier)
    (key : lib.EncodingKey) (crates : Crates) (o : Oidc) {trace : History} {p : WebPool}
    (h : (web crates o).Run FreshIds Empty trace p) {n : Nat} {m : Step} {id : String} {session : Session}
    (hm : m ∈ trace) (hc : Creates m n id session) {idToken : String} {claims : IdentityClaims} {t : UserToken}
    {d d' : State} (hx : ⟨d, .called n (.exchangeExternal idToken "external") (.ok (some t)), d'⟩ ∈ trace)
    (he : Exchanged lib U a v key idToken claims t) :
    TokenExp lib session.token claims.exp ∧ ∃ t₁ rest, readings (trace.own n) = t₁ :: rest ∧
      (Within trace id session claims.exp ↔
        t₁.toInt < claims.exp.toNat ∨ ∃ t₂ rest', rest = t₂ :: rest' ∧ 2 ^ 63 ≤ t₂.toInt + 3600) := by
  obtain ⟨hends, htoken⟩ := exchanged_exp hd he
  obtain ⟨browser, q, prog, hn, _, hsigned⟩ := created_by h hm hc
  obtain ⟨hkept, first, clocks, rest, hown, hfirst, hexp⟩ := signed_reply hsigned (Trace.own_of_mem hx)
  refine ⟨hkept ▸ htoken, ?_⟩
  -- the lookups follow from the end
  have hwithin : Within trace id session claims.exp ↔ session.expiresAt.toInt ≤ claims.exp.toNat := by
    refine ⟨fun hw => hw.1, fun hle => ⟨hle, fun late early j b s s' ht => ?_⟩⟩
    have hlive := Int64.lt_iff_toInt_lt.mp (handed_out h hm hc ht)
    omega
  rw [hends, ofInt_expiresAt] at hexp
  have hsem := System.run_sem h hn
  rw [hown] at hsem
  rw [hwithin, hown, readings_append, readings_append, hfirst]
  generalize session.expiresAt = e at hexp
  cases hexp with
  | @live b b' t₁ hlt =>
    have ht₁ : t₁ = now b.clock := (hsem ⟨b, .now, t₁, b'⟩ (by simp)).1
    obtain ⟨hexp, hlt'⟩ := live_end (ht₁ ▸ now_nonneg b.clock) hlt
    refine ⟨t₁, _, rfl, ⟨fun _ => Or.inl hlt', fun _ => ?_⟩⟩
    omega
  | @stale b b' c c' t₁ t₂ hlt =>
    have hfirst' : t₁ = now b.clock ∧ b' = b := hsem ⟨b, .now, t₁, b'⟩ (by simp)
    have hsecond : t₂ = now c.clock ∧ c' = c := hsem ⟨c, .now, t₂, c'⟩ (by simp)
    have hown' : trace.own n = first ++ ⟨b, .now, t₁, b'⟩ :: ⟨c, .now, t₂, c'⟩ :: rest := by
      rw [hown]
      simp
    have hclock : b'.clock ≤ c.clock := own_clock h hown'
    have hle : t₁ ≤ t₂ := by
      rw [hfirst'.1, hsecond.1, ← hfirst'.2]
      exact now_mono hclock
    have hnn : 0 ≤ t₁.toInt := hfirst'.1 ▸ now_nonneg b.clock
    refine ⟨t₁, _, rfl, (stale_end hnn (Int64.le_iff_toInt_le.mp hle) hlt).trans ?_⟩
    refine or_congr_right ⟨fun hw => ⟨t₂, _, rfl, hw⟩, fun hw => ?_⟩
    obtain ⟨t₂', rest', heq, hw⟩ := hw
    cases heq
    exact hw

/-! ## A token in its leeway -/

/-- The provider's token for alice, until 2000. -/
def leewayClaims : IdentityClaims := { sub := "alice", exp := 2000 }

def leewayToken : Entry where
  token := "eyJ.id.sig"
  header := ⟨.rs256, some "idp"⟩
  payload :=
    { iss := .parsed (.single "https://idp.example"), aud := .parsed (.single "kaguya-web"), exp := .parsed 2000,
      identity := some leewayClaims }
  signer := "idp-key"

/-- The token minted for it ten seconds later. -/
def loreToken : Entry where
  token := "eyJ.lore.sig"
  header := mintHeader AuthConfig.lore
  payload := (mintedFor AuthConfig.lore 2010 "alice" leewayClaims []).payload
  signer := "kaguya"

def leewayBook : List Entry := [leewayToken, loreToken]

def leewayVerifier : OidcVerifier := ⟨"https://idp.example", ["kaguya-web"]⟩

def leewayReply : UserToken := ⟨"eyJ.lore.sig", 2000, "alice", "alice"⟩

theorem leeway_documented : (ofBook leewayBook).Documented := ofBook_documented ⟨by decide, by decide⟩

/-- The auth service at that time. -/
def leewayEnv : Auth.Service.Env :=
  { Auth.Service.Env.ofCaller "" leewayClaims with
    oidc := fun _ => .ok leewayClaims
    encode := fun header minted => (ofBook leewayBook).encode header minted "kaguya"
    nowSecs := 2010 }

theorem leeway_exchanged :
    Exchanged (ofBook leewayBook) Unicode.ascii AuthConfig.lore leewayVerifier "kaguya" "eyJ.id.sig"
    leewayClaims leewayReply where
  accepted := ⟨2010, ⟨[(⟨some "idp", "idp-key", .rsa⟩ : BookJwk)]⟩, rfl⟩
  served := by
    have hv : leewayEnv.oidc "eyJ.id.sig" = .ok leewayClaims := rfl
    refine ⟨leewayEnv, ⟨Auth.Store.Db.empty, []⟩, hv, fun _ _ => rfl, ?_⟩
    rw [serve_exchangeExternal (by decide) hv]
    rfl

/-- A callback ten seconds past the token's `exp` creates a session of an hour. -/
theorem leeway_run : ∃ trace p n m d, (web exampleCrates exampleOidc).Run FreshIds Empty trace p ∧ m ∈ trace ∧
    Creates m n (lowerHex 1) ⟨"eyJ.lore.sig", "alice", "alice", 5610⟩ ∧
    ⟨d, .called n (.exchangeExternal "eyJ.id.sig" "external") (.ok (some leewayReply)), d⟩ ∈ trace := by
  obtain ⟨trace, p, e, _, h, hclock, he, hlive, hunused, _⟩ := login_begins 2010 (by decide)
  have hi : issuedOf (some leewayReply) = .ok ⟨"eyJ.lore.sig", "alice", "alice", 2000⟩ := rfl
  have hend : ¬ (2000 : Int64) > now p.shared.clock := by
    rw [hclock]
    decide
  obtain ⟨trace', p', h', _, resp, age, m, d, _, _, hm, hc, hx⟩ :=
    signs_in_with h he hlive 0 "code" "eyJ.id.sig" hi hend hunused (by decide)
  rw [hclock] at hc
  exact ⟨trace', p', _, m, d, System.run_mono (fun _ _ _ hc => hc.1) h', hm, hc, hx⟩

/-- The equivalence, of that callback. -/
theorem session_within_token_leeway : ∃ trace n t₁ rest, TokenExp (ofBook leewayBook) "eyJ.lore.sig" 2000 ∧
    readings (Trace.own n trace) = t₁ :: rest ∧
    (Within trace (lowerHex 1) ⟨"eyJ.lore.sig", "alice", "alice", 5610⟩ 2000 ↔
      t₁.toInt < 2000 ∨ ∃ t₂ rest', rest = t₂ :: rest' ∧ 2 ^ 63 ≤ t₂.toInt + 3600) := by
  obtain ⟨trace, p, n, m, d, h, hm, hc, hx⟩ := leeway_run
  obtain ⟨htoken, t₁, rest, hreadings, hiff⟩ := session_within_token leeway_documented Unicode.ascii AuthConfig.lore
    leewayVerifier "kaguya" exampleCrates exampleOidc h hm hc hx leeway_exchanged
  exact ⟨trace, n, t₁, rest, htoken, hreadings, hiff⟩

/-- The token is handed out until 5610, an hour after it expired. -/
theorem outlives_token : ∃ trace p n m id session d, (web exampleCrates exampleOidc).Run FreshIds Empty trace p ∧
    m ∈ trace ∧ Creates m n id session ∧
    ⟨d, .called n (.exchangeExternal "eyJ.id.sig" "external") (.ok (some leewayReply)), d⟩ ∈ trace ∧
    Exchanged (ofBook leewayBook) Unicode.ascii AuthConfig.lore leewayVerifier "kaguya" "eyJ.id.sig" leewayClaims
      leewayReply ∧ TokenExp (ofBook leewayBook) session.token 2000 ∧ ¬ Within trace id session 2000 := by
  obtain ⟨trace, p, n, m, d, h, hm, hc, hx⟩ := leeway_run
  refine ⟨trace, p, n, m, _, _, d, h, hm, hc, hx, leeway_exchanged, ⟨loreToken.payload, rfl, rfl⟩, fun hw => ?_⟩
  exact absurd hw.1 (by decide)

end Kaguya.Web.Expiry
