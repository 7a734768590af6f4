/-
  Kaguya.Web.Identity — whose identity a session carries. The frontend and the auth
  service run side by side, each for any number of clients: an exchange that the frontend
  is answered is a reply of the auth service, of an RPC that is done, and what else the
  auth service is asked, and when, is free.

  `session_identity`: a session that the frontend finds for a cookie was made by one
  callback, with the code and the verifier of a login. The provider answered these with an
  id token that it had signed; the session's user is the one whom that token names, and
  its token was minted for that one, without grants.
-/

import Kaguya.Lib.Beside
import Kaguya.Auth.Names
import Kaguya.Auth.Provenance
import Kaguya.Web.Expiry

namespace Kaguya.Web.Identity

open Kaguya.Lib
open Kaguya.Auth (Jwt)
open Kaguya.Auth.Jwt
open Kaguya.Auth.Service (Rpc Reply Status UserToken AuthConfig displayNames mintedFor)
open Kaguya.Auth.Verify (Unicode canonicalSubject)
open Kaguya.Auth.Provenance (Deployment Record Accepts)
open Kaguya.Web.Server
open Kaguya.Web.Runs
open Kaguya.Web.Bookkeeping
open Kaguya.Web.Login

/-! ## The auth service's part -/

section Service

variable {lib : Jwt} (d : Deployment lib) (U : Unicode) (a : AuthConfig)

abbrev AuthTrace := Trace Rpc Empty Auth.Service.Call Auth.Service.Call.Ans (List Record)

abbrev AuthPool := Pool Rpc Auth.Service.Call Auth.Service.Call.Ans (Except Status Reply) (List Record)

/-- The reply is for the identity of a token that the provider signed, and hands out what
    was minted for it. -/
structure Attested (log : List Record) (idToken : String) (claims : IdentityClaims) (t : UserToken) : Prop where
  signed : d.signed idToken
  accepted : ∃ now, .accepted now idToken claims ∈ log ∧ Accepts d now idToken claims
  minted : ∃ iat, .minted (.exchangeExternalTokenForUserToken idToken) t.userToken
    (mintedFor a iat (canonicalSubject U claims) claims []) ∈ log
  userId : t.userId = canonicalSubject U claims
  userName : t.userName = (displayNames claims).1
  expiresAt : t.expiresAt = Auth.Service.expiresAt claims.exp

variable {d U a}

/-- The calls of an exchange that is done. -/
theorem exchange_path {σ : Type} {idToken : String} {t : UserToken}
    {l : List (Answered Auth.Service.Call Auth.Service.Call.Ans σ)}
    (h : ((Rpc.exchangeExternalTokenForUserToken idToken).handle U a).Leads l (.ret (.ok (.exchanged t)))) :
    ∃ s s' c c' e e' claims iat token, l = [⟨s, .oidc idToken, .ok claims, s'⟩, ⟨c, .nowSecs, iat, c'⟩,
      ⟨e, .encode (Auth.Service.mintHeader a) (mintedFor a iat (canonicalSubject U claims) claims []), .ok token, e'⟩] ∧
      t = ⟨token, Auth.Service.expiresAt claims.exp, canonicalSubject U claims, (displayNames claims).1⟩ := by
  obtain ⟨v, h₁, e⟩ := Auth.Names.leads_reply_ok h
  cases e
  unfold Auth.Service.exchangeExternalTokenForUserToken at h₁
  by_cases hempty : idToken.isEmpty = true
  · rw [if_pos hempty] at h₁
    cases (Prog.leads_ret h₁).2
  rw [if_neg hempty] at h₁
  obtain ⟨s, verified, s', l₁, rfl, h₂⟩ := Prog.leads_ask_ret h₁
  cases verified with
  | error e => cases (Prog.leads_ret h₂).2
  | ok claims =>
    obtain ⟨c, c', e, e', iat, token, rfl, rfl⟩ := Auth.Names.authn_path h₂
    exact ⟨s, s', c, c', e, e', claims, iat, token, rfl, rfl⟩

/-- The log never loses what it holds. -/
theorem log_grows {p q : AuthPool} {m : Moment Rpc Empty Auth.Service.Call Auth.Service.Call.Ans (List Record)} (r : Record)
    (hs : (Auth.Provenance.service d U a).Happens p m q) (h : r ∈ p.shared) : r ∈ q.shared := by
  cases hs with
  | start i => exact h
  | act n i c k b s' _ hsem => exact (Auth.Provenance.callSem_grows hsem).subset h
  | env e => exact e.elim

theorem attested_exchange (hd : lib.Documented) {trace : AuthTrace} {p : AuthPool}
    (h : (Auth.Provenance.service d U a).Run (fun _ _ _ => True) (· = []) trace p) {k : Nat} {idToken : String}
    {t : UserToken}
    (hk : p.threads[k]? = some ⟨.exchangeExternalTokenForUserToken idToken, .ret (.ok (.exchanged t))⟩) :
    ∃ claims, Attested d U a p.shared idToken claims t := by
  obtain ⟨s, s', c, c', e, e', claims, iat, token, hown, rfl⟩ := exchange_path ((System.run_leads h).1 k _ hk)
  have hsem := System.run_sem h hk
  rw [hown] at hsem
  obtain ⟨hunforged, now, haccepts, hs'⟩ := hsem ⟨s, .oidc idToken, .ok claims, s'⟩ List.mem_cons_self
  obtain ⟨_, he'⟩ := hsem ⟨e, .encode _ _, .ok token, e'⟩
    (List.mem_cons_of_mem _ (List.mem_cons_of_mem _ List.mem_cons_self))
  -- each record is there when its call returns, and stays
  have keep (r : Record) (x : Answered Auth.Service.Call Auth.Service.Call.Ans (List Record)) (hx : x ∈ trace.own k)
      (hr : r ∈ x.after) : r ∈ p.shared :=
    System.run_keeps (P := fun log => r ∈ log) (fun _ _ _ => log_grows r) h (Trace.mem_own.mp hx) hr
  rw [hown] at keep
  refine ⟨claims, Auth.Provenance.provider_signed hd hunforged haccepts, ⟨now, ?_, haccepts⟩, ⟨iat, ?_⟩, rfl, rfl, rfl⟩
  · exact keep _ _ List.mem_cons_self (hs' ▸ List.mem_cons_self)
  · exact keep _ _ (List.mem_cons_of_mem _ (List.mem_cons_of_mem _ List.mem_cons_self)) (he' ▸ List.mem_cons_self)

end Service

/-! ## Both services -/

section Both

variable {lib : Jwt} (d : Deployment lib) (U : Unicode) (a : AuthConfig) (crates : Crates) (o : Oidc)

/-- An exchange is answered by an RPC with its token that is done. -/
def Answers (m : Step) (q : AuthPool) : Prop :=
  ∀ n idToken tokenType reply, m.did = .called n (.exchangeExternal idToken tokenType) (.ok reply) →
    ∃ (k : Nat) (t : UserToken), reply = some t ∧
      q.threads[k]? = some ⟨.exchangeExternalTokenForUserToken idToken, .ret (.ok (.exchanged t))⟩

abbrev Both := System.Beside (web crates o) (Auth.Provenance.service d U a) FreshIds Empty (fun _ _ _ => True) (· = [])
  Answers

/-- Callback `k` made the session: of the code it was opened with, the verifier that the
    login of its state had entered, and the id token that the provider answered these with. -/
structure Origin (trace : History) (log : List Record) (k : Nat) (id : String) (session : Session)
    (idToken : String) (claims : IdentityClaims) : Prop where
  opened : ∃ browser q code state verifier url form s s', trace.Started k ⟨browser, .callback q⟩ ∧ q.code = some code ∧
    q.state = some state ∧ (∃ m ∈ trace, ∃ n browser', Enters m n state verifier ∧ trace.Started n ⟨browser', .login⟩) ∧
    form = o.exchangeForm code verifier ∧ HandsIn form code verifier ∧
    ⟨s, .called k (.postToken url form) (.ok (.ok ⟨idToken⟩)), s'⟩ ∈ trace
  signed : d.signed idToken
  accepted : ∃ now, .accepted now idToken claims ∈ log ∧ Accepts d now idToken claims
  minted : ∃ iat, .minted (.exchangeExternalTokenForUserToken idToken) session.token
    (mintedFor a iat (canonicalSubject U claims) claims []) ∈ log
  sub : session.sub = canonicalSubject U claims
  userName : session.userName = (displayNames claims).1

variable {d U a crates o} {trace : History} {p : WebPool} {authTrace : AuthTrace} {q : AuthPool}

/-- A session was created from an origin. -/
theorem created_origin (hd : lib.Documented) (h : Both d U a crates o trace p authTrace q) {m : Step} (hm : m ∈ trace)
    {k : Nat} {id : String} {session : Session} (hc : Creates m k id session) :
    ∃ idToken claims, Origin d U a o trace q.shared k id session idToken claims := by
  have hrun := System.beside_client h
  obtain ⟨browser, query, prog, _, hstarted, hsigned⟩ := created_by hrun hm hc
  generalize hown : trace.own k = l at hsigned
  cases hsigned with
  | @mk code state verifier url t t' a₁ a₁' b b' c c' e e' f f' disco resp reply issued r clocks l prog hcode hstate
      hissued _ _ htoken hname hsub _ _ =>
    have mem (x : WebAnswered) (hx : x ∈ trace.own k) := Trace.mem_own.mp hx
    rw [hown] at mem
    -- the state had been entered, by a login
    obtain ⟨late, early, ht, m', hm', n, hent⟩ := taken_entered hrun (mem _ List.mem_cons_self)
    have hm'' : m' ∈ trace := by
      rw [ht]
      exact List.mem_append_right _ (List.mem_cons_of_mem _ hm')
    obtain ⟨browser', _, _, hlogin, _⟩ := entered_by hrun hm'' hent
    have hpost := mem ⟨b, .postToken disco.tokenEndpoint (o.exchangeForm code verifier), .ok (.ok resp), b'⟩ (by simp)
    have hexchange := mem ⟨e, .exchangeExternal resp.idToken "external", .ok reply, e'⟩ (by simp)
    -- the reply is that of an RPC
    have hlinked := System.beside_linked (fun m q v q' hs hl n token ty reply hdid => by
      obtain ⟨k, t, hreply, hk⟩ := hl n token ty reply hdid
      exact ⟨k, t, hreply, System.happens_done hs hk⟩) h
    obtain ⟨j, t₁, rfl, hj⟩ := hlinked _ hexchange _ _ _ _ rfl
    obtain ⟨claims, hatt⟩ := attested_exchange hd (System.beside_service h) hj
    have hkept := Expiry.issuedOf_some hissued
    subst hkept
    refine ⟨resp.idToken, claims, ⟨browser, query, code, state, verifier, _, _, _, _, hstarted, hcode, hstate,
      ⟨m', hm'', n, browser', hent, hlogin⟩, rfl, handsIn_exchangeForm o code verifier, hpost⟩, hatt.signed, hatt.accepted, ?_, ?_, ?_⟩
    · rw [htoken]
      exact hatt.minted
    · rw [hsub]
      exact hatt.userId
    · rw [hname]
      exact hatt.userName

/-- What the frontend finds for a cookie was made by one callback, of an identity that the
    provider signed for the login's code and verifier. -/
theorem session_identity (hd : lib.Documented) (h : Both d U a crates o trace p authTrace q) {n : Nat}
    {id token userName sub : String} {s s' : State}
    (hx : ⟨s, .called n (.getSession id) (some (token, userName, sub)), s'⟩ ∈ trace) :
    ∃ k m expiresAt idToken claims, m ∈ trace ∧ Creates m k id ⟨token, userName, sub, expiresAt⟩ ∧
      now s'.clock < expiresAt ∧ (∀ m' k' session, m' ∈ trace → Creates m' k' id session → m' = m) ∧
      Origin d U a o trace q.shared k id ⟨token, userName, sub, expiresAt⟩ idToken claims := by
  have hrun := System.beside_client h
  obtain ⟨late, early, ht⟩ := List.append_of_mem hx
  obtain ⟨mid, m, first, k, expiresAt, hearly, hc, hlive, _⟩ :=
    ((run_lookups hrun).answers late early n id _ s s' ht token userName sub).mp rfl
  have hm : m ∈ trace := by
    rw [ht, hearly]
    simp
  obtain ⟨idToken, claims, horigin⟩ := created_origin hd h hm hc
  exact ⟨k, m, expiresAt, idToken, claims, hm, hc, hlive, ((run_lookups hrun).created m k id _ hm hc).2.1, horigin⟩

end Both

/-! ## Alice signs in -/

def aliceReply : UserToken := ⟨"eyJ.kaguya.sig", 2000, "alice@example.com", "Alice@example.com"⟩

/-- Her exchange, at the auth service. -/
def alicePool : AuthPool where
  shared := Auth.Provenance.exchanged.drop 2
  threads := [⟨.exchangeExternalTokenForUserToken "eyJ.alice.sig", .ret (.ok (.exchanged aliceReply))⟩]

theorem alice_exchanged : ∃ authTrace, (Auth.Provenance.service Auth.Provenance.lore Unicode.ascii AuthConfig.lore).Run
    (fun _ _ _ => True) (· = []) authTrace alicePool := by
  let login : Rpc := .exchangeExternalTokenForUserToken "eyJ.alice.sig"
  have h₀ : (Auth.Provenance.service Auth.Provenance.lore Unicode.ascii AuthConfig.lore).Run (fun _ _ _ => True) (· = [])
      [] ⟨[], []⟩ := .init _ rfl
  have h₁ := h₀.step _ trivial (.start _ login)
  have h₂ := System.run_call h₁ 0 (i := login) rfl (.ok Auth.Provenance.alice)
    ⟨Auth.Provenance.alice_unforged _, 1000, ⟨Auth.Provenance.idpJwks, rfl, rfl⟩, rfl⟩ trivial
  have h₃ := System.run_call h₂ 0 (i := login) (c := .nowSecs) rfl (1000 : UInt64) rfl trivial
  have h₄ := System.run_call h₃ 0 (i := login) rfl (.ok "eyJ.kaguya.sig")
    ⟨rfl, rfl⟩ trivial
  exact ⟨_, h₄⟩

/-- Her session, under the id that is drawn as 1. -/
def aliceSession : Session := ⟨"eyJ.kaguya.sig", "Alice@example.com", "alice@example.com", 2000⟩

theorem fresh_of {trace : History} {p : WebPool} {m : Step} (h : ∀ n r, m.did ≠ .called n .randomU128 r) :
    FreshIds trace p m := fun n r e => absurd e (h n r)

theorem answers_of {m : Step} {q : AuthPool}
    (h : ∀ n token ty reply, m.did ≠ .called n (.exchangeExternal token ty) reply) : Answers m q :=
  fun n token ty _ e => absurd e (h n token ty _)

/-- Her browser's request for who is signed in. -/
def aliceHeaders : HeaderMap := ⟨some ((cookieName ++ "=" ++ lowerHex 1).toList.map fun c => UInt8.ofNat c.toNat)⟩

theorem alice_cookie : sessionId aliceHeaders = some (lowerHex 1) := by decide +kernel

/-- She begins a login, comes back with a code, and her cookie is looked up. -/
theorem alice_found : ∃ trace p n s s', (web exampleCrates exampleOidc).Run FreshIds Empty trace p ∧
    (∀ m ∈ trace, Answers m alicePool) ∧
    ⟨s, .called n (.getSession (lowerHex 1)) (some ("eyJ.kaguya.sig", "Alice@example.com", "alice@example.com")), s'⟩ ∈
      trace := by
  obtain ⟨trace, p, e, _, h, hclock, he, hlive, hunused, hstarts, _⟩ := login_begins 1000 (by decide)
  have hrun := System.run_mono (fun _ _ _ hc => hc.1) h
  have l₀ : ∀ m ∈ trace, Answers m alicePool := by
    rintro ⟨s, d, s'⟩ hm n token ty reply e
    dsimp only at e
    subst e
    obtain ⟨_, _, _, hs, hmay⟩ := run_may hrun hm
    rw [hstarts _ _ hs] at hmay
    exact hmay.elim
  have htake : (p.shared.store.takePending p.shared.clock (lowerHex 0)).1 = some e.verifier := by
    simp only [Store.takePending, (run_swept h).pending.live he hlive, Option.filter_some, decide_eq_true hlive,
      if_true, Option.map_some]
  -- the callback
  obtain ⟨p₀, h₀, hs₀, hn₀⟩ := System.run_start hrun ⟨0, .callback ⟨some "code", some (lowerHex 0), none⟩⟩
    (fresh_of fun n r e => by cases e)
  have hredeem : callSem (.takePending (lowerHex 0)) p₀.shared (some e.verifier)
      ⟨(p.shared.store.takePending p.shared.clock (lowerHex 0)).2, p.shared.clock⟩ := by
    rw [hs₀]
    exact ⟨Int64.le_refl _, Prod.ext htake.symm rfl⟩
  obtain ⟨p₁, h₁, hs₁, hn₁⟩ := System.run_act h₀ hn₀ (some e.verifier) _ hredeem (fresh_of fun n r e => by cases e)
  obtain ⟨p₂, h₂, hs₂, hn₂⟩ := System.run_act h₁ hn₁ (.ok (.ok ⟨"", ""⟩)) p₁.shared rfl (fresh_of fun n r e => by cases e)
  obtain ⟨p₃, h₃, hs₃, hn₃⟩ := System.run_act h₂ hn₂ (.ok (.ok ⟨"eyJ.alice.sig"⟩)) p₂.shared rfl
    (fresh_of fun n r e => by cases e)
  obtain ⟨p₄, h₄, hs₄, hn₄⟩ := System.run_act h₃ hn₃ (.ok ()) p₃.shared rfl (fresh_of fun n r e => by cases e)
  obtain ⟨p₅, h₅, hs₅, hn₅⟩ := System.run_act h₄ hn₄ (.ok (some aliceReply)) p₄.shared rfl
    (fresh_of fun n r e => by cases e)
  obtain ⟨p₆, h₆, hs₆, hn₆⟩ := System.run_act h₅ hn₅ (1000 : Int64) p₅.shared (by
    rw [hs₅, hs₄, hs₃, hs₂, hs₁]
    exact ⟨by rw [hclock]; rfl, rfl⟩) (fresh_of fun n r e => by cases e)
  -- a session until the token's end
  have hfresh : ∀ x ∈ trace, ∀ k r', x.did = .called k .randomU128 r' → lowerHex r' ≠ lowerHex 1 := hunused.1
  obtain ⟨p₇, h₇, hs₇, hn₇⟩ := System.run_act h₆ hn₆ (1 : BitVec 128) p₆.shared rfl (by
    intro n r e x hx k r' hxd
    cases e
    simp only [List.mem_cons] at hx
    rcases hx with rfl | rfl | rfl | rfl | rfl | rfl | rfl | hx <;> first | cases hxd | exact hfresh x hx k r' hxd)
  have hcreate : callSem (.createSession (lowerHex 1) aliceSession) p₇.shared ()
      ⟨p₇.shared.store.create (fun _ => p₇.shared.clock) (lowerHex 1) aliceSession, p₇.shared.clock⟩ :=
    ⟨Int64.le_refl _, fun _ => p₇.shared.clock, fun _ => ⟨Int64.le_refl _, Int64.le_refl _⟩, rfl⟩
  obtain ⟨p₈, h₈, hs₈, _⟩ := System.run_act h₇ hn₇ () _ hcreate (fresh_of fun n r e => by cases e)
  have hclock₇ : p₇.shared.clock = 1000 := by rw [hs₇, hs₆, hs₅, hs₄, hs₃, hs₂, hs₁, hclock]
  -- the lookup
  obtain ⟨p₉, h₉, hs₉, hn₉⟩ := System.run_start h₈ ⟨0, .me aliceHeaders⟩ (fresh_of fun n r e => by cases e)
  have hget : callSem (.getSession (lowerHex 1)) p₉.shared
      (some ("eyJ.kaguya.sig", "Alice@example.com", "alice@example.com")) p₉.shared := by
    rw [hs₉, hs₈]
    refine ⟨Int64.le_refl _, rfl, ?_⟩
    simp only [Store.get, Store.create, Dict.get_insert_self, hclock₇]
    rfl
  simp only [web, Request.handle, me, session, alice_cookie] at hn₉
  obtain ⟨p', h', _, _⟩ := System.run_act h₉ hn₉ _ _ hget (fresh_of fun n r e => by cases e)
  refine ⟨_, p', _, _, _, h', ?_, List.mem_cons_self⟩
  simp only [List.forall_mem_cons]
  refine ⟨?_, ?_, ?_, ?_, ?_, ?_, ?_, ?_, ?_, ?_, ?_, l₀⟩
  case refine_6 =>
    intro n token ty reply e
    cases e
    exact ⟨0, aliceReply, rfl, rfl⟩
  all_goals exact answers_of fun n token ty reply e => by cases e

theorem alice_identity : ∃ trace log k expiresAt idToken claims,
    Origin Auth.Provenance.lore Unicode.ascii AuthConfig.lore exampleOidc trace log k (lowerHex 1)
      ⟨"eyJ.kaguya.sig", "Alice@example.com", "alice@example.com", expiresAt⟩ idToken claims := by
  obtain ⟨authTrace, hauth⟩ := alice_exchanged
  obtain ⟨trace, p, n, s, s', hweb, hanswers, hx⟩ := alice_found
  obtain ⟨k, m, expiresAt, idToken, claims, _, _, _, _, horigin⟩ :=
    session_identity Auth.Provenance.ofBook_tokens (System.beside_of_runs hweb hauth hanswers) hx
  exact ⟨trace, _, k, expiresAt, idToken, claims, horigin⟩

end Kaguya.Web.Identity
