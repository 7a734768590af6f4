/-
  Kaguya.Auth.DeviceLogin — whose identity a device login's token carries. The service is
  whole here: every RPC, from any number of clients, call by call, over the table of device
  logins (`Kaguya.Auth.Sessions`) and the log of what was accepted and minted
  (`Kaguya.Auth.Provenance`). The store and the provider answer anything, signatures are
  ideal, and session codes need not be fresh.

  Only `StartAuthSession` enters a session (`handle_opening`), so what the table holds was
  entered by one (`run_opened`): a lookup that finds a session finds what the provider
  gave a `StartAuthSession` with the caller's client state.

  `device_identity`: a token that `GetAuthSession` returns was minted for the identity that
  an id token names, signed by the provider and released by it for the device code of such
  a call, that had drawn the caller's session code less than its time to live before. It
  has the id token's expiry and no grants.
-/

import Kaguya.Lib.Beside
import Kaguya.Auth.Names
import Kaguya.Auth.Provenance
import Kaguya.Auth.Tokens

namespace Kaguya.Auth.DeviceLogin

open Kaguya.Lib
open Kaguya.Auth.Jwt
open Kaguya.Auth.Service
open Kaguya.Auth.Verify (Unicode canonicalSubject)
open Kaguya.Auth.Provenance (Deployment Record Accepts)
open Kaguya.Auth.Sessions (Session second)

/-! ## The service over its logins and its log -/

structure State where
  logins : Sessions.State
  log : List Record

section System

variable {lib : Jwt} (d : Deployment lib)

def callSem (rpc : Rpc) (c : Call) (s : State) (b : c.Ans) (s' : State) : Prop :=
  Sessions.callSem c s.logins b s'.logins ∧ Provenance.callSem d rpc c s.log b s'.log

/-- Time passes. -/
def tickSem (now : Nat) (s s' : State) : Prop := Sessions.tickSem now s.logins s'.logins ∧ s'.log = s.log

def service (U : Unicode) (a : AuthConfig) : System Rpc Nat Call Call.Ans (Except Status Reply) State where
  sem := callSem d
  env := tickSem
  body rpc := rpc.handle U a

/-- No device login is open, and nothing was accepted or minted. -/
def Empty (s : State) : Prop := Sessions.Empty s.logins ∧ s.log = []

end System

abbrev ServicePool := Pool Rpc Call Call.Ans (Except Status Reply) State
abbrev History := Trace Rpc Nat Call Call.Ans State
abbrev Step := Moment Rpc Nat Call Call.Ans State

/-! ## Who enters a session -/

/-- A session is entered for the client state of a `StartAuthSession`. -/
def Opening (rpc : Rpc) : Call → Prop
  | .insertSession _ _ _ state _ => rpc = .startAuthSession state
  | _ => True

theorem handle_opening (U : Unicode) (a : AuthConfig) (rpc : Rpc) : (rpc.handle U a).Makes (Opening rpc) := by
  cases rpc with
  | createResource auth id name =>
    refine makes_reply (Prog.makes_bind (makes_subject trivial) fun r => ?_)
    cases r with
    | error e => trivial
    | ok sub => exact Prog.makes_bind (Prog.makes_ask trivial) fun r => by cases r <;> trivial
  | deleteResource auth id =>
    refine makes_reply (Prog.makes_bind (makes_subject trivial) fun r => ?_)
    cases r with
    | error e => trivial
    | ok sub =>
      refine Prog.makes_bind (Prog.makes_ask trivial) fun role => ?_
      show Prog.Makes _ (if role ≠ some .owner then _ else _)
      by_cases h : role ≠ some .owner
      · rw [if_pos h]
        trivial
      · rw [if_neg h]
        exact Prog.makes_bind (Prog.makes_ask trivial) fun r => by cases r <;> trivial
  | checkUserPermission auth ids =>
    refine makes_reply (Prog.makes_bind (makes_subject trivial) fun r => ?_)
    cases r with
    | error e => trivial
    | ok sub => exact Prog.makes_bind (makes_checkIds (fun _ => trivial) ids [] []) fun _ => trivial
  | lookupUserPermissions auth =>
    refine makes_reply (Prog.makes_bind (makes_subject trivial) fun r => ?_)
    cases r with
    | error e => trivial
    | ok sub =>
      refine Prog.makes_bind (Prog.makes_ask trivial) fun ids => ?_
      exact Prog.makes_bind (makes_lookupIds (fun _ => trivial) ids) fun _ => trivial
  | startAuthSession state =>
    refine makes_reply (Prog.makes_bind ?_ fun r => ?_)
    · refine Prog.makes_bind (Prog.makes_ask trivial) fun r => ?_
      cases r with
      | error e => trivial
      | ok disco =>
        refine Prog.makes_bind (Prog.makes_ask trivial) fun r => ?_
        cases r with
        | error e => trivial
        | ok resp =>
          dsimp only
          cases resp.verificationUriComplete.or resp.verificationUri <;> trivial
    · cases r with
      | error e => trivial
      | ok start => exact ⟨trivial, fun _ => ⟨rfl, fun _ => trivial⟩⟩
  | getAuthSession code state =>
    refine makes_reply (Prog.makes_bind (Prog.makes_ask trivial) fun session => ?_)
    cases session with
    | none => trivial
    | some found =>
      refine Prog.makes_bind (makes_poll found.2 found.1 trivial) fun r => ?_
      rcases r with e | polled
      · trivial
      · cases polled with
        | pending => trivial
        | denied e => exact ⟨trivial, fun _ => trivial⟩
        | token t =>
          refine Prog.makes_bind (Prog.makes_ask trivial) fun r => ?_
          cases r with
          | error e => trivial
          | ok claims =>
            refine Prog.makes_bind (Prog.makes_ask trivial) fun _ => ?_
            exact Prog.makes_bind (makes_mintAuthn trivial fun _ => trivial) fun r => by cases r <;> trivial
  | exchangeExternalTokenForUserToken token =>
    refine makes_reply ?_
    unfold Service.exchangeExternalTokenForUserToken
    by_cases he : token.isEmpty = true
    · rw [if_pos he]
      trivial
    · rw [if_neg he]
      refine Prog.makes_bind (Prog.makes_ask trivial) fun r => ?_
      cases r with
      | error e => trivial
      | ok claims => exact makes_mintAuthn trivial fun _ => trivial
  | exchangeUserTokenForMultiresourceToken auth ids =>
    refine makes_reply ?_
    unfold Service.exchangeUserTokenForMultiresourceToken
    by_cases he : (bearer auth).isEmpty = true
    · simp only [he, if_true]
      trivial
    · simp only [he]
      refine Prog.makes_bind (Prog.makes_ask trivial) fun r => ?_
      cases r with
      | error e => trivial
      | ok claims =>
        refine Prog.makes_bind (makes_grantedIds (fun _ => trivial) ids) fun _ => ?_
        exact Prog.makes_bind (makes_mint trivial fun _ => trivial) fun r => by cases r <;> trivial
  | _ => trivial

/-- `StartAuthSession` `k` drew the code and opened the session: what the provider answered
    it, and when the session was entered. -/
structure Opens (trace : History) (k : Nat) (code state : String) (disco : Discovery) (resp : DeviceCodeResponse)
    (since : Nat) : Prop where
  started : trace.Started k (.startAuthSession state)
  calls : ∃ s₁ s₁' s₂ s₂' s₃ s₃' s₄ s₄', trace.own k = [⟨s₁, .discovery, .ok disco, s₁'⟩,
    ⟨s₂, .postDevice disco.deviceAuthorizationEndpoint, .ok resp, s₂'⟩, ⟨s₃, .randomId, code, s₃'⟩,
    ⟨s₄, .insertSession code resp.deviceCode disco.tokenEndpoint state (sessionTtl resp.expiresIn), (), s₄'⟩] ∧
    s₄'.logins.now = since

section Runs

variable {lib : Jwt} {d : Deployment lib} {U : Unicode} {a : AuthConfig}
variable {cond : History → ServicePool → Step → Prop} {trace : History} {p : ServicePool}

/-- A call that enters a session is that of the `StartAuthSession` that opens it. -/
theorem insert_opens (h : (service d U a).Run cond Empty trace p) {k ttl : Nat} {code dc endpoint state : String}
    {w w' : State} (hx : ⟨w, .insertSession code dc endpoint state ttl, (), w'⟩ ∈ trace.own k) :
    ∃ disco resp, Opens trace k code state disco resp w'.logins.now ∧ dc = resp.deviceCode ∧
      endpoint = disco.tokenEndpoint ∧ ttl = sessionTtl resp.expiresIn := by
  obtain ⟨rpc, hstarted⟩ := System.run_own_started h hx
  obtain ⟨q, hk⟩ := System.run_info h hstarted
  have hleads := (System.run_leads h).1 k _ hk
  have hopening : rpc = .startAuthSession state := (Prog.leads_makes hleads (handle_opening U a rpc)).1 _ hx
  subst hopening
  have hstage := Sessions.start_stage (U := U) (a := a) (Prog.leads_map State.logins hleads)
  have hy := List.mem_map_of_mem (f := Answered.map State.logins) hx
  generalize hl : (trace.own k).map (Answered.map State.logins) = l at hy hstage
  cases hstage with
  | early hl _ => exact (hl _ hy trivial).elim
  | inserting => simp [Answered.map] at hy
  | inserted =>
    simp only [Answered.map, List.mem_cons, Answered.mk.injEq, reduceCtorEq, false_and, and_false, false_or,
      List.not_mem_nil, or_false, Call.insertSession.injEq] at hy
    obtain ⟨-, ⟨rfl, rfl, rfl, -, rfl⟩, -, hafter⟩ := hy
    simp only [List.map_eq_cons_iff, List.map_eq_nil_iff] at hl
    obtain ⟨⟨_, _, _, _⟩, _, hown, e₁, ⟨_, _, _, _⟩, _, rfl, e₂, ⟨_, _, _, _⟩, _, rfl, e₃, ⟨_, _, _, _⟩, _, rfl, e₄,
      rfl⟩ := hl
    cases e₁
    cases e₂
    cases e₃
    cases e₄
    exact ⟨_, _, ⟨hstarted, _, _, _, _, _, _, _, _, hown, congrArg Sessions.State.now hafter.symm⟩, rfl, rfl, rfl⟩

/-- The step enters the session under the code. -/
def Enters (m : Step) (k : Nat) (code : String) (session : Session) : Prop :=
  ∃ ttl, m.did = .called k (.insertSession code session.deviceCode session.tokenEndpoint session.clientState ttl) () ∧
    session.expiresAt = m.after.logins.now + ttl * second

/-- A call leaves no session in the table but those that were there and the one it enters. -/
theorem call_entered {rpc : Rpc} {c : Call} {s s' : State} {b : c.Ans} (k : Nat) (hs : callSem d rpc c s b s')
    {code : String} {session : Session} (h : s'.logins.table.get code = some session) :
    s.logins.table.get code = some session ∨ Enters ⟨s, .called k c b, s'⟩ k code session := by
  have hlogins := hs.1
  cases c with
  | insertSession code' dc endpoint state ttl =>
    obtain ⟨swept, _, _, htable⟩ := hlogins
    rw [htable, Sessions.insert, Dict.get_insert] at h
    by_cases e : code = code'
    · subst e
      rw [if_pos rfl] at h
      cases h
      exact Or.inr ⟨ttl, rfl, rfl⟩
    · rw [if_neg e] at h
      exact Or.inl (Sessions.sweep_some.mp h).1
  | resolveSession code' state =>
    obtain ⟨swept, _, _, hr⟩ := hlogins
    rw [(Prod.mk.inj hr).2] at h
    exact Or.inl (Sessions.sweep_some.mp h).1
  | removeSession code' =>
    rw [show s'.logins = _ from hlogins] at h
    by_cases e : code = code'
    · subst e
      rw [Sessions.remove, Dict.get_remove_self] at h
      cases h
    · rw [Sessions.remove, Dict.get_remove_ne _ e] at h
      exact Or.inl h
  | _ =>
    rw [show s'.logins = s.logins from hlogins] at h
    exact Or.inl h

/-- What the table holds was entered. -/
theorem run_entered (h : (service d U a).Run cond Empty trace p) {code : String} {session : Session}
    (hs : p.shared.logins.table.get code = some session) : ∃ m ∈ trace, ∃ k, Enters m k code session := by
  induction h with
  | init s hinit =>
    rw [show s.logins.table = Dict.empty from hinit.1] at hs
    cases hs
  | @step trace p q m hr hc hm ih =>
    have hold : p.shared.logins.table.get code = some session ∨ ∃ k, Enters m k code session := by
      cases hm with
      | start i => exact Or.inl hs
      | env now s' he =>
        rw [show s'.logins = _ from he.1.2] at hs
        exact Or.inl hs
      | act n i c k b s' hn hsem => exact (call_entered n hsem hs).imp id fun h => ⟨n, h⟩
    rcases hold with hold | henters
    · obtain ⟨x, hx, hk⟩ := ih hold
      exact ⟨x, List.mem_cons_of_mem _ hx, hk⟩
    · exact ⟨m, List.mem_cons_self, henters⟩

/-- A lookup that finds a session finds what the provider gave a `StartAuthSession` with its
    code and client state, within the time to live. -/
theorem run_opened (h : (service d U a).Run cond Empty trace p) {n : Nat} {code state dc endpoint : String}
    {s s' : State} (hx : ⟨s, .resolveSession code state, some (dc, endpoint), s'⟩ ∈ trace.own n) :
    ∃ k disco resp since, Opens trace k code state disco resp since ∧ dc = resp.deviceCode ∧
      endpoint = disco.tokenEndpoint ∧ s'.logins.now < since + sessionTtl resp.expiresIn * second := by
  obtain ⟨late, early, ht⟩ := List.append_of_mem (Trace.mem_own.mp hx)
  rw [ht] at h
  obtain ⟨q, q', hq, _, hstep, _⟩ := System.run_split h
  obtain ⟨i, prog, _, hsem, _⟩ := System.happens_called hstep
  have hbefore : s = q.shared := System.happens_before hstep
  obtain ⟨swept, _, _, hr⟩ := hsem.1
  obtain ⟨session, hfound, rfl, hlt, hpair⟩ := Sessions.lookup_some.mp (Prod.mk.inj hr).1.symm
  obtain ⟨rfl, rfl⟩ := Prod.mk.inj hpair
  have htable : q.shared.logins.table.get code = some session := hbefore ▸ (Sessions.sweep_some.mp hfound).1
  obtain ⟨⟨w, did, w'⟩, hm, k, ttl, hdid, hexpires⟩ := run_entered hq htable
  dsimp only at hdid
  subst hdid
  rw [← ht] at h
  have hmem : (⟨w, .called k (.insertSession code session.deviceCode session.tokenEndpoint session.clientState ttl) (),
      w'⟩ : Step) ∈ trace := by
    rw [ht]
    exact List.mem_append_right _ (List.mem_cons_of_mem _ hm)
  obtain ⟨disco, resp, hopens, hdc, hendpoint, httl⟩ := insert_opens h (Trace.own_of_mem hmem)
  rw [hexpires, httl] at hlt
  exact ⟨k, disco, resp, w'.logins.now, hopens, hdc, hendpoint, hlt⟩

/-! ## Whose the token is -/

/-- The log never loses what it holds. -/
theorem log_grows {q : ServicePool} {m : Step} (r : Record) (hs : (service d U a).Happens p m q) (h : r ∈ p.shared.log) :
    r ∈ q.shared.log := by
  cases hs with
  | start i => exact h
  | act n i c k b s' _ hsem => exact (Provenance.callSem_grows hsem.2).subset h
  | env now s' he => exact he.2 ▸ h

end Runs

/-- The calls of a `GetAuthSession` that returns a token. -/
theorem get_path {σ : Type} {U : Unicode} {a : AuthConfig} {code state : String} {t : UserToken}
    {l : List (Answered Call Call.Ans σ)}
    (h : ((Rpc.getAuthSession code state).handle U a).Leads l (.ret (.ok (.session (some t))))) :
    ∃ dc endpoint answer idToken claims iat token s₁ s₁' s₂ s₂' s₃ s₃' s₄ s₄' s₅ s₅' s₆ s₆',
      l = [⟨s₁, .resolveSession code state, some (dc, endpoint), s₁'⟩, ⟨s₂, .postToken endpoint dc, .ok answer, s₂'⟩,
        ⟨s₃, .oidc idToken, .ok claims, s₃'⟩, ⟨s₄, .removeSession code, (), s₄'⟩, ⟨s₅, .nowSecs, iat, s₅'⟩,
        ⟨s₆, .encode (mintHeader a) (mintedFor a iat (canonicalSubject U claims) claims []), .ok token, s₆'⟩] ∧
      classify answer = .token idToken ∧
      t = ⟨token, expiresAt claims.exp, canonicalSubject U claims, (displayNames claims).1⟩ := by
  obtain ⟨v, h₁, e⟩ := Names.leads_reply_ok h
  cases e
  obtain ⟨s₁, session, s₁', l₁, rfl, h₂⟩ := Prog.leads_ask_ret h₁
  cases session with
  | none => cases (Prog.leads_ret h₂).2
  | some found =>
    obtain ⟨dc, endpoint⟩ := found
    obtain ⟨l₂, l₃, polled, rfl, h₃, h₄⟩ := Prog.leads_bind_ret h₂
    obtain ⟨s₂, resp, s₂', l₄, rfl, h₅⟩ := Prog.leads_ask_ret h₃
    cases resp with
    | error e =>
      cases (Prog.leads_ret h₅).2
      cases (Prog.leads_ret h₄).2
    | ok answer =>
      obtain ⟨rfl, e⟩ := Prog.leads_ret h₅
      cases e
      cases hc : classify answer with
      | pending =>
        rw [hc] at h₄
        cases (Prog.leads_ret h₄).2
      | denied e =>
        rw [hc] at h₄
        obtain ⟨_, _, _, _, _, h₆⟩ := Prog.leads_ask_ret h₄
        cases (Prog.leads_ret h₆).2
      | token idToken =>
        rw [hc] at h₄
        obtain ⟨s₃, verified, s₃', l₅, rfl, h₆⟩ := Prog.leads_ask_ret h₄
        cases verified with
        | error e => cases (Prog.leads_ret h₆).2
        | ok claims =>
          obtain ⟨s₄, _, s₄', l₆, rfl, h₇⟩ := Prog.leads_ask_ret h₆
          obtain ⟨l₇, l₈, minted, rfl, h₈, h₉⟩ := Prog.leads_bind_ret h₇
          cases minted with
          | error e => cases (Prog.leads_ret h₉).2
          | ok userToken =>
            obtain ⟨s₅, s₅', s₆, s₆', iat, token, rfl, rfl⟩ := Names.authn_path h₈
            obtain ⟨rfl, e⟩ := Prog.leads_ret h₉
            cases e
            exact ⟨dc, endpoint, answer, idToken, claims, iat, token, s₁, s₁', s₂, s₂', s₃, s₃', s₄, s₄', s₅, s₅', s₆,
              s₆', rfl, hc, rfl⟩

/-- Call `n` returned the token for the id token, of the claims: the provider had released
    it for the device code of the `StartAuthSession` `k` that drew the caller's code for the
    caller's client state, and which was looked up within its time to live. -/
structure Origin {lib : Jwt} (d : Deployment lib) (U : Unicode) (a : AuthConfig) (trace : History) (log : List Record)
    (n : Nat) (code state : String) (t : UserToken) (k : Nat) (idToken : String) (claims : IdentityClaims) : Prop where
  released : ∃ disco resp since, Opens trace k code state disco resp since ∧
    (∃ s s', ⟨s, .resolveSession code state, some (resp.deviceCode, disco.tokenEndpoint), s'⟩ ∈ trace.own n ∧
      s'.logins.now < since + sessionTtl resp.expiresIn * second) ∧
    ∃ s answer s', ⟨s, .postToken disco.tokenEndpoint resp.deviceCode, .ok answer, s'⟩ ∈ trace.own n ∧
      classify answer = .token idToken
  signed : d.signed idToken
  accepted : ∃ now, .accepted now idToken claims ∈ log ∧ Accepts d now idToken claims
  minted : ∃ iat, .minted (.getAuthSession code state) t.userToken
    (mintedFor a iat (canonicalSubject U claims) claims []) ∈ log
  expires : t.expiresAt = expiresAt claims.exp
  userId : t.userId = canonicalSubject U claims
  userName : t.userName = (displayNames claims).1

variable {lib : Jwt} {d : Deployment lib} {U : Unicode} {a : AuthConfig}
variable {cond : History → ServicePool → Step → Prop} {trace : History} {p : ServicePool}

/-- A token that a device login returns is for the identity that the provider released for
    that very login. -/
theorem device_identity (hd : lib.Documented) (h : (service d U a).Run cond Empty trace p) {n : Nat}
    {code state : String} {t : UserToken}
    (hn : p.threads[n]? = some ⟨.getAuthSession code state, .ret (.ok (.session (some t)))⟩) :
    ∃ k idToken claims, Origin d U a trace p.shared.log n code state t k idToken claims := by
  obtain ⟨dc, endpoint, answer, idToken, claims, iat, token, s₁, s₁', s₂, s₂', s₃, s₃', s₄, s₄', s₅, s₅', s₆, s₆', hown,
    hclassify, rfl⟩ := get_path ((System.run_leads h).1 n _ hn)
  have hsem := System.run_sem h hn
  -- each record is there when its call returns, and stays
  have keep (r : Record) (x : Answered Call Call.Ans State) (hx : x ∈ trace.own n) (hr : r ∈ x.after.log) :
      r ∈ p.shared.log :=
    System.run_keeps (P := fun s => r ∈ s.log) (fun _ _ _ => log_grows r) h (Trace.mem_own.mp hx) hr
  have hlooked : ⟨s₁, .resolveSession code state, some (dc, endpoint), s₁'⟩ ∈ trace.own n := hown ▸ List.mem_cons_self
  have hpolled : ⟨s₂, .postToken endpoint dc, .ok answer, s₂'⟩ ∈ trace.own n :=
    hown ▸ List.mem_of_getElem? (i := 1) rfl
  have hverified : ⟨s₃, .oidc idToken, .ok claims, s₃'⟩ ∈ trace.own n := hown ▸ List.mem_of_getElem? (i := 2) rfl
  have hsigned : ⟨s₆, .encode (mintHeader a) (mintedFor a iat (canonicalSubject U claims) claims []), .ok token, s₆'⟩ ∈
      trace.own n := hown ▸ List.mem_of_getElem? (i := 5) rfl
  obtain ⟨k, disco, resp, since, hopens, rfl, rfl, hlive⟩ := run_opened h hlooked
  obtain ⟨hunforged, now, haccepts, hlog⟩ := (hsem _ hverified).2
  obtain ⟨_, hlog'⟩ := (hsem _ hsigned).2
  refine ⟨k, idToken, claims, ⟨disco, resp, since, hopens, ⟨s₁, s₁', hlooked, hlive⟩, s₂, answer, s₂', hpolled, hclassify⟩,
    Provenance.provider_signed hd hunforged haccepts, ⟨now, keep _ _ hverified ?_, haccepts⟩,
    ⟨iat, keep _ _ hsigned ?_⟩, rfl, rfl, rfl⟩
  · exact hlog ▸ List.mem_cons_self
  · exact hlog' ▸ List.mem_cons_self

/-! ## Alice signs in -/

/-- What her login's call returns. -/
def aliceToken : UserToken := ⟨"eyJ.kaguya.sig", 2000, "alice@example.com", "Alice@example.com"⟩

/-- She opens a login and comes back for its token. -/
theorem alice_returned : ∃ trace p,
    (service Provenance.lore Unicode.ascii AuthConfig.lore).Run (fun _ _ _ => True) Empty trace p ∧
    p.threads[1]? = some ⟨.getAuthSession "code" "state", .ret (.ok (.session (some aliceToken)))⟩ := by
  let start : Rpc := .startAuthSession "state"
  let get : Rpc := .getAuthSession "code" "state"
  have h₀ : (service Provenance.lore Unicode.ascii AuthConfig.lore).Run (fun _ _ _ => True) Empty []
      ⟨⟨⟨Dict.empty, 0⟩, []⟩, []⟩ := .init _ ⟨rfl, rfl⟩
  -- the login is opened
  have h₁ := h₀.step _ trivial (.start _ start)
  have h₂ := System.run_call h₁ 0 (i := start) rfl (.ok Sessions.provider) ⟨rfl, rfl⟩ trivial
  have h₃ := System.run_call h₂ 0 (i := start) rfl (.ok Sessions.deviceLogin) ⟨rfl, rfl⟩ trivial
  have h₄ := System.run_call h₃ 0 (i := start) rfl "code" ⟨rfl, rfl⟩ trivial
  have inserted : callSem Provenance.lore start
      (.insertSession "code" "device-1" "https://idp.example/token" "state" 300) ⟨⟨Dict.empty, 0⟩, []⟩ ()
      ⟨Sessions.opened, []⟩ := ⟨⟨0, Nat.le_refl _, Nat.le_refl _, rfl⟩, rfl⟩
  have h₅ := System.run_call h₄ 0 (i := start) rfl () inserted trivial
  -- and polled, verified, removed and signed for
  have h₆ := h₅.step _ trivial (.start _ get)
  have looked : callSem Provenance.lore get (.resolveSession "code" "state") ⟨Sessions.opened, []⟩
      (some ("device-1", "https://idp.example/token")) ⟨Sessions.opened, []⟩ := ⟨Sessions.opened_looked, rfl⟩
  have h₇ := System.run_call h₆ 1 (i := get) rfl _ looked trivial
  have h₈ := System.run_call h₇ 1 (i := get) rfl (.ok ⟨some "eyJ.alice.sig", none, none⟩) ⟨rfl, rfl⟩ trivial
  have verified : callSem Provenance.lore get (.oidc "eyJ.alice.sig") ⟨Sessions.opened, []⟩ (.ok Provenance.alice)
      ⟨Sessions.opened, Provenance.exchanged.drop 3⟩ :=
    ⟨rfl, Provenance.alice_unforged _, 1000, ⟨Provenance.idpJwks, rfl, rfl⟩, rfl⟩
  have h₉ := System.run_call h₈ 1 (i := get) rfl _ verified trivial
  let closed : Sessions.State := ⟨Sessions.remove Sessions.opened.table "code", 0⟩
  have removed : callSem Provenance.lore get (.removeSession "code") ⟨Sessions.opened, Provenance.exchanged.drop 3⟩ ()
      ⟨closed, Provenance.exchanged.drop 3⟩ := ⟨rfl, rfl⟩
  have h₁₀ := System.run_call h₉ 1 (i := get) rfl _ removed trivial
  have timed : callSem Provenance.lore get .nowSecs ⟨closed, Provenance.exchanged.drop 3⟩ (1000 : UInt64)
      ⟨closed, Provenance.exchanged.drop 3⟩ := ⟨rfl, rfl⟩
  have h₁₁ := System.run_call h₁₀ 1 (i := get) (c := .nowSecs) rfl _ timed trivial
  have signed : callSem Provenance.lore get (.encode (mintHeader AuthConfig.lore) (Provenance.aliceMinted 1000))
      ⟨closed, Provenance.exchanged.drop 3⟩ (.ok "eyJ.kaguya.sig")
      ⟨closed, .minted get "eyJ.kaguya.sig" (Provenance.aliceMinted 1000) :: Provenance.exchanged.drop 3⟩ :=
    ⟨rfl, rfl, rfl⟩
  have h₁₂ := System.run_call h₁₁ 1 (i := get) rfl _ signed trivial
  exact ⟨_, _, h₁₂, rfl⟩

theorem alice_device_identity : ∃ trace log k idToken claims,
    Origin Provenance.lore Unicode.ascii AuthConfig.lore trace log 1 "code" "state" aliceToken k idToken claims := by
  obtain ⟨trace, p, h, hn⟩ := alice_returned
  exact ⟨trace, _, device_identity Provenance.ofBook_tokens h hn⟩

end Kaguya.Auth.DeviceLogin
