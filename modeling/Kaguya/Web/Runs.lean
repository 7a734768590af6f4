/-
  Kaguya.Web.Runs — the web frontend with any number of browsers and requests at once.
  A request is a thread; between its calls others run and time passes, so a client that
  hangs up is a thread that makes no further call. A method of the store takes its time
  under its mutex and reads the clock as it goes: once for each entry it sweeps, and
  last for the entry it is about.

  `LoginStage`, `CallbackStage`: where a request stands, by the calls it has made.

  `unswept`: the store if nothing were ever swept, made by the history alone. The tables
  are the unswept ones up to what has expired (`run_swept`), so a redemption and a
  lookup answer as they would there (`take_answer`, `get_answer`).
-/

import Kaguya.Web.Server
import Kaguya.Lib.Trace

namespace Kaguya.Web.Runs

open Kaguya.Lib
open Kaguya.Web.Server

/-! ## Browsers and requests -/

structure State where
  store : Store
  clock : Int64

/-- A request, and the browser that sends it. -/
structure Visit where
  browser : Nat
  request : Request

/-- Readings of the clock taken while the state went from `s` to `s'`. -/
def Between (s s' : State) (readings : String → Int64) : Prop :=
  ∀ k, s.clock ≤ readings k ∧ readings k ≤ s'.clock

def callSem : (c : Call) → State → c.Ans → State → Prop
  | .startLogin state verifier, s, _, s' => s.clock ≤ s'.clock ∧
    ∃ swept, Between s s' swept ∧ s'.store = s.store.startLogin swept s'.clock state verifier
  | .takePending state, s, b, s' => s.clock ≤ s'.clock ∧ (b, s'.store) = s.store.takePending s'.clock state
  | .createSession id session, s, _, s' => s.clock ≤ s'.clock ∧
    ∃ swept, Between s s' swept ∧ s'.store = s.store.create swept id session
  | .getSession id, s, b, s' => s.clock ≤ s'.clock ∧ s'.store = s.store ∧ b = s.store.get s'.clock id
  | .removeSession id, s, _, s' => s' = { s with store := s.store.remove id }
  | .now, s, b, s' => b = now s.clock ∧ s' = s
  | _, s, _, s' => s' = s

/-- Time passes. -/
def tickSem (clock : Int64) (s s' : State) : Prop := s.clock ≤ clock ∧ s' = { s with clock }

def web (crates : Crates) (o : Oidc) : System Visit Int64 Call Call.Ans Response State where
  sem _ := callSem
  env := tickSem
  body visit := visit.request.handle crates o

abbrev WebPool := Pool Visit Call Call.Ans Response State
abbrev History := Trace Visit Int64 Call Call.Ans State
abbrev Step := Moment Visit Int64 Call Call.Ans State
abbrev WebAnswered := Answered Call Call.Ans State

/-- `Store::default`, at any time. -/
def Empty (s : State) : Prop := s.store = Store.empty

/-- An id that is drawn was not drawn before. -/
def FreshIds (trace : History) (_ : WebPool) (m : Step) : Prop :=
  ∀ n r, m.did = .called n .randomU128 r → ∀ x ∈ trace, ∀ k r', x.did = .called k .randomU128 r' →
    lowerHex r' ≠ lowerHex r

/-! ## The clock -/

theorem now_nonneg (t : Int64) : 0 ≤ (now t).toInt := by
  unfold now
  split
  · rename_i h
    exact Int64.le_iff_toInt_le.mp h
  · exact Int.le_refl 0

theorem now_mono {t t' : Int64} (h : t ≤ t') : now t ≤ now t' := by
  unfold now
  rw [Int64.le_iff_toInt_le] at h ⊢
  split
  · rename_i ht
    rw [Int64.le_iff_toInt_le] at ht
    rw [if_pos (Int64.le_iff_toInt_le.mpr (Int.le_trans ht h))]
    exact h
  · exact now_nonneg t'

/-- What is live at a later time is live now. -/
theorem live_mono {t t' exp : Int64} (h : t ≤ t') (hl : now t' < exp) : now t < exp := by
  have hn := now_mono h
  rw [Int64.le_iff_toInt_le] at hn
  rw [Int64.lt_iff_toInt_lt] at hl ⊢
  omega

/-! ## The calls of a request -/

/-- The calls a request may come to. -/
def May : Request → Call → Prop
  | .login, .randomU128 | .login, .randomBytes | .login, .startLogin .. | .login, .getDiscovery _ => True
  | .callback q, .takePending state => q.state = some state
  | .callback _, .getDiscovery _ | .callback _, .postToken .. | .callback _, .connectAuth
  | .callback _, .exchangeExternal .. | .callback _, .now | .callback _, .randomU128
  | .callback _, .createSession .. => True
  | .logout headers, .removeSession id => sessionId headers = some id
  | .me headers, .getSession id | .repos headers, .getSession id => sessionId headers = some id
  | .repos _, .listRepos _ => True
  | _, _ => False

variable {crates : Crates} {o : Oidc}

theorem makes_discovery {P : Call → Prop} (h : ∀ url, P (.getDiscovery url)) : o.discovery.Makes P := by
  refine Prog.makes_bind (Prog.makes_ask (h _)) fun resp => ?_
  rcases resp with e | e | disco <;> trivial

theorem makes_session {P : Call → Prop} {headers : HeaderMap}
    (h : ∀ id, sessionId headers = some id → P (.getSession id)) :
    (session headers).Makes P := by
  unfold session
  cases hid : sessionId headers with
  | none => trivial
  | some id => exact Prog.makes_ask (h id hid)

theorem makes_exchangeCode {P : Call → Prop} {code verifier : String} (hd : ∀ url, P (.getDiscovery url))
    (hp : ∀ url, P (.postToken url (o.exchangeForm code verifier))) : (o.exchangeCode code verifier).Makes P := by
  refine Prog.makes_bind (makes_discovery hd) fun r => ?_
  cases r with
  | error e => trivial
  | ok disco =>
    refine Prog.makes_bind (Prog.makes_ask (hp _)) fun resp => ?_
    rcases resp with e | e | resp <;> trivial

theorem makes_exchangeExternal {P : Call → Prop} {idToken : String} (hc : P .connectAuth)
    (he : P (.exchangeExternal idToken "external")) : (exchangeExternal idToken).Makes P := by
  refine Prog.makes_bind (Prog.makes_ask hc) fun conn => ?_
  cases conn with
  | error e => trivial
  | ok u =>
    refine Prog.makes_bind (Prog.makes_ask he) fun resp => ?_
    cases resp <;> trivial

theorem makes_signIn {P : Call → Prop} {issued : Issued} (hn : P .now) (hr : P .randomU128)
    (hc : ∀ id ses, P (.createSession id ses)) : (signIn issued).Makes P := by
  refine Prog.makes_bind (Prog.makes_bind (Prog.makes_ask hn) fun t => ?_) fun exp => ?_
  · split
    · trivial
    · exact Prog.makes_bind (Prog.makes_ask hn) fun _ => trivial
  · refine Prog.makes_bind (Prog.makes_bind (Prog.makes_ask hr) fun _ => trivial) fun sid => ?_
    exact Prog.makes_bind (Prog.makes_ask (hc _ _)) fun _ => Prog.makes_bind (Prog.makes_ask hn) fun _ => trivial

theorem handle_makes (r : Request) : (r.handle crates o).Makes (May r) := by
  cases r with
  | login =>
    refine Prog.makes_bind (Prog.makes_bind (Prog.makes_ask trivial) fun _ => trivial) fun state => ?_
    refine Prog.makes_bind (Prog.makes_bind (Prog.makes_ask trivial) fun _ => trivial) fun verifier => ?_
    refine Prog.makes_bind (Prog.makes_ask trivial) fun _ => ?_
    refine Prog.makes_bind (Prog.makes_bind (makes_discovery fun _ => trivial) fun r => ?_) fun r => ?_
    · cases r <;> trivial
    · cases r <;> trivial
  | callback q =>
    obtain ⟨code, state, error⟩ := q
    cases error with
    | some e => trivial
    | none =>
      cases code with
      | none => trivial
      | some code =>
        cases state with
        | none => trivial
        | some state =>
          refine Prog.makes_bind (Prog.makes_ask rfl) fun verifier => ?_
          cases verifier with
          | none => trivial
          | some verifier =>
            refine Prog.makes_bind (makes_exchangeCode (fun _ => trivial) fun _ => trivial) fun idToken => ?_
            cases idToken with
            | error e => trivial
            | ok idToken =>
              refine Prog.makes_bind (makes_exchangeExternal trivial trivial) fun issued => ?_
              cases issued with
              | error e => trivial
              | ok issued => exact makes_signIn trivial trivial fun _ _ => trivial
  | logout headers =>
    show (logout headers).Makes _
    unfold logout
    cases hid : sessionId headers with
    | none => trivial
    | some id => exact Prog.makes_bind (Prog.makes_ask hid) fun _ => trivial
  | me headers =>
    refine Prog.makes_bind (makes_session fun id hid => hid) fun r => ?_
    rcases r with _ | ⟨_, _, _⟩ <;> trivial
  | repos headers =>
    refine Prog.makes_bind (makes_session fun id hid => hid) fun r => ?_
    rcases r with _ | ⟨token, _, _⟩
    · trivial
    · refine Prog.makes_bind (Prog.makes_ask trivial) fun list => ?_
      cases list <;> trivial

/-! ## Where a request stands -/

/-- The provider has answered with its endpoints. -/
def Discovered (l : List WebAnswered) (disco : Discovery) : Prop :=
  ∃ d url d', (⟨d, .getDiscovery url, .ok (.ok disco), d'⟩ : WebAnswered) ∈ l

/-- A login has not entered its state yet, or has and sends the browser on. -/
inductive LoginStage (crates : Crates) (o : Oidc) : List WebAnswered → Act Response → Prop
  | early {l q} : (∀ x ∈ l, x.call = .randomU128 ∨ x.call = .randomBytes) → (∀ resp, q ≠ .ret resp) →
      LoginStage crates o l q
  | entered {a a' b b' c c' : State} {r : BitVec 128} {bytes : Vector UInt8 32} {l q} :
      (∀ x ∈ l, ∃ url, x.call = .getDiscovery url) →
      (∀ resp, q = .ret resp → resp = plain 502 "login unavailable" ∨ ∃ disco url, Discovered l disco ∧
        o.authorizeAt crates disco.authorizationEndpoint (lowerHex r)
          (codeChallenge crates (crates.base64url bytes.toList)) = .ok url ∧ resp = redirect url none) →
      LoginStage crates o (⟨a, .randomU128, r, a'⟩ :: ⟨b, .randomBytes, bytes, b'⟩ ::
        ⟨c, .startLogin (lowerHex r) (crates.base64url bytes.toList), (), c'⟩ :: l) q

/-- What the clock was asked for the end of a session, and what end it gave. -/
inductive Expiry (expiresAt : Int64) : List WebAnswered → Int64 → Prop
  | live {a a' : State} {t : Int64} : expiresAt > t → Expiry expiresAt [⟨a, .now, t, a'⟩] expiresAt
  | stale {a a' b b' : State} {t t' : Int64} : ¬ expiresAt > t →
      Expiry expiresAt [⟨a, .now, t, a'⟩, ⟨b, .now, t', b'⟩] (t' + 3600)

/-- A callback with an identity has not created its session yet, or has. -/
inductive SignInStage (issued : Issued) : List WebAnswered → Act Response → Prop
  | early {l q} : (∀ x ∈ l, x.call = .now ∨ x.call = .randomU128) → (∀ resp, q ≠ .ret resp) → SignInStage issued l q
  | created {b b' c c' : State} {r : BitVec 128} {clocks l : List WebAnswered} {exp : Int64} {q} :
      Expiry issued.expiresAt clocks exp → (∀ x ∈ l, x.call = .now) →
      (∀ resp, q = .ret resp → ∃ age, resp = redirect "/" (some (sessionCookie (lowerHex r) age))) →
      SignInStage issued (clocks ++ ⟨b, .randomU128, r, b'⟩ ::
        ⟨c, .createSession (lowerHex r) ⟨issued.token, issued.userName, issued.userId, exp⟩, (), c'⟩ :: l) q

/-- What a callback calls between its redemption and its identity. -/
def Exchanges (o : Oidc) (code verifier : String) : Call → Prop
  | .getDiscovery _ | .connectAuth | .exchangeExternal .. => True
  | .postToken _ form => form = o.exchangeForm code verifier
  | _ => False

def failed : Response := redirect "/?login=failed" none

/-- A callback redeems its state first, and goes on only with a verifier. -/
inductive CallbackStage (o : Oidc) (q : Callback) : List WebAnswered → Act Response → Prop
  | idle {p} : (∀ resp, p = .ret resp → resp = failed) → CallbackStage o q [] p
  | missed {state : String} {s s' : State} : q.state = some state →
      CallbackStage o q [⟨s, .takePending state, none, s'⟩] (.ret failed)
  | exchanging {code state verifier : String} {s s' : State} {l p} : q.code = some code → q.state = some state →
      (∀ x ∈ l, Exchanges o code verifier x.call) → (∀ resp, p = .ret resp → resp = failed) →
      CallbackStage o q (⟨s, .takePending state, some verifier, s'⟩ :: l) p
  | signingIn {code state verifier url : String} {s s' a a' b b' c c' d d' : State} {disco : Discovery}
      {resp : TokenResponse} {reply : Option Auth.Service.UserToken} {issued : Issued} {l p} : q.code = some code →
      q.state = some state → issuedOf reply = .ok issued → SignInStage issued l p →
      CallbackStage o q (⟨s, .takePending state, some verifier, s'⟩ :: ⟨a, .getDiscovery url, .ok (.ok disco), a'⟩ ::
        ⟨b, .postToken disco.tokenEndpoint (o.exchangeForm code verifier), .ok (.ok resp), b'⟩ ::
        ⟨c, .connectAuth, .ok (), c'⟩ :: ⟨d, .exchangeExternal resp.idToken "external", .ok reply, d'⟩ :: l) p

theorem login_stage {l : List WebAnswered} {q : Act Response} (h : (login crates o).Leads l q) :
    LoginStage crates o l q := by
  rcases Prog.leads_call h with ⟨rfl, rfl⟩ | ⟨a, r, a', l₁, rfl, h₁⟩
  · exact .early (by simp) (by simp)
  rcases Prog.leads_call h₁ with ⟨rfl, rfl⟩ | ⟨b, bytes, b', l₂, rfl, h₂⟩
  · exact .early (by simp) (by simp)
  rcases Prog.leads_call h₂ with ⟨rfl, rfl⟩ | ⟨c, u, c', l₃, rfl, h₃⟩
  · exact .early (by simp) (by simp)
  -- the state is entered
  rcases Prog.leads_call h₃ with ⟨rfl, rfl⟩ | ⟨d, resp, d', l₄, rfl, h₄⟩
  · exact .entered (by simp) (by simp)
  rcases resp with e | e | disco
  · obtain ⟨rfl, rfl⟩ := Prog.leads_ret h₄
    exact .entered (by simp) fun resp e => by cases e; exact Or.inl rfl
  · obtain ⟨rfl, rfl⟩ := Prog.leads_ret h₄
    exact .entered (by simp) fun resp e => by cases e; exact Or.inl rfl
  · cases hurl : o.authorizeAt crates disco.authorizationEndpoint (lowerHex r)
        (codeChallenge crates (crates.base64url bytes.toList)) with
    | error e =>
      simp only [Prog.bind, Prog.pure_eq, hurl] at h₄
      obtain ⟨rfl, rfl⟩ := Prog.leads_ret h₄
      exact .entered (by simp) fun resp e => by cases e; exact Or.inl rfl
    | ok url =>
      simp only [Prog.bind, Prog.pure_eq, hurl] at h₄
      obtain ⟨rfl, rfl⟩ := Prog.leads_ret h₄
      refine .entered (by simp) fun resp e => ?_
      cases e
      exact Or.inr ⟨disco, url, ⟨d, _, d', List.mem_cons_self⟩, hurl, rfl⟩

theorem expiry_leads {expiresAt : Int64} {l : List WebAnswered} {q : Act Int64}
    (h : (sessionExpiry expiresAt).Leads l q) :
    (∀ x ∈ l, x.call = .now) ∧ ∀ exp, q = .ret exp → Expiry expiresAt l exp := by
  rcases Prog.leads_call h with ⟨rfl, rfl⟩ | ⟨a, t, a', l₁, rfl, h₁⟩
  · exact ⟨by simp, fun exp e => by cases e⟩
  by_cases hlt : expiresAt > t
  · simp only [Prog.bind, if_pos hlt] at h₁
    obtain ⟨rfl, rfl⟩ := Prog.leads_ret h₁
    exact ⟨by simp, fun exp e => by cases e; exact .live hlt⟩
  · simp only [Prog.bind, if_neg hlt] at h₁
    rcases Prog.leads_call h₁ with ⟨rfl, rfl⟩ | ⟨b, t', b', l₂, rfl, h₂⟩
    · exact ⟨by simp, fun exp e => by cases e⟩
    obtain ⟨rfl, rfl⟩ := Prog.leads_ret h₂
    refine ⟨by simp, fun exp e => ?_⟩
    rw [← Prog.ret.inj e]
    exact .stale hlt

theorem signIn_stage {issued : Issued} {l : List WebAnswered} {q : Act Response} (h : (signIn issued).Leads l q) :
    SignInStage issued l q := by
  rcases Prog.leads_bind h with ⟨p', hp, rfl⟩ | ⟨clocks, l₁, exp, rfl, hclocks, h₁⟩
  · refine .early (fun x hx => Or.inl ((expiry_leads hp).1 x hx)) fun resp e => ?_
    cases p' <;> cases e
  obtain ⟨hnow, hexp⟩ := expiry_leads hclocks
  rcases Prog.leads_call h₁ with ⟨rfl, rfl⟩ | ⟨b, r, b', l₂, rfl, h₂⟩
  · rw [List.append_nil]
    exact .early (fun x hx => Or.inl (hnow x hx)) fun resp e => by cases e
  rcases Prog.leads_call h₂ with ⟨rfl, rfl⟩ | ⟨c, u, c', l₃, rfl, h₃⟩
  · refine .early (fun x hx => ?_) (by simp)
    rcases List.mem_append.mp hx with hx | hx
    · exact Or.inl (hnow x hx)
    · rw [List.mem_singleton.mp hx]
      exact Or.inr rfl
  -- the session is created
  rcases Prog.leads_call h₃ with ⟨rfl, rfl⟩ | ⟨d, t, d', l₄, rfl, h₄⟩
  · exact .created (hexp exp rfl) (by simp) (by simp)
  obtain ⟨rfl, rfl⟩ := Prog.leads_ret h₄
  exact .created (hexp exp rfl) (by simp) fun resp e => by cases e; exact ⟨_, rfl⟩

theorem callback_stage {q : Callback} {l : List WebAnswered} {p : Act Response} (h : (callback o q).Leads l p) :
    CallbackStage o q l p := by
  obtain ⟨code, state, error⟩ := q
  cases error with
  | some e =>
    obtain ⟨rfl, rfl⟩ := Prog.leads_ret h
    exact .idle fun resp e => by cases e; rfl
  | none =>
    cases code with
    | none =>
      obtain ⟨rfl, rfl⟩ := Prog.leads_ret h
      exact .idle fun resp e => by cases e; rfl
    | some code =>
      cases state with
      | none =>
        obtain ⟨rfl, rfl⟩ := Prog.leads_ret h
        exact .idle fun resp e => by cases e; rfl
      | some state =>
        -- the state is redeemed
        rcases Prog.leads_call h with ⟨rfl, rfl⟩ | ⟨s, verifier, s', l₁, rfl, h₁⟩
        · exact .idle fun resp e => by cases e
        cases verifier with
        | none =>
          obtain ⟨rfl, rfl⟩ := Prog.leads_ret h₁
          exact .missed rfl
        | some verifier =>
          -- the code
          rcases Prog.leads_call h₁ with ⟨rfl, rfl⟩ | ⟨a, disco, a', l₂, rfl, h₂⟩
          · exact .exchanging rfl rfl (by simp) (by simp)
          rcases disco with e | e | disco
          · obtain ⟨rfl, rfl⟩ := Prog.leads_ret h₂
            exact .exchanging rfl rfl (by simp [Exchanges]) fun resp e => by cases e; rfl
          · obtain ⟨rfl, rfl⟩ := Prog.leads_ret h₂
            exact .exchanging rfl rfl (by simp [Exchanges]) fun resp e => by cases e; rfl
          rcases Prog.leads_call h₂ with ⟨rfl, rfl⟩ | ⟨b, resp, b', l₃, rfl, h₃⟩
          · exact .exchanging rfl rfl (by simp [Exchanges]) (by simp)
          rcases resp with e | e | resp
          · obtain ⟨rfl, rfl⟩ := Prog.leads_ret h₃
            exact .exchanging rfl rfl (by simp [Exchanges]) fun resp e => by cases e; rfl
          · obtain ⟨rfl, rfl⟩ := Prog.leads_ret h₃
            exact .exchanging rfl rfl (by simp [Exchanges]) fun resp e => by cases e; rfl
          -- the identity
          rcases Prog.leads_call h₃ with ⟨rfl, rfl⟩ | ⟨c, conn, c', l₄, rfl, h₄⟩
          · exact .exchanging rfl rfl (by simp [Exchanges]) (by simp)
          cases conn with
          | error e =>
            obtain ⟨rfl, rfl⟩ := Prog.leads_ret h₄
            exact .exchanging rfl rfl (by simp [Exchanges]) fun resp e => by cases e; rfl
          | ok u =>
            rcases Prog.leads_call h₄ with ⟨rfl, rfl⟩ | ⟨d, reply, d', l₅, rfl, h₅⟩
            · exact .exchanging rfl rfl (by simp [Exchanges]) (by simp)
            cases reply with
            | error e =>
              obtain ⟨rfl, rfl⟩ := Prog.leads_ret h₅
              exact .exchanging rfl rfl (by simp [Exchanges]) fun resp e => by cases e; rfl
            | ok reply =>
              cases hi : issuedOf reply with
              | error e =>
                simp only [Prog.bind, Prog.pure_eq, hi] at h₅
                obtain ⟨rfl, rfl⟩ := Prog.leads_ret h₅
                exact .exchanging rfl rfl (by simp [Exchanges]) fun resp e => by cases e; rfl
              | ok issued =>
                simp only [Prog.bind, Prog.pure_eq, hi] at h₅
                exact .signingIn rfl rfl hi (signIn_stage h₅)

/-- A callback that has created a session: the redemption, the exchange, the readings of
    the clock for the session's end, and the creation. -/
inductive Signed (o : Oidc) (q : Callback) (id : String) (session : Session) (s s' : State) :
    List WebAnswered → Act Response → Prop
  | mk {code state verifier url : String} {t t' a a' b b' c c' d d' e e' : State} {disco : Discovery}
      {resp : TokenResponse} {reply : Option Auth.Service.UserToken} {issued : Issued} {r : BitVec 128}
      {clocks l : List WebAnswered} {p} : q.code = some code → q.state = some state → issuedOf reply = .ok issued →
      Expiry issued.expiresAt clocks session.expiresAt → id = lowerHex r → session.token = issued.token →
      session.userName = issued.userName → session.sub = issued.userId → (∀ x ∈ l, x.call = .now) →
      (∀ resp, p = .ret resp → ∃ age, resp = redirect "/" (some (sessionCookie id age))) →
      Signed o q id session s s' (⟨t, .takePending state, some verifier, t'⟩ ::
        ⟨a, .getDiscovery url, .ok (.ok disco), a'⟩ ::
        ⟨b, .postToken disco.tokenEndpoint (o.exchangeForm code verifier), .ok (.ok resp), b'⟩ ::
        ⟨c, .connectAuth, .ok (), c'⟩ :: ⟨d, .exchangeExternal resp.idToken "external", .ok reply, d'⟩ ::
        (clocks ++ ⟨e, .randomU128, r, e'⟩ :: ⟨s, .createSession id session, (), s'⟩ :: l)) p

theorem expiry_now {expiresAt exp : Int64} {l : List WebAnswered} (h : Expiry expiresAt l exp) :
    ∀ x ∈ l, x.call = .now := by
  cases h <;> simp

theorem callback_signed {q : Callback} {l : List WebAnswered} {p : Act Response} (h : CallbackStage o q l p)
    {id : String} {session : Session} {s s' : State} (hx : ⟨s, .createSession id session, (), s'⟩ ∈ l) :
    Signed o q id session s s' l p := by
  cases h with
  | idle _ => cases hx
  | missed _ => simp at hx
  | exchanging _ _ hl _ =>
    rcases List.mem_cons.mp hx with e | hx
    · cases e
    · exact (hl _ hx).elim
  | signingIn hcode hstate hissued hstage =>
    simp only [List.mem_cons, Answered.mk.injEq, reduceCtorEq, false_and, and_false, false_or] at hx
    cases hstage with
    | early hl _ => rcases hl _ hx with e | e <;> cases e
    | created hexp hl hresp =>
      rcases List.mem_append.mp hx with hx | hx
      · cases expiry_now hexp _ hx
      rcases List.mem_cons.mp hx with e | hx
      · cases e
      rcases List.mem_cons.mp hx with e | hx
      · cases e
        exact .mk hcode hstate hissued hexp rfl rfl rfl rfl hl hresp
      · cases hl _ hx

/-! ## The store, never swept -/

def pendingEdit : Step → Dict.Edit String Pending
  | ⟨_, .called _ (.startLogin state verifier) _, s'⟩ => .put state ⟨verifier, now s'.clock + pendingTtl⟩
  | ⟨_, .called _ (.takePending state) _, _⟩ => .drop state
  | _ => .keep

def sessionEdit : Step → Dict.Edit String Session
  | ⟨_, .called _ (.createSession id session) _, _⟩ => .put id session
  | ⟨_, .called _ (.removeSession id) _, _⟩ => .drop id
  | _ => .keep

/-- The store that the history makes of an empty one, sweeps left out. -/
def unswept (trace : History) : Store := ⟨Dict.replay sessionEdit trace, Dict.replay pendingEdit trace⟩

/-- The tables are those of `ref` up to what has expired. -/
structure UpToExpiry (s : State) (ref : Store) : Prop where
  pending : Dict.Swept (fun e => now s.clock < e.expiresAt) s.store.pending ref.pending
  sessions : Dict.Swept (fun e => now s.clock < e.expiresAt) s.store.sessions ref.sessions

theorem UpToExpiry.later {s s' : State} {ref : Store} (h : UpToExpiry s ref) (hle : s.clock ≤ s'.clock)
    (hs : s'.store = s.store) : UpToExpiry s' ref := by
  refine ⟨?_, ?_⟩
  · rw [hs]
    exact h.pending.mono fun e he => live_mono hle he
  · rw [hs]
    exact h.sessions.mono fun e he => live_mono hle he

/-- What a sweep drops had expired by its end. -/
theorem swept_live {s s' : State} {readings : String → Int64} (h : Between s s' readings) {exp : Int64}
    (hl : now s'.clock < exp) (k : String) : decide (now (readings k) < exp) = true :=
  decide_eq_true (live_mono (h k).2 hl)

section Runs

variable {cond : History → WebPool → Step → Prop} {trace : History} {p : WebPool}

theorem run_swept (h : (web crates o).Run cond Empty trace p) : UpToExpiry p.shared (unswept trace) := by
  induction h with
  | init s hs =>
    obtain ⟨store, clock⟩ := s
    obtain rfl : store = Store.empty := hs
    exact ⟨.refl _, .refl _⟩
  | @step trace p p' m hr hc hs ih =>
    cases hs with
    | start i => exact ih
    | env clock s' he =>
      obtain ⟨hle, rfl⟩ := he
      exact ih.later hle rfl
    | act n i c k b s' hn hsem =>
      cases c with
      | startLogin state verifier =>
        obtain ⟨hle, swept, hb, hst⟩ := hsem
        refine ⟨?_, ?_⟩
        · rw [show Pool.shared _ = s' from rfl, hst]
          exact ((ih.pending.mono fun e he => live_mono hle he).retain fun k e he => swept_live hb he k).insert _ _
        · rw [show Pool.shared _ = s' from rfl, hst]
          exact ih.sessions.mono fun e he => live_mono hle he
      | takePending state =>
        obtain ⟨hle, hst⟩ := hsem
        obtain ⟨_, hst⟩ := Prod.mk.inj hst
        refine ⟨?_, ?_⟩
        · rw [show Pool.shared _ = s' from rfl, hst]
          exact (ih.pending.mono fun e he => live_mono hle he).remove _
        · rw [show Pool.shared _ = s' from rfl, hst]
          exact ih.sessions.mono fun e he => live_mono hle he
      | createSession id session =>
        obtain ⟨hle, swept, hb, hst⟩ := hsem
        refine ⟨?_, ?_⟩
        · rw [show Pool.shared _ = s' from rfl, hst]
          exact ih.pending.mono fun e he => live_mono hle he
        · rw [show Pool.shared _ = s' from rfl, hst]
          exact ((ih.sessions.mono fun e he => live_mono hle he).retain fun k e he => swept_live hb he k).insert _ _
      | getSession id => exact ih.later hsem.1 hsem.2.1
      | removeSession id =>
        rw [show s' = _ from hsem]
        exact ⟨ih.pending, ih.sessions.remove id⟩
      | now =>
        rw [show s' = _ from hsem.2]
        exact ih
      | _ =>
        rw [show s' = _ from hsem]
        exact ih

theorem step_clock {p' : WebPool} {m : Step} (hs : (web crates o).Happens p m p') :
    p.shared.clock ≤ p'.shared.clock := by
  cases hs with
  | start i => exact Int64.le_refl _
  | env clock s' he =>
    obtain ⟨hle, rfl⟩ := he
    exact hle
  | act n i c k b s' hn hsem =>
    cases c with
    | startLogin state verifier => exact hsem.1
    | takePending state => exact hsem.1
    | createSession id session => exact hsem.1
    | getSession id => exact hsem.1
    | removeSession id =>
      rw [show s' = _ from hsem]
      exact Int64.le_refl _
    | now =>
      rw [show s' = _ from hsem.2]
      exact Int64.le_refl _
    | _ =>
      rw [show s' = _ from hsem]
      exact Int64.le_refl _

theorem run_clock {late early : History} {m : Step} (h : (web crates o).Run cond Empty (late ++ m :: early) p) :
    m.after.clock ≤ p.shared.clock := by
  induction late generalizing p with
  | nil => cases h with
    | step _ _ _ hs =>
      rw [System.happens_after hs]
      exact Int64.le_refl _
  | cons x late ih => cases h with
    | step _ hr _ hs => exact Int64.le_trans (ih hr) (step_clock hs)

/-- A redemption answers as if nothing had been swept. -/
theorem take_answer {late early : History} {n : Nat} {state : String} {b : Option String} {s s' : State}
    (h : (web crates o).Run cond Empty (late ++ ⟨s, .called n (.takePending state) b, s'⟩ :: early) p) :
    b = ((unswept early).takePending s'.clock state).1 := by
  obtain ⟨q, _, hr, _, hs, _⟩ := System.run_split h
  obtain ⟨_, _, _, hsem, _⟩ := System.happens_called hs
  obtain ⟨hle, hst⟩ := hsem
  obtain ⟨hb, _⟩ := Prod.mk.inj hst
  have hshared : q.shared = s := (System.happens_before hs).symm
  have hswept := (run_swept hr).pending
  rw [hshared] at hswept
  rw [hb]
  refine congrArg (Option.map _) (hswept.filter_eq (fun e he => ?_) state)
  exact live_mono hle (of_decide_eq_true he)

/-- And so does a lookup. -/
theorem get_answer {late early : History} {n : Nat} {id : String} {b : Option (String × String × String)} {s s' : State}
    (h : (web crates o).Run cond Empty (late ++ ⟨s, .called n (.getSession id) b, s'⟩ :: early) p) :
    b = (unswept early).get s'.clock id := by
  obtain ⟨q, _, hr, _, hs, _⟩ := System.run_split h
  obtain ⟨_, _, _, hsem, _⟩ := System.happens_called hs
  obtain ⟨hle, _, hb⟩ := hsem
  have hshared : q.shared = s := (System.happens_before hs).symm
  have hswept := (run_swept hr).sessions
  rw [hshared] at hswept
  rw [hb]
  refine congrArg (Option.map _) (hswept.filter_eq (fun e he => ?_) id)
  exact live_mono hle (of_decide_eq_true he)

/-- A call is one of those its request may come to. -/
theorem run_may (h : (web crates o).Run cond Empty trace p) {n : Nat} {c : Call} {b : c.Ans} {s s' : State}
    (hm : ⟨s, .called n c b, s'⟩ ∈ trace) : ∃ visit prog, p.threads[n]? = some ⟨visit, prog⟩ ∧
      trace.Started n visit ∧ May visit.request c := by
  have hown := Trace.own_of_mem hm
  obtain ⟨visit, hs⟩ := System.run_own_started h hown
  obtain ⟨prog, hn⟩ := System.run_info h hs
  exact ⟨visit, prog, hn, hs, (Prog.leads_makes ((System.run_leads h).1 n _ hn) (handle_makes _)).1 _ hown⟩

/-- An id is drawn once. -/
theorem drawn_once (h : (web crates o).Run FreshIds Empty trace p) {n k : Nat} {r r' : BitVec 128} {x y : Step}
    (hx : x ∈ trace) (hy : y ∈ trace) (hxd : x.did = .called n .randomU128 r) (hyd : y.did = .called k .randomU128 r')
    (he : lowerHex r = lowerHex r') : x = y := by
  induction h with
  | init s _ => cases hx
  | step m _ hc _ ih =>
    rcases List.mem_cons.mp hx with rfl | hx' <;> rcases List.mem_cons.mp hy with rfl | hy'
    · rfl
    · exact absurd he.symm (hc n r hxd y hy' k r' hyd)
    · exact absurd he (hc k r' hyd x hx' n r hxd)
    · exact ih hx' hy'

/-- Threads that drew one id are one. -/
theorem one_drawer (h : (web crates o).Run FreshIds Empty trace p) {n k : Nat} {r r' : BitVec 128} {a a' c c' : State}
    (hn : ⟨a, .randomU128, r, a'⟩ ∈ trace.own n) (hk : ⟨c, .randomU128, r', c'⟩ ∈ trace.own k)
    (he : lowerHex r = lowerHex r') : n = k := by
  have heq := drawn_once h (Trace.mem_own.mp hn) (Trace.mem_own.mp hk) rfl rfl he
  injection heq with _ heq _
  injection heq

end Runs

end Kaguya.Web.Runs
