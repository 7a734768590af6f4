/-
  Kaguya.Web.Bookkeeping — what the store of logins and sessions guarantees in every
  run with fresh ids. Its answers are those of a store that is never swept
  (`take_answer`, `get_answer`), whose entries are read off the history: a state is
  redeemed only within `PENDING_TTL` of the login that entered it and before any other
  attempt (`redeemed`); a session answers from its creation until it expires or is
  logged out, with what the one exchange of its callback gave (`created`, `looked_up`).
-/

import Kaguya.Web.Runs

namespace Kaguya.Web.Bookkeeping

open Kaguya.Lib
open Kaguya.Web.Server
open Kaguya.Web.Runs

/-! ## What a step does -/

/-- Thread `k` enters the state with its verifier. -/
def Enters (m : Step) (k : Nat) (state verifier : String) : Prop := m.did = .called k (.startLogin state verifier) ()

/-- A redemption of the state is tried, successful or not. -/
def Attempts (m : Step) (state : String) : Prop := ∃ n b, m.did = .called n (.takePending state) b

def Creates (m : Step) (k : Nat) (id : String) (session : Session) : Prop :=
  m.did = .called k (.createSession id session) ()

def LogsOut (m : Step) (id : String) : Prop := ∃ n, m.did = .called n (.removeSession id) ()

/-- Within `PENDING_TTL` of the time at which `m` ended. -/
def InTime (m : Step) (s : State) : Prop :=
  (now m.after.clock).toInt ≤ (now s.clock).toInt ∧ (now s.clock).toInt < (now m.after.clock).toInt + 600

theorem attempts_not_enters {m : Step} {k : Nat} {state state' verifier : String} (h : Attempts m state) :
    ¬ Enters m k state' verifier := by
  intro he
  obtain ⟨n, b, hd⟩ := h
  have heq := hd.symm.trans he
  cases heq

theorem pendingEdit_put {m : Step} {state : String} {e : Pending} : pendingEdit m = .put state e ↔
    ∃ k, Enters m k state e.verifier ∧ e.expiresAt = now m.after.clock + pendingTtl := by
  obtain ⟨verifier, expiresAt⟩ := e
  obtain ⟨s, d, s'⟩ := m
  cases d with
  | called n c b => cases c <;> simp [pendingEdit, Enters, and_assoc, eq_comm]
  | _ => simp [pendingEdit, Enters]

theorem pendingEdit_touches {m : Step} {state : String} :
    (pendingEdit m).Touches state ↔ Attempts m state ∨ ∃ k verifier, Enters m k state verifier := by
  obtain ⟨s, d, s'⟩ := m
  cases d with
  | called n c b => cases c <;> simp [pendingEdit, Dict.Edit.Touches, Attempts, Enters]
  | _ => simp [pendingEdit, Dict.Edit.Touches, Attempts, Enters]

theorem sessionEdit_put {m : Step} {id : String} {session : Session} :
    sessionEdit m = .put id session ↔ ∃ k, Creates m k id session := by
  obtain ⟨s, d, s'⟩ := m
  cases d with
  | called n c b => cases c <;> simp [sessionEdit, Creates]
  | _ => simp [sessionEdit, Creates]

theorem sessionEdit_touches {m : Step} {id : String} :
    (sessionEdit m).Touches id ↔ LogsOut m id ∨ ∃ k session, Creates m k id session := by
  obtain ⟨s, d, s'⟩ := m
  cases d with
  | called n c b => cases c <;> simp [sessionEdit, Dict.Edit.Touches, LogsOut, Creates]
  | _ => simp [sessionEdit, Dict.Edit.Touches, LogsOut, Creates]

/-! ## Reading the unswept store -/

variable {crates : Crates} {o : Oidc} {cond : History → WebPool → Step → Prop} {trace : History} {p : WebPool}

theorem unswept_pending {state : String} {e : Pending} (h : (unswept trace).pending.get state = some e) :
    ∃ late m early k, trace = late ++ m :: early ∧ Enters m k state e.verifier ∧
      e.expiresAt = now m.after.clock + pendingTtl ∧ ∀ x ∈ late, ¬ Attempts x state := by
  obtain ⟨late, m, early, htrace, hput, hlate⟩ := Dict.replay_some.mp h
  obtain ⟨k, hk, he⟩ := pendingEdit_put.mp hput
  exact ⟨late, m, early, k, htrace, hk, he, fun x hx ha => hlate x hx (pendingEdit_touches.mpr (Or.inl ha))⟩

/-- A sum that wraps is negative, so it is no later time. -/
theorem before_ttl {a t : Int64} (ha : 0 ≤ a.toInt) (ht : 0 ≤ t.toInt) (h : t < a + pendingTtl) :
    t.toInt < a.toInt + 600 := by
  have hlt := Int64.toInt_lt a
  have httl : pendingTtl.toInt = 600 := rfl
  rw [Int64.lt_iff_toInt_lt, Int64.toInt_add, httl, Int.bmod_def] at h
  split at h <;> omega

/-- A successful redemption is of a state that was entered, and not tried since. -/
theorem redeemed {late early : History} {n : Nat} {state verifier : String} {s s' : State}
    (h : (web crates o).Run cond Empty (late ++ ⟨s, .called n (.takePending state) (some verifier), s'⟩ :: early) p) :
    ∃ mid m first k, early = mid ++ m :: first ∧ Enters m k state verifier ∧ InTime m s' ∧
      ∀ x ∈ mid, ¬ Attempts x state := by
  have hb := (take_answer h).symm
  simp only [Store.takePending, Option.map_eq_some_iff, Option.filter_eq_some_iff, decide_eq_true_eq] at hb
  obtain ⟨e, ⟨he, hlive⟩, rfl⟩ := hb
  obtain ⟨mid, m, first, k, rfl, hk, hexp, hmid⟩ := unswept_pending he
  refine ⟨mid, m, first, k, rfl, hk, ⟨?_, ?_⟩, hmid⟩
  · obtain ⟨q, _, hr, _, hs, _⟩ := System.run_split h
    obtain ⟨_, _, _, hsem, _⟩ := System.happens_called hs
    have hle := run_clock hr
    rw [← System.happens_before hs] at hle
    exact Int64.le_iff_toInt_le.mp (now_mono (Int64.le_trans hle hsem.1))
  · rw [hexp] at hlive
    exact before_ttl (now_nonneg _) (now_nonneg _) hlive

/-! ## Whose state, whose session -/

def isEnter : Call → Bool
  | .startLogin .. => true
  | _ => false

def isCreate : Call → Bool
  | .createSession .. => true
  | _ => false

def isExchange : Call → Bool
  | .exchangeExternal .. => true
  | _ => false

/-- The query asks for a login with the state and the challenge of method S256. -/
structure Asks (query : List (String × String)) (state challenge : String) : Prop where
  state : ("state", state) ∈ query
  challenge : ("code_challenge", challenge) ∈ query
  s256 : ("code_challenge_method", "S256") ∈ query
  once : (query.map Prod.fst).Nodup

/-- The form hands in the code with the verifier. -/
structure HandsIn (form : List (String × String)) (code verifier : String) : Prop where
  code : ("code", code) ∈ form
  verifier : ("code_verifier", verifier) ∈ form
  once : (form.map Prod.fst).Nodup

theorem asks_authorizeQuery (o : Oidc) (state challenge : String) : Asks (o.authorizeQuery state challenge) state challenge where
  state := by simp [Oidc.authorizeQuery]
  challenge := by simp [Oidc.authorizeQuery]
  s256 := by simp [Oidc.authorizeQuery]
  once := by simp [Oidc.authorizeQuery]

theorem handsIn_exchangeForm (o : Oidc) (code verifier : String) : HandsIn (o.exchangeForm code verifier) code verifier where
  code := by simp [Oidc.exchangeForm]
  verifier := by simp [Oidc.exchangeForm]
  once := by simp [Oidc.exchangeForm]

/-- What a login that is done has told its browser: to go to the endpoint that the provider
    named, with the state and the SHA-256 of the verifier. -/
def SentOn (crates : Crates) (l : List WebAnswered) (state verifier : String) (resp : Response) : Prop :=
  resp = plain 502 "login unavailable" ∨ ∃ disco url query, Discovered l disco ∧
    crates.parseUrl disco.authorizationEndpoint = .ok url ∧
    Asks query state (crates.base64url (crates.sha256 verifier.toUTF8.toList)) ∧
    resp = redirect (query.foldl (fun url kv => crates.appendPair url kv.1 kv.2) url) none

theorem authorizeAt_ok {crates : Crates} {o : Oidc} {endpoint state challenge location : String}
    (h : o.authorizeAt crates endpoint state challenge = .ok location) : ∃ url, crates.parseUrl endpoint = .ok url ∧
      location = (o.authorizeQuery state challenge).foldl (fun url kv => crates.appendPair url kv.1 kv.2) url := by
  unfold Oidc.authorizeAt at h
  split at h
  · cases h
  · rename_i url hurl
    exact ⟨url, hurl, (Except.ok.inj h).symm⟩

theorem login_enters {l : List WebAnswered} {q : Act Response} (h : LoginStage crates o l q) {state verifier : String}
    {s s' : State} (hx : ⟨s, .startLogin state verifier, (), s'⟩ ∈ l) :
    (∃ r a a', ⟨a, .randomU128, r, a'⟩ ∈ l ∧ state = lowerHex r) ∧ (l.countP fun x => isEnter x.call) = 1 ∧
      ∀ resp, q = .ret resp → SentOn crates l state verifier resp := by
  cases h with
  | early hl _ =>
    rcases hl _ hx with e | e <;> cases e
  | @entered a a' b b' c c' r bytes l q hl hq =>
    have hrest : (l.countP fun x => isEnter x.call) = 0 := by
      rw [List.countP_eq_zero]
      intro x hx
      obtain ⟨url, e⟩ := hl x hx
      rw [e]
      exact Bool.false_ne_true
    simp only [List.mem_cons, Answered.mk.injEq, reduceCtorEq, false_and, and_false, false_or,
      Call.startLogin.injEq] at hx
    rcases hx with ⟨rfl, ⟨rfl, rfl⟩, _, rfl⟩ | hx
    · refine ⟨⟨r, a, a', List.mem_cons_self, rfl⟩, ?_, fun resp hresp => ?_⟩
      · rw [List.countP_cons, List.countP_cons, List.countP_cons, hrest]
        rfl
      · rcases hq resp hresp with hfail | ⟨disco, location, ⟨d, link, d', hd⟩, hurl, rfl⟩
        · exact Or.inl hfail
        · obtain ⟨url, hparse, rfl⟩ := authorizeAt_ok hurl
          exact Or.inr ⟨disco, url, _, ⟨d, link, d', by simp [hd]⟩, hparse, asks_authorizeQuery o _ _, rfl⟩
    · obtain ⟨url, e⟩ := hl _ hx
      cases e

theorem callback_posts {q : Callback} {l : List WebAnswered} {prog : Act Response} (h : CallbackStage o q l prog)
    {url : String} {form : List (String × String)} {b : Fetched TokenResponse} {s s' : State}
    (hx : ⟨s, .postToken url form, b, s'⟩ ∈ l) : ∃ code state verifier t t', q.code = some code ∧
      q.state = some state ∧ form = o.exchangeForm code verifier ∧
      (⟨t, .takePending state, some verifier, t'⟩ : WebAnswered) ∈ l := by
  cases h with
  | idle _ => cases hx
  | missed _ => simp at hx
  | exchanging hcode hstate hl _ =>
    refine ⟨_, _, _, _, _, hcode, hstate, ?_, List.mem_cons_self⟩
    rcases List.mem_cons.mp hx with e | hx
    · cases e
    · exact hl _ hx
  | signingIn hcode hstate _ hstage =>
    refine ⟨_, _, _, _, _, hcode, hstate, ?_, List.mem_cons_self⟩
    simp only [List.mem_cons, Answered.mk.injEq, reduceCtorEq, false_and, and_false, false_or,
      Call.postToken.injEq] at hx
    rcases hx with ⟨_, ⟨_, rfl⟩, _⟩ | hx
    · rfl
    · exfalso
      cases hstage with
      | early hl _ => rcases hl _ hx with e | e <;> cases e
      | created hexp hl _ =>
        rcases List.mem_append.mp hx with hx | hx
        · cases expiry_now hexp _ hx
        · rcases List.mem_cons.mp hx with e | hx
          · cases e
          rcases List.mem_cons.mp hx with e | hx
          · cases e
          · cases hl _ hx

theorem filter_now {l : List WebAnswered} {kind : Call → Bool} (hk : kind .now = false)
    (hl : ∀ x ∈ l, x.call = .now) : (l.filter fun x => kind x.call) = [] := by
  rw [List.filter_eq_nil_iff]
  intro x hx
  rw [hl x hx, hk]
  exact Bool.false_ne_true

/-- What a callback that signs in has drawn, exchanged and created. -/
theorem signed_calls {q : Callback} {l : List WebAnswered} {prog : Act Response} {id : String} {session : Session}
    {s s' : State} (h : Signed o q id session s s' l prog) :
    (∃ r a a', ⟨a, .randomU128, r, a'⟩ ∈ l ∧ id = lowerHex r) ∧ (l.countP fun x => isCreate x.call) = 1 ∧
      ∃ idToken reply issued d d',
        (l.filter fun x => isExchange x.call) = [⟨d, .exchangeExternal idToken "external", .ok reply, d'⟩] ∧
        issuedOf reply = .ok issued ∧ session.token = issued.token ∧ session.userName = issued.userName ∧
        session.sub = issued.userId := by
  cases h with
  | @mk code state verifier url t t' a a' b b' c c' d d' e e' disco resp reply issued r clocks l p hcode hstate
      hissued hexp hid htoken hname hsub hl hresp =>
    refine ⟨⟨r, e, e', by simp, hid⟩, ?_, resp.idToken, reply, issued, d, d', ?_, hissued, htoken, hname, hsub⟩
    · rw [List.countP_eq_length_filter]
      have hclocks := @filter_now clocks isCreate rfl (expiry_now hexp)
      have hrest := @filter_now l isCreate rfl hl
      simp only [List.filter_cons, List.filter_append, hclocks, hrest]
      rfl
    · have hclocks := @filter_now clocks isExchange rfl (expiry_now hexp)
      have hrest := @filter_now l isExchange rfl hl
      simp only [List.filter_cons, List.filter_append, hclocks, hrest]
      rfl

/-! ## Every run -/

/-- A state is entered by a login. -/
theorem entered_by (h : (web crates o).Run cond Empty trace p) {m : Step} (hm : m ∈ trace) {k : Nat}
    {state verifier : String} (he : Enters m k state verifier) : ∃ browser prog,
      p.threads[k]? = some ⟨⟨browser, .login⟩, prog⟩ ∧ trace.Started k ⟨browser, .login⟩ ∧
      LoginStage crates o (trace.own k) prog ∧
        (⟨m.before, .startLogin state verifier, (), m.after⟩ : WebAnswered) ∈ trace.own k := by
  obtain ⟨s, d, s'⟩ := m
  dsimp only [Enters] at he
  subst he
  obtain ⟨⟨browser, request⟩, prog, hk, hs, hmay⟩ := run_may h hm
  cases request with
  | login => exact ⟨browser, prog, hk, hs, login_stage ((System.run_leads h).1 k _ hk), Trace.own_of_mem hm⟩
  | _ => cases hmay

/-- A session is created by a callback. -/
theorem created_by (h : (web crates o).Run cond Empty trace p) {m : Step} (hm : m ∈ trace) {k : Nat} {id : String}
    {session : Session} (hc : Creates m k id session) : ∃ browser q prog,
      p.threads[k]? = some ⟨⟨browser, .callback q⟩, prog⟩ ∧ trace.Started k ⟨browser, .callback q⟩ ∧
      Signed o q id session m.before m.after (trace.own k) prog := by
  obtain ⟨s, d, s'⟩ := m
  dsimp only [Creates] at hc
  subst hc
  obtain ⟨⟨browser, request⟩, prog, hk, hs, hmay⟩ := run_may h hm
  cases request with
  | callback q =>
    have hstage := callback_stage ((System.run_leads h).1 k _ hk)
    exact ⟨browser, q, prog, hk, hs, callback_signed hstage (Trace.own_of_mem hm)⟩
  | _ => cases hmay

/-- A state is entered once. -/
theorem entered_once (h : (web crates o).Run FreshIds Empty trace p) {late early : History} {m x : Step}
    (ht : trace = late ++ m :: early) {k k' : Nat} {state verifier verifier' : String} (hm : Enters m k state verifier)
    (hx : x ∈ early) : ¬ Enters x k' state verifier' := by
  intro he
  subst ht
  have hmem : m ∈ late ++ m :: early := List.mem_append_right _ List.mem_cons_self
  have hxmem : x ∈ late ++ m :: early := List.mem_append_right _ (List.mem_cons_of_mem _ hx)
  obtain ⟨_, _, _, _, hstage, hown⟩ := entered_by h hmem hm
  obtain ⟨_, _, _, _, hstage', hown'⟩ := entered_by h hxmem he
  obtain ⟨⟨r, a, a', hr, hst⟩, hone, _⟩ := login_enters hstage hown
  obtain ⟨⟨r', c, c', hr', hst'⟩, _, _⟩ := login_enters hstage' hown'
  -- both drew the state, so they are one login, which enters twice
  obtain rfl := one_drawer h hr hr' (hst.symm.trans hst')
  obtain ⟨s, d, s'⟩ := m
  obtain ⟨w, d', w'⟩ := x
  dsimp only [Enters] at hm he
  subst hm he
  have htwo := @Trace.own_twice _ _ _ _ _ k late early s s' (.startLogin state verifier) () isEnter rfl _
    (Trace.own_of_mem hx) rfl
  rw [hone] at htwo
  omega

/-- A session id is given once. -/
theorem created_once (h : (web crates o).Run FreshIds Empty trace p) {late early : History} {m x : Step}
    (ht : trace = late ++ m :: early) {k k' : Nat} {id : String} {session session' : Session}
    (hm : Creates m k id session)
    (hx : x ∈ early) : ¬ Creates x k' id session' := by
  intro he
  subst ht
  have hmem : m ∈ late ++ m :: early := List.mem_append_right _ List.mem_cons_self
  have hxmem : x ∈ late ++ m :: early := List.mem_append_right _ (List.mem_cons_of_mem _ hx)
  obtain ⟨_, _, _, _, _, hsigned⟩ := created_by h hmem hm
  obtain ⟨_, _, _, _, _, hsigned'⟩ := created_by h hxmem he
  obtain ⟨⟨r, a, a', hr, hst⟩, hone, _⟩ := signed_calls hsigned
  obtain ⟨⟨r', c, c', hr', hst'⟩, _, _⟩ := signed_calls hsigned'
  obtain rfl := one_drawer h hr hr' (hst.symm.trans hst')
  obtain ⟨s, d, s'⟩ := m
  obtain ⟨w, d', w'⟩ := x
  dsimp only [Creates] at hm he
  subst hm he
  have htwo := @Trace.own_twice _ _ _ _ _ k late early s s' (.createSession id session) () isCreate rfl _
    (Trace.own_of_mem hx) rfl
  rw [hone] at htwo
  omega

/-- Of two elements of a list one comes first. -/
theorem order_of_mem {α : Type} {l : List α} {a b : α} (ha : a ∈ l) (hb : b ∈ l) :
    a = b ∨ (∃ late early, l = late ++ a :: early ∧ b ∈ early) ∨ ∃ late early, l = late ++ b :: early ∧ a ∈ early := by
  obtain ⟨late, early, rfl⟩ := List.append_of_mem ha
  rcases List.mem_append.mp hb with hb | hb
  · obtain ⟨l₁, l₂, rfl⟩ := List.append_of_mem hb
    exact Or.inr (Or.inr ⟨l₁, l₂ ++ a :: early, by simp, by simp⟩)
  · rcases List.mem_cons.mp hb with rfl | hb
    · exact Or.inl rfl
    · exact Or.inr (Or.inl ⟨late, early, rfl, hb⟩)

/-- A state that a login entered and someone tried is not redeemed again. -/
theorem spent (h : (web crates o).Run FreshIds Empty trace p) {late mid early : History} {n k : Nat}
    {state verifier : String} {b : Option String} {s s' : State} {y m : Step}
    (ht : trace = late ++ ⟨s, .called n (.takePending state) b, s'⟩ :: (mid ++ y :: early)) (hy : Attempts y state)
    (hm : m ∈ early) (he : Enters m k state verifier) : b = none := by
  cases b with
  | none => rfl
  | some v =>
    exfalso
    subst ht
    obtain ⟨mid', m', first, k', heq, he', _, hmid⟩ := redeemed h
    -- the login's entry comes after the attempt, so `m` is another
    have hlater : ∃ bs, first = bs ++ y :: early := by
      rcases List.append_eq_append_iff.mp heq with ⟨as, rfl, has⟩ | ⟨bs, rfl, hbs⟩
      · cases as with
        | nil =>
          cases has
          exact absurd he' (attempts_not_enters hy)
        | cons z as =>
          cases has
          exact absurd hy (hmid y (by simp))
      · cases bs with
        | nil =>
          cases hbs
          exact absurd he' (attempts_not_enters hy)
        | cons z bs =>
          cases hbs
          exact ⟨bs, rfl⟩
    obtain ⟨bs, rfl⟩ := hlater
    rw [heq] at h
    have ht : late ++ (⟨s, .called n (.takePending state) (some v), s'⟩ : Step) :: (mid' ++ m' :: (bs ++ y :: early)) =
        (late ++ ⟨s, .called n (.takePending state) (some v), s'⟩ :: mid') ++ m' :: (bs ++ y :: early) := by simp
    exact entered_once h ht he' (List.mem_append_right bs (List.mem_cons_of_mem y hm)) he

/-! ## Logins and sessions -/

/-- What is promised of a started state. -/
structure Redemption (crates : Crates) (o : Oidc) (trace : History) (p : WebPool) : Prop where
  /-- A callback redeems its own `state`, within its time of the login that entered it,
      no redemption tried in between. -/
  granted : ∀ late early n state verifier s s',
    trace = late ++ ⟨s, .called n (.takePending state) (some verifier), s'⟩ :: early →
    (∃ browser q, trace.Started n ⟨browser, .callback q⟩ ∧ q.state = some state) ∧
      ∃ mid m first k browser, early = mid ++ m :: first ∧ Enters m k state verifier ∧
        trace.Started k ⟨browser, .login⟩ ∧ InTime m s' ∧ ∀ x ∈ mid, ¬ Attempts x state
  /-- After any attempt on it there is no other. -/
  spent : ∀ late mid early n state b s s' y m k verifier,
    trace = late ++ ⟨s, .called n (.takePending state) b, s'⟩ :: (mid ++ y :: early) → Attempts y state →
    m ∈ early → Enters m k state verifier → b = none
  once : ∀ n n' state verifier verifier' s s' t t', ⟨s, .called n (.takePending state) (some verifier), s'⟩ ∈ trace →
    ⟨t, .called n' (.takePending state) (some verifier'), t'⟩ ∈ trace → n = n'
  /-- A callback sends the verifier whose challenge the login of its state sent its
      browser on with. -/
  sent : ∀ n url form b s s', ⟨s, .called n (.postToken url form) b, s'⟩ ∈ trace →
    ∃ code state verifier browser q m k browser', trace.Started n ⟨browser, .callback q⟩ ∧ q.code = some code ∧
      q.state = some state ∧ form = o.exchangeForm code verifier ∧ HandsIn form code verifier ∧ m ∈ trace ∧
      Enters m k state verifier ∧ trace.Started k ⟨browser', .login⟩ ∧
      ∀ resp, p.threads[k]? = some ⟨⟨browser', .login⟩, .ret resp⟩ →
        SentOn crates (trace.own k) state verifier resp

/-- What is promised of a session id. -/
structure Lookups (trace : History) : Prop where
  /-- A lookup answers with a session from its creation to its end, unless it is logged
      out, and with nothing else. -/
  answers : ∀ late early n id b s s', trace = late ++ ⟨s, .called n (.getSession id) b, s'⟩ :: early →
    ∀ token userName sub, b = some (token, userName, sub) ↔ ∃ mid m first k expiresAt, early = mid ++ m :: first ∧
      Creates m k id ⟨token, userName, sub, expiresAt⟩ ∧ now s'.clock < expiresAt ∧ ∀ x ∈ mid, ¬ LogsOut x id
  /-- An id is given once, by a callback that made one exchange and keeps its answer. -/
  created : ∀ m k id session, m ∈ trace → Creates m k id session →
    (∃ browser q, trace.Started k ⟨browser, .callback q⟩) ∧
      (∀ m' k' session', m' ∈ trace → Creates m' k' id session' → m' = m) ∧
      ∃ idToken reply issued d d', ((trace.own k).filter fun x => isExchange x.call) =
          [⟨d, .exchangeExternal idToken "external", .ok reply, d'⟩] ∧ issuedOf reply = .ok issued ∧
        session.token = issued.token ∧ session.userName = issued.userName ∧ session.sub = issued.userId
  loggedOut : ∀ m id, m ∈ trace → LogsOut m id →
    ∃ n browser headers, trace.Started n ⟨browser, .logout headers⟩ ∧ sessionId headers = some id

/-- Every answer is that of the store with the sweeps left out. -/
structure SweepsUnseen (trace : History) : Prop where
  take : ∀ late early n state b s s', trace = late ++ ⟨s, .called n (.takePending state) b, s'⟩ :: early →
    b = ((unswept early).takePending s'.clock state).1
  get : ∀ late early n id b s s', trace = late ++ ⟨s, .called n (.getSession id) b, s'⟩ :: early →
    b = (unswept early).get s'.clock id

/-- A redemption is made by a callback with the state. -/
theorem taken_by (h : (web crates o).Run cond Empty trace p) {n : Nat} {state : String} {b : Option String}
    {s s' : State} (hm : ⟨s, .called n (.takePending state) b, s'⟩ ∈ trace) :
    ∃ browser q, trace.Started n ⟨browser, .callback q⟩ ∧ q.state = some state := by
  obtain ⟨⟨browser, request⟩, prog, hn, hs, hmay⟩ := run_may h hm
  cases request with
  | callback q => exact ⟨browser, q, hs, hmay⟩
  | _ => cases hmay

/-- What was redeemed had been entered. -/
theorem taken_entered (h : (web crates o).Run cond Empty trace p) {n : Nat} {state verifier : String} {s s' : State}
    (hm : ⟨s, .called n (.takePending state) (some verifier), s'⟩ ∈ trace) :
    ∃ late early, trace = late ++ ⟨s, .called n (.takePending state) (some verifier), s'⟩ :: early ∧
      ∃ m ∈ early, ∃ k, Enters m k state verifier := by
  obtain ⟨late, early, rfl⟩ := List.append_of_mem hm
  obtain ⟨mid, m, first, k, rfl, he, _⟩ := redeemed h
  exact ⟨late, _, rfl, m, by simp, k, he⟩

/-- Of two successful redemptions of a state the later would be spent. -/
theorem redeemed_once (h : (web crates o).Run FreshIds Empty trace p) {n n' : Nat} {state verifier verifier' : String}
    {s s' t t' : State} {late early : History}
    (ht : trace = late ++ ⟨s, .called n (.takePending state) (some verifier), s'⟩ :: early)
    (hy : ⟨t, .called n' (.takePending state) (some verifier'), t'⟩ ∈ early) : False := by
  subst ht
  obtain ⟨_, _, hr, _, _, _⟩ := System.run_split h
  obtain ⟨mid, first, rfl, m, hm, k, he⟩ := taken_entered hr hy
  have hnone := spent h rfl ⟨n', some verifier', rfl⟩ hm he
  cases hnone

theorem run_redemption (h : (web crates o).Run FreshIds Empty trace p) : Redemption crates o trace p where
  granted late early n state verifier s s' ht := by
    have hmem : (⟨s, .called n (.takePending state) (some verifier), s'⟩ : Step) ∈ trace := by
      rw [ht]
      exact List.mem_append_right _ List.mem_cons_self
    obtain ⟨mid, m, first, k, rfl, he, hin, hmid⟩ := redeemed (ht ▸ h)
    have hm : m ∈ trace := by
      rw [ht]
      simp
    obtain ⟨browser, _, _, hs, _⟩ := entered_by h hm he
    exact ⟨taken_by h hmem, mid, m, first, k, browser, rfl, he, hs, hin, hmid⟩
  spent late mid early n state b s s' y m k verifier ht hy hm he := spent h ht hy hm he
  once n n' state verifier verifier' s s' t t' hx hy := by
    rcases order_of_mem hx hy with heq | ⟨late, early, ht, hlate⟩ | ⟨late, early, ht, hlate⟩
    · injection heq with _ heq _
      injection heq
    · exact (redeemed_once h ht hlate).elim
    · exact (redeemed_once h ht hlate).elim
  sent n url form b s s' hm := by
    obtain ⟨⟨browser, request⟩, prog, hn, hs, hmay⟩ := run_may h hm
    cases request with
    | callback q =>
      have hstage := callback_stage ((System.run_leads h).1 n _ hn)
      obtain ⟨code, state, verifier, t, t', hcode, hstate, hform, htake⟩ := callback_posts hstage (Trace.own_of_mem hm)
      obtain ⟨late, early, ht, m, hm, k, he⟩ := taken_entered h (Trace.mem_own.mp htake)
      have hmem : m ∈ trace := by
        rw [ht]
        exact List.mem_append_right _ (List.mem_cons_of_mem _ hm)
      obtain ⟨browser', prog', hk, hks, hlogin, hown⟩ := entered_by h hmem he
      refine ⟨code, state, verifier, browser, q, m, k, browser', hs, hcode, hstate, hform,
        hform ▸ handsIn_exchangeForm o code verifier, hmem, he, hks, ?_⟩
      intro resp hresp
      rw [hk] at hresp
      cases hresp
      exact (login_enters hlogin hown).2.2 resp rfl
    | _ => cases hmay

theorem run_lookups (h : (web crates o).Run FreshIds Empty trace p) : Lookups trace where
  answers late early n id b s s' ht token userName sub := by
    subst ht
    rw [get_answer h]
    simp only [Store.get, Option.map_eq_some_iff, Option.filter_eq_some_iff, decide_eq_true_eq, unswept,
      Dict.replay_some]
    constructor
    · intro hget
      obtain ⟨⟨tok, name, user, expiresAt⟩, ⟨⟨mid, m, first, rfl, hput, hmid⟩, hlive⟩, heq⟩ := hget
      obtain ⟨k, hk⟩ := sessionEdit_put.mp hput
      cases heq
      exact ⟨mid, m, first, k, expiresAt, rfl, hk, hlive, fun x hx hl =>
        hmid x hx (sessionEdit_touches.mpr (Or.inl hl))⟩
    · intro hget
      obtain ⟨mid, m, first, k, expiresAt, rfl, hk, hlive, hmid⟩ := hget
      refine ⟨⟨token, userName, sub, expiresAt⟩, ⟨⟨mid, m, first, rfl, sessionEdit_put.mpr ⟨k, hk⟩, ?_⟩, hlive⟩, rfl⟩
      intro x hx htouch
      rcases sessionEdit_touches.mp htouch with hl | ⟨k', session', hc⟩
      · exact hmid x hx hl
      · -- the id would be given twice
        obtain ⟨l₁, l₂, rfl⟩ := List.append_of_mem hx
        have heq : late ++ (⟨s, .called n (.getSession id) b, s'⟩ : Step) :: (l₁ ++ x :: l₂ ++ m :: first) =
            (late ++ ⟨s, .called n (.getSession id) b, s'⟩ :: l₁) ++ x :: (l₂ ++ m :: first) := by simp
        exact created_once h heq hc (List.mem_append_right l₂ List.mem_cons_self) hk
  created m k id session hm hc := by
    obtain ⟨browser, q, prog, hk, hs, hsigned⟩ := created_by h hm hc
    refine ⟨⟨browser, q, hs⟩, fun m' k' session' hm' hc' => ?_, (signed_calls hsigned).2.2⟩
    rcases order_of_mem hm hm' with rfl | ⟨late, early, ht, hlate⟩ | ⟨late, early, ht, hlate⟩
    · rfl
    · exact absurd hc' (created_once h ht hc hlate)
    · exact absurd hc (created_once h ht hc' hlate)
  loggedOut m id hm hl := by
    obtain ⟨s, d, s'⟩ := m
    obtain ⟨n, hd⟩ := hl
    dsimp only at hd
    subst hd
    obtain ⟨⟨browser, request⟩, prog, hn, hs, hmay⟩ := run_may h hm
    cases request with
    | logout headers => exact ⟨n, browser, headers, hs, hmay⟩
    | _ => cases hmay

end Kaguya.Web.Bookkeeping
