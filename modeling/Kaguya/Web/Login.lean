/-
  Kaguya.Web.Login — whose login a callback completes. A callback finds its login by the
  `state` in its URL, and nothing in the request ties the state to the browser that
  began the login: the code challenge binds the code to the login, not to the browser.

  `Bound`: whoever is signed in began the login. It holds in every run in which no
  browser opens the callback URL of a login that another began (`bound_if_own`), and
  there is no more to it: any browser that opens the URL of a live login can be signed
  in (`signs_in`). So can a victim that an attacker sends the URL of his own login to
  (`victim_signed_in`).
-/

import Kaguya.Web.Bookkeeping

namespace Kaguya.Web.Login

open Kaguya.Lib
open Kaguya.Web.Server
open Kaguya.Web.Runs
open Kaguya.Web.Bookkeeping

/-! ## Browsers and states -/

/-- Ids are unguessable: an id that is drawn was not drawn before, and no callback has
    been opened with it. -/
def Unguessable (trace : History) (p : WebPool) (m : Step) : Prop :=
  FreshIds trace p m ∧ ∀ n r, m.did = .called n .randomU128 r → ∀ k browser q,
    Trace.Started k ⟨browser, .callback q⟩ trace → q.state ≠ some (lowerHex r)

/-- No browser opens the callback URL of a login that another has begun. A URL with an
    `error` or without a code is no matter. -/
def OwnStates (trace : History) (_ : WebPool) (m : Step) : Prop :=
  ∀ n browser q, m.did = .started n ⟨browser, .callback q⟩ → q.error = none → q.code.isSome →
    ∀ k browser' r s s', Trace.Started k ⟨browser', .login⟩ trace → ⟨s, .called k .randomU128 r, s'⟩ ∈ trace →
      q.state = some (lowerHex r) → browser' = browser

/-- Thread `n` redeemed the entry that thread `k` made. -/
def Consumed (trace : History) (n k : Nat) : Prop :=
  ∃ late mid m first state verifier s s',
    trace = late ++ ⟨s, .called n (.takePending state) (some verifier), s'⟩ :: (mid ++ m :: first) ∧
      Enters m k state verifier ∧ ∀ x ∈ mid, ¬ Attempts x state

/-- Every session created for a browser is from a login that it began. -/
def Bound (trace : History) : Prop :=
  ∀ n browser q m id session, trace.Started n ⟨browser, .callback q⟩ → m ∈ trace → Creates m n id session →
    (∃ k, Consumed trace n k) ∧ ∀ k, Consumed trace n k → trace.Started k ⟨browser, .login⟩

/-- The browser has been answered with the cookie of the session its callback created. -/
def SignedIn (trace : History) (p : WebPool) (n browser : Nat) : Prop :=
  ∃ q resp m id session age, p.threads[n]? = some ⟨⟨browser, .callback q⟩, .ret resp⟩ ∧
    resp.setCookie = some (sessionCookie id age) ∧ m ∈ trace ∧ Creates m n id session

variable {crates : Crates} {o : Oidc} {cond : History → WebPool → Step → Prop} {trace : History} {p : WebPool}

/-! ## No URLs of others -/

/-- A callback that makes a call came without an error, and with a code. -/
theorem callback_comes {q : Callback} {l : List WebAnswered} {prog : Act Response} (h : (callback o q).Leads l prog)
    (hl : l ≠ []) : q.error = none ∧ q.code.isSome := by
  obtain ⟨code, state, error⟩ := q
  cases error with
  | some e => exact absurd (Prog.leads_ret h).1 hl
  | none =>
    cases code with
    | none => exact absurd (Prog.leads_ret h).1 hl
    | some code => exact ⟨rfl, rfl⟩

/-- A callback that signs in has consumed an entry. -/
theorem consumes (h : (web crates o).Run cond Empty trace p) {m : Step} (hm : m ∈ trace) {n : Nat} {id : String}
    {session : Session} (hc : Creates m n id session) : ∃ k, Consumed trace n k := by
  obtain ⟨browser, q, prog, hn, hs, hsigned⟩ := created_by h hm hc
  generalize hl : trace.own n = l at hsigned
  cases hsigned with
  | @mk code state verifier url t t' =>
    have htake : ⟨t, .takePending state, some verifier, t'⟩ ∈ trace.own n := hl ▸ List.mem_cons_self
    obtain ⟨late, early, rfl⟩ := List.append_of_mem (Trace.mem_own.mp htake)
    obtain ⟨mid, m, first, k, rfl, he, _, hmid⟩ := redeemed h
    exact ⟨k, late, mid, m, first, state, verifier, t, t', rfl, he, hmid⟩

theorem bound_if_own (h : (web crates o).Run (fun t p m => Unguessable t p m ∧ OwnStates t p m) Empty trace p) :
    Bound trace := by
  intro n browser q m id session hs hm hc
  refine ⟨consumes h hm hc, fun k hk => ?_⟩
  obtain ⟨late, mid, m', first, state, verifier, s, s', ht, he, _⟩ := hk
  -- the login drew the state
  have hm' : m' ∈ trace := by
    rw [ht]
    simp
  obtain ⟨browser', prog, _, hks, hstage, hown⟩ := entered_by h hm' he
  obtain ⟨⟨r, a, a', hr, rfl⟩, _, _⟩ := login_enters hstage hown
  -- the callback came with it
  have htake : ⟨s, .called n (.takePending (lowerHex r)) (some verifier), s'⟩ ∈ trace := by
    rw [ht]
    simp
  obtain ⟨browser'', q', hs', hstate⟩ := taken_by h htake
  cases System.run_started_unique h hs hs'
  obtain ⟨prog', hn⟩ := System.run_info h hs
  have hcomes := callback_comes ((System.run_leads h).1 n _ hn) (List.ne_nil_of_mem (Trace.own_of_mem htake))
  -- drawn before it came, it was its own; drawn after, it was guessed
  obtain ⟨x, hx, hxd⟩ := hs
  rcases order_of_mem hx (Trace.mem_own.mp hr) with rfl | ⟨l₂, l₁, heq, hl⟩ | ⟨l₂, l₁, heq, hl⟩
  · cases hxd
  · subst heq
    obtain ⟨_, _, hr₁, hcond, _, _⟩ := System.run_split h
    obtain ⟨i, hi⟩ := System.run_own_started hr₁ (Trace.own_of_mem hl)
    cases System.run_started_unique h ((hi.cons x).append l₂) hks
    cases hcond.2 n browser q hxd hcomes.1 hcomes.2 k browser' r a a' hi hl hstate
    exact hks
  · subst heq
    obtain ⟨_, _, _, hcond, _, _⟩ := System.run_split h
    exact absurd hstate (hcond.1.2 k r rfl n browser q ⟨x, hl, hxd⟩)

/-! ## Opening another's URL -/

theorem unguessable_of {m : Step} (h : ∀ n r, m.did ≠ .called n .randomU128 r) : Unguessable trace p m :=
  ⟨fun n r hd => absurd hd (h n r), fun n r hd => absurd hd (h n r)⟩

/-- The id was not drawn, and no callback came with it. -/
def Unused (trace : History) (r : BitVec 128) : Prop :=
  (∀ x ∈ trace, ∀ k r', x.did = .called k .randomU128 r' → lowerHex r' ≠ lowerHex r) ∧
    ∀ k browser q, Trace.Started k ⟨browser, .callback q⟩ trace → q.state ≠ some (lowerHex r)

theorem Unused.unguessable {r : BitVec 128} (h : Unused trace r) {n : Nat} {s s' : State} :
    Unguessable trace p ⟨s, .called n .randomU128 r, s'⟩ := by
  refine ⟨fun n r' hd => ?_, fun n r' hd => ?_⟩
  · cases hd
    exact h.1
  · cases hd
    exact h.2

theorem started_called {n k : Nat} {c : Call} {b : c.Ans} {s s' : State} {i : Visit}
    (h : Trace.Started k i (⟨s, .called n c b, s'⟩ :: trace)) : trace.Started k i := by
  obtain ⟨x, hx, hxd⟩ := h
  rcases List.mem_cons.mp hx with rfl | hx
  · cases hxd
  · exact ⟨x, hx, hxd⟩

/-- The trace goes on with one visit. -/
structure Onward (visit : Visit) (trace trace' : History) : Prop where
  later : trace <:+ trace'
  starts : ∀ k i, Trace.Started k i trace' → i = visit ∨ trace.Started k i

theorem Onward.act {trace' : History} {visit : Visit} (hon : Onward visit trace trace')
    (h : (web crates o).Run Unguessable Empty trace' p) {n : Nat} {c : Call} {k : c.Ans → Act Response}
    (hn : p.threads[n]? = some ⟨visit, .call c k⟩) (b : c.Ans) (s' : State) (hs : callSem c p.shared b s')
    (hc : Unguessable trace' p ⟨p.shared, .called n c b, s'⟩) :
    ∃ p', Onward visit trace (⟨p.shared, .called n c b, s'⟩ :: trace') ∧
      (web crates o).Run Unguessable Empty (⟨p.shared, .called n c b, s'⟩ :: trace') p' ∧ p'.shared = s' ∧
      p'.threads[n]? = some ⟨visit, k b⟩ := by
  obtain ⟨p', h', hs', hn'⟩ := System.run_act h hn b s' hs hc
  exact ⟨p', ⟨hon.later.trans (List.suffix_cons _ _), fun k i hk => hon.starts k i (started_called hk)⟩, h', hs', hn'⟩

/-- A call that draws no id leaves ids unused. -/
theorem Onward.quiet {trace' : History} {visit : Visit} {r : BitVec 128} (hon : Onward visit trace trace')
    (hu : Unused trace' r) (h : (web crates o).Run Unguessable Empty trace' p) {n : Nat} {c : Call}
    {k : c.Ans → Act Response} (hn : p.threads[n]? = some ⟨visit, .call c k⟩) (hc : c ≠ .randomU128) (b : c.Ans)
    (s' : State) (hs : callSem c p.shared b s') :
    ∃ p', Onward visit trace (⟨p.shared, .called n c b, s'⟩ :: trace') ∧
      Unused (⟨p.shared, .called n c b, s'⟩ :: trace') r ∧
      (web crates o).Run Unguessable Empty (⟨p.shared, .called n c b, s'⟩ :: trace') p' ∧ p'.shared = s' ∧
      p'.threads[n]? = some ⟨visit, k b⟩ := by
  have hdraws : ∀ k r', (Did.called n c b : Did Visit Int64 Call Call.Ans) ≠ .called k .randomU128 r' := by
    intro k r' e
    injection e with _ e
    exact hc e
  obtain ⟨p', hon', h', hs', hn'⟩ := hon.act h hn b s' hs (unguessable_of hdraws)
  refine ⟨p', hon', ⟨fun x hx k r' hxd => ?_, fun k browser q hk => hu.2 k browser q (started_called hk)⟩, h', hs', hn'⟩
  rcases List.mem_cons.mp hx with rfl | hx
  · exact absurd hxd (hdraws k r')
  · exact hu.1 x hx k r' hxd

/-- A browser opens the callback URL of a login in flight; the provider hands out an id
    token, and the auth service a user token that is at its end already. The browser is
    signed in, for an hour. -/
theorem signs_in_with (h : (web crates o).Run Unguessable Empty trace p) {state : String} {e : Pending}
    (he : (unswept trace).pending.get state = some e) (hlive : now p.shared.clock < e.expiresAt) (browser : Nat)
    (code idToken : String) {t : Auth.Service.UserToken} {issued : Issued} (hi : issuedOf (some t) = .ok issued)
    (hend : ¬ issued.expiresAt > now p.shared.clock) {r : BitVec 128} (hr : Unused trace r) (hne : state ≠ lowerHex r) :
    ∃ trace' p', (web crates o).Run Unguessable Empty trace' p' ∧
      Onward ⟨browser, .callback ⟨some code, some state, none⟩⟩ trace trace' ∧
      ∃ resp age m d, p'.threads[p.threads.length]? =
          some ⟨⟨browser, .callback ⟨some code, some state, none⟩⟩, .ret resp⟩ ∧
        resp.setCookie = some (sessionCookie (lowerHex r) age) ∧ m ∈ trace' ∧
        Creates m p.threads.length (lowerHex r)
          ⟨issued.token, issued.userName, issued.userId, now p.shared.clock + 3600⟩ ∧
        ⟨d, .called p.threads.length (.exchangeExternal idToken "external") (.ok (some t)), d⟩ ∈ trace' := by
  -- the browser opens the URL
  obtain ⟨p₀, h₀, hs₀, hn₀⟩ := System.run_start h ⟨browser, .callback ⟨some code, some state, none⟩⟩
    (unguessable_of fun n r e => by cases e)
  have hstart : ∀ {k i}, Trace.Started k i (⟨p.shared, .started p.threads.length
      ⟨browser, .callback ⟨some code, some state, none⟩⟩, p.shared⟩ :: trace) →
      i = ⟨browser, .callback ⟨some code, some state, none⟩⟩ ∨ trace.Started k i := by
    intro k i hk
    obtain ⟨x, hx, hxd⟩ := hk
    rcases List.mem_cons.mp hx with rfl | hx
    · cases hxd
      exact Or.inl rfl
    · exact Or.inr ⟨x, hx, hxd⟩
  have on₀ : Onward ⟨browser, .callback ⟨some code, some state, none⟩⟩ trace (⟨p.shared, .started p.threads.length
      ⟨browser, .callback ⟨some code, some state, none⟩⟩, p.shared⟩ :: trace) :=
    ⟨List.suffix_cons _ _, fun k i hk => hstart hk⟩
  have hu₀ : Unused (⟨p.shared, .started p.threads.length
      ⟨browser, .callback ⟨some code, some state, none⟩⟩, p.shared⟩ :: trace) r := by
    refine ⟨fun x hx k r' hxd => ?_, fun k browser' q hk => ?_⟩
    · rcases List.mem_cons.mp hx with rfl | hx
      · cases hxd
      · exact hr.1 x hx k r' hxd
    · rcases hstart hk with e | hk
      · cases e
        exact fun e => hne (Option.some.inj e)
      · exact hr.2 k browser' q hk
  -- the state is redeemed
  have htake : ((p₀.shared.store.takePending p₀.shared.clock state).1) = some e.verifier := by
    rw [hs₀]
    simp only [Store.takePending, (run_swept h).pending.live he hlive, Option.filter_some, decide_eq_true hlive,
      if_true, Option.map_some]
  have hredeem : callSem (.takePending state) p₀.shared (some e.verifier)
      ⟨(p₀.shared.store.takePending p₀.shared.clock state).2, p₀.shared.clock⟩ :=
    ⟨Int64.le_refl _, Prod.ext htake.symm rfl⟩
  obtain ⟨p₁, on₁, hu₁, h₁, hs₁, hn₁⟩ := on₀.quiet (c := .takePending state) hu₀ h₀ hn₀ (fun e => by cases e) _ _ hredeem
  -- the provider and the auth service accept
  obtain ⟨p₂, on₂, hu₂, h₂, hs₂, hn₂⟩ := on₁.quiet hu₁ h₁ hn₁ (fun e => by cases e) (.ok (.ok ⟨"", ""⟩)) p₁.shared rfl
  obtain ⟨p₃, on₃, hu₃, h₃, hs₃, hn₃⟩ := on₂.quiet hu₂ h₂ hn₂ (fun e => by cases e) (.ok (.ok ⟨idToken⟩)) p₂.shared rfl
  obtain ⟨p₄, on₄, hu₄, h₄, hs₄, hn₄⟩ := on₃.quiet hu₃ h₃ hn₃ (fun e => by cases e) (.ok ()) p₃.shared rfl
  obtain ⟨p₅, on₅, hu₅, h₅, hs₅, hn₅⟩ := on₄.quiet hu₄ h₄ hn₄ (fun e => by cases e) (.ok (some t)) p₄.shared rfl
  simp only [Prog.bind, hi] at hn₅
  -- a session, an hour long
  obtain ⟨p₆, on₆, hu₆, h₆, hs₆, hn₆⟩ := on₅.quiet hu₅ h₅ hn₅
    (fun e => by cases e) (now p₅.shared.clock) p₅.shared ⟨rfl, rfl⟩
  have hclock : p₅.shared.clock = p.shared.clock := by rw [hs₅, hs₄, hs₃, hs₂, hs₁, hs₀]
  rw [hclock] at hn₆
  simp only [Prog.bind, if_neg hend] at hn₆
  obtain ⟨p₇, on₇, hu₇, h₇, hs₇, hn₇⟩ := on₆.quiet hu₆ h₆ hn₆
    (fun e => by cases e) (now p₆.shared.clock) p₆.shared ⟨rfl, rfl⟩
  rw [hs₆, hclock] at hn₇
  obtain ⟨p₈, on₈, h₈, hs₈, hn₈⟩ := on₇.act h₇ hn₇ r p₇.shared rfl hu₇.unguessable
  let session : Session := ⟨issued.token, issued.userName, issued.userId, now p.shared.clock + 3600⟩
  have hcreate : callSem (.createSession (lowerHex r) session) p₈.shared ()
      ⟨p₈.shared.store.create (fun _ => p₈.shared.clock) (lowerHex r) session, p₈.shared.clock⟩ :=
    ⟨Int64.le_refl _, fun _ => p₈.shared.clock, fun _ => ⟨Int64.le_refl _, Int64.le_refl _⟩, rfl⟩
  obtain ⟨p₉, on₉, h₉, hs₉, hn₉⟩ := on₈.act h₈ hn₈ () _ hcreate (unguessable_of fun n r e => by cases e)
  obtain ⟨p', on', h', hs', hn'⟩ := on₉.act h₉ hn₉ (now p₉.shared.clock) p₉.shared ⟨rfl, rfl⟩
    (unguessable_of fun n r e => by cases e)
  refine ⟨_, p', h', on', _, _, _, p₄.shared, hn', rfl, List.mem_cons_of_mem _ List.mem_cons_self, rfl, ?_⟩
  simp

/-- The user token of an account, in the auth service's reply. -/
def userToken : Auth.Service.UserToken := ⟨"lore-token", 0, "alice", "alice"⟩

/-- Whatever browser opens the callback URL of a login that is in flight can be signed in. -/
theorem signs_in (h : (web crates o).Run Unguessable Empty trace p) {state : String} {e : Pending}
    (he : (unswept trace).pending.get state = some e) (hlive : now p.shared.clock < e.expiresAt) (browser : Nat)
    (code : String) {r : BitVec 128} (hr : Unused trace r) (hne : state ≠ lowerHex r) :
    ∃ trace' p', (web crates o).Run Unguessable Empty trace' p' ∧
      Onward ⟨browser, .callback ⟨some code, some state, none⟩⟩ trace trace' ∧
      SignedIn trace' p' p.threads.length browser := by
  have hend : ¬ (0 : Int64) > now p.shared.clock := by
    have hnn := now_nonneg p.shared.clock
    intro hlt
    have hlt' : (now p.shared.clock).toInt < 0 := Int64.lt_iff_toInt_lt.mp hlt
    omega
  have hi : issuedOf (some userToken) = .ok ⟨"lore-token", "alice", "alice", 0⟩ := rfl
  obtain ⟨trace', p', h', hon, resp, age, m, _, hn, hcookie, hm, hc, _⟩ :=
    signs_in_with h he hlive browser code "id-token" hi hend hr hne
  exact ⟨trace', p', h', hon, _, resp, m, _, _, age, hn, hcookie, hm, hc⟩

/-- In every run in which no browser opens the callback URL of another's login, whoever
    is signed in began the login; and in any run the URL of a login in flight signs in
    the browser that opens it. -/
theorem callbacks_bound (crates : Crates) (o : Oidc) :
    (∀ trace p, (web crates o).Run (fun t p m => Unguessable t p m ∧ OwnStates t p m) Empty trace p → Bound trace) ∧
    ∀ trace p state e browser code r, (web crates o).Run Unguessable Empty trace p →
      (unswept trace).pending.get state = some e → now p.shared.clock < e.expiresAt → Unused trace r →
      state ≠ lowerHex r → ∃ trace' p', (web crates o).Run Unguessable Empty trace' p' ∧
        Onward ⟨browser, .callback ⟨some code, some state, none⟩⟩ trace trace' ∧
        SignedIn trace' p' p.threads.length browser :=
  ⟨fun _ _ h => bound_if_own h, fun _ _ _ _ browser code _ h he hlive hr hne =>
    signs_in h he hlive browser code hr hne⟩

/-! ## The attacker's login in the victim's browser -/

def begun : Visit := ⟨0, .login⟩

def exampleCrates : Crates where
  base64url bytes := String.ofList (bytes.map fun b => Char.ofNat b.toNat)
  sha256 bytes := bytes
  parseUrl url := .ok url
  appendPair url k v := url ++ "&" ++ k ++ "=" ++ v

def exampleOidc : Oidc := ⟨"https://idp.example", "kaguya-web", "https://lore.example/auth/callback"⟩

def idpEndpoints : Discovery := ⟨"https://idp.example/authorize", "https://idp.example/token"⟩

theorem only_begun {late : History} (h : ∀ x ∈ late, ∃ n c b, x.did = .called n c b) {s s' : State} {k : Nat}
    {i : Visit} (hk : Trace.Started k i (late ++ [⟨s, .started 0 begun, s'⟩])) : i = begun := by
  obtain ⟨x, hx, hxd⟩ := hk
  rcases List.mem_append.mp hx with hx | hx
  · obtain ⟨n, c, b, hd⟩ := h x hx
    rw [hd] at hxd
    cases hxd
  · rw [List.mem_singleton.mp hx] at hxd
    cases hxd
    rfl

theorem unused_begun {late : History} (h : ∀ x ∈ late, ∃ n c b, x.did = .called n c b) {s s' : State}
    {r : BitVec 128} (hr : ∀ x ∈ late, ∀ k r', x.did = .called k .randomU128 r' → lowerHex r' ≠ lowerHex r) :
    Unused (late ++ [⟨s, .started 0 begun, s'⟩]) r := by
  refine ⟨fun x hx k r' hxd => ?_, fun k browser q hk => ?_⟩
  · rcases List.mem_append.mp hx with hx | hx
    · exact hr x hx k r' hxd
    · rw [List.mem_singleton.mp hx] at hxd
      cases hxd
  · cases only_begun h hk

/-- A login enters its state and sends its browser on to the provider. -/
theorem login_begins (clock : Int64) (ht : now clock < now clock + pendingTtl) :
    ∃ trace p e location, (web exampleCrates exampleOidc).Run Unguessable Empty trace p ∧ p.shared.clock = clock ∧
    (unswept trace).pending.get (lowerHex 0) = some e ∧ now p.shared.clock < e.expiresAt ∧ Unused trace 1 ∧
    (∀ k i, Trace.Started k i trace → i = begun) ∧ p.threads[0]? = some ⟨begun, .ret (redirect location none)⟩ := by
  have h₀ : (web exampleCrates exampleOidc).Run Unguessable Empty [] ⟨⟨Store.empty, clock⟩, []⟩ := .init _ rfl
  obtain ⟨p₁, h₁, hs₁, hn₁⟩ := System.run_start h₀ begun (unguessable_of fun n r e => by cases e)
  have hdraw := @unused_begun [] (by simp) ⟨Store.empty, clock⟩ ⟨Store.empty, clock⟩ 0 (by simp)
  obtain ⟨p₂, h₂, hs₂, hn₂⟩ := System.run_act h₁ hn₁ (0 : BitVec 128) p₁.shared rfl hdraw.unguessable
  obtain ⟨p₃, h₃, hs₃, hn₃⟩ := System.run_act h₂ hn₂ (Vector.replicate 32 0) p₂.shared rfl
    (unguessable_of fun n r e => by cases e)
  have hclock : p₃.shared.clock = clock := by rw [hs₃, hs₂, hs₁]
  have henter (verifier : String) : callSem (.startLogin (lowerHex 0) verifier) p₃.shared ()
      ⟨p₃.shared.store.startLogin (fun _ => p₃.shared.clock) p₃.shared.clock (lowerHex 0) verifier, p₃.shared.clock⟩ :=
    ⟨Int64.le_refl _, fun _ => p₃.shared.clock, fun _ => ⟨Int64.le_refl _, Int64.le_refl _⟩, rfl⟩
  obtain ⟨p₄, h₄, hs₄, hn₄⟩ := System.run_act h₃ hn₃ () _ (henter _) (unguessable_of fun n r e => by cases e)
  obtain ⟨p₅, h₅, hs₅, hn₅⟩ := System.run_act h₄ hn₄ (.ok (.ok idpEndpoints)) p₄.shared rfl
    (unguessable_of fun n r e => by cases e)
  refine ⟨_, p₅, _, _, h₅, hs₅ ▸ hs₄ ▸ hclock, Dict.get_insert_self _ _ _, ?_, ?_, ?_, hn₅⟩
  · rw [hs₅, hs₄]
    show now p₃.shared.clock < now p₃.shared.clock + pendingTtl
    rw [hclock]
    exact ht
  · refine @unused_begun [_, _, _, _] (by simp) _ _ 1 ?_
    intro x hx k r' hxd
    simp only [List.mem_cons, List.not_mem_nil, or_false] at hx
    rcases hx with rfl | rfl | rfl | rfl <;> cases hxd
    decide
  · exact fun k i hk => @only_begun [_, _, _, _] (by simp) _ _ k i hk

/-- The attacker begins a login, and the victim opens the URL that it ends with. -/
theorem victim_signed_in : ∃ trace p n, (web exampleCrates exampleOidc).Run Unguessable Empty trace p ∧
    SignedIn trace p n 1 ∧ ¬ Bound trace := by
  obtain ⟨trace, p, e, _, h, _, he, hlive, hunused, hstarts, _⟩ := login_begins 0 (by decide)
  obtain ⟨trace', p', h', hon, hin⟩ := signs_in h he hlive 1 "code" hunused (by decide)
  refine ⟨trace', p', _, h', hin, fun hbound => ?_⟩
  obtain ⟨q, resp, m, id, session, age, hn, _, hm, hc⟩ := hin
  obtain ⟨⟨k, hk⟩, hall⟩ := hbound _ 1 q m id session (System.run_started h' hn) hm hc
  rcases hon.starts k _ (hall k hk) with e | hk
  · cases e
  · cases hstarts k _ hk

end Kaguya.Web.Login
