/-
  Kaguya.Auth.Tokens — what becomes of a device login's token, in every run of
  `StartAuthSession` and `GetAuthSession` calls. A `GetAuthSession` looks its session up,
  polls, verifies what the provider released, removes the session and signs; others run
  between any two of these.

  A provider releases the token of a device code once. The call it is given to does not
  keep it: when the verification or the signature fails after the release, no call gets a
  token for that login any more (`burnt`), whether the session is still there to poll for
  (`jwks_burns`) or not.

  The session is for one token only where the calls keep apart: in every run in which no
  call finds a session that another is still on its way to a token with, at most one
  token comes of it, and wherever a call does, both can be given one
  (`single_use_apart`, `both_issued`).
-/

import Kaguya.Auth.SessionRuns

namespace Kaguya.Auth.Sessions

open Kaguya.Lib
open Kaguya.Auth.Jwt
open Kaguya.Auth.Service
open Kaguya.Auth.Verify (VerifyError Unicode canonicalSubject)

/-! ## How a call comes to a token -/

/-- The answer is a token. -/
def IsToken (r : Except Status Reply) : Prop := ∃ t, r = .ok (.session (some t))

/-- A call that does not return a token has none signed; one that does has looked its
    session up, polled, verified, removed the session and signed, in this order. -/
inductive GetCourse (U : Unicode) (code state : String) : List LoginAnswered → Act (Except Status Reply) → Prop
  | going {l c k} : (∀ x ∈ l, ∀ header m, x.call ≠ .encode header m) → GetCourse U code state l (.call c k)
  | none {l r} : ¬ IsToken r →
      (∀ s header m token s', (⟨s, .encode header m, .ok token, s'⟩ : LoginAnswered) ∉ l) → GetCourse U code state l (.ret r)
  | token {a a' b b' c c' d d' e e' f f' : State} {endpoint dc idToken token : String} {resp : TokenResponse}
      {claims : IdentityClaims} {iat : UInt64} {header : Header} {m : MintedClaims} : classify resp = .token idToken →
      GetCourse U code state [⟨a, .resolveSession code state, some (dc, endpoint), a'⟩,
          ⟨b, .postToken endpoint dc, .ok resp, b'⟩, ⟨c, .oidc idToken, .ok claims, c'⟩, ⟨d, .removeSession code, (), d'⟩,
          ⟨e, .nowSecs, iat, e'⟩, ⟨f, .encode header m, .ok token, f'⟩]
        (.ret (.ok (.session (some ⟨token, expiresAt claims.exp, canonicalSubject U claims, (displayNames claims).1⟩))))

variable {U : Unicode} {a : AuthConfig}

theorem get_course {code state : String} {l : List LoginAnswered} {q : Act (Except Status Reply)}
    (h : ((Login.get code state).rpc.handle U a).Leads l q) : GetCourse U code state l q := by
  -- the session
  rcases Prog.leads_call h with ⟨rfl, rfl⟩ | ⟨s₁, session, s₁', l₁, rfl, h₁⟩
  · exact .going (by simp)
  cases session with
  | none =>
    obtain ⟨rfl, rfl⟩ := Prog.leads_ret h₁
    exact .none (by simp [IsToken]) (by simp)
  | some found =>
    obtain ⟨dc, endpoint⟩ := found
    -- the poll
    rcases Prog.leads_call h₁ with ⟨rfl, rfl⟩ | ⟨s₂, resp, s₂', l₂, rfl, h₂⟩
    · exact .going (by simp)
    cases resp with
    | error e =>
      obtain ⟨rfl, rfl⟩ := Prog.leads_ret h₂
      exact .none (by simp [IsToken]) (by simp)
    | ok resp =>
      cases hc : classify resp with
      | pending =>
        simp only [Prog.bind, hc] at h₂
        obtain ⟨rfl, rfl⟩ := Prog.leads_ret h₂
        exact .none (by simp [IsToken]) (by simp)
      | denied e =>
        simp only [Prog.bind, hc] at h₂
        rcases Prog.leads_call h₂ with ⟨rfl, rfl⟩ | ⟨s₃, b, s₃', l₃, rfl, h₃⟩
        · exact .going (by simp)
        obtain ⟨rfl, rfl⟩ := Prog.leads_ret h₃
        exact .none (by simp [IsToken]) (by simp)
      | token t =>
        -- the verification
        simp only [Prog.bind, hc] at h₂
        rcases Prog.leads_call h₂ with ⟨rfl, rfl⟩ | ⟨s₃, verified, s₃', l₃, rfl, h₃⟩
        · exact .going (by simp)
        cases verified with
        | error e =>
          obtain ⟨rfl, rfl⟩ := Prog.leads_ret h₃
          exact .none (by simp [IsToken]) (by simp)
        | ok claims =>
          -- the removal, the clock and the signature
          rcases Prog.leads_call h₃ with ⟨rfl, rfl⟩ | ⟨s₄, b, s₄', l₄, rfl, h₄⟩
          · exact .going (by simp)
          rcases Prog.leads_call h₄ with ⟨rfl, rfl⟩ | ⟨s₅, iat, s₅', l₅, rfl, h₅⟩
          · exact .going (by simp)
          rcases Prog.leads_call h₅ with ⟨rfl, rfl⟩ | ⟨s₆, signed, s₆', l₆, rfl, h₆⟩
          · exact .going (by simp)
          cases signed with
          | error e =>
            obtain ⟨rfl, rfl⟩ := Prog.leads_ret h₆
            exact .none (by simp [IsToken]) (by simp)
          | ok token =>
            obtain ⟨rfl, rfl⟩ := Prog.leads_ret h₆
            exact .token hc

variable {cond : History → LoginPool → Step → Prop} {trace : History} {p : LoginPool} {m : Step}

theorem run_get_course (h : (logins U a).Run cond Empty trace p) {n : Nat} {code state : String} {q}
    (hn : p.threads[n]? = some ⟨.get code state, q⟩) : GetCourse U code state (trace.own n) q :=
  get_course (U := U) (a := a) ((System.run_leads h).1 n _ hn)

/-! ## What the provider releases -/

/-- The provider answers a poll with a token. -/
def Releases (m : Step) (n : Nat) (endpoint deviceCode : String) : Prop :=
  ∃ resp token, m.did = .called n (.postToken endpoint deviceCode) (.ok resp) ∧ classify resp = .token token

/-- The provider releases the token of a device code at most once, and answers any later
    poll of it with a terminal error. -/
def ReleasedOnce (trace : History) (_ : LoginPool) (m : Step) : Prop :=
  ∀ n endpoint dc r, m.did = .called n (.postToken endpoint dc) r → (∃ x ∈ trace, ∃ k, Releases x k endpoint dc) →
    ∃ resp e, r = .ok resp ∧ classify resp = .denied e

/-- Codes are fresh, and tokens released once. -/
def Law (trace : History) (p : LoginPool) (m : Step) : Prop := FreshCodes trace p m ∧ ReleasedOnce trace p m

theorem law_fresh (h : (logins U a).Run Law Empty trace p) : (logins U a).Run FreshCodes Empty trace p :=
  System.run_mono (fun _ _ _ hl => hl.1) h

/-- A device code's token is released to one call. -/
theorem released_one (h : (logins U a).Run Law Empty trace p) {endpoint dc : String} : ∀ x ∈ trace, ∀ y ∈ trace,
    ∀ n k, Releases x n endpoint dc → Releases y k endpoint dc → n = k := by
  have hlate : ∀ {trace p} {m : Step}, Law trace p m → ∀ {n k}, Releases m n endpoint dc → ∀ y ∈ trace,
      ¬ Releases y k endpoint dc := by
    intro trace p m hl n k hm y hy hk
    obtain ⟨resp, t, hd, ht⟩ := hm
    obtain ⟨resp', e, hr, he⟩ := hl.2 n endpoint dc _ hd ⟨y, hy, k, hk⟩
    cases hr
    rw [ht] at he
    cases he
  induction h with
  | init s _ => exact fun x hx => by cases hx
  | @step trace p p' m hr hc hs ih =>
    intro x hx y hy n k hxn hyk
    rcases List.mem_cons.mp hx with rfl | hx' <;> rcases List.mem_cons.mp hy with rfl | hy'
    · obtain ⟨resp, _, hd, _⟩ := hxn
      obtain ⟨resp', _, hd', _⟩ := hyk
      rw [hd] at hd'
      cases hd'
      rfl
    · exact absurd hyk (hlate hc hxn y hy')
    · exact absurd hxn (hlate hc hyk x hx')
    · exact ih x hx' y hy' n k hxn hyk

/-- A code is inserted with one session. -/
theorem inserts_one (h : (logins U a).Run FreshCodes Empty trace p) {code : String} {s s' : Session} :
    ∀ x ∈ trace, ∀ y ∈ trace, Inserts x code s → Inserts y code s' → s = s' := by
  induction h with
  | init s _ => exact fun x hx => by cases hx
  | @step trace p p' m hr hc hs ih =>
    have hrun : (logins U a).Run FreshCodes Empty (m :: trace) p' := .step m hr hc hs
    intro x hx y hy hxi hyi
    rcases List.mem_cons.mp hx with rfl | hx' <;> rcases List.mem_cons.mp hy with rfl | hy'
    · exact (inserts_unique hxi hyi).2.symm
    · exact absurd hyi (insert_once hrun hxi y hy')
    · exact absurd hxi (insert_once hrun hyi x hx')
    · exact ih x hx' y hy' hxi hyi

/-- Two calls with one code that poll, poll the same device code at the same endpoint. -/
theorem poll_same (h : (logins U a).Run FreshCodes Empty trace p) {n k : Nat} {code state state' : String}
    (hn : trace.Started n (.get code state)) (hk : trace.Started k (.get code state'))
    {s s' t t' : State} {endpoint endpoint' dc dc' : String} {r r' : Except String TokenResponse}
    (hx : polled s endpoint dc r s' ∈ trace.own n) (hy : polled t endpoint' dc' r' t' ∈ trace.own k) :
    endpoint = endpoint' ∧ dc = dc' := by
  have hissued : ∀ {j : Nat} {st : String} {s s' : State} {e d : String} {r : Except String TokenResponse},
      trace.Started j (.get code st) → polled s e d r s' ∈ trace.own j →
      ∃ x ∈ trace, ∃ ses, Inserts x code ses ∧ d = ses.deviceCode ∧ e = ses.tokenEndpoint := by
    intro j st s s' e d r hj hx
    obtain ⟨u, u', hu⟩ := poll_found h hj hx
    obtain ⟨late, early, rfl⟩ := List.append_of_mem (Trace.mem_own.mp hu)
    obtain ⟨ses, his, _, _, hr⟩ := (resolve_iff h _).mp rfl
    obtain ⟨x, hx, hi⟩ := his.inserted
    exact ⟨x, List.mem_append_right _ (List.mem_cons_of_mem _ hx), ses, hi, Prod.mk.inj hr⟩
  obtain ⟨x, hxt, ses, hxi, rfl, rfl⟩ := hissued hn hx
  obtain ⟨y, hyt, ses', hyi, rfl, rfl⟩ := hissued hk hy
  obtain rfl := inserts_one h x hxt y hyt hxi hyi
  exact ⟨rfl, rfl⟩

/-! ## A token that is released and not returned -/

/-- The provider released a token to the call, and the call failed: the provider's keys
    could not be fetched to verify it, or the service's own token not signed. -/
structure Burns (trace : History) (p : LoginPool) (n : Nat) (code state : String) : Prop where
  released : ∃ x ∈ trace, ∃ endpoint dc, Releases x n endpoint dc
  cause : (∃ s token message s', (⟨s, .oidc token, .error (.jwks message), s'⟩ : LoginAnswered) ∈ trace.own n) ∨
    ∃ s header m e s', (⟨s, .encode header m, .error e, s'⟩ : LoginAnswered) ∈ trace.own n
  failed : ∃ message, p.threads[n]? = some ⟨.get code state, .ret (.error ⟨.internal, message⟩)⟩

theorem releases_polled {x : Step} (hx : x ∈ trace) {n : Nat} {endpoint dc : String} (h : Releases x n endpoint dc) :
    ∃ s resp s', polled s endpoint dc (.ok resp) s' ∈ trace.own n := by
  obtain ⟨s, d, s'⟩ := x
  obtain ⟨resp, t, hd, _⟩ := h
  dsimp only at hd
  subst hd
  exact ⟨s, resp, s', Trace.mem_own.mpr hx⟩

/-- A call that returns a token was given one by the provider, and nothing it made of
    that failed. -/
theorem token_released (h : (logins U a).Run cond Empty trace p) {n : Nat} {code state : String} {r : Except Status Reply}
    (hn : p.threads[n]? = some ⟨.get code state, .ret r⟩) (hr : IsToken r) :
    (∃ x ∈ trace, ∃ endpoint dc, Releases x n endpoint dc) ∧
    (∀ s token e s', (⟨s, .oidc token, .error e, s'⟩ : LoginAnswered) ∉ trace.own n) ∧
    ∀ s header m e s', (⟨s, .encode header m, .error e, s'⟩ : LoginAnswered) ∉ trace.own n := by
  have hcourse := run_get_course h hn
  generalize hl : trace.own n = l at hcourse
  generalize hq : (Prog.ret r : Act (Except Status Reply)) = q at hcourse
  cases hcourse with
  | going => cases hq
  | none hne =>
    cases hq
    exact absurd hr hne
  | @token _ _ b b' _ _ _ _ _ _ _ _ endpoint dc idToken _ resp _ _ _ _ hc =>
    have hx : polled b endpoint dc (.ok resp) b' ∈ trace.own n := by
      rw [hl]
      exact List.mem_cons_of_mem _ List.mem_cons_self
    exact ⟨⟨_, Trace.mem_own.mp hx, endpoint, dc, resp, idToken, rfl, hc⟩, by simp, by simp⟩

/-- Once a call has failed on a released token, no call for the code returns one. -/
theorem burnt {late early : History} {p q : LoginPool} {n k : Nat} {code state state' : String} {r : Except Status Reply}
    (h : (logins U a).Run Law Empty (late ++ early) p) (hq : (logins U a).Run Law Empty early q)
    (hb : Burns early q n code state) (hk : p.threads[k]? = some ⟨.get code state', .ret r⟩) : ¬ IsToken r := by
  intro hr
  obtain ⟨x, hx, endpoint, dc, hxr⟩ := hb.released
  obtain ⟨message, hn⟩ := hb.failed
  obtain ⟨⟨y, hy, endpoint', dc', hyr⟩, hverified, hsigned⟩ := token_released h hk hr
  have hxl : x ∈ late ++ early := List.mem_append_right _ hx
  obtain ⟨s, resp, s', hxp⟩ := releases_polled hxl hxr
  obtain ⟨t, resp', t', hyp⟩ := releases_polled hy hyr
  have hs : Trace.Started n (.get code state) early := System.run_started hq hn
  obtain ⟨rfl, rfl⟩ := poll_same (law_fresh h) (hs.append late) (System.run_started h hk) hxp hyp
  -- the provider released it to one call, so that call both failed and returned
  obtain rfl := released_one h x hxl y hy n k hxr hyr
  have hown : early.own n <+: Trace.own n (late ++ early) := Trace.own_extends n late early
  rcases hb.cause with ⟨s, t, message, s', hc⟩ | ⟨s, header, m, e, s', hc⟩
  · exact hverified _ _ _ _ (hown.subset hc)
  · exact hsigned _ _ _ _ _ (hown.subset hc)

/-! ## A login whose keys could not be fetched -/

/-- The call looked its session up before the time to live had passed. -/
def InTime (trace : History) (n : Nat) (code state : String) : Prop :=
  ∃ s b s', looked s code state b s' ∈ trace.own n ∧ ∃ x ∈ trace, ∃ ses, Inserts x code ses ∧ s'.now < ses.expiresAt

/-- Polls, verifications and signatures worked. -/
def Working (l : List LoginAnswered) : Prop :=
  (∀ s endpoint dc e s', polled s endpoint dc (.error e) s' ∉ l) ∧
    (∀ s token e s', (⟨s, .oidc token, .error e, s'⟩ : LoginAnswered) ∉ l) ∧
    ∀ s header m e s', (⟨s, .encode header m, .error e, s'⟩ : LoginAnswered) ∉ l

/-- A failure on a released token is made up for: a call with the same pair that starts
    later, in time and with its services working, returns a token. -/
def Survives (U : Unicode) (a : AuthConfig) : Prop :=
  ∀ late early p q n k code state r, (logins U a).Run Law Empty (late ++ early) p → (logins U a).Run Law Empty early q →
    Burns early q n code state → Trace.Started k (.get code state) late →
    p.threads[k]? = some ⟨.get code state, .ret r⟩ → InTime (late ++ early) k code state →
    Working (Trace.own k (late ++ early)) → IsToken r

theorem law_of {m : Step} (hcode : ∀ n code, m.did ≠ .called n .randomId code)
    (hpoll : ∀ n endpoint dc r, m.did ≠ .called n (.postToken endpoint dc) r) : Law trace p m :=
  ⟨fun n code hd => absurd hd (hcode n code), fun n endpoint dc r hd => absurd hd (hpoll n endpoint dc r)⟩

def refused : TokenResponse := ⟨none, none, some "invalid_grant"⟩

/-- The login of `opened` is started. -/
theorem login_started : ∃ trace, (logins U a).Run Law Empty trace
      ⟨opened, [⟨.start "state", .ret (.ok (.started ⟨"code", "https://idp.example/activate"⟩))⟩]⟩ ∧
    (∃ x ∈ trace, Inserts x "code" session) ∧ (∀ x ∈ trace, ∀ n endpoint dc, ¬ Releases x n endpoint dc) ∧
    ∀ x ∈ trace, ∀ n code state b, x.did ≠ .called n (.resolveSession code state) b := by
  have h₀ : (logins U a).Run Law Empty [] ⟨⟨Dict.empty, 0⟩, []⟩ := .init _ rfl
  have h₁ := System.Run.step _ h₀ (law_of (by simp) (by simp)) (.start _ (.start "state"))
  have h₂ := System.run_call h₁ 0 rfl (.ok provider) rfl (law_of (by simp) (by simp))
  have h₃ := System.run_call h₂ 0 rfl (.ok deviceLogin) rfl (law_of (by simp) (by simp))
  have h₄ := System.run_call h₃ 0 rfl "code" rfl ⟨by simp [FreshCodes], by simp [ReleasedOnce]⟩
  have hinsert : callSem (.insertSession "code" "device-1" "https://idp.example/token" "state" 300) ⟨Dict.empty, 0⟩ ()
      opened := ⟨0, Nat.le_refl _, Nat.le_refl _, rfl⟩
  have h₅ := System.run_call h₄ 0 rfl () hinsert (law_of (by simp) (by simp))
  exact ⟨_, h₅, ⟨_, List.mem_cons_self, 0, 300, rfl, rfl⟩, by simp [Releases], by simp⟩

/-- The provider's keys are out of reach when the token is released, and within reach
    again at the next poll, which the provider refuses. -/
theorem keys_missed : ∃ late early p q, (logins U a).Run Law Empty (late ++ early) p ∧
    (logins U a).Run Law Empty early q ∧ Burns early q 1 "code" "state" ∧ Trace.Started 2 (.get "code" "state") late ∧
    p.threads[2]? = some ⟨.get "code" "state", .ret (.error ⟨.permissionDenied, "login not completed: invalid_grant"⟩)⟩ ∧
    InTime (late ++ early) 2 "code" "state" ∧ Working (Trace.own 2 (late ++ early)) := by
  obtain ⟨trace, h₀, ⟨x, hx, hxi⟩, hnone, _⟩ := @login_started U a
  have hown : Trace.own 2 trace = [] := (System.run_leads h₀).2 2 (by decide)
  have h₁ := System.Run.step _ h₀ (law_of (by simp) (by simp)) (.start _ (.get "code" "state"))
  have h₂ := System.run_call h₁ 1 rfl (some ("device-1", "https://idp.example/token")) opened_looked (law_of (by simp) (by simp))
  have h₃ := System.run_call h₂ 1 rfl (.ok released) rfl ⟨by simp [FreshCodes], fun n endpoint dc r _ hrel => by
    obtain ⟨y, hy, k, hyr⟩ := hrel
    rcases List.mem_cons.mp hy with rfl | hy
    · obtain ⟨_, _, hd, _⟩ := hyr
      cases hd
    · rcases List.mem_cons.mp hy with rfl | hy
      · obtain ⟨_, _, hd, _⟩ := hyr
        cases hd
      · exact absurd hyr (hnone y hy k endpoint dc)⟩
  have h₄ := System.run_call h₃ 1 rfl (.error (.jwks "unreachable")) rfl (law_of (by simp) (by simp))
  have h₅ := System.Run.step _ h₄ (law_of (by simp) (by simp)) (.start _ (.get "code" "state"))
  have h₆ := System.run_call h₅ 2 rfl (some ("device-1", "https://idp.example/token")) opened_looked (law_of (by simp) (by simp))
  have h₇ := System.run_call h₆ 2 rfl (.ok refused) rfl ⟨by simp [FreshCodes], fun n endpoint dc r hd _ => by
    cases hd
    exact ⟨refused, "invalid_grant", rfl, by decide⟩⟩
  have h₈ := System.run_call h₇ 2 rfl () rfl (law_of (by simp) (by simp))
  refine ⟨[_, _, _, _], _, _, _, h₈, h₄, ⟨?_, Or.inl ?_, _, rfl⟩, ⟨_, List.mem_of_getElem? (i := 3) rfl, rfl⟩, rfl, ?_, ?_⟩
  · exact ⟨_, List.mem_cons_of_mem _ List.mem_cons_self, _, _, released, "id-token", rfl, by decide⟩
  · exact ⟨_, "id-token", "unreachable", _, Trace.mem_own.mpr List.mem_cons_self⟩
  · refine ⟨_, _, _, Trace.mem_own.mpr (List.mem_of_getElem? (i := 2) rfl), x, ?_, session, hxi, by decide⟩
    simp [hx]
  · simp [Working, Trace.own, hown]

theorem burnt_keys_missed : ∃ late early p q r, (logins Unicode.ascii AuthConfig.lore).Run Law Empty (late ++ early) p ∧
    Burns early q 1 "code" "state" ∧ p.threads[2]? = some ⟨.get "code" "state", .ret r⟩ ∧ ¬ IsToken r := by
  obtain ⟨late, early, p, q, hrun, hearly, hburns, _, hk, _⟩ := @keys_missed Unicode.ascii AuthConfig.lore
  exact ⟨late, early, p, q, _, hrun, hburns, hk, burnt hrun hearly hburns hk⟩

theorem jwks_burns : ¬ ∀ U a, Survives U a := by
  intro h
  obtain ⟨late, early, p, q, hrun, hearly, hburns, hs, hk, hin, hworks⟩ := @keys_missed Unicode.ascii AuthConfig.lore
  obtain ⟨t, e⟩ := h _ _ late early p q 1 2 "code" "state" _ hrun hearly hburns hs hk hin hworks
  cases e

/-! ## One token a session -/

/-- At most one of the calls with the code and client state returned a token. -/
def SingleUse (p : LoginPool) (code state : String) : Prop :=
  ∀ (n k : Nat) r r', p.threads[n]? = some ⟨.get code state, .ret r⟩ → p.threads[k]? = some ⟨.get code state, .ret r'⟩ →
    IsToken r → IsToken r' → n = k

/-- The call is an answered poll or verification that may still lead to a token. -/
def Hopeful : LoginAnswered → Prop
  | ⟨_, .postToken .., .ok resp, _⟩ => ∃ t, classify resp = .token t
  | ⟨_, .oidc _, .ok _, _⟩ => True
  | _ => False

/-- The call has found the session and is on its way to a token: it has not removed the
    session, nor ended, nor been denied. -/
def Pursues (trace : History) (k : Nat) (code state : String) : Prop :=
  ∃ s found s' rest, trace.own k = looked s code state (some found) s' :: rest ∧ ∀ x ∈ rest, Hopeful x

/-- No call finds a session that another pursues. -/
def Apart (trace : History) (_ : LoginPool) (m : Step) : Prop :=
  ∀ n code state found, m.did = .called n (.resolveSession code state) (some found) → ∀ k, k ≠ n →
    ¬ Pursues trace k code state

/-- A list that begins another and lacks an element of it ends before that. -/
theorem prefix_before {α : Type} {l xs ys : List α} {x : α} (h : l <+: xs ++ x :: ys) (hx : x ∉ l) : l <+: xs := by
  have hlong : xs ++ [x] <+: xs ++ x :: ys := ⟨ys, by simp⟩
  rcases List.prefix_or_prefix_of_prefix h hlong with hl | hl
  · rcases List.prefix_concat_iff.mp hl with rfl | hl
    · exact absurd (List.mem_append_right _ List.mem_cons_self) hx
    · exact hl
  · exact absurd (hl.subset (List.mem_append_right _ List.mem_cons_self)) hx

/-- A call that returns a token pursues its session from its lookup to its removal. -/
theorem token_pursues {late early : History} (h : (logins U a).Run cond Empty (late ++ early) p) {n : Nat} {code state : String}
    {r : Except Status Reply} (hn : p.threads[n]? = some ⟨.get code state, .ret r⟩) (hr : IsToken r) {s s' : State}
    {b : Option (String × String)} (hlook : ⟨s, .called n (.resolveSession code state) b, s'⟩ ∈ early)
    (hkeep : ∀ x ∈ early, x.did ≠ .called n (.removeSession code) ()) : Pursues early n code state := by
  have hcourse := run_get_course h hn
  have hpre : early.own n <+: Trace.own n (late ++ early) := Trace.own_extends n late early
  have hmem : looked s code state b s' ∈ early.own n := Trace.own_of_mem hlook
  generalize Trace.own n (late ++ early) = l at hcourse hpre
  generalize hq : (Prog.ret r : Act (Except Status Reply)) = q at hcourse
  cases hcourse with
  | going => cases hq
  | none hne =>
    cases hq
    exact absurd hr hne
  | @token s₁ s₁' s₂ s₂' s₃ s₃' s₄ s₄' _ _ _ _ endpoint dc idToken _ resp claims _ _ _ hc =>
    have hshort : early.own n <+: [looked s₁ code state (some (dc, endpoint)) s₁', polled s₂ endpoint dc (.ok resp) s₂',
        ⟨s₃, .oidc idToken, .ok claims, s₃'⟩] := by
      refine @prefix_before _ _ [_, _, _] _ _ hpre fun hx => ?_
      exact hkeep _ (Trace.mem_own.mp hx) rfl
    cases hl : early.own n with
    | nil =>
      rw [hl] at hmem
      cases hmem
    | cons x rest =>
      rw [hl, List.cons_prefix_cons] at hshort
      refine ⟨s₁, (dc, endpoint), s₁', rest, by rw [hl, hshort.1], fun y hy => ?_⟩
      have hy := hshort.2.subset hy
      simp only [List.mem_cons, List.not_mem_nil, or_false] at hy
      rcases hy with rfl | rfl
      · exact ⟨idToken, hc⟩
      · trivial

/-- A call that returns a token found its session. -/
theorem token_found (h : (logins U a).Run cond Empty trace p) {n : Nat} {code state : String} {r : Except Status Reply}
    (hn : p.threads[n]? = some ⟨.get code state, .ret r⟩) (hr : IsToken r) :
    ∃ s found s', ⟨s, .called n (.resolveSession code state) (some found), s'⟩ ∈ trace := by
  have hcourse := run_get_course h hn
  generalize hl : trace.own n = l at hcourse
  generalize hq : (Prog.ret r : Act (Except Status Reply)) = q at hcourse
  cases hcourse with
  | going => cases hq
  | none hne =>
    cases hq
    exact absurd hr hne
  | @token s₁ s₁' _ _ _ _ _ _ _ _ _ _ endpoint dc =>
    have hin : looked s₁ code state (some (dc, endpoint)) s₁' ∈ trace.own n := by
      rw [hl]
      exact List.mem_cons_self
    exact ⟨s₁, (dc, endpoint), s₁', Trace.mem_own.mp hin⟩

/-- A call that returned a token had removed its session by the time another found one. -/
theorem not_apart {late early : History} {n k : Nat} {code state : String} {found : String × String} {s s' t t' : State}
    {b : Option (String × String)} {r : Except Status Reply}
    (h : (logins U a).Run FreshCodes Empty (late ++ ⟨s, .called k (.resolveSession code state) (some found), s'⟩ :: early) p)
    (hn : p.threads[n]? = some ⟨.get code state, .ret r⟩) (hr : IsToken r)
    (hx : ⟨t, .called n (.resolveSession code state) b, t'⟩ ∈ early) : Pursues early n code state := by
  have h' : (logins U a).Run FreshCodes Empty
      ((late ++ [⟨s, .called k (.resolveSession code state) (some found), s'⟩]) ++ early) p := by simpa using h
  refine token_pursues h' hn hr hx fun y hy hd => ?_
  obtain ⟨l₂, l₁, rfl⟩ := List.append_of_mem hy
  obtain ⟨_, _, hq, _⟩ := System.run_split h
  exact found_not_removed h ((removes_inserted hq ⟨n, hd⟩).append l₂)

/-- In a run in which the calls keep apart a session is for one token. -/
theorem single_use_run (h : (logins U a).Run (fun t p m => FreshCodes t p m ∧ Apart t p m) Empty trace p)
    (code state : String) : SingleUse p code state := by
  intro n k r r' hn hk hr hr'
  have hfresh := System.run_mono (fun _ _ _ hc => hc.1) h
  by_contra hne
  obtain ⟨s, found, s', hx⟩ := token_found h hn hr
  obtain ⟨t, found', t', hy⟩ := token_found h hk hr'
  rcases Trace.before_or hx hy (fun e => hne (by cases e; rfl)) with ⟨late, mid, early, rfl⟩ | ⟨late, mid, early, rfl⟩
  · obtain ⟨_, _, _, hc, _, _⟩ := System.run_split h
    exact hc.2 k code state found' rfl n hne (not_apart hfresh hn hr (List.mem_append_right _ List.mem_cons_self))
  · obtain ⟨_, _, _, hc, _, _⟩ := System.run_split h
    exact hc.2 n code state found rfl k (Ne.symm hne) (not_apart hfresh hk hr' (List.mem_append_right _ List.mem_cons_self))

/-! ## Calls that do not keep apart -/

/-- The run goes on with calls of thread `k` only. -/
structure Alone (U : Unicode) (a : AuthConfig) (k : Nat) (trace : History) (p : LoginPool) (trace' : History) (p' : LoginPool) :
    Prop where
  run : (logins U a).Run FreshCodes Empty trace' p'
  later : trace <:+ trace'
  own : ∀ n, n ≠ k → trace'.own n = trace.own n
  threads : ∀ n, n ≠ k → p'.threads[n]? = p.threads[n]?

theorem Alone.act {k : Nat} {trace' : History} {p' : LoginPool} (on : Alone U a k trace p trace' p') {i : Login} {c : Call}
    {f : c.Ans → Act (Except Status Reply)} (hk : p'.threads[k]? = some ⟨i, .call c f⟩) (hc : c ≠ .randomId) (b : c.Ans)
    {s' : State} (hs : callSem c p'.shared b s') :
    ∃ trace'' p'', Alone U a k trace p trace'' p'' ∧ p''.threads[k]? = some ⟨i, f b⟩ := by
  refine ⟨_, _, ⟨System.run_call on.run k hk b hs (fun n code hd => ?_), on.later.trans (List.suffix_cons _ _), fun n hn => ?_,
    fun n hn => ?_⟩, List.getElem?_set_self (List.getElem?_eq_some_iff.mp hk).1⟩
  · injection hd with _ hd
    exact absurd hd hc
  · rw [Trace.own_other (Ne.symm hn)]
    exact on.own n hn
  · exact (List.getElem?_set_ne (Ne.symm hn)).trans (on.threads n hn)

/-- What is left of a call once its token has verified: the session is removed, and the
    service's own token signed. -/
theorem Alone.mints {k : Nat} {trace' : History} {p' : LoginPool} (on : Alone U a k trace p trace' p') {i : Login}
    {code : String} {claims : IdentityClaims}
    (hk : p'.threads[k]? = some ⟨i, reply .session (do
      let _ : Unit ← .ask (Call.removeSession code)
      match ← mintAuthn U a claims with
      | .error status => return .error status
      | .ok userToken => return .ok (some userToken))⟩) :
    ∃ trace'' p'' r, Alone U a k trace p trace'' p'' ∧ p''.threads[k]? = some ⟨i, .ret r⟩ ∧ IsToken r := by
  obtain ⟨_, _, on₁, hk₁⟩ := @Alone.act U a _ _ k _ _ on i (.removeSession code) _ hk (fun e => by cases e) () _ rfl
  obtain ⟨_, _, on₂, hk₂⟩ := @Alone.act U a _ _ k _ _ on₁ i .nowSecs _ hk₁ (fun e => by cases e) (0 : UInt64) _ rfl
  obtain ⟨_, _, on₃, hk₃⟩ := @Alone.act U a _ _ k _ _ on₂ i (.encode _ _) _ hk₂ (fun e => by cases e) (.ok "token") _ rfl
  exact ⟨_, _, _, on₃, hk₃, _, rfl⟩

/-- What looks a session up is a `GetAuthSession` with its pair. -/
theorem looker (h : (logins U a).Run cond Empty trace p) {k : Nat} {code state : String} {b : Option (String × String)}
    {s s' : State} (hx : looked s code state b s' ∈ trace.own k) : ∃ q, p.threads[k]? = some ⟨.get code state, q⟩ := by
  obtain ⟨login, hs⟩ := System.run_own_started h hx
  obtain ⟨q, hk⟩ := System.run_info h hs
  cases login with
  | start st =>
    exfalso
    have hstage := run_start_stage h hk
    generalize trace.own k = l at hx hstage
    cases hstage with
    | early hno _ => exact hno _ hx trivial
    | inserting => simp at hx
    | inserted => simp at hx
  | get c st =>
    have hstage := run_get_stage h hk
    generalize trace.own k = l at hx hstage
    cases hstage with
    | begun => cases hx
    | missed =>
      cases List.mem_singleton.mp hx
      exact ⟨_, hk⟩
    | found hfollows _ _ =>
      rcases List.mem_cons.mp hx with e | hx
      · cases e
        exact ⟨_, hk⟩
      · exact (hfollows _ hx).elim

/-- The lookup is a call's first. -/
theorem looks_first (h : (logins U a).Run cond Empty trace p) {n : Nat} {login : Login} {code state : String} {f}
    (hn : p.threads[n]? = some ⟨login, .call (.resolveSession code state) f⟩) : trace.own n = [] := by
  generalize hq : (Prog.call (.resolveSession code state) f : Act (Except Status Reply)) = q at hn
  cases login with
  | start st =>
    have hstage := run_start_stage h hn
    generalize trace.own n = l at hstage
    cases hstage with
    | early _ hno => exact (hno _ _ hq.symm trivial).elim
    | inserting => cases hq
    | inserted => cases hq
  | get c st =>
    have hstage := run_get_stage h hn
    generalize trace.own n = l at hstage
    cases hstage with
    | begun => rfl
    | missed => cases hq
    | found _ hnext _ => exact (hnext _ _ hq.symm).elim

/-- A call that pursues its session can be given a token, with nothing else happening. -/
theorem pursued_returns (h : (logins U a).Run FreshCodes Empty trace p) {k : Nat} {code state : String}
    (hp : Pursues trace k code state) : ∃ trace' p' r, Alone U a k trace p trace' p' ∧
      p'.threads[k]? = some ⟨.get code state, .ret r⟩ ∧ IsToken r := by
  obtain ⟨s, found, s', rest, hown, hrest⟩ := hp
  have hmem : looked s code state (some found) s' ∈ trace.own k := by
    rw [hown]
    exact List.mem_cons_self
  obtain ⟨q, hk⟩ := looker h hmem
  have on : Alone U a k trace p trace p := ⟨h, List.suffix_refl _, fun _ _ => rfl, fun _ _ => rfl⟩
  have hl := (System.run_leads h).1 k _ hk
  rw [hown] at hl
  rcases Prog.leads_call hl with ⟨e, _⟩ | ⟨_, _, _, _, e, h₁⟩
  · cases e
  cases e
  obtain ⟨dc, endpoint⟩ := found
  rcases Prog.leads_call h₁ with ⟨rfl, rfl⟩ | ⟨_, resp, _, l₂, rfl, h₂⟩
  · -- before its poll
    obtain ⟨_, _, on₁, hk₁⟩ := @Alone.act U a _ _ k _ _ on _ (.postToken endpoint dc) _ hk (fun e => by cases e) (.ok released) _ rfl
    obtain ⟨_, _, on₂, hk₂⟩ := @Alone.act U a _ _ k _ _ on₁ _ (.oidc "id-token") _ hk₁ (fun e => by cases e)
      (.ok { sub := "alice", exp := 0 }) _ rfl
    exact on₂.mints hk₂
  have hpoll := hrest _ List.mem_cons_self
  cases resp with
  | error e => exact hpoll.elim
  | ok resp =>
    obtain ⟨t, ht⟩ := hpoll
    simp only [Prog.bind, ht] at h₂
    rcases Prog.leads_call h₂ with ⟨rfl, rfl⟩ | ⟨_, verified, _, l₃, rfl, h₃⟩
    · -- before its verification
      obtain ⟨_, _, on₁, hk₁⟩ := @Alone.act U a _ _ k _ _ on _ (.oidc t) _ hk (fun e => by cases e)
        (.ok { sub := "alice", exp := 0 }) _ rfl
      exact on₁.mints hk₁
    cases verified with
    | error e => exact (hrest _ (List.mem_cons_of_mem _ List.mem_cons_self)).elim
    | ok claims =>
      rcases Prog.leads_call h₃ with ⟨rfl, rfl⟩ | ⟨t₄, b₄, t₄', l₄, rfl, _⟩
      · exact on.mints hk
      · -- it has removed the session
        have hno : Hopeful ⟨t₄, .removeSession code, b₄, t₄'⟩ := hrest _ (by simp)
        exact hno.elim

/-- Where a call finds a session that another pursues, both can be given a token. -/
theorem overlap_returns (h : (logins U a).Run FreshCodes Empty (m :: trace) p) {q : LoginPool} (hm : ¬ Apart trace q m) :
    ∃ late p' code state, (logins U a).Run FreshCodes Empty (late ++ m :: trace) p' ∧ ¬ SingleUse p' code state := by
  unfold Apart at hm
  push Not at hm
  obtain ⟨n, code, state, found, hd, k, hne, s, other, s', rest, hown, hrest⟩ := hm
  obtain ⟨t, d, t'⟩ := m
  dsimp only at hd
  subst hd
  -- the other call comes to its token, and then this one
  have hk : Pursues (⟨t, .called n (.resolveSession code state) (some found), t'⟩ :: trace) k code state :=
    ⟨s, other, s', rest, by rw [Trace.own_other (Ne.symm hne), hown], hrest⟩
  obtain ⟨trace₁, p₁, r, on₁, hk₁, hr⟩ := pursued_returns h hk
  have hn : Pursues trace₁ n code state := by
    obtain ⟨_, _, hq, _, hs, _⟩ := @System.run_split _ _ _ _ _ _ _ _ _ [] _ _ _ h
    obtain ⟨login, f, hthread, _, _⟩ := System.happens_called hs
    have hfirst : trace.own n = [] := looks_first hq hthread
    refine ⟨t, found, t', [], ?_, by simp⟩
    rw [on₁.own n (Ne.symm hne), Trace.own_called, hfirst]
    rfl
  obtain ⟨trace₂, p₂, r', on₂, hn₂, hr'⟩ := pursued_returns on₁.run hn
  obtain ⟨late, rfl⟩ := on₁.later.trans on₂.later
  refine ⟨late, p₂, code, state, on₂.run, fun hone => hne ?_⟩
  exact hone k n r r' ((on₂.threads k hne).trans hk₁) hn₂ hr hr'

/-- In every run in which no call finds a session that another pursues, a session is for
    one token at most; and wherever one does, the run can go on to two. -/
theorem single_use_apart (U : Unicode) (a : AuthConfig) :
    (∀ trace p, (logins U a).Run (fun t p m => FreshCodes t p m ∧ Apart t p m) Empty trace p →
      ∀ code state, SingleUse p code state) ∧
    ∀ m trace p q, (logins U a).Run FreshCodes Empty (m :: trace) p → ¬ Apart trace q m →
      ∃ late p' code state, (logins U a).Run FreshCodes Empty (late ++ m :: trace) p' ∧ ¬ SingleUse p' code state :=
  ⟨fun _ _ h code state => single_use_run h code state, fun _ _ _ _ h hm => overlap_returns h hm⟩

theorem quiet_apart {m : Step} (hcode : ∀ n code, m.did ≠ .called n .randomId code)
    (hlook : ∀ n code state b, m.did ≠ .called n (.resolveSession code state) b) : FreshCodes trace p m ∧ Apart trace p m :=
  ⟨fun n code hd => absurd hd (hcode n code), fun n code state _ hd => absurd hd (hlook n code state _)⟩

/-- Nothing was looked up yet. -/
theorem run_unlooked (h : (logins U a).Run FreshCodes Empty trace p)
    (hno : ∀ x ∈ trace, ∀ n code state b, x.did ≠ .called n (.resolveSession code state) b) :
    (logins U a).Run (fun t p m => FreshCodes t p m ∧ Apart t p m) Empty trace p := by
  induction h with
  | init s hs => exact .init s hs
  | step m _ hc hs ih =>
    refine .step m (ih fun x hx => hno x (List.mem_cons_of_mem _ hx)) ⟨hc, ?_⟩ hs
    exact fun n code state _ hd => absurd hd (hno m List.mem_cons_self n code state _)

def waiting : TokenResponse := ⟨none, none, some "authorization_pending"⟩

/-- A first call finds the session and is told to wait, and a second ends with a token. -/
theorem in_turn : ∃ trace p r, (logins U a).Run (fun t p m => FreshCodes t p m ∧ Apart t p m) Empty trace p ∧
    p.threads[1]? = some ⟨.get "code" "state", .ret (.ok (.session none))⟩ ∧
    p.threads[2]? = some ⟨.get "code" "state", .ret r⟩ ∧ IsToken r := by
  obtain ⟨trace, hlogin, _, _, hno⟩ := @login_started U a
  have h₀ := run_unlooked (law_fresh hlogin) hno
  have hunlooked : ∀ k s code state b s', looked s code state b s' ∉ Trace.own k trace :=
    fun k s code state b s' hx => hno _ (Trace.mem_own.mp hx) k code state b rfl
  -- the first call
  have h₁ := System.Run.step _ h₀ (quiet_apart (by simp) (by simp)) (.start _ (.get "code" "state"))
  have h₂ := System.run_call h₁ 1 rfl (some ("device-1", "https://idp.example/token")) opened_looked
    ⟨by simp [FreshCodes], fun n code state found _ k _ hp => by
      obtain ⟨s, found, s', rest, hown, _⟩ := hp
      rw [Trace.own_started] at hown
      exact hunlooked k s code state (some found) s' (hown ▸ List.mem_cons_self)⟩
  have h₃ := System.run_call h₂ 1 rfl (.ok waiting) rfl (quiet_apart (by simp) (by simp))
  -- the second
  have h₄ := System.Run.step _ h₃ (quiet_apart (by simp) (by simp)) (.start _ (.get "code" "state"))
  have h₅ := System.run_call h₄ 2 rfl (some ("device-1", "https://idp.example/token")) opened_looked
    ⟨by simp [FreshCodes], fun n code state found _ k _ hp => by
      obtain ⟨s, found, s', rest, hown, hrest⟩ := hp
      rw [Trace.own_started] at hown
      by_cases hk : 1 = k
      · subst hk
        rw [Trace.own_called, Trace.own_called, Trace.own_started, (System.run_leads h₀).2 1 (by decide)] at hown
        cases hown
        obtain ⟨t, ht⟩ := hrest _ List.mem_cons_self
        have hwait : classify waiting = .pending := by decide
        cases hwait.symm.trans ht
      · rw [Trace.own_other hk, Trace.own_other hk, Trace.own_started] at hown
        exact hunlooked k s code state (some found) s' (hown ▸ List.mem_cons_self)⟩
  have h₆ := System.run_call h₅ 2 rfl (.ok released) rfl (quiet_apart (by simp) (by simp))
  have h₇ := System.run_call h₆ 2 rfl (.ok { sub := "alice", exp := 1700003600 }) rfl (quiet_apart (by simp) (by simp))
  have h₈ := System.run_call h₇ 2 rfl () rfl (quiet_apart (by simp) (by simp))
  have h₉ := System.run_call h₈ 2 rfl (1700000000 : UInt64) rfl (quiet_apart (by simp) (by simp))
  have h₁₀ := System.run_call h₉ 2 rfl (.ok "token") rfl (quiet_apart (by simp) (by simp))
  exact ⟨_, _, _, h₁₀, rfl, rfl, _, rfl⟩

theorem single_use_in_turn : ∃ p r, SingleUse p "code" "state" ∧
    p.threads[1]? = some ⟨.get "code" "state", .ret (.ok (.session none))⟩ ∧
    p.threads[2]? = some ⟨.get "code" "state", .ret r⟩ ∧ IsToken r := by
  obtain ⟨trace, p, r, h, h₁, h₂, hr⟩ := @in_turn Unicode.ascii AuthConfig.lore
  exact ⟨p, r, (single_use_apart Unicode.ascii AuthConfig.lore).1 trace p h "code" "state", h₁, h₂, hr⟩

/-- Two calls look the session up, the provider answers both with a token, and both end
    with one. -/
theorem both_returned : ∃ trace p r r', (logins U a).Run FreshCodes Empty trace p ∧
    p.threads[1]? = some ⟨.get "code" "state", .ret r⟩ ∧ p.threads[2]? = some ⟨.get "code" "state", .ret r'⟩ ∧
    IsToken r ∧ IsToken r' := by
  obtain ⟨trace, h₀, _⟩ := @login_started U a
  have claims : IdentityClaims := { sub := "alice", exp := 1700003600 }
  have h₁ := System.Run.step _ (law_fresh h₀) (by simp [FreshCodes]) (.start _ (.get "code" "state"))
  have h₂ := System.Run.step _ h₁ (by simp [FreshCodes]) (.start _ (.get "code" "state"))
  have h₃ := System.run_call h₂ 1 rfl (some ("device-1", "https://idp.example/token")) opened_looked (by simp [FreshCodes])
  have h₄ := System.run_call h₃ 2 rfl (some ("device-1", "https://idp.example/token")) opened_looked (by simp [FreshCodes])
  have h₅ := System.run_call h₄ 1 rfl (.ok released) rfl (by simp [FreshCodes])
  have h₆ := System.run_call h₅ 2 rfl (.ok released) rfl (by simp [FreshCodes])
  have h₇ := System.run_call h₆ 1 rfl (.ok claims) rfl (by simp [FreshCodes])
  have h₈ := System.run_call h₇ 2 rfl (.ok claims) rfl (by simp [FreshCodes])
  have h₉ := System.run_call h₈ 1 rfl () rfl (by simp [FreshCodes])
  have h₁₀ := System.run_call h₉ 2 rfl () rfl (by simp [FreshCodes])
  have h₁₁ := System.run_call h₁₀ 1 rfl (1700000000 : UInt64) rfl (by simp [FreshCodes])
  have h₁₂ := System.run_call h₁₁ 2 rfl (1700000000 : UInt64) rfl (by simp [FreshCodes])
  have h₁₃ := System.run_call h₁₂ 1 rfl (.ok "token-1") rfl (by simp [FreshCodes])
  have h₁₄ := System.run_call h₁₃ 2 rfl (.ok "token-2") rfl (by simp [FreshCodes])
  refine ⟨_, _, _, _, h₁₄, (List.getElem?_set_ne (by decide)).trans (List.getElem?_set_self ?_),
    List.getElem?_set_self ?_, ⟨_, rfl⟩, ⟨_, rfl⟩⟩ <;> simp

theorem both_issued : ¬ ∀ (U : Unicode) (a : AuthConfig) (trace : History) (p : LoginPool) (code state : String),
    (logins U a).Run FreshCodes Empty trace p → SingleUse p code state := by
  intro h
  obtain ⟨trace, p, r, r', hrun, hn, hk, hr, hr'⟩ := @both_returned Unicode.ascii AuthConfig.lore
  have := h _ _ trace p "code" "state" hrun 1 2 r r' hn hk hr hr'
  cases this

end Kaguya.Auth.Sessions
