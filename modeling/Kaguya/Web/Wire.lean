/-
  Kaguya.Web.Wire — what the provider reads of a web login: the query of the URL that the
  browser is sent on to, and the form that the callback posts, as `Kaguya.Lib.Form` writes
  them.

  Whatever endpoint the provider has named, a login's URL is the endpoint's own with the
  request at the end of its query, and a callback's form is the exchange (`login_reads`,
  `post_reads`). Of a provider that checks PKCE it follows that a code is good only where
  it was meant to be: the callback that redeems it has the state of a login whose challenge
  the code's URL carries, and if the URL was a login's, it was that one's (`codes_bound`).
-/

import Kaguya.Lib.Form
import Kaguya.Web.Login

namespace Kaguya.Web.Wire

open Kaguya.Lib
open Kaguya.Web.Server
open Kaguya.Web.Runs
open Kaguya.Web.Bookkeeping
open Kaguya.Web.Login

/-! ## The provider's end -/

/-- `append_pair` as it is. -/
def onWire (crates : Crates) : Crates := { crates with appendPair := Form.appendPair }

/-- The body that `.form(..)` posts. -/
def body (form : List (String × String)) : List Char := Form.serialize form

/-- The URL carries the challenge, and no other. -/
structure Challenges (url challenge : String) : Prop where
  carried : Form.bytes ("code_challenge", challenge) ∈ (Form.Url.of url.toList).pairs
  only : ∀ c, Form.bytes ("code_challenge", c) ∈ (Form.Url.of url.toList).pairs → c = challenge

/-- A provider, by the URL it issued a code at. -/
structure Provider where
  issuedAt : String → Option String

/-- The code was issued, and the verifier hashes to the challenge of its URL. -/
def Provider.Redeems (crates : Crates) (provider : Provider) (form : List Char) : Prop :=
  ∀ code verifier, Form.bytes ("code", code) ∈ Form.parse form →
    Form.bytes ("code_verifier", verifier) ∈ Form.parse form →
    ∃ url, provider.issuedAt code = some url ∧ Challenges url (codeChallenge crates verifier)

/-- The provider answers with an id token only where it redeems. -/
def ChecksPkce (crates : Crates) (provider : Provider) (trace : History) : Prop :=
  ∀ n url form resp s s', ⟨s, .called n (.postToken url form) (.ok (.ok resp)), s'⟩ ∈ trace →
    provider.Redeems crates (body form)

def FreshVerifiers (crates : Crates) (trace : History) (m : Step) : Prop :=
  ∀ n bytes, m.did = .called n .randomBytes bytes → ∀ x ∈ trace, ∀ k bytes', x.did = .called k .randomBytes bytes' →
    crates.base64url bytes'.toList ≠ crates.base64url bytes.toList

def Fresh (crates : Crates) (trace : History) (p : WebPool) (m : Step) : Prop :=
  FreshIds trace p m ∧ FreshVerifiers crates trace m

/-- Two verifiers of logins have one challenge. -/
def Collides (crates : Crates) (trace : History) : Prop :=
  ∃ m ∈ trace, ∃ m' ∈ trace, ∃ k k' state state' verifier verifier', Enters m k state verifier ∧
    Enters m' k' state' verifier' ∧ verifier ≠ verifier' ∧ codeChallenge crates verifier = codeChallenge crates verifier'

/-! ## What it reads -/

section Reads

variable {crates : Crates} {o : Oidc} {trace : History} {p : WebPool}
variable {cond : History → WebPool → Step → Prop}

/-- The URL of a login that was answered, and what it has entered. -/
structure LoginSent (crates : Crates) (o : Oidc) (trace : History) (k : Nat) (location state verifier : String) : Prop where
  entered : ∃ m ∈ trace, Enters m k state verifier
  reads : ∃ disco url, Discovered (trace.own k) disco ∧ crates.parseUrl disco.authorizationEndpoint = .ok url ∧
    Form.Extends url location (o.authorizeQuery state (codeChallenge crates verifier))
  asks : Asks (o.authorizeQuery state (codeChallenge crates verifier)) state (codeChallenge crates verifier)
  drew : ∃ bytes s s', verifier = crates.base64url bytes.toList ∧ ⟨s, .called k .randomBytes bytes, s'⟩ ∈ trace

theorem login_reads (h : (web (onWire crates) o).Run cond Empty trace p) {k browser : Nat} {location : String}
    (hk : p.threads[k]? = some ⟨⟨browser, .login⟩, .ret (redirect location none)⟩) :
    ∃ state verifier, LoginSent crates o trace k location state verifier := by
  have hstage := login_stage ((System.run_leads h).1 k _ hk)
  generalize hl : trace.own k = l at hstage
  generalize hq : (Prog.ret (redirect location none) : Act Response) = q at hstage
  cases hstage with
  | early _ hnot => exact absurd hq.symm (hnot _)
  | @entered a a' b b' c c' r bytes l q _ hsent =>
    refine ⟨lowerHex r, crates.base64url bytes.toList, ?_, ?_, asks_authorizeQuery o _ _, ?_⟩
    · have hin : ⟨c, .startLogin (lowerHex r) ((onWire crates).base64url bytes.toList), (), c'⟩ ∈ trace.own k := by
        rw [hl]
        simp
      exact ⟨_, Trace.mem_own.mp hin, rfl⟩
    · rcases hsent _ hq.symm with e | ⟨disco, sent, ⟨d, link, d', hd⟩, hurl, e⟩
      · cases e
      · cases e
        obtain ⟨url, hparse, rfl⟩ := authorizeAt_ok hurl
        refine ⟨disco, url, ⟨d, link, d', ?_⟩, hparse, Form.extends_appendPair url _⟩
        rw [hl]
        simp [hd]
    · have hin : ⟨b, .randomBytes, bytes, b'⟩ ∈ trace.own k := by
        rw [hl]
        simp
      exact ⟨bytes, b, b', rfl, Trace.mem_own.mp hin⟩

/-- A form that is posted is the exchange of its callback's code. -/
theorem post_reads (h : (web (onWire crates) o).Run FreshIds Empty trace p) {n : Nat} {url : String}
    {form : List (String × String)} {b : Fetched TokenResponse} {s s' : State}
    (hm : ⟨s, .called n (.postToken url form) b, s'⟩ ∈ trace) :
    ∃ code state verifier browser q, trace.Started n ⟨browser, .callback q⟩ ∧ q.code = some code ∧ q.state = some state ∧
      Form.parse (body form) = (o.exchangeForm code verifier).map Form.bytes ∧
      HandsIn (o.exchangeForm code verifier) code verifier ∧
      ∃ m ∈ trace, ∃ k browser', Enters m k state verifier ∧ trace.Started k ⟨browser', .login⟩ := by
  obtain ⟨code, state, verifier, browser, q, m, k, browser', hs, hcode, hstate, hform, _, hmem, he, hk, _⟩ :=
    (run_redemption h).sent n url form b s s' hm
  refine ⟨code, state, verifier, browser, q, hs, hcode, hstate, ?_, handsIn_exchangeForm o code verifier, m, hmem, k,
    browser', he, hk⟩
  rw [body, Form.parse_serialize, hform]

/-! ## Codes -/

theorem verifier_drawer (h : (web (onWire crates) o).Run (Fresh crates) Empty trace p) {k k' : Nat}
    {bytes bytes' : Vector UInt8 32} {a a' c c' : State} (hk : ⟨a, .called k .randomBytes bytes, a'⟩ ∈ trace)
    (hk' : ⟨c, .called k' .randomBytes bytes', c'⟩ ∈ trace)
    (he : crates.base64url bytes.toList = crates.base64url bytes'.toList) : k = k' := by
  induction h with
  | init s _ => cases hk
  | step m _ hc _ ih =>
    rcases List.mem_cons.mp hk with rfl | hx <;> rcases List.mem_cons.mp hk' with e | hy
    · cases e
      rfl
    · exact absurd he.symm (hc.2 k bytes rfl _ hy k' bytes' rfl)
    · subst e
      exact absurd he (hc.2 k' bytes' rfl _ hx k bytes rfl)
    · exact ih hx hy

theorem enters_drew (h : (web (onWire crates) o).Run cond Empty trace p) {m : Step} (hm : m ∈ trace) {k : Nat}
    {state verifier : String} (he : Enters m k state verifier) :
    ∃ bytes s s', verifier = crates.base64url bytes.toList ∧ ⟨s, .called k .randomBytes bytes, s'⟩ ∈ trace := by
  obtain ⟨browser, prog, hk, _, hstage, hown⟩ := entered_by h hm he
  generalize hl : trace.own k = l at hstage
  cases hstage with
  | early hearly _ =>
    rcases hearly _ (hl ▸ hown) with e | e <;> cases e
  | @entered a a' b b' c c' r bytes l q hrest _ =>
    rw [hl] at hown
    simp only [List.mem_cons, Answered.mk.injEq, reduceCtorEq, false_and, and_false, false_or, Call.startLogin.injEq] at hown
    rcases hown with ⟨_, ⟨_, rfl⟩, _⟩ | hin
    · have hin : ⟨b, .randomBytes, bytes, b'⟩ ∈ trace.own k := by
        rw [hl]
        simp
      exact ⟨bytes, b, b', rfl, Trace.mem_own.mp hin⟩
    · obtain ⟨url, e⟩ := hrest _ hin
      cases e

variable {provider : Provider}

/-- The provider reads the login's challenge in its URL. -/
theorem LoginSent.carries {k : Nat} {location state verifier : String}
    (h : LoginSent crates o trace k location state verifier) :
    Form.bytes ("code_challenge", codeChallenge crates verifier) ∈ (Form.Url.of location.toList).pairs := by
  obtain ⟨_, _, _, _, hextends⟩ := h.reads
  rw [hextends.pairs]
  exact List.mem_append_right _ (List.mem_map_of_mem h.asks.challenge)

theorem challenge_login (h : (web (onWire crates) o).Run (Fresh crates) Empty trace p) (hcollide : ¬ Collides crates trace)
    {m m' : Step} (hm : m ∈ trace) (hm' : m' ∈ trace) {k k' : Nat} {state state' verifier verifier' : String}
    (he : Enters m k state verifier) (he' : Enters m' k' state' verifier')
    (hsame : codeChallenge crates verifier = codeChallenge crates verifier') : k = k' := by
  have hverifier : verifier = verifier' := by
    by_contra hne
    exact hcollide ⟨m, hm, m', hm', k, k', state, state', verifier, verifier', he, he', hne, hsame⟩
  obtain ⟨bytes, a, a', hb, hdrew⟩ := enters_drew h hm he
  obtain ⟨bytes', c, c', hb', hdrew'⟩ := enters_drew h hm' he'
  exact verifier_drawer h hdrew hdrew' (by rw [← hb, ← hb', hverifier])

/-- What the exchange of callback `n` was for: login `k` entered the callback's state, the
    code's URL carries its challenge, and was no other login's. -/
structure Meant (crates : Crates) (provider : Provider) (trace : History) (p : WebPool) (n k : Nat)
    (code state verifier location : String) : Prop where
  callback : ∃ browser q, trace.Started n ⟨browser, .callback q⟩ ∧ q.code = some code ∧ q.state = some state
  login : ∃ browser, trace.Started k ⟨browser, .login⟩
  entered : ∃ m ∈ trace, Enters m k state verifier
  issued : provider.issuedAt code = some location
  challenged : Challenges location (codeChallenge crates verifier)
  sent : ∀ k' browser, p.threads[k']? = some ⟨⟨browser, .login⟩, .ret (redirect location none)⟩ → k' = k

/-- If the provider takes the exchange that a callback makes, its code was meant for it. -/
theorem codes_of_run (h : (web (onWire crates) o).Run (Fresh crates) Empty trace p) (hpkce : ChecksPkce crates provider trace)
    (hcollide : ¬ Collides crates trace) {n : Nat} {url : String} {form : List (String × String)} {resp : TokenResponse}
    {s s' : State} (hm : ⟨s, .called n (.postToken url form) (.ok (.ok resp)), s'⟩ ∈ trace) :
    ∃ k code state verifier location, Meant crates provider trace p n k code state verifier location := by
  have hids := System.run_mono (fun _ _ _ hc => hc.1) h
  obtain ⟨code, state, verifier, browser, q, hs, hcode, hstate, hreads, hin, m, hmem, k, browser', he, hlogin⟩ :=
    post_reads hids hm
  have hread : ∀ kv ∈ o.exchangeForm code verifier, Form.bytes kv ∈ Form.parse (body form) := by
    intro kv hkv
    rw [hreads]
    exact List.mem_map_of_mem hkv
  obtain ⟨location, hissued, hcarried⟩ :=
    hpkce n url form resp s s' hm code verifier (hread _ hin.code) (hread _ hin.verifier)
  refine ⟨k, code, state, verifier, location, ⟨browser, q, hs, hcode, hstate⟩, ⟨browser', hlogin⟩, ⟨m, hmem, he⟩, hissued,
    hcarried, fun k' browser'' hk' => ?_⟩
  -- a login with this URL has its challenge
  obtain ⟨state', verifier', hsent⟩ := login_reads h hk'
  obtain ⟨m', hmem', he'⟩ := hsent.entered
  exact challenge_login h hcollide hmem' hmem he' he (hcarried.only _ hsent.carries)

end Reads

/-- In every run: the provider reads in a login's URL the endpoint that it named with what
    the login has entered at the end of the query, and in a callback's form the exchange of
    its code with the verifier of its state. And of a provider that checks PKCE, where
    verifiers are fresh and their challenges do not collide: a code that it takes was meant
    for the callback that hands it in. -/
theorem codes_bound (crates : Crates) (o : Oidc) (provider : Provider) :
    (∀ trace p k browser location, (web (onWire crates) o).Run FreshIds Empty trace p →
      p.threads[k]? = some ⟨⟨browser, .login⟩, .ret (redirect location none)⟩ →
      ∃ state verifier, LoginSent crates o trace k location state verifier) ∧
    (∀ trace p n url form b s s', (web (onWire crates) o).Run FreshIds Empty trace p →
      ⟨s, .called n (.postToken url form) b, s'⟩ ∈ trace →
      ∃ code state verifier browser q, trace.Started n ⟨browser, .callback q⟩ ∧ q.code = some code ∧ q.state = some state ∧
        Form.parse (body form) = (o.exchangeForm code verifier).map Form.bytes ∧
        HandsIn (o.exchangeForm code verifier) code verifier ∧
        ∃ m ∈ trace, ∃ k browser', Enters m k state verifier ∧ trace.Started k ⟨browser', .login⟩) ∧
    ∀ trace p n url form resp s s',
      (web (onWire crates) o).Run (Fresh crates) Empty trace p → ChecksPkce crates provider trace → ¬ Collides crates trace →
      ⟨s, .called n (.postToken url form) (.ok (.ok resp)), s'⟩ ∈ trace →
      ∃ k code state verifier location, Meant crates provider trace p n k code state verifier location := by
  refine ⟨fun trace p k browser location h hk => login_reads h hk, fun trace p n url form b s s' h hm => post_reads h hm, ?_⟩
  intro trace p n url form resp s s' h hpkce hcollide hm
  exact codes_of_run h hpkce hcollide hm

/-! ## A login and its code -/

theorem fresh_of_quiet {crates : Crates} {trace : History} {p : WebPool} {m : Step}
    (h : ∀ n r, m.did ≠ .called n .randomU128 r) (h' : ∀ n bytes, m.did ≠ .called n .randomBytes bytes) :
    Fresh crates trace p m :=
  ⟨fun n r e => absurd e (h n r), fun n bytes e => absurd e (h' n bytes)⟩

theorem fresh_id {crates : Crates} {trace : History} {p : WebPool} {n : Nat} {r : BitVec 128} {s s' : State}
    (h : ∀ x ∈ trace, ∀ k r', x.did ≠ .called k .randomU128 r') :
    Fresh crates trace p ⟨s, .called n .randomU128 r, s'⟩ :=
  ⟨fun _ _ _ x hx k r' hd => absurd hd (h x hx k r'), fun _ _ e => by cases e⟩

theorem fresh_verifier {crates : Crates} {trace : History} {p : WebPool} {n : Nat} {bytes : Vector UInt8 32} {s s' : State}
    (h : ∀ x ∈ trace, ∀ k bytes', x.did ≠ .called k .randomBytes bytes') :
    Fresh crates trace p ⟨s, .called n .randomBytes bytes, s'⟩ :=
  ⟨fun _ _ e => (by cases e), fun _ _ _ x hx k bytes' hd => absurd hd (h x hx k bytes')⟩

def issuing (location : String) : Provider := ⟨fun code => if code = "code" then some location else none⟩

/-- The login's URL challenges its callback's verifier, if the endpoint has no query. -/
theorem redeems_own {crates : Crates} {o : Oidc} {state verifier url : String} (hurl : (Form.Url.of url.toList).pairs = []) :
    (issuing ((o.authorizeQuery state (codeChallenge crates verifier)).foldl
      (fun url kv => Form.appendPair url kv.1 kv.2) url)).Redeems crates (body (o.exchangeForm "code" verifier)) := by
  intro code verifier' hcode hverifier
  rw [body, Form.parse_serialize, Form.mem_map_bytes] at hcode hverifier
  have hc : code = "code" := by simpa [Oidc.exchangeForm] using hcode
  have hv : verifier' = verifier := by simpa [Oidc.exchangeForm] using hverifier
  subst hc hv
  refine ⟨_, rfl, ?_, fun c hc => ?_⟩
  · rw [(Form.extends_appendPair url _).pairs, hurl, List.nil_append, Form.mem_map_bytes]
    simp [Oidc.authorizeQuery]
  · rw [(Form.extends_appendPair url _).pairs, hurl, List.nil_append, Form.mem_map_bytes] at hc
    simpa [Oidc.authorizeQuery] using hc

theorem takes_entered {store : Store} {swept : String → Int64} {clock : Int64} {state verifier : String}
    (h : now clock < now clock + pendingTtl) :
    ((store.startLogin swept clock state verifier).takePending clock state).1 = some verifier := by
  simp [Store.takePending, Store.startLogin, Dict.get_insert_self, h]

/-- A browser logs in and comes back with its code, which the provider takes. -/
theorem code_taken : ∃ trace p location n url form s s',
    (web (onWire exampleCrates) exampleOidc).Run (Fresh exampleCrates) Empty trace p ∧
    ChecksPkce exampleCrates (issuing location) trace ∧ ¬ Collides exampleCrates trace ∧
    ⟨s, .called n (.postToken url form) (.ok (.ok ⟨"id-token"⟩)), s'⟩ ∈ trace := by
  have h₀ : (web (onWire exampleCrates) exampleOidc).Run (Fresh exampleCrates) Empty [] ⟨⟨Store.empty, 0⟩, []⟩ := .init _ rfl
  obtain ⟨p₁, h₁, hs₁, hn₁⟩ := System.run_start h₀ begun (fresh_of_quiet (fun n r e => by cases e) (fun n r e => by cases e))
  obtain ⟨p₂, h₂, hs₂, hn₂⟩ := System.run_act h₁ hn₁ (0 : BitVec 128) p₁.shared rfl
    (fresh_id (by simp))
  obtain ⟨p₃, h₃, hs₃, hn₃⟩ := System.run_act h₂ hn₂ (Vector.replicate 32 0) p₂.shared rfl
    (fresh_verifier (by simp))
  let verifier : String := exampleCrates.base64url (Vector.replicate 32 (0 : UInt8)).toList
  have henter : callSem (.startLogin (lowerHex 0) verifier) p₃.shared ()
      ⟨p₃.shared.store.startLogin (fun _ => p₃.shared.clock) p₃.shared.clock (lowerHex 0) verifier, p₃.shared.clock⟩ :=
    ⟨Int64.le_refl _, fun _ => p₃.shared.clock, fun _ => ⟨Int64.le_refl _, Int64.le_refl _⟩, rfl⟩
  obtain ⟨p₄, h₄, hs₄, hn₄⟩ := System.run_act h₃ hn₃ () _ henter
    (fresh_of_quiet (fun n r e => by cases e) (fun n r e => by cases e))
  obtain ⟨p₅, h₅, hs₅, _⟩ := System.run_act h₄ hn₄ (.ok (.ok idpEndpoints)) p₄.shared rfl
    (fresh_of_quiet (fun n r e => by cases e) (fun n r e => by cases e))
  -- it comes back
  obtain ⟨p₆, h₆, hs₆, hn₆⟩ := System.run_start h₅ ⟨0, .callback ⟨some "code", some (lowerHex 0), none⟩⟩
    (fresh_of_quiet (fun n r e => by cases e) (fun n r e => by cases e))
  have htake : (p₆.shared.store.takePending p₆.shared.clock (lowerHex 0)).1 = some verifier := by
    rw [hs₆, hs₅, hs₄, hs₃, hs₂, hs₁]
    exact takes_entered (by decide)
  obtain ⟨p₇, h₇, hs₇, hn₇⟩ := System.run_act h₆ (c := .takePending (lowerHex 0)) hn₆ (some verifier)
    ⟨(p₆.shared.store.takePending p₆.shared.clock (lowerHex 0)).2, p₆.shared.clock⟩ ⟨Int64.le_refl _, Prod.ext htake.symm rfl⟩
    (fresh_of_quiet (fun n r e => by cases e) (fun n r e => by cases e))
  obtain ⟨p₈, h₈, hs₈, hn₈⟩ := System.run_act h₇ hn₇ (.ok (.ok idpEndpoints)) p₇.shared rfl
    (fresh_of_quiet (fun n r e => by cases e) (fun n r e => by cases e))
  obtain ⟨p₉, h₉, hs₉, _⟩ := System.run_act h₈ hn₈ (.ok (.ok ⟨"id-token"⟩)) p₈.shared rfl
    (fresh_of_quiet (fun n r e => by cases e) (fun n r e => by cases e))
  refine ⟨_, p₉, (exampleOidc.authorizeQuery (lowerHex 0) (codeChallenge exampleCrates verifier)).foldl
    (fun url kv => Form.appendPair url kv.1 kv.2) idpEndpoints.authorizationEndpoint, _, _, _, _, _, h₉, ?_, ?_,
    List.mem_cons_self⟩
  · intro n url form resp s s' hm
    simp only [List.mem_cons, List.not_mem_nil, or_false] at hm
    rcases hm with e | e | e | e | e | e | e | e | e <;> cases e
    exact redeems_own (by decide +kernel)
  · intro hcol
    obtain ⟨m, hm, m', hm', k, k', state, state', verifier, verifier', he, he', hne, _⟩ := hcol
    simp only [List.mem_cons, List.not_mem_nil, or_false] at hm hm'
    rcases hm with rfl | rfl | rfl | rfl | rfl | rfl | rfl | rfl | rfl <;> cases he
    rcases hm' with rfl | rfl | rfl | rfl | rfl | rfl | rfl | rfl | rfl <;> cases he'
    exact hne rfl

theorem code_meant : ∃ trace p location n k code state verifier,
    Meant exampleCrates (issuing location) trace p n k code state verifier location := by
  obtain ⟨trace, p, location, n, url, form, s, s', h, hpkce, hcol, hm⟩ := code_taken
  obtain ⟨k, code, state, verifier, location', hmeant⟩ :=
    (codes_bound exampleCrates exampleOidc (issuing location)).2.2 trace p n url form _ s s' h hpkce hcol hm
  have hloc : location' = location := by
    have hi := hmeant.issued
    unfold issuing at hi
    dsimp only at hi
    split at hi
    · exact (Option.some.inj hi).symm
    · cases hi
  exact ⟨trace, p, location, n, k, code, state, verifier, hloc ▸ hmeant⟩

end Kaguya.Web.Wire
