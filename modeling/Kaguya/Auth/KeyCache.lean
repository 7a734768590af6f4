/-
  Kaguya.Auth.KeyCache — the provider's keys as `OidcVerifier` caches them, with any
  number of verifications at once. A verification uses the cached set if it has the
  token's key id; else it fetches the set, checks the token against it and writes it to
  the cache. Between its calls others verify, the provider changes what it serves, and
  time passes. A fetch answers with the set that is served at its moment, or fails.

  `Stage`: where a verification stands, by the calls it has made.

  If the provider only gains keys (`Gains`), what is cached is part of what is served
  (`cached_extends`), so the fast path decides as a fetch would: a verification agrees
  with the plain check against a set that was served while it ran
  (`cached_verify_agrees`).
-/

import Kaguya.Auth.Verify
import Kaguya.Lib.Trace

namespace Kaguya.Auth.KeyCache

open Kaguya.Lib
open Kaguya.Auth.Jwt
open Kaguya.Auth.Verify

/-! ## The verifier among others -/

/-- The cache, the clock and the set the provider serves; `version` counts its changes. -/
structure Keys (lib : Jwt) where
  cached : Option (JwkSet lib)
  clock : Nat
  served : JwkSet lib
  version : Nat

inductive Change (lib : Jwt) where
  | rotate (set : JwkSet lib)
  | tick (now : Nat)

variable {lib : Jwt}

def callSem : (c : VerifyCall lib) → Keys lib → c.Ans → Keys lib → Prop
  | .now, s, now, s' => now = s.clock ∧ s' = s
  | .readJwks, s, cached, s' => cached = s.cached ∧ s' = s
  | .fetchJwks, s, fetched, s' => (∀ set, fetched = .ok set → set = s.served) ∧ s' = s
  | .writeJwks set, s, _, s' => s' = { s with cached := some set }

def changeSem : Change lib → Keys lib → Keys lib → Prop
  | .rotate set, s, s' => s' = { s with served := set, version := s.version + 1 }
  | .tick now, s, s' => s' = { s with clock := now }

/-- Each thread verifies one token. -/
def verifier (lib : Jwt) (o : OidcVerifier) :
    System String (Change lib) (VerifyCall lib) VerifyCall.Ans (Except VerifyError IdentityClaims) (Keys lib) where
  sem _ := callSem
  env := changeSem
  body token := o.verify lib token

abbrev VerifyPool (lib : Jwt) :=
  Pool String (VerifyCall lib) VerifyCall.Ans (Except VerifyError IdentityClaims) (Keys lib)
abbrev History (lib : Jwt) := Trace String (Change lib) (VerifyCall lib) VerifyCall.Ans (Keys lib)
abbrev Step (lib : Jwt) := Moment String (Change lib) (VerifyCall lib) VerifyCall.Ans (Keys lib)
abbrev VerifyAnswered (lib : Jwt) := Answered (VerifyCall lib) VerifyCall.Ans (Keys lib)

/-- `OidcVerifier::new` caches nothing. -/
def Fresh (s : Keys lib) : Prop := s.cached = none

/-! ## Where a verification stands -/

abbrev cacheRead (s : Keys lib) (cached : Option (JwkSet lib)) (s' : Keys lib) : VerifyAnswered lib :=
  ⟨s, .readJwks, cached, s'⟩

abbrev fetch (s : Keys lib) (fetched : Except String (JwkSet lib)) (s' : Keys lib) : VerifyAnswered lib :=
  ⟨s, .fetchJwks, fetched, s'⟩

abbrev clockRead (s : Keys lib) (now : Nat) (s' : Keys lib) : VerifyAnswered lib := ⟨s, .now, now, s'⟩

abbrev install (s : Keys lib) (set : JwkSet lib) (s' : Keys lib) : VerifyAnswered lib := ⟨s, .writeJwks set, (), s'⟩

/-- The calls a verification has made, and what it does next. -/
inductive Stage (o : OidcVerifier) (token : String) :
    List (VerifyAnswered lib) → Verifier lib (Except VerifyError IdentityClaims) → Prop
  | malformed {e : VerifyError} : headerKid lib token = .error e → Stage o token [] (.ret (.error e))
  | begun {kid : String} {k} : headerKid lib token = .ok kid → Stage o token [] (.call .readJwks k)
  | hit {kid : String} {s s' : Keys lib} {cached : Option (JwkSet lib)} {set : JwkSet lib} {k} :
      headerKid lib token = .ok kid → cachedFor lib kid cached = some set →
      Stage o token [cacheRead s cached s'] (.call .now k)
  | hitDone {kid : String} {s s' t t' : Keys lib} {cached : Option (JwkSet lib)} {set : JwkSet lib} {now : Nat} :
      headerKid lib token = .ok kid → cachedFor lib kid cached = some set →
      Stage o token [cacheRead s cached s', clockRead t now t']
        (.ret (verifyWithJwks lib now token set o.issuer o.audiences))
  | miss {kid : String} {s s' : Keys lib} {cached : Option (JwkSet lib)} {k} :
      headerKid lib token = .ok kid → cachedFor lib kid cached = none →
      Stage o token [cacheRead s cached s'] (.call .fetchJwks k)
  | failed {kid : String} {s s' u u' : Keys lib} {cached : Option (JwkSet lib)} {m : String} :
      headerKid lib token = .ok kid → cachedFor lib kid cached = none →
      Stage o token [cacheRead s cached s', fetch u (.error m) u'] (.ret (.error (.jwks m)))
  | fetched {kid : String} {s s' u u' : Keys lib} {cached : Option (JwkSet lib)} {set : JwkSet lib} {k} :
      headerKid lib token = .ok kid → cachedFor lib kid cached = none →
      Stage o token [cacheRead s cached s', fetch u (.ok set) u'] (.call .now k)
  | checked {kid : String} {s s' u u' t t' : Keys lib} {cached : Option (JwkSet lib)} {set : JwkSet lib} {now : Nat}
      {k} : headerKid lib token = .ok kid → cachedFor lib kid cached = none →
      Stage o token [cacheRead s cached s', fetch u (.ok set) u', clockRead t now t'] (.call (.writeJwks set) k)
  | installed {kid : String} {s s' u u' t t' w w' : Keys lib} {cached : Option (JwkSet lib)} {set : JwkSet lib}
      {now : Nat} : headerKid lib token = .ok kid → cachedFor lib kid cached = none →
      Stage o token [cacheRead s cached s', fetch u (.ok set) u', clockRead t now t', install w set w']
        (.ret (verifyWithJwks lib now token set o.issuer o.audiences))

theorem verify_stage {o : OidcVerifier} {token : String} {l : List (VerifyAnswered lib)}
    {q : Verifier lib (Except VerifyError IdentityClaims)} (h : (o.verify lib token).Leads l q) :
    Stage o token l q := by
  unfold OidcVerifier.verify at h
  cases hk : headerKid lib token with
  | error e =>
    rw [hk] at h
    obtain ⟨rfl, rfl⟩ := Prog.leads_ret h
    exact .malformed hk
  | ok kid =>
    rw [hk] at h
    -- the cache is read
    rcases Prog.leads_ask h with ⟨rfl, rfl⟩ | ⟨s, cached, s', l₁, rfl, h₁⟩
    · exact .begun hk
    cases hc : cachedFor lib kid cached with
    | some set =>
      simp only [hc] at h₁
      rcases Prog.leads_ask h₁ with ⟨rfl, rfl⟩ | ⟨t, now, t', l₂, rfl, h₂⟩
      · exact .hit hk hc
      obtain ⟨rfl, rfl⟩ := Prog.leads_ret h₂
      exact .hitDone hk hc
    | none =>
      simp only [hc] at h₁
      rcases Prog.leads_ask h₁ with ⟨rfl, rfl⟩ | ⟨u, fetched, u', l₂, rfl, h₂⟩
      · exact .miss hk hc
      cases fetched with
      | error m =>
        obtain ⟨rfl, rfl⟩ := Prog.leads_ret h₂
        exact .failed hk hc
      | ok set =>
        rcases Prog.leads_ask h₂ with ⟨rfl, rfl⟩ | ⟨t, now, t', l₃, rfl, h₃⟩
        · exact .fetched hk hc
        rcases Prog.leads_ask h₃ with ⟨rfl, rfl⟩ | ⟨w, b, w', l₄, rfl, h₄⟩
        · exact .checked hk hc
        obtain ⟨rfl, rfl⟩ := Prog.leads_ret h₄
        exact .installed hk hc

/-! ## A provider that only gains keys -/

/-- Every key id that `set` knows has the same key in `set'`. -/
def Extends (set set' : JwkSet lib) : Prop := ∀ kid jwk, set.find kid = some jwk → set'.find kid = some jwk

theorem Extends.refl (set : JwkSet lib) : Extends set set := fun _ _ h => h

theorem Extends.trans {a b c : JwkSet lib} (h : Extends a b) (h' : Extends b c) : Extends a c :=
  fun kid jwk hj => h' kid jwk (h kid jwk hj)

/-- The provider changes its set only by gaining keys. -/
def Gains (_ : History lib) (_ : VerifyPool lib) (m : Step lib) : Prop :=
  ∀ set, m.did = .moved (.rotate set) → Extends m.before.served set

theorem cachedFor_some {kid : String} {cached : Option (JwkSet lib)} {set : JwkSet lib}
    (h : cachedFor lib kid cached = some set) : cached = some set ∧ (set.find kid).isSome := by
  cases cached with
  | none => cases h
  | some set' =>
    simp only [cachedFor] at h
    split at h
    · rename_i hf
      cases h
      exact ⟨rfl, hf⟩
    · cases h

/-- The check depends on the set only through the key of the token's id. -/
theorem verifyWithJwks_congr {token kid : String} {set set' : JwkSet lib} (hk : headerKid lib token = .ok kid)
    (hf : set.find kid = set'.find kid) (now : Nat) (issuer : String) (audiences : List String) :
    verifyWithJwks lib now token set issuer audiences = verifyWithJwks lib now token set' issuer audiences := by
  unfold verifyWithJwks
  simp only [hk, hf]

section Runs

variable {o : OidcVerifier} {cond : History lib → VerifyPool lib → Step lib → Prop} {trace : History lib}
  {p : VerifyPool lib} {n : Nat} {token : String} {q : Verifier lib (Except VerifyError IdentityClaims)}

theorem run_stage (h : (verifier lib o).Run cond Fresh trace p) (hn : p.threads[n]? = some ⟨token, q⟩) :
    Stage o token (trace.own n) q := verify_stage ((System.run_leads h).1 n _ hn)

/-- A fetch that succeeded answered with the set that was served. -/
theorem fetch_served (h : (verifier lib o).Run cond Fresh trace p) {s s' : Keys lib} {set : JwkSet lib}
    (hx : fetch s (.ok set) s' ∈ trace.own n) : set = s.served := by
  obtain ⟨i, hi⟩ := System.run_own_started h hx
  obtain ⟨q, hn⟩ := System.run_info h hi
  exact (System.run_sem h hn _ hx).1 set rfl

/-- A set that is written was fetched by the same verification. -/
theorem write_fetched (h : (verifier lib o).Run cond Fresh trace p) {set : JwkSet lib} {k}
    (hn : p.threads[n]? = some ⟨token, .call (.writeJwks set) k⟩) : ∃ s s', fetch s (.ok set) s' ∈ trace.own n := by
  have hs := run_stage h hn
  generalize trace.own n = l at hs
  cases hs with
  | checked hk hc => exact ⟨_, _, List.mem_cons_of_mem _ List.mem_cons_self⟩

theorem served_extends (h : (verifier lib o).Run Gains Fresh trace p) :
    ∀ m ∈ trace, Extends m.before.served p.shared.served := by
  induction h with
  | init s _ => exact fun m hm => by cases hm
  | @step trace p p' m hr hc hs ih =>
    have hstep : Extends p.shared.served p'.shared.served := by
      cases hs with
      | start i => exact .refl _
      | env e s' he => cases e with
        | rotate set =>
          rw [show s' = _ from he]
          exact hc set rfl
        | tick now =>
          rw [show s' = _ from he]
          exact .refl _
      | act n i c k b s' hn hsem =>
        cases c with
        | writeJwks set =>
          rw [show s' = _ from hsem]
          exact .refl _
        | _ =>
          rw [show s' = _ from hsem.2]
          exact .refl _
    intro x hx
    rcases List.mem_cons.mp hx with rfl | hx
    · rw [System.happens_before hs]
      exact hstep
    · exact (ih x hx).trans hstep

/-- What is cached is part of what is served. -/
theorem cached_extends (h : (verifier lib o).Run Gains Fresh trace p) :
    ∀ set, p.shared.cached = some set → Extends set p.shared.served := by
  induction h with
  | init s hs =>
    intro set hset
    rw [show s.cached = none from hs] at hset
    cases hset
  | @step trace p p' m hr hc hs ih =>
    intro set hset
    cases hs with
    | start i => exact ih set hset
    | env e s' he => cases e with
      | rotate set' =>
        rw [show s' = _ from he] at hset ⊢
        exact (ih set hset).trans (hc set' rfl)
      | tick now =>
        rw [show s' = _ from he] at hset ⊢
        exact ih set hset
    | act n i c k b s' hn hsem =>
      cases c with
      | writeJwks set' =>
        rw [show s' = _ from hsem] at hset ⊢
        cases hset
        obtain ⟨u, u', hx⟩ := write_fetched hr hn
        rw [fetch_served hr hx]
        exact served_extends hr _ (Trace.mem_own.mp hx)
      | _ =>
        rw [show s' = _ from hsem.2] at hset ⊢
        exact ih set hset

/-- A set that a verification read from the cache was part of what was served then. -/
theorem read_extends (h : (verifier lib o).Run Gains Fresh trace p) {s s' : Keys lib} {cached : Option (JwkSet lib)}
    (hx : cacheRead s cached s' ∈ trace.own n) {set : JwkSet lib} (hc : cached = some set) : Extends set s.served := by
  obtain ⟨i, hi⟩ := System.run_own_started h hx
  obtain ⟨q, hn⟩ := System.run_info h hi
  have hread : cached = s.cached := (System.run_sem h hn _ hx).1
  obtain ⟨early, r, r', hr, _, hs⟩ := System.run_mem h (Trace.mem_own.mp hx)
  have hshared : s = r.shared := System.happens_before hs
  rw [hshared] at hread ⊢
  exact cached_extends hr set (hread.symm.trans hc)

/-- A call agrees with the plain check against a set served while it ran; or it found
    its key id not cached and its fetch failed; or its bearer has no key id, and it made
    no call at all. -/
inductive Agrees (o : OidcVerifier) (trace : History lib) (n : Nat) (token : String) :
    Except VerifyError IdentityClaims → Prop
  | plain {s t : Keys lib} : trace.During n s → trace.During n t →
      Agrees o trace n token (verifyWithJwks lib t.clock token s.served o.issuer o.audiences)
  | unavailable {kid : String} {s s' u u' : Keys lib} {m : String} : headerKid lib token = .ok kid →
      cacheRead s s.cached s' ∈ trace.own n → cachedFor lib kid s.cached = none →
      fetch u (.error m) u' ∈ trace.own n → Agrees o trace n token (.error (.jwks m))
  | malformed {m : String} : headerKid lib token = .error (.malformed m) → trace.own n = [] →
      Agrees o trace n token (.error (.malformed m))

theorem headerKid_error {e : VerifyError} (h : headerKid lib token = .error e) : ∃ m, e = .malformed m := by
  unfold headerKid at h
  split at h
  · cases h
    exact ⟨_, rfl⟩
  · split at h
    · cases h
      exact ⟨_, rfl⟩
    · cases h

/-- A read of the clock, with what it tells. -/
theorem clock_read (h : (verifier lib o).Run cond Fresh trace p) (hn : p.threads[n]? = some ⟨token, q⟩)
    {t t' : Keys lib} {now : Nat} (hx : clockRead t now t' ∈ trace.own n) : now = t.clock :=
  (System.run_sem h hn _ hx).1

theorem verify_agrees {r : Except VerifyError IdentityClaims} (h : (verifier lib o).Run Gains Fresh trace p)
    (hn : p.threads[n]? = some ⟨token, .ret r⟩) : Agrees o trace n token r := by
  have hstage := run_stage h hn
  generalize hl : trace.own n = l at hstage
  have hmem : ∀ x ∈ l, x ∈ trace.own n := by
    rw [hl]
    exact fun x hx => hx
  cases hstage with
  | malformed hk =>
    obtain ⟨m, rfl⟩ := headerKid_error hk
    exact .malformed hk hl
  | hitDone hk hc =>
    -- the cached key is the served one
    obtain ⟨hcached, hsome⟩ := cachedFor_some hc
    have hread := hmem _ List.mem_cons_self
    have hclock := hmem _ (List.mem_cons_of_mem _ List.mem_cons_self)
    obtain ⟨jwk, hj⟩ := Option.isSome_iff_exists.mp hsome
    have hserved := read_extends h hread hcached _ jwk hj
    rw [verifyWithJwks_congr hk (hj.trans hserved.symm), clock_read h hn hclock]
    exact .plain (System.run_during h hread) (System.run_during h hclock)
  | failed hk hc =>
    have hread := hmem _ List.mem_cons_self
    have hcached := (System.run_sem h hn _ hread).1
    dsimp only at hcached
    rw [hcached] at hread hc
    exact .unavailable hk hread hc (hmem _ (List.mem_cons_of_mem _ List.mem_cons_self))
  | installed hk hc =>
    have hfetch := hmem _ (List.mem_cons_of_mem _ List.mem_cons_self)
    have hclock := hmem _ (List.mem_cons_of_mem _ (List.mem_cons_of_mem _ List.mem_cons_self))
    rw [fetch_served h hfetch, clock_read h hn hclock]
    exact .plain (System.run_during h hfetch) (System.run_during h hclock)

/-- A bearer with no key id ends the call before its first access. -/
theorem malformed_first (h : (verifier lib o).Run cond Fresh trace p) (hn : p.threads[n]? = some ⟨token, q⟩)
    {e : VerifyError} (hk : headerKid lib token = .error e) :
    (∃ m, e = .malformed m) ∧ trace.own n = [] ∧ q = .ret (.error e) := by
  refine ⟨headerKid_error hk, ?_⟩
  have hstage := run_stage h hn
  generalize trace.own n = l at hstage
  cases hstage with
  | malformed hk' =>
    rw [hk] at hk'
    cases hk'
    exact ⟨rfl, rfl⟩
  | _ hk' =>
    rw [hk] at hk'
    cases hk'

/-- A call that knows no key of its token's id has just fetched a set without it. -/
theorem unknown_fetched {kid : String} (h : (verifier lib o).Run cond Fresh trace p)
    (hn : p.threads[n]? = some ⟨token, .ret (.error (.unknownKid kid))⟩) :
    ∃ s s', fetch s (.ok s.served) s' ∈ trace.own n ∧ s.served.find kid = none := by
  have unknown : ∀ {now : Nat} {set : JwkSet lib} {issuer : String} {audiences : List String},
      verifyWithJwks lib now token set issuer audiences = .error (.unknownKid kid) →
      headerKid lib token = .ok kid ∧ set.find kid = none := by
    intro now set issuer audiences hv
    unfold verifyWithJwks at hv
    split at hv
    · rename_i e hk
      obtain ⟨m, rfl⟩ := headerKid_error hk
      cases hv
    · rename_i kid' hk
      split at hv
      · rename_i hf
        cases hv
        exact ⟨hk, hf⟩
      · split at hv
        · cases hv
        · split at hv <;> cases hv
  have hstage := run_stage h hn
  generalize hl : trace.own n = l at hstage
  generalize hr : (Except.error (VerifyError.unknownKid kid) : Except VerifyError IdentityClaims) = r at hstage
  cases hstage with
  | malformed hk =>
    obtain ⟨m, rfl⟩ := headerKid_error hk
    cases hr
  | failed => cases hr
  | hitDone hk hc =>
    obtain ⟨hk', hf⟩ := unknown hr.symm
    rw [hk] at hk'
    cases hk'
    have hsome := (cachedFor_some hc).2
    rw [hf] at hsome
    cases hsome
  | @installed _ s s' u u' t t' w w' cached set now hk hc =>
    obtain ⟨_, hf⟩ := unknown hr.symm
    have hfetch : fetch u (.ok set) u' ∈ trace.own n := by
      rw [hl]
      exact List.mem_cons_of_mem _ List.mem_cons_self
    have hset := fetch_served h hfetch
    subst hset
    exact ⟨u, u', List.mem_cons_of_mem _ List.mem_cons_self, hf⟩

/-- A failed fetch leaves the cache as it is, and the call that made it never writes. -/
theorem failed_leaves (h : (verifier lib o).Run cond Fresh trace p) (hn : p.threads[n]? = some ⟨token, q⟩)
    {s s' : Keys lib} {m : String} (hx : fetch s (.error m) s' ∈ trace.own n) :
    ∀ y ∈ trace.own n, y.after = y.before := by
  have hsem := System.run_sem h hn
  have hstage := run_stage h hn
  generalize trace.own n = l at hstage hx hsem
  cases hstage with
  | failed hk hc =>
    intro y hy
    rcases List.mem_cons.mp hy with rfl | hy'
    · exact (hsem _ hy).2
    · rw [List.mem_singleton] at hy'
      subst hy'
      exact (hsem _ hy).2
  | _ => simp at hx

end Runs

/-- With a provider that only gains keys, in every run: every call that is done agrees
    with the plain check; a bearer with no key id is refused before any access; a key id
    is unknown only to a set just fetched; and a failed fetch leaves the cache alone. -/
theorem cached_verify_agrees (lib : Jwt) (o : OidcVerifier) :
    (∀ trace p n token r, (verifier lib o).Run Gains Fresh trace p → p.threads[n]? = some ⟨token, .ret r⟩ →
      Agrees o trace n token r) ∧
    (∀ trace p n token q e, (verifier lib o).Run Gains Fresh trace p → p.threads[n]? = some ⟨token, q⟩ →
      headerKid lib token = .error e → (∃ m, e = .malformed m) ∧ trace.own n = [] ∧ q = .ret (.error e)) ∧
    (∀ trace p n token kid, (verifier lib o).Run Gains Fresh trace p →
      p.threads[n]? = some ⟨token, .ret (.error (.unknownKid kid))⟩ →
      ∃ s s', fetch s (.ok s.served) s' ∈ trace.own n ∧ s.served.find kid = none) ∧
    ∀ trace p n token q s m s', (verifier lib o).Run Gains Fresh trace p → p.threads[n]? = some ⟨token, q⟩ →
      fetch s (.error m) s' ∈ trace.own n → ∀ y ∈ trace.own n, y.after = y.before :=
  ⟨fun _ _ _ _ _ h hn => verify_agrees h hn, fun _ _ _ _ _ _ h hn hk => malformed_first h hn hk,
    fun _ _ _ _ _ h hn => unknown_fetched h hn, fun _ _ _ _ _ _ _ _ h hn hx => failed_leaves h hn hx⟩

/-- A token signed with the first of the provider's keys. -/
def firstToken : Entry where
  token := "eyJ.first.sig"
  header := { alg := .rs256, kid := some "first" }
  payload :=
    { iss := .parsed (.single "https://idp"), aud := .parsed (.single "lore"), exp := .parsed 2000000000
      identity := some { sub := "alice", exp := 2000000000 } }
  signer := "first-key"

/-- The provider's set with the first key, and the set once it has a second. -/
def firstSet : JwkSet (ofBook [firstToken]) := ⟨[(⟨some "first", "first-key", .rsa⟩ : BookJwk)]⟩

def bothSet : JwkSet (ofBook [firstToken]) :=
  ⟨[(⟨some "first", "first-key", .rsa⟩ : BookJwk), (⟨some "second", "second-key", .rsa⟩ : BookJwk)]⟩

def loreVerifier : OidcVerifier := ⟨"https://idp", ["lore"]⟩

/-- One verification finds the cache empty and fetches, another's fetch fails, and the
    provider gains a key. Then the first writes the older set, and a third call is answered
    from it; a fourth has no token at all. -/
theorem cached_verify_agrees_gained : ∃ trace p,
    (verifier (ofBook [firstToken]) loreVerifier).Run Gains Fresh trace p ∧
    p.shared.cached = some firstSet ∧ p.shared.served = bothSet ∧
    p.threads[2]? = some ⟨firstToken.token, .ret (.ok { sub := "alice", exp := 2000000000 })⟩ ∧
    Agrees loreVerifier trace 2 firstToken.token (.ok { sub := "alice", exp := 2000000000 }) ∧
    (∀ y ∈ trace.own 1, y.after = y.before) ∧ trace.own 3 = [] := by
  let empty : Keys (ofBook [firstToken]) := ⟨none, 1000, firstSet, 0⟩
  let gained : Keys (ofBook [firstToken]) := ⟨none, 1000, bothSet, 1⟩
  let written : Keys (ofBook [firstToken]) := ⟨some firstSet, 1000, bothSet, 1⟩
  have finds : callSem .readJwks empty none empty := ⟨rfl, rfl⟩
  have fetches : callSem .fetchJwks empty (.ok firstSet) empty := ⟨fun _ e => by cases e; rfl, rfl⟩
  have fails : callSem .fetchJwks empty (.error "timed out") empty := ⟨fun _ e => (by cases e), rfl⟩
  have gains : changeSem (.rotate bothSet) empty gained := rfl
  have ticks : callSem .now gained (1000 : Nat) gained := ⟨rfl, rfl⟩
  have writes : callSem (.writeJwks firstSet) gained () written := rfl
  have hits : callSem .readJwks written (some firstSet) written := ⟨rfl, rfl⟩
  have accepts : callSem .now written (1000 : Nat) written := ⟨rfl, rfl⟩
  have keeps : Extends firstSet bothSet := by
    intro kid jwk h
    rw [show bothSet = ⟨firstSet.keys ++ [_]⟩ from rfl, JwkSet.find, List.find?_append]
    exact (congrArg (Option.or · _) h).trans rfl
  have h0 : (verifier (ofBook [firstToken]) loreVerifier).Run Gains Fresh [] ⟨empty, []⟩ := .init _ rfl
  have h1 := h0.step _ (fun _ e => by cases e) (.start _ firstToken.token)
  have h2 := h1.step _ (fun _ e => by cases e) (.start _ firstToken.token)
  have h3 := h2.step _ (fun _ e => by cases e) (.act _ 0 _ _ _ _ _ rfl finds)
  have h4 := h3.step _ (fun _ e => by cases e) (.act _ 1 _ _ _ _ _ rfl finds)
  have h5 := h4.step _ (fun _ e => by cases e) (.act _ 0 _ _ _ _ _ rfl fetches)
  have h6 := h5.step _ (fun _ e => by cases e) (.act _ 1 _ _ _ _ _ rfl fails)
  have h7 := h6.step _ (fun _ e => by cases e; exact keeps) (.env _ (Change.rotate bothSet) gained gains)
  have h8 := h7.step _ (fun _ e => by cases e) (.act _ 0 _ _ _ _ _ rfl ticks)
  have h9 := h8.step _ (fun _ e => by cases e) (.act _ 0 _ (VerifyCall.writeJwks firstSet) _ () written rfl writes)
  have h10 := h9.step _ (fun _ e => by cases e) (.start _ firstToken.token)
  have h11 := h10.step _ (fun _ e => by cases e) (.act _ 2 _ _ _ _ _ rfl hits)
  have h12 := h11.step _ (fun _ e => by cases e) (.act _ 2 _ _ _ _ _ rfl accepts)
  have h13 := h12.step _ (fun _ e => by cases e) (.start _ "garbage")
  obtain ⟨agrees, malformed, _, failed⟩ := cached_verify_agrees (ofBook [firstToken]) loreVerifier
  refine ⟨_, _, h13, rfl, rfl, rfl, agrees _ _ _ _ _ h13 rfl, ?_, (malformed _ _ 3 "garbage" _ _ h13 rfl rfl).2.1⟩
  exact failed _ _ 1 firstToken.token _ empty "timed out" empty h13 rfl
    (Trace.mem_own.mpr (by simp))

end Kaguya.Auth.KeyCache
