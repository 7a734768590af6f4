/-
  Kaguya.Auth.KeyRetire — what becomes of a key that the provider retires. A call
  fetches the provider's set in one step and writes it to the cache in another, and the
  write is unconditional: a call that fetched before a rotation may write after one that
  fetched later.

  `InOrder`: a call writes only when no call still holds a set of an earlier version.
  In every run of such steps the cache, once it has a set of some version, holds only
  sets served at that version or later, and a key the set has not is accepted by later
  calls only if the provider serves it again (`retired_in_order`). In other runs the
  retired key may come back: two first verifications around a rotation, the earlier
  fetch written last (`retired_key_returns`).
-/

import Kaguya.Auth.KeyCache

namespace Kaguya.Auth.KeyRetire

open Kaguya.Lib
open Kaguya.Auth.Jwt
open Kaguya.Auth.Verify
open Kaguya.Auth.KeyCache

variable {lib : Jwt}

/-! ## Fetches and writes of a run -/

/-- Thread `n` fetched `set` when the provider was at version `v`. -/
def FetchedAt (trace : History lib) (n : Nat) (set : JwkSet lib) (v : Nat) : Prop :=
  ∃ m ∈ trace, m.did = .called n .fetchJwks (.ok set) ∧ m.before.version = v

/-- Thread `n` wrote `set` to the cache, fetched at version `v`. -/
def Wrote (trace : History lib) (n : Nat) (set : JwkSet lib) (v : Nat) : Prop :=
  ∃ late m early, trace = late ++ m :: early ∧ m.did = .called n (.writeJwks set) () ∧ FetchedAt early n set v

/-- Thread `n` has fetched at version `v` and is not done. -/
def Holding (trace : History lib) (p : VerifyPool lib) (n v : Nat) : Prop :=
  (∃ token q, p.threads[n]? = some ⟨token, q⟩ ∧ ∀ r, q ≠ .ret r) ∧ ∃ set, FetchedAt trace n set v

/-- A call writes only when no call still holds a set of an earlier version. -/
def InOrder (trace : History lib) (p : VerifyPool lib) (m : Step lib) : Prop :=
  ∀ n set v k w, m.did = .called n (.writeJwks set) () → FetchedAt trace n set v → Holding trace p k w → v ≤ w

theorem FetchedAt.cons {trace : History lib} {n v : Nat} {set : JwkSet lib} (h : FetchedAt trace n set v)
    (m : Step lib) : FetchedAt (m :: trace) n set v := by
  obtain ⟨x, hx, hd⟩ := h
  exact ⟨x, List.mem_cons_of_mem _ hx, hd⟩

theorem FetchedAt.append {trace : History lib} {n v : Nat} {set : JwkSet lib} (h : FetchedAt trace n set v)
    (late : History lib) : FetchedAt (late ++ trace) n set v := by
  obtain ⟨x, hx, hd⟩ := h
  exact ⟨x, List.mem_append_right _ hx, hd⟩

theorem Wrote.fetched {trace : History lib} {n v : Nat} {set : JwkSet lib} (h : Wrote trace n set v) :
    FetchedAt trace n set v := by
  obtain ⟨late, m, early, rfl, _, hf⟩ := h
  exact (hf.cons m).append late

theorem Wrote.append {trace : History lib} {n v : Nat} {set : JwkSet lib} (h : Wrote trace n set v)
    (late : History lib) : Wrote (late ++ trace) n set v := by
  obtain ⟨l, m, early, rfl, hd, hf⟩ := h
  exact ⟨late ++ l, m, early, (List.append_assoc _ _ _).symm, hd, hf⟩

theorem fetchedAt_cons {trace : History lib} {n v : Nat} {set : JwkSet lib} {m : Step lib}
    (h : FetchedAt (m :: trace) n set v) :
    FetchedAt trace n set v ∨ (m.did = .called n .fetchJwks (.ok set) ∧ m.before.version = v) := by
  obtain ⟨x, hx, hd⟩ := h
  rcases List.mem_cons.mp hx with rfl | hx
  · exact Or.inr hd
  · exact Or.inl ⟨x, hx, hd⟩

theorem wrote_cons {trace : History lib} {n v : Nat} {set : JwkSet lib} {m : Step lib}
    (h : Wrote (m :: trace) n set v) :
    Wrote trace n set v ∨ (m.did = .called n (.writeJwks set) () ∧ FetchedAt trace n set v) := by
  obtain ⟨late, x, early, e, hd, hf⟩ := h
  cases late with
  | nil =>
    cases e
    exact Or.inr ⟨hd, hf⟩
  | cons y late =>
    cases e
    exact Or.inl ⟨late, x, early, rfl, hd, hf⟩

section Runs

variable {o : OidcVerifier} {cond : History lib → VerifyPool lib → Step lib → Prop} {trace : History lib}
  {p p' : VerifyPool lib} {m : Step lib}

theorem fetchedAt_own {n v : Nat} {set : JwkSet lib} (h : FetchedAt trace n set v) :
    ∃ s s', s.version = v ∧ fetch s (.ok set) s' ∈ trace.own n := by
  obtain ⟨⟨s, d, s'⟩, hm, hd, hv⟩ := h
  dsimp only at hd hv
  subst hd
  exact ⟨s, s', hv, Trace.mem_own.mpr hm⟩

/-- A set that was fetched was served at its version. -/
theorem fetchedAt_served (h : (verifier lib o).Run cond Fresh trace p) {n v : Nat} {set : JwkSet lib}
    (hf : FetchedAt trace n set v) : ∃ m ∈ trace, m.before.version = v ∧ m.before.served = set := by
  obtain ⟨s, s', hv, hx⟩ := fetchedAt_own hf
  exact ⟨_, Trace.mem_own.mp hx, hv, (fetch_served h hx).symm⟩

/-- The provider's version does not fall, and a version has one set. -/
theorem step_version (hs : (verifier lib o).Happens p m p') : p.shared.version ≤ p'.shared.version ∧
    (p.shared.version = p'.shared.version → p.shared.served = p'.shared.served) := by
  cases hs with
  | start i => exact ⟨Nat.le_refl _, fun _ => rfl⟩
  | env e s' he => cases e with
    | rotate set =>
      rw [show s' = _ from he]
      exact ⟨Nat.le_succ _, fun e => absurd e (Nat.succ_ne_self _).symm⟩
    | tick now =>
      rw [show s' = _ from he]
      exact ⟨Nat.le_refl _, fun _ => rfl⟩
  | act n i c k b s' hn hsem => cases c with
    | writeJwks set =>
      rw [show s' = _ from hsem]
      exact ⟨Nat.le_refl _, fun _ => rfl⟩
    | _ =>
      rw [show s' = _ from hsem.2]
      exact ⟨Nat.le_refl _, fun _ => rfl⟩

theorem run_version (h : (verifier lib o).Run cond Fresh trace p) : ∀ m ∈ trace,
    m.before.version ≤ p.shared.version ∧
      (m.before.version = p.shared.version → m.before.served = p.shared.served) := by
  induction h with
  | init s _ => exact fun m hm => by cases hm
  | @step trace p p' m hr hc hs ih =>
    obtain ⟨hle, heq⟩ := step_version hs
    intro x hx
    rcases List.mem_cons.mp hx with rfl | hx
    · rw [System.happens_before hs]
      exact ⟨hle, heq⟩
    · obtain ⟨hle', heq'⟩ := ih x hx
      refine ⟨Nat.le_trans hle' hle, fun e => ?_⟩
      rw [heq' (by omega), heq (by omega)]

/-- Who holds a version after a step held it before, or has just fetched it. -/
theorem holding_step (h : (verifier lib o).Run cond Fresh trace p) (hs : (verifier lib o).Happens p m p') {k w : Nat}
    (hk : Holding (m :: trace) p' k w) : Holding trace p k w ∨ w = p.shared.version := by
  obtain ⟨⟨token, q, hn, hq⟩, set, hf⟩ := hk
  rcases fetchedAt_cons hf with hf | ⟨_, hv⟩
  · obtain ⟨s, s', _, hx⟩ := fetchedAt_own hf
    refine Or.inl ⟨?_, set, hf⟩
    cases hs with
    | env e s' _ => exact ⟨token, q, hn, hq⟩
    | start i =>
      by_cases hlt : k < p.threads.length
      · exact ⟨token, q, (List.getElem?_append_left hlt).symm.trans hn, hq⟩
      · rw [(System.run_leads h).2 k (by omega)] at hx
        cases hx
    | act n i c f b s' hi _ =>
      by_cases e : n = k
      · subst e
        exact ⟨i, _, hi, fun r hr => by cases hr⟩
      · exact ⟨token, q, (List.getElem?_set_ne e).symm.trans hn, hq⟩
  · rw [System.happens_before hs] at hv
    exact Or.inr hv.symm

/-- A step writes the cache, with a set that its call holds, or leaves it. -/
theorem step_cached (h : (verifier lib o).Run cond Fresh trace p) (hs : (verifier lib o).Happens p m p') :
    (∃ n set v, m.did = .called n (.writeJwks set) () ∧ p'.shared.cached = some set ∧ FetchedAt trace n set v ∧
      Holding trace p n v) ∨
    (∀ n set, m.did ≠ .called n (.writeJwks set) ()) ∧ p'.shared.cached = p.shared.cached := by
  cases hs with
  | start i => exact Or.inr ⟨fun _ _ e => (by cases e), rfl⟩
  | env e s' he =>
    refine Or.inr ⟨fun _ _ e => (by cases e), ?_⟩
    cases e <;> rw [show s' = _ from he]
  | act n i c k b s' hn hsem => cases c with
    | writeJwks set =>
      obtain ⟨u, u', hx⟩ := write_fetched h hn
      have hf : FetchedAt trace n set u.version := ⟨_, Trace.mem_own.mp hx, rfl, rfl⟩
      refine Or.inl ⟨n, set, u.version, rfl, ?_, hf, ⟨i, _, hn, fun r hr => by cases hr⟩, set, hf⟩
      rw [show s' = _ from hsem]
    | _ =>
      refine Or.inr ⟨fun _ _ e => (by cases e), ?_⟩
      rw [show s' = _ from hsem.2]

/-- In the runs in order: what is held is of the newest version written or later, and so
    is what is cached. -/
structure Ordered (trace : History lib) (p : VerifyPool lib) : Prop where
  held : ∀ n set v k w, Wrote trace n set v → Holding trace p k w → v ≤ w
  cached : ∀ n set v, Wrote trace n set v →
    ∃ n' set' v', p.shared.cached = some set' ∧ FetchedAt trace n' set' v' ∧ v ≤ v'

theorem wrote_version (h : (verifier lib o).Run cond Fresh trace p) {n v : Nat} {set : JwkSet lib}
    (hw : Wrote trace n set v) : v ≤ p.shared.version := by
  obtain ⟨m, hm, _, rfl⟩ := hw.fetched
  exact (run_version h m hm).1

theorem run_ordered (h : (verifier lib o).Run InOrder Fresh trace p) : Ordered trace p := by
  induction h with
  | init s _ =>
    have none : ∀ {n set v}, ¬ Wrote ([] : History lib) n set v := by
      intro n set v h
      obtain ⟨late, x, early, e, _⟩ := h
      simp at e
    exact ⟨fun _ _ _ _ _ hw => (none hw).elim, fun _ _ _ hw => (none hw).elim⟩
  | @step trace p p' m hr hc hs ih =>
    refine ⟨fun n set v k w hw hk => ?_, fun n set v hw => ?_⟩
    · rcases wrote_cons hw with hw | ⟨hd, hf⟩
      · rcases holding_step hr hs hk with hk | rfl
        · exact ih.held n set v k w hw hk
        · exact wrote_version hr hw
      · rcases holding_step hr hs hk with hk | rfl
        · exact hc n set v k w hd hf hk
        · obtain ⟨x, hx, _, rfl⟩ := hf
          exact (run_version hr x hx).1
    · rcases step_cached hr hs with ⟨n', set', v', hd', hset, hf', hh⟩ | ⟨hno, hsame⟩
      · rcases wrote_cons hw with hw | ⟨hd, hf⟩
        · exact ⟨n', set', v', hset, hf'.cons m, ih.held n set v n' v' hw hh⟩
        · rw [hd] at hd'
          cases hd'
          exact ⟨n, set, v, hset, hf.cons m, Nat.le_refl v⟩
      · rcases wrote_cons hw with hw | ⟨hd, _⟩
        · obtain ⟨n', set', v', hset, hf, hle⟩ := ih.cached n set v hw
          exact ⟨n', set', v', hsame.trans hset, hf.cons m, hle⟩
        · exact absurd hd (hno n set)

/-! ## Retired keys -/

/-- The provider served `set` at version `v` or later. -/
def ServedSince (trace : History lib) (v : Nat) (set : JwkSet lib) : Prop :=
  ∃ m ∈ trace, v ≤ m.before.version ∧ m.before.served = set

/-- From the moment on that a set fetched at version `v` is written, the cache holds only
    sets that were served at `v` or later. -/
def NeverOlder (trace : History lib) : Prop :=
  ∀ late m early n set v, trace = late ++ m :: early → Wrote (m :: early) n set v →
    ∃ set', m.after.cached = some set' ∧ ServedSince (m :: early) v set'

/-- After a set without the key id was written, a call that starts later accepts a token
    signed with it only if the provider served the key id again. -/
def StaysRetired (trace : History lib) (p : VerifyPool lib) : Prop :=
  ∀ late early n set v kid k i token claims, trace = late ++ early → Wrote early n set v → set.find kid = none →
    Trace.Started k i late → p.threads[k]? = some ⟨token, .ret (.ok claims)⟩ → headerKid lib token = .ok kid →
    ∃ m ∈ trace, v < m.before.version ∧ (m.before.served.find kid).isSome

theorem neverOlder (h : (verifier lib o).Run InOrder Fresh trace p) : NeverOlder trace := by
  intro late m early n set v e hw
  subst e
  obtain ⟨q, q', _, _, hs, hr⟩ := System.run_split h
  obtain ⟨n', set', v', hset, hf, hle⟩ := (run_ordered hr).cached n set v hw
  obtain ⟨x, hx, hv, hserved⟩ := fetchedAt_served hr hf
  rw [System.happens_after hs]
  exact ⟨set', hset, x, hx, hv ▸ hle, hserved⟩

/-- One version, one set. -/
theorem version_served (h : (verifier lib o).Run cond Fresh trace p) : ∀ x ∈ trace, ∀ y ∈ trace,
    x.before.version = y.before.version → x.before.served = y.before.served := by
  induction h with
  | init s _ => exact fun x hx => by cases hx
  | @step trace p p' m hr hc hs ih =>
    have hm := System.happens_before hs
    intro x hx y hy e
    rcases List.mem_cons.mp hx with rfl | hx' <;> rcases List.mem_cons.mp hy with rfl | hy'
    · rfl
    · rw [hm] at e ⊢
      exact ((run_version hr y hy').2 e.symm).symm
    · rw [hm] at e ⊢
      exact (run_version hr x hx').2 e
    · exact ih x hx' y hy' e

theorem accepted_find {now : Nat} {token kid issuer : String} {set : JwkSet lib} {audiences : List String}
    {claims : IdentityClaims} (hk : headerKid lib token = .ok kid)
    (h : verifyWithJwks lib now token set issuer audiences = .ok claims) : (set.find kid).isSome := by
  cases hf : set.find kid with
  | some jwk => rfl
  | none =>
    simp only [verifyWithJwks, hk, hf] at h
    cases h

/-- A call that starts late makes its calls in the states that come late. -/
theorem later_state {late early : History lib} (h : (verifier lib o).Run cond Fresh (late ++ early) p) {k : Nat} {i}
    (hs : Trace.Started k i late) {x : VerifyAnswered lib} (hx : x ∈ Trace.own k (late ++ early)) :
    ∃ mid q, mid ⊆ late ∧ (verifier lib o).Run cond Fresh (mid ++ early) q ∧ q.shared = x.before := by
  obtain ⟨late₂, late₁, rfl⟩ := System.later_call h hs hx
  rw [List.append_assoc, List.cons_append] at h
  obtain ⟨q, q', hr, _, hstep, _⟩ := System.run_split h
  exact ⟨late₁, q, fun y hy => List.mem_append_right _ (List.mem_cons_of_mem _ hy), hr,
    (System.happens_before hstep).symm⟩

theorem staysRetired (h : (verifier lib o).Run InOrder Fresh trace p) : StaysRetired trace p := by
  intro late early n set v kid k i token claims e hw hnone hstart hn hkid
  subst e
  -- a set with the key, served at a version no older than the written one's
  have later : ∀ x ∈ late ++ early, v ≤ x.before.version → (x.before.served.find kid).isSome →
      ∃ m ∈ late ++ early, v < m.before.version ∧ (m.before.served.find kid).isSome := by
    intro x hx hle hsome
    refine ⟨x, hx, Nat.lt_of_le_of_ne hle fun e => ?_, hsome⟩
    obtain ⟨y, hy, hv, hserved⟩ := fetchedAt_served h (hw.fetched.append late)
    rw [version_served h x hx y hy (by omega), hserved, hnone] at hsome
    cases hsome
  have hstage := run_stage h hn
  generalize hl : Trace.own k (late ++ early) = l at hstage
  have hmem : ∀ x ∈ l, x ∈ Trace.own k (late ++ early) := by
    rw [hl]
    exact fun x hx => hx
  generalize hr : (Except.ok claims : Except VerifyError IdentityClaims) = r at hstage
  cases hstage with
  | malformed => cases hr
  | failed => cases hr
  | @hitDone kid' s s' t t' cached set' now hk hc =>
    rw [hkid] at hk
    cases hk
    have hread := hmem _ List.mem_cons_self
    obtain ⟨mid, q, hsub, hq, hshared⟩ := later_state h hstart hread
    obtain ⟨n', set₂, v', hset, hf, hle⟩ := (run_ordered hq).cached n set v (hw.append mid)
    obtain ⟨hcached, hsome⟩ := cachedFor_some hc
    -- what it read from the cache is the set held there
    have hs : cached = s.cached := (System.run_sem h hn _ hread).1
    rw [show q.shared = s from hshared, ← hs, hcached] at hset
    cases hset
    obtain ⟨x, hx, hv, hserved⟩ := fetchedAt_served hq hf
    have hx' : x ∈ late ++ early := by
      rcases List.mem_append.mp hx with hx | hx
      · exact List.mem_append_left _ (hsub hx)
      · exact List.mem_append_right _ hx
    exact later x hx' (hv ▸ hle) (hserved ▸ hsome)
  | @installed kid' s s' u u' t t' w w' cached set' now hk hc =>
    rw [hkid] at hk
    cases hk
    have hfetch := hmem _ (List.mem_cons_of_mem _ List.mem_cons_self)
    obtain ⟨mid, q, _, hq, hshared⟩ := later_state h hstart hfetch
    have hle := wrote_version hq (hw.append mid)
    rw [hshared] at hle
    have hsome := accepted_find hkid hr.symm
    rw [fetch_served h hfetch] at hsome
    exact later _ (Trace.mem_own.mp hfetch) hle hsome

end Runs

/-- In every run in order, what was written is never followed by an older set, and a key
    it lacks stays out until the provider serves it again. -/
theorem retired_in_order (lib : Jwt) (o : OidcVerifier) :
    (∀ trace p, (verifier lib o).Run InOrder Fresh trace p → NeverOlder trace) ∧
    ∀ trace p, (verifier lib o).Run InOrder Fresh trace p → StaysRetired trace p :=
  ⟨fun _ _ h => neverOlder h, fun _ _ h => staysRetired h⟩

/-! ## A key that returns -/

/-- The provider's set after the rotation. -/
def secondSet : JwkSet (ofBook [firstToken]) := ⟨[(⟨some "second", "second-key", .rsa⟩ : BookJwk)]⟩

/-- Two verifications find the cache empty. One fetches, the provider rotates, the other
    fetches and writes; then the first writes the retired key back, and a third call
    accepts a token signed with it. -/
theorem retired_key_returns : ¬ ∀ trace p,
    (verifier (ofBook [firstToken]) loreVerifier).Run (fun _ _ _ => True) Fresh trace p →
    NeverOlder trace ∧ StaysRetired trace p := by
  intro h
  let empty : Keys (ofBook [firstToken]) := ⟨none, 1000, firstSet, 0⟩
  let rotated : Keys (ofBook [firstToken]) := ⟨none, 1000, secondSet, 1⟩
  let written : Keys (ofBook [firstToken]) := ⟨some secondSet, 1000, secondSet, 1⟩
  let returned : Keys (ofBook [firstToken]) := ⟨some firstSet, 1000, secondSet, 1⟩
  have finds : callSem .readJwks empty none empty := ⟨rfl, rfl⟩
  have fetches : callSem .fetchJwks empty (.ok firstSet) empty := ⟨fun _ e => by cases e; rfl, rfl⟩
  have fetches' : callSem .fetchJwks rotated (.ok secondSet) rotated := ⟨fun _ e => by cases e; rfl, rfl⟩
  have rotates : changeSem (.rotate secondSet) empty rotated := rfl
  have ticks : callSem .now rotated (1000 : Nat) rotated := ⟨rfl, rfl⟩
  have writes : callSem (.writeJwks secondSet) rotated () written := rfl
  have ticks' : callSem .now written (1000 : Nat) written := ⟨rfl, rfl⟩
  have returns : callSem (.writeJwks firstSet) written () returned := rfl
  have hits : callSem .readJwks returned (some firstSet) returned := ⟨rfl, rfl⟩
  have accepts : callSem .now returned (1000 : Nat) returned := ⟨rfl, rfl⟩
  have h0 : (verifier (ofBook [firstToken]) loreVerifier).Run (fun _ _ _ => True) Fresh [] ⟨empty, []⟩ := .init _ rfl
  have h1 := h0.step _ trivial (.start _ firstToken.token)
  have h2 := h1.step _ trivial (.start _ firstToken.token)
  have h3 := h2.step _ trivial (.act _ 0 _ _ _ _ _ rfl finds)
  have h4 := h3.step _ trivial (.act _ 1 _ _ _ _ _ rfl finds)
  have h5 := h4.step _ trivial (.act _ 0 _ _ _ _ _ rfl fetches)
  have h6 := h5.step _ trivial (.env _ (Change.rotate secondSet) rotated rotates)
  have h7 := h6.step _ trivial (.act _ 1 _ _ _ _ _ rfl fetches')
  have h8 := h7.step _ trivial (.act _ 1 _ _ _ _ _ rfl ticks)
  have h9 := h8.step _ trivial (.act _ 1 _ (VerifyCall.writeJwks secondSet) _ () written rfl writes)
  have h10 := h9.step _ trivial (.act _ 0 _ _ _ _ _ rfl ticks')
  have h11 := h10.step _ trivial (.act _ 0 _ (VerifyCall.writeJwks firstSet) _ () returned rfl returns)
  have h12 := h11.step _ trivial (.start _ firstToken.token)
  have h13 := h12.step _ trivial (.act _ 2 _ _ _ _ _ rfl hits)
  have h14 := h13.step _ trivial (.act _ 2 _ _ _ _ _ rfl accepts)
  -- the first key was served at version 0 only
  obtain ⟨m, hm, hv, _⟩ := (h _ _ h14).2 [_, _, _, _, _] _ 1 secondSet 1 "first" 2 firstToken.token firstToken.token
    { sub := "alice", exp := 2000000000 } rfl
    ⟨[], _, _, rfl, rfl, _, List.mem_cons_of_mem _ List.mem_cons_self, rfl, rfl⟩ rfl
    ⟨_, List.mem_cons_of_mem _ (List.mem_cons_of_mem _ List.mem_cons_self), rfl⟩ rfl rfl
  have hle : m.before.version ≤ 1 := (run_version h14 m hm).1
  omega

end Kaguya.Auth.KeyRetire
