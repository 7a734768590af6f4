/-
  Kaguya.Auth.SessionRuns — what holds of device logins in every run. The table is what
  was issued and not removed, up to what has expired (`TableIs`), so a lookup answers by
  the call that issued its code, the client state, the time and the removals alone
  (`resolve_iff`): a sweep changes no answer. Hence a `GetAuthSession` polls only what
  the `StartAuthSession` that issued its code was given, for a caller with the same
  client state, within the time to live (`poll_bound`), and no more once a call for the
  code has ended (`poll_ended`).

  Calls with a pair that no `StartAuthSession` issued look up nothing and touch nothing:
  without them the run is the same for every other call (`purge`).
-/

import Kaguya.Auth.Sessions

namespace Kaguya.Auth.Sessions

open Kaguya.Lib
open Kaguya.Auth.Jwt
open Kaguya.Auth.Service
open Kaguya.Auth.Verify (VerifyError Unicode)

/-! ## What is issued -/

/-- The step inserts the session under the code. -/
def Inserts (m : Step) (code : String) (s : Session) : Prop :=
  ∃ n ttl, m.did = .called n (.insertSession code s.deviceCode s.tokenEndpoint s.clientState ttl) () ∧
    s.expiresAt = m.after.now + ttl * second

def Removes (m : Step) (code : String) : Prop := ∃ n, m.did = .called n (.removeSession code) ()

/-- The session was inserted under the code, and the code not removed since. -/
def Issued (trace : History) (code : String) (s : Session) : Prop :=
  ∃ late m early, trace = late ++ m :: early ∧ Inserts m code s ∧ ∀ x ∈ late, ¬ Removes x code

/-- A session was inserted under the code, and the code removed since. -/
def Removed (trace : History) (code : String) : Prop :=
  ∃ late m early, trace = late ++ m :: early ∧ Removes m code ∧ ∃ x ∈ early, ∃ s, Inserts x code s

theorem inserts_unique {m : Step} {code code' : String} {s s' : Session} (h : Inserts m code s)
    (h' : Inserts m code' s') : code' = code ∧ s' = s := by
  obtain ⟨n, ttl, hd, he⟩ := h
  obtain ⟨n', ttl', hd', he'⟩ := h'
  rw [hd] at hd'
  obtain ⟨dc, endpoint, state, expiresAt⟩ := s
  obtain ⟨dc', endpoint', state', expiresAt'⟩ := s'
  cases hd'
  dsimp only at he he'
  rw [he, he']
  exact ⟨rfl, rfl⟩

theorem inserts_not_removes {m : Step} {code code' : String} {s : Session} (h : Inserts m code s) :
    ¬ Removes m code' := by
  intro h'
  obtain ⟨n, ttl, hd, _⟩ := h
  obtain ⟨n', hd'⟩ := h'
  rw [hd] at hd'
  cases hd'

theorem removes_unique {m : Step} {code code' : String} (h : Removes m code) (h' : Removes m code') : code' = code := by
  obtain ⟨n, hd⟩ := h
  obtain ⟨n', hd'⟩ := h'
  rw [hd] at hd'
  cases hd'
  rfl

theorem issued_cons {trace : History} {m : Step} {code : String} {s : Session} :
    Issued (m :: trace) code s ↔ Inserts m code s ∨ (Issued trace code s ∧ ¬ Removes m code) := by
  constructor
  · intro h
    obtain ⟨late, x, early, e, hi, hr⟩ := h
    cases late with
    | nil =>
      cases e
      exact Or.inl hi
    | cons y late =>
      cases e
      exact Or.inr ⟨⟨late, x, early, rfl, hi, fun z hz => hr z (List.mem_cons_of_mem _ hz)⟩, hr m List.mem_cons_self⟩
  · intro h
    rcases h with hi | ⟨⟨late, x, early, rfl, hi, hr⟩, hm⟩
    · exact ⟨[], m, trace, rfl, hi, fun x hx => by cases hx⟩
    · refine ⟨m :: late, x, early, rfl, hi, fun y hy => ?_⟩
      rcases List.mem_cons.mp hy with rfl | hy
      · exact hm
      · exact hr y hy

theorem removed_cons {trace : History} {m : Step} {code : String} (h : Removed (m :: trace) code) :
    Removed trace code ∨ Removes m code := by
  obtain ⟨late, x, early, e, hr, hi⟩ := h
  cases late with
  | nil =>
    cases e
    exact Or.inr hr
  | cons y late =>
    cases e
    exact Or.inl ⟨late, x, early, rfl, hr, hi⟩

theorem Removed.append {trace : History} {code : String} (h : Removed trace code) (late : History) :
    Removed (late ++ trace) code := by
  obtain ⟨l, x, early, rfl, hr, hi⟩ := h
  exact ⟨late ++ l, x, early, (List.append_assoc _ _ _).symm, hr, hi⟩

theorem Issued.inserted {trace : History} {code : String} {s : Session} (h : Issued trace code s) :
    ∃ x ∈ trace, Inserts x code s := by
  obtain ⟨late, m, early, rfl, hi, _⟩ := h
  exact ⟨m, List.mem_append_right _ List.mem_cons_self, hi⟩

/-! ## What a step does to the table -/

/-- The step leaves the table and time after it: an insert, a lookup, a removal, or
    nothing to the table. -/
inductive Changes (s : State) (m : Step) (s' : State) : Prop
  | insert {code : String} {ses : Session} {swept : Nat} : Inserts m code ses → swept ≤ s'.now →
      s'.table = (sweep swept s.table).insert code ses → Changes s m s'
  | resolve {n : Nat} {code state : String} {swept : Nat} :
      m.did = .called n (.resolveSession code state) (lookup s'.now s'.table code state) → swept ≤ s'.now →
      s'.table = sweep swept s.table → Changes s m s'
  | remove {code : String} : Removes m code → s'.table = s.table.remove code → Changes s m s'
  | other : (∀ code ses, ¬ Inserts m code ses) → (∀ code, ¬ Removes m code) → s'.table = s.table → Changes s m s'

variable {U : Unicode} {a : AuthConfig} {cond : History → LoginPool → Step → Prop} {trace : History}
  {p p' : LoginPool} {m : Step}

theorem step_changes (hs : (logins U a).Happens p m p') :
    p.shared.now ≤ p'.shared.now ∧ Changes p.shared m p'.shared := by
  cases hs with
  | start i => exact ⟨Nat.le_refl _, .other (by simp [Inserts]) (by simp [Removes]) rfl⟩
  | env now s' he =>
    obtain ⟨hle, rfl⟩ := he
    exact ⟨hle, .other (by simp [Inserts]) (by simp [Removes]) rfl⟩
  | act n i c k b s' hn hsem =>
    cases c with
    | insertSession code dc endpoint state ttl =>
      obtain ⟨swept, h₁, h₂, ht⟩ := hsem
      have hi : Inserts ⟨p.shared, _, s'⟩ code ⟨dc, endpoint, state, s'.now + ttl * second⟩ := ⟨n, ttl, rfl, rfl⟩
      exact ⟨Nat.le_trans h₁ h₂, .insert hi h₂ ht⟩
    | resolveSession code state =>
      obtain ⟨swept, h₁, h₂, ht⟩ := hsem
      obtain ⟨hb, ht⟩ := Prod.mk.inj ht
      have hd : (Did.called n (.resolveSession code state) b : Did Login Nat Call Call.Ans) =
          .called n (.resolveSession code state) (lookup s'.now s'.table code state) := by rw [hb, ht]
      exact ⟨Nat.le_trans h₁ h₂, .resolve hd h₂ ht⟩
    | removeSession code =>
      rw [show s' = _ from hsem]
      exact ⟨Nat.le_refl _, .remove ⟨n, rfl⟩ rfl⟩
    | _ =>
      rw [show s' = _ from hsem]
      exact ⟨Nat.le_refl _, .other (by simp [Inserts]) (by simp [Removes]) rfl⟩

/-! ## The code of a session is one call's -/

/-- Thread `k` is the `StartAuthSession` that issued the code: its calls, and the session
    it inserted. -/
def Issues (trace : History) (k : Nat) (code state : String) (disco : Discovery) (resp : DeviceCodeResponse)
    (w w' : State) : Prop :=
  trace.Started k (.start state) ∧ ∃ a a' b b' c c', trace.own k = [⟨a, .discovery, .ok disco, a'⟩,
    ⟨b, .postDevice disco.deviceAuthorizationEndpoint, .ok resp, b'⟩, ⟨c, .randomId, code, c'⟩,
    ⟨w, .insertSession code resp.deviceCode disco.tokenEndpoint state (sessionTtl resp.expiresIn), (), w'⟩]

theorem run_start_stage (h : (logins U a).Run cond Empty trace p) {n : Nat} {state : String} {q}
    (hn : p.threads[n]? = some ⟨.start state, q⟩) : StartStage state (trace.own n) q :=
  start_stage (U := U) (a := a) ((System.run_leads h).1 n _ hn)

theorem run_get_stage (h : (logins U a).Run cond Empty trace p) {n : Nat} {code state : String} {q}
    (hn : p.threads[n]? = some ⟨.get code state, q⟩) : GetStage code state (trace.own n) q :=
  get_stage (U := U) (a := a) ((System.run_leads h).1 n _ hn)

/-- A call that inserts is the `StartAuthSession` that issues the code. -/
theorem insert_issues (h : (logins U a).Run cond Empty trace p) {k ttl : Nat} {code dc endpoint state : String}
    {w w' : State} (hx : ⟨w, .insertSession code dc endpoint state ttl, (), w'⟩ ∈ trace.own k) :
    ∃ disco resp, Issues trace k code state disco resp w w' ∧ dc = resp.deviceCode ∧
      endpoint = disco.tokenEndpoint ∧ ttl = sessionTtl resp.expiresIn := by
  obtain ⟨i, hi⟩ := System.run_own_started h hx
  obtain ⟨q, hn⟩ := System.run_info h hi
  cases i with
  | get c st =>
    have hstage := run_get_stage h hn
    generalize trace.own k = l at hx hstage
    cases hstage with
    | begun => cases hx
    | missed => simp at hx
    | found hl _ _ =>
      rcases List.mem_cons.mp hx with e | hx
      · cases e
      · exact (hl _ hx).elim
  | start st =>
    have hstage := run_start_stage h hn
    generalize hl : trace.own k = l at hx hstage
    cases hstage with
    | early hl _ => exact (hl _ hx trivial).elim
    | inserting => simp at hx
    | inserted =>
      simp only [List.mem_cons, Answered.mk.injEq, reduceCtorEq, false_and, and_false, false_or, List.not_mem_nil,
        or_false, Call.insertSession.injEq] at hx
      obtain ⟨rfl, ⟨rfl, rfl, rfl, rfl, rfl⟩, _, rfl⟩ := hx
      exact ⟨_, _, ⟨hi, _, _, _, _, _, _, hl⟩, rfl, rfl, rfl⟩

/-- With fresh codes a code is drawn by one call. -/
theorem fresh_one (h : (logins U a).Run FreshCodes Empty trace p) {code : String} : ∀ x ∈ trace, ∀ y ∈ trace,
    ∀ n k, x.did = .called n .randomId code → y.did = .called k .randomId code → n = k := by
  induction h with
  | init s _ => exact fun x hx => by cases hx
  | @step trace p p' m hr hc hs ih =>
    intro x hx y hy n k hxn hyk
    rcases List.mem_cons.mp hx with rfl | hx' <;> rcases List.mem_cons.mp hy with rfl | hy'
    · rw [hxn] at hyk
      cases hyk
      rfl
    · exact absurd hyk (hc n code hxn y hy' k)
    · exact absurd hxn (hc k code hyk x hx' n)
    · exact ih x hx' y hy' n k hxn hyk

theorem own_drawn {n : Nat} {code : String} {s s' : State} (h : ⟨s, .randomId, code, s'⟩ ∈ trace.own n) :
    ∃ x ∈ trace, x.did = .called n .randomId code := ⟨_, Trace.mem_own.mp h, rfl⟩

theorem inserts_own {x : Step} {code : String} {ses : Session} (hx : x ∈ trace) (hi : Inserts x code ses) :
    ∃ k ttl w w', (⟨w, .insertSession code ses.deviceCode ses.tokenEndpoint ses.clientState ttl, (), w'⟩ :
      LoginAnswered) ∈ trace.own k ∧ ses.expiresAt = w'.now + ttl * second := by
  obtain ⟨w, d, w'⟩ := x
  obtain ⟨k, ttl, hd, hexp⟩ := hi
  dsimp only at hd hexp
  subst hd
  exact ⟨k, ttl, w, w', Trace.mem_own.mpr hx, hexp⟩

/-- A code is inserted once. -/
theorem insert_once (h : (logins U a).Run FreshCodes Empty (m :: trace) p) {code : String} {ses ses' : Session}
    (hi : Inserts m code ses) : ∀ x ∈ trace, ¬ Inserts x code ses' := by
  intro x hx hi'
  obtain ⟨s, d, s'⟩ := m
  obtain ⟨w, d', w'⟩ := x
  obtain ⟨n, ttl, hd, _⟩ := hi
  obtain ⟨k, ttl', hd', _⟩ := hi'
  dsimp only at hd hd'
  subst hd hd'
  let last : Step :=
    ⟨s, .called n (.insertSession code ses.deviceCode ses.tokenEndpoint ses.clientState ttl) (), s'⟩
  have hold := Trace.own_of_mem hx
  have hk := Trace.own_of_mem (List.mem_cons_of_mem last hx)
  have hn := Trace.own_of_mem (List.mem_cons_self (a := last) (l := trace))
  -- both inserting calls drew the code, so they are one
  obtain ⟨_, _, ⟨_, _, _, _, _, c, c', hown⟩, _⟩ := insert_issues h hn
  obtain ⟨_, _, ⟨_, _, _, _, _, e, e', hown'⟩, _⟩ := insert_issues h hk
  have hdrawn := @own_drawn _ n code c c' (by rw [hown]; simp)
  have hdrawn' := @own_drawn _ k code e e' (by rw [hown']; simp)
  obtain ⟨y, hy, hyd⟩ := hdrawn
  obtain ⟨z, hz, hzd⟩ := hdrawn'
  obtain rfl := fresh_one h y hy z hz n k hyd hzd
  -- which inserts last
  rw [Trace.own_called] at hown
  obtain ⟨hfirst, _⟩ := @List.append_inj' _ _ [_] [_, _, _] [_] hown rfl
  rw [hfirst] at hold
  simp at hold

/-! ## The table -/

/-- The table is what is issued, but for what has expired; what was removed is gone. -/
structure TableIs (trace : History) (s : State) : Prop where
  issued : ∀ code ses, s.table.get code = some ses → Issued trace code ses
  live : ∀ code ses, Issued trace code ses → s.now < ses.expiresAt → s.table.get code = some ses
  gone : ∀ code, Removed trace code → s.table.get code = none

/-- A step that inserts and removes nothing may drop what has expired. -/
theorem TableIs.swept {s s' : State} (h : TableIs trace s) (hi : ∀ code ses, ¬ Inserts m code ses)
    (hr : ∀ code, ¬ Removes m code) (hle : s.now ≤ s'.now)
    (hsub : ∀ code ses, s'.table.get code = some ses → s.table.get code = some ses)
    (hlive : ∀ code ses, s.table.get code = some ses → s'.now < ses.expiresAt → s'.table.get code = some ses) :
    TableIs (m :: trace) s' where
  issued code ses hget := issued_cons.mpr (Or.inr ⟨h.issued code ses (hsub code ses hget), hr code⟩)
  live code ses his hlt := by
    rcases issued_cons.mp his with hm | ⟨his, _⟩
    · exact absurd hm (hi code ses)
    · exact hlive code ses (h.live code ses his (by omega)) hlt
  gone code hrem := by
    rcases removed_cons hrem with hrem | hm
    · refine Option.eq_none_iff_forall_ne_some.mpr fun ses hget => ?_
      have hsome := hsub code ses hget
      rw [h.gone code hrem] at hsome
      cases hsome
    · exact absurd hm (hr code)

theorem run_table (h : (logins U a).Run FreshCodes Empty trace p) : TableIs trace p.shared := by
  induction h with
  | init s hs =>
    have hnone : ∀ code, s.table.get code = none := fun code => by rw [show s.table = _ from hs, Dict.get_empty]
    refine ⟨fun code ses ht => ?_, fun code ses hi _ => ?_, fun code _ => hnone code⟩
    · rw [hnone] at ht
      cases ht
    · obtain ⟨x, hx, _⟩ := hi.inserted
      cases hx
  | @step trace p p' m hr hc hs ih =>
    obtain ⟨hle, hch⟩ := step_changes hs
    cases hch with
    | @insert code ses swept hi hsw ht =>
      have honce : ∀ ses', ∀ x ∈ trace, ¬ Inserts x code ses' :=
        fun ses' => insert_once (System.Run.step m hr hc hs) hi
      refine ⟨fun c s hget => ?_, fun c s his hlt => ?_, fun c hrem => ?_⟩
      · rw [ht, Dict.get_insert] at hget
        split at hget
        · rename_i e
          cases hget
          exact issued_cons.mpr (Or.inl (e ▸ hi))
        · exact issued_cons.mpr (Or.inr ⟨ih.issued c s (sweep_some.mp hget).1, inserts_not_removes hi⟩)
      · rw [ht]
        rcases issued_cons.mp his with hm | ⟨his, _⟩
        · obtain ⟨rfl, rfl⟩ := inserts_unique hi hm
          exact Dict.get_insert_self _ _ _
        · have hne : c ≠ code := by
            intro e
            obtain ⟨x, hx, hxi⟩ := his.inserted
            exact honce s x hx (e ▸ hxi)
          rw [Dict.get_insert_ne _ _ hne]
          exact sweep_some.mpr ⟨ih.live c s his (by omega), by omega⟩
      · rcases removed_cons hrem with hrem | hm
        · have hne : c ≠ code := by
            intro e
            obtain ⟨_, _, _, rfl, _, x, hx, s, hxi⟩ := hrem
            exact honce s x (List.mem_append_right _ (List.mem_cons_of_mem _ hx)) (e ▸ hxi)
          rw [ht, Dict.get_insert_ne _ _ hne]
          refine Option.eq_none_iff_forall_ne_some.mpr fun s hget => ?_
          have hsome := (sweep_some.mp hget).1
          rw [ih.gone c hrem] at hsome
          cases hsome
        · exact absurd hm (inserts_not_removes hi)
    | @resolve n code state swept hd hsw ht =>
      refine ih.swept (fun c s hi => ?_) (fun c hrem => ?_) hle (fun c s hget => ?_) (fun c s hget hlt => ?_)
      · obtain ⟨n', ttl, hd', _⟩ := hi
        rw [hd] at hd'
        cases hd'
      · obtain ⟨n', hd'⟩ := hrem
        rw [hd] at hd'
        cases hd'
      · rw [ht] at hget
        exact (sweep_some.mp hget).1
      · rw [ht]
        exact sweep_some.mpr ⟨hget, by omega⟩
    | @remove code hrem ht =>
      refine ⟨fun c s hget => ?_, fun c s his hlt => ?_, fun c hrem' => ?_⟩
      · rw [ht, Dict.get_remove] at hget
        split at hget
        · cases hget
        · rename_i hne
          exact issued_cons.mpr (Or.inr ⟨ih.issued c s hget, fun hr => hne (removes_unique hrem hr)⟩)
      · rcases issued_cons.mp his with hm | ⟨his, hnr⟩
        · exact absurd hrem (inserts_not_removes hm)
        · have hne : c ≠ code := fun e => hnr (e ▸ hrem)
          rw [ht, Dict.get_remove_ne _ hne]
          exact ih.live c s his (by omega)
      · rw [ht, Dict.get_remove]
        split
        · rfl
        · rename_i hne
          rcases removed_cons hrem' with hrem' | hm
          · exact ih.gone c hrem'
          · exact absurd (removes_unique hrem hm) hne
    | other hni hnr ht =>
      exact ih.swept hni hnr hle (fun c s hget => ht ▸ hget) (fun c s hget _ => ht ▸ hget)

/-! ## What a lookup answers -/

abbrev looked (s : State) (code state : String) (found : Option (String × String)) (s' : State) : LoginAnswered :=
  ⟨s, .resolveSession code state, found, s'⟩

abbrev polled (s : State) (endpoint deviceCode : String) (r : Except String TokenResponse) (s' : State) :
    LoginAnswered := ⟨s, .postToken endpoint deviceCode, r, s'⟩

/-- A lookup gets the session that was issued under its code and not removed, for the
    client state it was issued with, until it expires. Sweeps play no part. -/
theorem resolve_iff {late early : History} {n : Nat} {code state : String} {b : Option (String × String)} {s s' : State}
    (h : (logins U a).Run FreshCodes Empty (late ++ ⟨s, .called n (.resolveSession code state) b, s'⟩ :: early) p)
    (r : String × String) : b = some r ↔ ∃ ses, Issued early code ses ∧ ses.clientState = state ∧
      s'.now < ses.expiresAt ∧ r = (ses.deviceCode, ses.tokenEndpoint) := by
  obtain ⟨q, q', hr, _, hs, _⟩ := System.run_split h
  obtain ⟨i, k, _, hsem, _⟩ := System.happens_called hs
  have hshared : s = q.shared := System.happens_before hs
  obtain ⟨swept, h₁, h₂, hb⟩ := hsem
  have hb' : b = lookup s'.now (sweep swept s.table) code state := (Prod.mk.inj hb).1
  have htable := run_table hr
  rw [← hshared] at htable
  rw [hb', lookup_some]
  refine exists_congr fun ses => ⟨fun h => ?_, fun h => ?_⟩
  · obtain ⟨hget, hstate, hlt, hr⟩ := h
    exact ⟨htable.issued code ses (sweep_some.mp hget).1, hstate, hlt, hr⟩
  · obtain ⟨hi, hstate, hlt, hr⟩ := h
    exact ⟨sweep_some.mpr ⟨htable.live code ses hi (by omega), by omega⟩, hstate, hlt, hr⟩

/-- A call that polls was given a session by its lookup. -/
theorem poll_found (h : (logins U a).Run cond Empty trace p) {n : Nat} {code state : String}
    (hs : trace.Started n (.get code state)) {s s' : State} {endpoint dc : String} {r : Except String TokenResponse}
    (hx : polled s endpoint dc r s' ∈ trace.own n) :
    ∃ u u', looked u code state (some (dc, endpoint)) u' ∈ trace.own n := by
  obtain ⟨q, hn⟩ := System.run_info h hs
  have hstage := run_get_stage h hn
  generalize trace.own n = l at hx hstage
  cases hstage with
  | begun => cases hx
  | missed => simp at hx
  | found hl _ _ =>
    rcases List.mem_cons.mp hx with e | hx
    · cases e
    · obtain ⟨rfl, rfl⟩ := hl _ hx
      exact ⟨_, _, List.mem_cons_self⟩

theorem sessionTtl_eq (expiresIn : Nat) : sessionTtl expiresIn = min (max expiresIn 60) 600 := by
  unfold sessionTtl
  omega

/-- A poll is of the device code and endpoint that the `StartAuthSession` with the code
    was given, for its client state, and looked up before its time to live had passed. -/
theorem poll_bound (h : (logins U a).Run FreshCodes Empty trace p) {n : Nat} {code state : String}
    (hs : trace.Started n (.get code state)) {s s' : State} {endpoint dc : String} {r : Except String TokenResponse}
    (hx : polled s endpoint dc r s' ∈ trace.own n) :
    ∃ u u' k disco resp w w', looked u code state (some (dc, endpoint)) u' ∈ trace.own n ∧
      Issues trace k code state disco resp w w' ∧ dc = resp.deviceCode ∧ endpoint = disco.tokenEndpoint ∧
      u'.now < w'.now + min (max resp.expiresIn 60) 600 * second := by
  obtain ⟨u, u', hu⟩ := poll_found h hs hx
  obtain ⟨late, early, rfl⟩ := List.append_of_mem (Trace.mem_own.mp hu)
  obtain ⟨ses, his, rfl, hlt, hr⟩ := (resolve_iff h _).mp rfl
  obtain ⟨rfl, rfl⟩ := Prod.mk.inj hr
  obtain ⟨x, hx, hi⟩ := his.inserted
  obtain ⟨k, ttl, w, w', hw, hexp⟩ := inserts_own (List.mem_append_right late (List.mem_cons_of_mem _ hx)) hi
  obtain ⟨disco, resp, hissues, hdc, hendpoint, httl⟩ := insert_issues h hw
  rw [hexp, httl, sessionTtl_eq] at hlt
  exact ⟨u, u', k, disco, resp, w, w', hu, hissues, hdc, hendpoint, hlt⟩

/-- A code is removed after its session was inserted: the call that removes it had looked
    it up. -/
theorem removes_inserted {late early : History} (h : (logins U a).Run FreshCodes Empty (late ++ m :: early) p)
    {code : String} (hm : Removes m code) : Removed (m :: early) code := by
  obtain ⟨q, q', hr, _, hs, _⟩ := System.run_split h
  obtain ⟨t, d, t'⟩ := m
  obtain ⟨n, hd⟩ := hm
  dsimp only at hd
  subst hd
  refine ⟨[], _, early, rfl, ⟨n, rfl⟩, ?_⟩
  obtain ⟨login, k, hn, _, _⟩ := System.happens_called hs
  generalize hq : (Prog.call (.removeSession code) k : Act (Except Status Reply)) = q₀ at hn
  cases login with
  | start state =>
    have hstage := run_start_stage hr hn
    generalize Trace.own n early = l at hstage
    cases hstage with
    | early _ hno => exact (hno _ _ hq.symm trivial).elim
    | inserting => cases hq
    | inserted => cases hq
  | get c state =>
    have hstage := run_get_stage hr hn
    generalize hl : Trace.own n early = l at hstage
    cases hstage with
    | begun => cases hq
    | missed => cases hq
    | @found s s' dc endpoint l q₁ _ hnext _ =>
      obtain rfl : code = c := hnext _ _ hq.symm
      have hx : looked s code state (some (dc, endpoint)) s' ∈ Trace.own n early := hl ▸ List.mem_cons_self
      obtain ⟨l₂, l₁, rfl⟩ := List.append_of_mem (Trace.mem_own.mp hx)
      obtain ⟨ses, his, _⟩ := (resolve_iff hr _).mp rfl
      obtain ⟨x, hx, hi⟩ := his.inserted
      exact ⟨x, List.mem_append_right _ (List.mem_cons_of_mem _ hx), ses, hi⟩

/-- What is looked up has not been removed. -/
theorem found_not_removed {late early : History} {n : Nat} {code state : String} {r : String × String} {s s' : State}
    (h : (logins U a).Run FreshCodes Empty (late ++ ⟨s, .called n (.resolveSession code state) (some r), s'⟩ :: early) p) :
    ¬ Removed early code := by
  intro hrem
  obtain ⟨ses, his, _, hlt, _⟩ := (resolve_iff h _).mp rfl
  obtain ⟨q, _, hq, _, hstep, _⟩ := System.run_split h
  have htable := run_table hq
  have hgone := htable.gone code hrem
  have hle : q.shared.now ≤ s'.now := by
    have := (step_changes hstep).1
    rw [← System.happens_after hstep] at this
    exact this
  rw [htable.live code ses his (by omega)] at hgone
  cases hgone

/-- A call that has ended has removed its code. -/
theorem ended_removed (h : (logins U a).Run FreshCodes Empty trace p) {k : Nat} {code state : String}
    {r : Except Status Reply} (hk : p.threads[k]? = some ⟨.get code state, .ret r⟩) (hr : Ended r) :
    Removed trace code := by
  have hstage := run_get_stage h hk
  generalize hl : trace.own k = l at hstage
  generalize hq : (Prog.ret r : Act (Except Status Reply)) = q at hstage
  cases hstage with
  | begun => cases hq
  | missed hne =>
    cases hq
    exact absurd hr hne
  | found _ _ hrem =>
    obtain ⟨⟨t, c, b, t'⟩, hx, hcall⟩ := hrem r hq.symm hr
    dsimp only at hcall
    subst hcall
    obtain ⟨late, early, rfl⟩ := List.append_of_mem (Trace.mem_own.mp (hl ▸ List.mem_cons_of_mem _ hx))
    exact (removes_inserted h ⟨k, rfl⟩).append late

/-- Once a call for the code has ended, a call that starts later does not poll. -/
theorem poll_ended {late early : History} {q : LoginPool} (h : (logins U a).Run FreshCodes Empty (late ++ early) p)
    (hq : (logins U a).Run FreshCodes Empty early q) {k n : Nat} {code state state' : String} {r : Except Status Reply}
    (hk : q.threads[k]? = some ⟨.get code state', .ret r⟩) (hr : Ended r)
    (hs : Trace.Started n (.get code state) late) :
    ∀ x ∈ Trace.own n (late ++ early), ∀ endpoint dc, x.call ≠ .postToken endpoint dc := by
  intro x hx endpoint dc hcall
  obtain ⟨t, c, b, t'⟩ := x
  dsimp only at hcall
  subst hcall
  -- its lookup came after the removal
  obtain ⟨u, u', hu⟩ := poll_found h (hs.left early) hx
  obtain ⟨late₂, late₁, rfl⟩ := System.later_call h hs hu
  rw [List.append_assoc, List.cons_append] at h
  exact found_not_removed h ((ended_removed hq hk hr).append late₁)

/-! ## Wrong pairs -/

/-- No `StartAuthSession` of the run issued the code for the client state. -/
def Unissued (trace : History) (code state : String) : Prop :=
  ∀ x ∈ trace, ∀ s, Inserts x code s → s.clientState ≠ state

/-- The same time, and the same sessions but for what has expired. -/
def Agree (s t : State) : Prop :=
  t.now = s.now ∧ ∀ code ses, s.now < ses.expiresAt → (s.table.get code = some ses ↔ t.table.get code = some ses)

/-- Of two tables that agree, a call makes two that agree, with one answer. -/
theorem call_agrees {c : Call} {s s' t : State} {b : c.Ans} (h : Agree s t) (hc : callSem c s b s') :
    ∃ t', callSem c t b t' ∧ Agree s' t' := by
  obtain ⟨hnow, htable⟩ := h
  have swept_agree : ∀ {swept now : Nat}, s.now ≤ swept → swept ≤ now → ∀ code ses, now < ses.expiresAt →
      ((sweep swept s.table).get code = some ses ↔ (sweep swept t.table).get code = some ses) := by
    intro swept now h₁ h₂ code ses hlt
    rw [sweep_some, sweep_some, htable code ses (by omega)]
  cases c with
  | insertSession code dc endpoint state ttl =>
    obtain ⟨swept, h₁, h₂, ht⟩ := hc
    refine ⟨⟨insert swept s'.now t.table code dc endpoint state ttl, s'.now⟩, ⟨swept, by omega, h₂, rfl⟩, rfl, ?_⟩
    intro code' ses hlt
    rw [ht]
    unfold insert
    rw [Dict.get_insert, Dict.get_insert]
    by_cases e : code' = code
    · rw [if_pos e, if_pos e]
    · rw [if_neg e, if_neg e]
      exact swept_agree h₁ h₂ code' ses hlt
  | resolveSession code state =>
    obtain ⟨swept, h₁, h₂, ht⟩ := hc
    obtain ⟨hb, ht⟩ := Prod.mk.inj ht
    refine ⟨⟨sweep swept t.table, s'.now⟩, ⟨swept, by omega, h₂, Prod.ext ?_ rfl⟩, rfl, ?_⟩
    · rw [hb]
      refine Option.ext fun r => ?_
      show lookup _ _ _ _ = some r ↔ lookup _ _ _ _ = some r
      rw [lookup_some, lookup_some]
      exact exists_congr fun ses => and_congr_left fun hlt => swept_agree h₁ h₂ code ses hlt.2.1
    · rw [ht]
      exact swept_agree h₁ h₂
  | removeSession code =>
    rw [show s' = _ from hc]
    refine ⟨{ t with table := remove t.table code }, rfl, hnow, fun code' ses hlt => ?_⟩
    unfold remove
    dsimp only
    rw [Dict.get_remove, Dict.get_remove]
    by_cases e : code' = code
    · rw [if_pos e, if_pos e]
    · rw [if_neg e, if_neg e]
      exact htable code' ses hlt
  | _ => exact ⟨t, rfl, by rw [show s' = s from hc]; exact ⟨hnow, htable⟩⟩

/-- The call presents one of the pairs. -/
def Presents (B : String → String → Prop) (login : Login) : Prop := ∃ code state, login = .get code state ∧ B code state

/-- The second run is the first without the calls that present pairs of `B`: those start
    and make no call, and every other call is as far with the same answers. -/
structure Purged (U : Unicode) (a : AuthConfig) (B : String → String → Prop) (trace : History) (p : LoginPool)
    (trace' : History) (p' : LoginPool) : Prop where
  run : (logins U a).Run FreshCodes Empty trace' p'
  agree : Agree p.shared p'.shared
  length : p'.threads.length = p.threads.length
  same : ∀ (n : Nat) t, p.threads[n]? = some t → ¬ Presents B t.info → p'.threads[n]? = some t
  idle : ∀ (n : Nat) t, p.threads[n]? = some t → Presents B t.info → trace'.own n = []
  drawn : ∀ x ∈ trace', ∀ n code, x.did = .called n .randomId code → ∃ y ∈ trace, y.did = x.did

/-- A call with an unissued pair is at its lookup, which finds nothing, or is done. -/
theorem unissued_looks (h : (logins U a).Run FreshCodes Empty trace p) {n : Nat} {code state : String} {c : Call}
    {k : c.Ans → Act (Except Status Reply)} (hn : p.threads[n]? = some ⟨.get code state, .call c k⟩)
    (hu : Unissued trace code state) : c = .resolveSession code state := by
  have hstage := run_get_stage h hn
  generalize hl : trace.own n = l at hstage
  generalize hq : (Prog.call c k : Act (Except Status Reply)) = q at hstage
  cases hstage with
  | begun =>
    cases hq
    rfl
  | missed => cases hq
  | @found s s' dc endpoint l q _ _ _ =>
    have hx : looked s code state (some (dc, endpoint)) s' ∈ trace.own n := hl ▸ List.mem_cons_self
    obtain ⟨late, early, rfl⟩ := List.append_of_mem (Trace.mem_own.mp hx)
    obtain ⟨ses, his, hstate, _⟩ := (resolve_iff h _).mp rfl
    obtain ⟨x, hx, hi⟩ := his.inserted
    exact absurd hstate (hu x (List.mem_append_right _ (List.mem_cons_of_mem _ hx)) ses hi)

/-- A step that draws no other code than the run's keeps the draws among the run's. -/
theorem drawn_cons {trace' : History} {m' : Step}
    (h : ∀ x ∈ trace', ∀ n code, x.did = .called n .randomId code → ∃ y ∈ trace, y.did = x.did)
    (hm : ∀ n code, m'.did = .called n .randomId code → m.did = m'.did) :
    ∀ x ∈ m' :: trace', ∀ n code, x.did = .called n .randomId code → ∃ y ∈ m :: trace, y.did = x.did := by
  intro x hx n code hd
  rcases List.mem_cons.mp hx with rfl | hx
  · exact ⟨m, List.mem_cons_self, hm n code hd⟩
  · obtain ⟨y, hy, hyd⟩ := h x hx n code hd
    exact ⟨y, List.mem_cons_of_mem _ hy, hyd⟩

/-- Time passes in both runs alike; what is swept in one has expired in both. -/
theorem agree_tick {s s' t : State} (h : Agree s t) (hle : s.now ≤ s'.now)
    (hs : ∀ code ses, s'.now < ses.expiresAt → (s'.table.get code = some ses ↔ s.table.get code = some ses)) :
    Agree s' { t with now := s'.now } :=
  ⟨rfl, fun code ses hlt => (hs code ses hlt).trans (h.2 code ses (by omega))⟩

theorem purge (h : (logins U a).Run FreshCodes Empty trace p) {B : String → String → Prop}
    (hB : ∀ code state, B code state → Unissued trace code state) : ∃ trace' p', Purged U a B trace p trace' p' := by
  induction h with
  | init s hs =>
    exact ⟨[], ⟨s, []⟩, .init s hs, ⟨rfl, fun _ _ _ => Iff.rfl⟩, rfl, fun _ _ h _ => h, fun _ _ h => (by cases h),
      fun _ h => (by cases h)⟩
  | @step trace p p' m hr hc hs ih =>
    have hB' : ∀ code state, B code state → Unissued trace code state :=
      fun code state hb x hx => hB code state hb x (List.mem_cons_of_mem _ hx)
    obtain ⟨trace', r, ih⟩ := ih hB'
    cases hs with
    | start login =>
      refine ⟨_, _, ih.run.step _ (fun _ _ e => by cases e) (.start r login), ih.agree, ?_, ?_, ?_, ?_⟩
      · simp [ih.length]
      · intro n t ht hp
        by_cases hn : n < p.threads.length
        · rw [List.getElem?_append_left hn] at ht
          rw [List.getElem?_append_left (by rw [ih.length]; exact hn)]
          exact ih.same n t ht hp
        · rw [List.getElem?_append_right (by omega)] at ht
          rw [List.getElem?_append_right (by rw [ih.length]; omega), ih.length]
          exact ht
      · intro n t ht hp
        rw [Trace.own_started]
        by_cases hn : n < p.threads.length
        · exact ih.idle n t ((List.getElem?_append_left hn).symm.trans ht) hp
        · exact (System.run_leads ih.run).2 n (by rw [ih.length]; omega)
      · exact drawn_cons ih.drawn fun _ _ e => by cases e
    | env now s' he =>
      obtain ⟨hle, rfl⟩ := he
      have hr' : p.shared.now = r.shared.now := ih.agree.1.symm
      refine ⟨_, _, ih.run.step _ (fun _ _ e => by cases e) (.env r now _ ⟨hr' ▸ hle, rfl⟩), ?_, ih.length, ih.same,
        ih.idle, drawn_cons ih.drawn fun _ _ e => by cases e⟩
      exact agree_tick ih.agree hle fun _ _ _ => Iff.rfl
    | act n login c k b s' hn hsem =>
      by_cases hp : Presents B login
      · -- the lookup of a pair left out: in the other run only its time passes
        obtain ⟨code, state, rfl, hb⟩ := hp
        obtain rfl := unissued_looks hr hn (hB' code state hb)
        obtain ⟨swept, h₁, h₂, ht⟩ := hsem
        have htable : s'.table = sweep swept p.shared.table := (Prod.mk.inj ht).2
        have hr' : p.shared.now = r.shared.now := ih.agree.1.symm
        refine ⟨_, _, ih.run.step _ (fun _ _ e => by cases e) (.env r s'.now _ ⟨by omega, rfl⟩), ?_, ?_, ?_, ?_,
          drawn_cons ih.drawn fun _ _ e => by cases e⟩
        · refine agree_tick ih.agree (Nat.le_trans h₁ h₂) fun code ses hlt => ?_
          rw [htable, sweep_some]
          exact and_iff_left (Nat.lt_of_le_of_lt h₂ hlt)
        · rw [List.length_set]
          exact ih.length
        · intro j t hj hp
          by_cases e : n = j
          · subst e
            rw [List.getElem?_set_self (List.getElem?_eq_some_iff.mp hn).1] at hj
            cases hj
            exact absurd ⟨code, state, rfl, hb⟩ hp
          · exact ih.same j t ((List.getElem?_set_ne e).symm.trans hj) hp
        · intro j t hj hp
          rw [Trace.own_moved]
          by_cases e : n = j
          · subst e
            exact ih.idle n _ hn ⟨code, state, rfl, hb⟩
          · exact ih.idle j t ((List.getElem?_set_ne e).symm.trans hj) hp
      · -- any other call is made in both runs, with one answer
        have hn' := ih.same n _ hn hp
        obtain ⟨t', hsem', hagree⟩ := call_agrees ih.agree hsem
        have hfresh : FreshCodes trace' r ⟨r.shared, .called n c b, t'⟩ := by
          intro j code hd x hx i hxd
          obtain ⟨y, hy, hyd⟩ := ih.drawn x hx i code hxd
          exact hc j code hd y hy i (hyd.trans hxd)
        refine ⟨_, _, ih.run.step _ hfresh (.act r n login c k b t' hn' hsem'), hagree, ?_, ?_, ?_,
          drawn_cons ih.drawn fun _ _ _ => rfl⟩
        · rw [List.length_set, List.length_set]
          exact ih.length
        · intro j t hj hp'
          by_cases e : n = j
          · subst e
            rw [List.getElem?_set_self (List.getElem?_eq_some_iff.mp hn).1] at hj
            rw [List.getElem?_set_self (List.getElem?_eq_some_iff.mp hn').1]
            exact hj
          · rw [List.getElem?_set_ne e]
            exact ih.same j t ((List.getElem?_set_ne e).symm.trans hj) hp'
        · intro j t hj hp'
          by_cases e : n = j
          · subst e
            rw [List.getElem?_set_self (List.getElem?_eq_some_iff.mp hn).1] at hj
            cases hj
            exact absurd hp' hp
          · rw [Trace.own_other e]
            exact ih.idle j t ((List.getElem?_set_ne e).symm.trans hj) hp'

/-! ## Bound, short-lived and single-use -/

/-- In every run with fresh codes: a poll is bound to the call that issued its code, its
    client state and its time; no call that starts after one for its code has ended
    polls; a lookup answers by what was issued, the client state, the time and the
    removals of its code; and the calls with pairs that were never issued can be left
    out, at any set of them, without a change to any other call. -/
theorem sessions_bound (U : Unicode) (a : AuthConfig) :
    (∀ trace p n code state s endpoint dc r s', (logins U a).Run FreshCodes Empty trace p →
      Trace.Started n (.get code state) trace → polled s endpoint dc r s' ∈ trace.own n →
      ∃ u u' k disco resp w w', looked u code state (some (dc, endpoint)) u' ∈ trace.own n ∧
        Issues trace k code state disco resp w w' ∧ dc = resp.deviceCode ∧ endpoint = disco.tokenEndpoint ∧
        u'.now < w'.now + min (max resp.expiresIn 60) 600 * second) ∧
    (∀ late early p q (k n : Nat) code state state' r, (logins U a).Run FreshCodes Empty (late ++ early) p →
      (logins U a).Run FreshCodes Empty early q → q.threads[k]? = some ⟨.get code state', .ret r⟩ → Ended r →
      Trace.Started n (.get code state) late →
      ∀ x ∈ Trace.own n (late ++ early), ∀ endpoint dc, x.call ≠ .postToken endpoint dc) ∧
    (∀ late early p n code state b s s',
      (logins U a).Run FreshCodes Empty (late ++ ⟨s, .called n (.resolveSession code state) b, s'⟩ :: early) p →
      ∀ r, b = some r ↔ ∃ ses, Issued early code ses ∧ ses.clientState = state ∧ s'.now < ses.expiresAt ∧
        r = (ses.deviceCode, ses.tokenEndpoint)) ∧
    ∀ trace p B, (logins U a).Run FreshCodes Empty trace p →
      (∀ code state, B code state → Unissued trace code state) → ∃ trace' p', Purged U a B trace p trace' p' :=
  ⟨fun _ _ _ _ _ _ _ _ _ _ h hs hx => poll_bound h hs hx,
    fun _ _ _ _ _ _ _ _ _ _ h hq hk hr hs => poll_ended h hq hk hr hs,
    fun _ _ _ _ _ _ _ _ _ h r => resolve_iff h r, fun _ _ _ h hB => purge h hB⟩

/-! ## One login, with others beside it -/

def provider : Discovery := ⟨"https://idp.example/device", "https://idp.example/token"⟩

def deviceLogin : DeviceCodeResponse := ⟨"device-1", some "https://idp.example/activate", none, 300⟩

def released : TokenResponse := ⟨some "id-token", none, none⟩

def session : Session := ⟨"device-1", "https://idp.example/token", "state", 0 + 300 * second⟩

/-- The state with the login's session. -/
def opened : State := ⟨Dict.empty.insert "code" session, 0⟩

/-- A sweep leaves a table in which nothing has expired. -/
theorem sweep_live {now : Nat} {m : Table} (h : ∀ code s, m.get code = some s → now < s.expiresAt) : sweep now m = m := by
  refine Dict.ext fun code => Option.ext fun s => ?_
  rw [sweep_some]
  exact and_iff_left_of_imp (h code s)

theorem opened_swept : sweep 0 opened.table = opened.table := by
  refine sweep_live fun code s h => ?_
  rw [opened, Dict.get_insert] at h
  split at h <;> cases h
  decide

theorem opened_looked :
    callSem (.resolveSession "code" "state") opened (some ("device-1", "https://idp.example/token")) opened := by
  refine ⟨0, Nat.le_refl _, Nat.le_refl _, ?_⟩
  rw [resolve, opened_swept]
  rfl

/-- A caller opens a login, and comes back for its token; before it another asks for it
    with a state of its own, and after it the caller asks once more. -/
theorem sessions_bound_login : ∃ trace p, (logins Unicode.ascii AuthConfig.lore).Run FreshCodes Empty trace p ∧
    (∃ t, p.threads[2]? = some ⟨.get "code" "state", .ret (.ok (.session (some t)))⟩) ∧
    (∃ u u' k disco resp w w', looked u "code" "state" (some ("device-1", "https://idp.example/token")) u' ∈ trace.own 2 ∧
      Issues trace k "code" "state" disco resp w w' ∧ "device-1" = resp.deviceCode ∧
      "https://idp.example/token" = disco.tokenEndpoint ∧ u'.now < w'.now + min (max resp.expiresIn 60) 600 * second) ∧
    (∀ x ∈ trace.own 3, ∀ endpoint dc, x.call ≠ .postToken endpoint dc) ∧
    ∃ trace' p', Purged Unicode.ascii AuthConfig.lore (fun _ state => state = "other") trace p trace' p' := by
  let closed : State := ⟨remove opened.table "code", 0⟩
  have inserts : callSem (.insertSession "code" "device-1" "https://idp.example/token" "state" 300) ⟨Dict.empty, 0⟩ ()
      opened := ⟨0, Nat.le_refl _, Nat.le_refl _, rfl⟩
  have misses : callSem (.resolveSession "code" "other") opened none opened := by
    refine ⟨0, Nat.le_refl _, Nat.le_refl _, ?_⟩
    rw [resolve, opened_swept]
    rfl
  have closes : callSem (.resolveSession "code" "state") closed none closed := by
    refine ⟨0, Nat.le_refl _, Nat.le_refl _, ?_⟩
    have swept : sweep 0 closed.table = closed.table := by
      refine sweep_live fun code s h => ?_
      rw [show closed.table = opened.table.remove "code" from rfl, opened, Dict.get_remove, Dict.get_insert] at h
      split at h <;> cases h
    rw [resolve, swept]
    rfl
  have h₀ : (logins Unicode.ascii AuthConfig.lore).Run FreshCodes Empty [] ⟨⟨Dict.empty, 0⟩, []⟩ := .init _ rfl
  have h₁ := h₀.step _ (by simp [FreshCodes]) (.start _ (.start "state"))
  have h₂ := System.run_call h₁ 0 rfl (.ok provider) rfl (by simp [FreshCodes])
  have h₃ := System.run_call h₂ 0 rfl (.ok deviceLogin) rfl (by simp [FreshCodes])
  have h₄ := System.run_call h₃ 0 rfl "code" rfl (by simp [FreshCodes])
  have h₅ := System.run_call h₄ 0 rfl () inserts (by simp [FreshCodes])
  -- the other's lookup finds nothing
  have h₆ := h₅.step _ (by simp [FreshCodes]) (.start _ (.get "code" "other"))
  have h₇ := System.run_call h₆ 1 rfl none misses (by simp [FreshCodes])
  -- the caller's poll ends the login
  have h₈ := h₇.step _ (by simp [FreshCodes]) (.start _ (.get "code" "state"))
  have h₉ := System.run_call h₈ 2 rfl (some ("device-1", "https://idp.example/token")) opened_looked (by simp [FreshCodes])
  have h₁₀ := System.run_call h₉ 2 rfl (.ok released) rfl (by simp [FreshCodes])
  have h₁₁ := System.run_call h₁₀ 2 rfl (.ok { sub := "alice", exp := 2000 }) rfl (by simp [FreshCodes])
  have removes : callSem (.removeSession "code") opened () closed := rfl
  have h₁₂ := System.run_call h₁₁ 2 rfl () removes (by simp [FreshCodes])
  have h₁₃ := System.run_call h₁₂ 2 (c := .nowSecs) rfl (1000 : UInt64) rfl (by simp [FreshCodes])
  have h₁₄ := System.run_call h₁₃ 2 rfl (.ok "eyJ.kaguya.sig") rfl (by simp [FreshCodes])
  -- and the last finds none
  have h₁₅ := h₁₄.step _ (by simp [FreshCodes]) (.start _ (.get "code" "state"))
  have h₁₆ := System.run_call h₁₅ 3 rfl none closes (by simp [FreshCodes])
  obtain ⟨polled, ended, _, purged⟩ := sessions_bound Unicode.ascii AuthConfig.lore
  refine ⟨_, _, h₁₆, ⟨_, rfl⟩, ?_, ?_, ?_⟩
  · exact polled _ _ 2 "code" "state" opened _ _ (.ok released) opened h₁₆ ⟨_, List.mem_of_getElem? (i := 8) rfl, rfl⟩
      (Trace.mem_own.mpr (List.mem_of_getElem? (i := 6) rfl))
  · exact ended [_, _] _ _ _ 2 3 "code" "state" "state" _ h₁₆ h₁₄ rfl (Or.inl ⟨_, rfl⟩)
      ⟨_, List.mem_of_getElem? (i := 1) rfl, rfl⟩
  · refine purged _ _ _ h₁₆ fun code state e x hx s hi hs => ?_
    obtain ⟨n, ttl, hd, _⟩ := hi
    rw [hs, e] at hd
    simp only [List.mem_cons, List.not_mem_nil, or_false] at hx
    rcases hx with rfl | rfl | rfl | rfl | rfl | rfl | rfl | rfl | rfl | rfl | rfl | rfl | rfl | rfl | rfl | rfl <;>
      simp at hd

end Kaguya.Auth.Sessions
