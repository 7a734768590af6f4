/-
  Kaguya.Auth.Poison — the store's mutex under failing statements. Every method of the
  store locks its connection and unwraps the lock. A statement of a write that fails is
  returned as an error; a `prepare` or `query_map` of a read that fails is unwrapped
  with the lock held. The server runtime catches that panic, but the mutex is poisoned:
  from then on every method panics at its lock, in every request of the process. The
  admin command line is a process of its own, with its own lock.

  `confined_iff`: requests whose own statements all succeed are served from the tables
  as they are, in every run, exactly when no such request comes after a read that failed
  as a whole. `poisoned_for_good`: one failed read and the next request panics.
-/

import Kaguya.Auth.Runs
import Kaguya.Lib.Trace

namespace Kaguya.Auth.Poison

open Kaguya.Lib
open Kaguya.Auth.Jwt
open Kaguya.Auth.Store
open Kaguya.Auth.Service
open Kaguya.Auth.Runs (adminSem)
open Kaguya.Auth.Verify (VerifyError Unicode)

/-! ## Statements that succeed -/

/-- No statement fails, and no row is lost. -/
def Quiet (fates : List Fate) : Prop := ∀ f ∈ fates, f.error = none ∧ ∀ l ∈ f.lost, l = none

theorem readRows_kept {α : Type} {lost : List (Option SqlError)} (h : ∀ l ∈ lost, l = none) (rows : List α) :
    readRows lost rows = rows.map .ok := by
  induction rows generalizing lost with
  | nil => cases lost with
    | nil => rfl
    | cons l lost => cases l <;> rfl
  | cons row rows ih =>
    cases lost with
    | nil => rfl
    | cons l lost =>
      obtain rfl := h l List.mem_cons_self
      exact congrArg (.ok row :: ·) (ih fun l hl => h l (List.mem_cons_of_mem _ hl))

theorem Quiet.fate {fates : List Fate} (h : Quiet fates) (db : Db) :
    (Conn.fate ⟨db, fates⟩).error = none ∧ ∀ l ∈ (Conn.fate ⟨db, fates⟩).lost, l = none := by
  cases fates with
  | nil => exact ⟨rfl, fun l hl => by cases hl⟩
  | cons f fates => exact h f List.mem_cons_self

theorem Quiet.tail {fates : List Fate} (h : Quiet fates) : Quiet fates.tail :=
  fun f hf => h f (List.mem_of_mem_tail hf)

/-- A statement that succeeds answers as on a connection where nothing fails. -/
theorem exec_quiet (now : Int) (s : Stmt) (db : Db) {fates : List Fate} (h : Quiet fates) :
    (Stmt.exec now s ⟨db, fates⟩).1 = (Stmt.exec now s ⟨db, []⟩).1 ∧
    (Stmt.exec now s ⟨db, fates⟩).2.db = (Stmt.exec now s ⟨db, []⟩).2.db ∧
    Quiet (Stmt.exec now s ⟨db, fates⟩).2.fates ∧ (Stmt.exec now s ⟨db, []⟩).2.fates = [] := by
  obtain ⟨herror, hlost⟩ := h.fate db
  cases s with
  | now => exact ⟨rfl, rfl, h, rfl⟩
  | panic => exact ⟨rfl, rfl, h, rfl⟩
  | execute w =>
    simp only [Stmt.exec, herror]
    exact ⟨rfl, rfl, h.tail, rfl⟩
  | queryMap q =>
    simp only [Stmt.exec, herror, readRows_kept hlost]
    refine ⟨?_, rfl, h.tail, rfl⟩
    simp only [Conn.fate, List.headD_nil, readRows_nil]

theorem run_quiet {α : Type} (now : Int) (b : Body α) (db : Db) {fates : List Fate} (h : Quiet fates) :
    (b.run (Stmt.exec now) ⟨db, fates⟩).1 = (b.run (Stmt.exec now) ⟨db, []⟩).1 ∧
    (b.run (Stmt.exec now) ⟨db, fates⟩).2.db = (b.run (Stmt.exec now) ⟨db, []⟩).2.db := by
  induction b generalizing db fates with
  | ret a => exact ⟨rfl, rfl⟩
  | call s k ih =>
    obtain ⟨hans, hdb, hfates, hnil⟩ := exec_quiet now s db h
    rw [Prog.run_call, Prog.run_call]
    rcases e : Stmt.exec now s ⟨db, fates⟩ with ⟨b, db', fates'⟩
    rcases e' : Stmt.exec now s ⟨db, []⟩ with ⟨b', db'', fates''⟩
    rw [e, e'] at hans hdb
    rw [e] at hfates
    rw [e'] at hnil
    dsimp only at hans hdb hfates hnil
    subst hans hdb hnil
    cases b with
    | none => exact ⟨rfl, rfl⟩
    | some b => exact ih b db' hfates

/-- A method whose statements succeed answers from the tables as they are. -/
theorem quiet_answer (now : Int) (m : Method) (db : Db) {fates : List Fate} (h : Quiet fates) :
    (m.run now ⟨db, fates⟩).1 = some (m.answer db) ∧ (m.run now ⟨db, fates⟩).2.db = m.effect now db := by
  obtain ⟨hans, hdb⟩ := run_quiet now m.body db h
  have hreliable := run_reliable now m db
  unfold Method.run at hreliable ⊢
  rw [hans, hdb, hreliable]
  exact ⟨rfl, rfl⟩

/-! ## Statements that panic -/

/-- The methods that read: a query that fails as a whole is unwrapped. -/
def Reads : Method → Prop
  | .roleFor .. | .accessible _ | .listGrants _ => True
  | _ => False

/-- The method's `prepare` or `query_map` fails. -/
def ReadFails (m : Method) (fates : List Fate) : Prop := Reads m ∧ (fates.headD {}).error ≠ none

/-- The clock and the writes, which do not panic. -/
def IsWrite : Stmt → Prop
  | .now | .execute _ => True
  | _ => False

theorem write_makes {m : Method} (h : ¬ Reads m) : m.body.Makes IsWrite := by
  cases m with
  | roleFor | accessible | listGrants => exact absurd trivial h
  | recordOwner owner urcId name =>
    refine Prog.makes_bind (Prog.makes_ask trivial) fun createdAt => Prog.makes_bind (Prog.makes_ask trivial) fun r => ?_
    cases r with
    | error e => trivial
    | ok n =>
      by_cases hn : n > 0
      · simp only [if_pos hn]
        exact Prog.makes_bind (Prog.makes_ask trivial) fun r => by cases r <;> trivial
      · simp only [if_neg hn]
        trivial
  | deleteResource urcId =>
    refine Prog.makes_bind (Prog.makes_ask trivial) fun r => ?_
    cases r with
    | error e => trivial
    | ok n => exact Prog.makes_bind (Prog.makes_ask trivial) fun r => by cases r <;> trivial
  | grant => exact Prog.makes_bind (Prog.makes_ask trivial) fun r => by cases r <;> trivial
  | addGroupMember => exact Prog.makes_bind (Prog.makes_ask trivial) fun r => by cases r <;> trivial
  | revoke => exact Prog.makes_ask trivial
  | removeGroupMember => exact Prog.makes_ask trivial

theorem exec_write (now : Int) {s : Stmt} (hs : IsWrite s) (c : Conn) : (Stmt.exec now s c).1 ≠ none := by
  cases s with
  | now => simp [Stmt.exec]
  | execute w =>
    simp only [Stmt.exec]
    cases c.fate.error <;> simp
  | queryMap => exact hs.elim
  | panic => exact hs.elim

theorem query_panics {α : Type} (now : Int) (q : Query) (k : List q.Row → α) (db : Db) (fates : List Fate) :
    ((queryRows q >>= fun rows => .ret (k rows)).run (Stmt.exec now) ⟨db, fates⟩).1 = none ↔
      (fates.headD {}).error ≠ none := by
  have hfate : (Conn.fate ⟨db, fates⟩).error = (fates.headD {}).error := rfl
  rw [run_queryRows, ← hfate]
  cases (Conn.fate ⟨db, fates⟩).error <;> simp

/-- A method panics when its read fails as a whole, and only then. -/
theorem run_panics (now : Int) (m : Method) (db : Db) (fates : List Fate) :
    (m.run now ⟨db, fates⟩).1 = none ↔ ReadFails m fates := by
  by_cases h : Reads m
  · refine Iff.trans ?_ (and_iff_right h).symm
    cases m with
    | roleFor subject urcId => exact query_panics now (.roles urcId subject) bestRole db fates
    | accessible subject =>
      have hq := query_panics now (.accessible subject) (fun rows => rows) db fates
      rw [Prog.bind_ret] at hq
      exact hq
    | listGrants urcId =>
      have hq := query_panics now (.grantsOn urcId) (fun rows => rows) db fates
      rw [Prog.bind_ret] at hq
      exact hq
    | _ => exact h.elim
  · refine iff_of_false (Prog.run_ends _ (write_makes h) (fun s c hs => exec_write now hs c) _) fun hf => h hf.1

/-! ## The process -/

/-- How a call went: how its statements fared, and its answer, none when it panicked. -/
structure Outcome (c : Call) where
  fates : List Fate := []
  ans : Option c.Ans

/-- The tables, and whether the mutex is poisoned. -/
structure State where
  db : Db
  poisoned : Bool

/-- A method locks the mutex, which panics when it is poisoned; when the method panics
    itself it leaves the mutex poisoned. Other calls answer anything. -/
def callSem : (c : Call) → State → Outcome c → State → Prop
  | .store m, s, o, s' =>
    if s.poisoned then o = { ans := none } ∧ s' = s
    else ∃ now rest, m.run now ⟨s.db, o.fates⟩ = (o.ans, ⟨s'.db, rest⟩) ∧ s'.poisoned = o.ans.isNone
  | _, s, o, s' => o.ans ≠ none ∧ s' = s

/-- An admin command changes the tables from a process of its own. -/
def envSem (args : List String) (s s' : State) : Prop := adminSem args s.db s'.db ∧ s'.poisoned = s.poisoned

/-- The requests of one server process: a panic ends its request. -/
def server (U : Unicode) (a : AuthConfig) :
    System Rpc (List String) Call Outcome (Option (Except Status Reply)) State where
  sem _ := callSem
  env := envSem
  body rpc := (rpc.handle U a).caught fun _ o => o.ans

abbrev History := Trace Rpc (List String) Call Outcome State
abbrev Step := Moment Rpc (List String) Call Outcome State
abbrev ServerPool := Pool Rpc Call Outcome (Option (Except Status Reply)) State

/-- A process starts with its mutex as new, on any tables. -/
def Fresh (s : State) : Prop := s.poisoned = false

/-- The runs of a process. -/
abbrev Runs (U : Unicode) (a : AuthConfig) := (server U a).Run (fun _ _ _ => True) Fresh

/-! ## Confinement -/

/-- All statements of the request's calls succeeded. -/
def Unharmed (trace : History) (n : Nat) : Prop := ∀ x ∈ trace.own n, Quiet x.ans.fates

/-- The answer is what the tables gave when the call was made. -/
def Current : Answered Call Call.Ans State → Prop
  | ⟨s, .store m, b, _⟩ => b = m.answer s.db
  | _ => True

/-- The request has gone as its handler goes, its calls of the store answered from the
    tables as they were: it has not panicked, and when it is done it has returned what
    the handler returns. -/
def Served (U : Unicode) (a : AuthConfig) (trace : History) (n : Nat) (rpc : Rpc)
    (q : Prog Call Outcome (Option (Except Status Reply))) : Prop :=
  ∃ l q', List.Forall₂ (Prog.Returned fun _ o => o.ans) (trace.own n) l ∧ (∀ x ∈ l, Current x) ∧
    (rpc.handle U a).Leads l q' ∧ q = q'.caught fun _ o => o.ans

/-- Failures are confined to their requests. -/
def Confined (U : Unicode) (a : AuthConfig) (trace : History) (p : ServerPool) : Prop :=
  ∀ (n : Nat) rpc q, p.threads[n]? = some ⟨rpc, q⟩ → Unharmed trace n → Served U a trace n rpc q

/-- The step is a call whose read fails as a whole. -/
def Fails (x : Step) : Prop := ∃ k m o, x.did = .called k (.store m) o ∧ ReadFails m o.fates

/-- No request whose statements all succeed calls the store after a read has failed as a
    whole. -/
def Unbroken (trace : History) : Prop :=
  ∀ late x early n m o, trace = late ++ x :: early → x.did = .called n (.store m) o → Unharmed trace n →
    ∀ y ∈ early, ¬ Fails y

variable {U : Unicode} {a : AuthConfig} {trace : History} {p : ServerPool}

theorem fails_called {s s' : State} {n : Nat} {m : Method} {o : Outcome (.store m)} :
    Fails ⟨s, .called n (.store m) o, s'⟩ ↔ ReadFails m o.fates := by
  constructor
  · intro h
    obtain ⟨k, m', o', hd, hf⟩ := h
    cases hd
    exact hf
  · exact fun h => ⟨n, m, o, rfl, h⟩

/-- What a call does to the mutex: one of the store's poisons it when its read fails as a
    whole. -/
theorem callSem_poisoned {s s' : State} {n : Nat} {c : Call} {o : Outcome c} (h : callSem c s o s') :
    s'.poisoned = true ↔ Fails ⟨s, .called n c o, s'⟩ ∨ s.poisoned = true := by
  cases c with
  | store m =>
    rw [fails_called]
    by_cases hp : s.poisoned = true
    · rw [callSem, if_pos hp] at h
      obtain ⟨_, rfl⟩ := h
      exact ⟨Or.inr, fun _ => hp⟩
    · rw [callSem, if_neg hp] at h
      obtain ⟨now, rest, hrun, hs'⟩ := h
      rw [hs', Option.isNone_iff_eq_none, ← run_panics now m s.db o.fates, hrun, or_iff_left hp]
  | _ =>
    obtain ⟨_, rfl⟩ := h
    refine (or_iff_right fun hf => ?_).symm
    obtain ⟨_, _, _, hd, _⟩ := hf
    cases hd

/-- The mutex is poisoned exactly after a read that failed as a whole. -/
theorem poisoned_iff (h : Runs U a trace p) : p.shared.poisoned = true ↔ ∃ y ∈ trace, Fails y := by
  induction h with
  | init s hs => exact iff_of_false (by simp [show s.poisoned = false from hs]) (by simp)
  | @step trace p p' m hr _ hs ih =>
    have hcons : (∃ y ∈ m :: trace, Fails y) ↔ Fails m ∨ ∃ y ∈ trace, Fails y := by simp
    rw [hcons, ← ih]
    cases hs with
    | start rpc =>
      refine (or_iff_right fun hf => ?_).symm
      obtain ⟨_, _, _, hd, _⟩ := hf
      cases hd
    | env args s' he =>
      rw [he.2]
      refine (or_iff_right fun hf => ?_).symm
      obtain ⟨_, _, _, hd, _⟩ := hf
      cases hd
    | act n rpc c k o s' hn hsem => exact callSem_poisoned hsem

/-- A call of the store finds the mutex as the run so far has left it. -/
theorem call_locked {late early : History} {s s' : State} {n : Nat} {c : Call} {o : Outcome c}
    (h : Runs U a (late ++ ⟨s, .called n c o, s'⟩ :: early) p) :
    (s.poisoned = true ↔ ∃ y ∈ early, Fails y) ∧ callSem c s o s' := by
  obtain ⟨q, q', hr, _, hs, _⟩ := System.run_split h
  obtain ⟨rpc, k, _, hsem, _⟩ := System.happens_called hs
  have hs' : s = q.shared := System.happens_before hs
  rw [hs', ← poisoned_iff hr]
  exact ⟨Iff.rfl, hs' ▸ hsem⟩

/-- Calls of an unharmed request return what the tables gave when the mutex was not
    poisoned for them. -/
theorem call_returns {s s' : State} {c : Call} {o : Outcome c} (h : callSem c s o s') (hq : Quiet o.fates)
    (hp : s.poisoned = true → ∀ m, c ≠ .store m) : ∃ b, o.ans = some b ∧ Current ⟨s, c, b, s'⟩ := by
  cases c with
  | store m =>
    have hp' : ¬ s.poisoned = true := fun e => hp e m rfl
    rw [callSem, if_neg hp'] at h
    obtain ⟨now, rest, hrun, _⟩ := h
    have hans := (quiet_answer now m s.db hq).1
    rw [hrun] at hans
    exact ⟨_, hans, rfl⟩
  | _ =>
    obtain ⟨b, hb⟩ := Option.ne_none_iff_exists'.mp h.1
    exact ⟨b, hb, trivial⟩

/-- Failures are confined exactly when no unharmed request comes to the store after a
    read has failed as a whole. -/
theorem confined_iff (h : Runs U a trace p) : Confined U a trace p ↔ Unbroken trace := by
  constructor
  · intro hconf late x early n m o htrace hd hun y hy hf
    obtain ⟨s, d, s'⟩ := x
    dsimp only at hd
    subst hd htrace
    obtain ⟨hpoisoned, hsem⟩ := call_locked h
    rw [callSem, if_pos (hpoisoned.mpr ⟨y, hy, hf⟩)] at hsem
    have hx : (⟨s, .store m, o, s'⟩ : Answered Call Outcome State) ∈ Trace.own n (late ++ ⟨s, .called n (.store m) o, s'⟩ :: early) :=
      Trace.mem_own.mpr (List.mem_append_right _ List.mem_cons_self)
    obtain ⟨rpc, hi⟩ := System.run_own_started h hx
    obtain ⟨q, hn⟩ := System.run_info h hi
    obtain ⟨l, q', hl, _⟩ := hconf n rpc q hn hun
    exact absurd (by rw [hsem.1]) (Prog.returned_left hl hx)
  · intro hunb n rpc q hn hun
    have hreturns : ∀ x ∈ trace.own n, ∃ b, x.ans.ans = some b ∧ Current ⟨x.before, x.call, b, x.after⟩ := by
      intro x hx
      obtain ⟨late, early, htrace⟩ := List.append_of_mem (Trace.mem_own.mp hx)
      have h' := h
      rw [htrace] at h'
      obtain ⟨hpoisoned, hsem⟩ := call_locked h'
      refine call_returns hsem (hun x hx) fun hp m hm => ?_
      obtain ⟨y, hy, hf⟩ := hpoisoned.mp hp
      obtain ⟨s, c, o, s'⟩ := x
      dsimp only at hm
      subst hm
      exact hunb late _ early n m o htrace rfl hun y hy hf
    obtain ⟨l, q', hl, hleads, hq⟩ := Prog.leads_caught ((System.run_leads h).1 n _ hn) fun x hx => by
      obtain ⟨b, hb, _⟩ := hreturns x hx
      simp [hb]
    refine ⟨l, q', hl, fun y hy => ?_, hleads, hq⟩
    obtain ⟨o, ho, hx⟩ := Prog.returned_right hl hy
    obtain ⟨b, hb, hcur⟩ := hreturns _ hx
    dsimp only at hb hcur
    rw [ho] at hb
    cases hb
    exact hcur

/-! ## A read that fails -/

def aliceClaims : IdentityClaims := { sub := "alice", exp := 1700003600 }

def checkRpc : Rpc := .checkUserPermission (some "Bearer token") ["urc-1"]

/-- The `prepare` of a check fails, and the next check finds the lock poisoned. -/
theorem broken_run : ∃ trace p, Runs U a trace p ∧ p.threads[1]? = some ⟨checkRpc, .ret none⟩ ∧ Unharmed trace 1 := by
  have h₀ : Runs U a [] ⟨⟨Db.empty, false⟩, []⟩ := .init _ rfl
  have h₁ := System.Run.step _ h₀ trivial (.start _ checkRpc)
  have h₂ := System.run_call h₁ 0 rfl ⟨[], some (.ok aliceClaims)⟩ ⟨by simp, rfl⟩ trivial
  have h₃ := System.Run.step _ h₂ trivial
    (.act _ 0 checkRpc _ _ ⟨[{ error := some .io }], none⟩ ⟨Db.empty, true⟩ rfl ⟨0, [], rfl, rfl⟩)
  have h₄ := System.Run.step _ h₃ trivial (.start _ checkRpc)
  have h₅ := System.run_call h₄ 1 rfl ⟨[], some (.ok aliceClaims)⟩ ⟨by simp, rfl⟩ trivial
  have h₆ := System.run_call h₅ 1 rfl ⟨[], none⟩ ⟨rfl, rfl⟩ trivial
  refine ⟨_, _, h₆, rfl, ?_⟩
  simp [Unharmed, Trace.own, Quiet]

theorem confined_broken : ∃ trace p, Runs Unicode.ascii AuthConfig.lore trace p ∧
    (Confined Unicode.ascii AuthConfig.lore trace p ↔ Unbroken trace) := by
  obtain ⟨trace, p, h, _⟩ := @broken_run Unicode.ascii AuthConfig.lore
  exact ⟨trace, p, h, confined_iff h⟩

theorem poisoned_for_good : ¬ ∀ U a trace p, Runs U a trace p → Confined U a trace p := by
  intro h
  obtain ⟨trace, p, hrun, hn, hun⟩ := @broken_run Unicode.ascii AuthConfig.lore
  obtain ⟨l, q', _, _, _, hq⟩ := h _ _ trace p hrun 1 checkRpc _ hn hun
  exact Prog.caught_ne_none _ q' hq.symm

end Kaguya.Auth.Poison
