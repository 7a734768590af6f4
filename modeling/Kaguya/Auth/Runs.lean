/-
  Kaguya.Auth.Runs — the tables under any number of RPCs and admin commands at once.
  An RPC is a thread that runs its handler; the methods of the store are the steps, and
  between two calls of one handler any others may come, an admin command included (the
  admin process opens the same database). Statements may fail at any time, and whatever
  is not the store's (signatures, sessions, the provider) may answer anything.

  A method is one step for the admin too. The program promises that among RPCs only: no
  mutex is shared with the admin process, whose statement may come between the two of
  `delete_resource` (a grant made there outlives the row) or of `record_owner`. Runs here
  leave those two orders out; the pools they come to are the same
  (`Kaguya.Auth.Statements`).

  A request carries what its bearer resolves to: it is the caller's identity that the
  properties of the store speak about, not the token. How a bearer resolves is the
  matter of `Kaguya.Auth.Provenance`.

  Proved: what a step does to the tables (`step_tables`), and that every role string in
  a reachable store is one the store writes (`reachable_rolesKnown`).
-/

import Kaguya.Lib.Threads
import Kaguya.Auth.ServiceProofs

namespace Kaguya.Auth.Runs

open Kaguya.Lib
open Kaguya.Auth.Jwt
open Kaguya.Auth.Store
open Kaguya.Auth.Service
open Kaguya.Auth.Verify (VerifyError Unicode)

/-- An RPC and what its bearer resolves to. -/
structure Request where
  auth : Except VerifyError IdentityClaims
  rpc : Rpc

/-- What a call does to the tables, and what it may answer. -/
def callSem (i : Request) : (c : Call) → Db → c.Ans → Db → Prop
  | .identity _, db, b, db' => b = i.auth ∧ db' = db
  | .store m, db, b, db' => ∃ now fates fates', m.run now ⟨db, fates⟩ = (some b, ⟨db', fates'⟩)
  | _, db, _, db' => db' = db

theorem callSem_identity (i : Request) (bearer : String) (db : Db) : callSem i (.identity bearer) db i.auth db := ⟨rfl, rfl⟩

/-- An admin command line. -/
def adminSem (args : List String) (db db' : Db) : Prop :=
  ∃ m now fates, Admin.method args = some m ∧ db' = (m.run now ⟨db, fates⟩).2.db

/-- The service over its tables. -/
def service (U : Unicode) (a : AuthConfig) : System Request (List String) Call Call.Ans (Except Status Reply) Db where
  sem := callSem
  env := adminSem
  body i := i.rpc.handle U a

abbrev Reach (U : Unicode) (a : AuthConfig) := (service U a).Reach (fun _ _ => True) (· = Db.empty)

/-- A store state that some run comes to. -/
def Reachable (U : Unicode) (a : AuthConfig) (db : Db) : Prop := ∃ p, Reach U a p ∧ p.shared = db

variable {U : Unicode} {a : AuthConfig}

/-- The methods that handlers call. -/
def Served : Call → Prop
  | .store (.recordOwner ..) | .store (.deleteResource _) | .store (.roleFor ..) | .store (.accessible _) => True
  | .store _ => False
  | _ => True

theorem handle_served (U : Unicode) (a : AuthConfig) (rpc : Rpc) : (rpc.handle U a).Makes Served := by
  refine Prog.makes_mono (fun c h => ?_) (handle_makes U a rpc)
  cases c with
  | store m => cases m with
    | recordOwner | deleteResource | roleFor | accessible => trivial
    | _ => exact h
  | _ => trivial

/-- A call changes the tables only as a method of the store that handlers call. -/
theorem callSem_tables {i : Request} {c : Call} {db db' : Db} {b : c.Ans} (h : callSem i c db b db') :
    db' = db ∨ ∃ m now, c = .store m ∧ Leaves now m db db' := by
  cases c with
  | store m =>
    obtain ⟨now, fates, fates', hr⟩ := h
    have hp := run_leaves now m ⟨db, fates⟩
    rw [hr] at hp
    exact Or.inr ⟨m, now, rfl, hp⟩
  | identity bearer => exact Or.inl h.2
  | _ => exact Or.inl h

/-- The step runs the method: a thread's call or an admin command. -/
def Executes (p : Pool Request Call Call.Ans (Except Status Reply) Db) (v : Event Request (List String)) (m : Method) :
    Prop :=
  (∃ n i k, v = .act n ∧ p.threads[n]? = some ⟨i, .call (.store m) k⟩) ∨
    ∃ args, v = .env args ∧ Admin.method args = some m

/-- What a step does to the tables: nothing, or what a method that it runs may leave. -/
theorem step_tables {p p' : Pool Request Call Call.Ans (Except Status Reply) Db} {v : Event Request (List String)}
    (hs : (service U a).Step p v p') :
    p'.shared = p.shared ∨ ∃ m now, Executes p v m ∧ Leaves now m p.shared p'.shared := by
  cases hs with
  | start i => exact Or.inl rfl
  | env args s' h =>
    obtain ⟨m, now, fates, hm, rfl⟩ := h
    exact Or.inr ⟨m, now, Or.inr ⟨args, rfl, hm⟩, run_leaves now m ⟨p.shared, fates⟩⟩
  | act n i c k b s' hn h =>
    rcases callSem_tables h with hdb | ⟨m, now, rfl, hp'⟩
    · exact Or.inl hdb
    · exact Or.inr ⟨m, now, Or.inl ⟨n, i, k, rfl, hn⟩, hp'⟩

/-- A handler that holds, holds with its reply. -/
theorem holds_reply {σ α : Type} {sem : (c : Call) → σ → c.Ans → σ → Prop} {I : σ → Prop} {rely : Call → σ → σ → Prop}
    {pre : Call → σ → Prop} {f : α → Reply} {p : Act (Except Status α)} {s : σ}
    (h : Holds sem I rely pre p (fun _ _ => True) s) : Holds sem I rely pre (reply f p) (fun _ _ => True) s := by
  refine holds_bind (holds_mono (fun r s _ => ?_) h)
  cases r <;> trivial

theorem reachable_empty : Reachable U a Db.empty := ⟨⟨Db.empty, []⟩, .init _ rfl, rfl⟩

/-- After a reachable state comes any admin command's. -/
theorem reachable_admin {db : Db} (h : Reachable U a db) (args : List String) {m : Method} (now : Int)
    (hm : Admin.method args = some m) : Reachable U a (m.effect now db) := by
  obtain ⟨p, hp, rfl⟩ := h
  refine ⟨{ p with shared := m.effect now p.shared }, .step (.env args) hp trivial (.env p args _ ?_), rfl⟩
  exact ⟨m, now, [], hm, by rw [run_reliable]⟩

theorem reach_rolesKnown {p : Pool Request Call Call.Ans (Except Status Reply) Db} (hp : Reach U a p) :
    RolesKnown p.shared := by
  induction hp with
  | init s h =>
    rw [h]
    exact fun g hg => absurd hg (Table.not_mem_empty g)
  | step v hp _ hs ih =>
    rcases step_tables hs with h | ⟨m, now, _, h⟩
    · rw [h]
      exact ih
    · exact rolesKnown_leaves h ih

theorem reachable_rolesKnown {db : Db} (h : Reachable U a db) : RolesKnown db := by
  obtain ⟨p, hp, rfl⟩ := h
  exact reach_rolesKnown hp

end Kaguya.Auth.Runs
