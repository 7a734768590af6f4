/-
  Kaguya.Auth.Statements — the admin process between the statements of a method. The
  mutex around the service's connection keeps RPCs apart, not the admin process, whose
  statement may come between the two of `record_owner` or of `delete_resource`.

  `record_owner` begins with the table `resources` and `delete_resource` ends with it,
  and no admin command reads or writes that table. What comes between the statements of
  the first could have come before them, of the second after them (`among_serial`). So
  the service comes to the same pools as when each method is one step
  (`reach_statementwise`), and what `Kaguya.Auth.Runs` says of reachable tables holds of
  these. A condition on when in a run an admin command falls is another matter.
-/

import Kaguya.Auth.Runs
import Mathlib.Logic.Relation

namespace Kaguya.Auth.Statements

open Kaguya.Lib
open Kaguya.Auth.Store
open Kaguya.Auth.Service
open Kaguya.Auth.Runs
open Kaguya.Auth.Verify (Unicode)

/-! ## Methods among admin commands -/

/-- Admin commands have come. -/
abbrev Commands : Db → Db → Prop := Relation.ReflTransGen fun db db' => ∃ args, adminSem args db db'

/-- The statements of a method, with admin commands before each. -/
def Among (now : Int) {α : Type} : Body α → Conn → Option α → Conn → Prop
  | .ret a, c, r, c' => r = some a ∧ c' = c
  | .call s k, c, r, c' => ∃ db, Commands c.db db ∧ match s.exec now ⟨db, c.fates⟩ with
    | (some b, c₁) => Among now (k b) c₁ r c'
    | (none, c₁) => r = none ∧ c' = c₁

def callSem (i : Request) : (c : Call) → Db → c.Ans → Db → Prop
  | .store m, db, b, db' => ∃ now fates fates', Among now m.body ⟨db, fates⟩ (some b) ⟨db', fates'⟩
  | c, db, b, db' => Runs.callSem i c db b db'

/-- The service over its tables, statement by statement. -/
def statementwise (U : Unicode) (a : AuthConfig) :
    System Request (List String) Call Call.Ans (Except Status Reply) Db where
  sem := callSem
  env := adminSem
  body i := i.rpc.handle U a

/-! ## What admin commands leave alone -/

variable {now : Int} {c c' : Conn} {db db' : Db} {args : List String}

/-- `m` neither reads nor writes the resources, however its statements fare. -/
def Apart (m : Method) : Prop :=
  ∀ now db fates t, (m.run now ⟨db, fates⟩).2.db.resources = db.resources ∧
    (m.run now ⟨{ db with resources := t }, fates⟩).2.db = { (m.run now ⟨db, fates⟩).2.db with resources := t }

theorem apart_write {m : Method} {w : Write} {k : Except SqlError Nat → Body m.Ans} (hb : m.body = execute w >>= k)
    (hk : ∀ r, ∃ a, k r = .ret a) (hw : ∀ db t, (w.exec db).1.resources = db.resources ∧
      (w.exec { db with resources := t }).1 = { (w.exec db).1 with resources := t }) : Apart m := by
  have failed : ∀ now db fates e, (fates.headD {}).error = some e → (m.run now ⟨db, fates⟩).2.db = db := by
    intro now db fates e hf
    obtain ⟨a, ha⟩ := hk (.error e)
    unfold Method.run
    rw [hb, run_execute]
    simp only [Conn.fate, hf, ha]
    rfl
  have wrote : ∀ now db fates, (fates.headD {}).error = none → (m.run now ⟨db, fates⟩).2.db = (w.exec db).1 := by
    intro now db fates hf
    obtain ⟨a, ha⟩ := hk (.ok (w.exec db).2)
    unfold Method.run
    rw [hb, run_execute]
    simp only [Conn.fate, hf, ha]
    rfl
  intro now db fates t
  cases hf : (fates.headD {}).error with
  | some e =>
    rw [failed now _ fates e hf, failed now _ fates e hf]
    exact ⟨rfl, rfl⟩
  | none =>
    rw [wrote now _ fates hf, wrote now _ fates hf]
    exact hw db t

/-- An admin command neither reads nor writes the resources. -/
theorem apart_admin {m : Method} (hm : Admin.method args = some m) : Apart m := by
  unfold Admin.method at hm
  split at hm
  · obtain ⟨role, _, rfl⟩ := Option.map_eq_some_iff.mp hm
    exact apart_write rfl (fun r => by cases r <;> exact ⟨_, rfl⟩) fun _ _ => ⟨rfl, rfl⟩
  · cases hm
    exact apart_write (Prog.bind_ret _).symm (fun r => ⟨r, rfl⟩) fun _ _ => ⟨rfl, rfl⟩
  · cases hm
    exact apart_write rfl (fun r => by cases r <;> exact ⟨_, rfl⟩) fun _ _ => ⟨rfl, rfl⟩
  · cases hm
    exact apart_write (Prog.bind_ret _).symm (fun r => ⟨r, rfl⟩) fun _ _ => ⟨rfl, rfl⟩
  · cases hm
    rename_i urcId
    intro now db fates t
    have read : ∀ c, ((Method.listGrants urcId).run now c).2.db = c.db := run_query_db now (.grantsOn urcId)
    rw [read, read]
    exact ⟨rfl, rfl⟩
  · cases hm

theorem commands_apart (h : Commands db db') (t : Table ResourceRow ResourceRow.urcId) :
    db'.resources = db.resources ∧ Commands { db with resources := t } { db' with resources := t } := by
  induction h with
  | refl => exact ⟨rfl, .refl⟩
  | tail _ hs ih =>
    obtain ⟨args, m, now, fates, hm, rfl⟩ := hs
    obtain ⟨hsame, hrun⟩ := apart_admin hm now _ fates t
    exact ⟨hsame.trans ih.1, ih.2.tail ⟨args, m, now, fates, hm, hrun.symm⟩⟩

/-! ## One step for a method -/

theorem among_execute {α : Type} {w : Write} {k : Except SqlError Nat → Body α} {r : Option α}
    (h : Among now (execute w >>= k) c r c') :
    ∃ db, Commands c.db db ∧ match c.fate.error with
      | some e => Among now (k (.error e)) ⟨db, c.fates.tail⟩ r c'
      | none => Among now (k (.ok (w.exec db).2)) ⟨(w.exec db).1, c.fates.tail⟩ r c' := by
  change Among now (.call (Stmt.execute w) k) c r c' at h
  rw [Among] at h
  obtain ⟨db, hdb, h⟩ := h
  refine ⟨db, hdb, ?_⟩
  simp only [Stmt.exec, Conn.fate] at h ⊢
  cases hf : (c.fates.headD {}).error with
  | some e => rw [hf] at h; exact h
  | none => rw [hf] at h; exact h

/-- A query sees one state, and commands may come before its `unwrap` panics. -/
theorem among_query {α : Type} {q : Query} {k : List q.Row → α} {r : Option α}
    (h : Among now (queryRows q >>= fun rows => .ret (k rows)) c r c') :
    ∃ db, Commands c.db db ∧ Commands db c'.db ∧
      (queryRows q >>= fun rows => .ret (k rows)).run (Stmt.exec now) ⟨db, c.fates⟩ = (r, ⟨db, c'.fates⟩) := by
  change Among now (.call (Stmt.queryMap q) _) c r c' at h
  rw [Among] at h
  obtain ⟨db, hdb, h⟩ := h
  refine ⟨db, hdb, ?_⟩
  rw [run_queryRows]
  simp only [Stmt.exec, Conn.fate] at h ⊢
  cases hf : (c.fates.headD {}).error with
  | some e =>
    rw [hf] at h
    obtain ⟨db', hdb', rfl, rfl⟩ := h
    exact ⟨hdb', rfl⟩
  | none =>
    rw [hf] at h
    obtain ⟨rfl, rfl⟩ := h
    exact ⟨.refl, rfl⟩

/-- What comes between the statements of `record_owner` could have come before them. -/
theorem among_recordOwner {owner urcId name : String} {r : Option (Except SqlError Unit)}
    (h : Among now (Store.recordOwner owner urcId name) c r c') :
    ∃ db, Commands c.db db ∧ (Method.recordOwner owner urcId name).run now ⟨db, c.fates⟩ = (r, c') := by
  change Among now (.call Stmt.now _) c r c' at h
  rw [Among] at h
  obtain ⟨db₀, h₀, h⟩ := h
  obtain ⟨db₁, h₁, h⟩ := among_execute h
  have hbefore : Commands c.db db₁ := h₀.trans h₁
  simp only [Conn.fate] at h
  cases hf : (c.fates.headD {}).error with
  | some e =>
    rw [hf] at h
    obtain ⟨rfl, rfl⟩ := h
    refine ⟨db₁, hbefore, ?_⟩
    rw [run_recordOwner]
    simp only [Conn.fate, hf]
  | none =>
    rw [hf] at h
    by_cases hnew : ((Write.insertResource urcId name now).exec db₁).2 > 0
    · simp only [if_pos hnew] at h
      obtain ⟨db₂, h₂, h⟩ := among_execute h
      -- the commands in between, on the tables without the new row
      obtain ⟨hsame, hearly⟩ := commands_apart h₂ db₁.resources
      refine ⟨{ db₂ with resources := db₁.resources }, hbefore.trans hearly, ?_⟩
      rw [run_recordOwner]
      change (db₁.resources.insertOrIgnore ⟨urcId, name, now⟩).2 > 0 at hnew
      simp only [Conn.fate, hf, if_pos hnew, run_execute]
      obtain ⟨resources, grants, groupMembers⟩ := db₂
      obtain rfl : resources = (db₁.resources.insertOrIgnore ⟨urcId, name, now⟩).1 := hsame
      simp only [Conn.fate] at h
      cases hg : (c.fates.tail.headD {}).error with
      | some e =>
        rw [hg] at h
        obtain ⟨rfl, rfl⟩ := h
        rfl
      | none =>
        rw [hg] at h
        obtain ⟨rfl, rfl⟩ := h
        rfl
    · simp only [if_neg hnew] at h
      obtain ⟨rfl, rfl⟩ := h
      refine ⟨db₁, hbefore, ?_⟩
      rw [run_recordOwner]
      change ¬ (db₁.resources.insertOrIgnore ⟨urcId, name, now⟩).2 > 0 at hnew
      simp only [Conn.fate, hf, if_neg hnew]
      rfl

/-- What comes between the statements of `delete_resource` could have come after them. -/
theorem among_deleteResource {urcId : String} {r : Option (Except SqlError Unit)}
    (h : Among now (Store.deleteResource urcId) c r c') :
    ∃ db db₁, Commands c.db db ∧ (Method.deleteResource urcId).run now ⟨db, c.fates⟩ = (r, ⟨db₁, c'.fates⟩) ∧
      Commands db₁ c'.db := by
  obtain ⟨db, hdb, h⟩ := among_execute h
  show ∃ db db₁, Commands c.db db ∧ (Store.deleteResource urcId).run (Stmt.exec now) ⟨db, c.fates⟩ = _ ∧ _
  simp only [Store.deleteResource, run_execute, Conn.fate] at h ⊢
  cases hf : (c.fates.headD {}).error with
  | some e =>
    rw [hf] at h
    obtain ⟨rfl, rfl⟩ := h
    exact ⟨db, db, hdb, rfl, .refl⟩
  | none =>
    rw [hf] at h
    obtain ⟨db₂, h₂, h⟩ := among_execute h
    simp only [Conn.fate] at h ⊢
    cases hg : (c.fates.tail.headD {}).error with
    | some e =>
      rw [hg] at h
      obtain ⟨rfl, rfl⟩ := h
      exact ⟨db, _, hdb, rfl, h₂⟩
    | none =>
      rw [hg] at h
      obtain ⟨rfl, rfl⟩ := h
      -- the commands in between, on the tables without the resource's row
      obtain ⟨hsame, hlate⟩ := commands_apart h₂ (db.resources.deleteWhere (·.urcId = urcId)).1
      obtain ⟨resources, grants, groupMembers⟩ := db₂
      obtain rfl : resources = db.resources := hsame
      exact ⟨db, _, hdb, rfl, hlate⟩

/-- The commands among the statements of a method that handlers call come before it or
    after it. -/
theorem among_serial {m : Method} (hm : Served (.store m)) {r : Option m.Ans} (h : Among now m.body c r c') :
    ∃ db db₁, Commands c.db db ∧ m.run now ⟨db, c.fates⟩ = (r, ⟨db₁, c'.fates⟩) ∧ Commands db₁ c'.db := by
  cases m with
  | recordOwner owner urcId name =>
    obtain ⟨db, hdb, hr⟩ := among_recordOwner h
    exact ⟨db, c'.db, hdb, hr, .refl⟩
  | deleteResource urcId => exact among_deleteResource h
  | roleFor subject urcId =>
    obtain ⟨db, hdb, hafter, hr⟩ := among_query (q := .roles urcId subject) (k := bestRole) h
    exact ⟨db, db, hdb, hr, hafter⟩
  | accessible subject =>
    change Among now (queryRows (.accessible subject)) c r c' at h
    rw [← Prog.bind_ret (queryRows (.accessible subject))] at h
    obtain ⟨db, hdb, hafter, hr⟩ := among_query (q := .accessible subject) (k := id) h
    refine ⟨db, db, hdb, ?_, hafter⟩
    show (queryRows (.accessible subject)).run (Stmt.exec now) ⟨db, c.fates⟩ = _
    rw [← Prog.bind_ret (queryRows (.accessible subject))]
    exact hr
  | _ => exact hm.elim

/-- A method that nothing comes into. -/
theorem among_run {α : Type} {p : Body α} {r : Option α} (h : p.run (Stmt.exec now) c = (r, c')) :
    Among now p c r c' := by
  induction p generalizing c with
  | ret a =>
    cases h
    exact ⟨rfl, rfl⟩
  | call s k ih =>
    rw [Among]
    refine ⟨c.db, .refl, ?_⟩
    rw [Prog.run_call] at h
    change match Stmt.exec now s c with
      | (some b, c₁) => Among now (k b) c₁ r c'
      | (none, c₁) => r = none ∧ c' = c₁
    rcases he : Stmt.exec now s c with ⟨_ | b, c₁⟩
    · rw [he] at h
      cases h
      exact ⟨rfl, rfl⟩
    · rw [he] at h
      exact ih b h

/-! ## The service -/

variable {U : Unicode} {a : AuthConfig}

theorem reach_commands {p : Pool Request Call Call.Ans (Except Status Reply) Db} (hp : Reach U a p)
    (h : Commands p.shared db) : Reach U a { p with shared := db } := by
  induction h with
  | refl => exact hp
  | tail _ hs ih =>
    obtain ⟨args, hs⟩ := hs
    exact .step (.env args) ih trivial (.env _ args _ hs)

/-- Whether admin commands come into a method or not, the service comes to the same
    pools. -/
theorem reach_statementwise {p : Pool Request Call Call.Ans (Except Status Reply) Db} :
    (statementwise U a).Reach (fun _ _ => True) (· = Db.empty) p ↔ Reach U a p := by
  constructor
  · intro hp
    induction hp with
    | init s hs => exact .init s hs
    | step v hp _ hs ih =>
      cases hs with
      | start i => exact .step (.start i) ih trivial (.start _ i)
      | env args s' h => exact .step (.env args) ih trivial (.env _ args s' h)
      | act n i c k b s' hn h =>
        have hserved : Served c := (System.reach_makes (P := fun _ => Served) (fun i => handle_served U a i.rpc) ih _
          (List.mem_of_getElem? hn)).1
        cases c with
        | store m =>
          obtain ⟨now, fates, fates', h⟩ := h
          obtain ⟨db, db₁, hbefore, hrun, hafter⟩ := among_serial hserved h
          have hstep := System.Reach.step (.act n) (reach_commands ih hbefore) trivial
            (.act _ n i _ k b db₁ hn ⟨now, fates, fates', hrun⟩)
          exact reach_commands hstep hafter
        | _ => exact .step (.act n) ih trivial (.act _ n i _ k b s' hn h)
  · intro hp
    induction hp with
    | init s hs => exact .init s hs
    | step v hp _ hs ih =>
      cases hs with
      | start i => exact .step (.start i) ih trivial (.start _ i)
      | env args s' h => exact .step (.env args) ih trivial (.env _ args s' h)
      | act n i c k b s' hn h =>
        refine .step (.act n) ih trivial (.act _ n i c k b s' hn ?_)
        cases c with
        | store m =>
          obtain ⟨now, fates, fates', h⟩ := h
          exact ⟨now, fates, fates', among_run h⟩
        | _ => exact h

end Kaguya.Auth.Statements
