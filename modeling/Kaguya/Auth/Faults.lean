/-
  Kaguya.Auth.Faults — `record_owner` and `delete_resource` when a statement fails. Each
  makes two writes with no transaction around them, so a failure of the second leaves
  the first one's change behind although the call answers with the error.

  `atomic_iff`: a call leaves no trace of an error exactly when the failing statement is
  the first, or the first changed nothing. Left behind are a resource row without an
  owner grant, which locks its creator out for good (`record_leaves_trace`: the retry
  answers ok and gives no role), or a resource row whose grants are gone.
-/

import Kaguya.Auth.ServiceProofs

namespace Kaguya.Auth.Faults

open Kaguya.Lib
open Kaguya.Auth.Jwt
open Kaguya.Auth.Store
open Kaguya.Auth.Service
open Kaguya.Auth.Verify (Unicode)

/-! ## Two writes in a row -/

/-- Two writes, the second made when the first changed enough rows. -/
def twoWrites (first second : Write) (go : Nat → Prop) [DecidablePred go] : Body (Except SqlError Unit) := do
  match ← execute first with
  | .error e => return .error e
  | .ok n =>
    if go n then
      match ← execute second with
      | .error e => return .error e
      | .ok _ => return .ok ()
    else return .ok ()

section TwoWrites

variable {first second : Write} {go : Nat → Prop} [DecidablePred go] {now : Int} {db : Db} {f g : Fate}

theorem run_twoWrites (now : Int) (db : Db) (f g : Fate) :
    (twoWrites first second go).run (Stmt.exec now) ⟨db, [f, g]⟩ =
      match f.error with
      | some e => (some (.error e), ⟨db, [g]⟩)
      | none =>
        if go (first.exec db).2 then
          match g.error with
          | some e => (some (.error e), ⟨(first.exec db).1, []⟩)
          | none => (some (.ok ()), ⟨(second.exec (first.exec db).1).1, []⟩)
        else (some (.ok ()), ⟨(first.exec db).1, [g]⟩) := by
  unfold twoWrites
  rw [run_execute]
  show (match f.error with | some _ => _ | none => _) = _
  cases f.error with
  | some e => rfl
  | none =>
    dsimp only
    by_cases h : go (first.exec db).2
    · rw [if_pos h, if_pos h, run_execute]
      show (match g.error with | some _ => _ | none => _) = _
      cases g.error <;> rfl
    · rw [if_neg h, if_neg h]
      rfl

/-- The call fails in the state the first write left. -/
theorem twoWrites_error {e : SqlError}
    (h : ((twoWrites first second go).run (Stmt.exec now) ⟨db, [f, g]⟩).1 = some (.error e)) :
    (f.error = some e ∧ ((twoWrites first second go).run (Stmt.exec now) ⟨db, [f, g]⟩).2.db = db) ∨
    (f.error = none ∧ g.error = some e ∧ go (first.exec db).2 ∧
      ((twoWrites first second go).run (Stmt.exec now) ⟨db, [f, g]⟩).2.db = (first.exec db).1) := by
  rw [run_twoWrites] at h ⊢
  cases hf : f.error with
  | some e' =>
    simp only [hf, Option.some.injEq, Except.error.injEq] at h
    exact Or.inl ⟨by rw [h], rfl⟩
  | none =>
    simp only [hf] at h
    by_cases hg : go (first.exec db).2
    · rw [if_pos hg] at h
      refine Or.inr ⟨rfl, ?_⟩
      dsimp only
      rw [if_pos hg]
      cases he : g.error with
      | some e' =>
        simp only [he, Option.some.injEq, Except.error.injEq] at h
        exact ⟨by rw [h], hg, rfl⟩
      | none =>
        simp only [he, Option.some.injEq] at h
        cases h
    · rw [if_neg hg] at h
      cases h

end TwoWrites

/-! ## The two operations -/

/-- The store's operations of two writes. -/
inductive Update where
  | recordOwner (owner urcId name : String)
  | deleteResource (urcId : String)

def Update.body : Update → Body (Except SqlError Unit)
  | recordOwner owner urcId name => Store.recordOwner owner urcId name
  | deleteResource urcId => Store.deleteResource urcId

def Update.run (now : Int) (u : Update) (c : Conn) : Option (Except SqlError Unit) × Conn :=
  u.body.run (Stmt.exec now) c

def Update.first (now : Int) : Update → Write
  | recordOwner _ urcId name => .insertResource urcId name now
  | deleteResource urcId => .deleteGrants urcId

def Update.second : Update → Write
  | recordOwner owner urcId _ => .insertOwner owner urcId
  | deleteResource urcId => .deleteResource urcId

/-- `record_owner` goes on when the resource row is new. -/
def Update.goesOn : Update → Nat → Prop
  | recordOwner .., n => n > 0
  | deleteResource _, _ => True

instance (u : Update) : DecidablePred u.goesOn := fun n => by
  cases u with
  | recordOwner owner urcId name => exact inferInstanceAs (Decidable (n > 0))
  | deleteResource urcId => exact inferInstanceAs (Decidable True)

theorem Update.run_eq (now : Int) (u : Update) (c : Conn) :
    u.run now c = (twoWrites (u.first now) u.second u.goesOn).run (Stmt.exec now) c := by
  cases u with
  | recordOwner owner urcId name => rfl
  | deleteResource urcId =>
    have hb : (Update.deleteResource urcId).body =
        twoWrites (.deleteGrants urcId) (.deleteResource urcId) (Update.deleteResource urcId).goesOn := by
      refine congrArg (execute (.deleteGrants urcId) >>= ·) (funext fun r => ?_)
      cases r <;> rfl
    rw [Update.run, hb]
    rfl

/-- The operation's first write changes a row. -/
def Update.firstWrites : Update → Db → Prop
  | recordOwner _ urcId _, db => ¬ db.Created urcId
  | deleteResource urcId, db => ∃ g ∈ db.grants, g.urcId = urcId

/-- No first write is left behind: it fails itself, the second does not, or it changes
    nothing. -/
def Update.Spared (u : Update) (db : Db) (f g : Fate) : Prop :=
  f.error ≠ none ∨ g.error = none ∨ ¬ u.firstWrites db

theorem first_same {u : Update} {db : Db} (now : Int) (h : ¬ u.firstWrites db) : ((u.first now).exec db).1 = db := by
  cases u with
  | recordOwner owner urcId name =>
    have hc : db.Created urcId := not_not.mp h
    simp only [Update.first, Write.exec, resource_old hc]
  | deleteResource urcId =>
    have hnone : ∀ g ∈ db.grants, decide (g.urcId = urcId) = false := by
      intro g hg
      exact decide_eq_false fun e => h ⟨g, hg, e⟩
    simp only [Update.first, Write.exec, Table.deleteWhere_of_none hnone]

theorem first_changes {u : Update} {db : Db} (now : Int) (h : u.firstWrites db) :
    u.goesOn ((u.first now).exec db).2 ∧ ((u.first now).exec db).1 ≠ db := by
  cases u with
  | recordOwner owner urcId name =>
    refine ⟨resource_new.mpr h, fun e => h ?_⟩
    have hmem : (⟨urcId, name, now⟩ : ResourceRow) ∈
        (((Update.recordOwner owner urcId name).first now).exec db).1.resources :=
      Table.mem_insertOrIgnore.mpr (Or.inr ⟨rfl, fun row hrow hk => h ⟨row, hrow, hk⟩⟩)
    rw [e] at hmem
    exact ⟨_, hmem, rfl⟩
  | deleteResource urcId =>
    refine ⟨trivial, fun e => ?_⟩
    obtain ⟨g, hg, hu⟩ := h
    have hmem : g ∈ (((Update.deleteResource urcId).first now).exec db).1.grants := by
      rw [e]
      exact hg
    exact absurd hu (of_decide_eq_false (Table.mem_deleteWhere.mp hmem).2)

/-! ## Errors without a trace -/

/-- A call that answers with an error leaves the tables as they were, and made again
    does what it would have done. -/
def Atomic (now : Int) (u : Update) (db : Db) (f g : Fate) : Prop :=
  ∀ e, (u.run now ⟨db, [f, g]⟩).1 = some (.error e) →
    (u.run now ⟨db, [f, g]⟩).2.db = db ∧
    ∀ later, u.run later ⟨(u.run now ⟨db, [f, g]⟩).2.db, []⟩ = u.run later ⟨db, []⟩

/-- The same of an RPC that answers `internal`, and of its retry by anyone. -/
def RpcAtomic (U : Unicode) (a : AuthConfig) (env : Env) (rpc : Rpc) (db : Db) (fates : List Fate) : Prop :=
  ∀ message, (rpc.serve U a env ⟨db, fates⟩).1 = some (.error ⟨.internal, message⟩) →
    (rpc.serve U a env ⟨db, fates⟩).2.db = db ∧
    ∀ env', rpc.serve U a env' ⟨(rpc.serve U a env ⟨db, fates⟩).2.db, []⟩ = rpc.serve U a env' ⟨db, []⟩

theorem error_same {u : Update} {db : Db} {now : Int} {f g : Fate} (hs : u.Spared db f g) {e : SqlError}
    (he : (u.run now ⟨db, [f, g]⟩).1 = some (.error e)) : (u.run now ⟨db, [f, g]⟩).2.db = db := by
  rw [Update.run_eq] at he ⊢
  rcases twoWrites_error he with ⟨_, h⟩ | ⟨hf, hg, _, h⟩
  · exact h
  · rw [h]
    rcases hs with hs | hs | hs
    · exact absurd hf hs
    · rw [hs] at hg
      cases hg
    · exact first_same now hs

theorem atomic_iff (now : Int) (u : Update) (db : Db) (f g : Fate) : Atomic now u db f g ↔ u.Spared db f g := by
  constructor
  · intro h
    by_contra hs
    unfold Update.Spared at hs
    push Not at hs
    obtain ⟨hf, hg, hw⟩ := hs
    obtain ⟨hgo, hne⟩ := first_changes now hw
    obtain ⟨e, he⟩ := Option.ne_none_iff_exists'.mp hg
    have hrun : u.run now ⟨db, [f, g]⟩ = (some (.error e), ⟨((u.first now).exec db).1, []⟩) := by
      rw [Update.run_eq, run_twoWrites, hf, he]
      exact if_pos hgo
    have hsame := (h e (by rw [hrun])).1
    rw [hrun] at hsame
    exact hne hsame
  · intro hs e he
    have hsame := error_same hs he
    exact ⟨hsame, fun later => by rw [hsame]⟩

/-- A handler answers with an error of the store only when the store did. -/
theorem written_error {r : Option (Except SqlError Unit)} {k : Unit → Reply} {status : Status}
    (h : (written r).map (Except.map k) = some (.error status)) : ∃ e, r = some (.error e) := by
  rcases r with _ | ⟨e | _⟩
  · cases h
  · exact ⟨e, rfl⟩
  · cases h

theorem createResource_atomic {U : Unicode} {a : AuthConfig} {env : Env} {auth : Option String} {id name : String}
    {claims : IdentityClaims} {db : Db} {f g : Fate} (hi : env.identity (bearer auth) = .ok claims)
    (hs : (Update.recordOwner claims.sub id name).Spared db f g) :
    RpcAtomic U a env (.createResource auth id name) db [f, g] := by
  intro message hm
  have hserve : (Rpc.createResource auth id name).serve U a env ⟨db, [f, g]⟩ =
      ((written ((Update.recordOwner claims.sub id name).run env.now ⟨db, [f, g]⟩).1).map
          (Except.map fun _ => .created),
        ((Update.recordOwner claims.sub id name).run env.now ⟨db, [f, g]⟩).2) := by
    refine (run_reply _ _ _).trans ?_
    rw [run_createResource, hi]
    rfl
  rw [hserve] at hm ⊢
  obtain ⟨e, he⟩ := written_error hm
  have hsame : ((Update.recordOwner claims.sub id name).run env.now ⟨db, [f, g]⟩).2.db = db := error_same hs he
  exact ⟨hsame, fun env' => by rw [hsame]⟩

/-- The role is read before the two writes; when the read fails there is no reply. -/
theorem serve_deleteResource_internal {U : Unicode} {a : AuthConfig} {env : Env} {auth : Option String} {id : String}
    {db : Db} {f g h : Fate} {message : String}
    (hm : ((Rpc.deleteResource auth id).serve U a env ⟨db, [h, f, g]⟩).1 = some (.error ⟨.internal, message⟩)) :
    ∃ e, ((Update.deleteResource id).run env.now ⟨db, [f, g]⟩).1 = some (.error e) ∧
      ((Rpc.deleteResource auth id).serve U a env ⟨db, [h, f, g]⟩).2 =
        ((Update.deleteResource id).run env.now ⟨db, [f, g]⟩).2 := by
  have hserve := @run_reply _ env (fun _ : Unit => Reply.deleted) (deleteResource auth id) ⟨db, [h, f, g]⟩
  change (Rpc.deleteResource auth id).serve U a env ⟨db, [h, f, g]⟩ = _ at hserve
  rw [hserve] at hm ⊢
  rw [run_deleteResource] at hm ⊢
  cases hi : env.identity (bearer auth) with
  | error e =>
    rw [hi] at hm
    cases hm
  | ok claims =>
    simp only [hi] at hm ⊢
    have hconn : ((Method.roleFor claims.sub id).run env.now ⟨db, [h, f, g]⟩).2 = ⟨db, [f, g]⟩ := by
      rw [run_roleFor]
      cases (Conn.fate ⟨db, [h, f, g]⟩).error <;> rfl
    rcases e : (Method.roleFor claims.sub id).run env.now ⟨db, [h, f, g]⟩ with ⟨_ | role, conn⟩
    · simp only [e] at hm
      cases hm
    · rw [e] at hconn
      have hc : conn = ⟨db, [f, g]⟩ := hconn
      subst hc
      simp only [e] at hm ⊢
      by_cases hr : role ≠ some .owner
      · rw [if_pos hr] at hm
        cases hm
      · rw [if_neg hr] at hm ⊢
        obtain ⟨e', he'⟩ := written_error hm
        exact ⟨e', he', rfl⟩

theorem deleteResource_atomic {U : Unicode} {a : AuthConfig} {env : Env} {auth : Option String} {id : String}
    {db : Db} {f g h : Fate} (hs : (Update.deleteResource id).Spared db f g) :
    RpcAtomic U a env (.deleteResource auth id) db [h, f, g] := by
  intro message hm
  obtain ⟨e, he, hserve⟩ := serve_deleteResource_internal hm
  have hsame : ((Rpc.deleteResource auth id).serve U a env ⟨db, [h, f, g]⟩).2.db = db := by
    rw [hserve]
    exact error_same hs he
  exact ⟨hsame, fun env' => by rw [hsame]⟩

/-- Errors leave no trace exactly where no first write is left behind, and there the
    RPCs that answer `internal` leave none either. -/
theorem atomic_on_error (U : Unicode) (a : AuthConfig) (now : Int) (u : Update) (db : Db) (f g : Fate) :
    (Atomic now u db f g ↔ u.Spared db f g) ∧
    (∀ env auth id name claims, env.identity (bearer auth) = .ok claims → u = .recordOwner claims.sub id name →
      u.Spared db f g → RpcAtomic U a env (.createResource auth id name) db [f, g]) ∧
    ∀ env auth id h, u = .deleteResource id → u.Spared db f g →
      RpcAtomic U a env (.deleteResource auth id) db [h, f, g] := by
  refine ⟨atomic_iff now u db f g, ?_, ?_⟩
  · intro env auth id name claims hi hu hs
    subst hu
    exact createResource_atomic hi hs
  · intro env auth id h hu hs
    subst hu
    exact deleteResource_atomic hs

/-- The creator's grant fails on a full disk: the resource row stays, and a retry
    answers ok without making the creator an owner. -/
theorem record_leaves_trace :
    ¬ Atomic 0 (.recordOwner "alice" "urc-1" "repo") Db.empty {} { error := some .full } := by
  intro h
  have hs := (atomic_iff 0 (.recordOwner "alice" "urc-1" "repo") Db.empty {} { error := some .full }).mp h
  rcases hs with hs | hs | hs
  · exact hs rfl
  · cases hs
  · exact hs fun ⟨row, hrow, _⟩ => Table.not_mem_empty row hrow

example : ((Update.recordOwner "alice" "urc-1" "repo").run 1
    ((Update.recordOwner "alice" "urc-1" "repo").run 0 ⟨Db.empty, [{}, { error := some .full }]⟩).2).2.db.roleFor
      "alice" "urc-1" = none := by decide

end Kaguya.Auth.Faults
