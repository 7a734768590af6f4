/-
  Kaguya.Auth.Isolation — nobody gets at a resource that has an owner: whatever RPCs
  non-owners send, every subject's role on it stays. Access is decided by `grants`, but
  `record_owner` looks at `resources` to see whether a resource is new, so it holds for
  exactly the resources with a row there (`access_isolation`).

  An owner that the admin `grant` command recorded, the documented route for
  repositories that predate ReBAC, has no such row: the next caller of `CreateResource`
  becomes an owner too (`not_isolated`).
-/

import Kaguya.Auth.Runs
import Mathlib.Data.Fintype.EquivFin

namespace Kaguya.Auth.Isolation

open Kaguya.Lib
open Kaguya.Auth.Jwt
open Kaguya.Auth.Store
open Kaguya.Auth.Service
open Kaguya.Auth.Runs
open Kaguya.Auth.Verify (Unicode)

/-! ## Sequences of RPCs -/

/-- An RPC with the world it meets: its environment and how its statements fare. -/
structure Incoming where
  rpc : Rpc
  env : Env
  fates : List Fate

/-- The subject an RPC is authenticated as. -/
def Incoming.caller (q : Incoming) : Option String :=
  match q.rpc.authorization with
  | some auth => (q.env.identity (bearer auth)).toOption.map IdentityClaims.sub
  | none => none

section Isolated

variable (U : Unicode) (a : AuthConfig)

/-- The tables after one RPC, and after several in a row. -/
def Incoming.after (q : Incoming) (db : Db) : Db := (q.rpc.serve U a q.env ⟨db, q.fates⟩).2.db

def afterAll : List Incoming → Db → Db
  | [], db => db
  | q :: qs, db => afterAll qs (q.after U a db)

/-- Callers that do not own `urcId` leave everybody's role on it as it is. -/
def Isolated (db : Db) (urcId : String) : Prop :=
  ∀ qs : List Incoming, (∀ q ∈ qs, ∀ sub, q.caller = some sub → db.roleFor sub urcId ≠ some .owner) →
    ∀ s, (afterAll U a qs db).roleFor s urcId = db.roleFor s urcId

variable {U a}

/-! ## Created resources -/

/-- The grants on `urcId` and the memberships are those of `db`, and it is created. -/
structure Frame (urcId : String) (db db' : Db) : Prop where
  created : db'.Created urcId
  grants : ∀ g, g.urcId = urcId → (g ∈ db'.grants ↔ g ∈ db.grants)
  groupMembers : db'.groupMembers = db.groupMembers

theorem Frame.trans {urcId : String} {db db' db'' : Db} (h : Frame urcId db db') (h' : Frame urcId db' db'') :
    Frame urcId db db'' :=
  ⟨h'.created, fun g hg => (h'.grants g hg).trans (h.grants g hg), h'.groupMembers.trans h.groupMembers⟩

theorem Frame.roleFor {urcId : String} {db db' : Db} (h : Frame urcId db db') (s : String) :
    db'.roleFor s urcId = db.roleFor s urcId := by
  refine roleFor_congr fun role => ?_
  unfold RolePath Reaches
  rw [h.groupMembers]
  refine exists_congr fun g => ?_
  by_cases hg : g.urcId = urcId
  · rw [h.grants g hg]
  · simp [hg]

/-- Creating does nothing to a resource that is created, be it this one or another. -/
theorem recordOwner_frame {owner id name urcId : String} {db db' : Db} {now : Int} (hc : db.Created urcId)
    (hp : Leaves now (.recordOwner owner id name) db db') : Frame urcId db db' := by
  cases hp with
  | nothing => exact ⟨hc, fun _ _ => Iff.rfl, rfl⟩
  | effect =>
    refine ⟨created_recordOwner.mpr (Or.inl hc), fun g hg => ?_, members_effect (by simp)⟩
    rw [grants_recordOwner]
    refine or_iff_left ?_
    intro hn
    obtain ⟨hnew, rfl, _⟩ := hn
    have hid : id = urcId := hg
    exact hnew (hid ▸ hc)
  | resourceOnly _ _ _ _ hnew =>
    refine ⟨?_, fun _ _ => Iff.rfl, rfl⟩
    obtain ⟨row, hrow, hid⟩ := hc
    exact ⟨row, Table.mem_insertOrIgnore.mpr (Or.inl hrow), hid⟩

theorem deleteResource_frame {id urcId : String} {db db' : Db} {now : Int} (hc : db.Created urcId) (hne : urcId ≠ id)
    (hp : Leaves now (.deleteResource id) db db') : Frame urcId db db' := by
  have keep : ∀ g : GrantRow, g.urcId = urcId → (g ∈ db.grants ∧ g.urcId ≠ id ↔ g ∈ db.grants) :=
    fun g hg => and_iff_left (by rw [hg]; exact hne)
  cases hp with
  | nothing => exact ⟨hc, fun _ _ => Iff.rfl, rfl⟩
  | effect =>
    refine ⟨created_deleteResource.mpr ⟨hc, hne⟩, fun g hg => ?_, rfl⟩
    rw [grants_deleteResource]
    exact keep g hg
  | grantsOnly =>
    refine ⟨hc, fun g hg => ?_, rfl⟩
    exact (@grants_deleteResource db now id g).trans (keep g hg)

/-- One RPC by a caller that does not own the resource. -/
theorem serve_frame {urcId : String} {db : Db} (hc : db.Created urcId) (q : Incoming)
    (hq : ∀ sub, q.caller = some sub → db.roleFor sub urcId ≠ some .owner) : Frame urcId db (q.after U a db) := by
  rcases serve_tables U a q.env q.rpc ⟨db, q.fates⟩ with h | ⟨auth, id, name, claims, _, _, h⟩ |
    ⟨auth, id, claims, hr, hi, howner, h⟩
  · refine ⟨?_, fun g _ => ?_, ?_⟩ <;> rw [Incoming.after, h]
    exact hc
  · exact recordOwner_frame hc h
  · have hcaller : q.caller = some claims.sub := by
      unfold Incoming.caller
      rw [hr]
      simp only [Rpc.authorization, hi, Except.toOption, Option.map_some]
    refine deleteResource_frame hc ?_ h
    intro e
    exact hq claims.sub hcaller (e ▸ howner)

theorem afterAll_frame {urcId : String} {db db' : Db} (hf : Frame urcId db db') (qs : List Incoming)
    (hqs : ∀ q ∈ qs, ∀ sub, q.caller = some sub → db.roleFor sub urcId ≠ some .owner) :
    Frame urcId db (afterAll U a qs db') := by
  induction qs generalizing db' with
  | nil => exact hf
  | cons q qs ih =>
    have hq : Frame urcId db' (q.after U a db') := by
      refine serve_frame hf.created q fun sub hsub => ?_
      rw [hf.roleFor sub]
      exact hqs q List.mem_cons_self sub hsub
    exact ih (hf.trans hq) fun q' hq' => hqs q' (List.mem_cons_of_mem q hq')

theorem isolated_of_created {db : Db} {urcId : String} (hc : db.Created urcId) : Isolated U a db urcId :=
  fun qs hqs s => (afterAll_frame ⟨hc, fun _ _ => Iff.rfl, rfl⟩ qs hqs).roleFor s

/-! ## Resources that were never created -/

/-- A name that no row mentions. -/
theorem exists_stranger (db : Db) :
    ∃ s : String, (∀ g ∈ db.grants, g.subject ≠ s) ∧ ∀ m ∈ db.groupMembers, m.subject ≠ s := by
  obtain ⟨s, hs⟩ := Infinite.exists_notMem_finset
    ((db.grants.rows.map (·.subject)).toFinset ∪ (db.groupMembers.rows.map (·.subject)).toFinset)
  rw [Finset.mem_union, List.mem_toFinset, List.mem_toFinset, not_or] at hs
  refine ⟨s, fun g hg e => hs.1 ?_, fun m hm e => hs.2 ?_⟩
  · exact List.mem_map.mpr ⟨g, hg, e⟩
  · exact List.mem_map.mpr ⟨m, hm, e⟩

theorem roleFor_stranger {db : Db} {s : String} (hg : ∀ g ∈ db.grants, g.subject ≠ s)
    (hm : ∀ m ∈ db.groupMembers, m.subject ≠ s) (urcId : String) : db.roleFor s urcId = none := by
  rw [roleFor_eq_none]
  intro role hp
  obtain ⟨g, hgm, _, hx | ⟨grp, hgrp, _⟩, _⟩ := hp
  · exact hg g hgm hx
  · exact hm _ hgrp rfl

/-- The creator of a resource that has no row becomes its owner. -/
theorem create_owner {db : Db} {sub urcId name : String} {now : Int} (hc : ¬ db.Created urcId)
    (hg : ∀ g ∈ db.grants, g.subject ≠ sub) :
    ((Method.recordOwner sub urcId name).effect now db).roleFor sub urcId = some .owner := by
  rw [roleFor_owner]
  refine ⟨⟨sub, urcId, "owner"⟩, grants_recordOwner.mpr (Or.inr ⟨hc, rfl, ?_⟩), rfl, Or.inl rfl, rfl⟩
  intro g hgm hk
  exact hg g hgm (congrArg Prod.fst hk)

theorem created_of_isolated {db : Db} {urcId : String} (h : Isolated U a db urcId) : db.Created urcId := by
  by_contra hc
  obtain ⟨s, hg, hm⟩ := exists_stranger db
  have hnone : db.roleFor s urcId = none := roleFor_stranger hg hm urcId
  let attack : Incoming := ⟨.createResource (some "Bearer t") urcId "", Env.ofCaller "t" { sub := s, exp := 0 }, []⟩
  have hi : attack.env.identity (bearer (some "Bearer t")) = .ok { sub := s, exp := 0 } := Env.ofCaller_identity "t" _
  have hafter : attack.after U a db = (Method.recordOwner s urcId "").effect attack.env.now db :=
    congrArg (fun r => r.2.db) (serve_create hi db urcId "")
  have hsame : (attack.after U a db).roleFor s urcId = db.roleFor s urcId := by
    refine h [attack] (fun q hq sub hsub => ?_) s
    rw [List.mem_singleton.mp hq, Incoming.caller] at hsub
    simp only [attack, Rpc.authorization] at hsub
    have hsub' : s = sub := Option.some.inj hsub
    rw [← hsub', hnone]
    exact fun e => by cases e
  rw [hafter, create_owner hc hg, hnone] at hsame
  cases hsame

/-- A resource is isolated exactly when it has a row in `resources`. -/
theorem access_isolation {db : Db} {urcId : String} : Isolated U a db urcId ↔ db.Created urcId :=
  ⟨created_of_isolated, isolated_of_created⟩

end Isolated

/-- alice created the resource and the admin made a member of bob. -/
def createdDb : Db :=
  (Method.grant "bob" "urc-1" .member).effect 0 ((Method.recordOwner "alice" "urc-1" "repo").effect 0 Db.empty)

theorem access_isolation_created : createdDb.roleFor "alice" "urc-1" = some .owner ∧
    Isolated Unicode.ascii AuthConfig.lore createdDb "urc-1" :=
  ⟨by decide, access_isolation.mpr ⟨⟨"urc-1", "repo", 0⟩, by decide, rfl⟩⟩

/-- A repository that predates the store: the admin granted its owner. -/
def legacyDb : Db := (Method.grant "alice" "urc-1" .owner).effect 0 Db.empty

/-- Its owner is not protected: any caller of `CreateResource` becomes one too. -/
theorem not_isolated : ¬ ∀ db x urcId, Reachable Unicode.ascii AuthConfig.lore db → ⟨x, urcId, "owner"⟩ ∈ db.grants →
    Isolated Unicode.ascii AuthConfig.lore db urcId := by
  intro h
  have hr : Reachable Unicode.ascii AuthConfig.lore legacyDb :=
    reachable_admin reachable_empty ["grant", "alice", "urc-1", "owner"] 0 rfl
  have hc : legacyDb.Created "urc-1" := created_of_isolated (h legacyDb "alice" "urc-1" hr (by decide))
  obtain ⟨row, hrow, _⟩ := hc
  exact Table.not_mem_empty row hrow

end Kaguya.Auth.Isolation
