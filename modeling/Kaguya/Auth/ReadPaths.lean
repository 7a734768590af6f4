/-
  Kaguya.Auth.ReadPaths — the four ways the service reads access agree, on every
  reachable store with no writer in between. `CheckUserPermission` splits the ids it is
  asked about; the exchange mints the same list, whatever the presented token carried
  (a bearer resolves to identity claims, which have no `resources`);
  `LookupUserPermissions` lists every resource with a role once, and its fallback to
  `member` is never taken; `DeleteResource` goes through exactly when `owner` is among
  the permissions reported for the resource.

  The lookup goes by another query than the rest. That the two agree rests on the role
  strings in a reachable store: each is one the store wrote, so a grant row that is
  listed gives a role (`accessible_iff_role`).
-/

import Kaguya.Auth.Runs

namespace Kaguya.Auth.ReadPaths

open Kaguya.Auth.Jwt
open Kaguya.Auth.Store
open Kaguya.Auth.Service
open Kaguya.Auth.Runs
open Kaguya.Auth.Verify (Unicode)

/-- The permissions reported for a resource: its role's, or none. -/
def reported (db : Db) (sub id : String) : List String := ((db.roleFor sub id).map Role.permissions).getD []

/-- A grant of the token as a permission of the reply. -/
def permissionOf (g : ResourceGrant) : ResourcePermission := ⟨g.resourceId, g.permission⟩

theorem granted_eq_allowed (db : Db) (sub : String) (ids : List String) :
    (granted db sub ids).map permissionOf = allowed db sub ids := by
  unfold granted allowed
  rw [List.map_filterMap]
  congr 1
  funext id
  cases db.roleFor sub id <;> rfl

theorem owner_mem_permissions {role : Role} : "owner" ∈ role.permissions ↔ role = .owner := by
  cases role <;> decide

theorem owner_mem_reported {db : Db} {sub id : String} :
    "owner" ∈ reported db sub id ↔ db.roleFor sub id = some .owner := by
  unfold reported
  cases h : db.roleFor sub id with
  | none => simp
  | some role => simp [owner_mem_permissions]

section Listed

variable {db : Db} {sub : String}

theorem listed_ids (db : Db) (sub : String) : (listed db sub).map (·.resourceId) = db.accessible sub := by
  unfold listed
  rw [List.map_map]
  exact List.map_id _

/-- An id that is listed has a role: the fallback is not taken. -/
theorem role_of_accessible (h : RolesKnown db) {id : String} (hid : id ∈ db.accessible sub) :
    db.roleFor sub id ≠ none := by
  obtain ⟨role, hr⟩ := (accessible_iff_role h).mp hid
  rw [hr]
  exact Option.some_ne_none role

theorem mem_listed (h : RolesKnown db) {p : ResourcePermission} :
    p ∈ listed db sub ↔ ∃ role, db.roleFor sub p.resourceId = some role ∧ p.permission = role.permissions := by
  unfold listed
  rw [List.mem_map]
  constructor
  · intro hp
    obtain ⟨id, hid, rfl⟩ := hp
    obtain ⟨role, hr⟩ := (accessible_iff_role h).mp hid
    exact ⟨role, hr, by simp [Service.grant, hr]⟩
  · intro hp
    obtain ⟨role, hr, hperm⟩ := hp
    refine ⟨p.resourceId, (accessible_iff_role h).mpr ⟨role, hr⟩, ?_⟩
    rw [hr, Option.getD_some, Service.grant, ← hperm]

end Listed

/-- The read paths agree: what each answers for a verified caller, on a reachable
    store. -/
theorem read_paths_agree {U : Unicode} {a : AuthConfig} {db : Db} (hdb : Reachable U a db) {env : Env}
    {auth : Option String} {claims : IdentityClaims} (hi : env.identity (bearer auth) = .ok claims)
    (ids : List String) :
    ((Rpc.checkUserPermission auth ids).serve U a env ⟨db, []⟩ =
      (some (.ok (.checked ⟨allowed db claims.sub ids, denied db claims.sub ids⟩)), ⟨db, []⟩)) ∧
    ((Rpc.exchangeUserTokenForMultiresourceToken auth ids).serve U a env ⟨db, []⟩ =
      if (bearer auth).isEmpty then (some (.error ⟨.unauthenticated, "missing bearer token"⟩), ⟨db, []⟩)
      else (some ((issued claims.sub claims (env.encode (mintHeader a)
        (mintedFor a env.nowSecs claims.sub claims (granted db claims.sub ids)))).map Reply.exchanged), ⟨db, []⟩)) ∧
    (granted db claims.sub ids).map permissionOf = allowed db claims.sub ids ∧
    (∃ l, (Rpc.lookupUserPermissions auth).serve U a env ⟨db, []⟩ = (some (.ok (.looked ⟨l, none⟩)), ⟨db, []⟩) ∧
      (l.map (·.resourceId)).Nodup ∧
      (∀ p, p ∈ l ↔ ∃ role, db.roleFor claims.sub p.resourceId = some role ∧ p.permission = role.permissions)) ∧
    (∀ id ∈ db.accessible claims.sub, db.roleFor claims.sub id ≠ none) ∧
    ∀ id, ((Rpc.deleteResource auth id).serve U a env ⟨db, []⟩).1 =
      if "owner" ∈ reported db claims.sub id then some (.ok .deleted)
      else some (.error ⟨.permissionDenied, "not an owner of this resource"⟩) := by
  have hk : RolesKnown db := reachable_rolesKnown hdb
  refine ⟨serve_check hi db ids, ?_, granted_eq_allowed db claims.sub ids, ?_, fun id => role_of_accessible hk, ?_⟩
  · by_cases hb : (bearer auth).isEmpty = true
    · rw [if_pos hb]
      exact serve_exchange_empty hb ⟨db, []⟩ ids
    · rw [if_neg hb]
      exact serve_exchange (Bool.not_eq_true _ ▸ hb) hi db ids
  · refine ⟨listed db claims.sub, serve_lookup hi db, ?_, fun p => mem_listed hk⟩
    rw [listed_ids]
    exact accessible_nodup db claims.sub
  · intro id
    rw [serve_delete hi]
    by_cases h : db.roleFor claims.sub id = some .owner
    · rw [if_pos h, if_pos (owner_mem_reported.mpr h)]
    · rw [if_neg h, if_neg fun ho => h (owner_mem_reported.mp ho)]

/-- A store in which alice owns one resource. -/
def aliceDb : Db := (Method.grant "alice" "urc-1" .owner).effect 0 Db.empty

theorem aliceDb_reachable : Reachable Unicode.ascii AuthConfig.lore aliceDb :=
  reachable_admin reachable_empty ["grant", "alice", "urc-1", "owner"] 0 rfl

theorem read_paths_agree_alice :
    ((Rpc.checkUserPermission (some "Bearer t") ["urc-1", "urc-2", "urc-1"]).serve Unicode.ascii AuthConfig.lore
      (Env.ofCaller "t" { sub := "alice", exp := 2000000000 }) ⟨aliceDb, []⟩).1 =
      some (.ok (.checked
        ⟨[⟨"urc-1", Role.owner.permissions⟩, ⟨"urc-1", Role.owner.permissions⟩], [⟨"urc-2", []⟩]⟩)) := by
  have hi : (Env.ofCaller "t" { sub := "alice", exp := 2000000000 }).identity (bearer (some "Bearer t")) =
      .ok { sub := "alice", exp := 2000000000 } := Env.ofCaller_identity "t" _
  rw [(read_paths_agree aliceDb_reachable hi ["urc-1", "urc-2", "urc-1"]).1]
  decide

end Kaguya.Auth.ReadPaths
