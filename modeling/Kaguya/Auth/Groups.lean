/-
  Kaguya.Auth.Groups — user ids and group names in one column. `grants.subject` holds "a
  user id, or 'group:<name>'", and nothing keeps a provider from issuing a `sub` (or an
  email) that begins with `group:`. A user of that name has every grant of the group
  without being a member, and what it creates is owned by the group's members.

  `members_only_iff`: a group's grants reach its members only, and a creator shares its
  ownership with nobody, for exactly the users whose id is no group subject.
-/

import Kaguya.Auth.Runs

namespace Kaguya.Auth.Groups

open Kaguya.Lib
open Kaguya.Auth.Jwt
open Kaguya.Auth.Store
open Kaguya.Auth.Service
open Kaguya.Auth.Runs
open Kaguya.Auth.Verify (Unicode)

/-- The tables without the grants to `x`. -/
def without (db : Db) (x : String) : Db := { db with grants := (db.grants.deleteWhere (·.subject = x)).1 }

/-- In every reachable store the grants to a group that `u` is not in do nothing for
    `u`: not for its roles, its listing or the tokens minted for it; and a resource that
    `u` creates makes nobody else an owner. -/
structure MembersOnly (U : Unicode) (a : AuthConfig) (u : String) : Prop where
  role : ∀ db g, Reachable U a db → ⟨g, u⟩ ∉ db.groupMembers →
    ∀ urcId, (without db (groupSubject g)).roleFor u urcId = db.roleFor u urcId
  accessible : ∀ db g, Reachable U a db → ⟨g, u⟩ ∉ db.groupMembers →
    (without db (groupSubject g)).accessible u = db.accessible u
  minted : ∀ db g, Reachable U a db → ⟨g, u⟩ ∉ db.groupMembers →
    ∀ env auth claims ids, env.identity (bearer auth) = .ok claims → claims.sub = u →
      ((Rpc.exchangeUserTokenForMultiresourceToken auth ids).serve U a env ⟨without db (groupSubject g), []⟩).1 =
        ((Rpc.exchangeUserTokenForMultiresourceToken auth ids).serve U a env ⟨db, []⟩).1
  creator : ∀ db, Reachable U a db →
    ∀ env auth claims urcId name, env.identity (bearer auth) = .ok claims → claims.sub = u →
      ∀ s id, s ≠ u →
        ((Rpc.createResource auth urcId name).serve U a env ⟨db, []⟩).2.db.roleFor s id = some .owner →
        db.roleFor s id = some .owner

/-! ## Users that are named like no group -/

section Named

variable {u : String}

/-- A group's grants reach no user outside it. -/
theorem not_reaches (hu : ∀ g, u ≠ groupSubject g) {db : Db} {g : String} (hg : ⟨g, u⟩ ∉ db.groupMembers) :
    ¬ Reaches db u (groupSubject g) := by
  intro h
  rcases h with h | ⟨grp, hm, h⟩
  · exact hu g h.symm
  · rw [groupSubject_inj] at h
    exact hg (h ▸ hm)

theorem without_roleFor (hu : ∀ g, u ≠ groupSubject g) {db : Db} {g : String} (hg : ⟨g, u⟩ ∉ db.groupMembers)
    (urcId : String) : (without db (groupSubject g)).roleFor u urcId = db.roleFor u urcId := by
  refine roleFor_congr fun role => exists_congr fun row => ?_
  have hrow : row ∈ (without db (groupSubject g)).grants ↔ row ∈ db.grants ∧ row.subject ≠ groupSubject g := by
    refine Table.mem_deleteWhere.trans (and_congr_right fun _ => ?_)
    rw [decide_eq_false_iff_not]
  rw [hrow]
  refine ⟨fun ⟨⟨h, _⟩, hp⟩ => ⟨h, hp⟩, fun ⟨h, hid, hr, hp⟩ => ⟨⟨h, fun e => ?_⟩, hid, hr, hp⟩⟩
  exact not_reaches hu hg (e ▸ hr)

theorem without_accessible (hu : ∀ g, u ≠ groupSubject g) {db : Db} {g : String} (hg : ⟨g, u⟩ ∉ db.groupMembers) :
    (without db (groupSubject g)).accessible u = db.accessible u := by
  have hrows : (db.grants.rows.filter fun row => !decide (row.subject = groupSubject g)).filter (concerns db u) =
      db.grants.rows.filter (concerns db u) := by
    rw [List.filter_filter]
    refine List.filter_congr fun row _ => ?_
    by_cases h : concerns db u row = true
    · have hne : row.subject ≠ groupSubject g := fun e => not_reaches hu hg (e ▸ concerns_iff.mp h)
      simp [h, hne]
    · simp [h]
  exact congrArg (fun rows => (rows.map GrantRow.urcId).dedup) hrows

theorem create_roleFor (hu : ∀ g, u ≠ groupSubject g) {db : Db} {now : Int} {urcId name s id : String} (hs : s ≠ u)
    (ho : ((Method.recordOwner u urcId name).effect now db).roleFor s id = some .owner) :
    db.roleFor s id = some .owner := by
  rw [roleFor_owner] at ho ⊢
  obtain ⟨row, hrow, hid, hr, hp⟩ := ho
  have hmem : ((Method.recordOwner u urcId name).effect now db).groupMembers = db.groupMembers :=
    members_effect (by simp)
  rw [Reaches, hmem] at hr
  rcases grants_recordOwner.mp hrow with hold | ⟨_, rfl, _⟩
  · exact ⟨row, hold, hid, hr, hp⟩
  · rcases hr with hr | ⟨grp, _, hr⟩
    · exact absurd hr.symm hs
    · exact absurd hr (hu grp)

theorem membersOnly (U : Unicode) (a : AuthConfig) (hu : ∀ g, u ≠ groupSubject g) : MembersOnly U a u where
  role _ _ _ hg := without_roleFor hu hg
  accessible _ _ _ hg := without_accessible hu hg
  minted db g _ hg env auth claims ids hi hsub := by
    by_cases hb : (bearer auth).isEmpty = true
    · rw [serve_exchange_empty hb, serve_exchange_empty hb]
    · have hb' : (bearer auth).isEmpty = false := Bool.not_eq_true _ ▸ hb
      have hgranted : granted (without db (groupSubject g)) claims.sub ids = granted db claims.sub ids := by
        unfold granted
        rw [hsub]
        simp only [without_roleFor hu hg]
      rw [serve_exchange hb' hi, serve_exchange hb' hi, hgranted]
  creator db _ env auth claims urcId name hi hsub s id hs ho := by
    rw [serve_create hi, hsub] at ho
    exact create_roleFor hu hs ho

end Named

/-! ## A user named like a group -/

/-- One grant to a group subject, and no members. -/
def groupDb (g : String) : Db := (Method.grant (groupSubject g) "urc-1" .member).effect 0 Db.empty

theorem groupDb_role (g : String) : (groupDb g).roleFor (groupSubject g) "urc-1" ≠ none := by
  intro h
  refine roleFor_eq_none.mp h .member ⟨_, grants_grant.mpr (Or.inl rfl), rfl, Or.inl rfl, ?_⟩
  exact Role.parse_asStr .member

theorem groupDb_without (g : String) :
    (without (groupDb g) (groupSubject g)).roleFor (groupSubject g) "urc-1" = none := by
  rw [roleFor_eq_none]
  intro role hp
  obtain ⟨row, hrow, _⟩ := hp
  obtain ⟨hrow, hne⟩ := Table.mem_deleteWhere.mp hrow
  rcases grants_grant.mp hrow with rfl | ⟨hold, _⟩
  · exact of_decide_eq_false hne rfl
  · exact Table.not_mem_empty row hold

/-- Group grants reach members only, for exactly the users named like no group. -/
theorem members_only_iff (U : Unicode) (a : AuthConfig) (u : String) :
    MembersOnly U a u ↔ ∀ g, u ≠ groupSubject g := by
  refine ⟨fun h g hu => ?_, membersOnly U a⟩
  subst hu
  have hr : Reachable U a (groupDb g) :=
    reachable_admin reachable_empty ["grant", groupSubject g, "urc-1", "member"] 0 rfl
  have hno : (⟨g, groupSubject g⟩ : MemberRow) ∉ (groupDb g).groupMembers := Table.not_mem_empty _
  exact groupDb_role g ((h.role _ g hr hno "urc-1").symm.trans (groupDb_without g))

/-- A provider `sub` of `group:eng`. -/
theorem not_membersOnly_group : ¬ ∀ u, MembersOnly Unicode.ascii AuthConfig.lore u :=
  fun h => (members_only_iff Unicode.ascii AuthConfig.lore "group:eng").mp (h "group:eng") "eng" rfl

end Kaguya.Auth.Groups
