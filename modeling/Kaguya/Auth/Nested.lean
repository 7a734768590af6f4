/-
  Kaguya.Auth.Nested — groups in groups. `group-add` takes `group:<name>` for a subject,
  so groups may be members of groups, in chains and in cycles. A subject's closure is
  what it comes to along its memberships (`Within`); `role_for` and `accessible` take
  one step of it (`Reaches`).

  `closed_iff`: in a reachable store a subject has the access of its closure exactly when
  no grant that is only further up gives more than one within one step
  (`Matched`). `nested_not_closed`: alice is in a group that is in the group with the
  grant; in `cyclicDb` her own group has a stronger one.
-/

import Kaguya.Auth.Runs
import Mathlib.Logic.Relation
import Mathlib.Order.Bounds.Basic

namespace Kaguya.Auth.Nested

open Kaguya.Lib
open Kaguya.Auth.Store
open Kaguya.Auth.Service
open Kaguya.Auth.Runs
open Kaguya.Auth.Verify (Unicode)

/-! ## The closure -/

/-- `x` is a member of the group whose subject is `y`. -/
def MemberOf (db : Db) (x y : String) : Prop := ∃ grp, ⟨grp, x⟩ ∈ db.groupMembers ∧ y = groupSubject grp

/-- `subject` is `x`, or belongs to it directly or through other groups: the least set
    with `subject` that is closed under membership. -/
def Within (db : Db) : String → String → Prop := Relation.ReflTransGen (MemberOf db)

/-- A grant on `urcId` to something that `subject` is within. -/
def ClosurePath (db : Db) (subject urcId : String) (role : Role) : Prop :=
  ∃ g ∈ db.grants, g.urcId = urcId ∧ Within db subject g.subject ∧ Role.parse g.role = some role

/-- The store gives the access of the closure. -/
structure Closed (db : Db) (subject : String) : Prop where
  role : ∀ urcId role, db.roleFor subject urcId = some role ↔ IsGreatest {r | ClosurePath db subject urcId r} role
  accessible : ∀ urcId, urcId ∈ db.accessible subject ↔ ∃ role, ClosurePath db subject urcId role

/-- Each grant further up than one step is matched by one within it, on the same
    resource and at least as strong. -/
def Matched (db : Db) (subject : String) : Prop :=
  ∀ g ∈ db.grants, Within db subject g.subject → ¬ Reaches db subject g.subject → ∀ role, Role.parse g.role = some role →
    ∃ role', RolePath db subject g.urcId role' ∧ role ≤ role'

variable {db : Db} {subject urcId : String}

theorem within_of_reaches {x : String} (h : Reaches db subject x) : Within db subject x := by
  rcases h with rfl | h
  · exact Relation.ReflTransGen.refl
  · exact Relation.ReflTransGen.single h

theorem closure_of_path {role : Role} (h : RolePath db subject urcId role) : ClosurePath db subject urcId role := by
  obtain ⟨g, hg, hid, hr, hp⟩ := h
  exact ⟨g, hg, hid, within_of_reaches hr, hp⟩

/-- A set of roles that is not empty has a strongest one. -/
theorem exists_strongest {S : Set Role} {role : Role} (h : role ∈ S) : ∃ best, IsGreatest S best := by
  by_cases ho : Role.owner ∈ S
  · exact ⟨.owner, ho, fun r _ => Role.le_owner r⟩
  · have hmember : ∀ r ∈ S, r = Role.member := by
      intro r hr
      cases r with
      | member => rfl
      | owner => exact absurd hr ho
    exact ⟨role, h, fun r hr => (hmember r hr).trans (hmember role h).symm |>.le⟩

/-! ## Where the store is closed -/

/-- With the grants further up matched, one step has a path for every one of the closure. -/
theorem path_of_matched (h : Matched db subject) {role : Role} (hp : ClosurePath db subject urcId role) :
    ∃ role', RolePath db subject urcId role' ∧ role ≤ role' := by
  obtain ⟨g, hg, rfl, hw, hrole⟩ := hp
  by_cases hr : Reaches db subject g.subject
  · exact ⟨role, ⟨g, hg, rfl, hr, hrole⟩, le_refl role⟩
  · exact h g hg hw hr role hrole

theorem closed_of_matched (hk : RolesKnown db) (h : Matched db subject) : Closed db subject where
  role urcId role := by
    rw [roleFor_eq_some]
    constructor
    · intro hrole
      refine ⟨closure_of_path hrole.1, fun r hr => ?_⟩
      obtain ⟨r', hpath, hle⟩ := path_of_matched h hr
      exact hle.trans (hrole.2 r' hpath)
    · intro hg
      obtain ⟨r', hpath, hle⟩ := path_of_matched h hg.1
      have hsame : r' = role := le_antisymm (hg.2 (closure_of_path hpath)) hle
      exact ⟨hsame ▸ hpath, fun r hr => hg.2 (closure_of_path hr)⟩
  accessible urcId := by
    rw [accessible_iff_role hk]
    constructor
    · intro h
      obtain ⟨role, hrole⟩ := h
      exact ⟨role, closure_of_path (roleFor_eq_some.mp hrole).1⟩
    · intro hp
      obtain ⟨role, hp⟩ := hp
      obtain ⟨role', hpath, _⟩ := path_of_matched h hp
      cases e : db.roleFor subject urcId with
      | none => exact absurd hpath (roleFor_eq_none.mp e role')
      | some best => exact ⟨best, rfl⟩

/-- The role of the closure is granted within one step, and it is as strong as any. -/
theorem matched_of_closed (h : Closed db subject) : Matched db subject := by
  intro g hg hw _ role hrole
  have hp : role ∈ {r | ClosurePath db subject g.urcId r} := ⟨g, hg, rfl, hw, hrole⟩
  obtain ⟨best, hbest⟩ := exists_strongest hp
  exact ⟨best, (roleFor_eq_some.mp ((h.role g.urcId best).mpr hbest)).1, hbest.2 hp⟩

theorem closed_iff {U : Unicode} {a : AuthConfig} (hdb : Reachable U a db) (subject : String) :
    Closed db subject ↔ Matched db subject :=
  ⟨matched_of_closed, closed_of_matched (reachable_rolesKnown hdb)⟩

/-! ## A group in a group -/

/-- alice is in `child`, `child` is in `parent`, and `parent` has the grant. -/
def nestedDb : Db :=
  (Method.grant (groupSubject "parent") "urc-1" .member).effect 0
    ((Method.addGroupMember "child" "alice").effect 0
      ((Method.addGroupMember "parent" (groupSubject "child")).effect 0 Db.empty))

theorem nested_within : Within nestedDb "alice" (groupSubject "parent") := by
  have hchild : MemberOf nestedDb "alice" (groupSubject "child") := ⟨"child", by decide, rfl⟩
  have hparent : MemberOf nestedDb (groupSubject "child") (groupSubject "parent") := ⟨"parent", by decide, rfl⟩
  exact (Relation.ReflTransGen.single hchild).tail hparent

theorem nested_not_closed :
    ¬ ∀ (U : Unicode) (a : AuthConfig) (db : Db) (subject : String), Reachable U a db → Closed db subject := by
  intro h
  have hr : Reachable Unicode.ascii AuthConfig.lore nestedDb := by
    refine reachable_admin ?_ ["grant", "group:parent", "urc-1", "member"] 0 rfl
    refine reachable_admin ?_ ["group-add", "child", "alice"] 0 rfl
    exact reachable_admin reachable_empty ["group-add", "parent", "group:child"] 0 rfl
  have hpath : ClosurePath nestedDb "alice" "urc-1" .member :=
    ⟨⟨groupSubject "parent", "urc-1", "member"⟩, by decide, rfl, nested_within, rfl⟩
  have hlisted := ((h _ _ nestedDb "alice" hr).accessible "urc-1").mpr ⟨.member, hpath⟩
  exact absurd hlisted (by decide)

/-- The two groups in a cycle, and the inner one, alice's own, an owner. -/
def cyclicDb : Db :=
  (Method.grant (groupSubject "child") "urc-1" .owner).effect 0
    ((Method.addGroupMember "child" (groupSubject "parent")).effect 0 nestedDb)

theorem cyclic_closed : Closed cyclicDb "alice" := by
  have hr : Reachable Unicode.ascii AuthConfig.lore cyclicDb := by
    refine reachable_admin ?_ ["grant", "group:child", "urc-1", "owner"] 0 rfl
    refine reachable_admin ?_ ["group-add", "child", "group:parent"] 0 rfl
    refine reachable_admin ?_ ["grant", "group:parent", "urc-1", "member"] 0 rfl
    refine reachable_admin ?_ ["group-add", "child", "alice"] 0 rfl
    exact reachable_admin reachable_empty ["group-add", "parent", "group:child"] 0 rfl
  have hown : RolePath cyclicDb "alice" "urc-1" .owner :=
    ⟨⟨groupSubject "child", "urc-1", "owner"⟩, by decide, rfl, Or.inr ⟨"child", by decide, rfl⟩, rfl⟩
  refine (closed_iff hr "alice").mpr fun g hg _ _ role _ => ⟨.owner, ?_, Role.le_owner role⟩
  have hid : ∀ g ∈ cyclicDb.grants, g.urcId = "urc-1" := by decide
  rw [hid g hg]
  exact hown

end Kaguya.Auth.Nested
