/-
  Kaguya.Auth.History — what the store is for, said without tables: a subject's role on
  a resource is decided by the operations that were done, newest first.

  `direct x r` is what the last operation that concerns the pair says: a grant gives its
  role, a revoke or the resource's deletion gives nothing, and creating the resource
  gives `owner` to its creator when it had not been created since its last deletion and
  the pair had no role. `isMember g s` is the last word on the membership. A subject is
  `Reached` with its own direct role and with that of each of its groups' subjects; its
  effective role is the greatest of these.

  Proved: the tables hold exactly this (`history_agrees`: the store refines the
  history); `role_for` answers the greatest role reached, an operation changes it only
  where it `Touches` the pair, and the order of the rows does not matter
  (`roleFor_of_history`).
-/

import Kaguya.Auth.StoreProofs
import Mathlib.Order.Bounds.Defs

namespace Kaguya.Auth.History

open Kaguya.Lib
open Kaguya.Auth.Store

/-- Store operations with their times, newest first. -/
abbrev Log := List (Int × Method)

/-- The tables after the operations, from the empty store, none of them failing. -/
def after : Log → Db
  | [] => Db.empty
  | (now, m) :: past => (m.run now ⟨after past, []⟩).2.db

theorem after_cons (now : Int) (m : Method) (past : Log) : after ((now, m) :: past) = m.effect now (after past) := by
  rw [after, run_reliable]

/-! ## The history's meaning -/

/-- Whether `urcId` has been created since its last deletion. -/
def created (urcId : String) : Log → Bool
  | [] => false
  | (_, .recordOwner _ r _) :: past => r = urcId || created urcId past
  | (_, .deleteResource r) :: past => if r = urcId then false else created urcId past
  | _ :: past => created urcId past

/-- The role the last operation on the pair leaves it. -/
def direct (x urcId : String) : Log → Option Role
  | [] => none
  | (_, .grant y r role) :: past => if y = x ∧ r = urcId then some role else direct x urcId past
  | (_, .revoke y r) :: past => if y = x ∧ r = urcId then none else direct x urcId past
  | (_, .deleteResource r) :: past => if r = urcId then none else direct x urcId past
  | (_, .recordOwner y r _) :: past =>
    if y = x ∧ r = urcId ∧ created urcId past = false ∧ direct x urcId past = none then some .owner
    else direct x urcId past
  | _ :: past => direct x urcId past

/-- Whether the last operation on the membership was an add. -/
def isMember (grp subject : String) : Log → Bool
  | [] => false
  | (_, .addGroupMember g s) :: past => (g = grp ∧ s = subject) || isMember grp subject past
  | (_, .removeGroupMember g s) :: past => if g = grp ∧ s = subject then false else isMember grp subject past
  | _ :: past => isMember grp subject past

/-- `subject` has `role` on `urcId`, by itself or through a group. -/
def Reached (h : Log) (subject urcId : String) (role : Role) : Prop :=
  direct subject urcId h = some role ∨
    ∃ grp, isMember grp subject h = true ∧ direct (groupSubject grp) urcId h = some role

/-- The subjects an operation on `x` can affect: `x`, and the members of the group it is. -/
def Named (h : Log) (x subject : String) : Prop :=
  x = subject ∨ ∃ grp, isMember grp subject h = true ∧ x = groupSubject grp

/-- Where an operation done after `h` can change a role. -/
def Touches (h : Log) (subject urcId : String) : Method → Prop
  | .recordOwner x r _ | .grant x r _ | .revoke x r => r = urcId ∧ Named h x subject
  | .deleteResource r => r = urcId
  | .addGroupMember _ s | .removeGroupMember _ s => s = subject
  | .roleFor .. | .accessible _ | .listGrants _ => False

/-! ## The tables hold it -/

structure Agrees (db : Db) (h : Log) : Prop where
  created : ∀ urcId, db.Created urcId ↔ created urcId h = true
  direct : ∀ x urcId s, ⟨x, urcId, s⟩ ∈ db.grants ↔ ∃ role, direct x urcId h = some role ∧ s = role.asStr
  member : ∀ grp subject, ⟨grp, subject⟩ ∈ db.groupMembers ↔ isMember grp subject h = true

theorem Agrees.no_row {db : Db} {h : Log} (ha : Agrees db h) {x urcId : String} :
    (∀ g ∈ db.grants, g.key ≠ (x, urcId)) ↔ History.direct x urcId h = none := by
  constructor
  · intro hn
    cases e : History.direct x urcId h with
    | none => rfl
    | some role => exact absurd rfl (hn _ ((ha.direct x urcId role.asStr).mpr ⟨role, e, rfl⟩))
  · intro hd g hg hk
    obtain ⟨y, r, s⟩ := g
    cases hk
    obtain ⟨role, e, _⟩ := (ha.direct y r s).mp hg
    rw [hd] at e
    cases e

/-- One operation done on the tables is one operation put on the history. -/
theorem step_agrees {db : Db} {h : Log} (ha : Agrees db h) (now : Int) (m : Method) :
    Agrees (m.effect now db) ((now, m) :: h) := by
  cases m with
  | recordOwner owner urcId name =>
    refine ⟨fun r => ?_, fun x r s => ?_, fun grp subject => ?_⟩
    · rw [created_recordOwner, ha.created r, History.created, Bool.or_eq_true, decide_eq_true_eq, or_comm, eq_comm]
    · rw [grants_recordOwner, ha.no_row, ha.created urcId, ha.direct x r s, Bool.not_eq_true, GrantRow.mk.injEq,
        History.direct]
      by_cases hc : owner = x ∧ urcId = r ∧ History.created r h = false ∧ History.direct x r h = none
      · obtain ⟨rfl, rfl, hcr, hd⟩ := hc
        simp [hcr, hd, Role.asStr]
      · rw [if_neg hc]
        refine or_iff_left ?_
        intro h
        obtain ⟨hcr, ⟨rfl, rfl, _⟩, hd⟩ := h
        exact hc ⟨rfl, rfl, hcr, hd⟩
    · rw [members_effect (by simp)]
      exact ha.member grp subject
  | deleteResource urcId =>
    refine ⟨fun r => ?_, fun x r s => ?_, fun grp subject => ha.member grp subject⟩
    · rw [created_deleteResource, ha.created r, History.created]
      by_cases e : urcId = r
      · simp [e]
      · simp [e, Ne.symm e]
    · rw [grants_deleteResource, ha.direct x r s, History.direct]
      by_cases e : urcId = r
      · simp [e]
      · simp [e, Ne.symm e]
  | grant subject urcId role =>
    refine ⟨fun r => ha.created r, fun x r s => ?_, fun grp s => ha.member grp s⟩
    rw [grants_grant, ha.direct x r s, GrantRow.mk.injEq, History.direct, GrantRow.key]
    by_cases e : subject = x ∧ urcId = r
    · obtain ⟨rfl, rfl⟩ := e
      simp
    · have e' : ¬ (x = subject ∧ r = urcId) := fun h => e ⟨h.1.symm, h.2.symm⟩
      simp only [if_neg e, ne_eq, Prod.mk.injEq, e', not_false_eq_true, and_true]
      exact or_iff_right fun h => e' ⟨h.1, h.2.1⟩
  | revoke subject urcId =>
    refine ⟨fun r => ha.created r, fun x r s => ?_, fun grp s => ha.member grp s⟩
    rw [grants_revoke, ha.direct x r s, History.direct, GrantRow.key]
    by_cases e : subject = x ∧ urcId = r
    · obtain ⟨rfl, rfl⟩ := e
      simp
    · have e' : ¬ (x = subject ∧ r = urcId) := fun h => e ⟨h.1.symm, h.2.symm⟩
      simp only [if_neg e, ne_eq, Prod.mk.injEq, e', not_false_eq_true, and_true]
  | addGroupMember grp subject =>
    refine ⟨fun r => ha.created r, fun x r s => ha.direct x r s, fun g s => ?_⟩
    rw [members_add, ha.member, MemberRow.mk.injEq, isMember, Bool.or_eq_true, decide_eq_true_eq, or_comm,
      eq_comm (a := g), eq_comm (a := s)]
  | removeGroupMember grp subject =>
    refine ⟨fun r => ha.created r, fun x r s => ha.direct x r s, fun g s => ?_⟩
    rw [members_remove, ha.member, ne_eq, MemberRow.mk.injEq, isMember]
    by_cases e : grp = g ∧ subject = s
    · obtain ⟨rfl, rfl⟩ := e
      simp
    · have e' : ¬ (g = grp ∧ s = subject) := fun h => e ⟨h.1.symm, h.2.symm⟩
      simp [e, e']
  | roleFor subject urcId => exact ⟨ha.created, ha.direct, ha.member⟩
  | accessible subject => exact ⟨ha.created, ha.direct, ha.member⟩
  | listGrants urcId => exact ⟨ha.created, ha.direct, ha.member⟩

/-- The store refines the history. -/
theorem history_agrees (h : Log) : Agrees (after h) h := by
  induction h with
  | nil =>
    refine ⟨fun r => ?_, fun x r s => ?_, fun grp s => ?_⟩
    · simp [after, Db.Created, Db.empty, created]
    · simp [after, Db.empty, direct]
    · simp [after, Db.empty, isMember]
  | cons op past ih =>
    obtain ⟨now, m⟩ := op
    rw [after_cons]
    exact step_agrees ih now m

/-! ## The effective role -/

theorem path_iff_reached {db : Db} {h : Log} (ha : Agrees db h) {subject urcId : String} {role : Role} :
    RolePath db subject urcId role ↔ Reached h subject urcId role := by
  have own : ∀ x, (∃ g ∈ db.grants, g.urcId = urcId ∧ g.subject = x ∧ Role.parse g.role = some role) ↔
      direct x urcId h = some role := by
    intro x
    constructor
    · intro h
      obtain ⟨⟨_, _, s⟩, hg, rfl, rfl, hp⟩ := h
      obtain ⟨role', hd, hs⟩ := (ha.direct _ _ s).mp hg
      simp only [hs, Role.parse_asStr, Option.some.injEq] at hp
      exact hp ▸ hd
    · intro hd
      exact ⟨⟨x, urcId, role.asStr⟩, (ha.direct x urcId _).mpr ⟨role, hd, rfl⟩, rfl, rfl, Role.parse_asStr role⟩
  constructor
  · intro h
    obtain ⟨g, hg, hu, hx | ⟨grp, hm, hx⟩, hp⟩ := h
    · exact Or.inl ((own subject).mp ⟨g, hg, hu, hx, hp⟩)
    · exact Or.inr ⟨grp, (ha.member grp subject).mp hm, (own _).mp ⟨g, hg, hu, hx, hp⟩⟩
  · intro h
    rcases h with hd | ⟨grp, hm, hd⟩
    · obtain ⟨g, hg, hu, hx, hp⟩ := (own subject).mpr hd
      exact ⟨g, hg, hu, Or.inl hx, hp⟩
    · obtain ⟨g, hg, hu, hx, hp⟩ := (own _).mpr hd
      exact ⟨g, hg, hu, Or.inr ⟨grp, (ha.member grp subject).mpr hm, hx⟩, hp⟩

/-- The operation decides the direct role of the pair. -/
def Decides (x urcId : String) : Method → Prop
  | .recordOwner y r _ | .grant y r _ | .revoke y r => y = x ∧ r = urcId
  | .deleteResource r => r = urcId
  | _ => False

theorem direct_frame {h : Log} {x urcId : String} {now : Int} {m : Method} (hm : ¬ Decides x urcId m) :
    direct x urcId ((now, m) :: h) = direct x urcId h := by
  cases m with
  | recordOwner y r name => exact if_neg fun e => hm ⟨e.1, e.2.1⟩
  | deleteResource r => exact if_neg hm
  | grant y r role => exact if_neg hm
  | revoke y r => exact if_neg hm
  | _ => rfl

theorem isMember_frame {h : Log} {grp subject urcId : String} {now : Int} {m : Method}
    (hm : ¬ Touches h subject urcId m) : isMember grp subject ((now, m) :: h) = isMember grp subject h := by
  cases m with
  | addGroupMember g s =>
    have e : ¬ (g = grp ∧ s = subject) := fun e => hm e.2
    simp [isMember, e]
  | removeGroupMember g s => exact if_neg fun e => hm e.2
  | _ => rfl

/-- What touches a subject's pair decides the direct role of a name that reaches it, or
    its memberships. -/
theorem touches_of_decides {h : Log} {x subject urcId : String} {m : Method} (hx : Named h x subject)
    (hm : Decides x urcId m) : Touches h subject urcId m := by
  cases m with
  | recordOwner y r name => exact ⟨hm.2, hm.1 ▸ hx⟩
  | deleteResource r => exact hm
  | grant y r role => exact ⟨hm.2, hm.1 ▸ hx⟩
  | revoke y r => exact ⟨hm.2, hm.1 ▸ hx⟩
  | _ => exact hm.elim

theorem reached_frame {h : Log} {subject urcId : String} {now : Int} {m : Method}
    (hm : ¬ Touches h subject urcId m) (role : Role) :
    Reached ((now, m) :: h) subject urcId role ↔ Reached h subject urcId role := by
  have hd : ∀ x, Named h x subject → direct x urcId ((now, m) :: h) = direct x urcId h :=
    fun x hx => direct_frame fun hdec => hm (touches_of_decides hx hdec)
  have hmem : ∀ grp, isMember grp subject ((now, m) :: h) = isMember grp subject h := fun grp => isMember_frame hm
  unfold Reached
  rw [hd subject (Or.inl rfl)]
  refine or_congr Iff.rfl (exists_congr fun grp => ?_)
  rw [hmem grp]
  exact and_congr_right fun hg => by rw [hd _ (Or.inr ⟨grp, hg, rfl⟩)]

/-- The same rows, in any order. -/
structure SameRows (db db' : Db) : Prop where
  resources : db.resources.rows.Perm db'.resources.rows
  grants : db.grants.rows.Perm db'.grants.rows
  groupMembers : db.groupMembers.rows.Perm db'.groupMembers.rows

theorem SameRows.path {db db' : Db} (hs : SameRows db db') {subject urcId : String} {role : Role} :
    RolePath db subject urcId role ↔ RolePath db' subject urcId role := by
  have hg : ∀ g, g ∈ db.grants ↔ g ∈ db'.grants := fun g => hs.grants.mem_iff
  have hm : ∀ m, m ∈ db.groupMembers ↔ m ∈ db'.groupMembers := fun m => hs.groupMembers.mem_iff
  simp only [RolePath, Reaches, hg, hm]

theorem roleFor_eq_some_reached (h : Log) (subject urcId : String) (role : Role) :
    (after h).roleFor subject urcId = some role ↔ IsGreatest {role' | Reached h subject urcId role'} role := by
  rw [roleFor_eq_some]
  simp only [path_iff_reached (history_agrees h)]
  exact Iff.rfl

theorem roleFor_eq_none_reached (h : Log) (subject urcId : String) :
    (after h).roleFor subject urcId = none ↔ ∀ role, ¬ Reached h subject urcId role := by
  rw [roleFor_eq_none]
  simp only [path_iff_reached (history_agrees h)]

/-- The effective role is a function of the history: the greatest role reached, or none;
    an operation changes it only where it touches the pair; the rows' order is
    immaterial. -/
theorem roleFor_of_history (h : Log) (subject urcId : String) :
    (∀ role, (after h).roleFor subject urcId = some role ↔ IsGreatest {role' | Reached h subject urcId role'} role) ∧
      ((after h).roleFor subject urcId = none ↔ ∀ role, ¬ Reached h subject urcId role) ∧
      (∀ now m, ¬ Touches h subject urcId m →
        (after ((now, m) :: h)).roleFor subject urcId = (after h).roleFor subject urcId) ∧
      ∀ db, SameRows (after h) db → db.roleFor subject urcId = (after h).roleFor subject urcId := by
  refine ⟨roleFor_eq_some_reached h subject urcId, roleFor_eq_none_reached h subject urcId, fun now m hm => ?_,
    fun db hs => roleFor_congr fun role => hs.path.symm⟩
  refine roleFor_congr fun role => ?_
  rw [path_iff_reached (history_agrees _), path_iff_reached (history_agrees h), reached_frame hm]

end Kaguya.Auth.History
