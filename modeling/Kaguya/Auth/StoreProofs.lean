/-
  Kaguya.Auth.StoreProofs — what the store's methods do (see `Kaguya.Auth.Store`).

  With no failing statement a method is a function of the tables: `Method.answer` and
  `Method.effect` say which, `run_reliable` that the program computes them. Whatever
  fails, the tables end up as one of few (`run_leaves`), and the role that is read is
  no higher than the caller's (`run_roleFor_le`).

  Access goes by paths: a grant row on the resource whose subject is the caller or one
  of the caller's groups (`RolePath`). The effective role is the greatest role of a path
  (`roleFor_eq_some`), and a resource is listed when there is a row for one
  (`mem_accessible`). Every role string that the methods write parses (`RolesKnown`).
-/

import Kaguya.Auth.Store

namespace Kaguya.Auth.Store

open Kaguya.Lib

/-! ## Paths -/

/-- Grants on `x` reach `subject`: `x` is the subject itself or one of its groups. -/
def Reaches (db : Db) (subject x : String) : Prop :=
  x = subject ∨ ∃ grp, ⟨grp, subject⟩ ∈ db.groupMembers ∧ x = groupSubject grp

/-- `subject` has a role on `urcId` through some grant row. -/
def RolePath (db : Db) (subject urcId : String) (role : Role) : Prop :=
  ∃ g ∈ db.grants, g.urcId = urcId ∧ Reaches db subject g.subject ∧ Role.parse g.role = some role

theorem groupSubject_inj {g h : String} : groupSubject g = groupSubject h ↔ g = h :=
  String.append_right_inj "group:"

theorem mem_groupSubjects {db : Db} {subject x : String} :
    x ∈ groupSubjects db subject ↔ ∃ grp, ⟨grp, subject⟩ ∈ db.groupMembers ∧ x = groupSubject grp := by
  simp only [groupSubjects, List.mem_map, List.mem_filter, decide_eq_true_eq]
  constructor
  · intro h
    obtain ⟨m, ⟨hm, rfl⟩, rfl⟩ := h
    exact ⟨m.grp, hm, rfl⟩
  · intro h
    obtain ⟨grp, hm, rfl⟩ := h
    exact ⟨⟨grp, subject⟩, ⟨hm, rfl⟩, rfl⟩

theorem concerns_iff {db : Db} {subject : String} {g : GrantRow} :
    concerns db subject g = true ↔ Reaches db subject g.subject := by
  simp [concerns, Reaches, mem_groupSubjects]

theorem bestRole_eq_strongest (rows : List String) : bestRole rows = strongest (rows.filterMap Role.parse) := by
  unfold bestRole strongest
  generalize (none : Option Role) = best
  induction rows generalizing best with
  | nil => rfl
  | cons row rows ih =>
    cases e : Role.parse row with
    | none =>
      rw [List.foldl_cons, e, List.filterMap_cons_none e]
      exact ih best
    | some role =>
      rw [List.foldl_cons, e, List.filterMap_cons_some e, List.foldl_cons]
      exact ih (stronger best role)

/-- The effective role on the tables as they are. -/
def Db.roleFor (db : Db) (subject urcId : String) : Option Role := bestRole ((Query.roles urcId subject).rows db)

def Db.accessible (db : Db) (subject : String) : List String := (Query.accessible subject).rows db

theorem mem_parsed_roles {db : Db} {subject urcId : String} {role : Role} :
    role ∈ ((Query.roles urcId subject).rows db).filterMap Role.parse ↔ RolePath db subject urcId role := by
  simp only [Query.rows, List.mem_filterMap, List.mem_map, List.mem_filter, decide_eq_true_eq, concerns_iff]
  constructor
  · intro h
    obtain ⟨_, ⟨g, ⟨hg, hu, hr⟩, rfl⟩, hp⟩ := h
    exact ⟨g, hg, hu, hr, hp⟩
  · intro h
    obtain ⟨g, hg, hu, hr, hp⟩ := h
    exact ⟨g.role, ⟨g, ⟨hg, hu, hr⟩, rfl⟩, hp⟩

/-- The effective role is the greatest role of a path. -/
theorem roleFor_eq_some {db : Db} {subject urcId : String} {role : Role} :
    db.roleFor subject urcId = some role ↔
      RolePath db subject urcId role ∧ ∀ role', RolePath db subject urcId role' → role' ≤ role := by
  unfold Db.roleFor
  rw [bestRole_eq_strongest, strongest_eq_some]
  simp only [mem_parsed_roles]

theorem roleFor_eq_none {db : Db} {subject urcId : String} :
    db.roleFor subject urcId = none ↔ ∀ role, ¬ RolePath db subject urcId role := by
  unfold Db.roleFor
  rw [bestRole_eq_strongest, strongest_eq_none, List.eq_nil_iff_forall_not_mem]
  simp only [mem_parsed_roles]

theorem roleFor_owner {db : Db} {subject urcId : String} :
    db.roleFor subject urcId = some .owner ↔ RolePath db subject urcId .owner := by
  rw [roleFor_eq_some]
  exact and_iff_left fun role' _ => Role.le_owner role'

/-- Two subjects with the same paths have the same role. -/
theorem roleFor_congr {db db' : Db} {s s' r r' : String} (h : ∀ role, RolePath db s r role ↔ RolePath db' s' r' role) :
    db.roleFor s r = db'.roleFor s' r' := by
  refine Option.ext fun role => ?_
  rw [roleFor_eq_some, roleFor_eq_some, h role]
  exact and_congr_right fun _ => forall_congr' fun role' => imp_congr (h role') Iff.rfl

theorem mem_accessible {db : Db} {subject urcId : String} :
    urcId ∈ db.accessible subject ↔ ∃ g ∈ db.grants, g.urcId = urcId ∧ Reaches db subject g.subject := by
  simp only [Db.accessible, Query.rows, List.mem_dedup, List.mem_map, List.mem_filter, concerns_iff]
  constructor
  · intro h
    obtain ⟨g, ⟨hg, hr⟩, rfl⟩ := h
    exact ⟨g, hg, rfl, hr⟩
  · intro h
    obtain ⟨g, hg, rfl, hr⟩ := h
    exact ⟨g, ⟨hg, hr⟩, rfl⟩

theorem accessible_nodup (db : Db) (subject : String) : (db.accessible subject).Nodup := List.nodup_dedup _

/-! ## Methods whose statements succeed -/

/-- What a method answers when no statement fails. -/
def Method.answer : (m : Method) → Db → m.Ans
  | recordOwner .., _ | deleteResource _, _ | grant .., _ | addGroupMember .., _ => .ok ()
  | roleFor subject urcId, db => db.roleFor subject urcId
  | accessible subject, db => db.accessible subject
  | revoke subject urcId, db => .ok (db.grants.deleteWhere fun g => g.subject = subject ∧ g.urcId = urcId).2
  | removeGroupMember grp subject, db =>
    .ok (db.groupMembers.deleteWhere fun m => m.grp = grp ∧ m.subject = subject).2
  | listGrants urcId, db => (Query.grantsOn urcId).rows db

/-- Whether `urcId` has a row in `resources`. -/
def Db.Created (db : Db) (urcId : String) : Prop := ∃ row ∈ db.resources, row.urcId = urcId

/-- The tables after a method when no statement fails. -/
def Method.effect (now : Int) : Method → Db → Db
  | recordOwner owner urcId name, db =>
    let r := db.resources.insertOrIgnore ⟨urcId, name, now⟩
    if r.2 > 0 then { db with resources := r.1, grants := (db.grants.insertOrIgnore ⟨owner, urcId, "owner"⟩).1 } else db
  | deleteResource urcId, db =>
    { db with
      grants := (db.grants.deleteWhere (·.urcId = urcId)).1
      resources := (db.resources.deleteWhere (·.urcId = urcId)).1 }
  | grant subject urcId role, db => { db with grants := (db.grants.insertOrReplace ⟨subject, urcId, role.asStr⟩).1 }
  | revoke subject urcId, db =>
    { db with grants := (db.grants.deleteWhere fun g => g.subject = subject ∧ g.urcId = urcId).1 }
  | addGroupMember grp subject, db => { db with groupMembers := (db.groupMembers.insertOrIgnore ⟨grp, subject⟩).1 }
  | removeGroupMember grp subject, db =>
    { db with groupMembers := (db.groupMembers.deleteWhere fun m => m.grp = grp ∧ m.subject = subject).1 }
  | roleFor .., db | accessible _, db | listGrants _, db => db

theorem resource_new {db : Db} {urcId name : String} {now : Int} :
    0 < (db.resources.insertOrIgnore ⟨urcId, name, now⟩).2 ↔ ¬ db.Created urcId := by
  rw [Table.insertOrIgnore_count, Db.Created]
  push Not
  exact Iff.rfl

theorem resource_old {db : Db} {urcId name : String} {now : Int} (h : db.Created urcId) :
    db.resources.insertOrIgnore ⟨urcId, name, now⟩ = (db.resources, 0) :=
  Table.insertOrIgnore_of_key h

theorem effect_recordOwner_old {db : Db} {owner urcId name : String} {now : Int} (h : db.Created urcId) :
    (Method.recordOwner owner urcId name).effect now db = db :=
  if_neg fun h0 => resource_new.mp h0 h

theorem effect_recordOwner_new {db : Db} {owner urcId name : String} {now : Int} (h : ¬ db.Created urcId) :
    (Method.recordOwner owner urcId name).effect now db =
      { db with
        resources := (db.resources.insertOrIgnore ⟨urcId, name, now⟩).1
        grants := (db.grants.insertOrIgnore ⟨owner, urcId, "owner"⟩).1 } :=
  if_pos (resource_new.mpr h)

theorem readRows_nil {α : Type} (rows : List α) : readRows [] rows = rows.map .ok := by
  cases rows <;> rfl

theorem flatten_ok {α : Type} (rows : List α) :
    (rows.map (@Except.ok SqlError α)).filterMap Except.toOption = rows := by
  induction rows with
  | nil => rfl
  | cons row rows ih => exact congrArg (row :: ·) ih

/-- A read loses rows and changes none. -/
theorem readRows_sublist {α : Type} (lost : List (Option SqlError)) (rows : List α) :
    ((readRows lost rows).filterMap Except.toOption).Sublist rows := by
  induction rows generalizing lost with
  | nil => cases lost with
    | nil => exact List.Sublist.refl _
    | cons l lost => cases l <;> exact List.Sublist.refl _
  | cons row rows ih =>
    cases lost with
    | nil => rw [readRows_nil, flatten_ok]
    | cons l lost =>
      cases l with
      | some e => exact (ih lost).cons row
      | none => exact (ih lost).cons_cons row

theorem readRows_subset {α : Type} (lost : List (Option SqlError)) (rows : List α) :
    (readRows lost rows).filterMap Except.toOption ⊆ rows := (readRows_sublist lost rows).subset

section Run

variable (now : Int)

theorem run_execute {α : Type} (w : Write) (k : Except SqlError Nat → Body α) (c : Conn) :
    (execute w >>= k).run (Stmt.exec now) c =
      match c.fate.error with
      | some e => (k (.error e)).run (Stmt.exec now) { c with fates := c.fates.tail }
      | none => (k (.ok (w.exec c.db).2)).run (Stmt.exec now) ⟨(w.exec c.db).1, c.fates.tail⟩ := by
  show (Prog.call (Stmt.execute w) k).run (Stmt.exec now) c = _
  rw [Prog.run_call]
  simp only [Stmt.exec]
  cases c.fate.error <;> rfl

theorem run_queryRows {α : Type} (q : Query) (k : List q.Row → Body α) (c : Conn) :
    (queryRows q >>= k).run (Stmt.exec now) c =
      match c.fate.error with
      | some _ => (none, { c with fates := c.fates.tail })
      | none => (k ((readRows c.fate.lost (q.rows c.db)).filterMap Except.toOption)).run (Stmt.exec now)
          { c with fates := c.fates.tail } := by
  show (Prog.call (Stmt.queryMap q) _).run (Stmt.exec now) c = _
  rw [Prog.run_call]
  simp only [Stmt.exec]
  cases c.fate.error <;> rfl

theorem run_query {q : Query} (c : Conn) :
    (queryRows q).run (Stmt.exec now) c =
      match c.fate.error with
      | some _ => (none, { c with fates := c.fates.tail })
      | none =>
        (some ((readRows c.fate.lost (q.rows c.db)).filterMap Except.toOption), { c with fates := c.fates.tail }) := by
  rw [← Prog.bind_ret (queryRows q)]
  exact run_queryRows now q .ret c

/-- The second half of `record_owner`, for a new resource row. -/
theorem run_recordOwner (owner urcId name : String) (c : Conn) :
    (Method.recordOwner owner urcId name).run now c =
      match c.fate.error with
      | some e => (some (.error e), { c with fates := c.fates.tail })
      | none =>
        let r := c.db.resources.insertOrIgnore ⟨urcId, name, now⟩
        if r.2 > 0 then
          (execute (.insertOwner owner urcId) >>= fun
            | .error e => .ret (.error e)
            | .ok _ => .ret (.ok ())).run (Stmt.exec now) ⟨{ c.db with resources := r.1 }, c.fates.tail⟩
        else (some (.ok ()), ⟨{ c.db with resources := r.1 }, c.fates.tail⟩) := by
  refine (run_execute now (.insertResource urcId name now) _ c).trans ?_
  cases c.fate.error with
  | some e => rfl
  | none =>
    dsimp only [Write.exec]
    by_cases h : (c.db.resources.insertOrIgnore ⟨urcId, name, now⟩).2 > 0
    · rw [if_pos h, if_pos h]; rfl
    · rw [if_neg h, if_neg h]; rfl

theorem run_roleFor (subject urcId : String) (c : Conn) :
    (Method.roleFor subject urcId).run now c =
      match c.fate.error with
      | some _ => (none, { c with fates := c.fates.tail })
      | none =>
        (some (bestRole ((readRows c.fate.lost ((Query.roles urcId subject).rows c.db)).filterMap Except.toOption)),
          { c with fates := c.fates.tail }) :=
  run_queryRows now (.roles urcId subject) (fun rows => .ret (bestRole rows)) c

/-- With no failing statement, the program computes `answer` and `effect`. -/
theorem run_reliable (m : Method) (db : Db) : m.run now ⟨db, []⟩ = (some (m.answer db), ⟨m.effect now db, []⟩) := by
  have listed : ∀ q : Query, (queryRows q).run (Stmt.exec now) ⟨db, []⟩ = (some (q.rows db), ⟨db, []⟩) := by
    intro q
    refine (run_query now ⟨db, []⟩).trans ?_
    simp only [Conn.fate, List.headD_nil, readRows_nil, flatten_ok, List.tail_nil]
  cases m with
  | recordOwner owner urcId name =>
    refine (run_recordOwner now owner urcId name ⟨db, []⟩).trans ?_
    by_cases h : db.Created urcId
    · rw [effect_recordOwner_old h]
      simp only [Conn.fate, List.headD_nil, resource_old h]
      rfl
    · have h0 : (db.resources.insertOrIgnore ⟨urcId, name, now⟩).2 > 0 := resource_new.mpr h
      rw [effect_recordOwner_new h]
      simp only [Conn.fate, List.headD_nil, if_pos h0]
      rfl
  | deleteResource urcId => rfl
  | roleFor subject urcId =>
    refine (run_roleFor now subject urcId ⟨db, []⟩).trans ?_
    simp only [Conn.fate, List.headD_nil, readRows_nil, flatten_ok, List.tail_nil]
    rfl
  | accessible subject => exact listed (.accessible subject)
  | grant subject urcId role => rfl
  | revoke subject urcId => rfl
  | addGroupMember grp subject => rfl
  | removeGroupMember grp subject => rfl
  | listGrants urcId => exact listed (.grantsOn urcId)

/-! ## Methods with failing statements -/

/-- The tables a method may leave behind when statements fail: as they were, its whole
    effect, or the first of its two writes. -/
inductive Leaves : Method → Db → Db → Prop
  | nothing (m : Method) (db : Db) : Leaves m db db
  | effect (m : Method) (db : Db) : Leaves m db (m.effect now db)
  | resourceOnly (owner urcId name : String) (db : Db) : ¬ db.Created urcId →
      Leaves (.recordOwner owner urcId name) db
        { db with resources := (db.resources.insertOrIgnore ⟨urcId, name, now⟩).1 }
  | grantsOnly (urcId : String) (db : Db) :
      Leaves (.deleteResource urcId) db { db with grants := (db.grants.deleteWhere (·.urcId = urcId)).1 }

/-- A method that makes one write and nothing else. -/
theorem run_write_leaves {m : Method} {w : Write} {k : Except SqlError Nat → Body m.Ans}
    (hb : m.body = execute w >>= k) (hk : ∀ r, ∃ a, k r = .ret a) (hw : ∀ db, (w.exec db).1 = m.effect now db)
    (c : Conn) : Leaves now m c.db (m.run now c).2.db := by
  unfold Method.run
  rw [hb, run_execute]
  cases c.fate.error with
  | some e =>
    obtain ⟨a, ha⟩ := hk (.error e)
    simp only [ha]
    exact .nothing m c.db
  | none =>
    obtain ⟨a, ha⟩ := hk (.ok (w.exec c.db).2)
    simp only [ha]
    show Leaves now m c.db (w.exec c.db).1
    exact hw c.db ▸ .effect m c.db

/-- A read leaves the tables as they were. -/
theorem run_queryRows_db {α : Type} (q : Query) (k : List q.Row → α) (c : Conn) :
    ((queryRows q >>= fun rows => .ret (k rows)).run (Stmt.exec now) c).2.db = c.db := by
  rw [run_queryRows]
  cases c.fate.error <;> rfl

theorem run_query_db (q : Query) (c : Conn) : ((queryRows q).run (Stmt.exec now) c).2.db = c.db := by
  rw [run_query]
  cases c.fate.error <;> rfl

theorem run_leaves (m : Method) (c : Conn) : Leaves now m c.db (m.run now c).2.db := by
  have read : ∀ {m : Method}, (m.run now c).2.db = c.db → Leaves now m c.db (m.run now c).2.db :=
    fun {m} h => h.symm ▸ .nothing m c.db
  cases m with
  | recordOwner owner urcId name =>
    rw [run_recordOwner]
    cases c.fate.error with
    | some e => exact .nothing _ _
    | none =>
      by_cases h : c.db.Created urcId
      · simp only [resource_old h]
        exact .nothing _ _
      · have h0 : (c.db.resources.insertOrIgnore ⟨urcId, name, now⟩).2 > 0 := resource_new.mpr h
        simp only [if_pos h0, run_execute]
        cases (Conn.fate ⟨_, c.fates.tail⟩).error with
        | some e => exact .resourceOnly owner urcId name c.db h
        | none =>
          have he : Leaves now _ _ _ := .effect (.recordOwner owner urcId name) c.db
          rw [effect_recordOwner_new h] at he
          exact he
  | deleteResource urcId =>
    show Leaves now _ c.db ((Store.deleteResource urcId).run (Stmt.exec now) c).2.db
    rw [Store.deleteResource, run_execute]
    cases c.fate.error with
    | some e => exact .nothing _ _
    | none =>
      simp only [run_execute]
      cases (Conn.fate ⟨_, c.fates.tail⟩).error with
      | some e => exact .grantsOnly urcId c.db
      | none => exact .effect (.deleteResource urcId) c.db
  | roleFor subject urcId => exact read (run_queryRows_db now (.roles urcId subject) bestRole c)
  | accessible subject => exact read (run_query_db now (.accessible subject) c)
  | grant subject urcId role =>
    exact run_write_leaves now rfl (fun r => by cases r <;> exact ⟨_, rfl⟩) (fun _ => rfl) c
  | revoke subject urcId => exact run_write_leaves now (Prog.bind_ret _).symm (fun r => ⟨r, rfl⟩) (fun _ => rfl) c
  | addGroupMember grp subject =>
    exact run_write_leaves now rfl (fun r => by cases r <;> exact ⟨_, rfl⟩) (fun _ => rfl) c
  | removeGroupMember grp subject =>
    exact run_write_leaves now (Prog.bind_ret _).symm (fun r => ⟨r, rfl⟩) (fun _ => rfl) c
  | listGrants urcId => exact read (run_query_db now (.grantsOn urcId) c)

/-- Lost rows cannot raise the role that is read. -/
theorem run_roleFor_le {subject urcId : String} {c : Conn} {role : Role}
    (h : ((Method.roleFor subject urcId).run now c).1 = some (some role)) :
    ∃ role', c.db.roleFor subject urcId = some role' ∧ role ≤ role' := by
  rw [run_roleFor] at h
  cases hf : c.fate.error with
  | some e => simp [hf] at h
  | none =>
    simp only [hf, Option.some.injEq] at h
    rw [bestRole_eq_strongest] at h
    unfold Db.roleFor
    rw [bestRole_eq_strongest]
    exact strongest_mono (List.filterMap_subset Role.parse (readRows_subset _ _)) h

/-- A caller that reads `owner` is an owner. -/
theorem run_roleFor_owner {subject urcId : String} {c : Conn}
    (h : ((Method.roleFor subject urcId).run now c).1 = some (some .owner)) :
    c.db.roleFor subject urcId = some .owner := by
  obtain ⟨role, hr, hle⟩ := run_roleFor_le now h
  rw [hr, le_antisymm (Role.le_owner role) hle]

end Run

/-! ## Rows after a method -/

section Rows

variable {db : Db} {now : Int}

theorem grants_recordOwner {owner urcId name : String} {g : GrantRow} :
    g ∈ ((Method.recordOwner owner urcId name).effect now db).grants ↔
      g ∈ db.grants ∨ ¬ db.Created urcId ∧ g = ⟨owner, urcId, "owner"⟩ ∧ ∀ g' ∈ db.grants, g'.key ≠ (owner, urcId) := by
  by_cases h : db.Created urcId
  · rw [effect_recordOwner_old h]
    exact ⟨Or.inl, fun h' => h'.elim id fun ⟨hn, _⟩ => absurd h hn⟩
  · rw [effect_recordOwner_new h]
    exact Table.mem_insertOrIgnore.trans (or_congr Iff.rfl (and_iff_right h).symm)

theorem grants_deleteResource {urcId : String} {g : GrantRow} :
    g ∈ ((Method.deleteResource urcId).effect now db).grants ↔ g ∈ db.grants ∧ g.urcId ≠ urcId := by
  refine Table.mem_deleteWhere.trans (and_congr_right fun _ => ?_)
  exact decide_eq_false_iff_not

theorem grants_grant {subject urcId : String} {role : Role} {g : GrantRow} :
    g ∈ ((Method.grant subject urcId role).effect now db).grants ↔
      g = ⟨subject, urcId, role.asStr⟩ ∨ g ∈ db.grants ∧ g.key ≠ (subject, urcId) :=
  Table.mem_insertOrReplace

theorem grants_revoke {subject urcId : String} {g : GrantRow} :
    g ∈ ((Method.revoke subject urcId).effect now db).grants ↔ g ∈ db.grants ∧ g.key ≠ (subject, urcId) := by
  refine Table.mem_deleteWhere.trans (and_congr_right fun _ => ?_)
  rw [decide_eq_false_iff_not, GrantRow.key, ne_eq, Prod.mk.injEq]

theorem members_add {grp subject : String} {m : MemberRow} :
    m ∈ ((Method.addGroupMember grp subject).effect now db).groupMembers ↔
      m ∈ db.groupMembers ∨ m = ⟨grp, subject⟩ := by
  refine Table.mem_insertOrIgnore.trans ?_
  constructor
  · intro h
    rcases h with h | ⟨h, _⟩
    · exact Or.inl h
    · exact Or.inr h
  · intro h
    rcases h with h | rfl
    · exact Or.inl h
    · by_cases hm : ⟨grp, subject⟩ ∈ db.groupMembers
      · exact Or.inl hm
      · refine Or.inr ⟨rfl, fun m' hm' hk => hm ?_⟩
        cases m'
        cases hk
        exact hm'

theorem members_remove {grp subject : String} {m : MemberRow} :
    m ∈ ((Method.removeGroupMember grp subject).effect now db).groupMembers ↔
      m ∈ db.groupMembers ∧ m ≠ ⟨grp, subject⟩ := by
  refine Table.mem_deleteWhere.trans (and_congr_right fun _ => ?_)
  cases m
  rw [decide_eq_false_iff_not, ne_eq, MemberRow.mk.injEq]

theorem members_effect {m : Method}
    (hm : ∀ grp subject, m ≠ .addGroupMember grp subject ∧ m ≠ .removeGroupMember grp subject) :
    (m.effect now db).groupMembers = db.groupMembers := by
  cases m with
  | recordOwner owner urcId name => simp only [Method.effect]; split <;> rfl
  | addGroupMember grp subject => exact absurd rfl (hm grp subject).1
  | removeGroupMember grp subject => exact absurd rfl (hm grp subject).2
  | _ => rfl

theorem created_recordOwner {owner urcId name urcId' : String} :
    ((Method.recordOwner owner urcId name).effect now db).Created urcId' ↔ db.Created urcId' ∨ urcId' = urcId := by
  by_cases h : db.Created urcId
  · rw [effect_recordOwner_old h]
    exact ⟨Or.inl, fun h' => h'.elim id fun e => e ▸ h⟩
  · rw [effect_recordOwner_new h]
    simp only [Db.Created, Table.mem_insertOrIgnore]
    constructor
    · intro h
      obtain ⟨row, hr | ⟨rfl, _⟩, rfl⟩ := h
      · exact Or.inl ⟨row, hr, rfl⟩
      · exact Or.inr rfl
    · intro h
      obtain ⟨row, hr, rfl⟩ | rfl := h
      · exact ⟨row, Or.inl hr, rfl⟩
      · exact ⟨_, Or.inr ⟨rfl, fun row hr hk => h ⟨row, hr, hk⟩⟩, rfl⟩

theorem created_deleteResource {urcId urcId' : String} :
    ((Method.deleteResource urcId).effect now db).Created urcId' ↔ db.Created urcId' ∧ urcId' ≠ urcId := by
  simp only [Db.Created, Method.effect, Table.mem_deleteWhere, decide_eq_false_iff_not]
  constructor
  · intro h
    obtain ⟨row, ⟨hr, hn⟩, rfl⟩ := h
    exact ⟨⟨row, hr, rfl⟩, hn⟩
  · intro h
    obtain ⟨⟨row, hr, rfl⟩, hn⟩ := h
    exact ⟨row, ⟨hr, hn⟩, rfl⟩

end Rows

/-! ## Role strings -/

/-- Every stored role is one the store writes. -/
def RolesKnown (db : Db) : Prop := ∀ g ∈ db.grants, ∃ role : Role, g.role = role.asStr

theorem rolesKnown_effect {db : Db} (h : RolesKnown db) (now : Int) (m : Method) : RolesKnown (m.effect now db) := by
  intro g hg
  cases m with
  | recordOwner owner urcId name =>
    rcases grants_recordOwner.mp hg with hg | ⟨_, rfl, _⟩
    · exact h g hg
    · exact ⟨.owner, rfl⟩
  | deleteResource urcId => exact h g (grants_deleteResource.mp hg).1
  | grant subject urcId role =>
    rcases grants_grant.mp hg with rfl | ⟨hg, _⟩
    · exact ⟨role, rfl⟩
    · exact h g hg
  | revoke subject urcId => exact h g (grants_revoke.mp hg).1
  | _ => exact h g hg

theorem rolesKnown_leaves {db db' : Db} {now : Int} {m : Method} (hp : Leaves now m db db') (h : RolesKnown db) :
    RolesKnown db' := by
  cases hp with
  | nothing => exact h
  | effect => exact rolesKnown_effect h now m
  | resourceOnly => exact h
  | grantsOnly urcId => exact fun g hg => h g ((@grants_deleteResource _ now _ _).mp hg).1

/-- With known roles, what is listed is what gives a role. -/
theorem accessible_iff_role {db : Db} (h : RolesKnown db) {subject urcId : String} :
    urcId ∈ db.accessible subject ↔ ∃ role, db.roleFor subject urcId = some role := by
  rw [mem_accessible]
  constructor
  · intro h
    obtain ⟨g, hg, hu, hr⟩ := h
    obtain ⟨role, hrole⟩ := h g hg
    have hp : RolePath db subject urcId role := ⟨g, hg, hu, hr, by rw [hrole, Role.parse_asStr]⟩
    cases e : db.roleFor subject urcId with
    | none => exact absurd hp (roleFor_eq_none.mp e role)
    | some role' => exact ⟨role', rfl⟩
  · intro h
    obtain ⟨role, hrole⟩ := h
    obtain ⟨⟨g, hg, hu, hr, _⟩, _⟩ := roleFor_eq_some.mp hrole
    exact ⟨g, hg, hu, hr⟩

end Kaguya.Auth.Store
