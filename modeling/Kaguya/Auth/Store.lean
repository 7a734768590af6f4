/-
  Kaguya.Auth.Store — the ReBAC store (`auth/src/store.rs`): the three tables, the SQL
  statements that read and write them, and the store's methods as programs over
  statements.

  A method holds the connection's mutex from its first statement to its last, so to the
  rest of the service it is one step (`Method.run`). The admin process has a connection
  of its own: its statement may also fall between the two of `record_owner` or of
  `delete_resource`, an order that one step leaves out. Within it each statement is atomic
  and may fail: a failed write changes nothing and answers with the error, a read may
  fail as a whole, where the `unwrap` on it panics, or lose single rows, which
  `flatten` skips. `Fate` says how each statement fares; with no fates left every
  statement succeeds.

  SQLite promises no row order without ORDER BY. `Query.rows` takes the tables'; that
  the order does not matter is proved with the history of the store.
-/

import Kaguya.Lib.Prog
import Kaguya.Lib.Strongest
import Kaguya.Lib.Table
import Mathlib.Data.List.Dedup

namespace Kaguya.Auth.Store

open Kaguya.Lib (Prog Table)

inductive Role where
  | member
  | owner
  deriving DecidableEq, Repr

namespace Role

/-- The derived order: `owner > member`, so the strongest grant wins. -/
def rank : Role → Nat
  | member => 0
  | owner => 1

instance : LinearOrder Role := LinearOrder.lift' rank (by intro a b h; cases a <;> cases b <;> first | rfl | cases h)

theorem le_owner (r : Role) : r ≤ owner := by cases r <;> decide

theorem member_le (r : Role) : member ≤ r := by cases r <;> decide

def asStr : Role → String
  | owner => "owner"
  | member => "member"

/-- `writer` and `reader` are aliases of `member`. -/
def parse (s : String) : Option Role :=
  if s = "owner" then some owner
  else if s = "member" ∨ s = "writer" ∨ s = "reader" then some member
  else none

@[simp] theorem parse_asStr (r : Role) : parse r.asStr = some r := by cases r <;> decide

theorem asStr_inj {a b : Role} (h : a.asStr = b.asStr) : a = b := by
  have hp := congrArg parse h
  simpa using hp

/-- The permission strings a role gives in the `resources` claim. -/
def permissions : Role → List String
  | owner => ["owner", "admin", "obliterate", "migrate", "read", "write"]
  | member => ["read", "write"]

end Role

/-! ## The tables -/

structure ResourceRow where
  urcId : String
  name : String
  createdAt : Int
  deriving DecidableEq, Repr

structure GrantRow where
  subject : String
  urcId : String
  role : String
  deriving DecidableEq, Repr

structure MemberRow where
  grp : String
  subject : String
  deriving DecidableEq, Repr

def GrantRow.key (g : GrantRow) : String × String := (g.subject, g.urcId)

def MemberRow.key (m : MemberRow) : String × String := (m.grp, m.subject)

/-- `SCHEMA`: each table with its primary key. -/
structure Db where
  resources : Table ResourceRow ResourceRow.urcId
  grants : Table GrantRow GrantRow.key
  groupMembers : Table MemberRow MemberRow.key
  deriving DecidableEq

def Db.empty : Db := ⟨Table.empty, Table.empty, Table.empty⟩

/-- The subject string of a group's grants, `'group:' || grp`. -/
def groupSubject (grp : String) : String := "group:" ++ grp

/-- `SELECT 'group:' || grp FROM group_members WHERE subject = ?`. -/
def groupSubjects (db : Db) (subject : String) : List String :=
  (db.groupMembers.rows.filter (·.subject = subject)).map fun m => groupSubject m.grp

/-! ## Statements -/

inductive SqlError where
  | busy
  | full
  | io
  | other (code : Int)
  deriving DecidableEq, Repr

/-- The writing statements, with their parameters. -/
inductive Write where
  /-- `INSERT OR IGNORE INTO resources(urc_id, name, created_at) VALUES (?, ?, ?)` -/
  | insertResource (urcId name : String) (createdAt : Int)
  /-- `INSERT OR IGNORE INTO grants(subject, urc_id, role) VALUES (?, ?, 'owner')` -/
  | insertOwner (subject urcId : String)
  /-- `DELETE FROM grants WHERE urc_id = ?` -/
  | deleteGrants (urcId : String)
  /-- `DELETE FROM resources WHERE urc_id = ?` -/
  | deleteResource (urcId : String)
  /-- `INSERT OR REPLACE INTO grants(subject, urc_id, role) VALUES (?, ?, ?)` -/
  | replaceGrant (subject urcId role : String)
  /-- `DELETE FROM grants WHERE subject = ? AND urc_id = ?` -/
  | deleteGrant (subject urcId : String)
  /-- `INSERT OR IGNORE INTO group_members(grp, subject) VALUES (?, ?)` -/
  | insertMember (grp subject : String)
  /-- `DELETE FROM group_members WHERE grp = ? AND subject = ?` -/
  | deleteMember (grp subject : String)

/-- What a writing statement does when it succeeds, with the number of rows changed. -/
def Write.exec : Write → Db → Db × Nat
  | insertResource urcId name createdAt, db =>
    let r := db.resources.insertOrIgnore ⟨urcId, name, createdAt⟩
    ({ db with resources := r.1 }, r.2)
  | insertOwner subject urcId, db =>
    let r := db.grants.insertOrIgnore ⟨subject, urcId, "owner"⟩
    ({ db with grants := r.1 }, r.2)
  | deleteGrants urcId, db =>
    let r := db.grants.deleteWhere (·.urcId = urcId)
    ({ db with grants := r.1 }, r.2)
  | deleteResource urcId, db =>
    let r := db.resources.deleteWhere (·.urcId = urcId)
    ({ db with resources := r.1 }, r.2)
  | replaceGrant subject urcId role, db =>
    let r := db.grants.insertOrReplace ⟨subject, urcId, role⟩
    ({ db with grants := r.1 }, r.2)
  | deleteGrant subject urcId, db =>
    let r := db.grants.deleteWhere fun g => g.subject = subject ∧ g.urcId = urcId
    ({ db with grants := r.1 }, r.2)
  | insertMember grp subject, db =>
    let r := db.groupMembers.insertOrIgnore ⟨grp, subject⟩
    ({ db with groupMembers := r.1 }, r.2)
  | deleteMember grp subject, db =>
    let r := db.groupMembers.deleteWhere fun m => m.grp = grp ∧ m.subject = subject
    ({ db with groupMembers := r.1 }, r.2)

inductive Query where
  /-- `SELECT role FROM grants WHERE urc_id = ?1 AND (subject = ?2 OR subject IN (SELECT …))` -/
  | roles (urcId subject : String)
  /-- `SELECT DISTINCT urc_id FROM grants WHERE subject = ?1 OR subject IN (SELECT …)` -/
  | accessible (subject : String)
  /-- `SELECT subject, role FROM grants WHERE urc_id = ? ORDER BY subject` -/
  | grantsOn (urcId : String)

@[reducible] def Query.Row : Query → Type
  | roles _ _ => String
  | accessible _ => String
  | grantsOn _ => String × String

/-- Whether a grant row is `subject`'s own or one of its groups'. -/
def concerns (db : Db) (subject : String) (g : GrantRow) : Bool :=
  g.subject = subject ∨ g.subject ∈ groupSubjects db subject

def Query.rows : (q : Query) → Db → List q.Row
  | roles urcId subject, db =>
    (db.grants.rows.filter fun g => g.urcId = urcId ∧ concerns db subject g).map (·.role)
  | accessible subject, db => ((db.grants.rows.filter (concerns db subject)).map (·.urcId)).dedup
  | grantsOn urcId, db =>
    ((db.grants.rows.filter (·.urcId = urcId)).map fun g => (g.subject, g.role)).mergeSort fun a b => a.1 ≤ b.1

/-- The calls a method makes: the wall clock, a statement, or the panic of an `unwrap`
    on an error. -/
inductive Stmt where
  | now
  | execute (w : Write)
  | queryMap (q : Query)
  | panic

@[reducible] def Stmt.Ans : Stmt → Type
  | now => Int
  | execute _ => Except SqlError Nat
  | queryMap q => Except SqlError (List (Except SqlError q.Row))
  | panic => Empty

abbrev Body (α : Type) := Prog Stmt Stmt.Ans α

/-- Seconds since the epoch. -/
def now : Body Int := .ask Stmt.now

def execute (w : Write) : Body (Except SqlError Nat) := .ask (Stmt.execute w)

/-- `prepare` and `query_map`, each with an `unwrap`, then the rows that were read
    without an error (`flatten`). -/
def queryRows (q : Query) : Body (List q.Row) := do
  let rows : Except SqlError (List (Except SqlError q.Row)) ← .ask (Stmt.queryMap q)
  match rows with
  | .ok rows => return rows.filterMap Except.toOption
  | .error _ => .call .panic nofun

/-! ## Methods -/

/-- Record a resource and make `owner` its owner; the owner grant is written only when
    the resource row is new. -/
def recordOwner (owner urcId name : String) : Body (Except SqlError Unit) := do
  let createdAt ← now
  match ← execute (.insertResource urcId name createdAt) with
  | .error e => return .error e
  | .ok created =>
    if created > 0 then
      match ← execute (.insertOwner owner urcId) with
      | .error e => return .error e
      | .ok _ => return .ok ()
    else return .ok ()

def deleteResource (urcId : String) : Body (Except SqlError Unit) := do
  match ← execute (.deleteGrants urcId) with
  | .error e => return .error e
  | .ok _ =>
    match ← execute (.deleteResource urcId) with
    | .error e => return .error e
    | .ok _ => return .ok ()

/-- The loop of `role_for`: the strongest of the roles that parse. -/
def bestRole (rows : List String) : Option Role :=
  rows.foldl (fun best row =>
    match Role.parse row with
    | some role => Kaguya.Lib.stronger best role
    | none => best) none

/-- The subject's effective role: the strongest of its direct grant and its groups'. -/
def roleFor (subject urcId : String) : Body (Option Role) := do
  return bestRole (← queryRows (.roles urcId subject))

/-- Every resource the subject can reach, directly or through a group. -/
def accessible (subject : String) : Body (List String) := queryRows (.accessible subject)

def grant (subject urcId : String) (role : Role) : Body (Except SqlError Unit) := do
  match ← execute (.replaceGrant subject urcId role.asStr) with
  | .error e => return .error e
  | .ok _ => return .ok ()

def revoke (subject urcId : String) : Body (Except SqlError Nat) := execute (.deleteGrant subject urcId)

def addGroupMember (grp subject : String) : Body (Except SqlError Unit) := do
  match ← execute (.insertMember grp subject) with
  | .error e => return .error e
  | .ok _ => return .ok ()

def removeGroupMember (grp subject : String) : Body (Except SqlError Nat) := execute (.deleteMember grp subject)

/-- All (subject, role) grants on a resource, for the admin `ls` view. -/
def listGrants (urcId : String) : Body (List (String × String)) := queryRows (.grantsOn urcId)

/-- The store's methods, each one step to its callers. -/
inductive Method where
  | recordOwner (owner urcId name : String)
  | deleteResource (urcId : String)
  | roleFor (subject urcId : String)
  | accessible (subject : String)
  | grant (subject urcId : String) (role : Role)
  | revoke (subject urcId : String)
  | addGroupMember (grp subject : String)
  | removeGroupMember (grp subject : String)
  | listGrants (urcId : String)
  deriving DecidableEq

@[reducible] def Method.Ans : Method → Type
  | recordOwner .. | deleteResource .. | grant .. | addGroupMember .. => Except SqlError Unit
  | revoke .. | removeGroupMember .. => Except SqlError Nat
  | roleFor .. => Option Role
  | accessible .. => List String
  | listGrants .. => List (String × String)

def Method.body : (m : Method) → Body m.Ans
  | recordOwner owner urcId name => Store.recordOwner owner urcId name
  | deleteResource urcId => Store.deleteResource urcId
  | roleFor subject urcId => Store.roleFor subject urcId
  | accessible subject => Store.accessible subject
  | grant subject urcId role => Store.grant subject urcId role
  | revoke subject urcId => Store.revoke subject urcId
  | addGroupMember grp subject => Store.addGroupMember grp subject
  | removeGroupMember grp subject => Store.removeGroupMember grp subject
  | listGrants urcId => Store.listGrants urcId

/-! ## Running a method -/

/-- How one statement fares: it fails, or its result loses the rows marked with an
    error. -/
structure Fate where
  error : Option SqlError := none
  lost : List (Option SqlError) := []

/-- The rows as read, those that `lost` marks as errors. -/
def readRows {α : Type} : List (Option SqlError) → List α → List (Except SqlError α)
  | some e :: lost, _ :: rows => .error e :: readRows lost rows
  | none :: lost, row :: rows => .ok row :: readRows lost rows
  | [], rows => rows.map .ok
  | _ :: _, [] => []

/-- The database behind the connection and the fates of the statements to come. -/
structure Conn where
  db : Db
  fates : List Fate := []

def Conn.fate (c : Conn) : Fate := c.fates.headD {}

/-- One statement: it takes the next fate. -/
def Stmt.exec (now : Int) : (s : Stmt) → Conn → Option s.Ans × Conn
  | .now, c => (some now, c)
  | .execute w, c =>
    match c.fate.error with
    | some e => (some (.error e), { c with fates := c.fates.tail })
    | none => (some (.ok (w.exec c.db).2), ⟨(w.exec c.db).1, c.fates.tail⟩)
  | .queryMap q, c =>
    match c.fate.error with
    | some e => (some (.error e), { c with fates := c.fates.tail })
    | none => (some (.ok (readRows c.fate.lost (q.rows c.db))), { c with fates := c.fates.tail })
  | .panic, c => (none, c)

/-- One method at wall-clock time `now`; no answer when it panics. -/
def Method.run (now : Int) (m : Method) (c : Conn) : Option m.Ans × Conn := m.body.run (Stmt.exec now) c

end Kaguya.Auth.Store
