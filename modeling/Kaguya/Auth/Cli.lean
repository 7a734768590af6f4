/-
  Kaguya.Auth.Cli — the admin command line (`run_admin` in `auth/src/main.rs`). A command
  is a process of its own on the service's database: it opens it, makes one call of the
  store and prints what came of it, while the service and other commands write.

  What the tables are to an administrator is a map of access (`Acl`): the role that a
  subject was given on a resource, and who is in which group. Proved over every run of any
  number of commands (`commands_atomic`): a command that succeeds has done to the map what
  it says (`Command.apply`) at one instant between its start and its end, and printed what
  was so at that instant (`Command.Prints`); one that fails has done nothing and printed
  nothing. A `println!` that panics, after the write, is a command that does not return.
  What the service decides is a function of the map.
-/

import Kaguya.Lib.Trace
import Kaguya.Auth.StoreProofs
import Kaguya.Auth.Startup
import Mathlib.Data.Set.List
import Mathlib.Order.Bounds.Defs

namespace Kaguya.Auth.Cli

open Kaguya.Lib
open Kaguya.Auth.Store
open Kaguya.Auth.Startup (Environ dbPath)

/-! ## The commands -/

inductive Call where
  /-- `Store::open` -/
  | openStore (path : String)
  | store (m : Method)
  /-- `println!` -/
  | print (line : String)
  /-- `eprintln!` -/
  | complain (text : String)

@[reducible] def Call.Ans : Call → Type
  | openStore _ => Except SqlError Unit
  | store m => m.Ans
  | print _ | complain _ => Unit

abbrev Act (α : Type) := Prog Call Call.Ans α

inductive Error where
  | sql (e : SqlError)
  | text (message : String)

def adminUsage : String := "\n".intercalate
  ["usage: kaguya-auth <command>",
    "  grant <subject> <urc-id> <owner|member>   grant a role on a resource",
    "  revoke <subject> <urc-id>                  remove a grant",
    "  group-add <group> <subject>                add a subject to a group",
    "  group-del <group> <subject>                remove a subject from a group",
    "  ls <urc-id>                                list grants on a resource",
    "subjects are user ids (JWT sub) or 'group:<name>'. Run with no command to serve."]

/-- `?`, and a line. -/
def report {α : Type} (line : α → String) : Except SqlError α → Act (Except Error Unit)
  | .error e => return .error (.sql e)
  | .ok a => do
    let _ : Unit ← .ask (Call.print (line a))
    return .ok ()

def printAll : List (String × String) → Act Unit
  | [] => return ()
  | (subject, role) :: rows => do
    let _ : Unit ← .ask (Call.print (role ++ "\t" ++ subject))
    printAll rows

def grantedLine (subject urc : String) (role : Role) (_ : Unit) : String :=
  "granted " ++ role.asStr ++ " on " ++ urc ++ " to " ++ subject

def revokedLine (subject urc : String) (n : Nat) : String :=
  "removed " ++ toString n ++ " grant(s) for " ++ subject ++ " on " ++ urc

def addedLine (group subject : String) (_ : Unit) : String := "added " ++ subject ++ " to group " ++ group

def removedLine (group subject : String) (n : Nat) : String :=
  "removed " ++ toString n ++ " membership(s) of " ++ subject ++ " in group " ++ group

/-- The command, with the store open. -/
def runCommand (args : List String) : Act (Except Error Unit) :=
  match args with
  | ["grant", subject, urc, role] =>
    match Role.parse role with
    | none => return .error (.text "role must be 'owner' or 'member'")
    | some role => do
      let done : Except SqlError Unit ← .ask (Call.store (Method.grant subject urc role))
      report (grantedLine subject urc role) done
  | ["revoke", subject, urc] => do
    let done : Except SqlError Nat ← .ask (Call.store (Method.revoke subject urc))
    report (revokedLine subject urc) done
  | ["group-add", group, subject] => do
    let done : Except SqlError Unit ← .ask (Call.store (Method.addGroupMember group subject))
    report (addedLine group subject) done
  | ["group-del", group, subject] => do
    let done : Except SqlError Nat ← .ask (Call.store (Method.removeGroupMember group subject))
    report (removedLine group subject) done
  | ["ls", urc] => do
    let rows : List (String × String) ← .ask (Call.store (Method.listGrants urc))
    let _ ← printAll rows
    return .ok ()
  | _ => do
    let _ : Unit ← .ask (Call.complain adminUsage)
    return .error (.text "invalid admin command")

def runAdmin (env : Environ) (args : List String) : Act (Except Error Unit) := do
  let opened : Except SqlError Unit ← .ask (Call.openStore (dbPath env))
  match opened with
  | .error e => return .error (.sql e)
  | .ok _ => runCommand args

/-! ## The map of access -/

structure Acl where
  role : String → String → Option Role
  member : String → String → Bool

/-- The roles that reach a subject: its own, and its groups'. -/
def Acl.Reach (a : Acl) (subject urc : String) (role : Role) : Prop :=
  a.role subject urc = some role ∨ ∃ grp, a.member grp subject = true ∧ a.role (groupSubject grp) urc = some role

/-- What a command is for. -/
inductive Command where
  | grant (subject urc : String) (role : Role)
  | revoke (subject urc : String)
  | groupAdd (group subject : String)
  | groupDel (group subject : String)
  | ls (urc : String)

namespace Command

def of : List String → Option Command
  | ["grant", subject, urc, role] => (Role.parse role).map (grant subject urc)
  | ["revoke", subject, urc] => some (revoke subject urc)
  | ["group-add", group, subject] => some (groupAdd group subject)
  | ["group-del", group, subject] => some (groupDel group subject)
  | ["ls", urc] => some (ls urc)
  | _ => none

def apply : Command → Acl → Acl
  | grant x r role, a => { a with role := fun y s => if y = x ∧ s = r then some role else a.role y s }
  | revoke x r, a => { a with role := fun y s => if y = x ∧ s = r then none else a.role y s }
  | groupAdd g x, a => { a with member := fun g' y => (g' = g ∧ y = x) || a.member g' y }
  | groupDel g x, a => { a with member := fun g' y => !(decide (g' = g ∧ y = x)) && a.member g' y }
  | ls _, a => a

/-- What it prints of the map that it found: `ls` has a line for each subject with a role
    on the resource, in their order; where rows can be lost, some may be missing. -/
def Prints (lossy : Bool) (a : Acl) : Command → List String → Prop
  | grant x r role, out => out = [grantedLine x r role ()]
  | revoke x r, out => out = [revokedLine x r (a.role x r).toList.length]
  | groupAdd g x, out => out = [addedLine g x ()]
  | groupDel g x, out => out = [removedLine g x (a.member g x).toNat]
  | ls r, out => ∃ rows shown : List (String × Role), rows.Pairwise (fun p q => p.1 < q.1) ∧
      (∀ x role, (x, role) ∈ rows ↔ a.role x r = some role) ∧ shown.Sublist rows ∧ (lossy = false → shown = rows) ∧
      out = shown.map fun p => p.2.asStr ++ "\t" ++ p.1

end Command

/-- The map that the tables hold. -/
def view (db : Db) : Acl where
  role x r := (db.grants.rows.find? fun g => g.subject = x ∧ g.urcId = r).bind fun g => Role.parse g.role
  member g x := decide (⟨g, x⟩ ∈ db.groupMembers)

/-! ## What the tables say -/

theorem acl_ext {a b : Acl} (hrole : ∀ x r role, a.role x r = some role ↔ b.role x r = some role)
    (hmember : ∀ g x, a.member g x = true ↔ b.member g x = true) : a = b := by
  obtain ⟨ra, ma⟩ := a
  obtain ⟨rb, mb⟩ := b
  have hr : ra = rb := funext fun x => funext fun r => Option.ext (hrole x r)
  have hm : ma = mb := funext fun g => funext fun x => Bool.eq_iff_iff.mpr (hmember g x)
  rw [hr, hm]

theorem view_member {db : Db} {g x : String} : (view db).member g x = true ↔ ⟨g, x⟩ ∈ db.groupMembers := decide_eq_true_iff

/-- With known roles, a subject has the role of its row. -/
theorem view_role {db : Db} (hk : RolesKnown db) {x r : String} {role : Role} :
    (view db).role x r = some role ↔ ⟨x, r, role.asStr⟩ ∈ db.grants := by
  constructor
  · intro h
    obtain ⟨⟨y, s, text⟩, hfind, hparse⟩ := Option.bind_eq_some_iff.mp h
    have hkey := List.find?_some hfind
    have hmem := List.mem_of_find?_eq_some hfind
    obtain ⟨rfl, rfl⟩ := of_decide_eq_true hkey
    obtain ⟨role', hrole⟩ := hk _ hmem
    have htext : text = role'.asStr := hrole
    rw [htext, Role.parse_asStr] at hparse
    cases hparse
    exact htext ▸ hmem
  · intro h
    cases hfind : db.grants.rows.find? fun g => g.subject = x ∧ g.urcId = r with
    | none => exact absurd (decide_eq_true ⟨rfl, rfl⟩) (List.find?_eq_none.mp hfind ⟨x, r, role.asStr⟩ h)
    | some g =>
      have hfound := List.find?_some hfind
      have hkey := of_decide_eq_true hfound
      have hg : g = ⟨x, r, role.asStr⟩ := by
        refine List.inj_on_of_nodup_map db.grants.keyed (List.mem_of_find?_eq_some hfind) h ?_
        rw [GrantRow.key, GrantRow.key, hkey.1, hkey.2]
      have hparse : Role.parse g.role = some role := by rw [hg, Role.parse_asStr]
      exact Option.bind_eq_some_iff.mpr ⟨g, hfind, hparse⟩

/-- The store's method for a command. -/
def Command.method : Command → Method
  | grant x r role => .grant x r role
  | revoke x r => .revoke x r
  | groupAdd g x => .addGroupMember g x
  | groupDel g x => .removeGroupMember g x
  | ls r => .listGrants r

/-- The method does to the tables what the command does to the map. -/
theorem view_apply {db : Db} (hk : RolesKnown db) (now : Int) (c : Command) :
    view (c.method.effect now db) = c.apply (view db) := by
  have hk' := rolesKnown_effect hk now c.method
  cases c with
  | grant x r role =>
    refine acl_ext (fun y s role' => ?_) fun g y => Iff.rfl
    rw [view_role hk', Command.method, grants_grant, GrantRow.mk.injEq, GrantRow.key, ne_eq, Prod.mk.injEq, Command.apply]
    by_cases e : y = x ∧ s = r
    · simp only [e, and_self, not_true_eq_false, and_false, or_false, true_and, if_true, Option.some.injEq]
      exact ⟨fun h => (Role.asStr_inj h).symm, fun h => congrArg Role.asStr h.symm⟩
    · have e' : ¬ (y = x ∧ s = r ∧ role'.asStr = role.asStr) := fun h => e ⟨h.1, h.2.1⟩
      simp only [e, e', not_false_eq_true, and_true, false_or, if_false]
      exact (view_role hk).symm
  | revoke x r =>
    refine acl_ext (fun y s role' => ?_) fun g y => Iff.rfl
    rw [view_role hk', Command.method, grants_revoke, GrantRow.key, ne_eq, Prod.mk.injEq, Command.apply]
    by_cases e : y = x ∧ s = r
    · simp [e]
    · simp only [e, not_false_eq_true, and_true, if_false]
      exact (view_role hk).symm
  | groupAdd g x =>
    refine acl_ext (fun y s role' => Iff.rfl) fun g' y => ?_
    rw [view_member, Command.method, members_add, MemberRow.mk.injEq, Command.apply, Bool.or_eq_true, decide_eq_true_eq,
      view_member, or_comm]
  | groupDel g x =>
    refine acl_ext (fun y s role' => Iff.rfl) fun g' y => ?_
    rw [view_member, Command.method, members_remove, ne_eq, MemberRow.mk.injEq, Command.apply, Bool.and_eq_true,
      Bool.not_eq_true', decide_eq_false_iff_not, view_member, and_comm]
  | ls r => rfl

/-- The rows of a revoke: one if there was a role. -/
theorem revoked_rows {db : Db} (hk : RolesKnown db) (x r : String) :
    ((Write.deleteGrant x r).exec db).2 = ((view db).role x r).toList.length := by
  cases hrole : (view db).role x r with
  | none =>
    refine Table.deleteWhere_zero fun g hg => decide_eq_false fun e => ?_
    obtain ⟨role, htext⟩ := hk g hg
    have hrow : ⟨x, r, role.asStr⟩ ∈ db.grants := by
      rw [← e.1, ← e.2, ← htext]
      exact hg
    rw [(view_role hk).mpr hrow] at hrole
    cases hrole
  | some role =>
    refine Table.deleteWhere_one ((view_role hk).mp hrole) fun g _ => ?_
    rw [decide_eq_true_iff, GrantRow.key, GrantRow.key, Prod.mk.injEq]

theorem removed_rows (db : Db) (g x : String) : ((Write.deleteMember g x).exec db).2 = ((view db).member g x).toNat := by
  by_cases hm : (⟨g, x⟩ : MemberRow) ∈ db.groupMembers
  · rw [view_member.mpr hm]
    refine Table.deleteWhere_one hm fun m _ => ?_
    rw [decide_eq_true_iff, MemberRow.key, MemberRow.key, Prod.mk.injEq]
  · have hfalse : (view db).member g x = false := decide_eq_false hm
    rw [hfalse]
    refine Table.deleteWhere_zero fun m hmem => decide_eq_false fun e => hm ?_
    rw [← e.1, ← e.2]
    exact hmem

theorem mem_listed {db : Db} {r x text : String} : (x, text) ∈ (Query.grantsOn r).rows db ↔ ⟨x, r, text⟩ ∈ db.grants := by
  rw [Query.rows, List.mem_mergeSort, List.mem_map]
  constructor
  · intro h
    obtain ⟨⟨y, s, t⟩, hg, e⟩ := h
    obtain ⟨hmem, hs⟩ := List.mem_filter.mp hg
    cases e
    rw [← of_decide_eq_true hs]
    exact hmem
  · intro h
    exact ⟨_, List.mem_filter.mpr ⟨h, decide_eq_true rfl⟩, rfl⟩

/-- `ORDER BY subject`, which is one row's at most. -/
theorem listed_sorted (db : Db) (r : String) : ((Query.grantsOn r).rows db).Pairwise fun p q => p.1 < q.1 := by
  have htrans : ∀ a b c : String × String, decide (a.1 ≤ b.1) = true → decide (b.1 ≤ c.1) = true → decide (a.1 ≤ c.1) = true :=
    fun _ _ _ hab hbc => decide_eq_true (String.le_trans (of_decide_eq_true hab) (of_decide_eq_true hbc))
  have htotal : ∀ a b : String × String, (decide (a.1 ≤ b.1) || decide (b.1 ≤ a.1)) = true :=
    fun a b => (Bool.or_eq_true _ _).mpr ((String.le_total a.1 b.1).imp decide_eq_true decide_eq_true)
  have hdistinct : ((db.grants.rows.filter (·.urcId = r)).map fun g => (g.subject, g.role)).Pairwise fun p q => p.1 ≠ q.1 := by
    have hkeys := (List.pairwise_map.mp db.grants.keyed).filter fun g => decide (g.urcId = r)
    refine List.pairwise_map.mpr (hkeys.imp_of_mem fun {g g'} hg hg' hne hx => hne ?_)
    rw [GrantRow.key, GrantRow.key, show g.subject = g'.subject from hx, of_decide_eq_true (List.mem_filter.mp hg).2,
      of_decide_eq_true (List.mem_filter.mp hg').2]
  have hsorted := List.pairwise_mergeSort htrans htotal ((db.grants.rows.filter (·.urcId = r)).map fun g => (g.subject, g.role))
  have hne := (List.mergeSort_perm ((db.grants.rows.filter (·.urcId = r)).map fun g => (g.subject, g.role))
    fun a b => decide (a.1 ≤ b.1)).symm.pairwise hdistinct fun h => h.symm
  refine (hsorted.and hne).imp fun hab => ?_
  exact String.not_le.mp fun hle => hab.2 (String.le_antisymm (of_decide_eq_true hab.1) hle)

/-- The rows of `ls`. -/
theorem listed_rows {db : Db} (hk : RolesKnown db) (r : String) :
    ∃ rows : List (String × Role), rows.Pairwise (fun p q => p.1 < q.1) ∧
      (∀ x role, (x, role) ∈ rows ↔ (view db).role x r = some role) ∧
      (Query.grantsOn r).rows db = rows.map fun p => (p.1, p.2.asStr) := by
  have hrange : (Query.grantsOn r).rows db ∈ Set.range (List.map fun p : String × Role => (p.1, p.2.asStr)) := by
    rw [Set.range_list_map]
    intro p hp
    obtain ⟨role, hrole⟩ := hk _ (mem_listed.mp hp)
    exact ⟨(p.1, role), Prod.ext rfl hrole.symm⟩
  obtain ⟨rows, hrows⟩ := hrange
  refine ⟨rows, ?_, fun x role => ?_, hrows.symm⟩
  · have hsorted := listed_sorted db r
    rw [← hrows] at hsorted
    have hpairs := List.pairwise_map.mp hsorted
    exact hpairs
  · rw [view_role hk, ← mem_listed, ← hrows, List.mem_map]
    constructor
    · exact fun h => ⟨(x, role), h, rfl⟩
    · intro h
      obtain ⟨⟨y, role'⟩, hmem, e⟩ := h
      obtain ⟨rfl, htext⟩ := Prod.mk.inj e
      rw [← Role.asStr_inj htext]
      exact hmem

/-! ## One command -/

/-- What a call does to the tables, and may answer; where nothing is lost, every row that
    is there is read. -/
def callSem (lossy : Bool) : (c : Call) → Db → c.Ans → Db → Prop
  | .store m, db, b, db' => ∃ now fates fates', m.run now ⟨db, fates⟩ = (some b, ⟨db', fates'⟩) ∧
      (lossy = false → ∀ f ∈ fates, f.lost = [])
  | _, db, _, db' => db' = db

abbrev Calls := List (Answered Call Call.Ans Db)

def line? : Call → Option String
  | .print line => some line
  | _ => none

/-- What a command has printed. -/
def printed (l : Calls) : List String := l.filterMap fun x => line? x.call

theorem printed_silent {x : Answered Call Call.Ans Db} (hx : line? x.call = none) (l : Calls) : printed (x :: l) = printed l :=
  List.filterMap_cons_none hx

variable {lossy : Bool} {args : List String} {l : Calls} {res : Except Error Unit}

/-- A command that succeeds has done what it says at one of its calls, and printed what
    was so then; its other calls leave the tables. One that fails has done nothing. -/
structure Atomic (lossy : Bool) (args : List String) (l : Calls) (res : Except Error Unit) : Prop where
  failed : ∀ e, res = .error e → printed l = [] ∧ ∀ x ∈ l, x.after = x.before
  done : res = .ok () → ∃ c l₁ x l₂, Command.of args = some c ∧ l = l₁ ++ x :: l₂ ∧ (∀ y ∈ l₁ ++ l₂, y.after = y.before) ∧
    view x.after = c.apply (view x.before) ∧ c.Prints lossy (view x.before) (printed l)

theorem leads_report {α : Type} {line : α → String} {r : Except SqlError α} (h : (report line r).Leads l (.ret res)) :
    (∃ e, r = .error e ∧ l = [] ∧ res = .error (.sql e)) ∨
      ∃ a s s', r = .ok a ∧ l = [⟨s, .print (line a), (), s'⟩] ∧ res = .ok () := by
  cases r with
  | error e =>
    obtain ⟨rfl, h⟩ := Prog.leads_ret h
    cases h
    exact Or.inl ⟨e, rfl, rfl, rfl⟩
  | ok a =>
    obtain ⟨s, b, s', l', rfl, hret⟩ := Prog.leads_ask_ret h
    obtain ⟨rfl, hret⟩ := Prog.leads_ret hret
    cases hret
    exact Or.inr ⟨a, s, s', rfl, rfl, rfl⟩

/-- A command that makes one write and reports it. -/
theorem atomic_report {α : Type} {c : Command} {line : α → String} {r : Except SqlError α}
    {x : Answered Call Call.Ans Db} (hc : Command.of args = some c) (hx : line? x.call = none)
    (hwrite : (∃ e, r = .error e ∧ x.after = x.before) ∨
      ∃ a, r = .ok a ∧ view x.after = c.apply (view x.before) ∧ c.Prints lossy (view x.before) [line a])
    (hl : (report line r).Leads l (.ret res)) (hsem : ∀ y ∈ l, callSem lossy y.call y.before y.ans y.after) :
    Atomic lossy args (x :: l) res := by
  rcases leads_report hl with ⟨e, rfl, rfl, rfl⟩ | ⟨a, s, s', rfl, rfl, rfl⟩
  · rcases hwrite with ⟨_, _, hkeep⟩ | ⟨_, h, _⟩
    · refine ⟨fun _ _ => ⟨?_, fun y hy => ?_⟩, fun h => (by cases h)⟩
      · exact printed_silent hx []
      · rw [List.mem_singleton.mp hy, hkeep]
    · cases h
  · rcases hwrite with ⟨_, h, _⟩ | ⟨_, h, hview, hprints⟩
    · cases h
    · cases h
      refine ⟨fun _ h => (by cases h), fun _ => ⟨c, [], x, _, hc, rfl, fun y hy => ?_, hview, ?_⟩⟩
      · rw [List.mem_singleton.mp hy]
        exact hsem _ List.mem_cons_self
      · rw [printed_silent hx]
        exact hprints

theorem atomic_cons {x : Answered Call Call.Ans Db} (hx : line? x.call = none) (hkeep : x.after = x.before)
    (h : Atomic lossy args l res) : Atomic lossy args (x :: l) res := by
  refine ⟨fun e he => ?_, fun hok => ?_⟩
  · obtain ⟨hprinted, hall⟩ := h.failed e he
    exact ⟨(printed_silent hx l).trans hprinted, List.forall_mem_cons.mpr ⟨hkeep, hall⟩⟩
  · obtain ⟨c, l₁, y, l₂, hc, rfl, hall, hview, hprints⟩ := h.done hok
    refine ⟨c, x :: l₁, y, l₂, hc, rfl, List.forall_mem_cons.mpr ⟨hkeep, hall⟩, hview, ?_⟩
    rw [printed_silent hx]
    exact hprints

/-- One write: it fails, or has its effect. -/
theorem run_write {now : Int} {m : Method} {w : Write} {k : Except SqlError Nat → Body m.Ans} {f : Except SqlError Nat → m.Ans}
    (hb : m.body = execute w >>= k) (hk : ∀ r, k r = .ret (f r)) (hw : ∀ db, (w.exec db).1 = m.effect now db)
    {c c' : Conn} {b : m.Ans} (h : m.run now c = (some b, c')) :
    (∃ e, b = f (.error e) ∧ c'.db = c.db) ∨ (b = f (.ok (w.exec c.db).2) ∧ c'.db = m.effect now c.db) := by
  unfold Method.run at h
  rw [hb, run_execute] at h
  cases hf : c.fate.error with
  | some e =>
    rw [hf] at h
    simp only [hk] at h
    cases h
    exact Or.inl ⟨e, rfl, rfl⟩
  | none =>
    rw [hf] at h
    simp only [hk] at h
    cases h
    exact Or.inr ⟨rfl, hw c.db⟩

/-- A command whose method is one write. -/
theorem write_atomic {α : Type} (c : Command) {w : Write} {k : Except SqlError Nat → Body c.method.Ans}
    (f : Except SqlError Nat → c.method.Ans) (report' : c.method.Ans → Except SqlError α) {g : Nat → α} {line : α → String}
    (hof : Command.of args = some c) (hb : c.method.body = execute w >>= k) (hk : ∀ r, k r = .ret (f r))
    (hw : ∀ now db, (w.exec db).1 = c.method.effect now db) (herror : ∀ e, report' (f (.error e)) = .error e)
    (hok : ∀ n, report' (f (.ok n)) = .ok (g n))
    (hprints : ∀ db, RolesKnown db → c.Prints lossy (view db) [line (g (w.exec db).2)])
    (h : (Prog.ask (Call.store c.method) >>= fun b => report line (report' b) : Act (Except Error Unit)).Leads l (.ret res))
    (hsem : ∀ y ∈ l, callSem lossy y.call y.before y.ans y.after) (hknown : ∀ y ∈ l, RolesKnown y.before) :
    Atomic lossy args l res := by
  obtain ⟨s, b, s', l', rfl, hrest⟩ := Prog.leads_ask_ret h
  obtain ⟨now, fates, fates', hrun, _⟩ := hsem _ List.mem_cons_self
  have hs := hknown _ List.mem_cons_self
  refine atomic_report hof rfl ?_ hrest fun y hy => hsem y (List.mem_cons_of_mem _ hy)
  rcases run_write hb hk (hw now) hrun with ⟨e, hanswer, hkeep⟩ | ⟨hanswer, heffect⟩
  · exact Or.inl ⟨e, (congrArg report' hanswer).trans (herror e), hkeep⟩
  · refine Or.inr ⟨_, (congrArg report' hanswer).trans (hok _), ?_, hprints s hs⟩
    rw [show s' = c.method.effect now s from heffect]
    exact view_apply hs now c

theorem refused_atomic {e : Error} (h : (pure (Except.error e) : Act (Except Error Unit)).Leads l (.ret res)) :
    Atomic lossy args l res := by
  obtain ⟨rfl, hret⟩ := Prog.leads_ret h
  cases hret
  exact ⟨fun _ _ => ⟨rfl, fun y hy => by cases hy⟩, fun hok => by cases hok⟩

theorem printAll_path {rows : List (String × String)} (h : (printAll rows).Leads l (.ret ())) :
    printed l = (rows.map fun p => p.2 ++ "\t" ++ p.1) ∧ ∀ y ∈ l, ∃ line, y.call = .print line := by
  induction rows generalizing l with
  | nil =>
    obtain ⟨rfl, _⟩ := Prog.leads_ret h
    exact ⟨rfl, fun y hy => by cases hy⟩
  | cons row rows ih =>
    obtain ⟨s, b, s', l', rfl, hrest⟩ := Prog.leads_ask_ret h
    obtain ⟨hprinted, hall⟩ := ih hrest
    exact ⟨congrArg _ hprinted, List.forall_mem_cons.mpr ⟨⟨_, rfl⟩, hall⟩⟩

/-- The rows that are read are rows that are there, and all of them if nothing is lost. -/
theorem run_listGrants {now : Int} {r : String} {c c' : Conn} {b : List (String × String)}
    (h : (Method.listGrants r).run now c = (some b, c')) (hlost : lossy = false → ∀ f ∈ c.fates, f.lost = []) :
    c'.db = c.db ∧ b.Sublist ((Query.grantsOn r).rows c.db) ∧ (lossy = false → b = (Query.grantsOn r).rows c.db) := by
  have hrun := (run_query now (q := .grantsOn r) c).symm.trans h
  cases hf : c.fate.error with
  | some e =>
    rw [hf] at hrun
    cases hrun
  | none =>
    rw [hf] at hrun
    cases hrun
    refine ⟨rfl, readRows_sublist _ _, fun hl => ?_⟩
    have hnone : c.fate.lost = [] := by
      obtain ⟨db, fates⟩ := c
      cases fates with
      | nil => rfl
      | cons f fates => exact hlost hl f List.mem_cons_self
    rw [hnone, readRows_nil, flatten_ok]

theorem ls_atomic {r : String} (hof : Command.of args = some (.ls r))
    (h : (Prog.ask (Call.store (Method.listGrants r)) >>= fun rows => printAll rows >>= fun _ => pure (.ok ()) :
      Act (Except Error Unit)).Leads l (.ret res))
    (hsem : ∀ y ∈ l, callSem lossy y.call y.before y.ans y.after) (hknown : ∀ y ∈ l, RolesKnown y.before) :
    Atomic lossy args l res := by
  obtain ⟨s, b, s', l', rfl, hrest⟩ := Prog.leads_ask_ret h
  obtain ⟨l₁, l₂, u, rfl, hall, hret⟩ := Prog.leads_bind_ret hrest
  obtain ⟨rfl, hret⟩ := Prog.leads_ret hret
  cases hret
  obtain ⟨now, fates, fates', hrun, hlost⟩ := hsem _ List.mem_cons_self
  obtain ⟨hkeep, hsub, hexact⟩ := run_listGrants hrun hlost
  obtain ⟨hprinted, hprints⟩ := printAll_path hall
  obtain ⟨rows, hsorted, hmem, hrows⟩ := listed_rows (hknown _ List.mem_cons_self) r
  rw [show (Query.grantsOn r).rows s = _ from hrows] at hsub hexact
  obtain ⟨shown, hshown, rfl⟩ := List.sublist_map_iff.mp hsub
  rw [List.append_nil] at hsem ⊢
  refine ⟨fun _ h => (by cases h), fun _ => ⟨.ls r, [], _, l₁, hof, rfl, fun y hy => ?_, ?_, ?_⟩⟩
  · have hstep := hsem y (List.mem_cons_of_mem _ hy)
    obtain ⟨line, hline⟩ := hprints y hy
    obtain ⟨t, c, a, t'⟩ := y
    cases hline
    exact hstep
  · rw [show s' = s from hkeep]
    rfl
  · refine ⟨rows, shown, hsorted, hmem, hshown, fun hl => hshown.eq_of_length ?_, ?_⟩
    · simpa using congrArg List.length (hexact hl)
    · exact (printed_silent rfl l₁).trans (hprinted.trans List.map_map)

/-- The command, with the store open. -/
theorem command_atomic (h : (runCommand args).Leads l (.ret res))
    (hsem : ∀ y ∈ l, callSem lossy y.call y.before y.ans y.after) (hknown : ∀ y ∈ l, RolesKnown y.before) :
    Atomic lossy args l res := by
  unfold runCommand at h
  split at h
  · next subject urc role =>
    cases hrole : Role.parse role with
    | none =>
      rw [hrole] at h
      exact refused_atomic h
    | some role' =>
      rw [hrole] at h
      exact write_atomic (.grant subject urc role') (Except.map fun _ => ()) id (by rw [Command.of, hrole]; rfl) rfl
        (fun r => by cases r <;> rfl) (fun _ _ => rfl) (fun _ => rfl) (fun _ => rfl) (fun _ _ => rfl) h hsem hknown
  · next subject urc =>
    exact write_atomic (.revoke subject urc) id id rfl rfl (fun _ => rfl) (fun _ _ => rfl) (fun _ => rfl) (fun _ => rfl)
      (fun db hk => by rw [Command.Prints, revoked_rows hk]) h hsem hknown
  · next group subject =>
    exact write_atomic (.groupAdd group subject) (Except.map fun _ => ()) id rfl rfl (fun r => by cases r <;> rfl)
      (fun _ _ => rfl) (fun _ => rfl) (fun _ => rfl) (fun _ _ => rfl) h hsem hknown
  · next group subject =>
    exact write_atomic (.groupDel group subject) id id rfl rfl (fun _ => rfl) (fun _ _ => rfl) (fun _ => rfl) (fun _ => rfl)
      (fun db _ => by rw [Command.Prints, removed_rows]) h hsem hknown
  · exact ls_atomic rfl h hsem hknown
  · obtain ⟨s, b, s', l', rfl, hrest⟩ := Prog.leads_ask_ret h
    exact atomic_cons rfl (hsem _ List.mem_cons_self) (refused_atomic hrest)

theorem run_atomic {env : Environ} (h : (runAdmin env args).Leads l (.ret res))
    (hsem : ∀ y ∈ l, callSem lossy y.call y.before y.ans y.after) (hknown : ∀ y ∈ l, RolesKnown y.before) :
    Atomic lossy args l res := by
  obtain ⟨s, b, s', l', rfl, hrest⟩ := Prog.leads_ask_ret h
  refine atomic_cons rfl (hsem _ List.mem_cons_self) ?_
  cases b with
  | error e => exact refused_atomic hrest
  | ok _ => exact command_atomic hrest (fun y hy => hsem y (List.mem_cons_of_mem _ hy)) fun y hy => hknown y (List.mem_cons_of_mem _ hy)

/-! ## Commands at once -/

/-- How a command is run. -/
structure Process where
  env : Environ
  args : List String

/-- Any number of commands on the tables, which others write to as methods of the store do
    (`Runs.step_tables`). -/
def commands (lossy : Bool) : System Process Unit Call Call.Ans (Except Error Unit) Db where
  sem _ := callSem lossy
  env _ db db' := ∃ m now, Leaves now m db db'
  body i := runAdmin i.env i.args

theorem reach_known {cond : Pool Process Call Call.Ans (Except Error Unit) Db → Event Process Unit → Prop}
    {p : Pool Process Call Call.Ans (Except Error Unit) Db} (hp : (commands lossy).Reach cond (· = Db.empty) p) :
    RolesKnown p.shared := by
  induction hp with
  | init s h =>
    rw [h]
    exact fun g hg => absurd hg (Table.not_mem_empty g)
  | @step p _ v _ _ hs ih =>
    cases hs with
    | start i => exact ih
    | env e s' h =>
      obtain ⟨m, now, hl⟩ := h
      exact rolesKnown_leaves hl ih
    | act n i c k b s' _ h =>
      cases c with
      | store m =>
        obtain ⟨now, fates, fates', hrun, _⟩ := h
        have hl := run_leaves now m ⟨p.shared, fates⟩
        rw [hrun] at hl
        exact rolesKnown_leaves hl ih
      | openStore _ | print _ | complain _ =>
        rw [show s' = _ from h]
        exact ih

/-- What reaches a subject in the map is what the service looks for in the tables. -/
theorem rolePath_view {db : Db} (hk : RolesKnown db) {subject urc : String} {role : Role} :
    RolePath db subject urc role ↔ (view db).Reach subject urc role := by
  have hrow : ∀ x, (∃ g ∈ db.grants, g.urcId = urc ∧ g.subject = x ∧ Role.parse g.role = some role) ↔
      (view db).role x urc = some role := by
    intro x
    rw [view_role hk]
    constructor
    · intro h
      obtain ⟨⟨y, r, text⟩, hg, rfl, rfl, hparse⟩ := h
      obtain ⟨role', htext⟩ := hk _ hg
      have htext : text = role'.asStr := htext
      subst htext
      cases (Role.parse_asStr role').symm.trans hparse
      exact hg
    · exact fun h => ⟨_, h, rfl, rfl, Role.parse_asStr role⟩
  constructor
  · intro h
    obtain ⟨g, hg, hurc, hx | ⟨grp, hm, hx⟩, hparse⟩ := h
    · exact Or.inl ((hrow subject).mp ⟨g, hg, hurc, hx, hparse⟩)
    · exact Or.inr ⟨grp, view_member.mpr hm, (hrow _).mp ⟨g, hg, hurc, hx, hparse⟩⟩
  · intro h
    rcases h with h | ⟨grp, hm, h⟩
    · obtain ⟨g, hg, hurc, hx, hparse⟩ := (hrow subject).mpr h
      exact ⟨g, hg, hurc, Or.inl hx, hparse⟩
    · obtain ⟨g, hg, hurc, hx, hparse⟩ := (hrow _).mpr h
      exact ⟨g, hg, hurc, Or.inr ⟨grp, view_member.mp hm, hx⟩, hparse⟩

/-- In every run of admin commands beside whatever else writes the tables: a command that
    has ended well did what it says at one instant and printed what was so then, and one
    that has failed did nothing; and the service decides by the map that they act on. -/
theorem commands_atomic (lossy : Bool) :
    (∀ trace p n i res, (commands lossy).Run (fun _ _ _ => True) (· = Db.empty) trace p →
      p.threads[n]? = some ⟨i, .ret res⟩ → Atomic lossy i.args (trace.own n) res) ∧
    ∀ trace p, (commands lossy).Run (fun _ _ _ => True) (· = Db.empty) trace p → ∀ subject urc role,
      p.shared.roleFor subject urc = some role ↔ IsGreatest {role' | (view p.shared).Reach subject urc role'} role := by
  refine ⟨fun trace p n i res h hn => ?_, fun trace p h subject urc role => ?_⟩
  · refine run_atomic ((System.run_leads h).1 n _ hn) (System.run_sem h hn) fun x hx => ?_
    obtain ⟨early, q, q', hr, _, hs⟩ := System.run_mem h (Trace.mem_own.mp hx)
    have hbefore : x.before = q.shared := System.happens_before hs
    rw [hbefore]
    exact reach_known (System.run_reach hr)
  · rw [roleFor_eq_some]
    simp only [rolePath_view (reach_known (System.run_reach h))]
    exact Iff.rfl

end Kaguya.Auth.Cli
