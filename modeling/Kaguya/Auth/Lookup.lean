/-
  Kaguya.Auth.Lookup — the permission listing with writes between its reads.
  `lookup_user_permissions` lists the caller's resources in one store call and reads
  each role in another; a role that is gone by then is reported as `member`.

  A listing is right (`Held`) if every entry is the grant of a role that the caller had
  in some state of the time the call ran. It is, in every run in which no step takes a
  caller from owner to nothing on a resource its listing has still to read
  (`listing_held`): whoever loses access otherwise was a member when it was lost. A
  listing is wrong exactly where it reads no role and the caller never was a member
  (`held_iff`), as when an admin revokes an owner in between (`revoked_owner_listed`).
-/

import Kaguya.Lib.Trace
import Kaguya.Auth.Runs

namespace Kaguya.Auth.Lookup

open Kaguya.Lib
open Kaguya.Auth.Jwt
open Kaguya.Auth.Store
open Kaguya.Auth.Service
open Kaguya.Auth.Runs
open Kaguya.Auth.Verify (VerifyError Unicode)

abbrev RpcPool := Pool Request Call Call.Ans (Except Status Reply) Db
abbrev History := Trace Request (List String) Call Call.Ans Db
abbrev Step := Moment Request (List String) Call Call.Ans Db

/-! ## What a listing reads -/

abbrev roleRead (sub id : String) (db : Db) (role : Option Role) (db' : Db) : Answered Call Call.Ans Db :=
  ⟨db, .store (.roleFor sub id), role, db'⟩

abbrev listRead (sub : String) (db : Db) (ids : List String) (db' : Db) : Answered Call Call.Ans Db :=
  ⟨db, .store (.accessible sub), ids, db'⟩

/-- The listing of ids: an entry for each, from the role that was read for it. -/
theorem lookupIds_path {sub : String} {ids : List String} {l : List (Answered Call Call.Ans Db)}
    {es : List ResourcePermission} (h : (lookupIds sub ids).Leads l (.ret es)) :
    (∀ e ∈ es, ∃ l₁ l₂ id db role db', l = l₁ ++ roleRead sub id db role db' :: l₂ ∧ id ∈ ids ∧
      e = Service.grant id (role.getD .member) ∧ (ids.Nodup → ∀ x ∈ l₁, x.call ≠ .store (.roleFor sub id))) ∧
    ∀ id db role db', roleRead sub id db role db' ∈ l → Service.grant id (role.getD .member) ∈ es := by
  induction ids generalizing l es with
  | nil =>
    obtain ⟨rfl, e⟩ := Prog.leads_ret h
    cases e
    exact ⟨fun e he => (by cases he), fun _ _ _ _ hx => (by cases hx)⟩
  | cons id ids ih =>
    obtain ⟨db, role, db', l', rfl, hrest⟩ := Prog.leads_ask_ret h
    obtain ⟨l₁, l₂, es', rfl, h₁, h₂⟩ := Prog.leads_bind_ret hrest
    obtain ⟨rfl, e⟩ := Prog.leads_ret h₂
    cases e
    rw [List.append_nil]
    obtain ⟨hes, hl⟩ := ih h₁
    refine ⟨fun e he => ?_, fun id' db₂ role' db₂' hx => ?_⟩
    · rcases List.mem_cons.mp he with rfl | he
      · exact ⟨[], l₁, id, db, role, db', rfl, List.mem_cons_self, rfl, fun _ x hx => by cases hx⟩
      · obtain ⟨l₃, l₄, id', db₂, role', db₂', rfl, hid, rfl, hn⟩ := hes e he
        refine ⟨_ :: l₃, l₄, id', db₂, role', db₂', rfl, List.mem_cons_of_mem _ hid, rfl, fun hnd x hx => ?_⟩
        obtain ⟨hid', hnd⟩ := List.nodup_cons.mp hnd
        rcases List.mem_cons.mp hx with rfl | hx
        · intro e
          cases e
          exact hid' hid
        · exact hn hnd x hx
    · rcases List.mem_cons.mp hx with e | hx
      · cases e
        exact List.mem_cons_self
      · exact List.mem_cons_of_mem _ (hl id' db₂ role' db₂' hx)

variable {U : Unicode} {a : AuthConfig}

/-- A listing that came to its reply resolved its bearer, read the ids, then the roles. -/
theorem lookup_path {auth : Option String} {l : List (Answered Call Call.Ans Db)} {r : LookupUserPermissionsResponse}
    (h : ((Rpc.lookupUserPermissions auth).handle U a).Leads l (.ret (.ok (.looked r)))) :
    ∃ claims x db ids db' l', l = x :: listRead claims.sub db ids db' :: l' ∧
      (∃ s s', x = ⟨s, .identity (bearer auth), .ok claims, s'⟩) ∧
      (lookupIds claims.sub ids).Leads l' (.ret r.resourcePermission) := by
  obtain ⟨l₁, l₂, res, rfl, h₁, h₂⟩ := Prog.leads_bind_ret h
  cases res with
  | error status => cases (Prog.leads_ret h₂).2
  | ok r' =>
    obtain ⟨rfl, e⟩ := Prog.leads_ret h₂
    cases e
    obtain ⟨s, auth', s', l', rfl, h₃⟩ := Prog.leads_ask_ret h₁
    cases auth' with
    | error e => cases (Prog.leads_ret h₃).2
    | ok claims =>
      obtain ⟨db, ids, db', l₃, rfl, h₄⟩ := Prog.leads_ask_ret h₃
      obtain ⟨l₄, l₅, es, rfl, h₅, h₆⟩ := Prog.leads_bind_ret h₄
      obtain ⟨rfl, e⟩ := Prog.leads_ret h₆
      cases e
      refine ⟨claims, _, db, ids, db', l₄, ?_, ⟨s, s', rfl⟩, h₅⟩
      rw [List.append_nil, List.append_nil]

/-- The list of ids is read from the tables and leaves them as they are. -/
theorem accessible_read {i : Request} {sub : String} {db db' : Db} {ids : List String}
    (h : callSem i (.store (.accessible sub)) db ids db') : db' = db ∧ ids ⊆ db.accessible sub ∧ ids.Nodup := by
  obtain ⟨now, fates, fates', hr⟩ := h
  have hrun := run_query now (q := .accessible sub) ⟨db, fates⟩
  rw [show (queryRows (.accessible sub)).run (Stmt.exec now) ⟨db, fates⟩ = _ from hr] at hrun
  cases hf : (Conn.fate ⟨db, fates⟩).error with
  | some e =>
    rw [hf] at hrun
    cases (Prod.mk.inj hrun).1
  | none =>
    rw [hf] at hrun
    obtain ⟨hids, hdb⟩ := Prod.mk.inj hrun
    rw [Option.some.injEq] at hids
    have hsub := readRows_sublist (Conn.fate ⟨db, fates⟩).lost (db.accessible sub)
    refine ⟨congrArg Conn.db hdb, ?_, ?_⟩
    · rw [hids]
      exact hsub.subset
    · rw [hids]
      exact hsub.nodup (accessible_nodup db sub)

/-! ## Roles that were held -/

/-- The caller had this role in some state of the time its call ran. -/
def RoleDuring (trace : History) (n : Nat) (sub id : String) (role : Role) : Prop :=
  ∃ db, trace.During n db ∧ db.roleFor sub id = some role

/-- The reply reports only roles that its caller held. -/
def HeldBy (trace : History) (n : Nat) (sub : String) (r : LookupUserPermissionsResponse) : Prop :=
  ∀ e ∈ r.resourcePermission, ∃ id role, e = Service.grant id role ∧ RoleDuring trace n sub id role

/-- Thread `n` is a listing that has come to its reply. -/
def Listed (p : RpcPool) (n : Nat) (identity : Except VerifyError IdentityClaims) (auth : Option String)
    (r : LookupUserPermissionsResponse) : Prop :=
  p.threads[n]? = some ⟨⟨identity, .lookupUserPermissions auth⟩, .ret (.ok (.looked r))⟩

/-- Every listing that has come to its reply is one of an authenticated caller and
    reports only roles that the caller held. -/
def Held (trace : History) (p : RpcPool) : Prop :=
  ∀ n identity auth r, Listed p n identity auth r → ∃ claims, identity = .ok claims ∧ HeldBy trace n claims.sub r

/-- A listing's role reads answer with the role in the tables: no statement of them
    fails and no row is lost. -/
def Faithful (trace : History) (_ : RpcPool) (m : Step) : Prop :=
  ∀ n identity auth sub id role, trace.Started n ⟨identity, .lookupUserPermissions auth⟩ →
    m.did = .called n (.store (.roleFor sub id)) role → role = m.before.roleFor sub id

/-- A listing by `sub` has found `id` and has still to read its role. -/
def Awaits (trace : History) (n : Nat) (sub id : String) : Prop :=
  (∃ claims auth, trace.Started n ⟨.ok claims, .lookupUserPermissions auth⟩ ∧ claims.sub = sub) ∧
    (∃ db ids db', listRead sub db ids db' ∈ trace.own n ∧ id ∈ ids) ∧
    ∀ x ∈ trace.own n, x.call ≠ .store (.roleFor sub id)

/-- The step takes no owner to nothing on a resource whose role a listing has still to
    read. -/
def Spared (trace : History) (p : RpcPool) (m : Step) : Prop :=
  Faithful trace p m ∧ ∀ n sub id, Awaits trace n sub id → m.before.roleFor sub id = some .owner →
    m.after.roleFor sub id ≠ none

section Listing

variable {cond : History → RpcPool → Step → Prop} {trace : History} {p : RpcPool} {n : Nat}

theorem grant_inj {id id' : String} {role role' : Role} (h : Service.grant id role = Service.grant id' role') :
    id = id' ∧ role = role' := by
  obtain ⟨hid, hp⟩ := ResourcePermission.mk.inj h
  refine ⟨hid, ?_⟩
  cases role <;> cases role' <;> first | rfl | simp [Role.permissions] at hp

/-- The states of a run hold roles that the store writes. -/
theorem known_before {m : Step} (h : (service U a).Run cond (· = Db.empty) trace p) (hm : m ∈ trace) :
    RolesKnown m.before := by
  obtain ⟨early, q, q', hr, _, hs⟩ := System.run_mem h hm
  rw [System.happens_before hs]
  exact reach_rolesKnown (System.run_reach hr)

/-- A finished listing: its caller, the ids it found, and each entry from a read of its
    role by the store. -/
structure Listing (trace : History) (n : Nat) (claims : IdentityClaims)
    (auth : Option String) (r : LookupUserPermissionsResponse) : Prop where
  started : trace.Started n ⟨.ok claims, .lookupUserPermissions auth⟩
  entry : ∀ e ∈ r.resourcePermission, ∃ l₁ l₂ db ids db' id db₂ role db₂',
    trace.own n = l₁ ++ roleRead claims.sub id db₂ role db₂' :: l₂ ∧
    listRead claims.sub db ids db' ∈ l₁ ∧ id ∈ ids ∧ db' = db ∧ ids ⊆ db.accessible claims.sub ∧
    e = Service.grant id (role.getD .member) ∧ ∀ x ∈ l₁, x.call ≠ .store (.roleFor claims.sub id)
  read : ∀ id db role db', roleRead claims.sub id db role db' ∈ trace.own n →
    Service.grant id (role.getD .member) ∈ r.resourcePermission

theorem listing_of_run (h : (service U a).Run cond (· = Db.empty) trace p)
    {identity : Except VerifyError IdentityClaims} {auth : Option String} {r : LookupUserPermissionsResponse}
    (hn : Listed p n identity auth r) : ∃ claims, identity = .ok claims ∧ Listing trace n claims auth r := by
  have hsem := System.run_sem h hn
  obtain ⟨claims, x, db, ids, db', l, hown, ⟨s, s', rfl⟩, hl⟩ :=
    lookup_path (U := U) (a := a) ((System.run_leads h).1 n _ hn)
  have hid : identity = .ok claims := by
    have hx := hsem _ (hown ▸ List.mem_cons_self)
    exact hx.1.symm
  have hlist : callSem ⟨identity, .lookupUserPermissions auth⟩ (.store (.accessible claims.sub)) db ids db' :=
    hsem (listRead claims.sub db ids db') (hown ▸ List.mem_cons_of_mem _ List.mem_cons_self)
  obtain ⟨hdb, hids, hnd⟩ := accessible_read hlist
  obtain ⟨hes, hread⟩ := lookupIds_path hl
  subst hid
  refine ⟨claims, rfl, System.run_started h hn, fun e he => ?_, fun id db₂ role db₂' hx => ?_⟩
  · obtain ⟨l₁, l₂, id, db₂, role, db₂', rfl, hid, he, hnot⟩ := hes e he
    refine ⟨_ :: _ :: l₁, l₂, db, ids, db', id, db₂, role, db₂', hown, ?_, hid, hdb, hids, he, fun x hx => ?_⟩
    · exact List.mem_cons_of_mem _ List.mem_cons_self
    · rcases List.mem_cons.mp hx with rfl | hx
      · exact fun e => by cases e
      · rcases List.mem_cons.mp hx with rfl | hx
        · exact fun e => by cases e
        · exact hnot hnd x hx
  · rw [hown] at hx
    rcases List.mem_cons.mp hx with e | hx
    · cases e
    · rcases List.mem_cons.mp hx with e | hx
      · cases e
      · exact hread id db₂ role db₂' hx

/-- A listing's faithful read answers with the role its caller has there. -/
theorem read_faithful (h : (service U a).Run cond (· = Db.empty) trace p)
    (hf : ∀ trace p m, cond trace p m → Faithful trace p m) {identity : Except VerifyError IdentityClaims}
    {auth : Option String} (hs : trace.Started n ⟨identity, .lookupUserPermissions auth⟩) {db db' : Db}
    {sub id : String} {role : Option Role} (hx : roleRead sub id db role db' ∈ trace.own n) :
    role = db.roleFor sub id := by
  obtain ⟨late, early, rfl⟩ := List.append_of_mem (Trace.mem_own.mp hx)
  obtain ⟨q, q', _, hc, _, _⟩ := System.run_split h
  exact hf early q _ hc n identity auth sub id role (System.run_called h hs) rfl

/-- A listing whose reads are faithful is right exactly if its caller was a member
    wherever it read no role. -/
theorem heldBy_iff (h : (service U a).Run cond (· = Db.empty) trace p)
    (hf : ∀ trace p m, cond trace p m → Faithful trace p m) {claims : IdentityClaims} {auth : Option String}
    {r : LookupUserPermissionsResponse} (hl : Listing trace n claims auth r) :
    HeldBy trace n claims.sub r ↔ ∀ id db db', roleRead claims.sub id db none db' ∈ trace.own n →
      RoleDuring trace n claims.sub id .member := by
  refine ⟨fun hh id db db' hx => ?_, fun hm e he => ?_⟩
  · obtain ⟨id', role, he, hr⟩ := hh _ (hl.read id db none db' hx)
    obtain ⟨rfl, rfl⟩ := grant_inj he
    exact hr
  · obtain ⟨l₁, l₂, _, _, _, id, db, role, db', hown, _, _, _, _, rfl, _⟩ := hl.entry e he
    have hx : roleRead claims.sub id db role db' ∈ trace.own n := by
      rw [hown]
      exact List.mem_append_right _ List.mem_cons_self
    refine ⟨id, role.getD .member, rfl, ?_⟩
    cases role with
    | none => exact hm id db db' hx
    | some role => exact ⟨db, System.run_during h hx, (read_faithful h hf hl.started hx).symm⟩

/-- Where a spared listing reads no role, its caller was a member when it was lost. -/
theorem spared_member (h : (service U a).Run Spared (· = Db.empty) trace p) {claims : IdentityClaims}
    {auth : Option String} {r : LookupUserPermissionsResponse} (hl : Listing trace n claims auth r) {id : String}
    {db db' : Db} (hx : roleRead claims.sub id db none db' ∈ trace.own n) :
    RoleDuring trace n claims.sub id .member := by
  obtain ⟨l₁, l₂, db₁, ids, db₁', id₂, db₂, role, db₂', hown, hlist, hid, rfl, hsub, he, hnot⟩ :=
    hl.entry _ (hl.read id db none db' hx)
  obtain ⟨rfl, hrole⟩ := grant_inj he
  have hx₂ : roleRead claims.sub id db₂ role db₂' ∈ trace.own n := by
    rw [hown]
    exact List.mem_append_right _ List.mem_cons_self
  have hrole₂ := read_faithful h (fun _ _ _ hc => hc.1) hl.started hx₂
  cases role with
  | some role =>
    cases hrole
    exact ⟨db₂, System.run_during h hx₂, hrole₂.symm⟩
  | none =>
    -- the list is read, then the role; between the two the role was lost
    have hknown : RolesKnown db₁' := by
      have hmem : listRead claims.sub db₁' ids db₁' ∈ trace.own n := by
        rw [hown]
        exact List.mem_append_left _ hlist
      exact known_before h (Trace.mem_own.mp hmem)
    have hhad : db₁'.roleFor claims.sub id ≠ none := by
      obtain ⟨role, hr⟩ := (accessible_iff_role hknown).mp (hsub hid)
      rw [hr]
      exact fun e => by cases e
    obtain ⟨late, z, early, rfl, hbefore, hafter, hz, hearly, hduring⟩ :=
      System.change_between_calls (fun db => db.roleFor claims.sub id ≠ none) h hown hlist hhad
        (fun hne => hne hrole₂.symm)
    obtain ⟨q, q', hr, hc, hs, _⟩ := System.run_split h
    have hstarted : Trace.Started n ⟨.ok claims, .lookupUserPermissions auth⟩ early := by
      obtain ⟨i, hi⟩ := System.run_own_started hr hz
      rw [System.run_started_unique h hl.started ((hi.cons z).append late)]
      exact hi
    have hawaits : Awaits early n claims.sub id :=
      ⟨⟨claims, auth, hstarted, rfl⟩, ⟨db₁', ids, db₁', hz, hid⟩, fun x hx => hnot x (hearly.subset hx)⟩
    refine ⟨z.before, hduring, ?_⟩
    cases hrole : z.before.roleFor claims.sub id with
    | none => exact absurd hrole hbefore
    | some role => cases role with
      | member => rfl
      | owner => exact absurd (hc.2 n claims.sub id hawaits hrole) hafter

end Listing

/-- In every run that spares the listings, they report only roles that were held; and in
    any run a listing whose reads are faithful does so exactly if its caller was a member
    at some time of the call wherever it read no role. -/
theorem listing_held (U : Unicode) (a : AuthConfig) :
    (∀ trace p, (service U a).Run Spared (· = Db.empty) trace p → Held trace p) ∧
    ∀ trace p n claims auth r, (service U a).Run Faithful (· = Db.empty) trace p → Listed p n (.ok claims) auth r →
      (HeldBy trace n claims.sub r ↔ ∀ id db db', roleRead claims.sub id db none db' ∈ trace.own n →
        RoleDuring trace n claims.sub id .member) := by
  refine ⟨fun trace p h n identity auth r hn => ?_, fun trace p n claims auth r h hn => ?_⟩
  · obtain ⟨claims, rfl, hl⟩ := listing_of_run h hn
    exact ⟨claims, rfl, (heldBy_iff h (fun _ _ _ hc => hc.1) hl).mpr fun id db db' hx => spared_member h hl hx⟩
  · obtain ⟨claims', e, hl⟩ := listing_of_run h hn
    cases e
    exact heldBy_iff h (fun _ _ _ hc => hc) hl

/-- Alice lists her permissions. -/
def aliceLists : Request := ⟨.ok { sub := "alice", exp := 2000000000 }, .lookupUserPermissions (some "Bearer t")⟩

/-- Alice owned the one resource she is listed for until the admin revoked it, and never
    was a member; the reply has her a member. -/
theorem revoked_owner_listed : ¬ ∀ trace p,
    (service Unicode.ascii AuthConfig.lore).Run (fun _ _ _ => True) (· = Db.empty) trace p → Held trace p := by
  intro h
  let owned : Db := (Method.grant "alice" "urc-1" .owner).effect 0 Db.empty
  let revoked : Db := (Method.revoke "alice" "urc-1").effect 0 owned
  have h0 : (service Unicode.ascii AuthConfig.lore).Run (fun _ _ _ => True) (· = Db.empty) [] ⟨Db.empty, []⟩ :=
    .init _ rfl
  have h1 := h0.step _ trivial (.env _ ["grant", "alice", "urc-1", "owner"] owned ⟨_, 0, [], rfl, rfl⟩)
  have h2 := h1.step _ trivial (.start _ aliceLists)
  have resolves : callSem aliceLists (.identity (bearer (some "Bearer t"))) owned aliceLists.auth owned :=
    ⟨rfl, rfl⟩
  have h3 := h2.step _ trivial (.act _ 0 aliceLists _ _ _ owned rfl resolves)
  have lists : callSem aliceLists (.store (.accessible "alice")) owned ["urc-1"] owned := ⟨0, [], [], rfl⟩
  have h4 := h3.step _ trivial (.act _ 0 aliceLists _ _ _ owned rfl lists)
  have h5 := h4.step _ trivial (.env _ ["revoke", "alice", "urc-1"] revoked ⟨_, 0, [], rfl, rfl⟩)
  have reads : callSem aliceLists (.store (.roleFor "alice" "urc-1")) revoked none revoked := ⟨0, [], [], rfl⟩
  have h6 := h5.step _ trivial (.act _ 0 aliceLists _ _ _ revoked rfl reads)
  obtain ⟨claims, hc, hheld⟩ := h _ _ h6 0 _ _ ⟨[Service.grant "urc-1" .member], none⟩ rfl
  cases hc
  obtain ⟨id, role, he, db, hd, hr⟩ := hheld _ List.mem_cons_self
  obtain ⟨rfl, rfl⟩ := grant_inj he
  -- she is a member in none of the states
  obtain ⟨late, m, early, htrace, rfl, _⟩ := hd
  have hm : m ∈ late ++ m :: early := List.mem_append_right _ List.mem_cons_self
  rw [← htrace] at hm
  have hstates : m.before = Db.empty ∨ m.before = owned ∨ m.before = revoked := by
    simp only [List.mem_cons, List.not_mem_nil, or_false] at hm
    rcases hm with rfl | rfl | rfl | rfl | rfl | rfl <;> simp
  have hempty : Db.empty.roleFor "alice" "urc-1" ≠ some .member := by decide
  have howned : owned.roleFor "alice" "urc-1" ≠ some .member := by decide
  have hrevoked : revoked.roleFor "alice" "urc-1" ≠ some .member := by decide
  rcases hstates with e | e | e <;> rw [e] at hr
  · exact hempty hr
  · exact howned hr
  · exact hrevoked hr

end Kaguya.Auth.Lookup
