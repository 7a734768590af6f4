/-
  Kaguya.Auth.Sole — ownership when the admin gives nothing away. In runs without an
  admin's `grant` or `group-add`, whatever statements fail and however the RPCs come
  between each other, a resource has at most one grant, `owner`, of the caller whose
  `CreateResource` made the resource's row since it last had none: of two creations that
  race, one wins, and the other is answered ok and changes nothing.

  `sole_owner`: there only that caller has a role on the resource, and whoever comes to
  delete a resource was its sole owner in a state of the call.
-/

import Kaguya.Auth.Granted

namespace Kaguya.Auth.Sole

open Kaguya.Lib
open Kaguya.Auth.Jwt
open Kaguya.Auth.Store
open Kaguya.Auth.Service
open Kaguya.Auth.Runs
open Kaguya.Auth.Lookup (RpcPool History Step roleRead)
open Kaguya.Auth.FailClosed (leads_reply_call)
open Kaguya.Auth.Granted (caller_of_run)
open Kaguya.Auth.Verify (VerifyError Unicode)

/-! ## The two handlers that write -/

variable {U : Unicode} {a : AuthConfig} {l : List (Answered Call Call.Ans Db)} {auth : Option String}

/-- A creation stands before the store with its caller's subject. -/
theorem create_path {id name owner id' name' : String} {k}
    (h : ((Rpc.createResource auth id name).handle U a).Leads l (.call (.store (.recordOwner owner id' name')) k)) :
    id' = id ∧ name' = name ∧ ∃ claims s s',
      (⟨s, .identity (bearer auth), .ok claims, s'⟩ : Answered Call Call.Ans Db) ∈ l ∧ owner = claims.sub := by
  obtain ⟨k₁, h₁⟩ := leads_reply_call h
  rcases Prog.leads_ask h₁ with ⟨_, e⟩ | ⟨s, auth', s', l', rfl, h₂⟩
  · cases e
  cases auth' with
  | error e => cases (Prog.leads_ret h₂).2
  | ok claims =>
    rcases Prog.leads_call h₂ with ⟨_, e⟩ | ⟨t, r, t', l₁, rfl, h₃⟩
    · cases e
      exact ⟨rfl, rfl, claims, s, s', List.mem_cons_self, rfl⟩
    · cases r <;> cases (Prog.leads_ret h₃).2

/-- A deletion stands before the store when it has read `owner`. -/
theorem delete_path {id id' : String} {k}
    (h : ((Rpc.deleteResource auth id).handle U a).Leads l (.call (.store (.deleteResource id')) k)) :
    id' = id ∧ ∃ claims s s' t t', (⟨s, .identity (bearer auth), .ok claims, s'⟩ : Answered Call Call.Ans Db) ∈ l ∧
      roleRead claims.sub id t (some .owner) t' ∈ l := by
  obtain ⟨k₁, h₁⟩ := leads_reply_call h
  rcases Prog.leads_ask h₁ with ⟨_, e⟩ | ⟨s, auth', s', l', rfl, h₂⟩
  · cases e
  cases auth' with
  | error e => cases (Prog.leads_ret h₂).2
  | ok claims =>
    rcases Prog.leads_call h₂ with ⟨_, e⟩ | ⟨t, role, t', l₁, rfl, h₃⟩
    · cases e
    by_cases hrole : role = some .owner
    · subst hrole
      rcases Prog.leads_call h₃ with ⟨_, e⟩ | ⟨u, r, u', l₂, rfl, h₄⟩
      · cases e
        exact ⟨rfl, claims, s, s', t, t', List.mem_cons_self, List.mem_cons_of_mem _ List.mem_cons_self⟩
      · cases r <;> cases (Prog.leads_ret h₄).2
    · simp only [Prog.bind, ne_eq, hrole, not_false_eq_true, if_true] at h₃
      cases (Prog.leads_ret h₃).2

/-! ## The one who created it -/

/-- The step is no admin command that gives a role, or a membership. -/
def GivesNothing (_ : History) (_ : RpcPool) (m : Step) : Prop :=
  ∀ args, m.did = .moved args →
    (∀ s id role, Admin.method args ≠ some (.grant s id role)) ∧ ∀ grp s, Admin.method args ≠ some (.addGroupMember grp s)

theorem admin_creates_none (args : List String) {s id name : String} :
    Admin.method args ≠ some (.recordOwner s id name) := by
  intro h
  unfold Admin.method at h
  split at h
  · obtain ⟨role, _, e⟩ := Option.map_eq_some_iff.mp h
    cases e
  all_goals cases h

/-- `m` is the store's step of a `CreateResource` on `id` by `sub`. -/
def Creates (early : History) (m : Step) (sub id : String) : Prop :=
  ∃ n claims auth name r, early.Started n ⟨.ok claims, .createResource auth id name⟩ ∧ claims.sub = sub ∧
    m.did = .called n (.store (.recordOwner sub id name)) r

/-- `sub` created the resource when it had no row, and it has had one since. -/
def Won (trace : History) (sub id : String) : Prop :=
  ∃ late m early, trace = late ++ m :: early ∧ Creates early m sub id ∧ ¬ m.before.Created id ∧
    m.after.Created id ∧ ∀ m' ∈ late, m'.after.Created id

/-- The tables hold owner grants of those who created, one a resource, and no members. -/
structure Owned (trace : History) (db : Db) : Prop where
  members : ∀ m, m ∉ db.groupMembers
  created : ∀ g ∈ db.grants, db.Created g.urcId
  owner : ∀ g ∈ db.grants, g.role = "owner"
  sole : ∀ g ∈ db.grants, ∀ g' ∈ db.grants, g'.urcId = g.urcId → g' = g
  won : ∀ g ∈ db.grants, Won trace g.subject g.urcId

theorem owned_empty : Owned [] Db.empty where
  members _ h := Table.not_mem_empty _ h
  created _ h := absurd h (Table.not_mem_empty _)
  owner _ h := absurd h (Table.not_mem_empty _)
  sole _ h := absurd h (Table.not_mem_empty _)
  won _ h := absurd h (Table.not_mem_empty _)

variable {trace : History} {db : Db} {m : Step}

theorem won_cons {sub id : String} (h : Won trace sub id) (hc : m.after.Created id) : Won (m :: trace) sub id := by
  obtain ⟨late, m', early, rfl, hm, hnew, hold, hlate⟩ := h
  refine ⟨m :: late, m', early, rfl, hm, hnew, hold, ?_⟩
  intro x hx
  rcases List.mem_cons.mp hx with rfl | hx
  · exact hc
  · exact hlate x hx

/-- A step that adds no grant, no member, and leaves what has grants created. -/
theorem owned_fewer {db' : Db} (h : Owned trace db) (e : m.after = db') (hm : ∀ r ∈ db'.groupMembers, r ∈ db.groupMembers)
    (hg : ∀ g ∈ db'.grants, g ∈ db.grants) (hc : ∀ g ∈ db'.grants, db'.Created g.urcId) : Owned (m :: trace) db' where
  members r hr := h.members r (hm r hr)
  created := hc
  owner g hin := h.owner g (hg g hin)
  sole g hin g' hin' := h.sole g (hg g hin) g' (hg g' hin')
  won g hin := won_cons (h.won g (hg g hin)) (e ▸ hc g hin)

/-- The winner's step. -/
theorem owned_new {sub id name : String} {now : Int} (h : Owned trace db) (hb : m.before = db)
    (ha : m.after = (Method.recordOwner sub id name).effect now db) (hnew : ¬ db.Created id)
    (hm : Creates trace m sub id) : Owned (m :: trace) ((Method.recordOwner sub id name).effect now db) := by
  have hid : ((Method.recordOwner sub id name).effect now db).Created id := created_recordOwner.mpr (Or.inr rfl)
  have hkeep : ∀ g ∈ db.grants, ((Method.recordOwner sub id name).effect now db).Created g.urcId := by
    intro g hg
    exact created_recordOwner.mpr (Or.inl (h.created g hg))
  have hgrants : ∀ g ∈ ((Method.recordOwner sub id name).effect now db).grants,
      g ∈ db.grants ∨ g = ⟨sub, id, "owner"⟩ := by
    intro g hg
    rcases grants_recordOwner.mp hg with hg | ⟨_, hg, _⟩
    · exact Or.inl hg
    · exact Or.inr hg
  -- no old grant is on the new resource
  have hother : ∀ g ∈ db.grants, g.urcId ≠ id := by
    intro g hg e
    exact hnew (e ▸ h.created g hg)
  refine ⟨?_, ?_, ?_, ?_, ?_⟩
  · intro r hr
    rw [members_effect (by simp)] at hr
    exact h.members r hr
  · intro g hg
    rcases hgrants g hg with hg | rfl
    · exact hkeep g hg
    · exact hid
  · intro g hg
    rcases hgrants g hg with hg | rfl
    · exact h.owner g hg
    · rfl
  · intro g hg g' hg' e
    rcases hgrants g hg with hg | rfl <;> rcases hgrants g' hg' with hg' | rfl
    · exact h.sole g hg g' hg' e
    · exact absurd e.symm (hother g hg)
    · exact absurd e (hother g' hg')
    · rfl
  · intro g hg
    rcases hgrants g hg with hg | rfl
    · exact won_cons (h.won g hg) (ha ▸ hkeep g hg)
    · exact ⟨[], m, trace, rfl, hm, hb ▸ hnew, ha ▸ hid, fun x hx => by cases hx⟩

/-- What a method that gives nothing leaves. -/
theorem owned_leaves {method : Method} {now : Int} {db' : Db} (h : Owned trace db) (hb : m.before = db)
    (e : m.after = db') (hl : Leaves now method db db') (hgrant : ∀ s id role, method ≠ .grant s id role)
    (hadd : ∀ grp s, method ≠ .addGroupMember grp s)
    (hcreate : ∀ s id name, method = .recordOwner s id name → Creates trace m s id) : Owned (m :: trace) db' := by
  cases hl with
  | nothing => exact owned_fewer h e (fun _ hr => hr) (fun _ hg => hg) h.created
  | resourceOnly owner id name _ hnew =>
    refine owned_fewer h e (fun _ hr => hr) (fun _ hg => hg) ?_
    intro g hg
    obtain ⟨row, hrow, hid⟩ := h.created g hg
    exact ⟨row, Table.mem_insertOrIgnore.mpr (Or.inl hrow), hid⟩
  | grantsOnly id =>
    have hg : ∀ g ∈ (db.grants.deleteWhere (·.urcId = id)).1, g ∈ db.grants :=
      fun g hg => ((@grants_deleteResource db now id g).mp hg).1
    exact owned_fewer h e (fun _ hr => hr) hg fun g hin => h.created g (hg g hin)
  | effect =>
    cases method with
    | recordOwner s id name =>
      by_cases hc : db.Created id
      · rw [effect_recordOwner_old hc] at e ⊢
        exact owned_fewer h e (fun _ hr => hr) (fun _ hg => hg) h.created
      · exact owned_new h hb e hc (hcreate s id name rfl)
    | deleteResource id =>
      refine owned_fewer h e (fun _ hr => hr) (fun g hg => (grants_deleteResource.mp hg).1) ?_
      intro g hg
      obtain ⟨hg, hne⟩ := grants_deleteResource.mp hg
      exact created_deleteResource.mpr ⟨h.created g hg, hne⟩
    | grant s id role => exact absurd rfl (hgrant s id role)
    | addGroupMember grp s => exact absurd rfl (hadd grp s)
    | revoke s id =>
      refine owned_fewer h e (fun _ hr => hr) (fun g hg => (grants_revoke.mp hg).1) ?_
      intro g hg
      exact h.created g (grants_revoke.mp hg).1
    | removeGroupMember grp s =>
      exact owned_fewer h e (fun r hr => (members_remove.mp hr).1) (fun _ hg => hg) h.created
    | _ => exact owned_fewer h e (fun _ hr => hr) (fun _ hg => hg) h.created

/-- The only one with a role, which is `owner`. -/
theorem owned_role {sub id : String} {role : Role} (h : Owned trace db) (hr : db.roleFor sub id = some role) :
    role = .owner ∧ Won trace sub id ∧ ∀ sub', db.roleFor sub' id ≠ none → sub' = sub := by
  have hpath : ∀ sub role, db.roleFor sub id = some role →
      ∃ g ∈ db.grants, g.urcId = id ∧ g.subject = sub ∧ Role.parse g.role = some role := by
    intro sub role hr
    obtain ⟨g, hg, hid, hreach, hp⟩ := (roleFor_eq_some.mp hr).1
    rcases hreach with hs | ⟨grp, hin, _⟩
    · exact ⟨g, hg, hid, hs, hp⟩
    · exact absurd hin (h.members _)
  obtain ⟨g, hg, hid, rfl, hp⟩ := hpath sub role hr
  refine ⟨?_, ?_, ?_⟩
  · rw [h.owner g hg] at hp
    cases hp
    rfl
  · exact hid ▸ h.won g hg
  · intro sub' hne
    obtain ⟨role', hr'⟩ := Option.ne_none_iff_exists'.mp hne
    obtain ⟨g', hg', hid', rfl, _⟩ := hpath sub' role' hr'
    rw [h.sole g hg g' hg' (hid'.trans hid.symm)]

/-! ## Over runs -/

section Runs

variable {cond : History → RpcPool → Step → Prop} {p : RpcPool} {n : Nat}

/-- The thread that records an owner is a creation, by that owner. -/
theorem creates_of_run (h : (service U a).Run cond (· = Db.empty) trace p) {i : Request} {owner id name : String} {k}
    (hn : p.threads[n]? = some ⟨i, .call (.store (.recordOwner owner id name)) k⟩) (r : Except SqlError Unit) (db' : Db) :
    Creates trace ⟨p.shared, .called n (.store (.recordOwner owner id name)) r, db'⟩ owner id := by
  have hl := (System.run_leads h).1 n _ hn
  obtain ⟨identity, rpc⟩ := i
  obtain ⟨auth, id', name', rfl⟩ := (Prog.leads_makes hl (handle_makes U a rpc)).2.1
  obtain ⟨rfl, rfl, claims, s, s', hcaller, rfl⟩ := create_path (U := U) (a := a) hl
  have hid : identity = .ok claims := caller_of_run h hn hcaller
  subst hid
  exact ⟨n, claims, auth, _, r, System.run_started h hn, rfl, rfl⟩

/-- A deletion's caller was an owner in a state of its call. -/
theorem deletes_of_run (h : (service U a).Run cond (· = Db.empty) trace p) {i : Request} {id : String} {k}
    (hn : p.threads[n]? = some ⟨i, .call (.store (.deleteResource id)) k⟩) :
    ∃ claims late m early, i.auth = .ok claims ∧ trace = late ++ m :: early ∧ (∃ j, Trace.Started n j early) ∧
      m.before.roleFor claims.sub id = some .owner := by
  have hl := (System.run_leads h).1 n _ hn
  obtain ⟨identity, rpc⟩ := i
  obtain ⟨auth, id', rfl⟩ := (Prog.leads_makes hl (handle_makes U a rpc)).2.1
  obtain ⟨rfl, claims, s, s', t, t', hcaller, hread⟩ := delete_path (U := U) (a := a) hl
  obtain ⟨now, fates, fates', hrun⟩ := System.run_sem h hn _ hread
  have howner : t.roleFor claims.sub id = some .owner :=
    run_roleFor_owner now (c := ⟨t, fates⟩) (by rw [hrun])
  obtain ⟨late, early, htrace⟩ := List.append_of_mem (Trace.mem_own.mp hread)
  subst htrace
  exact ⟨claims, late, _, early, caller_of_run h hn hcaller, rfl, ⟨_, System.run_called h (System.run_started h hn)⟩,
    howner⟩

theorem run_owned (h : (service U a).Run GivesNothing (· = Db.empty) trace p) : Owned trace p.shared := by
  induction h with
  | init s hs =>
    rw [hs]
    exact owned_empty
  | step m hr hc hs ih =>
    cases hs with
    | start i => exact owned_fewer ih rfl (fun _ hr => hr) (fun _ hg => hg) ih.created
    | env args s' he =>
      obtain ⟨method, now, fates, hm, rfl⟩ := he
      obtain ⟨hgrant, hadd⟩ := hc args rfl
      refine owned_leaves ih rfl rfl (run_leaves now method ⟨_, fates⟩) ?_ ?_ ?_
      · rintro s id role rfl
        exact hgrant s id role hm
      · rintro grp s rfl
        exact hadd grp s hm
      · rintro s id name rfl
        exact absurd hm (admin_creates_none args)
    | act n i c k b s' hn hsem =>
      rcases callSem_tables hsem with hdb | ⟨method, now, rfl, hl⟩
      · subst hdb
        exact owned_fewer ih rfl (fun _ hr => hr) (fun _ hg => hg) ih.created
      · have hserved := (Prog.leads_makes ((System.run_leads hr).1 n _ hn) (handle_served U a i.rpc)).2.1
        refine owned_leaves ih rfl rfl hl ?_ ?_ ?_
        · rintro s id role rfl
          exact hserved
        · rintro grp s rfl
          exact hserved
        · rintro s id name rfl
          exact creates_of_run hr hn b s'

end Runs

/-- In every run in which the admin gives nothing: whoever has a role on a resource is
    its owner, the only subject with a role, and the caller whose creation made the row
    it has; and at every deletion the caller was that owner in an earlier state of the
    call. -/
theorem sole_owner (U : Unicode) (a : AuthConfig) :
    (∀ trace p sub id role, (service U a).Run GivesNothing (· = Db.empty) trace p → p.shared.roleFor sub id = some role →
      role = .owner ∧ Won trace sub id ∧ ∀ sub', p.shared.roleFor sub' id ≠ none → sub' = sub) ∧
    ∀ trace p n i id k, (service U a).Run GivesNothing (· = Db.empty) trace p →
      p.threads[n]? = some ⟨i, .call (.store (.deleteResource id)) k⟩ →
      ∃ claims late m early, i.auth = .ok claims ∧ trace = late ++ m :: early ∧ (∃ j, Trace.Started n j early) ∧
        m.before.roleFor claims.sub id = some .owner ∧ Won early claims.sub id ∧
        ∀ sub', m.before.roleFor sub' id ≠ none → sub' = claims.sub := by
  refine ⟨?_, ?_⟩
  · intro trace p sub id role h hr
    exact owned_role (run_owned h) hr
  · intro trace p n i id k h hn
    obtain ⟨claims, late, m, early, hi, rfl, hs, hrole⟩ := deletes_of_run h hn
    obtain ⟨q, q', hr, _, hstep, _⟩ := System.run_split h
    have howned := run_owned hr
    rw [← System.happens_before hstep] at howned
    obtain ⟨_, hwon, hsole⟩ := owned_role howned hrole
    exact ⟨claims, late, m, early, hi, rfl, hs, hrole, hwon, hsole⟩

def creates (sub : String) : Request := ⟨.ok { sub, exp := 2000000000 }, .createResource (some "Bearer t") "urc-1" "repo"⟩

def aliceDeletes : Request := ⟨.ok { sub := "alice", exp := 2000000000 }, .deleteResource (some "Bearer t") "urc-1"⟩

/-- Alice and Mallory create one resource at once, and Alice's creation comes first; then
    she stands before its deletion, the admin having revoked what he never gave. -/
theorem sole_owner_raced : ∃ trace p,
    (service Unicode.ascii AuthConfig.lore).Run GivesNothing (· = Db.empty) trace p ∧
    (∃ s, p.threads[1]? = some s ∧ s.prog = .ret (.ok .created)) ∧
    (Won trace "alice" "urc-1" ∧ ∀ sub, p.shared.roleFor sub "urc-1" ≠ none → sub = "alice") ∧
    ∃ claims late m early, aliceDeletes.auth = .ok claims ∧ trace = late ++ m :: early ∧
      (∃ j, Trace.Started 2 j early) ∧ m.before.roleFor claims.sub "urc-1" = some .owner ∧
      Won early claims.sub "urc-1" ∧ ∀ sub, m.before.roleFor sub "urc-1" ≠ none → sub = claims.sub := by
  let owned : Db := (Method.recordOwner "alice" "urc-1" "repo").effect 0 Db.empty
  have wins : callSem (creates "alice") (.store (.recordOwner "alice" "urc-1" "repo")) Db.empty (.ok ()) owned :=
    ⟨0, [], [], rfl⟩
  have loses : callSem (creates "mallory") (.store (.recordOwner "mallory" "urc-1" "repo")) owned (.ok ()) owned :=
    ⟨0, [], [], rfl⟩
  have reads : callSem aliceDeletes (.store (.roleFor "alice" "urc-1")) owned (some .owner) owned := ⟨0, [], [], rfl⟩
  have gives {trace : History} {p : RpcPool} {m : Step} (h : ∀ args, m.did ≠ .moved args) : GivesNothing trace p m :=
    fun args hd => absurd hd (h args)
  have revokes {trace : History} {p : RpcPool} {db db' : Db} :
      GivesNothing trace p ⟨db, .moved ["revoke", "mallory", "urc-1"], db'⟩ := by
    intro args hd
    cases hd
    exact ⟨fun _ _ _ e => (by cases e), fun _ _ e => (by cases e)⟩
  have h0 : (service Unicode.ascii AuthConfig.lore).Run GivesNothing (· = Db.empty) [] ⟨Db.empty, []⟩ := .init _ rfl
  have h1 := h0.step _ (gives fun _ e => by cases e) (.start _ (creates "alice"))
  have h2 := h1.step _ (gives fun _ e => by cases e) (.start _ (creates "mallory"))
  have h3 := System.run_call h2 1 rfl _ (callSem_identity _ _ _) (gives fun _ e => by cases e)
  have h4 := System.run_call h3 0 rfl _ (callSem_identity _ _ _) (gives fun _ e => by cases e)
  have h5 := System.run_call h4 0 rfl _ wins (gives fun _ e => by cases e)
  have h6 := System.run_call h5 1 rfl _ loses (gives fun _ e => by cases e)
  have h7 := h6.step _ revokes (.env _ ["revoke", "mallory", "urc-1"] owned ⟨_, 0, [], rfl, rfl⟩)
  have h8 := h7.step _ (gives fun _ e => by cases e) (.start _ aliceDeletes)
  have h9 := System.run_call h8 2 rfl _ (callSem_identity _ _ _) (gives fun _ e => by cases e)
  have h10 := System.run_call h9 2 rfl _ reads (gives fun _ e => by cases e)
  obtain ⟨owner, deletes⟩ := sole_owner Unicode.ascii AuthConfig.lore
  have halice : owned.roleFor "alice" "urc-1" = some .owner := by decide
  exact ⟨_, _, h10, ⟨_, rfl, rfl⟩, (owner _ _ "alice" "urc-1" .owner h10 halice).2, deletes _ _ 2 aliceDeletes "urc-1" _ h10 rfl⟩

end Kaguya.Auth.Sole
