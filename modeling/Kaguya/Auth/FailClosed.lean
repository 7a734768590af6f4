/-
  Kaguya.Auth.FailClosed — reads that lose rows. `role_for` and `accessible` skip rows
  that come back as errors, each query its own. A role is the strongest of what is left,
  so it is at most the role that the tables give; a listing is a part of what is
  accessible, and in a reachable store what is accessible gives a role, so the `member`
  that a listing falls back to is no more than that.

  `reads_fail_closed`: whatever rows are lost, a check, a listing and the `resources` of
  an exchanged token report at most the caller's role, and only an owner comes to the
  deletion.
-/

import Kaguya.Auth.Lookup
import Kaguya.Auth.ReadPaths

namespace Kaguya.Auth.FailClosed

open Kaguya.Lib
open Kaguya.Auth.Jwt
open Kaguya.Auth.Store
open Kaguya.Auth.Service
open Kaguya.Auth.Runs
open Kaguya.Auth.ReadPaths (aliceDb aliceDb_reachable)
open Kaguya.Auth.Lookup (roleRead listRead lookupIds_path lookup_path accessible_read)
open Kaguya.Auth.Verify (Unicode VerifyError)

/-! ## What is reported -/

/-- The permissions of a role that is at most the one the tables give. -/
def Bounded (db : Db) (sub id : String) (permission : List String) : Prop :=
  ∃ role, permission = role.permissions ∧ ∃ role', db.roleFor sub id = some role' ∧ role ≤ role'

/-- The calls were answered on these tables, whatever statements failed and whatever rows
    were lost. -/
def OnTables (i : Request) (db : Db) (l : List (Answered Call Call.Ans Db)) : Prop :=
  ∀ x ∈ l, x.before = db ∧ callSem i x.call x.before x.ans x.after

variable {U : Unicode} {a : AuthConfig} {i : Request} {db : Db} {l : List (Answered Call Call.Ans Db)}

theorem role_le (h : OnTables i db l) {sub id : String} {role : Role} {s s' : Db}
    (hx : roleRead sub id s (some role) s' ∈ l) : ∃ role', db.roleFor sub id = some role' ∧ role ≤ role' := by
  obtain ⟨rfl, now, fates, fates', hrun⟩ := h _ hx
  exact run_roleFor_le now (c := ⟨s, fates⟩) (by rw [hrun])

/-- The caller is who the bearer resolves to. -/
theorem caller_is (h : OnTables i db l) {b : String} {claims claims' : IdentityClaims} {s s' : Db}
    (hi : i.auth = .ok claims) (hx : (⟨s, .identity b, .ok claims', s'⟩ : Answered Call Call.Ans Db) ∈ l) :
    claims' = claims := by
  have hans := (h _ hx).2.1
  rw [hi] at hans
  cases hans
  rfl

/-! ## The loops -/

/-- What a check allows was read as a role, and what it denies has no permissions. -/
theorem checkIds_path {sub : String} {ids : List String} {allowed denied : List ResourcePermission}
    {r : CheckUserPermissionResponse} (h : (checkIds sub ids allowed denied).Leads l (.ret r)) :
    (∀ e ∈ r.allowedResourcePermission, e ∈ allowed ∨
      ∃ role s s', roleRead sub e.resourceId s (some role) s' ∈ l ∧ e.permission = role.permissions) ∧
    ∀ e ∈ r.deniedResourcePermission, e ∈ denied ∨ e.permission = [] := by
  induction ids generalizing l allowed denied with
  | nil =>
    cases (Prog.leads_ret h).2
    exact ⟨fun e he => Or.inl he, fun e he => Or.inl he⟩
  | cons id ids ih =>
    obtain ⟨s, role, s', l', rfl, hrest⟩ := Prog.leads_ask_ret h
    cases role with
    | none =>
      obtain ⟨hallowed, hdenied⟩ := ih hrest
      refine ⟨fun e he => ?_, fun e he => ?_⟩
      · rcases hallowed e he with hin | ⟨role, t, t', hx, hp⟩
        · exact Or.inl hin
        · exact Or.inr ⟨role, t, t', List.mem_cons_of_mem _ hx, hp⟩
      · rcases hdenied e he with hin | hp
        · rcases List.mem_append.mp hin with hin | hin
          · exact Or.inl hin
          · rw [List.mem_singleton.mp hin]
            exact Or.inr rfl
        · exact Or.inr hp
    | some role =>
      obtain ⟨hallowed, hdenied⟩ := ih hrest
      refine ⟨fun e he => ?_, hdenied⟩
      rcases hallowed e he with hin | ⟨role, t, t', hx, hp⟩
      · rcases List.mem_append.mp hin with hin | hin
        · exact Or.inl hin
        · rw [List.mem_singleton.mp hin]
          exact Or.inr ⟨role, s, s', List.mem_cons_self, rfl⟩
      · exact Or.inr ⟨role, t, t', List.mem_cons_of_mem _ hx, hp⟩

/-- What an exchange grants was read as a role. -/
theorem grantedIds_path {sub : String} {ids : List String} {gs : List ResourceGrant}
    (h : (grantedIds sub ids).Leads l (.ret gs)) :
    ∀ g ∈ gs, ∃ role s s', roleRead sub g.resourceId s (some role) s' ∈ l ∧ g.permission = role.permissions := by
  induction ids generalizing l gs with
  | nil =>
    cases (Prog.leads_ret h).2
    exact fun g hg => by cases hg
  | cons id ids ih =>
    obtain ⟨s, role, s', l', rfl, hrest⟩ := Prog.leads_ask_ret h
    cases role with
    | none =>
      intro g hg
      obtain ⟨role, t, t', hx, hp⟩ := ih hrest g hg
      exact ⟨role, t, t', List.mem_cons_of_mem _ hx, hp⟩
    | some role =>
      obtain ⟨l₁, l₂, gs', rfl, h₁, h₂⟩ := Prog.leads_bind_ret hrest
      obtain ⟨rfl, e⟩ := Prog.leads_ret h₂
      cases e
      rw [List.append_nil]
      intro g hg
      rcases List.mem_cons.mp hg with rfl | hg
      · exact ⟨role, s, s', List.mem_cons_self, rfl⟩
      · obtain ⟨role', t, t', hx, hp⟩ := ih h₁ g hg
        exact ⟨role', t, t', List.mem_cons_of_mem _ hx, hp⟩

/-! ## The four handlers -/

section Handlers

variable {claims : IdentityClaims} {auth : Option String}

theorem check_bounded (h : OnTables i db l) (hi : i.auth = .ok claims) {ids : List String}
    {r : CheckUserPermissionResponse}
    (hl : ((Rpc.checkUserPermission auth ids).handle U a).Leads l (.ret (.ok (.checked r)))) :
    (∀ e ∈ r.allowedResourcePermission, Bounded db claims.sub e.resourceId e.permission) ∧
    ∀ e ∈ r.deniedResourcePermission, e.permission = [] := by
  obtain ⟨l₁, l₂, res, rfl, h₁, h₂⟩ := Prog.leads_bind_ret hl
  cases res with
  | error status => cases (Prog.leads_ret h₂).2
  | ok r' =>
    obtain ⟨rfl, e⟩ := Prog.leads_ret h₂
    cases e
    rw [List.append_nil] at h
    obtain ⟨s, auth', s', l', rfl, h₃⟩ := Prog.leads_ask_ret h₁
    cases auth' with
    | error e => cases (Prog.leads_ret h₃).2
    | ok claims' =>
      obtain rfl := caller_is h hi List.mem_cons_self
      have hloop : (checkIds claims'.sub ids [] [] >>= fun r => .ret (@Except.ok Status _ r)).Leads l' (.ret (.ok r)) := h₃
      obtain ⟨l₃, l₄, r', rfl, h₄, h₅⟩ := Prog.leads_bind_ret hloop
      obtain ⟨rfl, e⟩ := Prog.leads_ret h₅
      cases e
      obtain ⟨hallowed, hdenied⟩ := checkIds_path h₄
      refine ⟨fun e he => ?_, fun e he => ?_⟩
      · rcases hallowed e he with hin | ⟨role, t, t', hx, hp⟩
        · cases hin
        · exact ⟨role, hp, role_le h (List.mem_cons_of_mem _ (List.mem_append_left _ hx))⟩
      · rcases hdenied e he with hin | hp
        · cases hin
        · exact hp

theorem lookup_bounded (hk : RolesKnown db) (h : OnTables i db l) (hi : i.auth = .ok claims)
    {r : LookupUserPermissionsResponse}
    (hl : ((Rpc.lookupUserPermissions auth).handle U a).Leads l (.ret (.ok (.looked r)))) :
    ∀ e ∈ r.resourcePermission, Bounded db claims.sub e.resourceId e.permission := by
  obtain ⟨claims', x, s, ids, s', l', rfl, ⟨t, t', rfl⟩, hpath⟩ := lookup_path hl
  obtain rfl := caller_is h hi List.mem_cons_self
  obtain ⟨rfl, hlist⟩ := h (listRead claims'.sub s ids s') (List.mem_cons_of_mem _ List.mem_cons_self)
  obtain ⟨_, hids, _⟩ := accessible_read hlist
  intro e he
  obtain ⟨l₁, l₂, id, t, role, t', rfl, hid, rfl, _⟩ := (lookupIds_path hpath).1 e he
  have hread : roleRead claims'.sub id t role t' ∈ l₁ ++ roleRead claims'.sub id t role t' :: l₂ :=
    List.mem_append_right _ List.mem_cons_self
  cases role with
  | some role => exact ⟨role, rfl, role_le h (List.mem_cons_of_mem _ (List.mem_cons_of_mem _ hread))⟩
  | none =>
    -- what is listed gives a role, and a role is at least `member`
    obtain ⟨role', hrole⟩ := (accessible_iff_role hk).mp (hids hid)
    exact ⟨.member, rfl, role', hrole, Role.member_le role'⟩

/-- A handler that stands before a call has not come to its reply. -/
theorem leads_reply_call {α : Type} {f : α → Reply} {p : Act (Except Status α)} {c : Call} {k}
    (h : (reply f p).Leads l (.call c k)) : ∃ k', p.Leads l (.call c k') := by
  rcases Prog.leads_bind_call h with h | ⟨l₁, l₂, r, _, _, h⟩
  · exact h
  · cases r <;> cases (Prog.leads_ret h).2

theorem exchange_bounded (h : OnTables i db l) (hi : i.auth = .ok claims) {ids : List String} {header : Header}
    {m : MintedClaims} {k}
    (hl : ((Rpc.exchangeUserTokenForMultiresourceToken auth ids).handle U a).Leads l (.call (.encode header m) k)) :
    ∀ g ∈ m.resources, Bounded db claims.sub g.resourceId g.permission := by
  obtain ⟨k₁, h₁⟩ := leads_reply_call hl
  unfold exchangeUserTokenForMultiresourceToken at h₁
  by_cases hb : (bearer auth).isEmpty = true
  · simp only [if_pos hb] at h₁
    cases (Prog.leads_ret h₁).2
  simp only [if_neg hb] at h₁
  -- the caller
  rcases Prog.leads_ask h₁ with ⟨_, e⟩ | ⟨s, auth', s', l', rfl, h₂⟩
  · cases e
  cases auth' with
  | error e => cases (Prog.leads_ret h₂).2
  | ok claims' =>
    obtain rfl := caller_is h hi List.mem_cons_self
    -- the grants, and the clock
    rcases Prog.leads_bind_call h₂ with ⟨k₂, h₃⟩ | ⟨l₁, l₂, gs, rfl, h₃, h₄⟩
    · have hmakes := (Prog.leads_makes (P := fun c => ∃ sub id, c = .store (.roleFor sub id)) h₃
        (makes_grantedIds (fun id => ⟨_, id, rfl⟩) ids)).2.1
      obtain ⟨_, _, e⟩ := hmakes
      cases e
    · rcases Prog.leads_call h₄ with ⟨_, e⟩ | ⟨t, iat, t', l₃, rfl, h₅⟩
      · cases e
      rcases Prog.leads_call h₅ with ⟨_, e⟩ | ⟨u, signed, u', l₄, rfl, h₆⟩
      · cases e
        intro g hg
        obtain ⟨role, s, s', hx, hp⟩ := grantedIds_path h₃ g hg
        exact ⟨role, hp, role_le h (List.mem_cons_of_mem _ (List.mem_append_left _ hx))⟩
      · cases signed <;> cases (Prog.leads_ret h₆).2

/-- A handler that comes to the deletion has read `owner`. -/
theorem delete_owner (h : OnTables i db l) (hi : i.auth = .ok claims) {id id' : String} {k}
    (hl : ((Rpc.deleteResource auth id).handle U a).Leads l (.call (.store (.deleteResource id')) k)) :
    db.roleFor claims.sub id' = some .owner := by
  obtain ⟨k₁, h₁⟩ := leads_reply_call hl
  rcases Prog.leads_ask h₁ with ⟨_, e⟩ | ⟨s, auth', s', l', rfl, h₂⟩
  · cases e
  cases auth' with
  | error e => cases (Prog.leads_ret h₂).2
  | ok claims' =>
    obtain rfl := caller_is h hi List.mem_cons_self
    rcases Prog.leads_call h₂ with ⟨_, e⟩ | ⟨t, role, t', l₁, rfl, h₃⟩
    · cases e
    by_cases hrole : role = some .owner
    · subst hrole
      rcases Prog.leads_call h₃ with ⟨_, e⟩ | ⟨u, r, u', l₂, rfl, h₄⟩
      · cases e
        obtain ⟨role', hr, hle⟩ := role_le h (List.mem_cons_of_mem _ List.mem_cons_self)
        rw [hr, le_antisymm (Role.le_owner role') hle]
      · cases r <;> cases (Prog.leads_ret h₄).2
    · simp only [Prog.bind, ne_eq, hrole, not_false_eq_true, if_true] at h₃
      cases (Prog.leads_ret h₃).2

end Handlers

/-- Whatever statements fail and whatever rows each query loses: a check, a listing and
    the `resources` of a token report at most the caller's role, and only an owner comes
    to the deletion. -/
theorem reads_fail_closed (hdb : Reachable U a db) {claims : IdentityClaims} (hi : i.auth = .ok claims)
    (h : OnTables i db l) :
    (∀ auth ids r, ((Rpc.checkUserPermission auth ids).handle U a).Leads l (.ret (.ok (.checked r))) →
      (∀ e ∈ r.allowedResourcePermission, Bounded db claims.sub e.resourceId e.permission) ∧
      ∀ e ∈ r.deniedResourcePermission, e.permission = []) ∧
    (∀ auth ids header m k, ((Rpc.exchangeUserTokenForMultiresourceToken auth ids).handle U a).Leads l
      (.call (.encode header m) k) → ∀ g ∈ m.resources, Bounded db claims.sub g.resourceId g.permission) ∧
    (∀ auth r, ((Rpc.lookupUserPermissions auth).handle U a).Leads l (.ret (.ok (.looked r))) →
      ∀ e ∈ r.resourcePermission, Bounded db claims.sub e.resourceId e.permission) ∧
    ∀ auth id id' k, ((Rpc.deleteResource auth id).handle U a).Leads l (.call (.store (.deleteResource id')) k) →
      db.roleFor claims.sub id' = some .owner :=
  ⟨fun _ _ _ hl => check_bounded h hi hl, fun _ _ _ _ _ hl => exchange_bounded h hi hl,
    fun _ _ hl => lookup_bounded (reachable_rolesKnown hdb) h hi hl, fun _ _ _ _ hl => delete_owner h hi hl⟩

/-- alice owns urc-1; a listing finds it, and the query for its role loses the row. -/
theorem lost_row_listed : Bounded aliceDb "alice" "urc-1" Role.member.permissions := by
  have hi : (⟨.ok { sub := "alice", exp := 2000000000 }, .lookupUserPermissions none⟩ : Request).auth =
      .ok { sub := "alice", exp := 2000000000 } := rfl
  have h : OnTables ⟨.ok { sub := "alice", exp := 2000000000 }, .lookupUserPermissions none⟩ aliceDb
      [⟨aliceDb, .identity "", .ok { sub := "alice", exp := 2000000000 }, aliceDb⟩,
        listRead "alice" aliceDb ["urc-1"] aliceDb, roleRead "alice" "urc-1" aliceDb none aliceDb] := by
    intro x hx
    simp only [List.mem_cons, List.not_mem_nil, or_false] at hx
    rcases hx with rfl | rfl | rfl
    · exact ⟨rfl, rfl, rfl⟩
    · exact ⟨rfl, 0, [], [], rfl⟩
    · exact ⟨rfl, 0, [{ lost := [some .io] }], [], rfl⟩
  have hl := (reads_fail_closed (U := Unicode.ascii) (a := AuthConfig.lore) aliceDb_reachable hi h).2.2.1
  exact hl none ⟨[⟨"urc-1", Role.member.permissions⟩], none⟩ (.cons (.cons (.cons (.nil _)))) _ List.mem_cons_self

end Kaguya.Auth.FailClosed
