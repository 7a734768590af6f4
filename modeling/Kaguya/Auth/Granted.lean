/-
  Kaguya.Auth.Granted — checks and exchanges with writes between their reads. A check
  reads a role for each id that it is asked about, an exchange for each id that it is
  asked to grant; admin commands and other RPCs come between any two of the reads, and a
  read may lose rows.

  `granted_held`: a check's reply and a token's `resources` are made from one read per id,
  in the order of the ids, each read at most the role that the caller held in a state of
  the call, and that role exactly where no row is lost. So a caller who has no role on a
  resource from some step on is granted nothing on it by an exchange begun after it.
-/

import Kaguya.Auth.FailClosed

namespace Kaguya.Auth.Granted

open Kaguya.Lib
open Kaguya.Auth.Jwt
open Kaguya.Auth.Store
open Kaguya.Auth.Service
open Kaguya.Auth.Runs
open Kaguya.Auth.Lookup (RpcPool History Step roleRead)
open Kaguya.Auth.FailClosed (leads_reply_call)
open Kaguya.Auth.Verify (VerifyError Unicode)

/-! ## What is made of the reads -/

/-- An id and what was read for it. -/
abbrev Read := String × Option Role

def allowed (reads : List Read) : List ResourcePermission := reads.filterMap fun x => x.2.map (Service.grant x.1)

def denied (reads : List Read) : List ResourcePermission :=
  reads.filterMap fun x => if x.2.isNone then some ⟨x.1, []⟩ else none

def granted (reads : List Read) : List ResourceGrant :=
  reads.filterMap fun x => x.2.map fun role => ⟨x.1, role.permissions⟩

theorem mem_granted {reads : List Read} {g : ResourceGrant} (h : g ∈ granted reads) :
    ∃ role, (g.resourceId, some role) ∈ reads ∧ g.permission = role.permissions := by
  obtain ⟨⟨id, read⟩, hx, hg⟩ := List.mem_filterMap.mp h
  cases read with
  | none => cases hg
  | some role =>
    cases hg
    exact ⟨role, hx, rfl⟩

/-! ## The loops -/

variable {l : List (Answered Call Call.Ans Db)} {sub : String} {ids : List String}

/-- One read of the store for each id. -/
def ReadFrom (l : List (Answered Call Call.Ans Db)) (sub : String) (ids : List String) (reads : List Read) : Prop :=
  reads.map (·.1) = ids ∧ ∀ x ∈ reads, ∃ s s', roleRead sub x.1 s x.2 s' ∈ l

theorem readFrom_nil : ReadFrom l sub [] [] := ⟨rfl, fun x hx => by cases hx⟩

theorem readFrom_cons {id : String} {role : Option Role} {s s' : Db} {reads : List Read}
    (h : ReadFrom l sub ids reads) :
    ReadFrom (roleRead sub id s role s' :: l) sub (id :: ids) ((id, role) :: reads) := by
  obtain ⟨hids, hreads⟩ := h
  refine ⟨by rw [List.map_cons, hids], ?_⟩
  intro x hx
  rcases List.mem_cons.mp hx with rfl | hx
  · exact ⟨s, s', List.mem_cons_self⟩
  · obtain ⟨t, t', hl⟩ := hreads x hx
    exact ⟨t, t', List.mem_cons_of_mem _ hl⟩

theorem readFrom_mono {l' : List (Answered Call Call.Ans Db)} {reads : List Read} (h : ReadFrom l sub ids reads)
    (hl : l ⊆ l') : ReadFrom l' sub ids reads := by
  refine ⟨h.1, ?_⟩
  intro x hx
  obtain ⟨s, s', hr⟩ := h.2 x hx
  exact ⟨s, s', hl hr⟩

/-- The check appends to what it has. -/
theorem checkIds_reads {as ds : List ResourcePermission} {r : CheckUserPermissionResponse}
    (h : (checkIds sub ids as ds).Leads l (.ret r)) :
    ∃ reads, ReadFrom l sub ids reads ∧ r = ⟨as ++ allowed reads, ds ++ denied reads⟩ := by
  induction ids generalizing l as ds with
  | nil =>
    cases (Prog.leads_ret h).2
    refine ⟨[], readFrom_nil, ?_⟩
    simp [allowed, denied]
  | cons id ids ih =>
    obtain ⟨s, role, s', l', rfl, hrest⟩ := Prog.leads_ask_ret h
    cases role with
    | none =>
      obtain ⟨reads, hreads, rfl⟩ := ih hrest
      refine ⟨(id, none) :: reads, readFrom_cons hreads, ?_⟩
      simp [allowed, denied]
    | some role =>
      obtain ⟨reads, hreads, rfl⟩ := ih hrest
      refine ⟨(id, some role) :: reads, readFrom_cons hreads, ?_⟩
      simp [allowed, denied]

theorem grantedIds_reads {gs : List ResourceGrant} (h : (grantedIds sub ids).Leads l (.ret gs)) :
    ∃ reads, ReadFrom l sub ids reads ∧ gs = granted reads := by
  induction ids generalizing l gs with
  | nil =>
    cases (Prog.leads_ret h).2
    exact ⟨[], readFrom_nil, rfl⟩
  | cons id ids ih =>
    obtain ⟨s, role, s', l', rfl, hrest⟩ := Prog.leads_ask_ret h
    cases role with
    | none =>
      obtain ⟨reads, hreads, rfl⟩ := ih hrest
      exact ⟨(id, none) :: reads, readFrom_cons hreads, rfl⟩
    | some role =>
      obtain ⟨l₁, l₂, gs', rfl, h₁, h₂⟩ := Prog.leads_bind_ret hrest
      obtain ⟨rfl, e⟩ := Prog.leads_ret h₂
      cases e
      rw [List.append_nil]
      obtain ⟨reads, hreads, rfl⟩ := ih h₁
      exact ⟨(id, some role) :: reads, readFrom_cons hreads, rfl⟩

/-! ## The two handlers -/

variable {U : Unicode} {a : AuthConfig} {auth : Option String}

/-- A check that came to its reply resolved its bearer, and read. -/
theorem check_path {r : CheckUserPermissionResponse}
    (h : ((Rpc.checkUserPermission auth ids).handle U a).Leads l (.ret (.ok (.checked r)))) :
    ∃ claims s s' reads, (⟨s, .identity (bearer auth), .ok claims, s'⟩ : Answered Call Call.Ans Db) ∈ l ∧
      ReadFrom l claims.sub ids reads ∧ r = ⟨allowed reads, denied reads⟩ := by
  obtain ⟨l₁, l₂, res, rfl, h₁, h₂⟩ := Prog.leads_bind_ret h
  cases res with
  | error status => cases (Prog.leads_ret h₂).2
  | ok r' =>
    obtain ⟨rfl, e⟩ := Prog.leads_ret h₂
    cases e
    rw [List.append_nil]
    obtain ⟨s, auth', s', l', rfl, h₃⟩ := Prog.leads_ask_ret h₁
    cases auth' with
    | error e => cases (Prog.leads_ret h₃).2
    | ok claims =>
      have hloop : (checkIds claims.sub ids [] [] >>= fun r => .ret (@Except.ok Status _ r)).Leads l' (.ret (.ok r)) := h₃
      obtain ⟨l₃, l₄, r', rfl, h₄, h₅⟩ := Prog.leads_bind_ret hloop
      obtain ⟨rfl, e⟩ := Prog.leads_ret h₅
      cases e
      obtain ⟨reads, hreads, rfl⟩ := checkIds_reads h₄
      refine ⟨claims, s, s', reads, List.mem_cons_self, readFrom_mono hreads ?_, rfl⟩
      rw [List.append_nil]
      exact List.subset_cons_self _ _

/-- An exchange that comes to the signature has resolved its bearer, and read. -/
theorem exchange_path {header : Header} {m : MintedClaims} {k}
    (h : ((Rpc.exchangeUserTokenForMultiresourceToken auth ids).handle U a).Leads l (.call (.encode header m) k)) :
    ∃ claims s s' reads, (⟨s, .identity (bearer auth), .ok claims, s'⟩ : Answered Call Call.Ans Db) ∈ l ∧
      ReadFrom l claims.sub ids reads ∧ m.sub = claims.sub ∧ m.exp = claims.exp ∧ m.resources = granted reads := by
  obtain ⟨k₁, h₁⟩ := leads_reply_call h
  unfold exchangeUserTokenForMultiresourceToken at h₁
  by_cases hb : (bearer auth).isEmpty = true
  · simp only [if_pos hb] at h₁
    cases (Prog.leads_ret h₁).2
  simp only [if_neg hb] at h₁
  rcases Prog.leads_ask h₁ with ⟨_, e⟩ | ⟨s, auth', s', l', rfl, h₂⟩
  · cases e
  cases auth' with
  | error e => cases (Prog.leads_ret h₂).2
  | ok claims =>
    rcases Prog.leads_bind_call h₂ with ⟨k₂, h₃⟩ | ⟨l₁, l₂, gs, rfl, h₃, h₄⟩
    · -- the loop makes no call but reads of roles
      obtain ⟨_, _, e⟩ := (Prog.leads_makes (P := fun c => ∃ sub id, c = .store (.roleFor sub id)) h₃
        (makes_grantedIds (fun id => ⟨_, id, rfl⟩) ids)).2.1
      cases e
    · rcases Prog.leads_call h₄ with ⟨_, e⟩ | ⟨t, iat, t', l₃, rfl, h₅⟩
      · cases e
      rcases Prog.leads_call h₅ with ⟨_, e⟩ | ⟨u, signed, u', l₄, rfl, h₆⟩
      · cases e
        obtain ⟨reads, hreads, rfl⟩ := grantedIds_reads h₃
        refine ⟨claims, s, s', reads, List.mem_cons_self, readFrom_mono hreads ?_, rfl, rfl, rfl⟩
        exact List.subset_cons_of_subset _ (List.subset_append_left _ _)
      · cases signed <;> cases (Prog.leads_ret h₆).2

/-! ## Over runs -/

/-- Every read of a role answers with the role in the tables. -/
def Exact (trace : History) : Prop :=
  ∀ m ∈ trace, ∀ n sub id role, m.did = .called n (.store (.roleFor sub id)) role → role = m.before.roleFor sub id

/-- What was read is no more than the caller held in a state of the call, and is just
    that where the reads are exact. -/
def HeldDuring (trace : History) (n : Nat) (sub : String) (x : Read) : Prop :=
  ∃ db, trace.During n db ∧ (∀ role, x.2 = some role → ∃ role', db.roleFor sub x.1 = some role' ∧ role ≤ role') ∧
    (Exact trace → x.2 = db.roleFor sub x.1)

/-- One read for each id, each of a role held while thread `n` ran. -/
def Reads (trace : History) (n : Nat) (sub : String) (ids : List String) (reads : List Read) : Prop :=
  reads.map (·.1) = ids ∧ ∀ x ∈ reads, HeldDuring trace n sub x

section Runs

variable {cond : History → RpcPool → Step → Prop} {trace : History} {p : RpcPool} {n : Nat}

theorem reads_of_run (h : (service U a).Run cond (· = Db.empty) trace p) {i : Request} {prog : Act (Except Status Reply)}
    (hn : p.threads[n]? = some ⟨i, prog⟩) {reads : List Read} (hr : ReadFrom (trace.own n) sub ids reads) :
    Reads trace n sub ids reads := by
  refine ⟨hr.1, ?_⟩
  intro x hx
  obtain ⟨s, s', hl⟩ := hr.2 x hx
  have hsem := System.run_sem h hn _ hl
  obtain ⟨now, fates, fates', hrun⟩ := hsem
  refine ⟨s, System.run_during h hl, ?_, ?_⟩
  · intro role hrole
    exact run_roleFor_le now (c := ⟨s, fates⟩) (by rw [hrun, ← hrole])
  · intro hexact
    exact hexact _ (Trace.mem_own.mp hl) n sub x.1 x.2 rfl

/-- The caller is who the bearer resolves to. -/
theorem caller_of_run (h : (service U a).Run cond (· = Db.empty) trace p) {i : Request}
    {prog : Act (Except Status Reply)} (hn : p.threads[n]? = some ⟨i, prog⟩) {b : String} {claims : IdentityClaims}
    {s s' : Db} (hl : (⟨s, .identity b, .ok claims, s'⟩ : Answered Call Call.Ans Db) ∈ trace.own n) :
    i.auth = .ok claims := by
  have hsem := System.run_sem h hn _ hl
  exact hsem.1.symm

theorem checked_reads (h : (service U a).Run cond (· = Db.empty) trace p) {identity : Except VerifyError IdentityClaims}
    {r : CheckUserPermissionResponse}
    (hn : p.threads[n]? = some ⟨⟨identity, .checkUserPermission auth ids⟩, .ret (.ok (.checked r))⟩) :
    ∃ claims reads, identity = .ok claims ∧ Reads trace n claims.sub ids reads ∧ r = ⟨allowed reads, denied reads⟩ := by
  obtain ⟨claims, s, s', reads, hcaller, hreads, hr⟩ := check_path (U := U) (a := a) ((System.run_leads h).1 n _ hn)
  have hid : identity = .ok claims := caller_of_run h hn hcaller
  exact ⟨claims, reads, hid, reads_of_run h hn hreads, hr⟩

/-- A token is signed by a thread that stands before it. -/
theorem minted_reads {late early : History} {s s' : Db} {header : Header} {m : MintedClaims} {b : Except String String}
    (h : (service U a).Run cond (· = Db.empty) (late ++ ⟨s, .called n (.encode header m) b, s'⟩ :: early) p)
    {identity : Except VerifyError IdentityClaims}
    (hs : Trace.Started n ⟨identity, .exchangeUserTokenForMultiresourceToken auth ids⟩
      (late ++ ⟨s, .called n (.encode header m) b, s'⟩ :: early)) :
    ∃ claims reads, identity = .ok claims ∧ Reads early n claims.sub ids reads ∧ m.sub = claims.sub ∧
      m.exp = claims.exp ∧ m.resources = granted reads := by
  have hearly := System.run_called h hs
  obtain ⟨q, q', hr, _, hstep, _⟩ := System.run_split h
  obtain ⟨i, k, hn, _, _⟩ := System.happens_called hstep
  have hi := System.run_started_unique hr (System.run_started hr hn) hearly
  cases hi
  obtain ⟨claims, t, t', reads, hcaller, hreads, hm⟩ :=
    exchange_path (U := U) (a := a) ((System.run_leads hr).1 n _ hn)
  have hid : identity = .ok claims := caller_of_run hr hn hcaller
  exact ⟨claims, reads, hid, reads_of_run hr hn hreads, hm⟩

/-- A thread starts once. -/
theorem starts_once {late early : History} (h : (service U a).Run cond (· = Db.empty) (late ++ early) p) {i j : Request}
    (hs : Trace.Started n i late) : ¬ Trace.Started n j early := by
  intro hj
  obtain ⟨m, hm, hd⟩ := hs
  obtain ⟨l₂, l₁, rfl⟩ := List.append_of_mem hm
  rw [List.append_assoc, List.cons_append] at h
  obtain ⟨q, q', hr, _, hstep, _⟩ := System.run_split h
  obtain ⟨prog, hn⟩ := System.run_info hr (hj.append l₁)
  cases hstep with
  | start i =>
    cases hd
    rw [List.getElem?_eq_none (Nat.le_refl _)] at hn
    cases hn
  | act _ _ _ _ _ _ _ _ => cases hd
  | env _ _ _ => cases hd

/-- The time of a thread that starts late is late. -/
theorem during_late {late early : History} (h : (service U a).Run cond (· = Db.empty) (late ++ early) p) {i : Request}
    (hs : Trace.Started n i late) {db : Db} (hd : Trace.During n (late ++ early) db) : ∃ m ∈ late, m.before = db := by
  obtain ⟨l₂, m, l₁, e, hm, ⟨j, hj⟩, _⟩ := hd
  have hin : m ∈ late ∨ ∃ mid, early = mid ++ m :: l₁ := by
    rcases List.append_eq_append_iff.mp e with ⟨mid, rfl, he⟩ | ⟨mid, rfl, he⟩
    · exact Or.inr ⟨mid, he⟩
    · cases mid with
      | nil => exact Or.inr ⟨[], he.symm⟩
      | cons m' mid =>
        cases he
        exact Or.inl (List.mem_append_right _ List.mem_cons_self)
  rcases hin with hin | ⟨mid, rfl⟩
  · exact ⟨m, hin, hm⟩
  · exact absurd (hj.append mid) (starts_once h hs)

end Runs

/-- The parts of a run in which the caller has no role on the resource. -/
def Gone (sub id : String) (late : History) : Prop := ∀ m ∈ late, m.before.roleFor sub id = none

/-- In every run: a check replies what one read per id tells it, and a token's
    `resources` are what one read per id tells its exchange, each read of a role held
    during the call; and while a caller has no role on a resource, no exchange that
    begins then grants any. -/
theorem granted_held (U : Unicode) (a : AuthConfig) :
    (∀ trace p n identity auth ids r, (service U a).Run (fun _ _ _ => True) (· = Db.empty) trace p →
      p.threads[n]? = some ⟨⟨identity, .checkUserPermission auth ids⟩, .ret (.ok (.checked r))⟩ →
      ∃ claims reads, identity = .ok claims ∧ Reads trace n claims.sub ids reads ∧ r = ⟨allowed reads, denied reads⟩) ∧
    (∀ late early p s n header m b s' identity auth ids,
      (service U a).Run (fun _ _ _ => True) (· = Db.empty) (late ++ ⟨s, .called n (.encode header m) b, s'⟩ :: early) p →
      Trace.Started n ⟨identity, .exchangeUserTokenForMultiresourceToken auth ids⟩
        (late ++ ⟨s, .called n (.encode header m) b, s'⟩ :: early) →
      ∃ claims reads, identity = .ok claims ∧ Reads early n claims.sub ids reads ∧ m.sub = claims.sub ∧
        m.exp = claims.exp ∧ m.resources = granted reads) ∧
    ∀ late early p s n header m b s' claims auth ids id,
      (service U a).Run (fun _ _ _ => True) (· = Db.empty)
        (⟨s, .called n (.encode header m) b, s'⟩ :: (late ++ early)) p →
      Trace.Started n ⟨.ok claims, .exchangeUserTokenForMultiresourceToken auth ids⟩ late →
      Gone claims.sub id late → ∀ g ∈ m.resources, g.resourceId ≠ id := by
  refine ⟨?_, ?_, ?_⟩
  · intro trace p n identity auth ids r h hn
    exact checked_reads h hn
  · intro late early p s n header m b s' identity auth ids h hs
    exact minted_reads h hs
  · intro late early p s n header m b s' claims auth ids id h hs hgone g hg he
    have hnow : (service U a).Run _ (· = Db.empty) ([] ++ ⟨s, .called n (.encode header m) b, s'⟩ :: (late ++ early)) p := h
    obtain ⟨claims', reads, hid, hreads, _, _, hm⟩ := minted_reads hnow ((hs.left early).cons _)
    cases hid
    rw [hm] at hg
    obtain ⟨role, hx, _⟩ := mem_granted hg
    obtain ⟨db, hd, hle, _⟩ := hreads.2 _ hx
    obtain ⟨role', hrole, _⟩ := hle role rfl
    cases h with
    | step _ hr _ _ =>
      obtain ⟨m', hm', hdb⟩ := during_late hr hs hd
      have hnone := hgone m' hm'
      rw [hdb, ← he, hrole] at hnone
      cases hnone

/-- Alice, who owns the first of the resources and is a member of the second. -/
def alice : IdentityClaims := { sub := "alice", exp := 2000000000 }

def aliceChecks : Request := ⟨.ok alice, .checkUserPermission (some "Bearer t") ["urc-1", "urc-2"]⟩

def aliceExchanges : Request := ⟨.ok alice, .exchangeUserTokenForMultiresourceToken (some "Bearer t") ["urc-1", "urc-2"]⟩

def roles : Db := (Method.grant "alice" "urc-2" .member).effect 0 ((Method.grant "alice" "urc-1" .owner).effect 0 Db.empty)

def revoked : Db := (Method.revoke "alice" "urc-1").effect 0 roles

/-- What a check and an exchange answer that read the first role before it is revoked. -/
def checkedBoth : Reply := .checked ⟨[Service.grant "urc-1" .owner, Service.grant "urc-2" .member], []⟩

def exchangedBoth : Reply := .exchanged ⟨"eyJ.kaguya.sig", 2000000000, "alice", "alice"⟩

theorem alice_member (i : Request) : callSem i (.store (.roleFor "alice" "urc-2")) revoked (some .member) revoked :=
  ⟨0, [], [], rfl⟩

/-- A check and an exchange read one role before the admin revokes it and one after. -/
theorem revoked_between : ∃ early header m b,
    (service Unicode.ascii AuthConfig.lore).Run (fun _ _ _ => True) (· = Db.empty)
      (⟨revoked, .called 1 (.encode header m) b, revoked⟩ :: early)
      ⟨revoked, [⟨aliceChecks, .ret (.ok checkedBoth)⟩, ⟨aliceExchanges, .ret (.ok exchangedBoth)⟩]⟩ ∧
    Trace.Started 1 aliceExchanges early := by
  let first : Db := (Method.grant "alice" "urc-1" .owner).effect 0 Db.empty
  have owner : ∀ i, callSem i (.store (.roleFor "alice" "urc-1")) roles (some .owner) roles := fun _ => ⟨0, [], [], rfl⟩
  have h0 : (service Unicode.ascii AuthConfig.lore).Run (fun _ _ _ => True) (· = Db.empty) [] ⟨Db.empty, []⟩ :=
    .init _ rfl
  have h1 := h0.step _ trivial (.env _ ["grant", "alice", "urc-1", "owner"] first ⟨_, 0, [], rfl, rfl⟩)
  have h2 := h1.step _ trivial (.env _ ["grant", "alice", "urc-2", "member"] roles ⟨_, 0, [], rfl, rfl⟩)
  have h3 := h2.step _ trivial (.start _ aliceChecks)
  have h4 := h3.step _ trivial (.start _ aliceExchanges)
  have h5 := System.run_call h4 0 rfl _ (callSem_identity _ _ _) trivial
  have h6 := System.run_call h5 1 rfl _ (callSem_identity _ _ _) trivial
  have h7 := System.run_call h6 0 rfl _ (owner aliceChecks) trivial
  have h8 := System.run_call h7 1 rfl _ (owner aliceExchanges) trivial
  have h9 := h8.step _ trivial (.env _ ["revoke", "alice", "urc-1"] revoked ⟨_, 0, [], rfl, rfl⟩)
  have h10 := System.run_call h9 0 rfl _ (alice_member aliceChecks) trivial
  have h11 := System.run_call h10 1 rfl _ (alice_member aliceExchanges) trivial
  have h12 := System.run_call h11 1 (i := aliceExchanges) (c := .nowSecs) rfl (1000 : UInt64) rfl trivial
  have h13 := System.run_call h12 1 (i := aliceExchanges) rfl (.ok "eyJ.kaguya.sig") rfl trivial
  exact ⟨_, _, _, _, h13, _, List.mem_of_getElem? (i := 8) rfl, rfl⟩

/-- The check and the exchange answer by what they read, and an exchange that is begun
    after the revocation is granted the second resource alone. -/
theorem granted_held_revoked : ∃ trace p,
    (service Unicode.ascii AuthConfig.lore).Run (fun _ _ _ => True) (· = Db.empty) trace p ∧
    (∃ reads, Reads trace 0 "alice" ["urc-1", "urc-2"] reads ∧ checkedBoth = .checked ⟨allowed reads, denied reads⟩) ∧
    (∃ late early s header m b s', trace = late ++ ⟨s, .called 1 (.encode header m) b, s'⟩ :: early ∧
      ∃ reads, Reads early 1 "alice" ["urc-1", "urc-2"] reads ∧ m.resources = granted reads) ∧
    ∃ early s header m b s', trace = ⟨s, .called 2 (.encode header m) b, s'⟩ :: early ∧
      m.resources = [⟨"urc-2", Role.permissions .member⟩] ∧ ∀ g ∈ m.resources, g.resourceId ≠ "urc-1" := by
  have none : callSem aliceExchanges (.store (.roleFor "alice" "urc-1")) revoked none revoked := ⟨0, [], [], rfl⟩
  obtain ⟨early, header, m, b, h0, hstarted⟩ := revoked_between
  have h1 := h0.step _ trivial (.start _ aliceExchanges)
  have h2 := System.run_call h1 2 rfl _ (callSem_identity _ _ _) trivial
  have h3 := System.run_call h2 2 rfl _ none trivial
  have h4 := System.run_call h3 2 rfl _ (alice_member aliceExchanges) trivial
  have h5 := System.run_call h4 2 (i := aliceExchanges) (c := .nowSecs) rfl (1000 : UInt64) rfl trivial
  have h6 := System.run_call h5 2 (i := aliceExchanges) rfl (.ok "eyJ.kaguya.sig") rfl trivial
  obtain ⟨checks, mints, gone⟩ := granted_held Unicode.ascii AuthConfig.lore
  refine ⟨_, _, h6, ?_, ⟨[_, _, _, _, _, _], _, _, _, _, _, _, rfl, ?_⟩, _, _, _, _, _, _, rfl, rfl, ?_⟩
  · obtain ⟨claims, reads, e, hreads, hr⟩ := checks _ _ 0 _ _ _ _ h6 rfl
    cases e
    exact ⟨reads, hreads, congrArg Reply.checked hr⟩
  · obtain ⟨claims, reads, e, hreads, _, _, hm⟩ := mints [_, _, _, _, _, _] _ _ _ 1 _ _ _ _ _ _ _ h6
      ((hstarted.cons _).append [_, _, _, _, _, _])
    cases e
    exact ⟨reads, hreads, hm⟩
  · refine gone [_, _, _, _, _] _ _ _ 2 _ _ _ _ alice _ _ "urc-1" h6
      ⟨_, List.mem_of_getElem? (i := 4) rfl, rfl⟩ fun m hm => ?_
    have hnone : revoked.roleFor "alice" "urc-1" = Option.none := by decide
    simp only [List.mem_cons, List.not_mem_nil, or_false] at hm
    rcases hm with rfl | rfl | rfl | rfl | rfl <;> exact hnone

end Kaguya.Auth.Granted
