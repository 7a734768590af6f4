/-
  Kaguya.Auth.DeleteRace — only an owner deletes, with other handlers and the admin in
  between. `delete_resource` reads the caller's role in one store call and deletes in
  another; the store is not locked from the one to the other.

  `Withdraws`: which methods take away the caller's ownership, said of the tables. No
  other method does, whatever statements of it fail (`keeps_owner`), and each of these
  does (`withdraws_loses`). So the delete is by an owner in every run in which no
  withdrawing step falls between the check and the delete (`only_owners_delete`), and
  is not where one does: an admin's revoke after the check (`revoked_in_between`).
-/

import Kaguya.Auth.Runs

namespace Kaguya.Auth.DeleteRace

open Kaguya.Lib
open Kaguya.Auth.Jwt
open Kaguya.Auth.Store
open Kaguya.Auth.Service
open Kaguya.Auth.Runs
open Kaguya.Auth.Verify (VerifyError Unicode)

/-! ## Losing ownership -/

/-- The grant rows that make `sub` an owner of `urcId`. -/
def OwnerRow (db : Db) (sub urcId : String) (g : GrantRow) : Prop :=
  g ∈ db.grants ∧ g.urcId = urcId ∧ Reaches db sub g.subject ∧ Role.parse g.role = some .owner

/-- The method takes away every row that makes `sub` an owner: all grants on the
    resource, the only one there is, or the membership all of them come through. -/
def Withdraws (db : Db) (sub urcId : String) : Method → Prop
  | .deleteResource id => id = urcId
  | .revoke x id => id = urcId ∧ ∀ g, OwnerRow db sub urcId g → g.subject = x
  | .grant x id role => id = urcId ∧ role ≠ .owner ∧ ∀ g, OwnerRow db sub urcId g → g.subject = x
  | .removeGroupMember grp s => s = sub ∧ ∀ g, OwnerRow db sub urcId g → g.subject = groupSubject grp ∧ g.subject ≠ sub
  | _ => False

theorem roleFor_owner_iff {db : Db} {sub urcId : String} :
    db.roleFor sub urcId = some .owner ↔ ∃ g, OwnerRow db sub urcId g := roleFor_owner

section Keeps

variable {db : Db} {sub urcId : String} {now : Int}

/-- An owner row that is still there, the memberships being those there were or more. -/
theorem ownerRow_kept {db' : Db} {g : GrantRow} (h : OwnerRow db sub urcId g) (hg : g ∈ db'.grants)
    (hm : ∀ m ∈ db.groupMembers, m ∈ db'.groupMembers) : OwnerRow db' sub urcId g := by
  obtain ⟨_, hu, hr, hp⟩ := h
  refine ⟨hg, hu, ?_, hp⟩
  rcases hr with hr | ⟨grp, hgrp, hr⟩
  · exact Or.inl hr
  · exact Or.inr ⟨grp, hm _ hgrp, hr⟩

/-- Taking away the grant of `x` leaves an owner row, unless it was the only one. -/
theorem ownerRow_other {x id : String} (ho : db.roleFor sub urcId = some .owner)
    (hw : ¬ (id = urcId ∧ ∀ g, OwnerRow db sub urcId g → g.subject = x)) :
    ∃ g, OwnerRow db sub urcId g ∧ g.key ≠ (x, id) := by
  by_cases hid : id = urcId
  · have hex : ∃ g, OwnerRow db sub urcId g ∧ g.subject ≠ x := by
      by_contra hn
      push Not at hn
      exact hw ⟨hid, hn⟩
    obtain ⟨g, hg, hne⟩ := hex
    exact ⟨g, hg, fun hk => hne (congrArg Prod.fst hk)⟩
  · obtain ⟨g, hg⟩ := roleFor_owner_iff.mp ho
    refine ⟨g, hg, fun hk => hid ?_⟩
    exact (congrArg Prod.snd hk).symm.trans hg.2.1

theorem effect_keeps_owner {m : Method} (ho : db.roleFor sub urcId = some .owner) (hw : ¬ Withdraws db sub urcId m) :
    (m.effect now db).roleFor sub urcId = some .owner := by
  rw [roleFor_owner_iff]
  obtain ⟨g, hg⟩ := roleFor_owner_iff.mp ho
  cases m with
  | recordOwner owner id name =>
    refine ⟨g, ownerRow_kept hg (grants_recordOwner.mpr (Or.inl hg.1)) ?_⟩
    rw [members_effect (by simp)]
    exact fun _ hm => hm
  | deleteResource id =>
    have hne : g.urcId ≠ id := by
      rw [hg.2.1]
      exact fun e => hw e.symm
    exact ⟨g, ownerRow_kept hg (grants_deleteResource.mpr ⟨hg.1, hne⟩) fun _ hm => hm⟩
  | grant x id role =>
    by_cases hrole : role = .owner
    · by_cases hk : g.key = (x, id)
      · have hx : g.subject = x := congrArg Prod.fst hk
        have hid : g.urcId = id := congrArg Prod.snd hk
        refine ⟨⟨x, id, role.asStr⟩, grants_grant.mpr (Or.inl rfl), hid.symm.trans hg.2.1, ?_, ?_⟩
        · exact hx ▸ hg.2.2.1
        · rw [Role.parse_asStr, hrole]
      · exact ⟨g, ownerRow_kept hg (grants_grant.mpr (Or.inr ⟨hg.1, hk⟩)) fun _ hm => hm⟩
    · obtain ⟨g', hg', hk⟩ := ownerRow_other ho fun h => hw ⟨h.1, hrole, h.2⟩
      exact ⟨g', ownerRow_kept hg' (grants_grant.mpr (Or.inr ⟨hg'.1, hk⟩)) fun _ hm => hm⟩
  | revoke x id =>
    obtain ⟨g', hg', hk⟩ := ownerRow_other ho hw
    exact ⟨g', ownerRow_kept hg' (grants_revoke.mpr ⟨hg'.1, hk⟩) fun _ hm => hm⟩
  | addGroupMember grp s => exact ⟨g, ownerRow_kept hg hg.1 fun _ hm => members_add.mpr (Or.inl hm)⟩
  | removeGroupMember grp s =>
    by_cases hs : s = sub
    · have hex : ∃ g, OwnerRow db sub urcId g ∧ ¬ (g.subject = groupSubject grp ∧ g.subject ≠ sub) := by
        by_contra hn
        push Not at hn
        exact hw ⟨hs, hn⟩
      obtain ⟨g', ⟨hg', hu, hr, hp⟩, hne⟩ := hex
      refine ⟨g', hg', hu, ?_, hp⟩
      by_cases hsub : g'.subject = sub
      · exact Or.inl hsub
      · rcases hr with hr | ⟨grp', hgrp, hr⟩
        · exact absurd hr hsub
        · refine Or.inr ⟨grp', members_remove.mpr ⟨hgrp, fun e => hne ⟨?_, hsub⟩⟩, hr⟩
          have hsame : grp' = grp := congrArg MemberRow.grp e
          rw [hr, hsame]
    · refine ⟨g, hg.1, hg.2.1, ?_, hg.2.2.2⟩
      rcases hg.2.2.1 with hr | ⟨grp', hgrp, hr⟩
      · exact Or.inl hr
      · refine Or.inr ⟨grp', members_remove.mpr ⟨hgrp, fun e => hs ?_⟩, hr⟩
        exact (congrArg MemberRow.subject e).symm
  | _ => exact ⟨g, hg⟩

/-- A method that does not withdraw keeps the owner, whatever fails. -/
theorem keeps_owner {m : Method} {db' : Db} (ho : db.roleFor sub urcId = some .owner) (hw : ¬ Withdraws db sub urcId m)
    (hl : Leaves now m db db') : db'.roleFor sub urcId = some .owner := by
  cases hl with
  | nothing => exact ho
  | effect => exact effect_keeps_owner ho hw
  | resourceOnly => exact ho
  | grantsOnly id =>
    obtain ⟨g, hg⟩ := roleFor_owner_iff.mp ho
    have hne : g.urcId ≠ id := by
      rw [hg.2.1]
      exact fun e => hw e.symm
    have hkept := (@grants_deleteResource db now id g).mpr ⟨hg.1, hne⟩
    exact roleFor_owner_iff.mpr ⟨g, ownerRow_kept hg hkept fun _ hm => hm⟩

/-- A method that withdraws leaves the caller no owner. -/
theorem withdraws_loses {m : Method} (hw : Withdraws db sub urcId m) :
    (m.effect now db).roleFor sub urcId ≠ some .owner := by
  intro ho
  obtain ⟨g, hg, hu, hr, hp⟩ := roleFor_owner_iff.mp ho
  cases m with
  | deleteResource id => exact (grants_deleteResource.mp hg).2 (hu.trans hw.symm)
  | revoke x id =>
    obtain ⟨hid, honly⟩ := hw
    obtain ⟨hg', hk⟩ := grants_revoke.mp hg
    have hx := honly g ⟨hg', hu, hr, hp⟩
    exact hk (by rw [GrantRow.key, hx, hu, hid])
  | grant x id role =>
    obtain ⟨hid, hrole, honly⟩ := hw
    rcases grants_grant.mp hg with rfl | ⟨hg', hk⟩
    · rw [Role.parse_asStr, Option.some.injEq] at hp
      exact hrole hp
    · have hx := honly g ⟨hg', hu, hr, hp⟩
      exact hk (by rw [GrantRow.key, hx, hu, hid])
  | removeGroupMember grp s =>
    obtain ⟨rfl, honly⟩ := hw
    rcases hr with hr | ⟨grp', hgrp, hr⟩
    · exact (honly g ⟨hg, hu, Or.inl hr, hp⟩).2 hr
    · obtain ⟨hgrp', hne⟩ := members_remove.mp hgrp
      have hname := (honly g ⟨hg, hu, Or.inr ⟨grp', hgrp', hr⟩, hp⟩).1
      have hsame : grp' = grp := groupSubject_inj.mp (hr.symm.trans hname)
      exact hne (by rw [hsame])
  | _ => exact hw.elim

end Keeps

/-! ## The race -/

section Race

variable {U : Unicode} {a : AuthConfig}

/-- The thread is a `DeleteResource` by `sub` that has come to the store's delete. -/
def Deleting (p : Pool Request Call Call.Ans (Except Status Reply) Db) (n : Nat) (sub urcId : String) : Prop :=
  ∃ i k claims, p.threads[n]? = some ⟨i, .call (.store (.deleteResource urcId)) k⟩ ∧ i.auth = .ok claims ∧
    claims.sub = sub

/-- No other step takes the ownership away from a caller that is about to delete. -/
def Undisturbed (p : Pool Request Call Call.Ans (Except Status Reply) Db) (v : Event Request (List String)) : Prop :=
  ∀ n sub urcId m, Deleting p n sub urcId → v ≠ .act n → Executes p v m → ¬ Withdraws p.shared sub urcId m

/-- What the others may do while a thread waits before a call: before the delete, leave
    its caller an owner. -/
def rely (i : Request) (c : Call) (db db' : Db) : Prop :=
  ∀ urcId claims, c = .store (.deleteResource urcId) → i.auth = .ok claims →
    db.roleFor claims.sub urcId = some .owner → db'.roleFor claims.sub urcId = some .owner

/-- The delete is made by an authenticated caller that owns the resource. -/
def ByOwner (i : Request) (c : Call) (db : Db) : Prop :=
  ∀ urcId, c = .store (.deleteResource urcId) →
    ∃ claims, i.auth = .ok claims ∧ db.roleFor claims.sub urcId = some .owner

/-- A call other than the store's delete. -/
def NoDelete : Call → Prop
  | .store (.deleteResource _) => False
  | _ => True

theorem byOwner_noDelete {i : Request} (c : Call) (db : Db) (h : NoDelete c) : ByOwner i c db := by
  intro urcId e
  rw [e] at h
  exact h.elim

theorem handle_noDelete {rpc : Rpc} (hd : ∀ auth id, rpc ≠ .deleteResource auth id) :
    (rpc.handle U a).Makes NoDelete := by
  refine Prog.makes_mono (fun c h => ?_) (handle_makes U a rpc)
  cases c with
  | store m => cases m with
    | deleteResource id =>
      obtain ⟨auth, id', e⟩ := h
      exact hd auth id' e
    | _ => trivial
  | _ => trivial

/-- A handler deletes only after it read its caller as an owner, if the others keep to
    `rely` from then on. -/
theorem deleteResource_holds (i : Request) (auth : Option String) (id : String) (db : Db) :
    Holds (callSem i) (fun _ => True) (rely i) (ByOwner i) (deleteResource auth id) (fun _ _ => True) db := by
  -- the bearer is resolved
  intro db₁ _ _
  refine ⟨byOwner_noDelete _ db₁ trivial, fun r db₂ _ hr => ?_⟩
  obtain ⟨hauth, rfl⟩ := hr
  cases r with
  | error e => trivial
  | ok claims =>
    -- the role is read
    intro db₃ _ _
    refine ⟨byOwner_noDelete _ db₃ trivial, fun role db₄ _ hrole => ?_⟩
    obtain ⟨now, fates, fates', hrun⟩ := hrole
    show Holds _ _ _ _ (if role ≠ some .owner then _ else _ : Act (Except Status Unit)) _ db₄
    by_cases h : role ≠ some .owner
    · rw [if_pos h]
      trivial
    · rw [if_neg h]
      have hread : ((Method.roleFor claims.sub id).run now ⟨db₃, fates⟩).1 = some (some .owner) := by
        rw [hrun]
        exact congrArg some (not_not.mp h)
      have hdb : ((Method.roleFor claims.sub id).run now ⟨db₃, fates⟩).2.db = db₃ :=
        run_queryRows_db now (.roles id claims.sub) bestRole ⟨db₃, fates⟩
      rw [hrun] at hdb
      have howner : db₄.roleFor claims.sub id = some .owner := by
        rw [show db₄ = db₃ from hdb]
        exact run_roleFor_owner now hread
      -- the delete
      intro db₅ _ hrely
      refine ⟨fun urcId e => ?_, fun r _ _ _ => by cases r <;> trivial⟩
      cases e
      exact ⟨claims, hauth.symm, hrely id claims rfl hauth.symm howner⟩

theorem handle_holds (i : Request) (db : Db) :
    Holds (callSem i) (fun _ => True) (rely i) (ByOwner i) (i.rpc.handle U a) (fun _ _ => True) db := by
  by_cases hd : ∃ auth id, i.rpc = .deleteResource auth id
  · obtain ⟨auth, id, hrpc⟩ := hd
    rw [hrpc]
    exact holds_reply (deleteResource_holds i auth id db)
  · have hd' : ∀ auth id, i.rpc ≠ .deleteResource auth id := fun auth id e => hd ⟨auth, id, e⟩
    exact holds_of_makes (handle_noDelete hd') (fun c db hc _ => byOwner_noDelete c db hc) (fun _ _ _ _ _ => trivial)
      (fun _ _ _ _ _ _ => trivial) trivial

/-- The steps of an undisturbed run respect the relies. -/
theorem sound : Sound (service U a) Undisturbed (· = Db.empty) (fun _ => True) rely ByOwner where
  initial _ _ := trivial
  act _ _ _ _ _ _ _ _ := trivial
  env _ _ _ _ _ := trivial
  body i db _ := handle_holds i db
  refl _ _ _ _ _ _ _ h := h
  trans _ _ _ _ _ h h' urcId claims hc hi ho := h' urcId claims hc hi (h urcId claims hc hi ho)
  others p v p' _ hc hs n i c k hn hv urcId claims e hi ho := by
    subst e
    rcases step_tables hs with h | ⟨m, now, hex, hl⟩
    · rw [h]
      exact ho
    · exact keeps_owner ho (hc n claims.sub urcId m ⟨i, k, claims, hn, hi, rfl⟩ hv hex) hl

/-- Every thread that has come to the delete is of a caller that owns the resource. -/
def DeletesByOwners (p : Pool Request Call Call.Ans (Except Status Reply) Db) : Prop :=
  ∀ n sub urcId, Deleting p n sub urcId → p.shared.roleFor sub urcId = some .owner

theorem undisturbed_deletes {p : Pool Request Call Call.Ans (Except Status Reply) Db}
    (hp : (service U a).Reach Undisturbed (· = Db.empty) p) : DeletesByOwners p := by
  intro n sub urcId h
  obtain ⟨i, k, claims, hn, hi, rfl⟩ := h
  obtain ⟨claims', hi', ho⟩ := reach_pre sound hp hn urcId rfl
  rw [hi] at hi'
  cases hi'
  exact ho

/-- In every run without a withdrawal between a check and its delete, only owners come
    to delete; and a withdrawal that succeeds in between leaves the caller no owner. -/
theorem only_owners_delete (U : Unicode) (a : AuthConfig) :
    (∀ p, (service U a).Reach Undisturbed (· = Db.empty) p → DeletesByOwners p) ∧
    ∀ p n sub urcId m now, Deleting p n sub urcId → Withdraws p.shared sub urcId m →
      (m.effect now p.shared).roleFor sub urcId ≠ some .owner :=
  ⟨fun _ hp => undisturbed_deletes hp, fun _ _ _ _ _ _ _ hw => withdraws_loses hw⟩

end Race

/-- Alice deletes her resource. -/
def aliceDeletes : Request := ⟨.ok { sub := "alice", exp := 2000000000 }, .deleteResource (some "Bearer t") "urc-1"⟩

/-- The admin revokes alice's grant after the check; her delete is still to come. -/
theorem revoked_in_between : ¬ ∀ p, Reach Unicode.ascii AuthConfig.lore p → DeletesByOwners p := by
  intro h
  let owned : Db := (Method.grant "alice" "urc-1" .owner).effect 0 Db.empty
  let revoked : Db := (Method.revoke "alice" "urc-1").effect 0 owned
  have h0 : Reach Unicode.ascii AuthConfig.lore ⟨Db.empty, []⟩ := .init _ rfl
  have h1 := h0.step (.env ["grant", "alice", "urc-1", "owner"]) trivial (.env _ _ owned ⟨_, 0, [], rfl, rfl⟩)
  have h2 := h1.step (.start aliceDeletes) trivial (.start _ aliceDeletes)
  have resolves : callSem aliceDeletes (.identity (bearer (some "Bearer t"))) owned aliceDeletes.auth owned :=
    ⟨rfl, rfl⟩
  have h3 := h2.step (.act 0) trivial (.act _ 0 aliceDeletes _ _ _ owned rfl resolves)
  have checked : callSem aliceDeletes (.store (.roleFor "alice" "urc-1")) owned (some .owner) owned := ⟨0, [], [], rfl⟩
  have h4 := h3.step (.act 0) trivial (.act _ 0 aliceDeletes _ _ _ owned rfl checked)
  have h5 := h4.step (.env ["revoke", "alice", "urc-1"]) trivial (.env _ _ revoked ⟨_, 0, [], rfl, rfl⟩)
  have ho := h _ h5 0 "alice" "urc-1" ⟨aliceDeletes, _, _, rfl, rfl, rfl⟩
  have hnone : revoked.roleFor "alice" "urc-1" = none := by decide
  rw [hnone] at ho
  cases ho

end Kaguya.Auth.DeleteRace
