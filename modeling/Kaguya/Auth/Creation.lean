/-
  Kaguya.Auth.Creation — who owns a resource that was just created. `record_owner` writes
  the resource row and then the creator's grant, each with `INSERT OR IGNORE`: a grant
  row that the creator already holds on the resource stays as it is.

  `creator_owner_iff`: on a resource that is new, and that nobody owns, a call that
  returns ok has made its caller the owner exactly when the caller held no grant of its
  own there. `member_stays_member` is a reachable store where it did: an admin granted
  `member` on the id before it was created.
-/

import Kaguya.Auth.Runs

namespace Kaguya.Auth.Creation

open Kaguya.Lib
open Kaguya.Auth.Store
open Kaguya.Auth.Service
open Kaguya.Auth.Runs
open Kaguya.Auth.Verify (Unicode)

/-- Nobody owns the resource, themselves or as a group. -/
def Unowned (db : Db) (urcId : String) : Prop := ∀ g ∈ db.grants, g.urcId = urcId → g.role ≠ "owner"

theorem parse_owner {s : String} (h : Role.parse s = some .owner) : s = "owner" := by
  unfold Role.parse at h
  split at h
  · assumption
  · split at h <;> cases h

variable {db : Db} {u urcId name : String} {now : Int} {fates : List Fate}

/-- A call that returns ok has had its whole effect, whatever could have failed. -/
theorem recordOwner_ok (hok : ((Method.recordOwner u urcId name).run now ⟨db, fates⟩).1 = some (.ok ())) :
    ((Method.recordOwner u urcId name).run now ⟨db, fates⟩).2.db = (Method.recordOwner u urcId name).effect now db := by
  rw [run_recordOwner] at hok ⊢
  cases hf : (Conn.fate ⟨db, fates⟩).error with
  | some e =>
    rw [hf] at hok
    cases hok
  | none =>
    simp only [hf] at hok ⊢
    by_cases hc : db.Created urcId
    · rw [effect_recordOwner_old hc]
      simp only [resource_old hc]
      rfl
    · have hpos : (db.resources.insertOrIgnore ⟨urcId, name, now⟩).2 > 0 := resource_new.mpr hc
      rw [effect_recordOwner_new hc]
      rw [if_pos hpos, run_execute] at hok ⊢
      -- the owner's grant
      rcases he : (Conn.fate ⟨{ db with resources := (db.resources.insertOrIgnore ⟨urcId, name, now⟩).1 }, fates.tail⟩).error
        with _ | e
      · rfl
      · simp only [he] at hok
        cases hok

/-- On a new resource that nobody owns, the creator is the owner exactly when it held no
    grant of its own there. -/
theorem creator_owner_iff (hnew : ¬ db.Created urcId) (hun : Unowned db urcId)
    (hok : ((Method.recordOwner u urcId name).run now ⟨db, fates⟩).1 = some (.ok ())) :
    ((Method.recordOwner u urcId name).run now ⟨db, fates⟩).2.db.roleFor u urcId = some .owner ↔
      ∀ g ∈ db.grants, g.key ≠ (u, urcId) := by
  rw [recordOwner_ok hok, roleFor_owner]
  constructor
  · intro h
    obtain ⟨g, hg, hid, _, hp⟩ := h
    rcases grants_recordOwner.mp hg with hold | ⟨_, _, hnone⟩
    · exact absurd (parse_owner hp) (hun g hold hid)
    · exact hnone
  · intro hnone
    exact ⟨⟨u, urcId, "owner"⟩, grants_recordOwner.mpr (Or.inr ⟨hnew, rfl, hnone⟩), rfl, Or.inl rfl, Role.parse_asStr .owner⟩

/-- A resource that dave created and deleted again, with grants made since: to bob, and
    to a group that alice is in. -/
def sharedDb : Db :=
  (Method.grant "bob" "urc-1" .member).effect 0
    ((Method.grant (groupSubject "devs") "urc-1" .member).effect 0
      ((Method.addGroupMember "devs" "alice").effect 0
        ((Method.deleteResource "urc-1").effect 0
          ((Method.recordOwner "dave" "urc-1" "repo").effect 0 Db.empty))))

/-- alice, a member through the group, creates it anew. -/
theorem creator_owner_shared : sharedDb.roleFor "alice" "urc-1" = some .member ∧
    ((Method.recordOwner "alice" "urc-1" "repo").run 0 ⟨sharedDb, []⟩).2.db.roleFor "alice" "urc-1" = some .owner := by
  refine ⟨by decide, (creator_owner_iff ?_ ?_ ?_).mpr ?_⟩
  · intro hc
    obtain ⟨row, hrow, _⟩ := hc
    exact absurd hrow (by decide +revert)
  · unfold Unowned
    decide
  · rw [run_reliable]
    rfl
  · decide

/-! ## A creator that is a member -/

/-- An admin has granted `member` on an id that is created later. -/
def invitedDb : Db := (Method.grant "alice" "urc-1" .member).effect 0 Db.empty

theorem member_stays_member : ¬ ∀ (U : Unicode) (a : AuthConfig) (db : Db) (u urcId name : String) (now : Int)
    (fates : List Fate), Reachable U a db → ¬ db.Created urcId → Unowned db urcId →
    ((Method.recordOwner u urcId name).run now ⟨db, fates⟩).1 = some (.ok ()) →
    ((Method.recordOwner u urcId name).run now ⟨db, fates⟩).2.db.roleFor u urcId = some .owner := by
  intro h
  have hr : Reachable Unicode.ascii AuthConfig.lore invitedDb :=
    reachable_admin reachable_empty ["grant", "alice", "urc-1", "member"] 0 rfl
  have hun : Unowned invitedDb "urc-1" := by
    intro g hg _
    rcases grants_grant.mp hg with rfl | ⟨hold, _⟩
    · decide
    · exact absurd hold (Table.not_mem_empty g)
  have hnew : ¬ invitedDb.Created "urc-1" := fun hc => hc.elim fun row h => absurd h.1 (Table.not_mem_empty row)
  have howner := h _ _ invitedDb "alice" "urc-1" "repo" 0 [] hr hnew hun (by rw [run_reliable]; rfl)
  exact absurd howner (by decide)

end Kaguya.Auth.Creation
