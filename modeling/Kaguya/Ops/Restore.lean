/-
  Kaguya.Ops.Restore — what a failed run of the deploy script leaves.

  `restored_iff_smooth`: a run that has merged and then exits with an error has put the
  checkout back, and brought up what it stopped, exactly when no command failed unguarded
  while the checkout was away from where the run started. The failures the script looks
  at (of the pull, the backup, the start and the wait) are all followed by a reset and a
  `docker compose up -d`. The others end the shell where they happen, by `set -e`: sourcing
  the target's `ops/stack.sh`, `date`, the pruning, writing `.update-failed`, an `echo`,
  and a health check without its variable.

  `prune_strands` is such a run: with the backup complete the pruning fails, and the run
  ends with the target checked out and the services stopped.
-/

import Kaguya.Ops.Course

namespace Kaguya.Ops.Restore

open Kaguya.Lib
open Kaguya.Lib.Shell
open Kaguya.Ops.Update
open Kaguya.Ops.Runs
open Kaguya.Ops.Phases
open Kaguya.Ops.Course

/-- The checkout is where the run started, and what the run stopped it has brought up. -/
def Restored (j : Run) : Prop := j.state.checkout = j.start.checkout ∧ ¬ Owed j.calls

/-- A merge has succeeded in the run. -/
def Merged (j : Run) : Prop := ∃ t, ∃ x ∈ j.calls, IsMerge t x

section Restored

variable {repo : Repo} {init : Host → Prop} {later older : List Run} {j : Run} {s : Host}

theorem before_unmerged {s₀ : Host} {l : Calls} (h : Before s₀ l s) {t : Commit} {x : Call} (hx : x ∈ l) :
    ¬ IsMerge t x := by
  intro hm
  rcases h.early x hx with hq | ⟨t', _, hne⟩
  · rw [hm.1] at hq
    exact hq
  · exact hne hm.2

/-- A run that failed after its merge is restored exactly when no command failed
    unguarded while the checkout was away. -/
theorem restored_iff_smooth {n : Nat} (hr : History (Sem repo) init (later ++ j :: older) s) (hm : Merged j)
    (hexit : j.prog = .ret (.exited n)) (hn : n ≠ 0) : Restored j ↔ Smooth j.start.checkout j.calls := by
  obtain ⟨t₀, y, hy, hmerge⟩ := hm
  obtain ⟨_, hexits⟩ := run_exits (serial_at hr) hexit
  cases hexits with
  | before h => exact absurd hmerge (before_unmerged h hy)
  | failed t x l' _ haway hl hx hat =>
    refine ⟨fun h => absurd (haway.checkout.symm.trans h.1) haway.ne, fun h => absurd ?_ haway.ne⟩
    exact hat.symm.trans (h x (hl ▸ List.mem_cons_self) hx)
  | updated _ hz => exact absurd hz hn
  | back t _ hback hsmooth howed => exact ⟨fun _ => hsmooth, fun _ => ⟨hback.checkout, howed⟩⟩

end Restored

/-! ## A run that is not restored -/

/-- Two commits, `b` after `a`, which differ in nothing the gates look at. -/
def pair : Repo where
  ancestor x y := x = y ∨ x = "a"
  refl _ := Or.inl rfl
  trans _ _ _ h₁ h₂ := h₁.elim (fun e => e ▸ h₂) Or.inr
  antisymm _ _ h₁ h₂ := h₁.elim id fun e => h₂.elim Eq.symm fun e' => e.trans e'.symm
  differs _ _ _ := False
  message _ := []
  stackSh _ text := text = ""

/-- A host on which the pruning fails, and of the commands whose output is not read those in
    `fails`. -/
def answer (fails : Cmd → Bool) (c : At Cmd) (s : Host) : Ans Cmd.Out c × Host :=
  match c with
  | ⟨.gitFetch _, _⟩ => ((0, ()), { s with fetchHead := s.origin })
  | ⟨.gitRevParse .head, _⟩ => ((0, s.checkout), s)
  | ⟨.gitRevParse .fetchHead, _⟩ => ((0, s.fetchHead), s)
  | ⟨.gitRevParseShort rev, _⟩ => ((0, rev), s)
  | ⟨.gitDiffQuiet, _⟩ => ((if s.edits then 1 else 0, ()), s)
  | ⟨.gitIsAncestor x y, _⟩ => ((if x = y ∨ x = "a" then 0 else 1, ()), s)
  | ⟨.gitDiffNameOnly .., _⟩ | ⟨.gitLog .., _⟩ | ⟨.readLines _, _⟩ | ⟨.ls _, _⟩ => ((0, []), s)
  | ⟨.gitMerge t, _⟩ => ((0, ()), { s with checkout := t })
  | ⟨.gitReset t, _⟩ => ((0, ()), { s with checkout := t })
  | ⟨.testFile path, _⟩ => ((if path ≠ failedFile ∨ s.failed.isSome then 0 else 1, ()), s)
  | ⟨.cat _, _⟩ => ((0, s.failed.getD ""), s)
  | ⟨.source _, _⟩ => ((if fails c.cmd then 1 else 0, ""), s)
  | ⟨.write _ text, _⟩ => ((0, ()), { s with failed := some text })
  | ⟨.rm _, _⟩ => ((0, ()), { s with failed := none })
  | ⟨.composePsId _, _⟩ => ((0, "0"), s)
  | ⟨.composePs, _⟩ => ((0, [⟨"auth", "running", "healthy"⟩]), s)
  | ⟨.dateStamp, _⟩ => ((0, "20260101T030000Z"), s)
  | ⟨.dateSeconds, _⟩ => ((0, some 0), s)
  | ⟨.curlProbe host _, _⟩ => ((if host.isSome then 0 else 1, ()), s)
  | ⟨.xargsRm _, _⟩ => ((1, ()), s)
  | ⟨.cd, _⟩ | ⟨.openLock _, _⟩ | ⟨.flock, _⟩ | ⟨.complain _, _⟩ | ⟨.echo _, _⟩ | ⟨.curlNotify .., _⟩
  | ⟨.composePull, _⟩ | ⟨.composeStop _, _⟩ | ⟨.composeUp, _⟩ | ⟨.composePsAll, _⟩ | ⟨.composeLogs, _⟩
  | ⟨.tarVolume .., _⟩ | ⟨.imagePrune, _⟩ | ⟨.umask, _⟩ | ⟨.mkdir _, _⟩ | ⟨.tarFiles .., _⟩ | ⟨.sleep _, _⟩ =>
    ((if fails c.cmd then 1 else 0, ()), s)

theorem answer_sem (fails : Cmd → Bool) (c : At Cmd) (s : Host) : Sem pair c s (answer fails c s).1 (answer fails c s).2 := by
  refine ⟨s, rfl, ?_⟩
  obtain ⟨c, plain⟩ := c
  cases c with
  | gitFetch _ => exact ⟨rfl, fun _ => rfl⟩
  | gitRevParse rev => cases rev <;> exact ⟨rfl, fun _ => rfl⟩
  | gitDiffQuiet => cases h : s.edits <;> simp [answer, Does, h]
  | gitIsAncestor x y => by_cases h : x = y ∨ x = "a" <;> simp [answer, Does, pair, h]
  | gitDiffNameOnly _ _ _ => exact ⟨rfl, fun _ path => ⟨fun h => (by cases h), fun h => h.1.elim⟩⟩
  | gitLog _ _ => exact ⟨rfl, fun _ path => ⟨fun h => (by cases h), fun h => h.elim fun _ hm => by cases hm.2⟩⟩
  | testFile path => cases h : s.failed <;> simp +contextual [answer, Does, h]
  | source _ => exact ⟨rfl, fun _ => rfl⟩
  | cat path => exact ⟨rfl, fun _ _ text h => by simp [answer, h]⟩
  | write _ _ => exact ⟨rfl, fun _ => rfl⟩
  | rm _ => exact ⟨rfl, fun _ => rfl⟩
  | xargsRm _ => exact ⟨rfl, fun _ h => by cases h⟩
  | curlProbe host _ => cases host with
    | none => exact ⟨rfl, fun h => by cases h⟩
    | some _ => rfl
  | _ => rfl

/-- The commit `b` was pushed. -/
def pushed : Host := ⟨"a", "a", none, false, "b"⟩

theorem pushed_init : History (Sem pair) (· = pushed) [] pushed := .init pushed rfl

/-- The script as the timer runs it. -/
def nightly : Invocation := ⟨"ops/update.sh", [], fun _ => none, 4⟩

/-- A run from `s` on such a host, for at most `n` commands. -/
def attempt (fails : Cmd → Bool) (s : Host) (n : Nat) : Run := Job.play (answer fails) n ⟨nightly, s, [], s, update nightly false⟩

theorem attempt_runs (fails : Cmd → Bool) {init : Host → Prop} {h : List Run} {s : Host} (hr : History (Sem pair) init h s)
    (n : Nat) : History (Sem pair) init (attempt fails s n :: h) (attempt fails s n).state :=
  serial_play (answer_sem fails) n (.start nightly hr)

/-- A failed pull is restored. -/
theorem pull_restored : Restored (attempt (· = .composePull) pushed 60) ↔
    Smooth (attempt (· = .composePull) pushed 60).start.checkout (attempt (· = .composePull) pushed 60).calls :=
  @restored_iff_smooth pair _ [] [] _ _ 1 (attempt_runs _ pushed_init 60) ⟨"b", by decide⟩ rfl (by decide)

def resets : Cmd → Bool
  | .gitReset _ => true
  | _ => false

/-- A failed pruning is not, though no reset fails: the services stay stopped. -/
theorem prune_strands : ¬ ∀ (repo : Repo) (init : Host → Prop) (j : Run) (s : Host) (n : Nat),
    History (Sem repo) init [j] s → Merged j → (∀ x ∈ j.calls, ∀ t, x.call.cmd = .gitReset t → x.ans.1 = 0) →
    j.prog = .ret (.exited n) → n ≠ 0 → Restored j := by
  intro h
  have hno : ∀ x ∈ (attempt (fun _ => false) pushed 60).calls, resets x.call.cmd = false := by decide
  have hrestored : Restored (attempt (fun _ => false) pushed 60) := by
    refine h pair (· = pushed) _ _ 1 (attempt_runs _ pushed_init 60) ⟨"b", by decide⟩ (fun x hx t e => ?_) rfl (by decide)
    have := hno x hx
    rw [e] at this
    cases this
  have howed : Owed (attempt (fun _ => false) pushed 60).calls := by decide
  exact hrestored.2 howed

end Kaguya.Ops.Restore
