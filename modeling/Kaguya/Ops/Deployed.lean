/-
  Kaguya.Ops.Deployed — what "up to date" tells. The script takes its checkout for what
  is deployed: where `head = target` it exits 0 and does nothing.

  `up_to_date_deployed`: over any history, of runs stopped anywhere, a commit found so
  either was the first one, or was brought up and passed the wait for health in an
  earlier run, if none was left at it: stopped after its merge and before it had passed,
  and not seen healthy since.

  `up_to_date_undeployed` is a history where one was left so: the first run is killed
  right after its merge, and the next exits 0.
-/

import Kaguya.Ops.Restore

namespace Kaguya.Ops.Deployed

open Kaguya.Lib
open Kaguya.Lib.Shell
open Kaguya.Ops.Update
open Kaguya.Ops.Runs
open Kaguya.Ops.Phases
open Kaguya.Ops.Course
open Kaguya.Ops.Restore

/-- The run was stopped after its merge to `t`, before `t` had passed the wait. -/
def LeftAt (t : Commit) (j : Run) : Prop := MergedTo t j.calls ∧ ¬ Healthy t j.calls

/-- A run was left at `t`, and no later one has seen `t` healthy. -/
def Left (t : Commit) (h : List Run) : Prop :=
  ∃ later j older, h = later ++ j :: older ∧ LeftAt t j ∧ ∀ r ∈ later, ¬ Healthy t r.calls

def SeenHealthy (t : Commit) (h : List Run) : Prop := ∃ r ∈ h, Healthy t r.calls

/-- The run exits 0 where HEAD and FETCH_HEAD are both `t`. -/
def UpToDate (t : Commit) (j : Run) : Prop :=
  j.prog = .ret (.exited 0) ∧ ∃ s₁ s₂ s₃ l,
    j.calls = (⟨s₂, ⟨.gitRevParse .fetchHead, true⟩, (0, t), s₃⟩ : Call) :: ⟨s₁, ⟨.gitRevParse .head, true⟩, (0, t), s₂⟩ :: l

variable {repo : Repo} {c₀ : Commit} {s : Host}

theorem left_cons {t : Commit} {h : List Run} (j : Run) (hs : t = c₀ ∨ SeenHealthy t h ∨ Left t h) :
    t = c₀ ∨ SeenHealthy t (j :: h) ∨ Left t (j :: h) := by
  rcases hs with hfirst | ⟨r, hr, hh⟩ | ⟨later, r, older, rfl, hleft, hlater⟩
  · exact Or.inl hfirst
  · exact Or.inr (Or.inl ⟨r, List.mem_cons_of_mem _ hr, hh⟩)
  · by_cases hj : Healthy t j.calls
    · exact Or.inr (Or.inl ⟨j, List.mem_cons_self, hj⟩)
    · refine Or.inr (Or.inr ⟨j :: later, r, older, rfl, hleft, fun r' hr' => ?_⟩)
      rcases List.mem_cons.mp hr' with rfl | hr'
      · exact hj
      · exact hlater r' hr'

/-- Between two runs the checkout is at the first commit, at one that was seen healthy, or
    at one that a run was left at. -/
theorem deployed_or_left {h : List Run} (hr : History (Sem repo) (fun s => s.checkout = c₀) h s) :
    s.checkout = c₀ ∨ SeenHealthy s.checkout h ∨ Left s.checkout h := by
  induction h generalizing s with
  | nil => cases hr with
    | init _ hs => exact Or.inl hs
  | cons j older ih =>
    have hbefore := ih (serial_tail hr)
    obtain ⟨_, _, hphase⟩ := run_phase hr
    cases hphase with
    | before hb => exact hb.checkout ▸ left_cons j hbefore
    | back t hb => exact hb.checkout ▸ left_cons j hbefore
    | away t ha =>
      rw [ha.checkout]
      by_cases hh : Healthy t j.calls
      · exact Or.inr (Or.inl ⟨j, List.mem_cons_self, hh⟩)
      · exact Or.inr (Or.inr ⟨[], j, older, rfl, ⟨ha.merged, hh⟩, fun r hr => by cases hr⟩)

/-- A commit that is found up to date was the first one or seen healthy, if no run was
    left at it. -/
theorem up_to_date_deployed {later older : List Run} {j : Run} {t : Commit}
    (hr : History (Sem repo) (fun s => s.checkout = c₀) (later ++ j :: older) s) (hu : UpToDate t j)
    (hleft : ¬ Left t older) : t = c₀ ∨ SeenHealthy t older := by
  have hr := serial_at hr
  obtain ⟨i, s₀, calls, s', p⟩ := j
  obtain ⟨_, s₁, s₂, s₃, l, hcalls⟩ := hu
  dsimp only at hcalls
  subst hcalls
  obtain ⟨_, hr₂, _⟩ := serial_last hr
  obtain ⟨_, _, _, hbefore⟩ := (run_goes hr₂).1
  obtain ⟨_, _, hhead⟩ := serial_last hr₂
  have ht : t = s₀.checkout := by
    rw [← hbefore.checkout, checkout_kept hhead fun h => h]
    exact head_answer hhead rfl
  rcases deployed_or_left (serial_tail hr) with hfirst | hseen | hl
  · exact Or.inl (ht.trans hfirst)
  · exact Or.inr (ht ▸ hseen)
  · exact absurd (ht ▸ hl) hleft

/-! ## A commit that was deployed -/

theorem runs_at_a (s : Host) (hs : s.checkout = "a") : History (Sem pair) (fun s => s.checkout = "a") [] s := .init s hs

theorem prune_nothing (c : Config) (s : Host) (le : String → String → Bool) :
    Sem pair ⟨.xargsRm (headBut c.keep ([].mergeSort le)), true⟩ s (0, ()) s := by
  have hnone : headBut c.keep ([].mergeSort le) = [] := by
    rw [List.mergeSort_nil, headBut]
    cases number c.keep <;> simp
  refine ⟨s, rfl, rfl, fun h => ?_⟩
  rw [hnone] at h
  cases h

/-- The script on a host whose health check has its variable. -/
def hosted : Invocation := { nightly with environ := fun name => if name = "LORE_WEB_HOST" then some "localhost" else none }

theorem deploys_b : ∃ r : Run, History (Sem pair) (fun s => s.checkout = "a") [r] ⟨"b", "b", none, false, "b"⟩ ∧
    r.start.checkout = "a" ∧ r.prog = .ret (.exited 0) := by
  have hstart : History (Sem pair) (fun s => s.checkout = "a") [⟨hosted, pushed, [], pushed, update hosted false⟩] pushed :=
    .start hosted (runs_at_a pushed rfl)
  have hr := serial_play (answer_sem fun _ => false) 32 hstart
  have hr₁ := Serial.act (0, ()) _ hr (prune_nothing _ _ _)
  have hr₂ := serial_play (answer_sem fun _ => false) 40 hr₁
  exact ⟨_, hr₂, rfl, rfl⟩

theorem healthy_deployed {r : Run} {s : Host} {c₀ : Commit} (hr : History (Sem repo) (fun s => s.checkout = c₀) [r] s)
    (hexit : r.prog = .ret (.exited 0)) (hs : s.checkout ≠ r.start.checkout) : Healthy s.checkout r.calls := by
  obtain ⟨_, hexits⟩ := run_exits hr hexit
  cases hexits with
  | before h => exact absurd h.checkout hs
  | failed _ _ _ hn => exact absurd rfl hn
  | updated t _ haway hh => exact haway.checkout ▸ hh
  | back t hn => exact absurd rfl hn

/-- The next run finds it up to date. -/
theorem up_to_date_next : ∃ (r j : Run) (s : Host), History (Sem pair) (fun s => s.checkout = "a") [j, r] s ∧
    UpToDate "b" j ∧ SeenHealthy "b" [r] := by
  obtain ⟨r, hr, hstart, hexit⟩ := deploys_b
  have hnext := attempt_runs (fun _ => false) hr 60
  have hu : UpToDate "b" (attempt (fun _ => false) ⟨"b", "b", none, false, "b"⟩ 60) := ⟨rfl, _, _, _, _, rfl⟩
  refine ⟨r, _, _, hnext, hu, ?_⟩
  refine (@up_to_date_deployed pair "a" _ [] [r] _ "b" hnext hu fun hleft => ?_).resolve_left (by decide)
  obtain ⟨later, r', older, e, ⟨_, hn⟩, _⟩ := hleft
  have hmem : r' ∈ [r] := e ▸ (by simp)
  rw [List.mem_singleton.mp hmem] at hn
  exact hn (healthy_deployed hr hexit (by rw [hstart]; decide))

/-! ## A commit that was never deployed -/

theorem healthy_up {t : Commit} {l : Calls} (h : Healthy t l) : ∃ x ∈ l, IsUp x := by
  obtain ⟨late, _, rfl, wait, x, early, rfl, hx, _⟩ := h
  exact ⟨x, by simp, hx⟩

/-- A run that is killed right after its merge. -/
def killed : Run := attempt (fun _ => false) pushed 18

/-- The next one takes the target for deployed. -/
theorem up_to_date_undeployed : ¬ ∀ (repo : Repo) (c₀ t : Commit) (older : List Run) (j : Run) (s : Host),
    History (Sem repo) (fun s => s.checkout = c₀) (j :: older) s → UpToDate t j → t = c₀ ∨ SeenHealthy t older := by
  intro h
  have hno : ∀ x ∈ killed.calls, ¬ IsUp x := by decide
  have hkilled : History (Sem pair) (fun s => s.checkout = "a") [killed] killed.state :=
    attempt_runs _ (runs_at_a pushed rfl) 18
  rcases h pair "a" "b" [killed] _ _ (attempt_runs (fun _ => false) hkilled 60) ⟨rfl, _, _, _, _, rfl⟩ with e | ⟨r, hr, hh⟩
  · exact absurd e (by decide)
  · obtain ⟨x, hx, hup⟩ := healthy_up hh
    rw [List.mem_singleton.mp hr] at hx
    exact hno x hx hup

end Kaguya.Ops.Deployed
