/-
  Kaguya.Ops.Advance — where the checkout can be. A merge is `--ff-only` to a target that
  passed the gates, and a reset goes back to where the run began, so over any history of
  runs, forced or not and stopped anywhere, and runs that overlap too, the checkout never
  falls behind where it was when a run began, and it is where it was first or at a target
  that one of the runs let pass (`only_forward`): that passed its gates, forced or not as
  its argument and `.env` have it.
-/

import Kaguya.Ops.Lock

namespace Kaguya.Ops.Advance

open Kaguya.Lib
open Kaguya.Lib.Shell
open Kaguya.Ops.Update
open Kaguya.Ops.Runs
open Kaguya.Ops.Phases
open Kaguya.Ops.Course
open Kaguya.Ops.Lock (overlap_loose takes)

variable {repo : Repo} {init : Host → Prop} {older : List Run} {j : Run} {s : Host} {t : Commit}

/-! ## One run after another -/

/-- The run has let `t` pass its gates. -/
def LetsPass (j : Run) (t : Commit) : Prop := ∃ force, Forced j.info force j.calls ∧ Cleared j.start force t j.calls

/-- A target that was let pass is ahead of where the run began. -/
theorem cleared_ahead (hr : History (Sem repo) init (j :: older) s) {force : Bool} (hc : Cleared j.start force t j.calls) :
    repo.ancestor j.start.checkout t := by
  obtain ⟨s₁, plain, b, s₂, hx, hz⟩ := hc.forward
  obtain ⟨_, _, hd⟩ := serial_sem hr hx
  exact hd.2.1 hz

/-- The last run's part: it stands where it began, or at its target. -/
theorem run_advances (hr : History (Sem repo) init (j :: older) s) :
    s.checkout = j.start.checkout ∨ repo.ancestor j.start.checkout s.checkout ∧ LetsPass j s.checkout := by
  obtain ⟨force, hforced, hphase⟩ := run_phase hr
  cases hphase with
  | before hb => exact Or.inl hb.checkout
  | away t ha =>
    have hahead := cleared_ahead hr ha.cleared
    have hlines := hforced.resolve_left fun hb => ha.ne (ha.checkout.symm.trans hb.checkout)
    exact Or.inr (ha.checkout ▸ ⟨hahead, force, hlines, ha.cleared⟩)
  | back t hb => exact Or.inl hb.checkout

/-- Every run so far began no later than where the checkout is. -/
theorem starts_behind {h : List Run} (hr : History (Sem repo) init h s) :
    ∀ r ∈ h, repo.ancestor r.start.checkout s.checkout := by
  induction h generalizing s with
  | nil =>
    intro r hr
    cases hr
  | cons j older ih =>
    have hlast : repo.ancestor j.start.checkout s.checkout := by
      rcases run_advances hr with he | ⟨hle, _⟩
      · rw [he]
        exact repo.refl _
      · exact hle
    intro r hmem
    rcases List.mem_cons.mp hmem with rfl | hmem
    · exact hlast
    · exact repo.trans _ _ _ (ih (serial_tail hr) r hmem) hlast

theorem checkout_from {c₀ : Commit} {h : List Run} (hr : History (Sem repo) (·.checkout = c₀) h s) :
    repo.ancestor c₀ s.checkout ∧
      (s.checkout = c₀ ∨ ∃ r ∈ h, repo.ancestor c₀ r.start.checkout ∧ LetsPass r s.checkout) := by
  induction h generalizing s with
  | nil => cases hr with
    | init _ hs =>
      rw [hs]
      exact ⟨repo.refl _, Or.inl rfl⟩
  | cons j older ih =>
    obtain ⟨hle, hfrom⟩ := ih (serial_tail hr)
    rcases run_advances hr with he | ⟨hahead, hc⟩
    · rw [he]
      refine ⟨hle, ?_⟩
      rcases hfrom with hfirst | ⟨r, hmem, hc⟩
      · exact Or.inl hfirst
      · exact Or.inr ⟨r, List.mem_cons_of_mem _ hmem, hc⟩
    · exact ⟨repo.trans _ _ _ hle hahead, Or.inr ⟨j, List.mem_cons_self, hle, hc⟩⟩

/-! ## Runs that overlap -/

/-- The run was told so. -/
def Told (l : Log (At Cmd) (Ans Cmd.Out) Unit) (c : Cmd) (b : Nat × c.Out) : Prop :=
  ∃ plain, (⟨(), ⟨c, plain⟩, b, ()⟩ : Answered (At Cmd) (Ans Cmd.Out) Unit) ∈ l

/-- What a run was told about a target that it let pass, from a checkout at `h`. -/
structure Passed (h t : Commit) (l : Log (At Cmd) (Ans Cmd.Out) Unit) : Prop where
  fetched : ∃ branch, Told l (.gitFetch branch) (0, ())
  target : Told l (.gitRevParse .fetchHead) (0, t)
  clean : Told l .gitDiffQuiet (0, ())
  forward : Told l (.gitIsAncestor h t) (0, ())
  inputs : Told l (.gitDiffNameOnly h t setupInputs) (0, [])

theorem told_of_made {l : Calls} {c : Cmd} {P : Host → Nat × c.Out → Host → Prop} {b : Nat × c.Out} (h : Made l c P)
    (hp : ∀ s b' s', P s b' s' → b' = b) : Told (l.map Answered.strip) c b := by
  obtain ⟨s₁, plain, b', s₂, hx, hP⟩ := h
  have hb := hp _ _ _ hP
  subst hb
  exact ⟨plain, List.mem_map.mpr ⟨_, hx, rfl⟩⟩

theorem passed_of_cleared {s₀ : Host} {force : Bool} {l : Calls} (h : Cleared s₀ force t l) :
    Passed s₀.checkout t (l.map Answered.strip) where
  fetched := by
    obtain ⟨branch, hm⟩ := h.fetched
    exact ⟨branch, told_of_made hm fun _ _ _ hp => Prod.ext hp.1 rfl⟩
  target := told_of_made h.target fun _ _ _ hp => Prod.ext hp.1 hp.2
  clean := told_of_made h.clean fun _ _ _ hp => Prod.ext hp rfl
  forward := told_of_made h.forward fun _ _ _ hp => Prod.ext hp rfl
  inputs := told_of_made h.inputs fun _ _ _ hp => Prod.ext hp.1 hp.2

/-- Over any history the checkout is no commit before one that a run began at, and is the
    first or a target that passed a run's gates; and so in every state of runs that
    overlap. -/
theorem only_forward (repo : Repo) (c₀ : Commit) :
    (∀ h s, History (Sem repo) (·.checkout = c₀) h s → (∀ r ∈ h, repo.ancestor r.start.checkout s.checkout) ∧
      repo.ancestor c₀ s.checkout ∧
      (s.checkout = c₀ ∨ ∃ r ∈ h, repo.ancestor c₀ r.start.checkout ∧ LetsPass r s.checkout)) ∧
    ∀ ps holder s, Overlap (Sem repo) (fun i => update i false) (·.checkout = c₀) Moved takes ps holder s →
      repo.ancestor c₀ s.checkout ∧
      (s.checkout = c₀ ∨ ∃ p ∈ ps, ∃ h, repo.ancestor c₀ h ∧ Passed h s.checkout p.calls) := by
  refine ⟨fun h s hr => ⟨starts_behind hr, checkout_from hr⟩, fun ps holder s ho => ?_⟩
  obtain ⟨h, order, s₀, hr, hm, _, hruns⟩ := overlap_loose ho
  have hs : s.checkout = s₀.checkout := by rw [show s = _ from hm]
  obtain ⟨hle, hfrom⟩ := checkout_from hr
  rw [hs]
  refine ⟨hle, ?_⟩
  rcases hfrom with hfirst | ⟨r, hmem, hstart, _, _, hc⟩
  · exact Or.inl hfirst
  · obtain ⟨n, p, hn, hp⟩ := forall₂_mem_right hruns.flip hmem
    refine Or.inr ⟨p, List.mem_of_getElem? hn, _, hstart, ?_⟩
    rw [← hp.calls]
    exact passed_of_cleared hc

end Kaguya.Ops.Advance
