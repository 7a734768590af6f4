/-
  Kaguya.Ops.Lock — runs of the deploy script that overlap: the timer's, those begun by
  hand, any number, each making its commands between those of the others and stopped
  anywhere. The script opens `.update.lock` and takes it with `flock -n`, which succeeds
  only while no other run has it; the kernel gives it up when the run, and whatever it
  has started, is gone.

  Up to the lock the script writes nothing, and a run that does not get it says so and ends
  (`goes_update_guarded`). What it reads up to there no run writes, but for `ops/stack.sh`,
  which a merge or a reset of the run that has the lock may replace. So where the commits
  have one `ops/stack.sh` (`Uniform`), runs that overlap are a history of runs one after
  another, which is what the rest of `Kaguya.Ops` is about (`overlapping_runs`). In any
  case they are one but for the text that is sourced (`loose`).
-/

import Kaguya.Lib.Exclusive
import Kaguya.Ops.Gates

namespace Kaguya.Ops.Lock

open Kaguya.Lib
open Kaguya.Lib.Shell
open Kaguya.Ops.Update
open Kaguya.Ops.Runs
open Kaguya.Ops.Functions
open Kaguya.Ops.Gates (Forward Succeeds)

/-! ## What comes before the lock -/

/-- The lock is taken by a `flock` that succeeds. -/
def takes : (c : At Cmd) → Ans Cmd.Out c → Bool
  | ⟨.flock, _⟩, b => b.1 = 0
  | _, _ => false

/-- The commands up to the lock, and those of a run that does not get it. -/
def Opening : Cmd → Prop
  | .testFile path => path = ".env"
  | .cd | .readLines _ | .source _ | .openLock _ | .flock | .complain _ | .echo _ => True
  | _ => False

/-- Others push to the branch, and only forward. -/
def Pushed (repo : Repo) (s s' : Host) : Prop := Moved s s' ∧ repo.ancestor s.origin s'.origin

theorem moved_refl (s : Host) : Moved s s := rfl

theorem moved_trans {s s' s'' : Host} (h : Moved s s') (h' : Moved s' s'') : Moved s s'' := by
  rw [Moved] at h h' ⊢
  rw [h', h]

/-- The commits have one `ops/stack.sh`. -/
def Uniform (repo : Repo) : Prop := ∀ a b text, repo.stackSh a text → repo.stackSh b text

/-- The repository, where `ops/stack.sh` may read as anything. -/
def loose (repo : Repo) : Repo := { repo with stackSh := fun _ _ => True }

theorem uniform_loose (repo : Repo) : Uniform (loose repo) := fun _ _ _ _ => trivial

theorem sem_loose {repo : Repo} {c : At Cmd} {s s' : Host} {b : Ans Cmd.Out c} (h : Sem repo c s b s') :
    Sem (loose repo) c s b s' := by
  obtain ⟨s₁, hm, hd⟩ := h
  refine ⟨s₁, hm, ?_⟩
  obtain ⟨c, plain⟩ := c
  cases c with
  | source _ => exact ⟨hd.1, fun _ => trivial⟩
  | gitRevParse rev => cases rev <;> exact hd
  | curlProbe host _ => cases host <;> exact hd
  | _ => exact hd

theorem opening_does {repo : Repo} (hu : Uniform repo) {c : Cmd} (hc : Opening c) {s s' : Host} {b : Nat × c.Out}
    (h : Does repo s c b s') : s' = s ∧ ∀ t, Does repo t c b t := by
  cases c with
  | testFile path =>
    have hne : path ≠ failedFile := by
      rw [show path = ".env" from hc]
      decide
    exact ⟨h.1, fun t => ⟨rfl, fun e => absurd e hne⟩⟩
  | source _ => exact ⟨h.1, fun t => ⟨rfl, fun hb => hu _ _ _ (h.2 hb)⟩⟩
  | cd | readLines _ | openLock _ | flock | complain _ | echo _ => exact ⟨h, fun _ => rfl⟩
  | _ => exact hc.elim

theorem opening_still {repo : Repo} (hu : Uniform repo) {c : At Cmd} (hc : Opening c.cmd) : Still (Sem repo) Moved c := by
  intro s b s' h
  obtain ⟨s₁, hm, hd⟩ := h
  obtain ⟨rfl, hstill⟩ := opening_does hu hc hd
  exact ⟨hm, fun t => ⟨t, moved_refl t, hstill t⟩⟩

theorem opening_succeeds {c : Cmd} (hc : Opening c) (b : Nat × c.Out) : Succeeds c b := by
  cases c with
  | cd | testFile _ | readLines _ | source _ | openLock _ | flock | complain _ | echo _ => trivial
  | _ => exact hc.elim

theorem opening_still_forward {repo : Repo} (hu : Uniform repo) {c : At Cmd} (hc : Opening c.cmd) :
    Still (Forward repo) (Pushed repo) c := by
  intro s b s' h
  obtain ⟨hsem, _, horigin⟩ := h
  obtain ⟨hm, hstill⟩ := opening_still hu hc s b s' hsem
  exact ⟨⟨hm, horigin⟩, fun t => ⟨hstill t, opening_succeeds hc b, repo.refl _⟩⟩

theorem takes_flock {c : At Cmd} {b : Ans Cmd.Out c} (h : takes c b = true) : Opening c.cmd := by
  obtain ⟨c, plain⟩ := c
  cases c with
  | flock => trivial
  | _ => cases h

/-! ## The script is guarded -/

section Guarded

variable {pre : At Cmd → Log (At Cmd) (Ans Cmd.Out) Unit → Unit → Prop}

/-- Everything is allowed to a run that has the lock. -/
theorem goes_held {α : Type} (hpre : ∀ c l s, Held takes l → pre c l s) {p : Prog (At Cmd) (Ans Cmd.Out) α}
    {l : Log (At Cmd) (Ans Cmd.Out) Unit} {s : Unit} (h : Held takes l) :
    Goes (fun _ _ _ _ => True) pre p (fun _ _ _ => True) l s := by
  induction p generalizing l s with
  | ret a => trivial
  | call c k ih => exact ⟨hpre c l s h, fun b s' _ => ih b (held_cons.mpr (Or.inr h))⟩

variable (hpre : ∀ c l s, Opening c.cmd → pre c l s)
include hpre

theorem keeps_opening : Keeps (fun _ _ _ _ => True) pre (fun c => Opening c.cmd) (fun _ _ => True) (fun _ _ _ => True) :=
  ⟨fun c l s hc _ => hpre c l s hc, fun _ _ _ _ _ _ _ _ _ => trivial, fun _ _ _ _ _ _ _ _ _ _ => trivial⟩

theorem goes_force_guarded {i : Invocation} {Q : Ended String → Log (At Cmd) (Ans Cmd.Out) Unit → Unit → Prop}
    {l : Log (At Cmd) (Ans Cmd.Out) Unit} {s : Unit} (hdone : ∀ force, Q (.done force) l s)
    (hexit : ∀ n l s, Q (.exited n) l s) : Goes (fun _ _ _ _ => True) pre (i.force false) Q l s := by
  rw [Course.force_eq]
  split
  · exact hdone "1"
  split
  · exact hdone "0"
  · exact goes_seq ((keeps_opening hpre).plain trivial trivial (fun n l s _ => hexit n l s) fun _ _ _ _ => hexit 2 _ _)

/-- What gets past the lock has it. -/
theorem goes_start_guarded (i : Invocation) (l : Log (At Cmd) (Ans Cmd.Out) Unit) (s : Unit) :
    Goes (fun _ _ _ _ => True) pre (start i false)
      (Ended.post (fun _ l _ => Held takes l) fun (_ : Ended Nat) _ _ => True) l s := by
  have hk := keeps_opening hpre
  refine goes_seq (hk.plain trivial trivial (fun _ _ _ h => h) fun _ s₁ _ _ => ?_)
  refine goes_seq (goes_force_guarded hpre (fun force => ?_) fun _ _ _ => trivial)
  refine goes_seq (goes_orElse (hk.caught rfl trivial fun _ s₂ _ => ⟨fun _ => ?_, fun _ => ?_⟩))
  · refine goes_seq (hk.assign trivial trivial (fun _ _ _ h => h) fun b₃ s₃ _ _ _ => ?_)
    rw [Ended.post]
    cases exportLines b₃.2 (i.environ.set "force" force) with
    | none => trivial
    | some env =>
      refine goes_seq (hk.special trivial trivial (fun _ _ _ h => h) fun _ s₄ _ _ => ?_)
      refine goes_seq (hk.special trivial trivial (fun _ _ _ h => h) fun _ s₅ _ _ => ?_)
      refine goes_seq (goes_orElse (goes_caught (hpre _ _ _ trivial) fun b₆ s₆ _ => ⟨fun hz => ?_, fun _ => ?_⟩))
      · exact ⟨_, List.mem_cons_self, decide_eq_true hz⟩
      · -- another update is running
        refine goes_seq (goes_calm hk (fun e _ _ he _ => ?_) (fun _ _ _ h => h)
          (calm_log (P := fun c => Opening c.cmd) fun _ => trivial) trivial)
        cases e <;> trivial
  · exact goes_seq (hk.plain trivial trivial (fun _ _ _ h => h) fun _ _ _ _ => trivial)

theorem goes_update_guarded (hheld : ∀ c l s, Held takes l → pre c l s) (i : Invocation) :
    Goes (fun _ _ _ _ => True) pre (update i false) (fun _ _ _ => True) [] () := by
  refine goes_seq (goes_mono (fun e l s he => ?_) (goes_start_guarded hpre i [] ()))
  cases e with
  | done c => exact goes_held hheld he
  | _ => trivial

end Guarded

/-! ## Runs that overlap -/

theorem absorb_sem {repo : Repo} (c : At Cmd) (s s₁ : Host) (b : Ans Cmd.Out c) (s' : Host) (he : Moved s s₁)
    (h : Sem repo c s₁ b s') : Sem repo c s b s' := by
  obtain ⟨s₂, hm, hd⟩ := h
  exact ⟨s₂, moved_trans he hm, hd⟩

section Uniform

variable {repo : Repo} (hu : Uniform repo)
include hu

theorem excludes_sem : Excludes (Sem repo) (fun i => update i false) Moved takes where
  refl := moved_refl
  trans _ _ _ := moved_trans
  absorb := absorb_sem
  taking _ _ h := opening_still hu (takes_flock h)
  guarded := goes_update_guarded (fun _ _ _ hc => Or.inr (opening_still hu hc)) fun _ _ _ hh => Or.inl hh

theorem excludes_forward : Excludes (Forward repo) (fun i => update i false) (Pushed repo) takes where
  refl s := ⟨moved_refl s, repo.refl _⟩
  trans _ _ _ h h' := ⟨moved_trans h.1 h'.1, repo.trans _ _ _ h.2 h'.2⟩
  absorb c s s₁ b s' he h := ⟨absorb_sem c s s₁ b s' he.1 h.1, h.2.1, repo.trans _ _ _ he.2 h.2.2⟩
  taking _ _ h := opening_still_forward hu (takes_flock h)
  guarded := goes_update_guarded (fun _ _ _ hc => Or.inr (opening_still_forward hu hc)) fun _ _ _ hh => Or.inl hh

end Uniform

/-- The same of any commits, but for the text that is sourced. -/
theorem overlap_loose {repo : Repo} {init : Host → Prop} {ps : List (Process Invocation (At Cmd) (Ans Cmd.Out) (Ended Nat))}
    {holder : Option Nat} {s : Host} (ho : Overlap (Sem repo) (fun i => update i false) init Moved takes ps holder s) :
    ∃ h order s₀, History (Sem (loose repo)) init h s₀ ∧ Moved s₀ s ∧ order.Perm (List.range ps.length) ∧
      List.Forall₂ (fun j n => ∃ p, ps[n]? = some p ∧ j.Runs p) h order :=
  overlap_serial (excludes_sem (uniform_loose repo)) (overlap_mono (fun _ _ _ _ => sem_loose) ho)

/-- Where the commits have one `ops/stack.sh`, runs that overlap in any way, stopped
    anywhere or not, are a history of the same runs one after another, each answered and
    left as it was, which comes to the same host; up to what others push and edit. So too
    when git succeeds and origin only moves forward. -/
theorem overlapping_runs (repo : Repo) (hu : Uniform repo) (init : Host → Prop) :
    (∀ ps holder s, Overlap (Sem repo) (fun i => update i false) init Moved takes ps holder s →
      ∃ h order s₀, History (Sem repo) init h s₀ ∧ Moved s₀ s ∧ order.Perm (List.range ps.length) ∧
        List.Forall₂ (fun j n => ∃ p, ps[n]? = some p ∧ j.Runs p) h order) ∧
    ∀ ps holder s, Overlap (Forward repo) (fun i => update i false) init (Pushed repo) takes ps holder s →
      ∃ h order s₀, History (Forward repo) init h s₀ ∧ Pushed repo s₀ s ∧ order.Perm (List.range ps.length) ∧
        List.Forall₂ (fun j n => ∃ p, ps[n]? = some p ∧ j.Runs p) h order :=
  ⟨fun _ _ _ hr => overlap_serial (excludes_sem hu) hr, fun _ _ _ hr => overlap_serial (excludes_forward hu) hr⟩

section Two

open Restore

variable {ps : List (Process Invocation (At Cmd) (Ans Cmd.Out) (Ended Nat))} {holder : Option Nat} {s : Host}

/-- Runs on the host of `Restore`. -/
abbrev Beside (ps : List (Process Invocation (At Cmd) (Ans Cmd.Out) (Ended Nat))) (holder : Option Nat) (s : Host) : Prop :=
  Overlap (Sem pair) (fun i => update i false) (· = pushed) Moved takes ps holder s

/-- The next command of a run. -/
theorem beside_act (fails : Cmd → Bool) (n : Nat) {i : Invocation} {l : Log (At Cmd) (Ans Cmd.Out) Unit} {c : At Cmd}
    {k : Ans Cmd.Out c → Prog (At Cmd) (Ans Cmd.Out) (Ended Nat)} (h : Beside ps holder s)
    (hp : ps[n]? = some ⟨i, l, .call c k, false⟩) (ht : takes c (answer fails c s).1 = true → holder = none) :
    Beside (ps.set n ⟨i, ⟨(), c, (answer fails c s).1, ()⟩ :: l, k (answer fails c s).1, false⟩)
      (if takes c (answer fails c s).1 then some n else holder) (answer fails c s).2 :=
  .act n _ _ h hp (answer_sem fails c s) fun e => Or.inl (ht e)

/-- A run is begun while another has the lock, and ends. -/
theorem beside_refused : ∃ ps, Beside ps (some 0) pushed ∧ (ps.map (·.prog))[1]? = some (.ret (.exited 0)) := by
  have hboth : Beside _ none pushed := .start nightly (.start nightly (.init pushed rfl))
  have hcd := beside_act (fun _ => false) 0 hboth rfl fun _ => rfl
  have henv := beside_act (fun _ => false) 0 hcd rfl fun _ => rfl
  have hread := beside_act (fun _ => false) 0 henv rfl fun _ => rfl
  have hsource := beside_act (fun _ => false) 0 hread rfl fun _ => rfl
  have hopen := beside_act (fun _ => false) 0 hsource rfl fun _ => rfl
  have hlock := beside_act (fun _ => false) 0 hopen rfl fun _ => rfl
  -- the other one
  have hcd' := beside_act (fun _ => false) 1 hlock rfl fun e => by cases e
  have henv' := beside_act (fun _ => false) 1 hcd' rfl fun e => by cases e
  have hread' := beside_act (fun _ => false) 1 henv' rfl fun e => by cases e
  have hsource' := beside_act (fun _ => false) 1 hread' rfl fun e => by cases e
  have hopen' := beside_act (fun _ => false) 1 hsource' rfl fun e => by cases e
  have hlock' := beside_act (· = .flock) 1 hopen' rfl fun e => by cases e
  have hend := beside_act (fun _ => false) 1 hlock' rfl fun e => by cases e
  exact ⟨_, hend, rfl⟩

theorem overlapping_two : ∃ ps, Beside ps (some 0) pushed ∧ (ps.map (·.prog))[1]? = some (.ret (.exited 0)) ∧
    ∃ h order s₀, History (Sem pair) (· = pushed) h s₀ ∧ Moved s₀ pushed ∧ order.Perm (List.range ps.length) ∧
      List.Forall₂ (fun j n => ∃ p, ps[n]? = some p ∧ j.Runs p) h order := by
  obtain ⟨ps, hr, hrefused⟩ := beside_refused
  exact ⟨ps, hr, hrefused, (overlapping_runs pair (fun _ _ _ h => h) (· = pushed)).1 ps _ _ hr⟩

end Two

end Kaguya.Ops.Lock
