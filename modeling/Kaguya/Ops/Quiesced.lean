/-
  Kaguya.Ops.Quiesced — what a backup copies is at rest. `stack_backup` stops the writers
  (the containers of `lore` and `auth`) before it copies their volumes; they stay stopped
  until a `docker compose up -d` (`restart: unless-stopped`).

  Added to the host is whether a writer may be running. Proved: in every state of runs
  that overlap in any way, a run that is about to copy a volume finds the writers stopped
  (`backups_quiesced`): its own stop has succeeded, and no other run brings them up
  meanwhile, since it has the lock.
-/

import Kaguya.Ops.Lock
import Kaguya.Ops.Shape

namespace Kaguya.Ops.Quiesced

open Kaguya.Lib
open Kaguya.Lib.Shell
open Kaguya.Ops.Update
open Kaguya.Ops.Runs
open Kaguya.Ops.Shape
open Kaguya.Ops.Lock

/-- The host, and whether a writer may be running. -/
structure Stack where
  host : Host
  writers : Bool

/-- What a command does to the writers. -/
def Writes : Cmd → Nat → Bool → Bool → Prop
  | .composeStop services, n, up, up' => (up' = true → up = true) ∧ (n = 0 → "lore" ∈ services → "auth" ∈ services → up' = false)
  | .composeUp, _, _, _ => True
  | _, _, up, up' => up' = up

variable (repo : Repo)

def StackSem (c : At Cmd) (s : Stack) (b : Ans Cmd.Out c) (s' : Stack) : Prop :=
  Sem repo c s.host b s'.host ∧ Writes c.cmd b.1 s.writers s'.writers

/-- Others push and edit, and leave the writers. -/
def StackMoved (s s' : Stack) : Prop := Moved s.host s'.host ∧ s'.writers = s.writers

/-- Copies a volume. -/
def Copies : Cmd → Prop
  | .tarVolume .. => True
  | _ => False

/-- The writers are stopped where a volume is copied. -/
def AtRest (c : At Cmd) (_ : Log (At Cmd) (Ans Cmd.Out) Stack) (s : Stack) : Prop := Copies c.cmd → s.writers = false

/-! ## The script -/

variable {repo} {l : Log (At Cmd) (Ans Cmd.Out) Stack} {s : Stack}

/-- Where no volume is copied nothing is asked of the writers. -/
theorem elsewhere : Congruence (fun c => ¬ Copies c) (Well (StackSem repo) AtRest (fun _ => True) True) :=
  congruence_goes True (fun _ _ _ hc _ ht => absurd ht hc) fun _ _ _ _ _ _ _ => trivial

/-- While they are stopped they stay so, but for `up -d`. -/
theorem stopped : Congruence (fun c => c ≠ .composeUp) (Well (StackSem repo) AtRest (fun s => s.writers = false) True) := by
  refine congruence_goes True (fun _ _ _ _ hs _ => hs) fun c s b s' hc hs h => ?_
  obtain ⟨c, plain⟩ := c
  obtain ⟨_, hw⟩ := h
  cases c with
  | composeUp => exact absurd rfl hc
  | composeStop services =>
    cases hup : s'.writers with
    | false => rfl
    | true =>
      have := hw.1 hup
      rw [hs] at this
      cases this
  | _ => exact hw.trans hs

/-- Success means that they are stopped. -/
def StoppedIf (e : Ended Nat) (_ : Log (At Cmd) (Ans Cmd.Out) Stack) (s : Stack) : Prop :=
  ∀ n, e = .done n → n = 0 → s.writers = false

theorem goes_stopped {a b : Sh Nat} {ign : Bool} (ha : Goes (StackSem repo) AtRest (a true) StoppedIf l s)
    (hb : Alike (Well (StackSem repo) AtRest (fun s => s.writers = false) True) b b) :
    Goes (StackSem repo) AtRest (andThen a b ign) StoppedIf l s := by
  refine goes_andThen (goes_mono (fun e l' s' he => ?_) ha)
  cases e with
  | done n =>
    refine ⟨fun hn => goes_mono (fun e l'' s'' h => ?_) (hb ign l' s' (he n rfl hn)), fun hn m e hm => ?_⟩
    · exact fun _ _ _ => h.1
    · cases e
      exact absurd hm hn
  | _ => exact fun n e => by cases e

theorem goes_stop {services : List String} (hlore : "lore" ∈ services) (hauth : "auth" ∈ services) :
    Goes (StackSem repo) AtRest (simple (.composeStop services) true) StoppedIf l s := by
  refine goes_caught (fun h => h.elim) fun b s' hs n e hn => ?_
  cases e
  exact hs.2.2 hn hlore hauth

theorem alike_stackBackup (dir : String) :
    Alike (Well (StackSem repo) AtRest (fun _ => True) True) (stackBackup dir) (stackBackup dir) := by
  intro ign l s _
  have hvolume : ∀ service path out, Alike (Well (StackSem repo) AtRest (fun s => s.writers = false) True)
      (backupVolume service path out) (backupVolume service path out) := by
    intro service path out
    exact alike_backupVolume stopped (fun _ h => by cases h) (fun _ h => by cases h) (fun _ _ _ h => by cases h) _ _ _
  refine goes_bind (goes_mono (fun e l' s' _ => ?_)
    (goes_stopped (goes_stopped (goes_stopped (goes_stop (by decide) (by decide)) (hvolume _ _ _)) (hvolume _ _ _))
      (hvolume _ _ _)))
  cases e with
  | done n | returned n =>
    rw [Ended.leaves, check]
    exact ⟨trivial, fun _ => trivial⟩
  | exited n => exact ⟨trivial, fun _ => trivial⟩
  | cut => exact ⟨trivial, fun _ => trivial⟩

/-- A run copies only what is at rest. -/
theorem goes_at_rest (i : Invocation) (s : Stack) :
    Goes (StackSem repo) AtRest (update i false) (fun _ _ _ => True) [] s := by
  have houtside : Congruence Outside (Well (StackSem repo) AtRest (fun _ => True) True) := by
    refine congruence_goes True (fun c _ _ hc _ ht => ?_) fun _ _ _ _ _ _ _ => trivial
    obtain ⟨c, plain⟩ := c
    cases c with
    | tarVolume _ _ _ => exact hc.elim
    | _ => exact ht.elim
  have hleaves : ∀ c, Leaves (Well (StackSem repo) AtRest (fun _ => True) True) i.rounds i.rounds c c := by
    intro c
    refine ⟨fun title body => ?_, alike_stackBackup, ?_⟩
    · exact alike_notify elsewhere (fun _ h => h) (fun _ _ _ h => h) c title body
    · refine alike_wait elsewhere (fun h => h) fun deadline => ?_
      exact alike_while elsewhere (fun _ _ _ => ⟨trivial, fun _ => trivial⟩)
        (fun _ => alike_before elsewhere (fun h => h) deadline)
        (fun streak => alike_poll elsewhere (fun h => h) (fun _ _ h => h) (fun _ h => h) c streak) i.rounds 0
  exact goes_mono (fun _ _ _ _ => trivial) (alike_update houtside hleaves false [] s trivial)

/-! ## Runs that overlap -/

theorem opening_stack (hu : Uniform repo) {c : At Cmd} (hc : Opening c.cmd) : Still (StackSem repo) StackMoved c := by
  intro s b s' h
  obtain ⟨hsem, hw⟩ := h
  obtain ⟨hm, hstill⟩ := opening_still hu hc s.host b s'.host hsem
  have hwrites : ∀ up up', Writes c.cmd b.1 up up' ↔ up' = up := by
    intro up up'
    obtain ⟨c, plain⟩ := c
    cases c with
    | composeStop _ | composeUp => exact hc.elim
    | _ => exact Iff.rfl
  exact ⟨⟨hm, (hwrites _ _).mp hw⟩, fun t => ⟨hstill t.host, (hwrites _ _).mpr rfl⟩⟩

theorem excludes_stack (hu : Uniform repo) : Excludes (StackSem repo) (fun i => update i false) StackMoved takes where
  refl s := ⟨moved_refl s.host, rfl⟩
  trans _ _ _ h h' := ⟨moved_trans h.1 h'.1, h'.2.trans h.2⟩
  absorb c s s₁ b s' he h := by
    obtain ⟨hm, hup⟩ := he
    refine ⟨absorb_sem c _ _ b _ hm h.1, ?_⟩
    rw [← hup]
    exact h.2
  taking _ _ h := opening_stack hu (takes_flock h)
  guarded := goes_update_guarded (fun _ _ _ hc => Or.inr (opening_stack hu hc)) fun _ _ _ hh => Or.inl hh

variable {init : Stack → Prop} {older : List (Job Invocation (At Cmd) (Ans Cmd.Out) (Ended Nat) Stack)}
variable {j : Job Invocation (At Cmd) (Ans Cmd.Out) (Ended Nat) Stack}

theorem run_at_rest (hr : Serial (StackSem repo) (fun i => update i false) init (j :: older) s) :
    Goes (StackSem repo) AtRest j.prog (fun _ _ _ => True) j.calls s := by
  have hbody : ∀ i s₀, Goes (StackSem repo) ((fun (_ : Invocation) (_ : Stack) => AtRest) i s₀) (update i false)
      ((fun (_ : Invocation) (_ : Stack) _ _ _ => True) i s₀) [] s₀ := goes_at_rest
  exact serial_goes hbody hr

/-- A copy that was made was made at rest. -/
theorem copied_at_rest (hr : Serial (StackSem repo) (fun i => update i false) init (j :: older) s)
    {x : Answered (At Cmd) (Ans Cmd.Out) Stack} (hx : x ∈ j.calls) (hc : Copies x.call.cmd) : x.before.writers = false := by
  have hs := serial_state hr
  obtain ⟨i, s₀, l, s', p⟩ := j
  dsimp only at hs hx
  subst hs
  obtain ⟨late, early, rfl⟩ := List.append_of_mem hx
  obtain ⟨k, hcall, _, _⟩ := serial_call hr
  exact (run_at_rest hcall).1 hc

/-- Of runs one after another each copies volumes only where the writers are stopped. And
    whatever overlaps, stops or fails: a run that is about to copy one has the lock, and
    finds the writers stopped. -/
theorem backups_quiesced (repo : Repo) (init : Stack → Prop) :
    (∀ h s, Serial (StackSem repo) (fun i => update i false) init h s → ∀ j ∈ h, ∀ x ∈ j.calls, Copies x.call.cmd →
      x.before.writers = false) ∧
    ∀ ps holder s n i l c k, Overlap (StackSem repo) (fun i => update i false) init StackMoved takes ps holder s →
      ps[n]? = some ⟨i, l, .call c k, false⟩ → Copies c.cmd → holder = some n ∧ s.writers = false := by
  refine ⟨fun h s hr j hj x hx hc => ?_, fun ps holder s n i l c k ho hn hc => ?_⟩
  · obtain ⟨later, older, rfl⟩ := List.append_of_mem hj
    exact copied_at_rest (serial_at hr) hx hc
  -- it has taken the lock
  have hguarded : Goes (fun _ (_ : Unit) _ _ => True) (fun c l _ => Held takes l ∨ Opening c.cmd) (.call c k)
      (fun _ _ _ => True) l () :=
    overlap_goes (goes_update_guarded (fun _ _ _ hc => Or.inr hc) fun _ _ _ hh => Or.inl hh) ho n _ hn
  have hheld : Held takes l := by
    refine hguarded.1.resolve_right fun hopen => ?_
    obtain ⟨c, plain⟩ := c
    cases c with
    | tarVolume _ _ _ => exact hopen.elim
    | _ => exact hc.elim
  -- so it is the last run of a series, which comes to where it stands
  have hx := excludes_stack (uniform_loose repo)
  have ho : Overlap (StackSem (loose repo)) (fun i => update i false) init StackMoved takes ps holder s :=
    overlap_mono (fun _ _ _ _ hs => ⟨sem_loose hs.1, hs.2⟩) ho
  obtain ⟨j, older, s₀, hser, hm, hj⟩ := overlap_current hx ho hn hheld rfl
  have hgoes := run_at_rest hser
  rw [hj.prog] at hgoes
  have hrest : s₀.writers = false := hgoes.1 hc
  refine ⟨?_, hm.2.trans hrest⟩
  obtain ⟨h, order, s₁, hordered⟩ := overlap_ordered hx ho
  exact hordered.live n _ hn hheld rfl

/-! ## Two runs -/

open Restore

/-- The answers of `Restore`, and what they do to the writers. -/
def stackAnswer (c : At Cmd) (s : Stack) : Ans Cmd.Out c × Stack :=
  ((answer (fun _ => false) c s.host).1, ⟨(answer (fun _ => false) c s.host).2, match c.cmd with
    | .composeStop _ => false
    | .composeUp => true
    | _ => s.writers⟩)

theorem stackAnswer_sem (c : At Cmd) (s : Stack) : StackSem pair c s (stackAnswer c s).1 (stackAnswer c s).2 := by
  refine ⟨answer_sem _ c s.host, ?_⟩
  obtain ⟨c, plain⟩ := c
  cases c with
  | composeStop services => exact ⟨fun e => (by cases e), fun _ _ _ => rfl⟩
  | composeUp => trivial
  | _ => rfl

/-- The writers run, and there is a commit to deploy. -/
def busy : Stack := ⟨pushed, true⟩

/-- A run, for at most `n` commands. -/
def stackRun (n : Nat) : Job Invocation (At Cmd) (Ans Cmd.Out) (Ended Nat) Stack :=
  Job.play stackAnswer n ⟨nightly, busy, [], busy, update nightly false⟩

/-- A run that deploys copies what it has stopped; and one that is about to copy finds it
    stopped while another has come to the lock. -/
theorem backups_quiesced_two :
    (∃ x ∈ (stackRun 60).calls, Copies x.call.cmd ∧ busy.writers = true ∧ x.before.writers = false) ∧
    ∃ ps holder s l c k, Overlap (StackSem pair) (fun i => update i false) (· = busy) StackMoved takes ps holder s ∧
      ps[0]? = some ⟨nightly, l, .call c k, false⟩ ∧ Copies c.cmd ∧ (ps.map (·.calls.length))[1]? = some 5 ∧
      holder = some 0 ∧ s.writers = false := by
  obtain ⟨serial, overlap⟩ := backups_quiesced pair (· = busy)
  have hrun : Serial (StackSem pair) (fun i => update i false) (· = busy) [stackRun 60] (stackRun 60).state :=
    serial_play stackAnswer_sem 60 (.start nightly (.init busy rfl))
  refine ⟨⟨_, List.mem_of_getElem? (i := 6) rfl, trivial, rfl, ?_⟩, ?_⟩
  · exact serial _ _ hrun _ List.mem_cons_self _ (List.mem_of_getElem? (i := 6) rfl) trivial
  -- the other comes to the lock
  have h₀ : Overlap (StackSem pair) (fun i => update i false) (· = busy) StackMoved takes _ none busy :=
    .start nightly (.start nightly (.init busy rfl))
  have h₁ := Overlap.act 1 _ _ h₀ rfl (stackAnswer_sem _ _) fun e => by cases e
  have h₂ := Overlap.act 1 _ _ h₁ rfl (stackAnswer_sem _ _) fun e => by cases e
  have h₃ := Overlap.act 1 _ _ h₂ rfl (stackAnswer_sem _ _) fun e => by cases e
  have h₄ := Overlap.act 1 _ _ h₃ rfl (stackAnswer_sem _ _) fun e => by cases e
  have h₅ := Overlap.act 1 _ _ h₄ rfl (stackAnswer_sem _ _) fun e => by cases e
  obtain ⟨ps, holder, h, hp, hothers, _⟩ := overlap_play stackAnswer_sem 26 h₅ (n := 0)
    (j := ⟨nightly, busy, [], busy, update nightly false⟩) rfl rfl (Or.inl rfl)
  have hcopies := overlap _ _ _ 0 _ _ _ _ h hp trivial
  refine ⟨ps, holder, _, _, _, _, h, hp, trivial, ?_, hcopies⟩
  rw [List.getElem?_map, hothers 1 (by decide)]
  rfl

end Kaguya.Ops.Quiesced
