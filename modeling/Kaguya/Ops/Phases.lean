/-
  Kaguya.Ops.Phases — what a run of the deploy script has done, by where it stands.
  Before the merge the checkout is where the run found it (`Before`). From the merge on
  it is at the target (`Away`), which has passed the gates (`Cleared`). A reset brings it
  back (`Back`).
-/

import Kaguya.Ops.Runs

namespace Kaguya.Ops.Phases

open Kaguya.Lib
open Kaguya.Lib.Shell
open Kaguya.Ops.Update
open Kaguya.Ops.Runs

/-! ## What a log tells -/

/-- The command was run, with `P` of the host before, the answer and the host after. -/
def Made (l : Calls) (c : Cmd) (P : Host → Nat × c.Out → Host → Prop) : Prop :=
  ∃ s plain b s', (⟨s, ⟨c, plain⟩, b, s'⟩ : Call) ∈ l ∧ P s b s'

theorem Made.cons {l : Calls} {c : Cmd} {P : Host → Nat × c.Out → Host → Prop} (h : Made l c P) (x : Call) :
    Made (x :: l) c P := by
  obtain ⟨s, plain, b, s', hx, hp⟩ := h
  exact ⟨s, plain, b, s', List.mem_cons_of_mem _ hx, hp⟩

theorem made_here {l : Calls} {c : Cmd} {P : Host → Nat × c.Out → Host → Prop} {s s' : Host} {plain : Bool}
    {b : Nat × c.Out} (h : P s b s') : Made ((⟨s, ⟨c, plain⟩, b, s'⟩ : Call) :: l) c P :=
  ⟨s, plain, b, s', List.mem_cons_self, h⟩

/-- The command failed, and nothing caught that. -/
def Unguarded (x : Call) : Prop := x.call.plain = true ∧ x.ans.1 ≠ 0

/-- No command fails unguarded while the checkout is away from `h`. -/
def Smooth (h : Commit) (l : Calls) : Prop := ∀ x ∈ l, Unguarded x → x.before.checkout = h

def IsMerge (t : Commit) (x : Call) : Prop := x.call.cmd = .gitMerge t ∧ x.ans.1 = 0

instance (t : Commit) (x : Call) : Decidable (IsMerge t x) := inferInstanceAs (Decidable (_ ∧ _))

def IsReset (x : Call) : Prop := (∃ t, x.call.cmd = .gitReset t) ∧ x.ans.1 = 0

/-- The last merge was to `t`, and nothing was reset since. -/
def MergedTo (t : Commit) (l : Calls) : Prop :=
  ∃ late x early, l = late ++ x :: early ∧ IsMerge t x ∧ ∀ y ∈ late, ¬ IsReset y

def IsStop (x : Call) : Prop := ∃ services, x.call.cmd = .composeStop services

def IsUp (x : Call) : Prop := x.call.cmd = .composeUp

/-- Services were stopped, and `docker compose up -d` was not run since. -/
def Owed (l : Calls) : Prop := ∃ late x early, l = late ++ x :: early ∧ IsStop x ∧ ∀ y ∈ late, ¬ IsUp y

instance (x : Call) : Decidable (IsUp x) := inferInstanceAs (Decidable (_ = _))

def stops : Cmd → Bool
  | .composeStop _ => true
  | _ => false

instance (x : Call) : Decidable (IsStop x) := decidable_of_iff (stops x.call.cmd = true) <| by
  rw [IsStop]
  cases x.call.cmd <;> simp [stops]

theorem Smooth.cons {h : Commit} {l : Calls} {x : Call} (hl : Smooth h l) (hx : Unguarded x → x.before.checkout = h) :
    Smooth h (x :: l) := by
  intro y hy hu
  rcases List.mem_cons.mp hy with rfl | hy
  · exact hx hu
  · exact hl y hy hu

theorem MergedTo.cons {t : Commit} {l : Calls} {x : Call} (h : MergedTo t l) (hx : ¬ IsReset x) : MergedTo t (x :: l) := by
  obtain ⟨late, y, early, rfl, hy, hlate⟩ := h
  refine ⟨x :: late, y, early, rfl, hy, fun z hz => ?_⟩
  rcases List.mem_cons.mp hz with rfl | hz
  · exact hx
  · exact hlate z hz

/-- What is owed after one more command. -/
theorem owed_cons {l : Calls} {x : Call} : Owed (x :: l) ↔ IsStop x ∨ (Owed l ∧ ¬ IsUp x) := by
  refine ⟨fun h => ?_, fun h => ?_⟩
  · obtain ⟨late, y, early, e, hy, hlate⟩ := h
    cases late with
    | nil =>
      cases e
      exact Or.inl hy
    | cons z late =>
      cases e
      exact Or.inr ⟨⟨late, y, early, rfl, hy, fun w hw => hlate w (List.mem_cons_of_mem _ hw)⟩,
        hlate _ List.mem_cons_self⟩
  · rcases h with h | h
    · exact ⟨[], x, l, rfl, h, fun y hy => by cases hy⟩
    · obtain ⟨⟨late, y, early, rfl, hy, hlate⟩, hx⟩ := h
      refine ⟨x :: late, y, early, rfl, hy, fun z hz => ?_⟩
      rcases List.mem_cons.mp hz with rfl | hz
      · exact hx
      · exact hlate z hz

instance decidableOwed : (l : Calls) → Decidable (Owed l)
  | [] => .isFalse fun h => by
    obtain ⟨late, x, early, e, _⟩ := h
    cases late <;> cases e
  | x :: l =>
    have := decidableOwed l
    decidable_of_iff (IsStop x ∨ Owed l ∧ ¬ IsUp x) owed_cons.symm

/-! ## Polls -/

def IsDate (t : Option Int) (x : Call) : Prop := ∃ s plain n s', x = ⟨s, ⟨.dateSeconds, plain⟩, (n, t), s'⟩

/-- `services_ok` passes. -/
def ServicesPass (x : Call) : Prop :=
  ∃ s plain out s', x = ⟨s, ⟨.composePs, plain⟩, (0, out), s'⟩ ∧ out ≠ [] ∧ out.all running = true

/-- `stack_health` passes. -/
def ProbePasses (x : Call) : Prop := ∃ host path, x.call.cmd = .curlProbe host path ∧ x.ans.1 = 0

def IsSleep (x : Call) : Prop := x.call.cmd = .sleep 5

/-- A passing poll that was begun before the deadline, newest first. -/
def PassingPoll (deadline : Int) (l : Calls) : Prop :=
  ∃ x y z now, l = [z, y, x] ∧ IsDate (some now) x ∧ now < deadline ∧ ServicesPass y ∧ ProbePasses z

/-- The log of a wait ends with `n` passing polls one after another, each slept after. -/
inductive Streak (deadline : Int) : Nat → Calls → Prop
  | zero (l : Calls) : Streak deadline 0 l
  | succ {n : Nat} {l p : Calls} {w : Call} : Streak deadline n l → PassingPoll deadline p → IsSleep w →
      Streak deadline (n + 1) (w :: (p ++ l))

/-- The log of a wait that has passed: three consecutive passing polls end it, each begun
    before the deadline that was set when it started. -/
def Waited (l : Calls) : Prop :=
  ∃ p polls x start, l = p ++ polls ++ [x] ∧ IsDate start x ∧
    PassingPoll (start.getD 0 + healthTimeout) p ∧ Streak (start.getD 0 + healthTimeout) 2 polls

/-- `t` has just been brought up and waited for. -/
def JustHealthy (t : Commit) (l : Calls) : Prop :=
  ∃ wait x early, l = wait ++ x :: early ∧ IsUp x ∧ x.ans.1 = 0 ∧ x.before.checkout = t ∧ Waited wait ∧
    ∀ y ∈ wait, y.before.checkout = t

/-- `t` was brought up with `docker compose up -d` and passed `wait_healthy`. -/
def Healthy (t : Commit) (l : Calls) : Prop := ∃ late early, l = late ++ early ∧ JustHealthy t early

theorem Healthy.cons {t : Commit} {l : Calls} (h : Healthy t l) (x : Call) : Healthy t (x :: l) := by
  obtain ⟨late, early, rfl, h⟩ := h
  exact ⟨x :: late, early, rfl, h⟩

/-! ## Phases -/

/-- Commands that change nothing of the host but what git fetched, read no revision and
    do not report a deploy. -/
def Quiet : Cmd → Prop
  | .gitRevParse _ | .gitMerge _ | .gitReset _ | .composeStop _ | .composeUp | .write .. | .rm _ => False
  | .echo (.notice title _) => title ≠ "updated"
  | _ => True

/-- What is run before the merge. -/
def Early : Cmd → Prop
  | .gitRevParse _ => True
  | c => Quiet c

/-- The record of the failed commit, where there was one, was read without failure. -/
def RecordRead (l : Calls) : Prop :=
  ∀ x ∈ l, x.call.cmd = .testFile failedFile ∨ x.call.cmd = .cat failedFile → x.before.failed ≠ none → x.ans.1 = 0

theorem RecordRead.tail {l : Calls} {x : Call} (h : RecordRead (x :: l)) : RecordRead l :=
  fun y hy => h y (List.mem_cons_of_mem _ hy)

/-- The gates let the target `t` pass, in the run that started in `s₀`. -/
structure Cleared (s₀ : Host) (force : Bool) (t : Commit) (l : Calls) : Prop where
  fetched : ∃ branch, Made l (.gitFetch branch) fun _ b s' => b.1 = 0 ∧ s'.fetchHead = t
  target : Made l (.gitRevParse .fetchHead) fun _ b _ => b.1 = 0 ∧ b.2 = t
  clean : Made l .gitDiffQuiet fun _ b _ => b.1 = 0
  forward : Made l (.gitIsAncestor s₀.checkout t) fun _ b _ => b.1 = 0
  retried : force = false → RecordRead l → s₀.failed ≠ some t
  inputs : Made l (.gitDiffNameOnly s₀.checkout t setupInputs) fun _ b _ => b.1 = 0 ∧ b.2 = []
  unmarked : force = false → Made l (.gitLog s₀.checkout t) fun _ b _ => grepQF manualMark b.2 ≠ 0

theorem Cleared.cons {s₀ : Host} {force : Bool} {t : Commit} {l : Calls} (hc : Cleared s₀ force t l) (x : Call) :
    Cleared s₀ force t (x :: l) where
  fetched := hc.fetched.imp fun _ hm => hm.cons x
  target := hc.target.cons x
  clean := hc.clean.cons x
  forward := hc.forward.cons x
  retried hf hr := hc.retried hf hr.tail
  inputs := hc.inputs.cons x
  unmarked hf := (hc.unmarked hf).cons x

/-- The backup of `stack_backup` and of the configuration is complete. -/
structure BackedUp (dir : String) (l : Calls) : Prop where
  config : Made l (.tarFiles (dir ++ "/config.tgz") (".env" :: configFiles)) fun _ b _ => b.1 = 0
  stopped : Made l (.composeStop ["lore", "auth"]) fun _ b _ => b.1 = 0
  keys : ∃ cid, Made l (.tarVolume cid "/keys" (dir ++ "/auth-keys.tgz")) fun _ b _ => b.1 = 0
  auth : ∃ cid, Made l (.tarVolume cid "/data" (dir ++ "/auth-data.tgz")) fun _ b _ => b.1 = 0
  lore : ∃ cid, Made l (.tarVolume cid "/data" (dir ++ "/lore-data.tgz")) fun _ b _ => b.1 = 0

/-- Only `t` was recorded as failed. -/
def Records (t : Commit) (l : Calls) : Prop := ∀ x ∈ l, ∀ path text, x.call.cmd = .write path text → text = t

theorem Records.cons {t : Commit} {l : Calls} {x : Call} (hl : Records t l)
    (hx : ∀ path text, x.call.cmd = .write path text → text = t) : Records t (x :: l) := by
  intro y hy
  rcases List.mem_cons.mp hy with rfl | hy
  · exact hx
  · exact hl y hy

/-- The record of the failed commit is as the run found it. -/
structure Untouched (s₀ : Host) (l : Calls) (s : Host) : Prop where
  failed : s.failed = s₀.failed
  calls : ∀ x ∈ l, ¬ TouchesRecord x.call.cmd

theorem BackedUp.cons {dir : String} {l : Calls} (h : BackedUp dir l) (x : Call) : BackedUp dir (x :: l) where
  config := h.config.cons x
  stopped := h.stopped.cons x
  keys := h.keys.imp fun _ hm => hm.cons x
  auth := h.auth.imp fun _ hm => hm.cons x
  lore := h.lore.imp fun _ hm => hm.cons x

section Phases

variable (s₀ : Host)

/-- The run has not come to its merge. -/
structure Before (l : Calls) (s : Host) : Prop where
  checkout : s.checkout = s₀.checkout
  failed : s.failed = s₀.failed
  early : ∀ x ∈ l, Early x.call.cmd ∨ ∃ t, x.call.cmd = .gitMerge t ∧ x.ans.1 ≠ 0
  smooth : Smooth s₀.checkout l

/-- The checkout is at the target. -/
structure Away (force : Bool) (t : Commit) (l : Calls) (s : Host) : Prop where
  cleared : Cleared s₀ force t l
  ne : t ≠ s₀.checkout
  checkout : s.checkout = t
  merged : MergedTo t l
  records : Records t l

/-- The checkout was reset. -/
structure Back (force : Bool) (t : Commit) (l : Calls) (s : Host) : Prop where
  cleared : Cleared s₀ force t l
  checkout : s.checkout = s₀.checkout
  failed : Untouched s₀ l s ∨ s.failed = some t
  records : Records t l

inductive Phase (force : Bool) (l : Calls) (s : Host) : Prop
  | before : Before s₀ l s → Phase force l s
  | away (t : Commit) : Away s₀ force t l s → Phase force l s
  | back (t : Commit) : Back s₀ force t l s → Phase force l s

end Phases

/-! ## Steps -/

theorem Quiet.keeps_checkout {c : Cmd} (h : Quiet c) : ¬ MovesCheckout c := by
  intro hm
  cases c with
  | gitMerge _ => exact h
  | gitReset _ => exact h
  | _ => exact hm

theorem Quiet.keeps_record {c : Cmd} (h : Quiet c) : ¬ TouchesRecord c := by
  intro hm
  cases c with
  | write _ _ => exact h
  | rm _ => exact h
  | _ => exact hm

theorem Quiet.early {c : Cmd} (h : Quiet c) : Early c := by
  cases c with
  | gitRevParse _ => trivial
  | _ => exact h

theorem Early.keeps_checkout {c : Cmd} (h : Early c) : ¬ MovesCheckout c := by
  cases c with
  | gitRevParse _ => exact fun hm => hm
  | _ => exact Quiet.keeps_checkout h

theorem Early.keeps_record {c : Cmd} (h : Early c) : ¬ TouchesRecord c := by
  cases c with
  | gitRevParse _ => exact fun hm => hm
  | _ => exact Quiet.keeps_record h

section Step

variable {s₀ : Host} {force : Bool} {repo : Repo} {t : Commit} {l : Calls} {s s' : Host} {c : At Cmd} {b : Ans Cmd.Out c}

theorem Before.step (h : Before s₀ l s) (hs : Sem repo c s b s') (hc : Early c.cmd) :
    Before s₀ (⟨s, c, b, s'⟩ :: l) s' where
  checkout := (checkout_kept hs hc.keeps_checkout).trans h.checkout
  failed := (failed_kept hs hc.keeps_record).trans h.failed
  early x hx := by
    rcases List.mem_cons.mp hx with rfl | hx
    · exact Or.inl hc
    · exact h.early x hx
  smooth := h.smooth.cons fun _ => h.checkout

theorem Untouched.step (h : Untouched s₀ l s) (hs : Sem repo c s b s') (hc : ¬ TouchesRecord c.cmd) :
    Untouched s₀ (⟨s, c, b, s'⟩ :: l) s' where
  failed := (failed_kept hs hc).trans h.failed
  calls x hx := by
    rcases List.mem_cons.mp hx with rfl | hx
    · exact hc
    · exact h.calls x hx

theorem Before.untouched (h : Before s₀ l s) : Untouched s₀ l s where
  failed := h.failed
  calls x hx hr := by
    rcases h.early x hx with hq | ⟨t, e, _⟩
    · exact hq.keeps_record hr
    · rw [e] at hr
      exact hr

/-- What does not touch the record records nothing. -/
theorem records_nothing (hc : ¬ TouchesRecord c.cmd) (path text : String) (e : c.cmd = .write path text) : text = t := by
  rw [e] at hc
  exact absurd trivial hc

/-- While the checkout is away a command that does not move it leaves it there. -/
theorem Away.step (h : Away s₀ force t l s) (hs : Sem repo c s b s') (hc : ¬ MovesCheckout c.cmd)
    (hw : ∀ path text, c.cmd = .write path text → text = t) : Away s₀ force t (⟨s, c, b, s'⟩ :: l) s' where
  cleared := h.cleared.cons _
  ne := h.ne
  checkout := (checkout_kept hs hc).trans h.checkout
  merged := h.merged.cons fun hr => by
    obtain ⟨⟨t', e⟩, _⟩ := hr
    dsimp only at e
    exact hc (by rw [e]; trivial)
  records := h.records.cons hw

theorem Back.step (h : Back s₀ force t l s) (hs : Sem repo c s b s') (hm : ¬ MovesCheckout c.cmd)
    (hr : ¬ TouchesRecord c.cmd) : Back s₀ force t (⟨s, c, b, s'⟩ :: l) s' where
  cleared := h.cleared.cons _
  checkout := (checkout_kept hs hm).trans h.checkout
  failed := h.failed.imp (fun hu => hu.step hs hr) fun hf => (failed_kept hs hr).trans hf
  records := h.records.cons (records_nothing hr)

theorem owed_kept {x : Call} (h : ¬ Owed l) (hx : ∀ services, x.call.cmd ≠ .composeStop services) : ¬ Owed (x :: l) :=
  fun ho => h ((owed_cons.mp ho).resolve_left fun hs => hs.elim hx).1

theorem owed_quiet (h : ¬ Owed l) (hc : Quiet c.cmd) : ¬ Owed ((⟨s, c, b, s'⟩ : Call) :: l) := by
  refine owed_kept h fun services e => ?_
  dsimp only at e
  rw [e] at hc
  exact hc

theorem Before.owed (h : Before s₀ l s) : ¬ Owed l := by
  intro ho
  obtain ⟨late, x, early, rfl, ⟨services, e⟩, _⟩ := ho
  rcases h.early x (by simp) with hq | ⟨t, e', _⟩
  · rw [e] at hq
    exact hq
  · rw [e] at e'
    cases e'

end Step

end Kaguya.Ops.Phases
