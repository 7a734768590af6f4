/-
  Kaguya.Ops.Course — the course of a run of the deploy script, from the state `s₀` it
  starts in: the phase each command is run in and what it needs there (`Pre`), and how the
  run ends (`Final`). `goes_update` takes the script through it once; what holds of runs
  is read off it.
-/

import Kaguya.Ops.Functions

namespace Kaguya.Ops.Course

open Kaguya.Lib
open Kaguya.Lib.Shell
open Kaguya.Ops.Update
open Kaguya.Ops.Runs
open Kaguya.Ops.Phases
open Kaguya.Ops.Functions

variable (s₀ : Host) (force : Bool)

/-- What commands need besides their phase. -/
def Needs : Cmd → Calls → Host → Prop
  | .gitRevParse _, l, s => Before s₀ l s
  | .composeUp, l, s => s.checkout ≠ s₀.checkout →
      Made l .composePull (fun _ b _ => b.1 = 0) ∧ ∃ dir, BackedUp dir l
  | .echo (.notice title _), l, s => title = "updated" → ∃ t, Away s₀ force t l s ∧ Healthy t l
  | _, _, _ => True

def Pre (c : At Cmd) (l : Calls) (s : Host) : Prop := Phase s₀ force l s ∧ Needs s₀ force c.cmd l s

/-- How a run leaves the shell. -/
inductive Exits (n : Nat) (l : Calls) (s : Host) : Prop
  | before : Before s₀ l s → Exits n l s
  /-- A command failed unguarded while the checkout was away. -/
  | failed (t : Commit) (x : Call) (l' : Calls) : n ≠ 0 → Away s₀ force t l s → l = x :: l' → Unguarded x →
      x.before.checkout = t → Exits n l s
  | updated (t : Commit) : n = 0 → Away s₀ force t l s → Healthy t l → Exits n l s
  | back (t : Commit) : n ≠ 0 → Back s₀ force t l s → Smooth s₀.checkout l → ¬ Owed l → Exits n l s

def Final : Ended Nat → Calls → Host → Prop
  | .exited n, l, s => Exits s₀ force n l s
  | .cut, l, s => Phase s₀ force l s
  | _, _, _ => False

variable {s₀ : Host} {force : Bool} {repo : Repo} {t : Commit} {l : Calls} {s s' : Host}

/-! ## Quiet commands -/

theorem needs_quiet {c : Cmd} (h : Quiet c) : Needs s₀ force c l s := by
  cases c with
  | composeUp => exact h.elim
  | gitRevParse _ => exact h.elim
  | echo line => cases line with
    | text _ => trivial
    | notice title _ => exact fun e => absurd e h
  | _ => trivial

theorem needs_early {c : Cmd} (h : Early c) (hb : Before s₀ l s) : Needs s₀ force c l s := by
  cases c with
  | gitRevParse _ => exact hb
  | _ => exact needs_quiet h

/-- The checkout is away and nothing has failed unguarded. -/
structure Going (s₀ : Host) (force : Bool) (t : Commit) (l : Calls) (s : Host) : Prop where
  away : Away s₀ force t l s
  smooth : Smooth s₀.checkout l

/-- The checkout was reset, what was stopped is up, and nothing had failed unguarded while
    it was away. -/
structure Settled (s₀ : Host) (force : Bool) (t : Commit) (l : Calls) (s : Host) : Prop where
  back : Back s₀ force t l s
  smooth : Smooth s₀.checkout l
  owed : ¬ Owed l

theorem Settled.quiet_step {c : At Cmd} {b : Ans Cmd.Out c} (h : Settled s₀ force t l s) (hs : Sem repo c s b s')
    (hc : Quiet c.cmd) : Settled s₀ force t (⟨s, c, b, s'⟩ :: l) s' where
  back := h.back.step hs hc.keeps_checkout hc.keeps_record
  smooth := h.smooth.cons fun _ => h.back.checkout
  owed := owed_quiet h.owed hc

theorem keeps_before : Keeps (Sem repo) (Pre s₀ force) (fun c => Early c.cmd) (Before s₀)
    (fun n => Exits s₀ force n) where
  needs _ _ _ hc h := ⟨.before h, needs_early hc h⟩
  keeps _ _ _ _ _ hc h hs _ := h.step hs hc
  fails _ _ _ _ _ hc h hs _ _ := .before (h.step hs hc)

/-- Commands that do not move the checkout and keep `X`, where what they need is given. -/
theorem keeps_going {P : At Cmd → Prop} {X : Calls → Host → Prop} (hP : ∀ c, P c → ¬ MovesCheckout c.cmd)
    (hw : ∀ c, P c → ∀ path text, c.cmd = .write path text → text = t)
    (hX : ∀ c l s b s', P c → X l s → Sem repo c s b s' → X (⟨s, c, b, s'⟩ :: l) s')
    (hneeds : ∀ c l s, P c → Going s₀ force t l s → X l s → Needs s₀ force c.cmd l s) :
    Keeps (Sem repo) (Pre s₀ force) P (fun l s => Going s₀ force t l s ∧ X l s) (fun n => Exits s₀ force n) where
  needs c l s hc h := ⟨.away t h.1.away, hneeds c l s hc h.1 h.2⟩
  keeps c l s b s' hc h hs hb := ⟨⟨h.1.away.step hs (hP c hc) (hw c hc),
    h.1.smooth.cons fun hu => absurd (hb hu.1) hu.2⟩, hX c l s b s' hc h.2 hs⟩
  fails c l _ _ _ hc h hs hp hb :=
    .failed t _ l hb (h.1.away.step hs (hP c hc) (hw c hc)) rfl ⟨hp, hb⟩ h.1.away.checkout

theorem keeps_quiet {X : Calls → Host → Prop}
    (hX : ∀ c l s b s', Quiet c.cmd → X l s → Sem repo c s b s' → X (⟨s, c, b, s'⟩ :: l) s') :
    Keeps (Sem repo) (Pre s₀ force) (fun c => Quiet c.cmd) (fun l s => Going s₀ force t l s ∧ X l s)
      (fun n => Exits s₀ force n) :=
  keeps_going (fun _ hc => hc.keeps_checkout) (fun _ hc => records_nothing hc.keeps_record) hX
    fun _ _ _ hc _ _ => needs_quiet hc

theorem keeps_settled : Keeps (Sem repo) (Pre s₀ force) (fun c => Quiet c.cmd) (Settled s₀ force t)
    (fun n l s => n ≠ 0 ∧ Settled s₀ force t l s) where
  needs _ _ _ hc h := ⟨.back t h.back, needs_quiet hc⟩
  keeps _ _ _ _ _ hc h hs _ := h.quiet_step hs hc
  fails _ _ _ _ _ hc h hs _ hb := ⟨hb, h.quiet_step hs hc⟩

/-! ## Notifications -/

section Notify

variable {G : Calls → Host → Prop} {E : Nat → Calls → Host → Prop} {c : Config} {Q : Ended Nat → Calls → Host → Prop}

theorem goes_log {pre : At Cmd → Calls → Host → Prop} (hk : Keeps (Sem repo) pre (fun c => Quiet c.cmd) G E)
    {text : String} (hexit : ∀ n l s, E n l s → Q (.exited n) l s) (hdone : ∀ l s, G l s → Q (.done 0) l s)
    (hcut : ∀ l s, G l s → Q .cut l s) (h : G l s) : Goes (Sem repo) pre (log (.text text) false) Q l s := by
  have hcalm : Calm (fun c : At Cmd => Quiet c.cmd) (Passes false) (log (.text text) false) := calm_log fun _ => trivial
  refine goes_calm hk (fun e l s he hg => ?_) hexit hcalm h
  cases e with
  | done n => exact (he.resolve_right Bool.false_ne_true) ▸ hdone l s hg
  | cut => exact hcut l s hg
  | _ => exact he.elim

theorem goes_notify (hk : Keeps (Sem repo) (Pre s₀ force) (fun c => Quiet c.cmd) G E) {title body : String}
    (htitle : title ≠ "updated") (hexit : ∀ n l s, E n l s → Q (.exited n) l s)
    (hdone : ∀ n l s, G l s → Q (.done n) l s) (hcut : ∀ l s, G l s → Q .cut l s) (h : G l s) :
    Goes (Sem repo) (Pre s₀ force) (notify c title body false) Q l s := by
  refine goes_calm hk ?_ hexit (calm_notify (fun _ => htitle) (fun _ _ => trivial) fun _ _ => trivial) h
  intro e l s he hg
  cases e with
  | done n => exact hdone n l s hg
  | cut => exact hcut l s hg
  | _ => exact he.elim

end Notify

/-! ## The deploy -/

/-- A reset, from where the checkout is away. -/
theorem goes_reset {h : Commit} (hh : h = s₀.checkout) {Q : Ended Nat → Calls → Host → Prop} (hg : Going s₀ force t l s)
    (hf : Untouched s₀ l s ∨ s.failed = some t) (hexit : ∀ n l s, Exits s₀ force n l s → Q (.exited n) l s)
    (hdone : ∀ b s', Back s₀ force t (⟨s, ⟨.gitReset h, true⟩, b, s'⟩ :: l) s' →
      Smooth s₀.checkout (⟨s, ⟨.gitReset h, true⟩, b, s'⟩ :: l) → Q (.done 0) (⟨s, ⟨.gitReset h, true⟩, b, s'⟩ :: l) s') :
    Goes (Sem repo) (Pre s₀ force) (simple (.gitReset h) false) Q l s := by
  have hr : ¬ TouchesRecord (.gitReset h) := fun hr => hr
  refine goes_simple ⟨.away t hg.away, trivial⟩ (fun b s' hs hb => ?_) fun b s' hs hb => ?_
  · refine hdone b s' ⟨hg.away.cleared.cons _, ?_, ?_, ?_⟩ (hg.smooth.cons fun hu => absurd hb hu.2)
    · rw [reset_to hs hb]
      exact hh
    · exact hf.imp (fun hu => hu.step hs hr) fun hf => (failed_kept hs hr).trans hf
    · exact hg.away.records.cons (records_nothing hr)
  · refine hexit _ _ _ (.failed t _ l hb ⟨hg.away.cleared.cons _, hg.away.ne, ?_, ?_, ?_⟩ rfl ⟨rfl, hb⟩ hg.away.checkout)
    · exact (reset_failed hs hb).trans hg.away.checkout
    · exact hg.away.merged.cons fun h => hb h.2
    · exact hg.away.records.cons (records_nothing hr)

/-- From a healthy target on. -/
theorem goes_deployed {c : Config} {r : Range} {dir : String} (hg : Going s₀ force t l s) (hh : Healthy t l) :
    Goes (Sem repo) (Pre s₀ force) (deployed c r dir false) (Final s₀ force) l s := by
  let P : At Cmd → Prop := fun c => Quiet c.cmd ∨ c.cmd = .rm failedFile ∨ ∃ body, c.cmd = .echo (.notice "updated" body)
  have hk : Keeps (Sem repo) (Pre s₀ force) P (fun l s => Going s₀ force t l s ∧ Healthy t l)
      (fun n => Exits s₀ force n) := by
    refine keeps_going (fun c hc hm => ?_) (fun c hc path text e => ?_) (fun _ _ _ _ _ _ h _ => h.cons _)
      fun c l s hc hg hh => ?_
    · rcases hc with hc | hc | ⟨body, hc⟩
      · exact hc.keeps_checkout hm
      · rw [hc] at hm
        exact hm
      · rw [hc] at hm
        exact hm
    · rcases hc with hc | hc | ⟨body, hc⟩
      · exact records_nothing hc.keeps_record path text e
      · cases hc.symm.trans e
      · cases hc.symm.trans e
    · rcases hc with hc | hc | ⟨body, hc⟩
      · exact needs_quiet hc
      · rw [hc]
        trivial
      · rw [hc]
        exact fun _ => ⟨t, hg.away, hh⟩
  have hreport : ∀ l s, Going s₀ force t l s ∧ Healthy t l → Goes (Sem repo) (Pre s₀ force)
      ((notify c "updated" (r.fromRev ++ ".." ++ r.toRev ++ " deployed; backup in " ++ dir) >>= fun _ =>
        (exit 0 : Sh Nat)) false) (Final s₀ force) l s := by
    intro l s h
    refine goes_seq (goes_calm hk ?_ ?_ (calm_notify (fun _ => Or.inr (Or.inr ⟨_, rfl⟩)) (fun _ _ => Or.inl trivial)
      fun _ _ => Or.inl trivial) h)
    · intro e l s he hg
      cases e with
      | done n => exact .updated t rfl hg.1.away hg.2
      | cut => exact .away t hg.1.away
      | _ => exact he.elim
    · exact fun n l s he => he
  refine goes_seq (hk.plain (Or.inr (Or.inl rfl)) ⟨hg, hh⟩ (fun _ _ _ he => he) fun _ s₁ _ h₁ => ?_)
  exact goes_seq (hk.ignored (Or.inl trivial) h₁ fun _ s₂ h₂ => hreport _ s₂ h₂)

/-- From a reset with everything up. -/
theorem final_settled {n : Nat} (hn : n ≠ 0) (h : Settled s₀ force t l s) : Final s₀ force (.exited n) l s :=
  .back t hn h.back h.smooth h.owed

theorem final_settled_cut (h : Settled s₀ force t l s) : Final s₀ force .cut l s := .back t h.back

/-- `docker compose up -d`, where the checkout is back. -/
theorem goes_up_back {Q : Ended Nat → Calls → Host → Prop} (hb : Back s₀ force t l s) (hsm : Smooth s₀.checkout l)
    (hdone : ∀ n l s, Settled s₀ force t l s → Q (.done n) l s) :
    Goes (Sem repo) (Pre s₀ force) (simple .composeUp true) Q l s := by
  refine goes_caught ⟨.back t hb, fun h => absurd hb.checkout h⟩ fun b s' hs => hdone _ _ _ ?_
  refine ⟨hb.step hs (fun h => h) (fun h => h), hsm.cons fun _ => hb.checkout, fun ho => ?_⟩
  rcases owed_cons.mp ho with hstop | ho
  · obtain ⟨_, e⟩ := hstop
    cases e
  · exact ho.2 rfl

/-- The failed target is recorded. -/
theorem goes_write {Q : Ended Nat → Calls → Host → Prop} (hg : Going s₀ force t l s) (ho : ¬ Owed l)
    (hexit : ∀ n l s, Exits s₀ force n l s → Q (.exited n) l s)
    (hdone : ∀ l s, Going s₀ force t l s → s.failed = some t → ¬ Owed l → Q (.done 0) l s) :
    Goes (Sem repo) (Pre s₀ force) (simple (.write failedFile t) false) Q l s := by
  have hw : ∀ path text, Cmd.write failedFile t = .write path text → text = t := fun _ _ e => by cases e; rfl
  refine goes_simple ⟨.away t hg.away, trivial⟩ (fun b s' hs hb => ?_) fun b s' hs hb => ?_
  · have haway := hg.away.step hs (fun h => h) hw
    obtain ⟨s₁, _, hd⟩ := hs
    exact hdone _ s' ⟨haway, hg.smooth.cons fun hu => absurd hb hu.2⟩ (hd.2 hb) (owed_kept ho fun _ e => by cases e)
  · exact hexit _ _ _ (.failed t _ l hb (hg.away.step hs (fun h => h) hw) rfl ⟨rfl, hb⟩ hg.away.checkout)

/-- A run that gives up, with the checkout reset. -/
theorem goes_giveUp {c : Config} {title body : String} {Q : Ended Nat → Calls → Host → Prop} (ht : title ≠ "updated")
    (hexit : ∀ n l s, n ≠ 0 → Settled s₀ force t l s → Q (.exited n) l s) (hcut : ∀ l s, Settled s₀ force t l s → Q .cut l s)
    (h : Settled s₀ force t l s) : Goes (Sem repo) (Pre s₀ force) ((do
      let _ ← notify c title body
      exit 1 : Sh Nat) false) Q l s := by
  refine goes_seq (goes_notify keeps_settled ht (fun n l s he => hexit n l s he.1 he.2) ?_ hcut h)
  intro _ l s h
  exact hexit 1 l s (by decide) h

/-- The end of the rollback, with the checkout reset. -/
theorem goes_recover {c : Config} {rounds : Nat} {title₁ title₂ body₁ body₂ : String} (h₁ : title₁ ≠ "updated")
    (h₂ : title₂ ≠ "updated") (h : Settled s₀ force t l s) :
    Goes (Sem repo) (Pre s₀ force) ((do
      let _ ← special (.source stackFile)
      let _ ← ifThen (andThen (simple .composeUp) (waitHealthy c rounds)) (notify c title₁ body₁) (notify c title₂ body₂)
      exit 1 : Sh Nat) false) (Final s₀ force) l s := by
  have hk := @keeps_settled s₀ force repo t
  have hexit : ∀ n l s, n ≠ 0 ∧ Settled s₀ force t l s → Final s₀ force (.exited n) l s :=
    fun n l s he => final_settled he.1 he.2
  have hend : ∀ title body, title ≠ "updated" → ∀ l s, Settled s₀ force t l s →
      Goes (Sem repo) (Pre s₀ force) (notify c title body false)
        (Ended.post (fun _ l' s' => Goes (Sem repo) (Pre s₀ force) ((exit 1 : Sh Nat) false) (Final s₀ force) l' s')
          (Final s₀ force)) l s := by
    intro title body ht l s h
    exact goes_notify hk ht hexit (fun _ l s h => final_settled (by decide) h) (fun l s h => final_settled_cut h) h
  refine goes_seq (hk.special trivial h hexit fun _ s₁ _ h => ?_)
  refine goes_seq (goes_ifThen (goes_andThen (goes_up_back h.back h.smooth fun n l s hset => ?_)))
  refine ⟨fun hn => ?_, fun hn => ⟨fun e => absurd e hn, fun _ => hend title₂ body₂ h₂ l s hset⟩⟩
  refine goes_waitHealthy hk (t := s₀.checkout) (fun l s h => h.back.checkout) ?_ ?_ hexit ?_ hset
  · intro wait s' hset' _ _
    exact ⟨fun _ => hend title₁ body₁ h₁ _ _ hset', fun hn => absurd rfl hn⟩
  · intro l s hset'
    exact ⟨fun hn => (by cases hn), fun _ => hend title₂ body₂ h₂ _ _ hset'⟩
  · intro l s hset'
    exact final_settled_cut hset'

/-- After the target failed. -/
theorem goes_rollback {c : Config} {rounds : Nat} {r : Range} {dir : String} (hh : r.head = s₀.checkout)
    (hg : Going s₀ force r.target l s) (ho : ¬ Owed l) :
    Goes (Sem repo) (Pre s₀ force) (rollback c rounds r dir false) (Final s₀ force) l s := by
  let X : Calls → Host → Prop := fun l s => s.failed = some r.target ∧ ¬ Owed l
  have hk : Keeps (Sem repo) (Pre s₀ force) (fun c => Quiet c.cmd) (fun l s => Going s₀ force r.target l s ∧ X l s)
      (fun n => Exits s₀ force n) :=
    keeps_quiet fun _ _ _ _ _ hc h hs => ⟨(failed_kept hs hc.keeps_record).trans h.1, owed_quiet h.2 hc⟩
  refine goes_seq (goes_write hg ho (fun _ _ _ he => he) fun l s hg hf ho => ?_)
  refine goes_seq (goes_log hk (fun _ _ _ he => he) (fun l s h => ?_) (fun l s h => .away _ h.1.away) ⟨hg, hf, ho⟩)
  refine goes_seq (hk.ignored trivial h fun _ s₁ h₁ => ?_)
  refine goes_seq (hk.ignored trivial h₁ fun _ s₂ h₂ => ?_)
  refine goes_seq (goes_reset hh h₂.1 (Or.inr h₂.2.1) (fun _ _ _ he => he) fun b s₃ hb hsm => ?_)
  exact goes_recover (by decide) (by decide) ⟨hb, hsm, owed_kept h₂.2.2 fun _ e => by cases e⟩

/-- The merge, of a target that has passed the gates. -/
theorem goes_merge {Q : Ended Nat → Calls → Host → Prop} (h : Before s₀ l s) (hc : Cleared s₀ force t l)
    (hne : t ≠ s₀.checkout) (hexit : ∀ n l s, Exits s₀ force n l s → Q (.exited n) l s)
    (hdone : ∀ l s, Going s₀ force t l s → Untouched s₀ l s → ¬ Owed l → Q (.done 0) l s) :
    Goes (Sem repo) (Pre s₀ force) (simple (.gitMerge t) false) Q l s := by
  have hr : ¬ TouchesRecord (.gitMerge t) := fun hr => hr
  refine goes_simple ⟨.before h, trivial⟩ (fun b s' hs hb => ?_) fun b s' hs hb => ?_
  · have hu := h.untouched.step hs hr
    refine hdone _ s' ⟨⟨hc.cons _, hne, merge_to hs hb, ?_, ?_⟩, ?_⟩ hu (owed_kept h.owed fun _ e => by cases e)
    · exact ⟨[], _, l, rfl, ⟨rfl, hb⟩, fun y hy => by cases hy⟩
    · exact fun x hx => records_nothing (hu.calls x hx)
    · exact h.smooth.cons fun hx => absurd hb hx.2
  · refine hexit _ _ _ (.before ⟨(merge_failed hs hb).trans h.checkout, (failed_kept hs hr).trans h.failed, ?_, ?_⟩)
    · intro x hx
      rcases List.mem_cons.mp hx with rfl | hx
      · exact Or.inr ⟨t, rfl, hb⟩
      · exact h.early x hx
    · exact h.smooth.cons fun _ => h.checkout

/-- The target brought up and waited for. -/
theorem goes_target {c : Config} {rounds : Nat} {r : Range} {dir : String} (hh : r.head = s₀.checkout)
    (hg : Going s₀ force r.target l s) (hp : Made l .composePull fun _ b _ => b.1 = 0) (hb : BackedUp dir l) :
    Goes (Sem repo) (Pre s₀ force) ((do
      let _ ← ifThen (andThen (simple Cmd.composeUp) (waitHealthy c rounds)) (deployed c r dir) (return 0)
      rollback c rounds r dir) false) (Final s₀ force) l s := by
  let X : Calls → Host → Prop := fun l _ => ¬ Owed l
  have hk : Keeps (Sem repo) (Pre s₀ force) (fun c => Quiet c.cmd) (fun l s => Going s₀ force r.target l s ∧ X l s)
      (fun n => Exits s₀ force n) := keeps_quiet fun _ _ _ _ _ hc h _ => owed_quiet h hc
  refine goes_seq (goes_ifThen (goes_andThen ?_))
  refine goes_caught ⟨.away _ hg.away, fun _ => ⟨hp, dir, hb⟩⟩ fun b s₁ hs => ?_
  have h₁ : Going s₀ force r.target ((⟨s, ⟨.composeUp, false⟩, b, s₁⟩ : Call) :: l) s₁ :=
    ⟨hg.away.step hs (fun h => h) (fun _ _ e => by cases e), hg.smooth.cons fun hu => by cases hu.1⟩
  have ho : ¬ Owed ((⟨s, ⟨.composeUp, false⟩, b, s₁⟩ : Call) :: l) := by
    intro ho
    rcases owed_cons.mp ho with hstop | ho
    · obtain ⟨_, e⟩ := hstop
      cases e
    · exact ho.2 rfl
  refine ⟨fun hz => ?_, fun hn => ⟨fun e => absurd e hn, fun _ => goes_rollback hh h₁ ho⟩⟩
  refine goes_waitHealthy hk (t := r.target) (fun l s h => h.1.away.checkout) ?_ ?_ (fun _ _ _ he => he) ?_ ⟨h₁, ho⟩
  · intro wait s' h hw hwt
    have hjust : JustHealthy r.target (wait ++ (⟨s, ⟨.composeUp, false⟩, b, s₁⟩ : Call) :: l) :=
      ⟨wait, _, l, rfl, rfl, hz, hg.away.checkout, hw, hwt⟩
    refine ⟨fun _ => ?_, fun hn => absurd rfl hn⟩
    refine goes_mono (fun e l' s' he => ?_) (goes_deployed h.1 ⟨[], _, rfl, hjust⟩)
    cases e with
    | done _ => exact he.elim
    | _ => exact he
  · intro l s h
    exact ⟨fun hn => (by cases hn), fun _ => goes_rollback hh h.1 h.2⟩
  · intro l s h
    exact .away _ h.1.away

/-- From the gates on. -/
theorem goes_deploy {c : Config} {rounds : Nat} {r : Range} (hh : r.head = s₀.checkout) (hne : r.target ≠ s₀.checkout)
    (h : Before s₀ l s) (hc : Cleared s₀ force r.target l) :
    Goes (Sem repo) (Pre s₀ force) (deploy c rounds r false) (Final s₀ force) l s := by
  have hexit : ∀ n l s, Exits s₀ force n l s → Final s₀ force (.exited n) l s := fun _ _ _ he => he
  have hb : Keeps (Sem repo) (Pre s₀ force) (fun c => Quiet c.cmd)
      (fun l s => Before s₀ l s ∧ Cleared s₀ force r.target l) (fun n => Exits s₀ force n) :=
    (keeps_before.mono fun _ => Quiet.early).and fun _ _ _ _ _ _ h _ => h.cons _
  -- to the pull nothing is stopped, and the record is untouched
  have hk : Keeps (Sem repo) (Pre s₀ force) (fun c => Quiet c.cmd)
      (fun l s => Going s₀ force r.target l s ∧ Untouched s₀ l s ∧ ¬ Owed l) (fun n => Exits s₀ force n) :=
    keeps_quiet fun _ _ _ _ _ hc h hs => ⟨h.1.step hs hc.keeps_record, owed_quiet h.2 hc⟩
  -- to the end of the backup it still is
  have hkb : Keeps (Sem repo) (Pre s₀ force) Backs
      (fun l s => Going s₀ force r.target l s ∧ Untouched s₀ l s ∧ Made l .composePull fun _ b _ => b.1 = 0)
      (fun n => Exits s₀ force n) := by
    have hr : ∀ c, Backs c → ¬ MovesCheckout c.cmd ∧ ¬ TouchesRecord c.cmd := by
      intro c hc
      rcases hc.2 with hq | ⟨services, e⟩
      · exact ⟨hq.keeps_checkout, hq.keeps_record⟩
      · rw [e]
        exact ⟨fun h => h, fun h => h⟩
    refine keeps_going (fun c hc => (hr c hc).1) (fun c hc => records_nothing (hr c hc).2)
      (fun c _ _ _ _ hc h hs => ⟨h.1.step hs (hr c hc).2, h.2.cons _⟩) fun c l s hc _ _ => ?_
    rcases hc.2 with hq | ⟨services, e⟩
    · exact needs_quiet hq
    · rw [e]
      trivial
  refine goes_seq (goes_log hb hexit (fun l s h => ?_) (fun l s h => .before h.1) ⟨h, hc⟩)
  refine goes_seq (goes_merge h.1 h.2 hne hexit fun l s hg hu ho => ?_)
  refine goes_seq (hk.special trivial ⟨hg, hu, ho⟩ hexit fun _ s₁ _ h₁ => ?_)
  refine goes_seq (hk.guard trivial h₁ (fun _ s₂ h₂ => ?_) fun b s₂ _ hb h₂ => ?_)
  · refine goes_seq (goes_reset hh h₂.1 (Or.inl h₂.2.1) hexit fun _ s₃ hback hsm => ?_)
    refine goes_giveUp (by decide) (fun n l s hn h => final_settled hn h) (fun l s h => final_settled_cut h) ⟨hback, hsm, ?_⟩
    exact owed_kept h₂.2.2 fun _ e => by cases e
  refine goes_seq (hk.assign trivial h₂ hexit fun b₃ s₃ hs₃ _ h₃ => ?_)
  refine goes_seq (goes_ifThen (goes_negate (goes_backup hkb ?_ ?_ ?_)))
  · intro n l s hn h
    refine ⟨fun _ => ?_, fun hm => absurd (if_neg hn) hm⟩
    refine goes_seq (goes_reset hh h.1 (Or.inl h.2.1) hexit fun _ s₄ hback hsm => ?_)
    refine goes_seq (goes_orElse (goes_up_back hback hsm fun _ l s h => ⟨fun _ => ?_, fun _ => ?_⟩))
    all_goals
      exact goes_giveUp (by decide) (fun n l s hn h => final_settled hn h) (fun l s h => final_settled_cut h) h
  · intro l s h hbacked
    refine ⟨fun hm => (by cases hm), fun _ => ?_⟩
    have hk' : Keeps (Sem repo) (Pre s₀ force) (fun c => Quiet c.cmd)
        (fun l s => Going s₀ force r.target l s ∧ (Made l .composePull fun _ b _ => b.1 = 0) ∧
          BackedUp (c.backupRoot ++ "/" ++ b₃.2 ++ "-" ++ r.fromRev) l)
        (fun n => Exits s₀ force n) := keeps_quiet fun _ _ _ _ _ _ h _ => ⟨h.1.cons _, h.2.cons _⟩
    have hprune : Calm (fun c : At Cmd => Quiet c.cmd) (Passes false) (prune c false) :=
      calm_prune (fun _ => trivial) fun _ _ => trivial
    refine goes_seq (goes_calm hk' (fun e l s he h => ?_) ?_ hprune ⟨h.1, h.2.2, hbacked⟩)
    rotate_left
    · exact hexit
    cases e with
    | done n => exact goes_target hh h.1 h.2.1 h.2.2
    | cut => exact .away _ h.1.away
    | _ => exact he.elim
  · exact ⟨h₃.1, h₃.2.1, (made_here hb).cons _⟩

/-! ## The gates -/

section Gates

variable {c : Config} {Q : Ended Nat → Calls → Host → Prop} {G : Calls → Host → Prop}

/-- A run that is stopped before its merge. -/
theorem goes_stop {title body : String} {n : Nat} (ht : title ≠ "updated") (hexit : ∀ n l s, Exits s₀ force n l s → Q (.exited n) l s)
    (hcut : ∀ l s, Before s₀ l s → Q .cut l s) (h : Before s₀ l s) : Goes (Sem repo) (Pre s₀ force) ((do
      let _ ← notify c title body
      exit n : Sh Nat) false) Q l s :=
  goes_seq (goes_notify (keeps_before.mono fun _ => Quiet.early) ht hexit (fun _ _ _ h => hexit n _ _ (.before h)) hcut h)

/-- A target that failed before is passed over, unless forced. -/
theorem goes_retried (hk : Keeps (Sem repo) (Pre s₀ force) (fun c => Quiet c.cmd) G (fun n => Exits s₀ force n))
    (hG : ∀ l s, G l s → s.failed = s₀.failed) {stop : Sh Nat}
    (hstop : ∀ l s, G l s → Goes (Sem repo) (Pre s₀ force) (stop false) Q l s)
    (hdone : ∀ l s, G l s → (force = false → RecordRead l → s₀.failed ≠ some t) → Q (.done 0) l s) (h : G l s) :
    Goes (Sem repo) (Pre s₀ force) (ifThen (andThen (andThen (test !force) (simple (.testFile failedFile))) (do
      let failed : String ← subst (Cmd.cat failedFile)
      test (failed = t)) : Sh Nat) stop (return 0) false) Q l s := by
  refine goes_ifThen (goes_andThen (goes_andThen (goes_check (Or.inr rfl) ?_)))
  cases force with
  | true =>
    have hforced : true = false → RecordRead l → s₀.failed ≠ some t := fun e => by cases e
    refine ⟨fun e => (by cases e), fun _ => ⟨fun e => (by cases e), fun _ => ⟨fun e => (by cases e), fun _ => ?_⟩⟩⟩
    exact hdone l s h hforced
  | false =>
    refine ⟨fun _ => goes_caught (hk.needs _ _ _ trivial h) fun b s₁ hs => ?_, fun hn => absurd rfl hn⟩
    have h₁ : G _ s₁ := hk.step (c := .testFile failedFile) trivial h hs
    -- a record of the target is found, where it is read at all
    have hsome : s₀.failed = some t → s.failed ≠ none := by
      intro e
      rw [hG l s h, e]
      exact Option.some_ne_none t
    refine ⟨fun hb => ?_, fun hb => ⟨fun e => absurd e hb, fun _ => hdone _ _ h₁ fun _ hread e => ?_⟩⟩
    · refine goes_seq (goes_subst (hk.needs _ _ _ trivial h₁) fun b₂ s₂ hs₂ => goes_check (Or.inr rfl) ?_)
      have h₂ : G _ s₂ := hk.step (c := .cat failedFile) trivial h₁ hs₂
      refine ⟨fun _ => hstop _ _ h₂, fun hn => hdone _ _ h₂ fun _ hread e => hn ?_⟩
      have hf₁ : s₁.failed = some t := (hG _ _ h₁).trans e
      have hb₂ : b₂.1 = 0 := hread _ List.mem_cons_self (Or.inr rfl) (by rw [hf₁]; exact Option.some_ne_none t)
      obtain ⟨s'', hm₂, hd₂⟩ := hs₂
      have ht : b₂.2 = t := hd₂.2 rfl hb₂ t (by rw [← hd₂.1, hG _ _ h₂, e])
      rw [if_pos (decide_eq_true ht)]
    · exact hb (hread _ List.mem_cons_self (Or.inl rfl) (hsome e))

/-- A target with a commit that is marked is passed over, unless forced. -/
theorem goes_unmarked {h₀ : Commit} (hk : Keeps (Sem repo) (Pre s₀ force) (fun c => Quiet c.cmd) G (fun n => Exits s₀ force n))
    {stop : Sh Nat} (hstop : ∀ l s, G l s → Goes (Sem repo) (Pre s₀ force) (stop false) Q l s)
    (hdone : ∀ l s, G l s → (force = false → Made l (.gitLog h₀ t) fun _ b _ => grepQF manualMark b.2 ≠ 0) → Q (.done 0) l s)
    (h : G l s) : Goes (Sem repo) (Pre s₀ force)
      (ifThen (andThen (test !force) (filtered (Cmd.gitLog h₀ t) (grepQF manualMark))) stop (return 0) false) Q l s := by
  refine goes_ifThen (goes_andThen (goes_check (Or.inr rfl) ?_))
  cases force with
  | true => exact ⟨fun e => (by cases e), fun _ => ⟨fun e => (by cases e), fun _ => hdone l s h fun e => (by cases e)⟩⟩
  | false =>
    refine ⟨fun _ => goes_seq (goes_subst (hk.needs _ _ _ trivial h) fun b s₁ hs => ?_), fun hn => absurd rfl hn⟩
    have h₁ : G _ s₁ := hk.step (c := .gitLog h₀ t) trivial h hs
    exact goes_check (Or.inr rfl) ⟨fun _ => hstop _ _ h₁, fun hn => hdone _ _ h₁ fun _ => made_here hn⟩

/-- What passes the gates is cleared. -/
theorem goes_gates (h : Before s₀ l s) : Goes (Sem repo) (Pre s₀ c.force) (gates c false)
    (Ended.post (fun r l s => Before s₀ l s ∧ r.head = s₀.checkout ∧ r.target ≠ s₀.checkout ∧
      Cleared s₀ c.force r.target l) (Final s₀ c.force)) l s := by
  have hk := @keeps_before s₀ c.force repo
  have hexit : ∀ n l s, Exits s₀ c.force n l s → Final s₀ c.force (.exited n) l s := fun _ _ _ he => he
  have hcut : ∀ l s, Before s₀ l s → Final s₀ c.force .cut l s := fun _ _ h => .before h
  refine goes_seq (goes_simple ⟨.before h, trivial⟩ (fun b₁ s₁ hs₁ hb₁ => ?_) fun b s' hs hb => ?_)
  · have h₁ : Before s₀ _ s₁ := h.step hs₁ trivial
    have hk₁ := keeps_made hk (.gitFetch c.branch) fun _ b s' => b.1 = 0 ∧ s'.fetchHead = s₁.fetchHead
    refine goes_seq (hk₁.assign trivial ⟨h₁, made_here ⟨hb₁, rfl⟩⟩ hexit fun b₂ s₂ hs₂ hb₂ h₂ => ?_)
    refine goes_seq (hk₁.assign trivial h₂ hexit fun b₃ s₃ hs₃ hb₃ h₃ => ?_)
    have hhead : b₂.2 = s₀.checkout := (head_answer hs₂ hb₂).trans h₁.checkout
    have htarget : b₃.2 = s₁.fetchHead := (fetchHead_answer hs₃ hb₃).trans (fetchHead_kept hs₂ fun _ e => by cases e)
    refine goes_seq (goes_orElse (goes_check (Or.inr rfl) ⟨fun he => ?_, fun _ => .before h₃.1⟩))
    have hk₃ := keeps_made hk₁ (.gitRevParse .fetchHead) fun _ b _ => b.1 = 0 ∧ b.2 = b₃.2
    refine goes_seq (hk₃.assign trivial ⟨h₃, made_here ⟨hb₃, rfl⟩⟩ hexit fun b₄ s₄ _ _ h₄ => ?_)
    refine goes_seq (hk₃.assign trivial h₄ hexit fun b₅ s₅ _ _ h₅ => ?_)
    refine goes_seq (hk₃.guard trivial h₅ (fun _ _ h => goes_stop (by decide) hexit hcut h.1.1) fun b₆ s₆ _ hb₆ h₆ => ?_)
    have hk₄ := keeps_made hk₃ .gitDiffQuiet fun _ b _ => b.1 = 0
    refine goes_seq (hk₄.guard trivial ⟨h₆, made_here hb₆⟩ (fun _ _ h => goes_stop (by decide) hexit hcut h.1.1.1)
      fun b₇ s₇ _ hb₇ h₇ => ?_)
    have hk₅ := keeps_made hk₄ (.gitIsAncestor b₂.2 b₃.2) fun _ b _ => b.1 = 0
    refine goes_seq (goes_retried (hk₅.mono fun _ => Quiet.early) (fun _ _ h => h.1.1.1.1.failed) (fun l s h => ?_) (fun l s h hretried => ?_)
      ⟨h₇, made_here hb₇⟩)
    · exact goes_seq (goes_log (hk₅.mono fun _ => Quiet.early) hexit (fun _ _ h => .before h.1.1.1.1) (fun _ _ h => .before h.1.1.1.1) h)
    have hk₆ := hk₅.and (X := fun l _ => c.force = false → RecordRead l → s₀.failed ≠ some b₃.2)
      fun _ _ _ _ _ _ h _ hf hr => h hf hr.tail
    refine goes_seq (hk₆.assign trivial ⟨h, hretried⟩ hexit fun b₈ s₈ _ hb₈ h₈ => ?_)
    have hk₇ := keeps_made hk₆ (.gitDiffNameOnly b₂.2 b₃.2 setupInputs) fun _ b _ => b.1 = 0 ∧ b.2 = b₈.2
    refine goes_seq (goes_ifTest (fun _ => goes_stop (by decide) hexit hcut h₈.1.1.1.1.1) fun hempty => ?_)
    refine goes_seq (goes_unmarked (hk₇.mono fun _ => Quiet.early) (fun l s h => goes_stop (by decide) hexit hcut h.1.1.1.1.1.1) (fun l s h hmark => ?_)
      ⟨h₈, made_here ⟨hb₈, rfl⟩⟩)
    have hne : b₃.2 ≠ s₀.checkout := by
      intro e
      rw [if_neg fun hd => absurd (hhead.trans e.symm) (of_decide_eq_true hd)] at he
      cases he
    obtain ⟨⟨⟨⟨⟨⟨hbefore, hfetch⟩, hrev⟩, hclean⟩, hanc⟩, hretried⟩, hdiff⟩ := h
    rw [← htarget] at hfetch
    rw [hhead] at hanc hdiff hmark
    have hnone : b₈.2 = [] := List.isEmpty_iff.mp (by simpa using hempty)
    rw [hnone] at hdiff
    exact ⟨hbefore, hhead, hne, ⟨c.branch, hfetch⟩, hrev, hclean, hanc, hretried, hdiff, hmark⟩
  · exact .before (h.step hs trivial)

end Gates

/-! ## The run -/

/-- Whether a run is called with `--force`. -/
def forced (i : Invocation) : Bool := i.argv.headD "" = "--force"

theorem force_eq (i : Invocation) : i.force =
    if i.argv.headD "" = "--force" then pure "1"
    else if i.argv.headD "" = "" then pure "0"
    else simple (Cmd.complain ("usage: " ++ i.name ++ " [--force]")) >>= fun _ => exit 2 := by
  rw [Invocation.force]
  split
  · next e => rw [if_pos e]
  · next e => rw [e, if_neg (by decide), if_pos rfl]
  · next h₁ h₂ => rw [if_neg h₁, if_neg h₂]

/-- Whether it is forced, by the lines of `.env` in the end. -/
def forcedBy (i : Invocation) (lines : List String) : Bool :=
  (exportLines lines (i.environ.set "force" (if forced i then "1" else "0"))).any fun env => Config.force ⟨env⟩

/-- The run has read lines of `.env` that leave it forced, or not. -/
def Forced (i : Invocation) (force : Bool) (l : Calls) : Prop :=
  Made l (.readLines ".env") fun _ b _ => forcedBy i b.2 = force

/-- What commands need in the run of `i`: until it has read `.env` it is before its merge. -/
def Asked (i : Invocation) (s₀ : Host) (c : At Cmd) (l : Calls) (s : Host) : Prop :=
  ∃ force, (Before s₀ l s ∨ Forced i force l) ∧ Pre s₀ force c l s

def Leaves (i : Invocation) (s₀ : Host) (e : Ended Nat) (l : Calls) (s : Host) : Prop :=
  ∃ force, (Before s₀ l s ∨ Forced i force l) ∧ Final s₀ force e l s

/-- From where it has read `.env` on. -/
theorem goes_forced {i : Invocation} {p : Prog (At Cmd) (Ans Cmd.Out) (Ended Nat)}
    (h : Goes (Sem repo) (Pre s₀ force) p (Final s₀ force) l s) (hl : Forced i force l) :
    Goes (Sem repo) (Asked i s₀) p (Leaves i s₀) l s :=
  goes_kept (fun x _ hl => hl.cons x) (fun _ _ _ hl h => ⟨force, Or.inr hl, h⟩) (fun _ _ _ hl h => ⟨force, Or.inr hl, h⟩) h hl

/-- To the lock nothing is asked but to be before the merge. -/
theorem keeps_opening {i : Invocation} : Keeps (Sem repo) (Asked i s₀) (fun c => Early c.cmd) (Before s₀)
    (fun _ => Before s₀) where
  needs _ _ _ hc h := ⟨false, Or.inl h, .before h, needs_early hc h⟩
  keeps _ _ _ _ _ hc h hs _ := h.step hs hc
  fails _ _ _ _ _ hc h hs _ _ := h.step hs hc

theorem leaves_before {i : Invocation} {n : Nat} (h : Before s₀ l s) : Leaves i s₀ (.exited n) l s :=
  ⟨false, Or.inl h, .before h⟩

theorem leaves_cut {i : Invocation} (h : Before s₀ l s) : Leaves i s₀ .cut l s := ⟨false, Or.inl h, .before h⟩

theorem goes_force {i : Invocation} {Q : Ended String → Calls → Host → Prop}
    (hdone : Q (.done (if forced i then "1" else "0")) l s)
    (hexit : ∀ n l s, Before s₀ l s → Q (.exited n) l s) (h : Before s₀ l s) :
    Goes (Sem repo) (Asked i s₀) (i.force false) Q l s := by
  rw [force_eq]
  by_cases hf : i.argv.headD "" = "--force"
  · rw [if_pos hf]
    rwa [if_pos (show forced i = true from decide_eq_true hf)] at hdone
  rw [if_neg hf]
  rw [if_neg (show ¬ forced i = true from fun e => hf (of_decide_eq_true e))] at hdone
  by_cases he : i.argv.headD "" = ""
  · rw [if_pos he]
    exact hdone
  rw [if_neg he]
  exact goes_seq (keeps_opening.plain trivial h (fun n l s h => hexit n l s h) fun _ _ _ h => hexit 2 _ _ h)

/-- What gets to the lock has changed nothing. -/
theorem goes_start {i : Invocation} (h : Before s₀ l s) : Goes (Sem repo) (Asked i s₀) (start i false)
    (Ended.post (fun c l s => Before s₀ l s ∧ Forced i c.force l) (Leaves i s₀)) l s := by
  have hk := @keeps_opening s₀ repo i
  have hexit : ∀ n l s, Before s₀ l s → Leaves i s₀ (.exited n) l s := fun _ _ _ h => leaves_before h
  refine goes_seq (hk.plain trivial h hexit fun _ s₁ _ h₁ => ?_)
  refine goes_seq (goes_force ?_ hexit h₁)
  refine goes_seq (goes_orElse (hk.caught trivial h₁ fun _ s₂ h₂ => ⟨fun _ => ?_, fun _ => ?_⟩))
  · refine goes_seq (hk.assign trivial h₂ hexit fun b₃ s₃ _ _ h₃ => ?_)
    rw [Ended.post]
    cases henv : exportLines b₃.2 (i.environ.set "force" (if forced i then "1" else "0")) with
    | none => exact leaves_before h₃
    | some env =>
      have hforced : forcedBy i b₃.2 = Config.force ⟨env⟩ := by
        rw [forcedBy, henv]
        rfl
      have hk₃ := keeps_made hk (.readLines ".env") fun _ b _ => forcedBy i b.2 = Config.force ⟨env⟩
      refine goes_seq (hk₃.special trivial ⟨h₃, made_here hforced⟩ (fun n l s h => hexit n l s h) fun _ s₄ _ h₄ => ?_)
      refine goes_seq (hk₃.special trivial h₄ (fun n l s h => hexit n l s h) fun _ s₅ _ h₅ => ?_)
      refine goes_seq (goes_orElse (hk₃.caught trivial h₅ fun _ s₆ h₆ => ⟨fun _ => h₆, fun _ => ?_⟩))
      -- another update is running
      exact goes_seq (goes_log (hk.mono fun _ => Quiet.early) (fun n l s h => hexit n l s h) (fun l s h => leaves_before h)
        (fun l s h => leaves_cut h) h₆.1)
  · exact goes_seq (hk.plain trivial h₂ hexit fun _ s₃ _ h₃ => leaves_before h₃)

/-- The course of a run. -/
theorem goes_update (i : Invocation) (s : Host) : Goes (Sem repo) (Asked i s) (update i false) (Leaves i s) [] s := by
  have h : Before s [] s := ⟨rfl, rfl, fun x hx => (by cases hx), fun x hx => by cases hx⟩
  refine goes_seq (goes_mono (fun e l s' he => ?_) (goes_start h))
  cases e with
  | done c =>
    obtain ⟨h, hforced⟩ := he
    refine @goes_forced s c.force repo _ _ i _ (goes_seq (goes_mono (fun e l s' he => ?_) (goes_gates h))) hforced
    cases e with
    | done r => exact goes_deploy he.2.1 he.2.2.1 he.1 he.2.2.2
    | _ => exact he
  | _ => exact he

/-! ## The runs -/

section Runs

variable {init : Host → Prop} {older : List Run} {j : Run} {n : Nat}

theorem run_goes (hr : History (Sem repo) init (j :: older) s) :
    Goes (Sem repo) (Asked j.info j.start) j.prog (Leaves j.info j.start) j.calls s :=
  serial_goes goes_update hr

/-- How a run that has left the shell has. -/
theorem run_exits (hr : History (Sem repo) init (j :: older) s) (hp : j.prog = .ret (.exited n)) :
    ∃ force, Exits j.start force n j.calls s := by
  have h := run_goes hr
  rw [hp] at h
  obtain ⟨force, _, h⟩ := h
  exact ⟨force, h⟩

theorem Exits.phase (h : Exits s₀ force n l s) : Phase s₀ force l s := by
  cases h with
  | before h => exact .before h
  | failed t _ _ _ h => exact .away t h
  | updated t _ h => exact .away t h
  | back t _ h => exact .back t h

/-- At every instant a run is in a phase. -/
theorem run_phase (hr : History (Sem repo) init (j :: older) s) :
    ∃ force, (Before j.start j.calls s ∨ Forced j.info force j.calls) ∧ Phase j.start force j.calls s := by
  have h := run_goes hr
  cases hp : j.prog with
  | call c k =>
    rw [hp] at h
    obtain ⟨force, hforced, hpre⟩ := h.1
    exact ⟨force, hforced, hpre.1⟩
  | ret e =>
    rw [hp] at h
    obtain ⟨force, hforced, h⟩ := h
    refine ⟨force, hforced, ?_⟩
    cases e with
    | exited n => exact Exits.phase h
    | cut => exact h
    | _ => exact h.elim

end Runs

end Kaguya.Ops.Course
