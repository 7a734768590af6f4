/-
  Kaguya.Ops.Ends — every run of the deploy script ends. All it can wait for is health:
  each round of `wait_healthy` sleeps five seconds and asks the time, and the loop stops
  at its deadline, so with a clock that is not set back and a `sleep` that sleeps there
  are at most 37 rounds, whatever is answered (`goes_waitHealthy`). With so many a run
  is never cut short, and with any more it is the same run (`runs_end`): the limit stands
  for none.
-/

import Kaguya.Ops.Restore
import Kaguya.Ops.Shape

namespace Kaguya.Ops.Ends

open Kaguya.Lib
open Kaguya.Lib.Shell
open Kaguya.Ops.Update
open Kaguya.Ops.Shape

/-- The time, in seconds, goes on; `date` reads it and `sleep` lets it pass. -/
def ClockSem (c : At Cmd) (t : Nat) (b : Ans Cmd.Out c) (t' : Nat) : Prop :=
  t ≤ t' ∧ match c, b with
    | ⟨.sleep n, _⟩, _ => t + n ≤ t'
    | ⟨.dateSeconds, _⟩, b => ∀ now, b.2 = some now → t ≤ now ∧ now ≤ t'
    | _, _ => True

def enough : Nat := 37

/-- Not cut short, and not before `t`. -/
abbrev Ending (t : Nat) : Relation Cmd Cmd.Out := Well ClockSem (fun _ _ _ => True) (fun t' => t ≤ t') False

theorem ending (t : Nat) : Congruence (fun _ => True) (Ending t) :=
  congruence_goes False (fun _ _ _ _ _ => trivial) fun _ _ _ _ _ ht h => Nat.le_trans ht h.1

/-! ## The wait -/

variable {t : Nat} {l : Log (At Cmd) (Ans Cmd.Out) Nat} {ign : Bool}

/-- A poll takes five seconds, if it does not end the wait. -/
theorem goes_poll (c : Config) (streak : Nat) : Goes ClockSem (fun _ _ _ => True) (poll c streak ign)
    (Ended.post (fun _ _ t' => t + 5 ≤ t') fun (e : Ended Nat) _ _ => e ≠ .cut) l t := by
  refine goes_seq (goes_mono (fun e l' t' he => ?_)
    (alike_streak (ending t) trivial (fun _ _ => trivial) c streak ign l t (Nat.le_refl t)))
  obtain ⟨hle, hcut⟩ := he
  cases e with
  | done n =>
    refine goes_seq (goes_seq (goes_run trivial (fun b t'' hs _ => ?_) fun _ _ _ _ => by simp))
    exact Nat.le_trans (Nat.add_le_add_right hle 5) hs.2
  | returned n | exited n => simp
  | cut => exact (hcut rfl).elim

/-- The rounds are left that the deadline leaves time for. -/
def Left (deadline : Int) (k : Nat) (_ : Log (At Cmd) (Ans Cmd.Out) Nat) (t : Nat) : Prop :=
  deadline + 5 ≤ t + 5 * k ∧ 0 < k

theorem goes_loop {c : Config} {deadline : Int} {rounds streak : Nat} (h : Left deadline rounds l t) :
    Goes ClockSem (fun _ _ _ => True) (whileDo (fun _ => before deadline) (poll c) rounds streak ign)
      (fun e _ _ => e ≠ .cut) l t := by
  refine goes_while_left (Left deadline) (fun k v l t hk => ?_) (fun _ _ h => absurd h.2 (by omega)) rounds h
  obtain ⟨hleft, _⟩ := hk
  refine goes_seq (goes_subst trivial fun b t' hs => goes_check (Or.inr rfl) ⟨fun hn => ?_, fun _ => by simp⟩)
  have hnow : ∃ now, b.2 = some now ∧ now < deadline := by
    cases hb : b.2 with
    | none =>
      rw [hb] at hn
      cases hn
    | some now =>
      refine ⟨now, rfl, ?_⟩
      by_contra hnot
      rw [hb, Option.elim, if_neg hnot] at hn
      cases hn
  obtain ⟨now, hb, hlt⟩ := hnow
  obtain ⟨hfrom, _⟩ := hs.2 now hb
  refine goes_mono (fun e l'' t'' he => ?_) (goes_poll (t := t') c v)
  cases e with
  | done n =>
    have hsleep : t' + 5 ≤ t'' := he
    have hle : t ≤ t' := hs.1
    push_cast at hleft
    exact ⟨by omega, by omega⟩
  | _ => exact he

/-- With 37 rounds the wait is over before they are. -/
theorem goes_waitHealthy {rounds : Nat} (hrounds : enough ≤ rounds) (c : Config) :
    Alike (Ending 0) (waitHealthy c rounds) (waitHealthy c rounds) := by
  refine alike_func (ending 0) fun ign l t _ => ?_
  refine goes_seq (goes_seq (goes_run trivial (fun b t' hs _ => ?_) fun _ _ _ _ => ⟨Nat.zero_le _, by simp⟩))
  have hstart : b.2.getD 0 ≤ t' := by
    cases hb : b.2 with
    | none => exact Int.natCast_nonneg t'
    | some now => exact (hs.2 now hb).2
  have hleft : Left (b.2.getD 0 + healthTimeout) rounds (⟨t, ⟨.dateSeconds, !ign⟩, b, t'⟩ :: l) t' := by
    have hrounds : 37 ≤ rounds := hrounds
    exact ⟨by rw [healthTimeout]; omega, by omega⟩
  refine goes_seq (goes_mono (fun e l'' t'' he => ?_) (goes_loop hleft))
  cases e with
  | done _ => exact ⟨Nat.zero_le _, by simp⟩
  | _ => exact ⟨Nat.zero_le _, he⟩

/-! ## The whole script -/

theorem alike_of_wait {r : Relation Cmd Cmd.Out} (hr : Congruence (fun _ => True) r) {i : Invocation} {rounds' : Nat}
    (hwait : ∀ c, Alike r (waitHealthy c i.rounds) (waitHealthy c rounds')) :
    Alike r (update i) (update { i with rounds := rounds' }) := by
  refine alike_update (congruence_mono (fun _ _ => trivial) hr) fun c => ⟨fun title body => ?_, fun dir => ?_, hwait c⟩
  · exact alike_notify hr (fun _ => trivial) (fun _ _ _ => trivial) c title body
  · exact alike_backups hr (fun _ => trivial) (fun _ => trivial) (fun _ => trivial) (fun _ _ _ => trivial) dir

theorem goes_ends {i : Invocation} (hrounds : enough ≤ i.rounds) (t : Nat) :
    Goes ClockSem (fun _ _ _ => True) (update i false) (fun e _ _ => e ≠ .cut) [] t := by
  have hends := alike_of_wait (ending 0) (goes_waitHealthy hrounds)
  exact goes_mono (fun _ _ _ he => he.2) (hends false [] t (Nat.zero_le t))

/-- With more rounds the script goes on where it would be cut short, and differs nowhere else. -/
theorem further_rounds (i : Invocation) {rounds : Nat} (hle : rounds ≤ i.rounds) :
    Further Nat (update { i with rounds := rounds } false) (update i false) := by
  refine alike_of_wait congruence_further (i := { i with rounds := rounds }) (fun c => ?_) false
  refine alike_wait congruence_further trivial fun deadline => ?_
  exact further_while (fun _ => alike_before congruence_further trivial deadline)
    (fun streak => alike_poll congruence_further trivial (fun _ _ => trivial) (fun _ => trivial) c streak) hle 0

variable {init : Nat → Prop} {h : List (Job Invocation (At Cmd) (Ans Cmd.Out) (Ended Nat) Nat)}
variable {j : Job Invocation (At Cmd) (Ans Cmd.Out) (Ended Nat) Nat}

/-- A run that has rounds enough is as one that has no more. -/
theorem run_enough (hr : Serial ClockSem (fun i => update i false) init (j :: h) t) (hrounds : enough ≤ j.info.rounds) :
    ∃ p, Serial ClockSem (fun i => update i false) init
      (⟨{ j.info with rounds := enough }, j.start, j.calls, j.state, p⟩ :: h) t ∧
      p ≠ .ret .cut ∧ ∀ e, p = .ret e ↔ j.prog = .ret e := by
  have hs := serial_state hr
  obtain ⟨i, s₀, l, s, p'⟩ := j
  dsimp only at hs hrounds
  subst hs
  obtain ⟨p, hser, hfurther, hgo⟩ := serial_further hr (further_rounds i hrounds)
    (goes_ends (i := { i with rounds := enough }) (Nat.le_refl _))
  have hcut : p ≠ .ret .cut := fun e => by
    rw [e] at hgo
    exact hgo rfl
  exact ⟨p, hser, hcut, further_ret hfurther hcut⟩

/-- Of runs one after another, on a clock that goes on, each that has 37 rounds or more to
    wait in is never cut short: it has a command to make or has ended by itself, whatever
    its commands have answered. And it is as a run with 37 rounds is: that one makes the
    same commands, and ends where it does. -/
theorem runs_end (init : Nat → Prop) :
    (∀ h t, Serial ClockSem (fun i => update i false) init h t → ∀ j ∈ h, enough ≤ j.info.rounds → j.prog ≠ .ret .cut) ∧
    ∀ j h t, Serial ClockSem (fun i => update i false) init (j :: h) t → enough ≤ j.info.rounds →
      ∃ p, Serial ClockSem (fun i => update i false) init
        (⟨{ j.info with rounds := enough }, j.start, j.calls, j.state, p⟩ :: h) t ∧
        ∀ e, p = .ret e ↔ j.prog = .ret e := by
  refine ⟨fun h t hr j hj hrounds => ?_, fun j h t hr hrounds => ?_⟩
  · obtain ⟨later, older, rfl⟩ := List.append_of_mem hj
    obtain ⟨p, _, hcut, hret⟩ := run_enough (serial_at hr) hrounds
    exact fun e => hcut ((hret _).mpr e)
  · obtain ⟨p, hser, _, hret⟩ := run_enough hr hrounds
    exact ⟨p, hser, hret⟩

/-! ## A run that waits in vain -/

/-- On the host of `Restore`, where a service stays unhealthy and a sleep takes a minute. -/
def clockAnswer (c : At Cmd) (t : Nat) : Ans Cmd.Out c × Nat :=
  match c with
  | ⟨.sleep n, _⟩ => ((0, ()), t + 12 * n)
  | ⟨.dateSeconds, _⟩ => ((0, some t), t)
  | ⟨.composePs, _⟩ => ((0, [⟨"auth", "running", "starting"⟩]), t)
  | ⟨.xargsRm _, _⟩ => ((0, ()), t)
  | c => ((Restore.answer (fun _ => false) c ⟨"a", "b", none, false, "b"⟩).1, t)

theorem clockAnswer_sem (c : At Cmd) (t : Nat) : ClockSem c t (clockAnswer c t).1 (clockAnswer c t).2 := by
  obtain ⟨c, plain⟩ := c
  cases c with
  | sleep n => exact ⟨Nat.le_add_right _ _, by show t + n ≤ t + 12 * n; omega⟩
  | dateSeconds => exact ⟨Nat.le_refl _, fun now e => by cases e; exact ⟨Int.le_refl _, Int.le_refl _⟩⟩
  | _ => exact ⟨Nat.le_refl _, trivial⟩

/-- The script with more rounds than it needs, for at most `n` commands. -/
def vain (n : Nat) : Job Invocation (At Cmd) (Ans Cmd.Out) (Ended Nat) Nat :=
  Job.play clockAnswer n ⟨⟨"ops/update.sh", [], fun _ => none, 40⟩, 0, [], 0, update ⟨"ops/update.sh", [], fun _ => none, 40⟩ false⟩

/-- It waits for the target, rolls back, waits again and exits; and so it does with 37 rounds. -/
theorem runs_end_vain : (vain 90).prog = .ret (.exited 1) ∧ (vain 90).prog ≠ .ret .cut ∧
    ∃ p, Serial ClockSem (fun i => update i false) (· = 0)
      [⟨{ (vain 90).info with rounds := enough }, (vain 90).start, (vain 90).calls, (vain 90).state, p⟩] (vain 90).state ∧
      p = .ret (.exited 1) := by
  obtain ⟨ends, enoughs⟩ := runs_end (· = 0)
  have hr : Serial ClockSem (fun i => update i false) (· = 0) [vain 90] (vain 90).state :=
    serial_play clockAnswer_sem 90 (.start _ (.init 0 rfl))
  have hrounds : enough ≤ (vain 90).info.rounds := by decide
  have hend : (vain 90).prog = .ret (.exited 1) := rfl
  obtain ⟨p, hser, hret⟩ := enoughs (vain 90) [] _ hr hrounds
  exact ⟨hend, ends _ _ hr _ List.mem_cons_self hrounds, p, hser, (hret _).mpr hend⟩

end Kaguya.Ops.Ends
