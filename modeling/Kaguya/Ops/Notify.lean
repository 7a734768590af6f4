/-
  Kaguya.Ops.Notify — notifications are best effort. What the deploy script does does not
  depend on the service it notifies: its runs are those of a host that has set no
  `UPDATE_NOTIFY_URL`, but for the `curl` and the warning that it failed, whatever the
  service answers and whenever (`runs_without_notifying`).
-/

import Kaguya.Lib.Without
import Kaguya.Ops.Lock
import Kaguya.Ops.Shape

namespace Kaguya.Ops.Notify

open Kaguya.Lib
open Kaguya.Lib.Shell
open Kaguya.Ops.Update
open Kaguya.Ops.Runs
open Kaguya.Ops.Shape
open Kaguya.Ops.Lock

/-- The settings without the URL. -/
def quiet (c : Config) : Config := { c with env := fun k => if k = "UPDATE_NOTIFY_URL" then none else c.env k }

/-- The script on a host that has no URL set. -/
def quietly (i : Invocation) : Sh Nat := do
  let c ← start i
  let r ← gates (quiet c)
  deploy (quiet c) i.rounds r

def warning : Cmd := .echo (.text "warning: notification failed")

/-- A notification, or the warning that one failed. -/
def Noise : Cmd → Bool
  | .curlNotify .. => true
  | c => c = warning

/-- Notifies no one. -/
def Quiet : Cmd → Prop
  | .curlNotify .. => False
  | _ => True

/-- A warning has to be written. -/
def Fine (c : At Cmd) (b : Ans Cmd.Out c) : Prop := c.cmd = warning → b.1 = 0

abbrev Quieter : Relation Cmd Cmd.Out := Without Quiet Noise Fine

theorem quieter : Congruence Quiet Quieter := congruence_without Quiet Noise Fine

theorem quieter_outside : Congruence Outside Quieter := by
  refine congruence_mono (fun c hc => ?_) quieter
  cases c with
  | curlNotify _ _ _ => exact hc
  | _ => trivial

/-! ## The settings -/

theorem quiet_env (c : Config) {name : String} (h : name ≠ "UPDATE_NOTIFY_URL") : (quiet c).env name = c.env name := if_neg h

theorem quiet_get (c : Config) {name : String} (h : name ≠ "UPDATE_NOTIFY_URL") (default : String) :
    (quiet c).get name default = c.get name default := by rw [Config.get, quiet_env c h, Config.get]

theorem same_quiet (c : Config) : Same c (quiet c) where
  force := by rw [Config.force, quiet_env c (by decide), Config.force]
  branch := quiet_get c (by decide) _
  backupRoot := quiet_get c (by decide) _
  keep := quiet_get c (by decide) _

/-! ## The functions -/

/-- What follows the log in a notification. -/
def sent (url title body : String) : Sh Nat := do
  let _ ← orElse (test (!url.isEmpty)) (return_ 0)
  orElse (simple (.curlNotify title body url)) (log (.text "warning: notification failed"))

theorem quieter_warning (ign : Bool) : Quieter Nat (log (.text "warning: notification failed") ign) (.ret (.done 0)) := by
  refine without_simple (c := warning) rfl (fun b hb => Or.inl (hb rfl)) fun b hb => ?_
  rw [Ended.leaves, check, hb rfl, if_pos (Or.inl rfl)]
  exact .ret _

/-- Without a URL no one is notified. -/
theorem sent_nowhere {url : String} (hurl : url.isEmpty = true) (title body : String) (ign : Bool) :
    func (sent url title body) ign = .ret (.done 0) := by
  have hsent : sent url title body ign = .ret (.returned 0) := by
    rw [sent, hurl]
    rfl
  rw [func, hsent, Prog.ret_bind, Ended.leaves, check, if_pos (Or.inl rfl)]

/-- With one it comes to the same. -/
theorem quieter_sent (url title body : String) (ign : Bool) :
    Quieter Nat (func (sent url title body) ign) (.ret (.done 0)) := by
  cases hurl : url.isEmpty with
  | true =>
    rw [sent_nowhere hurl]
    exact .ret _
  | false =>
    have hsent : sent url title body ign =
        orElse (simple (.curlNotify title body url)) (log (.text "warning: notification failed")) ign := by
      rw [sent, hurl]
      rfl
    refine without_bind (e := .done 0) ?_ ?_
    · rw [hsent]
      refine without_simple rfl (fun _ _ => Or.inr rfl) fun b _ => ?_
      by_cases hb : b.1 = 0
      · rw [Ended.next, if_pos hb]
        exact .ret _
      · rw [Ended.next, if_neg hb]
        exact quieter_warning ign
    · rw [Ended.leaves, check, if_pos (Or.inl rfl)]
      exact .ret _

theorem quieter_notify (c : Config) (title body : String) : Alike Quieter (notify c title body) (notify (quiet c) title body) := by
  intro ign
  have hparts : ∀ c : Config, notify c title body ign = log (.notice title body) ign >>= fun e =>
      e.next (fun _ => sent (c.get "UPDATE_NOTIFY_URL" "") title body ign) >>= fun e =>
        e.leaves (fun n => .ret (.exited n)) ign := fun c => Prog.bind_assoc _ _ _
  have hquiet : (quiet c).get "UPDATE_NOTIFY_URL" "" = "" := by
    rw [Config.get, quiet]
    rfl
  rw [hparts, hparts, hquiet]
  refine quieter.bind _ _ _ _ (alike_log quieter_outside _ ign) rfl rfl fun e he => ?_
  cases e with
  | done n =>
    show Quieter Nat (func (sent _ title body) ign) (func (sent "" title body) ign)
    rw [sent_nowhere (show "".isEmpty = true from rfl)]
    exact quieter_sent _ title body ign
  | returned n => exact alike_check quieter n ign
  | exited n => exact .ret _
  | cut => exact absurd rfl he

theorem quieter_wait (c : Config) (rounds : Nat) : Alike Quieter (waitHealthy c rounds) (waitHealthy (quiet c) rounds) := by
  have hpoll : poll (quiet c) = poll c := by
    unfold poll stackHealth
    rw [quiet_env c (by decide)]
  have hwait : waitHealthy (quiet c) rounds = waitHealthy c rounds := by
    unfold waitHealthy
    rw [hpoll]
  rw [hwait]
  refine alike_wait quieter trivial fun deadline => ?_
  exact alike_while quieter (.ret .cut) (fun _ => alike_before quieter trivial deadline)
    (fun streak => alike_poll quieter trivial (fun _ _ => trivial) (fun _ => trivial) c streak) rounds 0

theorem quieter_update (i : Invocation) : Alike Quieter (update i) (quietly i) := by
  refine alike_bind quieter_outside (alike_start quieter_outside i) fun c => ?_
  refine alike_deploying quieter_outside ⟨quieter_notify c, ?_, quieter_wait c i.rounds⟩ (same_quiet c)
  exact alike_backups quieter (fun _ => trivial) (fun _ => trivial) (fun _ => trivial) fun _ _ _ => trivial

/-! ## Its runs -/

theorem noise_still {repo : Repo} {c : At Cmd} {s s' : Host} {b : Ans Cmd.Out c} (hc : Noise c.cmd = true)
    (h : Sem repo c s b s') : Moved s s' := by
  obtain ⟨s₁, hm, hd⟩ := h
  obtain ⟨c, plain⟩ := c
  cases c with
  | curlNotify _ _ _ | echo _ => exact (show s' = s₁ from hd) ▸ hm
  | _ => exact absurd hc (by simp [Noise, warning])

theorem noise_able {repo : Repo} (c : At Cmd) (s : Host) (hc : Noise c.cmd = true) : ∃ b, Fine c b ∧ Sem repo c s b s := by
  obtain ⟨c, plain⟩ := c
  cases c with
  | curlNotify _ _ _ | echo _ => exact ⟨(0, ()), fun _ => rfl, s, moved_refl s, rfl⟩
  | _ => exact absurd hc (by simp [Noise, warning])

/-- The second run notifies no one, and is as the first apart from that. -/
structure Unnotified (j j' : Run) : Prop where
  info : j'.info = j.info
  heard : heard Noise j'.calls = heard Noise j.calls
  keeps : ∀ x ∈ j'.calls, Quiet x.call.cmd

theorem unnotified {j j' : Run} (h : Sheds Quiet Noise Fine j j') : Unnotified j j' := ⟨h.info, h.heard, h.keeps⟩

/-- Runs one after another, each stopped anywhere or not, are those of a script that has
    no URL and notifies no one, if the warnings get written: run by run the same commands
    are answered the same, apart from notifications and warnings, and a run that has ended
    has ended alike. And whatever that script can do, this one can. -/
theorem runs_without_notifying (repo : Repo) (init : Host → Prop) :
    (∀ h s, History (Sem repo) init h s → (∀ j ∈ h, ∀ x ∈ j.calls, x.call.cmd = warning → x.ans.1 = 0) →
      ∃ h' s', Serial (Sem repo) (fun i => quietly i false) init h' s' ∧ Moved s' s ∧
        List.Forall₂ (fun j j' => Unnotified j j' ∧ ∀ e, j.prog = .ret e → j'.prog = .ret e) h h') ∧
    ∀ h' s, Serial (Sem repo) (fun i => quietly i false) init h' s →
      ∃ h, History (Sem repo) init h s ∧
        List.Forall₂ (fun j j' => Unnotified j j' ∧ ∀ e, j'.prog = .ret e → j.prog = .ret e) h h' := by
  refine ⟨fun h s hr hwarn => ?_, fun h' s hr => ?_⟩
  · obtain ⟨h', s', hr', hm, hall⟩ := serial_without Moved moved_refl (fun _ _ _ => moved_trans) absorb_sem
      (fun _ _ _ _ => noise_still) (fun i => quieter_update i false) hr fun j hj x hx _ => hwarn j hj x hx
    refine ⟨h', s', hr', hm, hall.imp fun j j' hj => ⟨unnotified hj, fun e he => ?_⟩⟩
    have hrest := hj.rest
    rw [he] at hrest
    exact without_ret hrest
  · obtain ⟨h, hr, hall⟩ := serial_with noise_able (fun i => quieter_update i false) hr
    refine ⟨h, hr, hall.imp fun j j' hj => ⟨unnotified hj.1, fun e he => ?_⟩⟩
    have hsettled := hj.2
    rw [he] at hsettled
    exact settled_ret hsettled

end Kaguya.Ops.Notify
