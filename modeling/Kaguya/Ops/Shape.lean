/-
  Kaguya.Ops.Shape — the deploy script against itself, around the three functions that
  matter for more than their status: a notification, the backup of the volumes and the
  wait for health. A relation that every construct keeps (`Congruence`) and that relates
  the three (`Leaves`) relates the script with one configuration to the script with
  another that has the same settings elsewhere (`alike_deploying`), and the whole script
  to itself, with the same or another number of rounds (`alike_update`).
-/

import Kaguya.Lib.Alike
import Kaguya.Ops.Update

namespace Kaguya.Ops.Shape

open Kaguya.Lib.Shell
open Kaguya.Ops.Update

/-- The commands outside the three. -/
def Outside : Cmd → Prop
  | .curlNotify .. | .curlProbe .. | .tarVolume .. | .composeStop _ | .composePs | .composePsId _ | .dateSeconds | .sleep _ =>
    False
  | _ => True

/-- Configurations that differ in nothing but what the three look at. -/
structure Same (c c' : Config) : Prop where
  force : c'.force = c.force
  branch : c'.branch = c.branch
  backupRoot : c'.backupRoot = c.backupRoot
  keep : c'.keep = c.keep

theorem same_refl (c : Config) : Same c c := ⟨rfl, rfl, rfl, rfl⟩

structure Leaves (r : Relation Cmd Cmd.Out) (rounds rounds' : Nat) (c c' : Config) : Prop where
  notify : ∀ title body, Alike r (notify c title body) (notify c' title body)
  backup : ∀ dir, Alike r (stackBackup dir) (stackBackup dir)
  wait : Alike r (waitHealthy c rounds) (waitHealthy c' rounds')

/-! ## The three functions -/

section Three

variable {r : Relation Cmd Cmd.Out} {P : Cmd → Prop} (hr : Congruence P r)
include hr

theorem alike_notify (hecho : ∀ line, P (.echo line)) (hcurl : ∀ title body url, P (.curlNotify title body url)) (c : Config)
    (title body : String) : Alike r (notify c title body) (notify c title body) := by
  have hlog : ∀ line, Alike r (log line) (log line) := fun line => alike_func hr (alike_simple hr (hecho line))
  refine alike_func hr (alike_bind hr (hlog _) fun _ => ?_)
  refine alike_bind hr (alike_orElse hr (alike_test hr _) (alike_return hr 0)) fun _ => ?_
  exact alike_orElse hr (alike_simple hr (hcurl _ _ _)) (hlog _)

theorem alike_backupVolume (hecho : ∀ line, P (.echo line)) (hid : ∀ service, P (.composePsId service))
    (htar : ∀ cid path out, P (.tarVolume cid path out)) (service path out : String) :
    Alike r (backupVolume service path out) (backupVolume service path out) := by
  refine alike_func hr (alike_bind hr (alike_assign hr (c := .composePsId service) (hid _)) fun cid => ?_)
  refine alike_bind hr (alike_orElse hr (alike_test hr _) ?_) fun _ => alike_simple hr (htar _ _ _)
  exact alike_bind hr (alike_func hr (alike_simple hr (hecho _))) fun _ => alike_return hr 1

theorem alike_backups (hstop : ∀ services, P (.composeStop services)) (hecho : ∀ line, P (.echo line))
    (hid : ∀ service, P (.composePsId service)) (htar : ∀ cid path out, P (.tarVolume cid path out)) (dir : String) :
    Alike r (stackBackup dir) (stackBackup dir) := by
  have hvolume := alike_backupVolume hr hecho hid htar
  refine alike_func hr (alike_andThen hr (alike_andThen hr ?_ (hvolume _ _ _)) (hvolume _ _ _))
  exact alike_andThen hr (alike_simple hr (hstop _)) (hvolume _ _ _)

/-- The streak that a poll comes to. -/
theorem alike_streak (hps : P .composePs) (hprobe : ∀ host path, P (.curlProbe host path)) (c : Config) (streak : Nat) :
    Alike r (ifThen (andThen servicesOk (stackHealth c)) (do
        let _ ← orElse (test (streak + 1 < 3)) (return_ 0)
        return streak + 1) (return 0) : Sh Nat)
      (ifThen (andThen servicesOk (stackHealth c)) (do
        let _ ← orElse (test (streak + 1 < 3)) (return_ 0)
        return streak + 1) (return 0)) := by
  have hok : Alike r servicesOk servicesOk := by
    refine alike_func hr (alike_bind hr (alike_assignOr hr (c := .composePs) hps (alike_return hr 1)) fun out => ?_)
    exact alike_bind hr (alike_orElse hr (alike_test hr _) (alike_return hr 1)) fun _ => alike_test hr _
  have hhealth : Alike r (stackHealth c) (stackHealth c) := by
    refine alike_func hr (alike_func hr ?_)
    cases (c.env "LORE_WEB_HOST") with
    | none => exact alike_special hr (hprobe _ _)
    | some host => exact alike_simple hr (hprobe _ _)
  refine alike_ifThen hr (alike_andThen hr hok hhealth) ?_ (alike_pure hr 0)
  exact alike_bind hr (alike_orElse hr (alike_test hr _) (alike_return hr 0)) fun _ => alike_pure hr _

theorem alike_before (hdate : P .dateSeconds) (deadline : Int) : Alike r (before deadline) (before deadline) :=
  alike_bind hr (alike_subst hr (c := .dateSeconds) hdate) fun _ => alike_check hr _

theorem alike_poll (hps : P .composePs) (hprobe : ∀ host path, P (.curlProbe host path)) (hsleep : ∀ n, P (.sleep n))
    (c : Config) (streak : Nat) : Alike r (poll c streak) (poll c streak) := by
  refine alike_bind hr (alike_streak hr hps hprobe c streak) fun _ => ?_
  exact alike_bind hr (alike_simple hr (hsleep 5)) fun _ => alike_pure hr _

/-- The wait is its loop. -/
theorem alike_wait (hdate : P .dateSeconds) {c : Config} {rounds rounds' : Nat}
    (hloop : ∀ deadline, Alike r (whileDo (fun _ => before deadline) (poll c) rounds 0)
      (whileDo (fun _ => before deadline) (poll c) rounds' 0)) :
    Alike r (waitHealthy c rounds) (waitHealthy c rounds') := by
  refine alike_func hr (alike_bind hr (alike_assign hr (c := .dateSeconds) hdate) fun now => ?_)
  exact alike_bind hr (hloop _) fun _ => alike_return hr 1

end Three

section Shape

variable {r : Relation Cmd Cmd.Out} (hr : Congruence Outside r)
include hr

theorem alike_log (line : Line) : Alike r (log line) (log line) := alike_func hr (alike_simple hr trivial)

/-! ## To the lock -/

theorem alike_force (i : Invocation) : Alike r i.force i.force := by
  rw [Invocation.force]
  split
  · exact alike_pure hr _
  · exact alike_pure hr _
  · exact alike_bind hr (alike_simple hr trivial) fun _ => alike_exit hr 2

theorem alike_start (i : Invocation) : Alike r (start i) (start i) := by
  refine alike_bind hr (alike_simple hr trivial) fun _ => ?_
  refine alike_bind hr (alike_force hr i) fun force => ?_
  refine alike_bind hr (alike_orElse hr (alike_simple hr trivial)
    (alike_bind hr (alike_simple hr trivial) fun _ => alike_exit hr 1)) fun _ => ?_
  refine alike_bind hr (alike_assign hr (c := .readLines ".env") trivial) fun lines => ?_
  cases exportLines lines (i.environ.set "force" force) with
  | none => exact alike_exit hr 2
  | some env =>
    refine alike_bind hr (alike_special hr trivial) fun _ => ?_
    refine alike_bind hr (alike_special hr trivial) fun _ => ?_
    refine alike_bind hr (alike_orElse hr (alike_simple hr trivial)
      (alike_bind hr (alike_log hr _) fun _ => alike_exit hr 0)) fun _ => ?_
    exact alike_pure hr _

/-! ## Its parts -/

variable {rounds rounds' : Nat} {c c' : Config}

theorem alike_prune (hs : Same c c') : Alike r (prune c) (prune c') := by
  rw [prune, prune, hs.backupRoot, hs.keep]
  exact alike_bind hr (alike_subst hr (c := .ls c.backupRoot) trivial) fun _ => alike_simple hr trivial

variable (hl : Leaves r rounds rounds' c c')
include hl

/-- `notify ..; exit n` -/
theorem alike_notified (title body : String) (n : Nat) : Alike r (do let _ ← notify c title body; exit n : Sh Nat)
    (do let _ ← notify c' title body; exit n) := alike_bind hr (hl.notify _ _) fun _ => alike_exit hr n

theorem alike_backup (dir : String) : Alike r (backup dir) (backup dir) := by
  refine alike_bind hr (alike_simple hr trivial) fun _ => ?_
  exact alike_andThen hr (alike_andThen hr (alike_simple hr trivial) (alike_simple hr trivial)) (hl.backup dir)

/-- `docker compose up -d && wait_healthy` -/
theorem alike_up : Alike r (andThen (simple .composeUp) (waitHealthy c rounds))
    (andThen (simple .composeUp) (waitHealthy c' rounds')) :=
  alike_andThen hr (alike_simple hr trivial) hl.wait

variable (ρ : Range)

theorem alike_deployed (dir : String) : Alike r (deployed c ρ dir) (deployed c' ρ dir) := by
  refine alike_bind hr (alike_simple hr trivial) fun _ => ?_
  refine alike_bind hr (alike_orElse hr (alike_simple hr trivial) (alike_pure hr 0)) fun _ => ?_
  exact alike_notified hr hl _ _ 0

theorem alike_rollback (dir : String) : Alike r (rollback c rounds ρ dir) (rollback c' rounds' ρ dir) := by
  refine alike_bind hr (alike_simple hr trivial) fun _ => ?_
  refine alike_bind hr (alike_log hr _) fun _ => ?_
  refine alike_bind hr (alike_orElse hr (alike_simple hr trivial) (alike_pure hr 0)) fun _ => ?_
  refine alike_bind hr (alike_orElse hr (alike_simple hr trivial) (alike_pure hr 0)) fun _ => ?_
  refine alike_bind hr (alike_simple hr trivial) fun _ => ?_
  refine alike_bind hr (alike_special hr trivial) fun _ => ?_
  refine alike_bind hr (alike_ifThen hr (alike_up hr hl) (hl.notify _ _) (hl.notify _ _)) fun _ => ?_
  exact alike_exit hr 1

/-! ## The gates and the deploy -/

variable (hs : Same c c')
include hs

theorem alike_gates : Alike r (gates c) (gates c') := by
  rw [gates, gates, hs.branch, hs.force]
  refine alike_bind hr (alike_simple hr trivial) fun _ => ?_
  refine alike_bind hr (alike_assign hr (c := .gitRevParse .head) trivial) fun head => ?_
  refine alike_bind hr (alike_assign hr (c := .gitRevParse .fetchHead) trivial) fun target => ?_
  refine alike_bind hr (alike_orElse hr (alike_test hr _) (alike_exit hr 0)) fun _ => ?_
  refine alike_bind hr (alike_assign hr (c := .gitRevParseShort head) trivial) fun fromRev => ?_
  refine alike_bind hr (alike_assign hr (c := .gitRevParseShort target) trivial) fun toRev => ?_
  refine alike_bind hr (alike_ifThen hr (alike_negate hr (alike_simple hr trivial)) (alike_notified hr hl _ _ 1)
    (alike_pure hr 0)) fun _ => ?_
  refine alike_bind hr (alike_ifThen hr (alike_negate hr (alike_simple hr trivial)) (alike_notified hr hl _ _ 1)
    (alike_pure hr 0)) fun _ => ?_
  refine alike_bind hr (alike_ifThen hr ?_ (alike_bind hr (alike_log hr _) fun _ => alike_exit hr 0) (alike_pure hr 0))
    fun _ => ?_
  · refine alike_andThen hr (alike_andThen hr (alike_test hr _) (alike_simple hr trivial)) ?_
    exact alike_bind hr (alike_subst hr (c := .cat failedFile) trivial) fun failed => alike_test hr _
  refine alike_bind hr (alike_assign hr (c := .gitDiffNameOnly head target setupInputs) trivial) fun changed => ?_
  refine alike_bind hr (alike_ifThen hr (alike_test hr _) (alike_notified hr hl _ _ 0) (alike_pure hr 0)) fun _ => ?_
  refine alike_bind hr (alike_ifThen hr (alike_andThen hr (alike_test hr _)
    (alike_filtered hr (c := .gitLog head target) trivial _)) (alike_notified hr hl _ _ 0) (alike_pure hr 0)) fun _ => ?_
  exact alike_pure hr _

theorem alike_deploy : Alike r (deploy c rounds ρ) (deploy c' rounds' ρ) := by
  rw [deploy, deploy, hs.backupRoot]
  refine alike_bind hr (alike_log hr _) fun _ => ?_
  refine alike_bind hr (alike_simple hr trivial) fun _ => ?_
  refine alike_bind hr (alike_special hr trivial) fun _ => ?_
  refine alike_bind hr (alike_ifThen hr (alike_negate hr (alike_simple hr trivial))
    (alike_bind hr (alike_simple hr trivial) fun _ => alike_notified hr hl _ _ 1) (alike_pure hr 0)) fun _ => ?_
  refine alike_bind hr (alike_assign hr (c := .dateStamp) trivial) fun stamp => ?_
  refine alike_bind hr (alike_ifThen hr (alike_negate hr (alike_subshell hr (alike_backup hr hl _)))
    (alike_bind hr (alike_simple hr trivial) fun _ => ?_) (alike_pure hr 0)) fun _ => ?_
  · refine alike_bind hr (alike_orElse hr (alike_simple hr trivial) (alike_pure hr 0)) fun _ => ?_
    exact alike_notified hr hl _ _ 1
  refine alike_bind hr (alike_prune hr hs) fun _ => ?_
  refine alike_bind hr (alike_ifThen hr (alike_up hr hl) (alike_deployed hr hl ρ _) (alike_pure hr 0)) fun _ => ?_
  exact alike_rollback hr hl ρ _

/-- What the script does when it has the lock. -/
theorem alike_deploying : Alike r (gates c >>= fun ρ => deploy c rounds ρ) (gates c' >>= fun ρ => deploy c' rounds' ρ) :=
  alike_bind hr (alike_gates hr hl hs) fun ρ => alike_deploy hr hl ρ hs

end Shape

theorem alike_update {r : Relation Cmd Cmd.Out} (hr : Congruence Outside r) {i : Invocation} {rounds' : Nat}
    (hl : ∀ c, Leaves r i.rounds rounds' c c) : Alike r (update i) (update { i with rounds := rounds' }) :=
  alike_bind hr (alike_start hr i) fun c => alike_deploying hr (hl c) (same_refl c)

end Kaguya.Ops.Shape
