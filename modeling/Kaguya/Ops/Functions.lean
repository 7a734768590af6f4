/-
  Kaguya.Ops.Functions — what each function of the deploy script does to whatever its
  commands keep. Where the functions are called without a guard (`notify`, the pruning)
  they are `Calm`: they leave the shell only where a command failed. The backup and the
  wait for health are called under a guard, and their status tells what was done:
  `goes_backup`, `goes_waitHealthy`.
-/

import Kaguya.Ops.Phases

namespace Kaguya.Ops.Functions

open Kaguya.Lib
open Kaguya.Lib.Shell
open Kaguya.Ops.Update
open Kaguya.Ops.Runs
open Kaguya.Ops.Phases

variable {P : At Cmd → Prop} {ign : Bool}

/-! ## Notifications -/

theorem calm_log {line : Line} (h : ∀ plain, P ⟨.echo line, plain⟩) : Calm P (Passes ign) (log line ign) :=
  calm_func (calm_simple (h _) fun _ hn => hn)

theorem calm_notify {c : Config} {title body : String} (hnotice : ∀ plain, P ⟨.echo (.notice title body), plain⟩)
    (htext : ∀ s plain, P ⟨.echo (.text s), plain⟩) (hcurl : ∀ url plain, P ⟨.curlNotify title body url, plain⟩) :
    Calm P (Passes ign) (notify c title body ign) := by
  refine calm_func (calm_seq (calm_mono (fun e he => ?_) (calm_log hnotice)))
  cases e with
  | done n =>
    refine calm_seq (calm_orElse (calm_check (Or.inr rfl) ⟨fun _ => ?_, fun _ => Or.inl rfl⟩))
    refine calm_orElse (calm_simple (hcurl _ _) fun n _ => ⟨fun _ => Or.inl rfl, fun _ => ?_⟩)
    refine calm_mono (fun r hr => ?_) (calm_log (htext _))
    cases r with
    | returned n => exact hr.elim
    | _ => exact hr
  | returned n => exact he.elim
  | _ => exact he

/-! ## Pruning -/

theorem calm_prune {c : Config} (hls : ∀ dir, P ⟨.ls dir, false⟩) (hrm : ∀ lines plain, P ⟨.xargsRm lines, plain⟩) :
    Calm P (Passes ign) (prune c ign) :=
  calm_seq (calm_subst (hls _) fun _ => calm_simple (hrm _ _) fun _ hn => hn)

/-! ## The backup -/

section Guarded

variable {repo : Repo} {pre : At Cmd → Calls → Host → Prop} {G : Calls → Host → Prop} {E : Nat → Calls → Host → Prop}

/-- What was done stays done. -/
theorem keeps_made (hk : Keeps (Sem repo) pre P G E) (c : Cmd) (R : Host → Nat × c.Out → Host → Prop) :
    Keeps (Sem repo) pre P (fun l s => G l s ∧ Made l c R) E :=
  hk.and fun _ _ _ _ _ _ h _ => h.cons _

/-- The commands of the backup, which all run under its guard. -/
def Backs (c : At Cmd) : Prop := c.plain = false ∧ (Quiet c.cmd ∨ ∃ services, c.cmd = .composeStop services)

theorem goes_backupVolume (hk : Keeps (Sem repo) pre Backs G E) {service path out : String}
    {Q : Ended Nat → Calls → Host → Prop}
    (hQ : ∀ n l s, G l s → (n = 0 → ∃ cid, Made l (.tarVolume cid path out) fun _ b _ => b.1 = 0) → Q (.done n) l s)
    {l : Calls} {s : Host} (h : G l s) : Goes (Sem repo) pre (backupVolume service path out true) Q l s := by
  have hps : Backs ⟨.composePsId service, false⟩ := ⟨rfl, Or.inl trivial⟩
  have hlog : ∀ text, Backs ⟨.echo (.text text), false⟩ := fun _ => ⟨rfl, Or.inl trivial⟩
  have htar : ∀ cid, Backs ⟨.tarVolume cid path out, false⟩ := fun _ => ⟨rfl, Or.inl trivial⟩
  refine goes_func (goes_seq (goes_seq (goes_run (hk.needs _ l s hps h) (fun b s' hs _ => ?_) fun _ _ _ hb => ?_)))
  · have h₁ := hk.step hps h hs
    refine goes_seq (goes_orElse (goes_check (Or.inr rfl) ⟨fun _ => ?_, fun _ => ?_⟩))
    · exact goes_caught (hk.needs _ _ s' (htar b.2) h₁) fun b' s'' hs' =>
        hQ _ _ _ (hk.step (htar b.2) h₁ hs') fun hn => ⟨b.2, made_here hn⟩
    · refine goes_seq (goes_func (goes_caught (hk.needs _ _ s' (hlog _) h₁) fun b' s'' hs' => ?_))
      exact hQ 1 _ _ (hk.step (hlog _) h₁ hs') fun hn => by cases hn
  · exact absurd (Or.inr rfl) hb

theorem goes_stackBackup (hk : Keeps (Sem repo) pre Backs G E) {dir : String} {Q : Ended Nat → Calls → Host → Prop}
    (hfail : ∀ n l s, n ≠ 0 → G l s → Q (.done n) l s)
    (hdone : ∀ l s, G l s → (Made l (.composeStop ["lore", "auth"]) fun _ b _ => b.1 = 0) →
      (∃ cid, Made l (.tarVolume cid "/keys" (dir ++ "/auth-keys.tgz")) fun _ b _ => b.1 = 0) →
      (∃ cid, Made l (.tarVolume cid "/data" (dir ++ "/auth-data.tgz")) fun _ b _ => b.1 = 0) →
      (∃ cid, Made l (.tarVolume cid "/data" (dir ++ "/lore-data.tgz")) fun _ b _ => b.1 = 0) → Q (.done 0) l s)
    {l : Calls} {s : Host} (h : G l s) : Goes (Sem repo) pre (stackBackup dir true) Q l s := by
  have hstop : Backs ⟨.composeStop ["lore", "auth"], false⟩ := ⟨rfl, Or.inr ⟨_, rfl⟩⟩
  -- where a command fails, the rest of the list is passed over
  have hskip : ∀ n l s, n ≠ 0 → G l s → Ended.called Q (.done n) l s := hfail
  refine goes_func (goes_andThen (goes_andThen (goes_andThen (goes_caught (hk.needs _ _ _ hstop h) fun b s' hs => ?_))))
  have h₀ : G _ s' := hk.step hstop h hs
  refine ⟨fun hb => ?_, fun hb => ⟨fun e => absurd e hb, fun _ => ⟨fun e => absurd e hb, fun _ => hskip _ _ _ hb h₀⟩⟩⟩
  have hk₁ := keeps_made hk (.composeStop ["lore", "auth"]) fun _ b _ => b.1 = 0
  refine goes_backupVolume hk₁ (fun n l s h₁ hkeys => ⟨fun hn => ?_, fun hn => ?_⟩) ⟨h₀, made_here hb⟩
  · obtain ⟨cid₁, hkeys⟩ := hkeys hn
    have hk₂ := keeps_made hk₁ (.tarVolume cid₁ "/keys" (dir ++ "/auth-keys.tgz")) fun _ b _ => b.1 = 0
    refine goes_backupVolume hk₂ (fun n l s h₂ hauth => ⟨fun hn => ?_, fun hn => ?_⟩) ⟨h₁, hkeys⟩
    · obtain ⟨cid₂, hauth⟩ := hauth hn
      have hk₃ := keeps_made hk₂ (.tarVolume cid₂ "/data" (dir ++ "/auth-data.tgz")) fun _ b _ => b.1 = 0
      refine goes_backupVolume hk₃ (fun n l s h₃ hlore => ?_) ⟨h₂, hauth⟩
      by_cases hn : n = 0
      · subst hn
        exact hdone l s h₃.1.1.1 h₃.1.1.2 ⟨cid₁, h₃.1.2⟩ ⟨cid₂, h₃.2⟩ (hlore rfl)
      · exact hskip _ _ _ hn h₃.1.1.1
    · exact hskip _ _ _ hn h₂.1.1
  · exact ⟨fun e => absurd e hn, fun _ => hskip _ _ _ hn h₁.1⟩

/-- A backup whose subshell succeeds is complete. -/
theorem goes_backup (hk : Keeps (Sem repo) pre Backs G E) {dir : String} {Q : Ended Nat → Calls → Host → Prop}
    (hfail : ∀ n l s, n ≠ 0 → G l s → Q (.done n) l s) (hdone : ∀ l s, G l s → BackedUp dir l → Q (.done 0) l s)
    {l : Calls} {s : Host} (h : G l s) : Goes (Sem repo) pre (subshell (backup dir) true) Q l s := by
  have humask : Backs ⟨.umask, false⟩ := ⟨rfl, Or.inl trivial⟩
  have hmkdir : Backs ⟨.mkdir dir, false⟩ := ⟨rfl, Or.inl trivial⟩
  have htar : Backs ⟨.tarFiles (dir ++ "/config.tgz") (".env" :: configFiles), false⟩ := ⟨rfl, Or.inl trivial⟩
  have hskip : ∀ n l s, n ≠ 0 → G l s → Ended.left Q (.done n) l s := hfail
  refine goes_subshell (goes_seq (goes_caught (hk.needs _ _ _ humask h) fun b₀ s₀ hs₀ => ?_))
  have h₀ := hk.step humask h hs₀
  refine goes_andThen (goes_andThen (goes_caught (hk.needs _ _ _ hmkdir h₀) fun b₁ s₁ hs₁ => ?_))
  have h₁ : G _ s₁ := hk.step hmkdir h₀ hs₁
  refine ⟨fun _ => ?_, fun hb => ⟨fun e => absurd e hb, fun _ => hskip _ _ _ hb h₁⟩⟩
  refine goes_caught (hk.needs _ _ _ htar h₁) fun b₂ s₂ hs₂ => ?_
  have h₂ : G _ s₂ := hk.step htar h₁ hs₂
  refine ⟨fun hb => ?_, fun hb => hskip _ _ _ hb h₂⟩
  have hk' := keeps_made hk (.tarFiles (dir ++ "/config.tgz") (".env" :: configFiles)) fun _ b _ => b.1 = 0
  exact goes_stackBackup hk' (fun n l s hn h => hskip n l s hn h.1)
    (fun l s h hstop hkeys hauth hlore => hdone l s h.1 ⟨h.2, hstop, hkeys, hauth, hlore⟩) ⟨h₂, made_here hb⟩

/-! ## The wait for health -/

theorem servicesOk_eq : servicesOk true = .call ⟨.composePs, false⟩ fun r =>
    .ret (.done (if r.1 = 0 ∧ r.2 ≠ [] ∧ r.2.all running = true then 0 else 1)) := by
  refine congrArg (Prog.call _) (funext fun r => ?_)
  obtain ⟨n, out⟩ := r
  by_cases hn : n = 0
  · subst hn
    cases out with
    | nil => rfl
    | cons v out =>
      cases hr : (v :: out).all running with
      | true => simpa [Prog.bind, Ended.next, bind, orElse, Shell.test, check, Ended.leaves] using hr
      | false => simpa [Prog.bind, Ended.next, bind, orElse, Shell.test, check, Ended.leaves] using hr
  · simp [hn, Prog.bind, Ended.next, bind, orElse, Shell.test, check, Ended.leaves, return_]

theorem goes_servicesOk {Q : Ended Nat → Calls → Host → Prop} {l : Calls} {s : Host} (hpre : pre ⟨.composePs, false⟩ l s)
    (h : ∀ b s', Sem repo ⟨.composePs, false⟩ s b s' → ∀ n,
      (n = 0 → ServicesPass ⟨s, ⟨.composePs, false⟩, b, s'⟩) → Q (.done n) (⟨s, ⟨.composePs, false⟩, b, s'⟩ :: l) s') :
    Goes (Sem repo) pre (servicesOk true) Q l s := by
  rw [servicesOk_eq]
  refine ⟨hpre, fun b s' hs => h b s' hs _ fun hn => ?_⟩
  obtain ⟨n, out⟩ := b
  split at hn
  · next hb =>
    obtain ⟨rfl, hne, hall⟩ := hb
    exact ⟨s, false, out, s', rfl, hne, hall⟩
  · cases hn

theorem goes_stackHealth (hk : Keeps (Sem repo) pre (fun c => Quiet c.cmd) G E) {c : Config}
    {Q : Ended Nat → Calls → Host → Prop} {l : Calls} {s : Host}
    (hdone : ∀ n x s', x.before = s → G (x :: l) s' → (n = 0 → ProbePasses x) → Q (.done n) (x :: l) s')
    (hexit : ∀ n l s, E n l s → Q (.exited n) l s) (h : G l s) :
    Goes (Sem repo) pre (stackHealth c true) Q l s := by
  refine goes_func (goes_func ?_)
  cases hh : c.env "LORE_WEB_HOST" with
  | some host =>
    exact goes_caught (hk.needs _ _ _ trivial h) fun b s' hs =>
      hdone b.1 _ s' rfl (hk.step (c := .curlProbe (some host) "/healthz") trivial h hs) fun hn => ⟨_, _, rfl, hn⟩
  | none =>
    show Goes (Sem repo) pre (special (.curlProbe none "/healthz") true) _ l s
    refine goes_special (hk.needs _ _ _ trivial h) (fun b s' hs hb => ?_) fun b s' hs hb => ?_
    · exact hdone 0 _ s' rfl (hk.keeps _ _ _ _ _ trivial h hs fun _ => hb) fun _ => ⟨_, _, rfl, hb⟩
    · exact hexit _ _ _ (hk.fails _ _ _ _ _ trivial h hs rfl hb)

/-- One round of the wait, after the reading `x` of the clock: the third passing poll in a
    row ends the wait, and every other one is slept after. -/
theorem goes_poll (hk : Keeps (Sem repo) pre (fun c => Quiet c.cmd) G E) {t : Commit}
    (hat : ∀ l s, G l s → s.checkout = t) {c : Config} {v : Nat} {deadline now : Int} {x : Call} {l₀ : Calls} {s : Host}
    {T : Ended Nat → Calls → Host → Prop} (hx : IsDate (some now) x) (hlt : now < deadline) (hxt : x.before.checkout = t)
    (hpass : ∀ p s', G (p ++ l₀) s' → PassingPoll deadline p → ¬ v + 1 < 3 → (∀ y ∈ p, y.before.checkout = t) →
      T (.returned 0) (p ++ l₀) s')
    (hnext : ∀ n w q s', G (w :: (q ++ l₀)) s' → IsSleep w → (n = 0 ∨ n = v + 1 ∧ n < 3 ∧ PassingPoll deadline q) →
      (∀ y ∈ w :: q, y.before.checkout = t) → T (.done n) (w :: (q ++ l₀)) s')
    (hexit : ∀ n l s, E n l s → T (.exited n) l s) (h : G (x :: l₀) s) :
    Goes (Sem repo) pre (poll c v true) T (x :: l₀) s := by
  -- what follows the poll: the sleep, with the streak so far
  have hsleep : ∀ n q s', G (q ++ l₀) s' → (n = 0 ∨ n = v + 1 ∧ n < 3 ∧ PassingPoll deadline q) →
      (∀ y ∈ q, y.before.checkout = t) →
      Goes (Sem repo) pre ((simple (.sleep 5) >>= fun _ => (pure n : Sh Nat)) true) T (q ++ l₀) s' := by
    intro n q s' hq hn hqt
    refine goes_seq (goes_caught (hk.needs _ _ _ trivial hq) fun b s'' hs => ?_)
    refine hnext n _ q s'' (hk.step (c := .sleep 5) trivial hq hs) rfl hn fun y hy => ?_
    rcases List.mem_cons.mp hy with rfl | hy
    · exact hat _ _ hq
    · exact hqt y hy
  refine goes_seq (goes_ifThen (goes_andThen (goes_servicesOk (hk.needs _ _ _ trivial h) fun b s₁ hs₁ n hps => ?_)))
  have h₁ : G _ s₁ := hk.step (c := .composePs) trivial h hs₁
  refine ⟨fun hn => ?_, fun hn => ⟨fun e => absurd e hn, fun _ => ?_⟩⟩
  · refine goes_stackHealth hk (fun m z s₂ hz h₂ hprobe => ?_) hexit h₁
    have hzt : z.before.checkout = t := hz ▸ hat _ _ h₁
    have hall : ∀ y ∈ [z, ⟨s, ⟨.composePs, false⟩, b, s₁⟩, x], y.before.checkout = t := by
      intro y hy
      simp only [List.mem_cons, List.not_mem_nil, or_false] at hy
      rcases hy with rfl | rfl | rfl
      · exact hzt
      · exact hat _ _ h
      · exact hxt
    refine ⟨fun hm => ?_, fun hm => ?_⟩
    · have hpoll : PassingPoll deadline [z, ⟨s, ⟨.composePs, false⟩, b, s₁⟩, x] :=
        ⟨x, _, z, now, rfl, hx, hlt, hps hn, hprobe hm⟩
      refine goes_seq (goes_orElse (goes_check (Or.inr rfl) ?_))
      by_cases hv : v + 1 < 3
      · refine ⟨fun _ => ?_, fun hne => absurd ?_ hne⟩
        · exact hsleep (v + 1) [z, _, x] s₂ h₂ (Or.inr ⟨rfl, hv, hpoll⟩) hall
        · rw [if_pos (decide_eq_true hv)]
      · refine ⟨fun he => ?_, fun _ => ?_⟩
        · rw [if_neg (fun hd => hv (of_decide_eq_true hd))] at he
          cases he
        · exact hpass [z, _, x] s₂ h₂ hpoll hv hall
    · exact hsleep 0 [z, _, x] s₂ h₂ (Or.inl rfl) hall
  · refine hsleep 0 [_, x] s₁ h₁ (Or.inl rfl) fun y hy => ?_
    simp only [List.mem_cons, List.not_mem_nil, or_false] at hy
    rcases hy with rfl | rfl
    · exact hat _ _ h
    · exact hxt

/-- The loop of `wait_healthy`, from the reading `x` of its clock on: `v` passing polls
    end the log so far, all of them of `t`. -/
structure Waiting (G : Calls → Host → Prop) (t : Commit) (base : Calls) (x : Call) (deadline : Int) (v : Nat) (l : Calls)
    (s : Host) : Prop where
  kept : G l s
  lt : v < 3
  polls : ∃ polls, l = polls ++ x :: base ∧ Streak deadline v polls ∧ ∀ y ∈ polls, y.before.checkout = t

/-- A wait that succeeds has passed; one that fails, or is stopped, has done no harm. -/
theorem goes_waitHealthy (hk : Keeps (Sem repo) pre (fun c => Quiet c.cmd) G E) {t : Commit}
    (hat : ∀ l s, G l s → s.checkout = t) {c : Config} {rounds : Nat} {Q : Ended Nat → Calls → Host → Prop} {l : Calls}
    {s : Host} (hpass : ∀ wait s', G (wait ++ l) s' → Waited wait → (∀ y ∈ wait, y.before.checkout = t) →
      Q (.done 0) (wait ++ l) s')
    (hfail : ∀ l s, G l s → Q (.done 1) l s) (hexit : ∀ n l s, E n l s → Q (.exited n) l s)
    (hcut : ∀ l s, G l s → Q .cut l s) (h : G l s) : Goes (Sem repo) pre (waitHealthy c rounds true) Q l s := by
  refine goes_func (goes_seq (goes_seq (goes_run (hk.needs _ _ _ trivial h) (fun b₀ s₁ hs₁ _ => ?_)
    fun _ _ _ hb => absurd (Or.inr rfl) hb)))
  have h₁ : G _ s₁ := hk.step (c := .dateSeconds) trivial h hs₁
  let x₀ : Call := ⟨s, ⟨.dateSeconds, false⟩, b₀, s₁⟩
  have hx₀ : IsDate b₀.2 x₀ := ⟨s, false, b₀.1, s₁, rfl⟩
  refine goes_seq (goes_while (Waiting G t l x₀ (b₀.2.getD 0 + healthTimeout)) ?_ ?_ rounds
    ⟨h₁, by omega, [], rfl, .zero [], fun y hy => by cases hy⟩)
  · intro v l₁ s₂ hw
    obtain ⟨polls, rfl, hstreak, hpolls⟩ := hw.polls
    refine goes_seq (goes_subst (hk.needs _ _ _ trivial hw.kept) fun b₁ s₃ hs₃ => ?_)
    have h₂ : G _ s₃ := hk.step (c := .dateSeconds) trivial hw.kept hs₃
    refine goes_check (Or.inr rfl) ?_
    refine ⟨fun hbefore => ?_, fun _ => hfail _ _ h₂⟩
    have hnow : ∃ now, b₁.2 = some now ∧ now < b₀.2.getD 0 + healthTimeout := by
      cases hb : b₁.2 with
      | none =>
        rw [hb] at hbefore
        cases hbefore
      | some now =>
        rw [hb] at hbefore
        refine ⟨now, rfl, ?_⟩
        by_cases hlt : now < b₀.2.getD 0 + healthTimeout
        · exact hlt
        · rw [Option.elim, if_neg hlt] at hbefore
          cases hbefore
    obtain ⟨now, hnow, hlt⟩ := hnow
    refine goes_poll hk hat ⟨s₂, false, b₁.1, s₃, by rw [← hnow]⟩ hlt (hat _ _ hw.kept) ?_ ?_ hexit h₂
    · intro p s₄ h₃ hpoll hv hp
      have htwo : v = 2 := by
        have := hw.lt
        omega
      have e : p ++ (polls ++ x₀ :: l) = (p ++ polls ++ [x₀]) ++ l := by simp
      rw [e] at h₃ ⊢
      refine hpass _ s₄ h₃ ⟨p, polls, x₀, b₀.2, rfl, hx₀, hpoll, htwo ▸ hstreak⟩ fun y hy => ?_
      simp only [List.mem_append, List.mem_singleton] at hy
      rcases hy with (hy | hy) | rfl
      · exact hp y hy
      · exact hpolls y hy
      · exact hat _ _ h
    · intro n w q s₄ h₃ hsleep hn hq
      refine ⟨h₃, ?_, w :: (q ++ polls), by simp [x₀], ?_, fun y hy => ?_⟩
      · rcases hn with rfl | hn
        · omega
        · exact hn.2.1
      · rcases hn with rfl | hn
        · exact .zero _
        · rw [hn.1]
          exact .succ hstreak hn.2.2 hsleep
      · rcases List.mem_cons.mp hy with rfl | hy
        · exact hq _ List.mem_cons_self
        · rcases List.mem_append.mp hy with hy | hy
          · exact hq y (List.mem_cons_of_mem _ hy)
          · exact hpolls y hy
  · intro v l₁ s₂ hw
    exact hcut _ _ hw.kept

end Guarded

end Kaguya.Ops.Functions
