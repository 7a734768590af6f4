/-
  Kaguya.Lib.Exclusive — programs (`Kaguya.Lib.Prog`) that run at the same time, each
  behind one lock. A process makes its calls between those of the others; it takes the
  lock by a call that succeeds only while the lock is free, keeps it until it has stopped,
  and may stop anywhere. The environment moves the state at any time.

  A program that keeps to quiet calls until it has the lock (`Excludes`) is excluded:
  however the processes overlap, each has been answered, and is left, as in a series of
  runs one after another (`Kaguya.Lib.Serial`) that comes to the same state, up to moves
  of the environment (`overlap_serial`). The series has the runs in the order in which
  they took the lock, and those that have not taken it at its end.
-/

import Kaguya.Lib.Serial

namespace Kaguya.Lib

variable {ι C α σ : Type} {A : C → Type}

/-- What was answered, without the states. -/
def Answered.strip (x : Answered C A σ) : Answered C A Unit := ⟨(), x.call, x.ans, ()⟩

/-- And as if it had been in one state. -/
def Answered.still (s : σ) (x : Answered C A Unit) : Answered C A σ := ⟨s, x.call, x.ans, s⟩

theorem strip_still (s : σ) (l : Log C A Unit) : (l.map (Answered.still s)).map Answered.strip = l := by
  rw [List.map_map]
  exact List.map_id l

/-- A run of the program of `info`: what it was answered, newest first, and what is left of
    it. One that has stopped makes no more calls. -/
structure Process (ι C : Type) (A : C → Type) (α : Type) where
  info : ι
  calls : Log C A Unit
  prog : Prog C A α
  stopped : Bool

/-- The run is the process, one state to the next. -/
structure Job.Runs (j : Job ι C A α σ) (p : Process ι C A α) : Prop where
  info : j.info = p.info
  calls : j.calls.map Answered.strip = p.calls
  prog : j.prog = p.prog

section Exclusive

variable (sem : (c : C) → σ → A c → σ → Prop) (body : ι → Prog C A α) (init : σ → Prop) (env : σ → σ → Prop)
variable (takes : (c : C) → A c → Bool)

/-- The processes so far, which of them has the lock, and the state. -/
inductive Overlap : List (Process ι C A α) → Option Nat → σ → Prop
  | init (s : σ) : init s → Overlap [] none s
  | start {ps holder s} (i : ι) : Overlap ps holder s → Overlap (ps ++ [⟨i, [], body i, false⟩]) holder s
  | act {ps holder s} (n : Nat) {i : ι} {l : Log C A Unit} {c : C} {k : A c → Prog C A α} (b : A c) (s' : σ) :
      Overlap ps holder s → ps[n]? = some ⟨i, l, .call c k, false⟩ → sem c s b s' →
      (takes c b = true → holder = none ∨ holder = some n) →
      Overlap (ps.set n ⟨i, ⟨(), c, b, ()⟩ :: l, k b, false⟩) (if takes c b then some n else holder) s'
  | stop {ps holder s} (n : Nat) {p : Process ι C A α} : Overlap ps holder s → ps[n]? = some p →
      Overlap (ps.set n { p with stopped := true }) holder s
  | release {ps s} (n : Nat) {p : Process ι C A α} : Overlap ps (some n) s → ps[n]? = some p → p.stopped = true →
      Overlap ps none s
  | env {ps holder s} (s' : σ) : Overlap ps holder s → env s s' → Overlap ps holder s'

/-- The lock was taken. -/
def Held (l : Log C A Unit) : Prop := ∃ x ∈ l, takes x.call x.ans = true

/-- A call that does no more than the environment may, and is answered so in any state. -/
def Still (c : C) : Prop := ∀ s b s', sem c s b s' → env s s' ∧ ∀ t, sem c t b t

/-- The conditions: what a call does, it does after moves of the environment too; taking
    the lock is quiet, and so is what a program does before it. -/
structure Excludes : Prop where
  refl : ∀ s, env s s
  trans : ∀ s s' s'', env s s' → env s' s'' → env s s''
  absorb : ∀ c s s₁ b s', env s s₁ → sem c s₁ b s' → sem c s b s'
  taking : ∀ c b, takes c b = true → Still sem env c
  guarded : ∀ i, Goes (fun _ (_ : Unit) _ _ => True) (fun c l _ => Held takes l ∨ Still sem env c) (body i)
    (fun _ _ _ => True) [] ()

variable {sem body init env takes}

/-- The process of a run that has not stopped. -/
def Job.process (j : Job ι C A α σ) : Process ι C A α := ⟨j.info, j.calls.map Answered.strip, j.prog, false⟩

/-- A process that no other keeps from the lock goes on as it is answered. -/
theorem overlap_play {f : (c : C) → σ → A c × σ} (hf : ∀ c s, sem c s (f c s).1 (f c s).2) (k : Nat)
    {ps : List (Process ι C A α)} {holder : Option Nat} {n : Nat} {j : Job ι C A α σ} {s : σ}
    (h : Overlap sem body init env takes ps holder s) (hs : j.state = s) (hn : ps[n]? = some j.process)
    (hl : holder = none ∨ holder = some n) :
    ∃ ps' holder', Overlap sem body init env takes ps' holder' (j.play f k).state ∧
      ps'[n]? = some (j.play f k).process ∧ (∀ m, n ≠ m → ps'[m]? = ps[m]?) ∧ (holder' = none ∨ holder' = some n) := by
  induction k generalizing ps holder j s with
  | zero => exact ⟨ps, holder, hs ▸ h, hn, fun _ _ => rfl, hl⟩
  | succ k ih =>
    obtain ⟨i, s₀, l, s', p⟩ := j
    cases hs
    cases p with
    | ret a => exact ⟨ps, holder, h, hn, fun _ _ => rfl, hl⟩
    | call c p =>
      have hact := Overlap.act n (f c s').1 (f c s').2 h hn (hf c s') fun _ => hl
      have hlt := (List.getElem?_eq_some_iff.mp hn).1
      have hl' : (if takes c (f c s').1 then some n else holder) = none ∨
          (if takes c (f c s').1 then some n else holder) = some n := by
        split
        · exact Or.inr rfl
        · exact hl
      obtain ⟨ps', holder', h', hn', hothers, hl''⟩ := ih (j := ⟨i, s₀, ⟨s', c, (f c s').1, (f c s').2⟩ :: l, _, _⟩) hact rfl
        (List.getElem?_set_self hlt) hl'
      exact ⟨ps', holder', h', hn', fun m hm => (hothers m hm).trans (List.getElem?_set_ne hm), hl''⟩

/-- A run that has made only quiet calls can be put after any series. -/
def Replays (sem : (c : C) → σ → A c → σ → Prop) (body : ι → Prog C A α) (init : σ → Prop) (p : Process ι C A α) : Prop :=
  ∀ h s, Serial sem body init h s →
    Serial sem body init (⟨p.info, s, p.calls.map (Answered.still s), s, p.prog⟩ :: h) s

/-- Where the processes are: the series of those that have taken the lock, the one that has
    it last, and the others on their quiet ways. -/
structure Ordered (sem : (c : C) → σ → A c → σ → Prop) (body : ι → Prog C A α) (init : σ → Prop)
    (env : σ → σ → Prop) (takes : (c : C) → A c → Bool) (ps : List (Process ι C A α)) (holder : Option Nat) (s : σ)
    (h : List (Job ι C A α σ)) (order : List Nat) (s₀ : σ) : Prop where
  serial : Serial sem body init h s₀
  state : env s₀ s
  nodup : order.Nodup
  taken : ∀ n p, ps[n]? = some p → (n ∈ order ↔ Held takes p.calls)
  runs : List.Forall₂ (fun j n => ∃ p, ps[n]? = some p ∧ j.Runs p) h order
  quiet : ∀ p ∈ ps, ¬ Held takes p.calls → Replays sem body init p
  holds : ∀ n, holder = some n → order.head? = some n
  live : ∀ n p, ps[n]? = some p → Held takes p.calls → p.stopped = false → holder = some n
  goes : ∀ p ∈ ps, Goes (fun _ (_ : Unit) _ _ => True) (fun c l _ => Held takes l ∨ Still sem env c) p.prog
    (fun _ _ _ => True) p.calls ()

/-! ## One step -/

variable {ps : List (Process ι C A α)} {holder : Option Nat} {s s₀ : σ} {h : List (Job ι C A α σ)} {order : List Nat}

theorem held_cons {l : Log C A Unit} {x : Answered C A Unit} :
    Held takes (x :: l) ↔ takes x.call x.ans = true ∨ Held takes l := by
  simp only [Held, List.exists_mem_cons_iff]

theorem forall₂_right {β γ : Type} {R S : β → γ → Prop} {l : List β} {l' : List γ} (h : List.Forall₂ R l l')
    (hR : ∀ a b, b ∈ l' → R a b → S a b) : List.Forall₂ S l l' := by
  induction h with
  | nil => exact .nil
  | cons hr _ ih => exact .cons (hR _ _ List.mem_cons_self hr) (ih fun a b hb => hR a b (List.mem_cons_of_mem _ hb))

theorem forall₂_mem_right {β γ : Type} {R : β → γ → Prop} {l : List β} {l' : List γ} (h : List.Forall₂ R l l') {b : γ}
    (hb : b ∈ l') : ∃ a, R a b := by
  induction h with
  | nil => cases hb
  | cons hr _ ih =>
    rcases List.mem_cons.mp hb with rfl | hb
    · exact ⟨_, hr⟩
    · exact ih hb

theorem Ordered.lt (ho : Ordered sem body init env takes ps holder s h order s₀) {n : Nat} (hn : n ∈ order) :
    n < ps.length := by
  obtain ⟨_, p, hp, _⟩ := forall₂_mem_right ho.runs hn
  exact (List.getElem?_eq_some_iff.mp hp).1

theorem ordered_env (hx : Excludes sem body env takes) (ho : Ordered sem body init env takes ps holder s h order s₀)
    {s' : σ} (he : env s s') : Ordered sem body init env takes ps holder s' h order s₀ :=
  { ho with state := hx.trans _ _ _ ho.state he }

theorem ordered_start (hx : Excludes sem body env takes) (ho : Ordered sem body init env takes ps holder s h order s₀)
    (i : ι) : Ordered sem body init env takes (ps ++ [⟨i, [], body i, false⟩]) holder s h order s₀ := by
  have hfree : ¬ Held takes ([] : Log C A Unit) := fun ⟨x, hx, _⟩ => by cases hx
  have hcases : ∀ n p, (ps ++ [⟨i, [], body i, false⟩])[n]? = some p →
      ps[n]? = some p ∨ (p = ⟨i, [], body i, false⟩ ∧ ps.length ≤ n) := by
    intro n p hp
    by_cases hn : n < ps.length
    · exact Or.inl ((List.getElem?_append_left hn).symm.trans hp)
    · rw [List.getElem?_append_right (by omega)] at hp
      exact Or.inr ⟨List.mem_singleton.mp (List.mem_of_getElem? hp), by omega⟩
  constructor
  · exact ho.serial
  · exact ho.state
  · exact ho.nodup
  · intro n p hp
    rcases hcases n p hp with hp | ⟨rfl, hn⟩
    · exact ho.taken n p hp
    · exact ⟨fun hm => absurd (ho.lt hm) (by omega), fun hh => absurd hh hfree⟩
  · refine forall₂_right ho.runs fun j n hn hj => ?_
    obtain ⟨p, hp, hr⟩ := hj
    exact ⟨p, (List.getElem?_append_left (ho.lt hn)).trans hp, hr⟩
  · intro p hp hh
    rcases List.mem_append.mp hp with hp | hp
    · exact ho.quiet p hp hh
    · rw [List.mem_singleton.mp hp]
      exact fun h s hs => .start i hs
  · exact ho.holds
  · intro n p hp hh hs
    rcases hcases n p hp with hp | ⟨rfl, _⟩
    · exact ho.live n p hp hh hs
    · exact absurd hh hfree
  · intro p hp
    rcases List.mem_append.mp hp with hp | hp
    · exact ho.goes p hp
    · rw [List.mem_singleton.mp hp]
      exact hx.guarded i

/-- What is set, or was there. -/
theorem getElem?_set_cases {β : Type} {l : List β} {n m : Nat} {a b : β} (h : (l.set n a)[m]? = some b) :
    (m = n ∧ b = a) ∨ (m ≠ n ∧ l[m]? = some b) := by
  by_cases e : n = m
  · subst e
    have hlt := (List.getElem?_eq_some_iff.mp h).1
    rw [List.length_set] at hlt
    rw [List.getElem?_set_self hlt] at h
    exact Or.inl ⟨rfl, (Option.some.inj h).symm⟩
  · exact Or.inr ⟨Ne.symm e, (List.getElem?_set_ne e).symm.trans h⟩

theorem ordered_stop (ho : Ordered sem body init env takes ps holder s h order s₀) {n : Nat} {p : Process ι C A α}
    (hp : ps[n]? = some p) : Ordered sem body init env takes (ps.set n { p with stopped := true }) holder s h order s₀ := by
  have hmem := List.mem_of_getElem? hp
  have hlt := (List.getElem?_eq_some_iff.mp hp).1
  constructor
  · exact ho.serial
  · exact ho.state
  · exact ho.nodup
  · intro m q hq
    rcases getElem?_set_cases hq with ⟨rfl, rfl⟩ | ⟨_, hq⟩
    · exact ho.taken m p hp
    · exact ho.taken m q hq
  · refine forall₂_right ho.runs fun j m _ hj => ?_
    obtain ⟨q, hq, hr⟩ := hj
    by_cases e : n = m
    · subst e
      rw [hp] at hq
      cases hq
      exact ⟨_, List.getElem?_set_self hlt, hr.info, hr.calls, hr.prog⟩
    · exact ⟨q, (List.getElem?_set_ne e).trans hq, hr⟩
  · intro q hq hh
    rcases List.mem_or_eq_of_mem_set hq with hq | rfl
    · exact ho.quiet q hq hh
    · exact ho.quiet p hmem hh
  · exact ho.holds
  · intro m q hq hh hs
    rcases getElem?_set_cases hq with ⟨_, rfl⟩ | ⟨_, hq⟩
    · cases hs
    · exact ho.live m q hq hh hs
  · intro q hq
    rcases List.mem_or_eq_of_mem_set hq with hq | rfl
    · exact ho.goes q hq
    · exact ho.goes p hmem

theorem ordered_release {n : Nat} {p : Process ι C A α}
    (ho : Ordered sem body init env takes ps (some n) s h order s₀) (hp : ps[n]? = some p) (hs : p.stopped = true) :
    Ordered sem body init env takes ps none s h order s₀ := by
  refine { ho with holds := fun m e => (by cases e), live := fun m q hq hh hs' => ?_ }
  -- whoever lives behind the lock has it, and the one who has it has stopped
  obtain rfl := Option.some.inj (ho.live m q hq hh hs')
  rw [hp] at hq
  cases hq
  rw [hs] at hs'
  cases hs'

/-- A quiet call of a process without the lock. -/
theorem ordered_still (ho : Ordered sem body init env takes ps holder s h order s₀) (hx : Excludes sem body env takes)
    {n : Nat} {i : ι} {l : Log C A Unit} {c : C} {k : A c → Prog C A α} {b : A c} {s' : σ}
    (hp : ps[n]? = some ⟨i, l, .call c k, false⟩) (hs : sem c s b s') (hfree : ¬ Held takes l)
    (ht : takes c b = false) :
    Ordered sem body init env takes (ps.set n ⟨i, ⟨(), c, b, ()⟩ :: l, k b, false⟩) holder s' h order s₀ := by
  have hmem := List.mem_of_getElem? hp
  obtain ⟨hpre, hnext⟩ := ho.goes _ hmem
  obtain ⟨henv, hstill⟩ := hpre.resolve_left hfree s b s' hs
  have hfree' : ¬ Held takes (⟨(), c, b, ()⟩ :: l) := by
    rw [held_cons, ht]
    simpa using hfree
  have hout : n ∉ order := fun hn => hfree ((ho.taken n _ hp).mp hn)
  constructor
  · exact ho.serial
  · exact hx.trans _ _ _ ho.state henv
  · exact ho.nodup
  · intro m q hq
    rcases getElem?_set_cases hq with ⟨rfl, rfl⟩ | ⟨_, hq⟩
    · exact ⟨fun hm => absurd hm hout, fun hh => absurd hh hfree'⟩
    · exact ho.taken m q hq
  · refine forall₂_right ho.runs fun j m hm hj => ?_
    obtain ⟨q, hq, hr⟩ := hj
    exact ⟨q, (List.getElem?_set_ne fun e => hout (by rw [e]; exact hm)).trans hq, hr⟩
  · intro q hq hh
    rcases List.mem_or_eq_of_mem_set hq with hq | rfl
    · exact ho.quiet q hq hh
    · exact fun h t hser => .act b t (ho.quiet _ hmem hfree h t hser) (hstill t)
  · exact ho.holds
  · intro m q hq hh hst
    rcases getElem?_set_cases hq with ⟨_, rfl⟩ | ⟨_, hq⟩
    · exact absurd hh hfree'
    · exact ho.live m q hq hh hst
  · intro q hq
    rcases List.mem_or_eq_of_mem_set hq with hq | rfl
    · exact ho.goes q hq
    · exact hnext b () trivial

/-- The lock is taken: the run comes after all that have had it. -/
theorem ordered_take (ho : Ordered sem body init env takes ps none s h order s₀) (hx : Excludes sem body env takes)
    {n : Nat} {i : ι} {l : Log C A Unit} {c : C} {k : A c → Prog C A α} {b : A c} {s' : σ}
    (hp : ps[n]? = some ⟨i, l, .call c k, false⟩) (hs : sem c s b s') (hfree : ¬ Held takes l)
    (ht : takes c b = true) :
    ∃ h', Ordered sem body init env takes (ps.set n ⟨i, ⟨(), c, b, ()⟩ :: l, k b, false⟩) (some n) s' h' (n :: order) s₀ := by
  have hmem := List.mem_of_getElem? hp
  have hlt := (List.getElem?_eq_some_iff.mp hp).1
  obtain ⟨henv, hstill⟩ := hx.taking c b ht s b s' hs
  have hheld : Held takes (⟨(), c, b, ()⟩ :: l) := held_cons.mpr (Or.inl ht)
  have hout : n ∉ order := fun hn => hfree ((ho.taken n _ hp).mp hn)
  refine ⟨⟨i, s₀, ⟨s₀, c, b, s₀⟩ :: l.map (Answered.still s₀), s₀, k b⟩ :: h, ?_⟩
  constructor
  · exact .act b s₀ (ho.quiet _ hmem hfree h s₀ ho.serial) (hstill s₀)
  · exact hx.trans _ _ _ ho.state henv
  · exact List.nodup_cons.mpr ⟨hout, ho.nodup⟩
  · intro m q hq
    rcases getElem?_set_cases hq with ⟨rfl, rfl⟩ | ⟨hne, hq⟩
    · exact ⟨fun _ => hheld, fun _ => List.mem_cons_self⟩
    · rw [List.mem_cons, or_iff_right hne]
      exact ho.taken m q hq
  · refine .cons ⟨_, List.getElem?_set_self hlt, rfl, ?_, rfl⟩ (forall₂_right ho.runs fun j m hm hj => ?_)
    · rw [List.map_cons, strip_still]
      rfl
    · obtain ⟨q, hq, hr⟩ := hj
      exact ⟨q, (List.getElem?_set_ne fun e => hout (by rw [e]; exact hm)).trans hq, hr⟩
  · intro q hq hh
    rcases List.mem_or_eq_of_mem_set hq with hq | rfl
    · exact ho.quiet q hq hh
    · exact absurd hheld hh
  · exact fun m e => e ▸ rfl
  · intro m q hq hh hst
    rcases getElem?_set_cases hq with ⟨rfl, _⟩ | ⟨_, hq⟩
    · rfl
    · cases ho.live m q hq hh hst
  · intro q hq
    rcases List.mem_or_eq_of_mem_set hq with hq | rfl
    · exact ho.goes q hq
    · exact (ho.goes _ hmem).2 b () trivial

/-- A call of the process that has the lock. -/
theorem ordered_act {n : Nat} (ho : Ordered sem body init env takes ps (some n) s h order s₀)
    (hx : Excludes sem body env takes) {i : ι} {l : Log C A Unit} {c : C} {k : A c → Prog C A α} {b : A c} {s' : σ}
    (hp : ps[n]? = some ⟨i, l, .call c k, false⟩) (hs : sem c s b s') (hheld : Held takes l) :
    ∃ h', Ordered sem body init env takes (ps.set n ⟨i, ⟨(), c, b, ()⟩ :: l, k b, false⟩) (some n) s' h' order s' := by
  have hmem := List.mem_of_getElem? hp
  have hlt := (List.getElem?_eq_some_iff.mp hp).1
  have hheld' : Held takes (⟨(), c, b, ()⟩ :: l) := held_cons.mpr (Or.inr hheld)
  -- its run is the last of the series
  obtain ⟨rest, rfl⟩ := List.head?_eq_some_iff.mp (ho.holds n rfl)
  have hnodup := List.nodup_cons.mp ho.nodup
  have hruns := ho.runs
  cases hruns with
  | @cons j _ older _ hj hrest =>
    obtain ⟨q, hq, hr⟩ := hj
    rw [hp] at hq
    cases hq
    obtain ⟨i', s₁, l', s₂, prog⟩ := j
    obtain ⟨hinfo, hcalls, hprog⟩ := hr
    dsimp only at hinfo hcalls hprog
    subst hinfo hprog
    have hser := ho.serial
    obtain rfl : s₂ = s₀ := serial_state hser
    refine ⟨⟨i', s₁, ⟨s₂, c, b, s'⟩ :: l', s', k b⟩ :: older, ?_⟩
    constructor
    · exact .act b s' hser (hx.absorb _ _ _ _ _ ho.state hs)
    · exact hx.refl s'
    · exact ho.nodup
    · intro m q hq
      rcases getElem?_set_cases hq with ⟨rfl, rfl⟩ | ⟨_, hq⟩
      · exact ⟨fun _ => hheld', fun _ => List.mem_cons_self⟩
      · exact ho.taken m q hq
    · refine .cons ⟨_, List.getElem?_set_self hlt, rfl, ?_, rfl⟩ (forall₂_right hrest fun j m hm hj => ?_)
      · rw [List.map_cons, hcalls]
        rfl
      · obtain ⟨q, hq, hr⟩ := hj
        exact ⟨q, (List.getElem?_set_ne fun e => hnodup.1 (by rw [e]; exact hm)).trans hq, hr⟩
    · intro q hq hh
      rcases List.mem_or_eq_of_mem_set hq with hq | rfl
      · exact ho.quiet q hq hh
      · exact absurd hheld' hh
    · exact ho.holds
    · intro m q hq hh hst
      rcases getElem?_set_cases hq with ⟨rfl, _⟩ | ⟨_, hq⟩
      · rfl
      · exact ho.live m q hq hh hst
    · intro q hq
      rcases List.mem_or_eq_of_mem_set hq with hq | rfl
      · exact ho.goes q hq
      · exact (ho.goes _ hmem).2 b () trivial

/-! ## Every run -/

theorem overlap_ordered (hx : Excludes sem body env takes) (hr : Overlap sem body init env takes ps holder s) :
    ∃ h order s₀, Ordered sem body init env takes ps holder s h order s₀ := by
  induction hr with
  | init s hs =>
    exact ⟨[], [], s, .init s hs, hx.refl s, List.nodup_nil, fun n p hp => (by cases hp), .nil, fun p hp => (by cases hp),
      fun n e => (by cases e), fun n p hp => (by cases hp), fun p hp => by cases hp⟩
  | start i _ ih =>
    obtain ⟨h, order, s₀, ho⟩ := ih
    exact ⟨h, order, s₀, ordered_start hx ho i⟩
  | stop n _ hp ih =>
    obtain ⟨h, order, s₀, ho⟩ := ih
    exact ⟨h, order, s₀, ordered_stop ho hp⟩
  | release n _ hp hs ih =>
    obtain ⟨h, order, s₀, ho⟩ := ih
    exact ⟨h, order, s₀, ordered_release ho hp hs⟩
  | env s' _ he ih =>
    obtain ⟨h, order, s₀, ho⟩ := ih
    exact ⟨h, order, s₀, ordered_env hx ho he⟩
  | @act ps holder s n i l c k b s' _ hp hs hlock ih =>
    obtain ⟨h, order, s₀, ho⟩ := ih
    by_cases hheld : Held takes l
    · -- the process has the lock, and keeps it
      obtain rfl := ho.live n _ hp hheld rfl
      obtain ⟨h', ho'⟩ := ordered_act ho hx hp hs hheld
      rw [ite_self]
      exact ⟨h', order, s', ho'⟩
    · cases ht : takes c b with
      | false => exact ⟨h, order, s₀, ordered_still ho hx hp hs hheld ht⟩
      | true =>
        have hnone : holder = none := (hlock ht).resolve_right fun e =>
          hheld ((ho.taken n _ hp).mp (List.mem_of_mem_head? (ho.holds n e)))
        subst hnone
        obtain ⟨h', ho'⟩ := ordered_take ho hx hp hs hheld ht
        exact ⟨h', n :: order, s₀, ho'⟩

/-- The runs that have not taken the lock, after the others. -/
theorem replay_quiet (ho : Ordered sem body init env takes ps holder s h order s₀) (ns : List Nat)
    (hns : ∀ n ∈ ns, n < ps.length ∧ n ∉ order) : ∃ h', Serial sem body init (h' ++ h) s₀ ∧
      List.Forall₂ (fun j n => ∃ p, ps[n]? = some p ∧ j.Runs p) (h' ++ h) (ns ++ order) := by
  induction ns with
  | nil => exact ⟨[], ho.serial, ho.runs⟩
  | cons n ns ih =>
    obtain ⟨h', hser, hruns⟩ := ih fun m hm => hns m (List.mem_cons_of_mem _ hm)
    obtain ⟨hlt, hout⟩ := hns n List.mem_cons_self
    have hp : ps[n]? = some ps[n] := List.getElem?_eq_getElem hlt
    have hfree : ¬ Held takes ps[n].calls := fun hh => hout ((ho.taken n _ hp).mpr hh)
    have hreplay := ho.quiet _ (List.getElem_mem hlt) hfree (h' ++ h) s₀ hser
    exact ⟨_ :: h', hreplay, .cons ⟨_, hp, rfl, strip_still s₀ _, rfl⟩ hruns⟩

/-- Overlapping processes behind the lock are a series of runs, one for each, each answered
    and left as its process is; the series comes to the state they have come to, up to
    moves of the environment. -/
theorem overlap_serial (hx : Excludes sem body env takes) (hr : Overlap sem body init env takes ps holder s) :
    ∃ h order s₀, Serial sem body init h s₀ ∧ env s₀ s ∧ order.Perm (List.range ps.length) ∧
      List.Forall₂ (fun j n => ∃ p, ps[n]? = some p ∧ j.Runs p) h order := by
  obtain ⟨h, order, s₀, ho⟩ := overlap_ordered hx hr
  let ns := (List.range ps.length).filter (· ∉ order)
  obtain ⟨h', hser, hruns⟩ := replay_quiet ho ns fun n hn => by simpa [ns] using hn
  refine ⟨h' ++ h, ns ++ order, s₀, hser, ho.state, ?_, hruns⟩
  refine (List.perm_ext_iff_of_nodup ?_ List.nodup_range).mpr fun n => ?_
  · refine List.nodup_append.mpr ⟨List.nodup_range.filter _, ho.nodup, fun n hn m hm e => ?_⟩
    rw [List.mem_filter, decide_eq_true_eq] at hn
    exact hn.2 (e ▸ hm)
  · simp only [ns, List.mem_append, List.mem_filter, List.mem_range, decide_eq_true_eq]
    refine ⟨fun hn => hn.elim (·.1) ho.lt, fun hn => ?_⟩
    by_cases hm : n ∈ order
    · exact Or.inr hm
    · exact Or.inl ⟨hn, hm⟩

/-- A process that has the lock and has not stopped is the last run of a series that comes
    to where it stands. -/
theorem overlap_current (hx : Excludes sem body env takes) (hr : Overlap sem body init env takes ps holder s) {n : Nat}
    {p : Process ι C A α} (hp : ps[n]? = some p) (hheld : Held takes p.calls) (hlive : p.stopped = false) :
    ∃ j older s₀, Serial sem body init (j :: older) s₀ ∧ env s₀ s ∧ j.Runs p := by
  obtain ⟨h, order, s₀, ho⟩ := overlap_ordered hx hr
  have hhead := ho.holds n (ho.live n p hp hheld hlive)
  have hruns := ho.runs
  have hser := ho.serial
  cases hruns with
  | nil => cases hhead
  | cons hj _ =>
    cases hhead
    obtain ⟨q, hq, hj⟩ := hj
    rw [hp] at hq
    cases hq
    exact ⟨_, _, s₀, hser, ho.state, hj⟩

/-- Processes overlap so under more that calls may do, too. -/
theorem overlap_mono {sem' : (c : C) → σ → A c → σ → Prop} (hsem : ∀ c s b s', sem c s b s' → sem' c s b s')
    (hr : Overlap sem body init env takes ps holder s) : Overlap sem' body init env takes ps holder s := by
  induction hr with
  | init s hs => exact .init s hs
  | start i _ ih => exact .start i ih
  | act n b s' _ hp hs hlock ih => exact .act n b s' ih hp (hsem _ _ _ _ hs) hlock
  | stop n _ hp ih => exact .stop n ih hp
  | release n _ hp hs ih => exact .release n ih hp hs
  | env s' _ he ih => exact .env s' ih he

/-- Each process goes on as its program does, whatever it is answered. -/
theorem overlap_goes {pre : C → Log C A Unit → Unit → Prop} {Q : α → Log C A Unit → Unit → Prop}
    (hbody : ∀ i, Goes (fun _ (_ : Unit) _ _ => True) pre (body i) Q [] ())
    (hr : Overlap sem body init env takes ps holder s) :
    ∀ (n : Nat) (p : Process ι C A α), ps[n]? = some p → Goes (fun _ (_ : Unit) _ _ => True) pre p.prog Q p.calls () := by
  induction hr with
  | init s _ =>
    intro n p hp
    cases hp
  | @start ps holder s i _ ih =>
    intro n p hp
    by_cases hn : n < ps.length
    · exact ih n p ((List.getElem?_append_left hn).symm.trans hp)
    · rw [List.getElem?_append_right (by omega)] at hp
      rw [List.mem_singleton.mp (List.mem_of_getElem? hp)]
      exact hbody i
  | act n b s' _ hp _ _ ih =>
    intro m q hq
    rcases getElem?_set_cases hq with ⟨_, rfl⟩ | ⟨_, hq⟩
    · exact (ih n _ hp).2 b () trivial
    · exact ih m q hq
  | @stop ps holder s n p _ hp ih =>
    intro m q hq
    rcases getElem?_set_cases hq with ⟨_, rfl⟩ | ⟨_, hq⟩
    · exact ih n p hp
    · exact ih m q hq
  | release n _ _ _ ih => exact ih
  | env s' _ _ ih => exact ih

end Exclusive

end Kaguya.Lib
