/-
  Kaguya.Lib.Threads — any number of programs (`Kaguya.Lib.Prog`) over one shared
  state, interleaved call by call. A thread is started at any time with some `info`
  (who runs it, on what) and runs `body info`; a step makes the pending call of one
  thread, or is an event of the environment. What a call may do and answer is a
  relation, so calls may be answered in several ways.

  The rule for such systems is rely/guarantee. `Holds p s`: whatever the others do
  while `p` waits before each of its calls, as far as that call's `rely` allows, `p`
  makes every call in a state that meets the call's `pre`. Each thread's program is
  checked by itself (`holds_bind`, `holds_mono`); `reach_holds` then
  gives the property in every state of every run in which the steps respect the
  relies, with an invariant `I` of the shared state carried along. The reach may be
  restricted to steps that meet a condition.
-/

import Kaguya.Lib.Prog

namespace Kaguya.Lib

variable {ι ε C α β σ : Type} {A : C → Type}

structure Thread (ι C : Type) (A : C → Type) (α : Type) where
  info : ι
  prog : Prog C A α

structure Pool (ι C : Type) (A : C → Type) (α σ : Type) where
  shared : σ
  threads : List (Thread ι C A α)

/-- What happens next: a thread starts, the `n`-th thread makes its call, or the
    environment moves. -/
inductive Event (ι ε : Type) where
  | start (i : ι)
  | act (n : Nat)
  | env (e : ε)

/-- A system of threads: what a call may do and answer, what the environment may do,
    and what a thread runs. -/
structure System (ι ε C : Type) (A : C → Type) (α σ : Type) where
  sem : ι → (c : C) → σ → A c → σ → Prop
  env : ε → σ → σ → Prop
  body : ι → Prog C A α

namespace System

variable (S : System ι ε C A α σ)

inductive Step : Pool ι C A α σ → Event ι ε → Pool ι C A α σ → Prop
  | start (p : Pool ι C A α σ) (i : ι) :
      Step p (.start i) { p with threads := p.threads ++ [⟨i, S.body i⟩] }
  | act (p : Pool ι C A α σ) (n : Nat) (i : ι) (c : C) (k : A c → Prog C A α) (b : A c) (s' : σ) :
      p.threads[n]? = some ⟨i, .call c k⟩ → S.sem i c p.shared b s' →
      Step p (.act n) ⟨s', p.threads.set n ⟨i, k b⟩⟩
  | env (p : Pool ι C A α σ) (e : ε) (s' : σ) : S.env e p.shared s' → Step p (.env e) { p with shared := s' }

variable (cond : Pool ι C A α σ → Event ι ε → Prop) (init : σ → Prop)

/-- The pools reached from no threads and an initial state by steps that meet `cond`. -/
inductive Reach : Pool ι C A α σ → Prop
  | init (s : σ) : init s → Reach ⟨s, []⟩
  | step {p p' : Pool ι C A α σ} (v : Event ι ε) : Reach p → cond p v → S.Step p v p' → Reach p'

variable {S cond init}

/-- The threads of a pool make no calls but those of their bodies. -/
theorem reach_makes {P : ι → C → Prop} (hb : ∀ i, (S.body i).Makes (P i)) {p : Pool ι C A α σ}
    (hp : S.Reach cond init p) : ∀ t ∈ p.threads, t.prog.Makes (P t.info) := by
  induction hp with
  | init s _ => exact fun t ht => by cases ht
  | step v _ _ hs ih =>
    cases hs with
    | start i =>
      intro t ht
      rcases List.mem_append.mp ht with ht | ht
      · exact ih t ht
      · rw [List.mem_singleton] at ht
        subst ht
        exact hb i
    | env e s' _ => exact ih
    | act n i c k b s' hn _ =>
      intro t ht
      rcases List.mem_or_eq_of_mem_set ht with ht | rfl
      · exact ih t ht
      · exact (ih _ (List.mem_of_getElem? hn)).2 b

end System

/-! ## The rule for one thread -/

section Holds

variable (sem : (c : C) → σ → A c → σ → Prop) (I : σ → Prop) (rely : C → σ → σ → Prop) (pre : C → σ → Prop)

/-- `p` meets `pre` at each of its calls, under any interference `rely` allows before
    them, and ends in `Q`. -/
def Holds : Prog C A α → (α → σ → Prop) → σ → Prop
  | .ret a, Q, s => Q a s
  | .call c k, Q, s => ∀ s', I s' → rely c s s' → pre c s' ∧ ∀ b s'', I s'' → sem c s' b s'' → Holds (k b) Q s''

variable {sem I rely pre}

theorem holds_ask {c : C} {f : A c → Prog C A α} {Q : α → σ → Prop} {s : σ} (hpre : ∀ s', rely c s s' → pre c s')
    (hk : ∀ s' b s'', rely c s s' → I s'' → sem c s' b s'' → Holds sem I rely pre (f b) Q s'') :
    Holds sem I rely pre (Prog.ask c >>= f) Q s :=
  fun s' _ hr => ⟨hpre s' hr, fun b s'' hI' hs => hk s' b s'' hr hI' hs⟩

theorem holds_mono {p : Prog C A α} {Q Q' : α → σ → Prop} {s : σ} (hQ : ∀ a s, Q a s → Q' a s)
    (h : Holds sem I rely pre p Q s) : Holds sem I rely pre p Q' s := by
  induction p generalizing s with
  | ret a => exact hQ a s h
  | call c k ih =>
    intro s' hI hr
    obtain ⟨hp, hk⟩ := h s' hI hr
    exact ⟨hp, fun b s'' hI' hs => ih b (hk b s'' hI' hs)⟩

theorem holds_bind {p : Prog C A α} {f : α → Prog C A β} {Q : β → σ → Prop} {s : σ}
    (h : Holds sem I rely pre p (fun a s => Holds sem I rely pre (f a) Q s) s) :
    Holds sem I rely pre (p >>= f) Q s := by
  induction p generalizing s with
  | ret a => exact h
  | call c k ih =>
    intro s' hI hr
    obtain ⟨hp, hk⟩ := h s' hI hr
    exact ⟨hp, fun b s'' hI' hs => ih b (hk b s'' hI' hs)⟩

/-- A program holds what neither its calls nor the others touch, if that is all its
    calls need. -/
theorem holds_of_makes {P : C → Prop} {G : σ → Prop} {p : Prog C A α} {s : σ} (hp : p.Makes P)
    (hpre : ∀ c s, P c → G s → pre c s) (hrely : ∀ c s s', G s → rely c s s' → G s')
    (hsem : ∀ c s b s', G s → sem c s b s' → G s') (hs : G s) :
    Holds sem I rely pre p (fun _ s' => G s') s := by
  induction p generalizing s with
  | ret a => exact hs
  | call c k ih =>
    intro s' _ hr
    have hs' := hrely c s s' hs hr
    exact ⟨hpre c s' hp.1 hs', fun b s'' _ hsem' => ih b (hp.2 b) (hsem c s' b s'' hs' hsem')⟩

/-- A thread that waits before a call keeps what it holds under the call's rely. -/
theorem holds_stable (hrt : ∀ c s s' s'', rely c s s' → rely c s' s'' → rely c s s'')
    {c : C} {k : A c → Prog C A α} {Q : α → σ → Prop} {s s' : σ}
    (h : Holds sem I rely pre (.call c k) Q s) (hr : rely c s s') : Holds sem I rely pre (.call c k) Q s' :=
  fun s'' hI hr' => h s'' hI (hrt c s s' s'' hr hr')

end Holds

/-! ## The rule for the system -/

section Sound

variable {S : System ι ε C A α σ} {cond : Pool ι C A α σ → Event ι ε → Prop} {init : σ → Prop}
variable {I : σ → Prop} {rely : ι → C → σ → σ → Prop} {pre : ι → C → σ → Prop}

/-- What a thread holds from here on, nothing asked of its result. -/
def Thread.Safe (S : System ι ε C A α σ) (I : σ → Prop) (rely : ι → C → σ → σ → Prop) (pre : ι → C → σ → Prop)
    (s : σ) (t : Thread ι C A α) : Prop :=
  Holds (S.sem t.info) I (rely t.info) (pre t.info) t.prog (fun _ _ => True) s

/-- The conditions of the rule: the initial states and every step keep `I`, every body
    is safe when it starts, and a step changes the state only as the relies of the
    threads that wait allow. -/
structure Sound (S : System ι ε C A α σ) (cond : Pool ι C A α σ → Event ι ε → Prop) (init : σ → Prop)
    (I : σ → Prop) (rely : ι → C → σ → σ → Prop) (pre : ι → C → σ → Prop) : Prop where
  initial : ∀ s, init s → I s
  act : ∀ i c s b s', I s → pre i c s → S.sem i c s b s' → I s'
  env : ∀ e s s', I s → S.env e s s' → I s'
  body : ∀ i s, I s → Holds (S.sem i) I (rely i) (pre i) (S.body i) (fun _ _ => True) s
  refl : ∀ i c s, rely i c s s
  trans : ∀ i c s s' s'', rely i c s s' → rely i c s' s'' → rely i c s s''
  others : ∀ p v p', S.Reach cond init p → cond p v → S.Step p v p' →
    ∀ n i c k, p.threads[n]? = some ⟨i, .call c k⟩ → v ≠ .act n → rely i c p.shared p'.shared

theorem safe_stable (h : Sound S cond init I rely pre) {p p' : Pool ι C A α σ} {v : Event ι ε}
    (hp : S.Reach cond init p) (hc : cond p v) (hs : S.Step p v p') {n : Nat} {t : Thread ι C A α}
    (ht : p.threads[n]? = some t) (hn : v ≠ .act n) (hsafe : t.Safe S I rely pre p.shared) :
    t.Safe S I rely pre p'.shared := by
  obtain ⟨i, prog⟩ := t
  cases prog with
  | ret a => exact trivial
  | call c k => exact holds_stable (h.trans i) hsafe (h.others p v p' hp hc hs n i c k ht hn)

/-- In every pool reached, the shared state meets `I` and every thread is safe. -/
theorem reach_holds (h : Sound S cond init I rely pre) {p : Pool ι C A α σ} (hp : S.Reach cond init p) :
    I p.shared ∧ ∀ t ∈ p.threads, t.Safe S I rely pre p.shared := by
  induction hp with
  | init s hs => exact ⟨h.initial s hs, fun t ht => by cases ht⟩
  | @step p p' v hp hc hs ih =>
    obtain ⟨hI, hT⟩ := ih
    have stable := @safe_stable _ _ _ _ _ _ S cond init I rely pre h p p' v hp hc hs
    cases hs with
    | start i =>
      refine ⟨hI, fun t ht => ?_⟩
      rcases List.mem_append.mp ht with ht | ht
      · exact hT t ht
      · rw [List.mem_singleton] at ht
        subst ht
        exact h.body i p.shared hI
    | env e s' he =>
      refine ⟨h.env e p.shared s' hI he, fun t ht => ?_⟩
      obtain ⟨n, hn⟩ := List.mem_iff_getElem?.mp ht
      exact stable hn (by simp) (hT t ht)
    | act n i c k b s' hn hsem =>
      have hsafe := hT _ (List.mem_of_getElem? hn)
      obtain ⟨hpre, hk⟩ := hsafe p.shared hI (h.refl i c p.shared)
      have hI' := h.act i c p.shared b s' hI hpre hsem
      refine ⟨hI', fun t ht => ?_⟩
      obtain ⟨m, hm⟩ := List.mem_iff_getElem?.mp ht
      by_cases e : n = m
      · subst e
        rw [List.getElem?_set_self (List.getElem?_eq_some_iff.mp hn).1] at hm
        cases hm
        exact hk b s' hI' hsem
      · rw [List.getElem?_set_ne e] at hm
        exact stable hm (by simpa using e) (hT t (List.mem_of_getElem? hm))

/-- The pending call of every thread meets its `pre`. -/
theorem reach_pre (h : Sound S cond init I rely pre) {p : Pool ι C A α σ} (hp : S.Reach cond init p)
    {n : Nat} {i : ι} {c : C} {k : A c → Prog C A α} (hn : p.threads[n]? = some ⟨i, .call c k⟩) :
    pre i c p.shared := by
  obtain ⟨hI, hT⟩ := reach_holds h hp
  exact (hT _ (List.mem_of_getElem? hn) p.shared hI (h.refl i c p.shared)).1

end Sound

end Kaguya.Lib
