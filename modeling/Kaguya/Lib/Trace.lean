/-
  Kaguya.Lib.Trace — runs of a system of threads (`Kaguya.Lib.Threads`) with their
  history. A run keeps, newest first, a moment for each of its steps: the shared state
  before, what happened, and the state after. Properties that speak of more than one
  instant (what was true while a call ran, what came after what) are said of it.

  What one thread did is `own n trace`, its answered calls in order. A thread runs one
  program, so its own calls lead its body to where it stands (`run_leads`): what a
  finished thread asked and was told is read off its program alone, call by call
  (`leads_ask`, `leads_bind_ret`).

  `change_between` finds, between two instants at which a property of the shared state
  differs, the step that ended it.
-/

import Kaguya.Lib.Threads
import Mathlib.Data.List.Forall2

namespace Kaguya.Lib

variable {ι ε C α β σ : Type} {A : C → Type}

/-- A call as it was answered, with the shared state around it. -/
structure Answered (C : Type) (A : C → Type) (σ : Type) where
  before : σ
  call : C
  ans : A call
  after : σ

/-- Less of the state around a call. -/
def Answered.map {τ : Type} (f : σ → τ) (x : Answered C A σ) : Answered C A τ := ⟨f x.before, x.call, x.ans, f x.after⟩

/-! ## The path of one program -/

namespace Prog

/-- `p` comes to `q` when its calls are answered as listed. -/
inductive Leads : Prog C A α → List (Answered C A σ) → Prog C A α → Prop
  | nil (p : Prog C A α) : Leads p [] p
  | cons {c : C} {k : A c → Prog C A α} {s s' : σ} {b : A c} {l : List (Answered C A σ)} {q : Prog C A α} :
      Leads (k b) l q → Leads (.call c k) (⟨s, c, b, s'⟩ :: l) q

theorem leads_snoc {p : Prog C A α} {l : List (Answered C A σ)} {c : C} {k : A c → Prog C A α}
    (h : Leads p l (.call c k)) (s : σ) (b : A c) (s' : σ) : Leads p (l ++ [⟨s, c, b, s'⟩]) (k b) := by
  generalize e : Prog.call c k = q at h
  induction h with
  | nil p =>
    rw [← e]
    exact .cons (.nil _)
  | cons _ ih => exact .cons (ih e)

/-- The path of a program says nothing of the state. -/
theorem leads_map {τ : Type} (f : σ → τ) {p q : Prog C A α} {l : List (Answered C A σ)} (h : Leads p l q) :
    Leads p (l.map (Answered.map f)) q := by
  induction h with
  | nil p => exact .nil p
  | cons _ ih => exact .cons ih

theorem leads_ret {a : α} {l : List (Answered C A σ)} {q : Prog C A α} (h : Leads (.ret a) l q) :
    l = [] ∧ q = .ret a := by
  cases h
  exact ⟨rfl, rfl⟩

/-- A program that starts with a call has made it, or stands before it. -/
theorem leads_call {c : C} {k : A c → Prog C A α} {l : List (Answered C A σ)} {q : Prog C A α}
    (h : Leads (.call c k) l q) :
    (l = [] ∧ q = .call c k) ∨ ∃ s b s' l', l = ⟨s, c, b, s'⟩ :: l' ∧ Leads (k b) l' q := by
  cases h with
  | nil => exact Or.inl ⟨rfl, rfl⟩
  | cons h => exact Or.inr ⟨_, _, _, _, rfl, h⟩

theorem leads_ask {c : C} {f : A c → Prog C A α} {l : List (Answered C A σ)} {q : Prog C A α}
    (h : Leads (ask c >>= f) l q) :
    (l = [] ∧ q = ask c >>= f) ∨ ∃ s b s' l', l = ⟨s, c, b, s'⟩ :: l' ∧ Leads (f b) l' q := leads_call h

/-- A program that starts with a call and is done has made it. -/
theorem leads_ask_ret {c : C} {f : A c → Prog C A α} {l : List (Answered C A σ)} {a : α}
    (h : Leads (ask c >>= f) l (.ret a)) : ∃ s b s' l', l = ⟨s, c, b, s'⟩ :: l' ∧ Leads (f b) l' (.ret a) := by
  rcases leads_ask h with h | h
  · cases h.2
  · exact h

/-- Two programs in sequence: the first is on its way, or done and the second is. -/
theorem leads_bind {p : Prog C A α} {f : α → Prog C A β} {l : List (Answered C A σ)} {q : Prog C A β}
    (h : Leads (p >>= f) l q) :
    (∃ p', Leads p l p' ∧ q = p' >>= f) ∨ ∃ l₁ l₂ a, l = l₁ ++ l₂ ∧ Leads p l₁ (.ret a) ∧ Leads (f a) l₂ q := by
  induction p generalizing l with
  | ret a => exact Or.inr ⟨[], l, a, rfl, .nil _, h⟩
  | call c k ih =>
    rcases leads_call h with h | h
    · rw [h.1]
      exact Or.inl ⟨_, .nil _, h.2⟩
    · obtain ⟨s, b, s', l', rfl, hk⟩ := h
      rcases ih b hk with h' | h'
      · obtain ⟨p', hp, hq⟩ := h'
        exact Or.inl ⟨p', .cons hp, hq⟩
      · obtain ⟨l₁, l₂, a, rfl, h₁, h₂⟩ := h'
        exact Or.inr ⟨_ :: l₁, l₂, a, rfl, .cons h₁, h₂⟩

theorem leads_bind_ret {p : Prog C A α} {f : α → Prog C A β} {l : List (Answered C A σ)} {b : β}
    (h : Leads (p >>= f) l (.ret b)) :
    ∃ l₁ l₂ a, l = l₁ ++ l₂ ∧ Leads p l₁ (.ret a) ∧ Leads (f a) l₂ (.ret b) := by
  rcases leads_bind h with h' | h'
  · obtain ⟨p', hp, hq⟩ := h'
    cases p' with
    | ret a => exact ⟨l, [], a, (List.append_nil l).symm, hp, hq ▸ .nil _⟩
    | call c k => cases hq
  · exact h'

theorem leads_bind_call {p : Prog C A α} {f : α → Prog C A β} {l : List (Answered C A σ)} {c : C}
    {k : A c → Prog C A β} (h : Leads (p >>= f) l (.call c k)) :
    (∃ k', Leads p l (.call c k')) ∨
      ∃ l₁ l₂ a, l = l₁ ++ l₂ ∧ Leads p l₁ (.ret a) ∧ Leads (f a) l₂ (.call c k) := by
  rcases leads_bind h with h' | h'
  · obtain ⟨p', hp, hq⟩ := h'
    cases p' with
    | ret a => exact Or.inr ⟨l, [], a, (List.append_nil l).symm, hp, hq ▸ .nil _⟩
    | call c' k' =>
      cases hq
      exact Or.inl ⟨k', hp⟩
  · exact Or.inr h'

/-- A call that did not panic, with its answer. -/
inductive Returned {A' : C → Type} (f : (c : C) → A' c → Option (A c)) : Answered C A' σ → Answered C A σ → Prop
  | mk {s s' : σ} {c : C} {b' : A' c} {b : A c} : f c b' = some b → Returned f ⟨s, c, b', s'⟩ ⟨s, c, b, s'⟩

theorem returned_left {A' : C → Type} {f : (c : C) → A' c → Option (A c)} {l : List (Answered C A' σ)}
    {l' : List (Answered C A σ)} (h : List.Forall₂ (Returned f) l l') {x : Answered C A' σ} (hx : x ∈ l) :
    f x.call x.ans ≠ none := by
  induction h with
  | nil => cases hx
  | cons hr _ ih =>
    rcases List.mem_cons.mp hx with rfl | hx
    · obtain ⟨hb⟩ := hr
      simp [hb]
    · exact ih hx

theorem returned_right {A' : C → Type} {f : (c : C) → A' c → Option (A c)} {l : List (Answered C A' σ)}
    {l' : List (Answered C A σ)} (h : List.Forall₂ (Returned f) l l') {y : Answered C A σ} (hy : y ∈ l') :
    ∃ b', f y.call b' = some y.ans ∧ (⟨y.before, y.call, b', y.after⟩ : Answered C A' σ) ∈ l := by
  induction h with
  | nil => cases hy
  | cons hr _ ih =>
    rcases List.mem_cons.mp hy with rfl | hy
    · obtain ⟨hb⟩ := hr
      exact ⟨_, hb, List.mem_cons_self⟩
    · obtain ⟨b', hb, hx⟩ := ih hy
      exact ⟨b', hb, List.mem_cons_of_mem _ hx⟩

/-- Until a call panics, a program on calls that may panic goes as on calls that return. -/
theorem leads_caught {A' : C → Type} {f : (c : C) → A' c → Option (A c)} {p : Prog C A α}
    {l : List (Answered C A' σ)} {q : Prog C A' (Option α)} (h : Leads (p.caught f) l q)
    (hl : ∀ x ∈ l, f x.call x.ans ≠ none) :
    ∃ l' p', List.Forall₂ (Returned f) l l' ∧ Leads p l' p' ∧ q = p'.caught f := by
  induction p generalizing l with
  | ret a =>
    obtain ⟨rfl, rfl⟩ := leads_ret h
    exact ⟨[], .ret a, .nil, .nil _, rfl⟩
  | call c k ih =>
    rcases leads_call h with ⟨rfl, rfl⟩ | ⟨s, b', s', l₁, rfl, h₁⟩
    · exact ⟨[], .call c k, .nil, .nil _, rfl⟩
    · obtain ⟨b, hb⟩ := Option.ne_none_iff_exists'.mp (hl _ List.mem_cons_self)
      rw [hb, Option.elim_some] at h₁
      obtain ⟨l', p', hl', hp, hq⟩ := ih b h₁ fun x hx => hl x (List.mem_cons_of_mem _ hx)
      exact ⟨_ :: l', p', .cons (.mk hb) hl', .cons hp, hq⟩

/-- Each answered call is one the program can make. -/
theorem leads_makes {P : C → Prop} {p q : Prog C A α} {l : List (Answered C A σ)} (h : Leads p l q)
    (hp : p.Makes P) : (∀ x ∈ l, P x.call) ∧ q.Makes P := by
  induction h with
  | nil p => exact ⟨fun x hx => (by cases hx), hp⟩
  | cons _ ih =>
    obtain ⟨hl, hq⟩ := ih (hp.2 _)
    refine ⟨fun x hx => ?_, hq⟩
    rcases List.mem_cons.mp hx with rfl | hx
    · exact hp.1
    · exact hl x hx

end Prog

/-! ## Runs with their history -/

/-- What a step did: thread `n` started on `i`, thread `n` made a call and was answered,
    or the environment moved. -/
inductive Did (ι ε C : Type) (A : C → Type) where
  | started (n : Nat) (i : ι)
  | called (n : Nat) (c : C) (b : A c)
  | moved (e : ε)

structure Moment (ι ε C : Type) (A : C → Type) (σ : Type) where
  before : σ
  did : Did ι ε C A
  after : σ

/-- Newest first. -/
abbrev Trace (ι ε C : Type) (A : C → Type) (σ : Type) := List (Moment ι ε C A σ)

namespace Trace

/-- The calls that thread `n` made, in order. -/
def own (n : Nat) : Trace ι ε C A σ → List (Answered C A σ)
  | [] => []
  | ⟨s, .called m c b, s'⟩ :: trace => if m = n then own n trace ++ [⟨s, c, b, s'⟩] else own n trace
  | _ :: trace => own n trace

@[simp] theorem own_nil (n : Nat) : own n ([] : Trace ι ε C A σ) = [] := rfl

@[simp] theorem own_called (n : Nat) (s : σ) (c : C) (b : A c) (s' : σ) (trace : Trace ι ε C A σ) :
    own n (⟨s, .called n c b, s'⟩ :: trace) = own n trace ++ [⟨s, c, b, s'⟩] := if_pos rfl

theorem own_other {m n : Nat} (h : m ≠ n) (s : σ) (c : C) (b : A c) (s' : σ) (trace : Trace ι ε C A σ) :
    own n (⟨s, .called m c b, s'⟩ :: trace) = own n trace := if_neg h

@[simp] theorem own_started (n m : Nat) (s : σ) (i : ι) (s' : σ) (trace : Trace ι ε C A σ) :
    own n (⟨s, .started m i, s'⟩ :: trace) = own n trace := rfl

@[simp] theorem own_moved (n : Nat) (s : σ) (e : ε) (s' : σ) (trace : Trace ι ε C A σ) :
    own n (⟨s, .moved e, s'⟩ :: trace) = own n trace := rfl

/-- A moment adds to a thread's calls at their end. -/
theorem own_cons_extends (n : Nat) (m : Moment ι ε C A σ) (trace : Trace ι ε C A σ) :
    own n trace <+: own n (m :: trace) := by
  obtain ⟨s, d, s'⟩ := m
  cases d with
  | called m c b =>
    by_cases h : m = n
    · rw [h, own_called]
      exact List.prefix_append _ _
    · exact ⟨[], by rw [own_other h, List.append_nil]⟩
  | _ => exact List.prefix_refl _

theorem own_extends (n : Nat) (late early : Trace ι ε C A σ) : own n early <+: own n (late ++ early) := by
  induction late with
  | nil => exact List.prefix_refl _
  | cons m late ih => exact ih.trans (own_cons_extends n m (late ++ early))

theorem mem_own {n : Nat} {trace : Trace ι ε C A σ} {x : Answered C A σ} :
    x ∈ own n trace ↔ (⟨x.before, .called n x.call x.ans, x.after⟩ : Moment ι ε C A σ) ∈ trace := by
  induction trace with
  | nil => simp
  | cons m trace ih =>
    obtain ⟨s, d, s'⟩ := m
    cases d with
    | called m c b =>
      by_cases h : m = n
      · subst h
        rw [own_called, List.mem_append, List.mem_singleton, ih, List.mem_cons, or_comm]
        refine or_congr_left ⟨fun e => by rw [e], fun e => ?_⟩
        obtain ⟨xs, xc, xb, xs'⟩ := x
        cases e
        rfl
      · rw [own_other h, ih, List.mem_cons]
        refine ⟨Or.inr, fun h' => h'.resolve_left fun e => ?_⟩
        injection e with _ e _
        injection e with e
        exact h e.symm
    | started _ _ => simp [ih]
    | moved _ => simp [ih]

theorem own_of_mem {n : Nat} {trace : Trace ι ε C A σ} {s s' : σ} {c : C} {b : A c}
    (h : ⟨s, .called n c b, s'⟩ ∈ trace) : (⟨s, c, b, s'⟩ : Answered C A σ) ∈ own n trace :=
  (mem_own (x := ⟨s, c, b, s'⟩)).mpr h

/-- What a thread has done is what it had done when it made the call, then the call, then
    the rest. -/
theorem own_split {n : Nat} {trace : Trace ι ε C A σ} {l₁ l₂ : List (Answered C A σ)} {x : Answered C A σ}
    (h : own n trace = l₁ ++ x :: l₂) :
    ∃ late early, trace = late ++ ⟨x.before, .called n x.call x.ans, x.after⟩ :: early ∧ own n early = l₁ := by
  induction trace generalizing l₂ with
  | nil => simp at h
  | cons m trace ih =>
    have skip : ∀ {l₂}, own n trace = l₁ ++ x :: l₂ → ∃ late early,
        m :: trace = late ++ ⟨x.before, .called n x.call x.ans, x.after⟩ :: early ∧ own n early = l₁ := by
      intro l₂ h
      obtain ⟨late, early, e, he⟩ := ih h
      exact ⟨m :: late, early, congrArg (m :: ·) e, he⟩
    obtain ⟨s, d, s'⟩ := m
    cases d with
    | started _ _ => exact skip h
    | moved _ => exact skip h
    | called m c b =>
      by_cases e : m = n
      · subst e
        rw [own_called] at h
        -- the new call is `x`, or comes after it
        rcases List.eq_nil_or_concat l₂ with rfl | ⟨l₃, y, rfl⟩
        · obtain ⟨h₁, h₂⟩ := List.append_inj' h rfl
          rw [List.cons.injEq] at h₂
          rw [← h₂.1]
          exact ⟨[], trace, rfl, h₁⟩
        · rw [List.concat_eq_append, ← List.cons_append, ← List.append_assoc] at h
          exact skip (List.append_inj' h rfl).1
      · rw [own_other e] at h
        exact skip h

/-- A thread that makes a call of a kind after one of that kind has made two. -/
theorem own_twice {n : Nat} {late early : Trace ι ε C A σ} {s s' : σ} {c : C} {b : A c} (kind : C → Bool)
    (hc : kind c = true) {x : Answered C A σ} (hx : x ∈ own n early) (hk : kind x.call = true) :
    2 ≤ (own n (late ++ ⟨s, .called n c b, s'⟩ :: early)).countP fun y => kind y.call := by
  have hle := (own_extends n late (⟨s, .called n c b, s'⟩ :: early)).sublist.countP_le (p := fun y => kind y.call)
  have hone : 0 < (own n early).countP fun y => kind y.call := List.countP_pos_iff.mpr ⟨x, hx, hk⟩
  rw [own_called, List.countP_append, List.countP_singleton, if_pos hc] at hle
  omega

/-- Thread `n` was started on `i`. -/
def Started (n : Nat) (i : ι) (trace : Trace ι ε C A σ) : Prop := ∃ m ∈ trace, m.did = .started n i

theorem Started.cons {n : Nat} {i : ι} {trace : Trace ι ε C A σ} (h : Started n i trace) (m : Moment ι ε C A σ) :
    Started n i (m :: trace) := by
  obtain ⟨m', hm, hd⟩ := h
  exact ⟨m', List.mem_cons_of_mem _ hm, hd⟩

theorem Started.append {n : Nat} {i : ι} {trace : Trace ι ε C A σ} (h : Started n i trace)
    (late : Trace ι ε C A σ) : Started n i (late ++ trace) := by
  obtain ⟨m', hm, hd⟩ := h
  exact ⟨m', List.mem_append_right late hm, hd⟩

theorem Started.left {n : Nat} {i : ι} {trace : Trace ι ε C A σ} (h : Started n i trace) (early : Trace ι ε C A σ) :
    Started n i (trace ++ early) := by
  obtain ⟨m', hm, hd⟩ := h
  exact ⟨m', List.mem_append_left early hm, hd⟩

/-- `x` was before `y`. -/
def Before (trace : Trace ι ε C A σ) (x y : Moment ι ε C A σ) : Prop :=
  ∃ late mid early, trace = late ++ y :: (mid ++ x :: early)

/-- Of two moments one was before the other. -/
theorem before_or {trace : Trace ι ε C A σ} {x y : Moment ι ε C A σ} (hx : x ∈ trace) (hy : y ∈ trace) (hne : x ≠ y) :
    Before trace x y ∨ Before trace y x := by
  obtain ⟨late, early, rfl⟩ := List.append_of_mem hx
  rcases List.mem_append.mp hy with hy | hy
  · obtain ⟨l₂, l₁, rfl⟩ := List.append_of_mem hy
    exact Or.inl ⟨l₂, l₁, early, by simp⟩
  · rcases List.mem_cons.mp hy with rfl | hy
    · exact absurd rfl hne
    · obtain ⟨l₂, l₁, rfl⟩ := List.append_of_mem hy
      exact Or.inr ⟨late, l₂, l₁, rfl⟩

/-- `s` is a state of the time that thread `n` ran, from its start to its last call. -/
def During (n : Nat) (trace : Trace ι ε C A σ) (s : σ) : Prop :=
  ∃ late m early, trace = late ++ m :: early ∧ m.before = s ∧ (∃ i, Started n i (m :: early)) ∧
    ∃ m' ∈ late ++ [m], ∃ c b, m'.did = .called n c b

end Trace

namespace System

variable (S : System ι ε C A α σ)

/-- A step, with the moment that records it. -/
inductive Happens : Pool ι C A α σ → Moment ι ε C A σ → Pool ι C A α σ → Prop
  | start (p : Pool ι C A α σ) (i : ι) :
      Happens p ⟨p.shared, .started p.threads.length i, p.shared⟩ { p with threads := p.threads ++ [⟨i, S.body i⟩] }
  | act (p : Pool ι C A α σ) (n : Nat) (i : ι) (c : C) (k : A c → Prog C A α) (b : A c) (s' : σ) :
      p.threads[n]? = some ⟨i, .call c k⟩ → S.sem i c p.shared b s' →
      Happens p ⟨p.shared, .called n c b, s'⟩ ⟨s', p.threads.set n ⟨i, k b⟩⟩
  | env (p : Pool ι C A α σ) (e : ε) (s' : σ) :
      S.env e p.shared s' → Happens p ⟨p.shared, .moved e, s'⟩ { p with shared := s' }

variable (cond : Trace ι ε C A σ → Pool ι C A α σ → Moment ι ε C A σ → Prop) (init : σ → Prop)

/-- The runs whose steps meet `cond`, each with its history and the pool it comes to. -/
inductive Run : Trace ι ε C A σ → Pool ι C A α σ → Prop
  | init (s : σ) : init s → Run [] ⟨s, []⟩
  | step {trace : Trace ι ε C A σ} {p p' : Pool ι C A α σ} (m : Moment ι ε C A σ) :
      Run trace p → cond trace p m → S.Happens p m p' → Run (m :: trace) p'

variable {S cond init}

theorem happens_before {p p' : Pool ι C A α σ} {m : Moment ι ε C A σ} (h : S.Happens p m p') :
    m.before = p.shared := by cases h <;> rfl

theorem happens_after {p p' : Pool ι C A α σ} {m : Moment ι ε C A σ} (h : S.Happens p m p') :
    m.after = p'.shared := by cases h <;> rfl

/-- A call is made by the thread that waited to make it. -/
theorem happens_called {p p' : Pool ι C A α σ} {s s' : σ} {n : Nat} {c : C} {b : A c}
    (h : S.Happens p ⟨s, .called n c b, s'⟩ p') : ∃ i k, p.threads[n]? = some ⟨i, .call c k⟩ ∧ S.sem i c s b s' ∧
      p' = ⟨s', p.threads.set n ⟨i, k b⟩⟩ := by
  generalize e : (⟨s, .called n c b, s'⟩ : Moment ι ε C A σ) = m at h
  cases h with
  | start i => cases e
  | env e' s' _ => cases e
  | act n i c k b s' hn hs =>
    cases e
    exact ⟨i, k, hn, hs, rfl⟩

theorem happens_step {p p' : Pool ι C A α σ} {m : Moment ι ε C A σ} (h : S.Happens p m p') :
    ∃ v, S.Step p v p' := by
  cases h with
  | start i => exact ⟨_, .start p i⟩
  | act n i c k b s' hn hs => exact ⟨_, .act p n i c k b s' hn hs⟩
  | env e s' he => exact ⟨_, .env p e s' he⟩

theorem run_mono {cond' : Trace ι ε C A σ → Pool ι C A α σ → Moment ι ε C A σ → Prop} {trace : Trace ι ε C A σ}
    {p : Pool ι C A α σ} (hc : ∀ trace p m, cond trace p m → cond' trace p m) (h : S.Run cond init trace p) :
    S.Run cond' init trace p := by
  induction h with
  | init s hs => exact .init s hs
  | step m _ hm hs ih => exact .step m ih (hc _ _ _ hm) hs

/-- A run goes on with a thread's start. -/
theorem run_start {trace : Trace ι ε C A σ} {p : Pool ι C A α σ} (h : S.Run cond init trace p) (i : ι)
    (hc : cond trace p ⟨p.shared, .started p.threads.length i, p.shared⟩) :
    ∃ p', S.Run cond init (⟨p.shared, .started p.threads.length i, p.shared⟩ :: trace) p' ∧ p'.shared = p.shared ∧
      p'.threads[p.threads.length]? = some ⟨i, S.body i⟩ :=
  ⟨_, .step _ h hc (.start p i), rfl, List.getElem?_concat_length⟩

/-- A run goes on with a thread's call. -/
theorem run_call {trace : Trace ι ε C A σ} {p : Pool ι C A α σ} (h : S.Run cond init trace p) (n : Nat) {i : ι} {c : C}
    {k : A c → Prog C A α} (hn : p.threads[n]? = some ⟨i, .call c k⟩) (b : A c) {s' : σ} (hs : S.sem i c p.shared b s')
    (hc : cond trace p ⟨p.shared, .called n c b, s'⟩) :
    S.Run cond init (⟨p.shared, .called n c b, s'⟩ :: trace) ⟨s', p.threads.set n ⟨i, k b⟩⟩ :=
  .step _ h hc (.act p n i c k b s' hn hs)

theorem run_act {trace : Trace ι ε C A σ} {p : Pool ι C A α σ} (h : S.Run cond init trace p) {n : Nat} {i : ι} {c : C}
    {k : A c → Prog C A α} (hn : p.threads[n]? = some ⟨i, .call c k⟩) (b : A c) (s' : σ) (hs : S.sem i c p.shared b s')
    (hc : cond trace p ⟨p.shared, .called n c b, s'⟩) :
    ∃ p', S.Run cond init (⟨p.shared, .called n c b, s'⟩ :: trace) p' ∧ p'.shared = s' ∧
      p'.threads[n]? = some ⟨i, k b⟩ :=
  ⟨_, run_call h n hn b hs hc, rfl, List.getElem?_set_self (List.getElem?_eq_some_iff.mp hn).1⟩

/-- Without its history a run is a reach. -/
theorem run_reach {trace : Trace ι ε C A σ} {p : Pool ι C A α σ} (h : S.Run cond init trace p) :
    S.Reach (fun _ _ => True) init p := by
  induction h with
  | init s hs => exact .init s hs
  | step m _ _ hs ih =>
    obtain ⟨v, hv⟩ := happens_step hs
    exact .step v ih trivial hv

/-- Each moment of a run is a step from an earlier pool of the same run. -/
theorem run_split {late early : Trace ι ε C A σ} {m : Moment ι ε C A σ} {p : Pool ι C A α σ}
    (h : S.Run cond init (late ++ m :: early) p) :
    ∃ q q', S.Run cond init early q ∧ cond early q m ∧ S.Happens q m q' ∧ S.Run cond init (m :: early) q' := by
  induction late generalizing p with
  | nil => cases h with
    | step _ hr hc hs => exact ⟨_, _, hr, hc, hs, .step m hr hc hs⟩
  | cons m' late ih => cases h with
    | step _ hr _ _ => exact ih hr

theorem run_mem {trace : Trace ι ε C A σ} {m : Moment ι ε C A σ} {p : Pool ι C A α σ} (h : S.Run cond init trace p)
    (hm : m ∈ trace) : ∃ early q q', S.Run cond init early q ∧ cond early q m ∧ S.Happens q m q' := by
  obtain ⟨late, early, rfl⟩ := List.append_of_mem hm
  obtain ⟨q, q', hr, hc, hs, _⟩ := run_split h
  exact ⟨early, q, q', hr, hc, hs⟩

/-- A thread's calls lead its body to where it stands; before it starts it has none. -/
theorem run_leads {trace : Trace ι ε C A σ} {p : Pool ι C A α σ} (h : S.Run cond init trace p) :
    (∀ n t, p.threads[n]? = some t → (S.body t.info).Leads (trace.own n) t.prog) ∧
      ∀ n, p.threads.length ≤ n → trace.own n = [] := by
  induction h with
  | init s _ => exact ⟨fun n t ht => (by cases ht), fun _ _ => rfl⟩
  | @step trace p p' m hr hc hs ih =>
    obtain ⟨hl, hn⟩ := ih
    cases hs with
    | start i =>
      refine ⟨fun n t ht => ?_, fun n hlen => ?_⟩
      · rw [Trace.own_started]
        by_cases e : n < p.threads.length
        · rw [List.getElem?_append_left e] at ht
          exact hl n t ht
        · rw [hn n (by omega)]
          have ht' := List.mem_of_getElem? ((List.getElem?_append_right (by omega)).symm.trans ht)
          rw [List.mem_singleton] at ht'
          subst ht'
          exact .nil _
      · rw [Trace.own_started]
        exact hn n (by simp at hlen; omega)
    | env e s' _ => exact ⟨hl, hn⟩
    | act m i c k b s' hm hsem =>
      have hlt := (List.getElem?_eq_some_iff.mp hm).1
      refine ⟨fun n t ht => ?_, fun n hlen => ?_⟩
      · by_cases e : m = n
        · subst e
          rw [List.getElem?_set_self hlt] at ht
          cases ht
          rw [Trace.own_called]
          exact Prog.leads_snoc (hl m _ hm) _ b s'
        · rw [List.getElem?_set_ne e] at ht
          rw [Trace.own_other e]
          exact hl n t ht
      · rw [List.length_set] at hlen
        rw [Trace.own_other (by omega)]
        exact hn n hlen

/-- Each call of a thread was answered as the system allows. -/
theorem run_sem {trace : Trace ι ε C A σ} {p : Pool ι C A α σ} (h : S.Run cond init trace p) {n : Nat}
    {t : Thread ι C A α} (ht : p.threads[n]? = some t) :
    ∀ x ∈ trace.own n, S.sem t.info x.call x.before x.ans x.after := by
  induction h generalizing t with
  | init s _ => cases ht
  | @step trace p p' m hr hc hs ih =>
    cases hs with
    | start i =>
      rw [Trace.own_started]
      by_cases e : n < p.threads.length
      · exact ih ((List.getElem?_append_left e).symm.trans ht)
      · rw [(run_leads hr).2 n (by omega)]
        exact fun x hx => by cases hx
    | env e s' _ => exact ih ht
    | act m i c k b s' hm hsem =>
      by_cases e : m = n
      · subst e
        rw [List.getElem?_set_self (List.getElem?_eq_some_iff.mp hm).1] at ht
        cases ht
        intro x hx
        rw [Trace.own_called] at hx
        rcases List.mem_append.mp hx with hx | hx
        · exact ih hm x hx
        · rw [List.mem_singleton] at hx
          subst hx
          exact hsem
      · rw [Trace.own_other e]
        exact ih ((List.getElem?_set_ne e).symm.trans ht)

/-- The pool holds the threads that have started. -/
theorem run_started {trace : Trace ι ε C A σ} {p : Pool ι C A α σ} (h : S.Run cond init trace p) {n : Nat}
    {t : Thread ι C A α} (ht : p.threads[n]? = some t) : trace.Started n t.info := by
  induction h generalizing t with
  | init s _ => cases ht
  | @step trace p p' m hr hc hs ih =>
    cases hs with
    | start i =>
      by_cases e : n < p.threads.length
      · obtain ⟨m, hm, hd⟩ := ih ((List.getElem?_append_left e).symm.trans ht)
        exact ⟨m, List.mem_cons_of_mem _ hm, hd⟩
      · have hn : n = p.threads.length := by
          have := (List.getElem?_eq_some_iff.mp ht).1
          simp at this
          omega
        subst hn
        rw [List.getElem?_concat_length] at ht
        cases ht
        exact ⟨_, List.mem_cons_self, rfl⟩
    | env e s' _ =>
      obtain ⟨m, hm, hd⟩ := ih ht
      exact ⟨m, List.mem_cons_of_mem _ hm, hd⟩
    | act m i c k b s' hm _ =>
      have hinfo : ∃ t', p.threads[n]? = some t' ∧ t'.info = t.info := by
        by_cases e : m = n
        · subst e
          rw [List.getElem?_set_self (List.getElem?_eq_some_iff.mp hm).1] at ht
          cases ht
          exact ⟨_, hm, rfl⟩
        · exact ⟨t, (List.getElem?_set_ne e).symm.trans ht, rfl⟩
      obtain ⟨t', ht', hi⟩ := hinfo
      obtain ⟨m', hm', hd⟩ := ih ht'
      exact ⟨m', List.mem_cons_of_mem _ hm', hi ▸ hd⟩

/-- A thread stays what it was started on. -/
theorem run_info {trace : Trace ι ε C A σ} {p : Pool ι C A α σ} (h : S.Run cond init trace p) {n : Nat} {i : ι}
    (hs : trace.Started n i) : ∃ prog, p.threads[n]? = some ⟨i, prog⟩ := by
  obtain ⟨m, hm, hd⟩ := hs
  induction h with
  | init s _ => cases hm
  | @step trace p p' m' hr hc hs ih =>
    rcases List.mem_cons.mp hm with rfl | hm
    · cases hs with
      | start j =>
        cases hd
        exact ⟨_, List.getElem?_concat_length⟩
      | act _ _ _ _ _ _ _ _ => cases hd
      | env _ _ _ => cases hd
    · obtain ⟨prog, hn⟩ := ih hm
      have hlt := (List.getElem?_eq_some_iff.mp hn).1
      cases hs with
      | start j => exact ⟨prog, (List.getElem?_append_left hlt).trans hn⟩
      | env e s' _ => exact ⟨prog, hn⟩
      | act k j c f b s' hk _ =>
        by_cases e : k = n
        · subst e
          rw [hn] at hk
          cases hk
          exact ⟨_, List.getElem?_set_self hlt⟩
        · exact ⟨prog, (List.getElem?_set_ne e).trans hn⟩

theorem run_started_unique {trace : Trace ι ε C A σ} {p : Pool ι C A α σ} (h : S.Run cond init trace p) {n : Nat}
    {i j : ι} (hi : trace.Started n i) (hj : trace.Started n j) : i = j := by
  obtain ⟨_, hi⟩ := run_info h hi
  obtain ⟨_, hj⟩ := run_info h hj
  rw [hi] at hj
  cases hj
  rfl

/-- The thread that made a call had been started when it did. -/
theorem run_called {late early : Trace ι ε C A σ} {n : Nat} {s s' : σ} {c : C} {b : A c} {p : Pool ι C A α σ}
    (h : S.Run cond init (late ++ ⟨s, .called n c b, s'⟩ :: early) p) {i : ι}
    (hi : Trace.Started n i (late ++ ⟨s, .called n c b, s'⟩ :: early)) : early.Started n i := by
  obtain ⟨q, q', hr, _, hs, _⟩ := run_split h
  obtain ⟨j, k, hn, _, _⟩ := happens_called hs
  have hj : early.Started n j := run_started hr hn
  have hij : i = j := run_started_unique h hi ((hj.cons _).append late)
  rw [hij]
  exact hj

/-- A thread that has made a call has been started. -/
theorem run_own_started {trace : Trace ι ε C A σ} {p : Pool ι C A α σ} (h : S.Run cond init trace p) {n : Nat}
    {x : Answered C A σ} (hx : x ∈ trace.own n) : ∃ i, trace.Started n i := by
  obtain ⟨late, early, rfl⟩ := List.append_of_mem (Trace.mem_own.mp hx)
  obtain ⟨q, q', hr, _, hs, _⟩ := run_split h
  obtain ⟨i, k, hn, _, _⟩ := happens_called hs
  exact ⟨i, ((run_started hr hn).cons _).append late⟩

/-- Before it starts a thread makes no calls. -/
theorem own_before_start {late early : Trace ι ε C A σ} {p : Pool ι C A α σ} (h : S.Run cond init (late ++ early) p)
    {n : Nat} {i : ι} (hs : Trace.Started n i late) : Trace.own n early = [] := by
  obtain ⟨m, hm, hd⟩ := hs
  obtain ⟨late₂, late₁, rfl⟩ := List.append_of_mem hm
  have h' : S.Run cond init (late₂ ++ m :: (late₁ ++ early)) p := by simpa using h
  obtain ⟨q, q', hr, _, hs, _⟩ := run_split h'
  have hn : n = q.threads.length := by
    cases hs with
    | start i =>
      cases hd
      rfl
    | act _ _ _ _ _ _ _ _ => cases hd
    | env _ _ _ => cases hd
  have hnil := (run_leads hr).2 n (by omega)
  exact List.prefix_nil.mp (hnil ▸ Trace.own_extends n late₁ early)

/-- A call of a thread that starts late is made late. -/
theorem later_call {late early : Trace ι ε C A σ} {p : Pool ι C A α σ} (h : S.Run cond init (late ++ early) p)
    {n : Nat} {i : ι} (hs : Trace.Started n i late) {x : Answered C A σ} (hx : x ∈ Trace.own n (late ++ early)) :
    ∃ late₂ late₁, late = late₂ ++ ⟨x.before, .called n x.call x.ans, x.after⟩ :: late₁ := by
  rcases List.mem_append.mp (Trace.mem_own.mp hx) with hl | he
  · exact List.append_of_mem hl
  · have hown := Trace.mem_own.mpr he
    rw [own_before_start h hs] at hown
    cases hown

/-- The states a thread's calls were made in are states of the time it ran. -/
theorem run_during {trace : Trace ι ε C A σ} {p : Pool ι C A α σ} (h : S.Run cond init trace p) {n : Nat}
    {x : Answered C A σ} (hx : x ∈ trace.own n) : trace.During n x.before := by
  obtain ⟨late, early, rfl⟩ := List.append_of_mem (Trace.mem_own.mp hx)
  obtain ⟨q, q', hr, _, hs, _⟩ := run_split h
  refine ⟨late, _, early, rfl, rfl, ?_, ⟨_, List.mem_append_right _ List.mem_cons_self, _, _, rfl⟩⟩
  obtain ⟨i, k, hn, _, _⟩ := happens_called hs
  exact ⟨i, (run_started hr hn).cons _⟩

/-- One moment leaves the state that the next finds. -/
theorem run_chain {late early : Trace ι ε C A σ} {m m' : Moment ι ε C A σ} {p : Pool ι C A α σ}
    (h : S.Run cond init (late ++ m' :: m :: early) p) : m'.before = m.after := by
  obtain ⟨q, q', hr, _, hs, _⟩ := run_split h
  cases hr with
  | step _ _ _ hs' => rw [happens_before hs, happens_after hs']

/-- What holds of the state at one instant and not at a later one was ended by a step
    in between. -/
theorem change_between (D : σ → Prop) {late mid early : Trace ι ε C A σ} {m m' : Moment ι ε C A σ}
    {p : Pool ι C A α σ} (h : S.Run cond init (late ++ m' :: (mid ++ m :: early)) p) (hm : D m.after)
    (hm' : ¬ D m'.before) : ∃ mid₂ x mid₁, mid = mid₂ ++ x :: mid₁ ∧ D x.before ∧ ¬ D x.after := by
  induction mid generalizing late m' with
  | nil =>
    rw [run_chain h] at hm'
    exact absurd hm hm'
  | cons x mid ih =>
    have hx : m'.before = x.after := run_chain h
    by_cases hd : D x.before
    · exact ⟨[], x, mid, rfl, hd, hx ▸ hm'⟩
    · have h' : S.Run cond init ((late ++ [m']) ++ x :: (mid ++ m :: early)) p := by
        simpa using h
      obtain ⟨mid₂, y, mid₁, rfl, hy⟩ := ih h' hd
      exact ⟨x :: mid₂, y, mid₁, rfl, hy⟩

/-- Between two calls of one thread, the step that ended what held after the first. The
    thread had made its calls up to the first by then, and none from the second on. -/
theorem change_between_calls (D : σ → Prop) {trace : Trace ι ε C A σ} {p : Pool ι C A α σ} {n : Nat}
    (h : S.Run cond init trace p) {l₁ l₂ : List (Answered C A σ)} {x x' : Answered C A σ}
    (hown : trace.own n = l₁ ++ x' :: l₂) (hx : x ∈ l₁) (hD : D x.after) (hD' : ¬ D x'.before) :
    ∃ late z early, trace = late ++ z :: early ∧ D z.before ∧ ¬ D z.after ∧ x ∈ Trace.own n early ∧
      Trace.own n early <+: l₁ ∧ trace.During n z.before := by
  obtain ⟨late, early', rfl, rfl⟩ := Trace.own_split hown
  obtain ⟨mid, early, rfl⟩ := List.append_of_mem (Trace.mem_own.mp hx)
  obtain ⟨mid₂, z, mid₁, rfl, hz, hz'⟩ := change_between D h hD hD'
  generalize hmx : (⟨x.before, .called n x.call x.ans, x.after⟩ : Moment ι ε C A σ) = mx at h hown ⊢
  generalize hmx' : (⟨x'.before, .called n x'.call x'.ans, x'.after⟩ : Moment ι ε C A σ) = mx' at h hown ⊢
  have hlate : late ++ mx' :: (mid₂ ++ z :: mid₁ ++ mx :: early) =
      (late ++ mx' :: mid₂) ++ z :: (mid₁ ++ mx :: early) := by simp
  have hstarted : ∃ i, Trace.Started n i (mx :: early) := by
    have hr : S.Run cond init (late ++ mx' :: (mid₂ ++ z :: mid₁) ++ mx :: early) p := by simpa using h
    obtain ⟨_, q', _, _, _, hq⟩ := run_split hr
    refine run_own_started (x := x) hq (Trace.mem_own.mpr ?_)
    rw [hmx]
    exact List.mem_cons_self
  have hearly : x ∈ Trace.own n (mid₁ ++ mx :: early) := by
    refine Trace.mem_own.mpr (List.mem_append_right _ ?_)
    rw [hmx]
    exact List.mem_cons_self
  refine ⟨_, z, _, hlate, hz, hz', hearly, ?_, ?_⟩
  · have := Trace.own_extends n (mid₂ ++ [z]) (mid₁ ++ mx :: early)
    simpa using this
  · obtain ⟨i, hi⟩ := hstarted
    refine ⟨_, z, _, hlate, rfl, ⟨i, (hi.append mid₁).cons z⟩, mx', by simp, x'.call, x'.ans, by rw [← hmx']⟩

end System

end Kaguya.Lib
