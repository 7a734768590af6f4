/-
  Kaguya.Lib.Prog — programs over atomic calls. A program ends with a result or makes
  a call and goes on with the answer; what a call does is not part of it. The same
  program can then run alone (`run`), run against calls that fail, or run among other
  threads that act between its calls (`Kaguya.Lib.Threads`).

  A call that is answered with nothing stops the program where it stands (a panic):
  the state keeps what the program did before. `caught p` is `p` as a runtime that
  catches panics sees it.

  `Makes P p`: all the calls `p` can come to are in `P`; `Yields sem p a`: `p` can end
  with `a` when its calls are answered as `sem` allows, whoever acts between them.

  Proved: `run_bind` composes runs, `run_inv` carries an invariant of the calls to the
  run, `run_frame` the part of the state no call touches.
-/

namespace Kaguya.Lib

/-- A program over the calls `C`, where `A c` is the type of the answers to `c`. -/
inductive Prog (C : Type) (A : C → Type) (α : Type) where
  | ret (a : α)
  | call (c : C) (k : A c → Prog C A α)

namespace Prog

variable {C : Type} {A : C → Type} {α β γ σ : Type}

def bind : Prog C A α → (α → Prog C A β) → Prog C A β
  | ret a, f => f a
  | call c k, f => call c fun b => (k b).bind f

instance : Monad (Prog C A) where
  pure := ret
  bind := bind

/-- Make one call and end with its answer. -/
def ask (c : C) : Prog C A (A c) := call c ret

@[simp] theorem pure_eq (a : α) : (pure a : Prog C A α) = ret a := rfl
@[simp] theorem ret_bind (a : α) (f : α → Prog C A β) : (ret a >>= f) = f a := rfl
@[simp] theorem call_bind (c : C) (k : A c → Prog C A α) (f : α → Prog C A β) :
    (call c k >>= f) = call c fun b => k b >>= f := rfl

theorem bind_ret (p : Prog C A α) : (p >>= ret) = p := by
  induction p with
  | ret a => rfl
  | call c k ih => exact congrArg (call c) (funext ih)

theorem bind_assoc (p : Prog C A α) (f : α → Prog C A β) (g : β → Prog C A γ) :
    (p >>= f >>= g) = p >>= fun a => f a >>= g := by
  induction p with
  | ret a => rfl
  | call c k ih => exact congrArg (call c) (funext ih)

/-! ## Running alone -/

variable (h : (c : C) → σ → Option (A c) × σ)

/-- Run to the end, `h` answering the calls; no answer stops the program. -/
def run : Prog C A α → σ → Option α × σ
  | ret a, s => (some a, s)
  | call c k, s => match h c s with
    | (some b, s') => (k b).run s'
    | (none, s') => (none, s')

@[simp] theorem run_ret (a : α) (s : σ) : (ret a : Prog C A α).run h s = (some a, s) := rfl

theorem run_call (c : C) (k : A c → Prog C A α) (s : σ) :
    (call c k).run h s = match h c s with
      | (some b, s') => (k b).run h s'
      | (none, s') => (none, s') := by rw [run]

theorem run_call_some {c : C} {k : A c → Prog C A α} {s s' : σ} {b : A c} (e : h c s = (some b, s')) :
    (call c k).run h s = (k b).run h s' := by rw [run_call, e]

theorem run_call_none {c : C} {k : A c → Prog C A α} {s s' : σ} (e : h c s = (none, s')) :
    (call c k).run h s = (none, s') := by rw [run_call, e]

theorem run_bind (p : Prog C A α) (f : α → Prog C A β) (s : σ) :
    (p >>= f).run h s = match p.run h s with
      | (some a, s') => (f a).run h s'
      | (none, s') => (none, s') := by
  induction p generalizing s with
  | ret a => rfl
  | call c k ih =>
    rw [call_bind, run_call, run_call]
    rcases h c s with ⟨_ | b, s'⟩
    · rfl
    · exact ih b s'

theorem run_bind_some {p : Prog C A α} {f : α → Prog C A β} {s s' : σ} {a : α} (e : p.run h s = (some a, s')) :
    (p >>= f).run h s = (f a).run h s' := by rw [run_bind, e]

/-- The calls a run makes, in order. -/
def calls : Prog C A α → σ → List C
  | ret _, _ => []
  | call c k, s => c :: match h c s with
    | (some b, s') => (k b).calls s'
    | (none, _) => []

theorem calls_call_some {c : C} {k : A c → Prog C A α} {s s' : σ} {b : A c} (e : h c s = (some b, s')) :
    (call c k).calls h s = c :: (k b).calls h s' := by rw [calls, e]

/-! ## Calls that may panic -/

/-- `p` on calls whose answers may be none: it ends with none there, else with its
    result. -/
def caught {A' : C → Type} (f : (c : C) → A' c → Option (A c)) : Prog C A α → Prog C A' (Option α)
  | ret a => ret (some a)
  | call c k => call c fun b => (f c b).elim (ret none) fun b => (k b).caught f

theorem caught_ne_none {A' : C → Type} (f : (c : C) → A' c → Option (A c)) (p : Prog C A α) :
    p.caught f ≠ ret none := by
  cases p <;> simp [caught]

/-! ## The calls a program can make -/

/-- Every call the program can come to, whatever the answers, is one of `P`. -/
def Makes (P : C → Prop) : Prog C A α → Prop
  | ret _ => True
  | call c k => P c ∧ ∀ b, (k b).Makes P

variable {P Q : C → Prop}

@[simp] theorem makes_ret (a : α) : (ret a : Prog C A α).Makes P := trivial

theorem makes_ask {c : C} (hc : P c) : (ask c : Prog C A (A c)).Makes P := ⟨hc, fun _ => trivial⟩

theorem makes_bind {p : Prog C A α} {f : α → Prog C A β} (hp : p.Makes P) (hf : ∀ a, (f a).Makes P) :
    (p >>= f).Makes P := by
  induction p with
  | ret a => exact hf a
  | call c k ih => exact ⟨hp.1, fun b => ih b (hp.2 b)⟩

theorem makes_mono {p : Prog C A α} (hPQ : ∀ c, P c → Q c) (hp : p.Makes P) : p.Makes Q := by
  induction p with
  | ret a => trivial
  | call c k ih => exact ⟨hPQ c hp.1, fun b => ih b (hp.2 b)⟩

theorem makes_calls {p : Prog C A α} (hp : p.Makes P) {s : σ} {c : C} (hc : c ∈ p.calls h s) : P c := by
  induction p generalizing s with
  | ret a => cases hc
  | call c' k ih =>
    unfold calls at hc
    rcases List.mem_cons.mp hc with rfl | hc
    · exact hp.1
    · rcases e : h c' s with ⟨_ | b, s'⟩
      · rw [e] at hc
        cases hc
      · rw [e] at hc
        exact ih b (hp.2 b) hc

/-- What each of its calls keeps, the run of a program keeps. -/
theorem run_inv (I : σ → Prop) {p : Prog C A α} (hp : p.Makes P) (hI : ∀ c s, P c → I s → I (h c s).2) (s : σ)
    (hs : I s) : I (p.run h s).2 := by
  induction p generalizing s with
  | ret a => exact hs
  | call c k ih =>
    have hc := hI c s hp.1 hs
    rw [run_call]
    rcases e : h c s with ⟨_ | b, s'⟩
    · rw [e] at hc
      exact hc
    · rw [e] at hc
      exact ih b (hp.2 b) s' hc

/-- A program whose calls are all answered comes to its end. -/
theorem run_ends {p : Prog C A α} (hp : p.Makes P) (hP : ∀ c s, P c → (h c s).1 ≠ none) (s : σ) :
    (p.run h s).1 ≠ none := by
  induction p generalizing s with
  | ret a => simp
  | call c k ih =>
    rw [run_call]
    rcases e : h c s with ⟨_ | b, s'⟩
    · exact absurd (by rw [e]) (hP c s hp.1)
    · exact ih b (hp.2 b) s'

/-- A part of the state that each of its calls leaves alone is the same after the run. -/
theorem run_frame {τ : Type} (f : σ → τ) {p : Prog C A α} (hp : p.Makes P) (hf : ∀ c s, P c → f (h c s).2 = f s)
    (s : σ) : f (p.run h s).2 = f s :=
  run_inv h (fun s' => f s' = f s) hp (fun c s' hc hs => (hf c s' hc).trans hs) s rfl

/-! ## The answers a program can give -/

/-- The program can end with `a` when its calls are answered as `sem` allows. -/
inductive Yields (sem : (c : C) → A c → Prop) : Prog C A α → α → Prop
  | ret (a : α) : Yields sem (ret a) a
  | call {c : C} {k : A c → Prog C A α} {a : α} (b : A c) : sem c b → Yields sem (k b) a → Yields sem (call c k) a

variable {sem : (c : C) → A c → Prop}

theorem yields_ret {a b : α} : Yields sem (ret a : Prog C A α) b ↔ b = a := by
  refine ⟨fun h => ?_, fun h => ?_⟩
  · cases h
    rfl
  · rw [h]
    exact .ret a

theorem yields_call {c : C} {k : A c → Prog C A α} {a : α} :
    Yields sem (call c k) a ↔ ∃ b, sem c b ∧ Yields sem (k b) a := by
  refine ⟨fun h => ?_, fun ⟨b, hb, hk⟩ => .call b hb hk⟩
  cases h with
  | call b hb hk => exact ⟨b, hb, hk⟩

theorem yields_ask {c : C} {f : A c → Prog C A α} {a : α} :
    Yields sem (ask c >>= f) a ↔ ∃ b, sem c b ∧ Yields sem (f b) a := yields_call

end Prog

end Kaguya.Lib
