/-
  Kaguya.Lib.Beside — two systems of threads (`Kaguya.Lib.Trace`) side by side, a client
  and the service it calls. Each moves as it would alone; a step of the client may also
  ask something of the service as it stands (`link`), as that a call is answered by a
  thread that is done.

  A run of both is a run of each (`beside_client`, `beside_service`), and what a step
  asked of the service goes on to hold if the service keeps it (`beside_linked`). A
  thread that is done stays so (`happens_done`).
-/

import Kaguya.Lib.Trace

namespace Kaguya.Lib

variable {ι ε C α σ : Type} {A : C → Type} {ι' ε' C' α' σ' : Type} {A' : C' → Type}

namespace System

/-- The runs of a client and its service, each with its history and its pool. -/
inductive Beside (S : System ι ε C A α σ) (T : System ι' ε' C' A' α' σ')
    (cond : Trace ι ε C A σ → Pool ι C A α σ → Moment ι ε C A σ → Prop) (init : σ → Prop)
    (cond' : Trace ι' ε' C' A' σ' → Pool ι' C' A' α' σ' → Moment ι' ε' C' A' σ' → Prop) (init' : σ' → Prop)
    (link : Moment ι ε C A σ → Pool ι' C' A' α' σ' → Prop) :
    Trace ι ε C A σ → Pool ι C A α σ → Trace ι' ε' C' A' σ' → Pool ι' C' A' α' σ' → Prop
  | init (s : σ) (s' : σ') : init s → init' s' → Beside S T cond init cond' init' link [] ⟨s, []⟩ [] ⟨s', []⟩
  | client {trace p trace' p' q} (m : Moment ι ε C A σ) : Beside S T cond init cond' init' link trace p trace' p' →
      cond trace p m → link m p' → S.Happens p m q → Beside S T cond init cond' init' link (m :: trace) q trace' p'
  | service {trace p trace' p' q'} (m : Moment ι' ε' C' A' σ') : Beside S T cond init cond' init' link trace p trace' p' →
      cond' trace' p' m → T.Happens p' m q' → Beside S T cond init cond' init' link trace p (m :: trace') q'

variable {S : System ι ε C A α σ} {T : System ι' ε' C' A' α' σ'}
variable {cond : Trace ι ε C A σ → Pool ι C A α σ → Moment ι ε C A σ → Prop} {init : σ → Prop}
variable {cond' : Trace ι' ε' C' A' σ' → Pool ι' C' A' α' σ' → Moment ι' ε' C' A' σ' → Prop} {init' : σ' → Prop}
variable {link : Moment ι ε C A σ → Pool ι' C' A' α' σ' → Prop}
variable {trace : Trace ι ε C A σ} {p : Pool ι C A α σ} {trace' : Trace ι' ε' C' A' σ'} {p' : Pool ι' C' A' α' σ'}

theorem beside_client (h : Beside S T cond init cond' init' link trace p trace' p') : S.Run cond init trace p := by
  induction h with
  | init s s' hs _ => exact .init s hs
  | client m _ hc _ hs ih => exact .step m ih hc hs
  | service _ _ _ _ ih => exact ih

theorem beside_service (h : Beside S T cond init cond' init' link trace p trace' p') : T.Run cond' init' trace' p' := by
  induction h with
  | init s s' _ hs => exact .init s' hs
  | client _ _ _ _ _ ih => exact ih
  | service m _ hc hs ih => exact .step m ih hc hs

/-- The service first, then the client with all it asks. -/
theorem beside_of_runs (h : S.Run cond init trace p) (h' : T.Run cond' init' trace' p') (hl : ∀ m ∈ trace, link m p') :
    Beside S T cond init cond' init' link trace p trace' p' := by
  induction h with
  | init s hs =>
    clear hl
    induction h' with
    | init s' hs' => exact .init s s' hs hs'
    | step m _ hc hm ih => exact .service m ih hc hm
  | step m _ hc hs ih =>
    exact .client m (ih fun x hx => hl x (List.mem_cons_of_mem _ hx)) hc (hl m List.mem_cons_self) hs

theorem beside_linked (hkeep : ∀ m q n q', T.Happens q n q' → link m q → link m q')
    (h : Beside S T cond init cond' init' link trace p trace' p') : ∀ m ∈ trace, link m p' := by
  induction h with
  | init s s' _ _ => exact fun m hm => by cases hm
  | client m _ _ hl _ ih =>
    intro x hx
    rcases List.mem_cons.mp hx with rfl | hx
    · exact hl
    · exact ih x hx
  | service m _ _ hs ih => exact fun x hx => hkeep x _ m _ hs (ih x hx)

theorem happens_done {q : Pool ι C A α σ} {m : Moment ι ε C A σ} (hs : S.Happens p m q) {n : Nat} {i : ι} {a : α}
    (h : p.threads[n]? = some ⟨i, .ret a⟩) : q.threads[n]? = some ⟨i, .ret a⟩ := by
  cases hs with
  | start j => exact (List.getElem?_append_left (List.getElem?_eq_some_iff.mp h).1).trans h
  | env e s' _ => exact h
  | act k j c f b s' hk _ =>
    by_cases e : k = n
    · subst e
      rw [hk] at h
      cases h
    · exact (List.getElem?_set_ne e).trans h

/-- What a shared state keeps holds at the end of a run if it held after a call. -/
theorem run_keeps {P : σ → Prop} (hkeep : ∀ p m q, S.Happens p m q → P p.shared → P q.shared)
    (h : S.Run cond init trace p) {m : Moment ι ε C A σ} (hm : m ∈ trace) (hP : P m.after) : P p.shared := by
  induction h with
  | init s _ => cases hm
  | step x _ _ hs ih =>
    rcases List.mem_cons.mp hm with rfl | hm
    · rwa [happens_after hs] at hP
    · exact hkeep _ _ _ hs (ih hm)

end System

end Kaguya.Lib
