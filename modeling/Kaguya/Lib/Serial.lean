/-
  Kaguya.Lib.Serial — programs (`Kaguya.Lib.Prog`) run one after another on one state.
  A run may stop after any of its calls: the next one starts where it stands, and it
  never goes on. Each run keeps what it was answered, newest first.

  The rule for one program is a weakest precondition over what it has been answered:
  `Goes sem pre p Q l s` if `p`, gone on with from the history `l` and the state `s`,
  meets `pre` at each of its calls and ends in `Q`. `goes_bind` and `goes_mono` compose
  it, `goes_lift` takes it to a larger state. `serial_goes` takes it to the runs: the last
  run of a series stands where its program's `Goes` has come to, and `serial_call` goes
  back to the instant of any call.
-/

import Kaguya.Lib.Trace

namespace Kaguya.Lib

variable {ι C α β σ : Type} {A : C → Type}

/-! ## The rule for one program -/

abbrev Log (C : Type) (A : C → Type) (σ : Type) := List (Answered C A σ)

section Goes

variable (sem : (c : C) → σ → A c → σ → Prop) (pre : C → Log C A σ → σ → Prop)

def Goes : Prog C A α → (α → Log C A σ → σ → Prop) → Log C A σ → σ → Prop
  | .ret a, Q, l, s => Q a l s
  | .call c k, Q, l, s => pre c l s ∧ ∀ b s', sem c s b s' → Goes (k b) Q (⟨s, c, b, s'⟩ :: l) s'

variable {sem pre}

theorem goes_bind {p : Prog C A α} {f : α → Prog C A β} {Q : β → Log C A σ → σ → Prop} {l : Log C A σ} {s : σ}
    (h : Goes sem pre p (fun a l' s' => Goes sem pre (f a) Q l' s') l s) : Goes sem pre (p >>= f) Q l s := by
  induction p generalizing l s with
  | ret a => exact h
  | call c k ih => exact ⟨h.1, fun b s' hs => ih b (h.2 b s' hs)⟩

theorem goes_mono {p : Prog C A α} {Q Q' : α → Log C A σ → σ → Prop} {l : Log C A σ} {s : σ}
    (hQ : ∀ a l' s', Q a l' s' → Q' a l' s') (h : Goes sem pre p Q l s) : Goes sem pre p Q' l s := by
  induction p generalizing l s with
  | ret a => exact hQ a l s h
  | call c k ih => exact ⟨h.1, fun b s' hs => ih b (h.2 b s' hs)⟩

/-- A rule with what holds of the log, which only grows. -/
theorem goes_kept {pre' : C → Log C A σ → σ → Prop} {K : Log C A σ → Prop} {p : Prog C A α}
    {Q Q' : α → Log C A σ → σ → Prop} {l : Log C A σ} {s : σ} (hK : ∀ x l, K l → K (x :: l))
    (hpre : ∀ c l s, K l → pre c l s → pre' c l s) (hQ : ∀ a l s, K l → Q a l s → Q' a l s) (h : Goes sem pre p Q l s)
    (hl : K l) : Goes sem pre' p Q' l s := by
  induction p generalizing l s with
  | ret a => exact hQ a l s hl h
  | call c k ih => exact ⟨hpre c l s hl h.1, fun b s' hs => ih b (h.2 b s' hs) (hK _ _ hl)⟩

theorem goes_and {pre' : C → Log C A σ → σ → Prop} {p : Prog C A α} {Q Q' : α → Log C A σ → σ → Prop} {l : Log C A σ}
    {s : σ} (h : Goes sem pre p Q l s) (h' : Goes sem pre' p Q' l s) :
    Goes sem (fun c l s => pre c l s ∧ pre' c l s) p (fun a l s => Q a l s ∧ Q' a l s) l s := by
  induction p generalizing l s with
  | ret a => exact ⟨h, h'⟩
  | call c k ih => exact ⟨⟨h.1, h'.1⟩, fun b s' hs => ih b (h.2 b s' hs) (h'.2 b s' hs)⟩

end Goes

section Lift

variable {C' τ : Type} {A' : C' → Type}

/-- `p` with its calls among others. -/
def Prog.lift (f : C → C') (g : (c : C) → A' (f c) → A c) : Prog C A α → Prog C' A' α
  | .ret a => .ret a
  | .call c k => .call (f c) fun b => (k (g c b)).lift f g

/-- What goes well on a part of the state goes well on all of it, if the calls keep what
    holds of the rest. -/
theorem goes_lift {sem : (c : C) → σ → A c → σ → Prop} {pre : C → Log C A σ → σ → Prop}
    {sem' : (c : C') → τ → A' c → τ → Prop} {pre' : C' → Log C' A' τ → τ → Prop} {f : C → C'}
    {g : (c : C) → A' (f c) → A c} (part : τ → σ) (rest : Log C' A' τ → τ → Prop)
    (hpre : ∀ c l l' t, pre c l (part t) → rest l' t → pre' (f c) l' t)
    (hsem : ∀ c l' t b t', rest l' t → sem' (f c) t b t' →
      sem c (part t) (g c b) (part t') ∧ rest (⟨t, f c, b, t'⟩ :: l') t')
    {p : Prog C A α} {Q : α → Log C A σ → σ → Prop} {l : Log C A σ} {l' : Log C' A' τ} {t : τ}
    (h : Goes sem pre p Q l (part t)) (hrest : rest l' t) :
    Goes sem' pre' (p.lift f g) (fun a l' t => rest l' t ∧ ∃ l, Q a l (part t)) l' t := by
  induction p generalizing l l' t with
  | ret a => exact ⟨hrest, l, h⟩
  | call c k ih =>
    refine ⟨hpre c l l' t h.1 hrest, fun b t' hs => ?_⟩
    obtain ⟨hs', hrest'⟩ := hsem c l' t b t' hrest hs
    exact ih _ (h.2 _ _ hs') hrest'

end Lift

/-! ## Runs one after another -/

/-- A run of the program of `info`: the state it started in, what it was answered, the
    state it left and what is left of it. -/
structure Job (ι C : Type) (A : C → Type) (α σ : Type) where
  info : ι
  start : σ
  calls : Log C A σ
  state : σ
  prog : Prog C A α

section Serial

variable (sem : (c : C) → σ → A c → σ → Prop) (body : ι → Prog C A α) (init : σ → Prop)

/-- The runs so far, the last first, and the state they come to. -/
inductive Serial : List (Job ι C A α σ) → σ → Prop
  | init (s : σ) : init s → Serial [] s
  | start {h : List (Job ι C A α σ)} {s : σ} (i : ι) : Serial h s → Serial (⟨i, s, [], s, body i⟩ :: h) s
  | act {h : List (Job ι C A α σ)} {i : ι} {s₀ s : σ} {l : Log C A σ} {c : C} {k : A c → Prog C A α} (b : A c) (s' : σ) :
      Serial (⟨i, s₀, l, s, .call c k⟩ :: h) s → sem c s b s' →
      Serial (⟨i, s₀, ⟨s, c, b, s'⟩ :: l, s', k b⟩ :: h) s'

variable {sem body init}

theorem serial_state {h : List (Job ι C A α σ)} {j : Job ι C A α σ} {s : σ} (hr : Serial sem body init (j :: h) s) :
    j.state = s := by cases hr <;> rfl

/-- The runs before one, and the state they left for it. -/
theorem serial_tail {h : List (Job ι C A α σ)} {j : Job ι C A α σ} {s : σ} (hr : Serial sem body init (j :: h) s) :
    Serial sem body init h j.start := by
  obtain ⟨i, s₀, l, s', p⟩ := j
  induction l generalizing s s' p with
  | nil => cases hr with
    | start _ hr => exact hr
  | cons x l ih => cases hr with
    | act _ _ hr _ => exact ih _ _ hr

/-- Any run of a series was once the last. -/
theorem serial_at {later older : List (Job ι C A α σ)} {j : Job ι C A α σ} {s : σ}
    (hr : Serial sem body init (later ++ j :: older) s) : Serial sem body init (j :: older) j.state := by
  induction later generalizing s with
  | nil => exact serial_state hr ▸ hr
  | cons j' later ih => exact ih (serial_tail hr)

theorem serial_call {h : List (Job ι C A α σ)} {i : ι} {s₀ s : σ} {late early : Log C A σ} {x : Answered C A σ}
    {p : Prog C A α} (hr : Serial sem body init (⟨i, s₀, late ++ x :: early, s, p⟩ :: h) s) :
    ∃ k, Serial sem body init (⟨i, s₀, early, x.before, .call x.call k⟩ :: h) x.before ∧
      sem x.call x.before x.ans x.after ∧
      Serial sem body init (⟨i, s₀, x :: early, x.after, k x.ans⟩ :: h) x.after := by
  induction late generalizing s p with
  | nil => cases hr with
    | act _ _ hr hs => exact ⟨_, hr, hs, .act _ _ hr hs⟩
  | cons y late ih => cases hr with
    | act _ _ hr _ => exact ih hr

theorem serial_sem {h : List (Job ι C A α σ)} {j : Job ι C A α σ} {s : σ} {x : Answered C A σ}
    (hr : Serial sem body init (j :: h) s) (hx : x ∈ j.calls) : sem x.call x.before x.ans x.after := by
  have hs := serial_state hr
  obtain ⟨i, s₀, l, s', p⟩ := j
  dsimp only at hs hx
  subst hs
  obtain ⟨late, early, rfl⟩ := List.append_of_mem hx
  obtain ⟨_, _, hsem, _⟩ := serial_call hr
  exact hsem

theorem serial_last {h : List (Job ι C A α σ)} {i : ι} {s₀ s : σ} {l : Log C A σ} {x : Answered C A σ} {p : Prog C A α}
    (hr : Serial sem body init (⟨i, s₀, x :: l, s, p⟩ :: h) s) :
    ∃ k, Serial sem body init (⟨i, s₀, l, x.before, .call x.call k⟩ :: h) x.before ∧ sem x.call x.before x.ans x.after := by
  cases hr with
  | act _ _ hr hs => exact ⟨_, hr, hs⟩

/-- A series under more that calls may do, from more initial states, is a series. -/
theorem serial_mono {sem' : (c : C) → σ → A c → σ → Prop} {init' : σ → Prop}
    (hsem : ∀ c s b s', sem c s b s' → sem' c s b s') (hinit : ∀ s, init s → init' s)
    {h : List (Job ι C A α σ)} {s : σ} (hr : Serial sem body init h s) : Serial sem' body init' h s := by
  induction hr with
  | init s hs => exact .init s (hinit s hs)
  | start i _ ih => exact .start i ih
  | act b s' _ hs ih => exact .act b s' ih (hsem _ _ _ _ hs)

/-- At most `n` more calls of a run, answered by `f`. -/
def Job.play (f : (c : C) → σ → A c × σ) : Nat → Job ι C A α σ → Job ι C A α σ
  | 0, j => j
  | n + 1, ⟨i, s₀, l, s, p⟩ =>
    match p with
    | .ret a => ⟨i, s₀, l, s, .ret a⟩
    | .call c k => Job.play f n ⟨i, s₀, ⟨s, c, (f c s).1, (f c s).2⟩ :: l, (f c s).2, k (f c s).1⟩

theorem serial_play {f : (c : C) → σ → A c × σ} (hf : ∀ c s, sem c s (f c s).1 (f c s).2) (n : Nat)
    {h : List (Job ι C A α σ)} {j : Job ι C A α σ} (hr : Serial sem body init (j :: h) j.state) :
    Serial sem body init (j.play f n :: h) (j.play f n).state := by
  induction n generalizing j with
  | zero => exact hr
  | succ n ih =>
    obtain ⟨i, s₀, l, s, p⟩ := j
    cases p with
    | ret a => exact hr
    | call c k => exact ih (.act _ _ hr (hf c s))

variable {pre : ι → σ → C → Log C A σ → σ → Prop} {Q : ι → σ → α → Log C A σ → σ → Prop}

/-- The last run of a series goes on as its program does from the state it started in. -/
theorem serial_goes (hbody : ∀ i s, Goes sem (pre i s) (body i) (Q i s) [] s) {h : List (Job ι C A α σ)}
    {j : Job ι C A α σ} {s : σ} (hr : Serial sem body init (j :: h) s) :
    Goes sem (pre j.info j.start) j.prog (Q j.info j.start) j.calls s := by
  generalize e : j :: h = h' at hr
  induction hr generalizing j with
  | init s _ => cases e
  | start i _ => cases e; exact hbody i _
  | act b s' _ hs ih => cases e; exact (ih rfl).2 b s' hs

end Serial

end Kaguya.Lib
