/-
  Kaguya.Lib.Shell — scripts of a POSIX shell under `set -eu`. A script is a program
  (`Kaguya.Lib.Prog`) over commands, each answered with an exit status and an output.
  What a failing command does depends on where it stands, so a piece of script is told
  whether `-e` is ignored there: in the condition of an `if` or a `while`, after `!`, and
  in all but the last command of an and-or list. A command is `plain` if nothing catches
  its failure, and a plain command that fails ends the shell.

  A loop runs for at most the rounds it is given. A run that needs more is one that is
  still in the loop (`Ended.cut`).

  Proved: the rules of `Goes` (`Kaguya.Lib.Serial`) for the constructs. `Calm`: a piece of
  script that makes commands of `P` only and leaves the shell only where a plain one has
  failed; `goes_calm` carries over it what those commands keep.
-/

import Kaguya.Lib.Serial

namespace Kaguya.Lib.Shell

variable {C α β σ τ : Type} {O : C → Type}

/-- How a piece of script ends: with a value, with the function it is in returned, with
    the shell left, or stopped in a loop. -/
inductive Ended (α : Type) where
  | done (a : α)
  | returned (status : Nat)
  | exited (status : Nat)
  | cut

/-- A command where the script makes it. -/
structure At (C : Type) where
  cmd : C
  plain : Bool

/-- The exit status and the output. -/
abbrev Ans (O : C → Type) (c : At C) : Type := Nat × O c.cmd

/-- A piece of script, by whether `-e` is ignored where it stands. -/
def Script (C : Type) (O : C → Type) (α : Type) : Type := Bool → Prog (At C) (Ans O) (Ended α)

/-- A command, with its status. -/
abbrev Command (C : Type) (O : C → Type) : Type := Script C O Nat

/-- What follows a piece of script that has ended. -/
def Ended.next (e : Ended α) (f : α → Prog (At C) (Ans O) (Ended β)) : Prog (At C) (Ans O) (Ended β) :=
  match e with
  | done a => f a
  | returned n => .ret (returned n)
  | exited n => .ret (exited n)
  | cut => .ret cut

instance : Monad (Script C O) where
  pure a := fun _ => .ret (.done a)
  bind s f := fun ign => s ign >>= fun e => e.next fun a => f a ign

/-! ## Commands -/

/-- A status where it stands. -/
def check (n : Nat) : Command C O := fun ign => .ret (if n = 0 ∨ ign = true then .done n else .exited n)

def run (c : C) : Script C O (Nat × O c) := fun ign =>
  .call ⟨c, !ign⟩ fun b => .ret (if b.1 = 0 ∨ ign = true then .done b else .exited b.1)

/-- `c` -/
def simple (c : C) : Command C O := do
  let b ← run c
  return b.1

/-- `x=$(c)` -/
def assign (c : C) : Script C O (O c) := do
  let b ← run c
  return b.2

/-- A special builtin, whose failure ends the shell wherever it stands. -/
def special (c : C) : Command C O := fun _ =>
  .call ⟨c, true⟩ fun b => .ret (if b.1 = 0 then .done 0 else .exited b.1)

/-- `c` with a variable among its words: one that is not set ends the shell (`-u`). -/
def expanding (isSet : Bool) (c : C) : Command C O := if isSet then simple c else special c

/-- `$(c)` among the words of a command: its status is lost. -/
def subst (c : C) : Script C O (O c) := fun _ => .call ⟨c, false⟩ fun b => .ret (.done b.2)

/-- `[ p ]` -/
def test (p : Bool) : Command C O := check (if p then 0 else 1)

/-- `c | f`, where `f` reads all that `c` prints. -/
def filtered (c : C) (f : O c → Nat) : Command C O := do
  let out ← subst c
  check (f out)

/-- `return n` -/
def return_ (n : Nat) : Script C O α := fun _ => .ret (.returned n)

/-- `exit n` -/
def exit (n : Nat) : Script C O α := fun _ => .ret (.exited n)

/-! ## Compound commands -/

/-- `a && b` -/
def andThen (a b : Command C O) : Command C O := fun ign =>
  a true >>= fun e => e.next fun n => if n = 0 then b ign else .ret (.done n)

/-- `a || b` -/
def orElse (a b : Command C O) : Command C O := fun ign =>
  a true >>= fun e => e.next fun n => if n = 0 then .ret (.done 0) else b ign

/-- `! a` -/
def negate (a : Command C O) : Command C O := fun _ =>
  a true >>= fun e => e.next fun n => .ret (.done (if n = 0 then 1 else 0))

/-- `x=$(c) || b` -/
def assignOr (c : C) (b : Command C O) : Script C O (O c) := fun ign =>
  .call ⟨c, false⟩ fun r => if r.1 = 0 then .ret (.done r.2) else b ign >>= fun e => e.next fun _ => .ret (.done r.2)

/-- `if c; then t; else e; fi` -/
def ifThen (c : Command C O) (t e : Script C O α) : Script C O α := fun ign =>
  c true >>= fun r => r.next fun n => if n = 0 then t ign else e ign

/-- The status a subshell or a function leaves. -/
def Ended.leaves (e : Ended Nat) (exits : Nat → Prog (At C) (Ans O) (Ended Nat)) (ign : Bool) :
    Prog (At C) (Ans O) (Ended Nat) :=
  match e with
  | done n => check n ign
  | returned n => check n ign
  | exited n => exits n
  | cut => .ret cut

/-- `( a )` -/
def subshell (a : Command C O) : Command C O := fun ign => a ign >>= fun e => e.leaves (fun n => check n ign) ign

/-- A call of a function with the body `a`. -/
def func (a : Command C O) : Command C O := fun ign => a ign >>= fun e => e.leaves (fun n => .ret (.exited n)) ign

/-- `while c; do body; done`, `v` being the variables the loop sets. -/
def whileDo (c : τ → Command C O) (body : τ → Script C O τ) : Nat → τ → Script C O τ
  | 0, _ => fun _ => .ret .cut
  | rounds + 1, v => ifThen (c v) (do whileDo c body rounds (← body v)) (pure v)

/-! ## Rules -/

section Rules

variable {sem : (c : At C) → σ → Ans O c → σ → Prop} {pre : At C → Log (At C) (Ans O) σ → σ → Prop}
variable {Q : Ended β → Log (At C) (Ans O) σ → σ → Prop} {l : Log (At C) (Ans O) σ} {s : σ} {ign : Bool}

/-- `K` of the value of a script that goes on, `Q` of one that does not. -/
@[reducible] def Ended.post (K : α → Log (At C) (Ans O) σ → σ → Prop) (Q : Ended β → Log (At C) (Ans O) σ → σ → Prop) :
    Ended α → Log (At C) (Ans O) σ → σ → Prop
  | done a => K a
  | returned n => Q (returned n)
  | exited n => Q (exited n)
  | cut => Q cut

theorem goes_next {p : Prog (At C) (Ans O) (Ended α)} {f : α → Prog (At C) (Ans O) (Ended β)}
    (h : Goes sem pre p (Ended.post (fun a l' s' => Goes sem pre (f a) Q l' s') Q) l s) :
    Goes sem pre (p >>= fun e => e.next f) Q l s := by
  refine goes_bind (goes_mono (fun e l' s' he => ?_) h)
  cases e <;> exact he

theorem goes_seq {a : Script C O α} {f : α → Script C O β}
    (h : Goes sem pre (a ign) (Ended.post (fun v l' s' => Goes sem pre (f v ign) Q l' s') Q) l s) :
    Goes sem pre ((a >>= f) ign) Q l s := goes_next h

theorem goes_ifThen {c : Command C O} {t e : Script C O β}
    (h : Goes sem pre (c true) (Ended.post (fun n l' s' => (n = 0 → Goes sem pre (t ign) Q l' s') ∧
      (n ≠ 0 → Goes sem pre (e ign) Q l' s')) Q) l s) : Goes sem pre (ifThen c t e ign) Q l s := by
  refine goes_next (goes_mono (fun r l' s' hr => ?_) h)
  cases r with
  | done n =>
    by_cases hn : n = 0
    · rw [Ended.post, if_pos hn]
      exact hr.1 hn
    · rw [Ended.post, if_neg hn]
      exact hr.2 hn
  | _ => exact hr

variable {R : Ended Nat → Log (At C) (Ans O) σ → σ → Prop} {a b : Command C O}

theorem goes_andThen (h : Goes sem pre (a true) (Ended.post (fun n l' s' => (n = 0 → Goes sem pre (b ign) R l' s') ∧
    (n ≠ 0 → R (.done n) l' s')) R) l s) : Goes sem pre (andThen a b ign) R l s := by
  refine goes_next (goes_mono (fun r l' s' hr => ?_) h)
  cases r with
  | done n =>
    by_cases hn : n = 0
    · rw [Ended.post, if_pos hn]
      exact hr.1 hn
    · rw [Ended.post, if_neg hn]
      exact hr.2 hn
  | _ => exact hr

theorem goes_orElse (h : Goes sem pre (a true) (Ended.post (fun n l' s' => (n = 0 → R (.done 0) l' s') ∧
    (n ≠ 0 → Goes sem pre (b ign) R l' s')) R) l s) : Goes sem pre (orElse a b ign) R l s := by
  refine goes_next (goes_mono (fun r l' s' hr => ?_) h)
  cases r with
  | done n =>
    by_cases hn : n = 0
    · rw [Ended.post, if_pos hn]
      exact hr.1 hn
    · rw [Ended.post, if_neg hn]
      exact hr.2 hn
  | _ => exact hr

theorem goes_negate (h : Goes sem pre (a true) (Ended.post (fun n => R (.done (if n = 0 then 1 else 0))) R) l s) :
    Goes sem pre (negate a ign) R l s := goes_next h

/-- How a function whose body ends so leaves its caller, `-e` being ignored. -/
@[reducible] def Ended.called (R : Ended Nat → Log (At C) (Ans O) σ → σ → Prop) : Ended Nat → Log (At C) (Ans O) σ → σ → Prop
  | done n => R (.done n)
  | returned n => R (.done n)
  | exited n => R (.exited n)
  | cut => R .cut

theorem goes_func (h : Goes sem pre (a true) (Ended.called R) l s) : Goes sem pre (func a true) R l s := by
  refine goes_bind (goes_mono (fun e l' s' he => ?_) h)
  cases e with
  | done n | returned n =>
    rw [Ended.leaves, check, if_pos (Or.inr rfl)]
    exact he
  | _ => exact he

/-- How a subshell that ends so leaves its parent, `-e` being ignored. -/
@[reducible] def Ended.left (R : Ended Nat → Log (At C) (Ans O) σ → σ → Prop) : Ended Nat → Log (At C) (Ans O) σ → σ → Prop
  | done n => R (.done n)
  | returned n => R (.done n)
  | exited n => R (.done n)
  | cut => R .cut

theorem goes_subshell (h : Goes sem pre (a true) (Ended.left R) l s) : Goes sem pre (subshell a true) R l s := by
  refine goes_bind (goes_mono (fun e l' s' he => ?_) h)
  cases e with
  | cut => exact he
  | done n | returned n | exited n =>
    rw [Ended.leaves, check, if_pos (Or.inr rfl)]
    exact he

theorem goes_check {n : Nat} (hn : n = 0 ∨ ign = true) (h : R (.done n) l s) : Goes sem pre (check n ign) R l s := by
  rw [check, if_pos hn]
  exact h

/-- A loop keeps `I` of its variables from round to round. -/
theorem goes_while {c : τ → Command C O} {body : τ → Script C O τ} {T : Ended τ → Log (At C) (Ans O) σ → σ → Prop}
    (I : τ → Log (At C) (Ans O) σ → σ → Prop)
    (hround : ∀ v l s, I v l s → Goes sem pre (c v true) (Ended.post (fun n l' s' =>
      (n = 0 → Goes sem pre (body v ign) (Ended.post (fun v' => I v') T) l' s') ∧ (n ≠ 0 → T (.done v) l' s')) T) l s)
    (hcut : ∀ v l s, I v l s → T .cut l s) (rounds : Nat) {v : τ} (h : I v l s) :
    Goes sem pre (whileDo c body rounds v ign) T l s := by
  induction rounds generalizing v l s with
  | zero => exact hcut v l s h
  | succ rounds ih =>
    refine goes_ifThen (goes_mono (fun e l' s' he => ?_) (hround v l s h))
    cases e with
    | done n =>
      refine ⟨fun hn => goes_seq (goes_mono (fun r l'' s'' hr => ?_) (he.1 hn)), he.2⟩
      cases r with
      | done v' => exact ih hr
      | _ => exact hr
    | _ => exact he

/-- A loop that has rounds enough: `I` of the rounds left, which is not of none. -/
theorem goes_while_left {c : τ → Command C O} {body : τ → Script C O τ} {T : Ended τ → Log (At C) (Ans O) σ → σ → Prop}
    (I : Nat → Log (At C) (Ans O) σ → σ → Prop)
    (hround : ∀ k v l s, I (k + 1) l s → Goes sem pre (c v true) (Ended.post (fun n l' s' =>
      (n = 0 → Goes sem pre (body v ign) (Ended.post (fun _ => I k) T) l' s') ∧ (n ≠ 0 → T (.done v) l' s')) T) l s)
    (hnone : ∀ l s, ¬ I 0 l s) (rounds : Nat) {v : τ} (h : I rounds l s) :
    Goes sem pre (whileDo c body rounds v ign) T l s := by
  induction rounds generalizing v l s with
  | zero => exact absurd h (hnone l s)
  | succ rounds ih =>
    refine goes_ifThen (goes_mono (fun e l' s' he => ?_) (hround rounds v l s h))
    cases e with
    | done n =>
      refine ⟨fun hn => goes_seq (goes_mono (fun r l'' s'' hr => ?_) (he.1 hn)), he.2⟩
      cases r with
      | done v' => exact ih hr
      | _ => exact hr
    | _ => exact he

/-- A command: it goes on if it succeeds or `-e` is ignored, and ends the shell else. -/
theorem goes_run {c : C} {K : Ended (Nat × O c) → Log (At C) (Ans O) σ → σ → Prop} (hpre : pre ⟨c, !ign⟩ l s)
    (hdone : ∀ b s', sem ⟨c, !ign⟩ s b s' → b.1 = 0 ∨ ign = true → K (.done b) (⟨s, ⟨c, !ign⟩, b, s'⟩ :: l) s')
    (hexit : ∀ b s', sem ⟨c, !ign⟩ s b s' → ¬ (b.1 = 0 ∨ ign = true) →
      K (.exited b.1) (⟨s, ⟨c, !ign⟩, b, s'⟩ :: l) s') : Goes sem pre (run c ign) K l s := by
  refine ⟨hpre, fun b s' hs => ?_⟩
  dsimp only
  by_cases hb : b.1 = 0 ∨ ign = true
  · rw [if_pos hb]
    exact hdone b s' hs hb
  · rw [if_neg hb]
    exact hexit b s' hs hb

/-- A plain command. -/
theorem goes_simple {c : C} (hpre : pre ⟨c, true⟩ l s)
    (hdone : ∀ b s', sem ⟨c, true⟩ s b s' → b.1 = 0 → R (.done 0) (⟨s, ⟨c, true⟩, b, s'⟩ :: l) s')
    (hexit : ∀ b s', sem ⟨c, true⟩ s b s' → b.1 ≠ 0 → R (.exited b.1) (⟨s, ⟨c, true⟩, b, s'⟩ :: l) s') :
    Goes sem pre (simple c false) R l s := by
  refine goes_seq (goes_run hpre (fun b s' hs hb => ?_) fun b s' hs hb => hexit b s' hs fun e => hb (Or.inl e))
  have hzero : b.1 = 0 := hb.resolve_right Bool.false_ne_true
  have := hdone b s' hs hzero
  rwa [← hzero] at this

/-- A function that is a plain command. -/
theorem goes_func_simple {c : C} (hpre : pre ⟨c, true⟩ l s)
    (hdone : ∀ b s', sem ⟨c, true⟩ s b s' → b.1 = 0 → R (.done 0) (⟨s, ⟨c, true⟩, b, s'⟩ :: l) s')
    (hexit : ∀ b s', sem ⟨c, true⟩ s b s' → b.1 ≠ 0 → R (.exited b.1) (⟨s, ⟨c, true⟩, b, s'⟩ :: l) s') :
    Goes sem pre (func (simple c) false) R l s :=
  goes_bind (goes_simple hpre (fun b s' hs hb => goes_check (Or.inl rfl) (hdone b s' hs hb)) hexit)

/-- A command whose failure is caught. -/
theorem goes_caught {c : C} (hpre : pre ⟨c, false⟩ l s)
    (hdone : ∀ b s', sem ⟨c, false⟩ s b s' → R (.done b.1) (⟨s, ⟨c, false⟩, b, s'⟩ :: l) s') :
    Goes sem pre (simple c true) R l s :=
  goes_seq (goes_run hpre (fun b s' hs _ => hdone b s' hs) fun _ _ _ hb => absurd (Or.inr rfl) hb)

theorem goes_assign {c : C} {K : Ended (O c) → Log (At C) (Ans O) σ → σ → Prop} (hpre : pre ⟨c, true⟩ l s)
    (hdone : ∀ b s', sem ⟨c, true⟩ s b s' → b.1 = 0 → K (.done b.2) (⟨s, ⟨c, true⟩, b, s'⟩ :: l) s')
    (hexit : ∀ b s', sem ⟨c, true⟩ s b s' → b.1 ≠ 0 → K (.exited b.1) (⟨s, ⟨c, true⟩, b, s'⟩ :: l) s') :
    Goes sem pre (assign c false) K l s :=
  goes_seq (goes_run hpre (fun b s' hs hb => hdone b s' hs (hb.resolve_right Bool.false_ne_true))
    fun b s' hs hb => hexit b s' hs fun e => hb (Or.inl e))

theorem goes_special {c : C} (hpre : pre ⟨c, true⟩ l s)
    (hdone : ∀ b s', sem ⟨c, true⟩ s b s' → b.1 = 0 → R (.done 0) (⟨s, ⟨c, true⟩, b, s'⟩ :: l) s')
    (hexit : ∀ b s', sem ⟨c, true⟩ s b s' → b.1 ≠ 0 → R (.exited b.1) (⟨s, ⟨c, true⟩, b, s'⟩ :: l) s') :
    Goes sem pre (special c ign) R l s := by
  refine ⟨hpre, fun b s' hs => ?_⟩
  dsimp only
  by_cases hb : b.1 = 0
  · rw [if_pos hb]
    exact hdone b s' hs hb
  · rw [if_neg hb]
    exact hexit b s' hs hb

theorem goes_subst {c : C} {K : Ended (O c) → Log (At C) (Ans O) σ → σ → Prop} (hpre : pre ⟨c, false⟩ l s)
    (hdone : ∀ b s', sem ⟨c, false⟩ s b s' → K (.done b.2) (⟨s, ⟨c, false⟩, b, s'⟩ :: l) s') :
    Goes sem pre (subst c ign) K l s := ⟨hpre, hdone⟩

end Rules

/-! ## Pieces that leave the shell only by a failure -/

section Calm

variable {P : At C → Prop} {R : Ended β → Prop} {ign : Bool}

/-- Every command is of `P`; where a plain one fails the shell is left, and a run in
    which none does ends in `R`. -/
def Calm (P : At C → Prop) (R : Ended β → Prop) : Prog (At C) (Ans O) (Ended β) → Prop
  | .ret e => R e
  | .call c k => P c ∧ ∀ b, (c.plain = true ∧ b.1 ≠ 0 ∧ k b = .ret (.exited b.1)) ∨
      ((c.plain = true → b.1 = 0) ∧ Calm P R (k b))

/-- `K` of the value of a script that goes on, `R` of how one that does not ends. -/
@[reducible] def Ended.sat (K : α → Prop) (R : Ended β → Prop) : Ended α → Prop
  | done a => K a
  | returned n => R (returned n)
  | exited n => R (exited n)
  | cut => R cut

/-- A command ends with a status that `-e` lets pass. -/
def Passes (ign : Bool) : Ended Nat → Prop
  | .done n => n = 0 ∨ ign = true
  | .cut => True
  | _ => False

/-- The body of a function does. -/
def Returns (ign : Bool) : Ended Nat → Prop
  | .done n => n = 0 ∨ ign = true
  | .returned n => n = 0 ∨ ign = true
  | .exited _ => False
  | .cut => True

theorem calm_mono {R' : Ended β → Prop} {p : Prog (At C) (Ans O) (Ended β)} (hR : ∀ e, R e → R' e)
    (h : Calm P R p) : Calm P R' p := by
  induction p with
  | ret e => exact hR e h
  | call c k ih => exact ⟨h.1, fun b => (h.2 b).imp_right fun hb => ⟨hb.1, ih b hb.2⟩⟩

/-- Going on with how a piece ended, if a shell that is left stays left. -/
theorem calm_bind {p : Prog (At C) (Ans O) (Ended α)} {f : Ended α → Prog (At C) (Ans O) (Ended β)}
    (hf : ∀ n, f (.exited n) = .ret (.exited n)) (h : Calm P (fun e => Calm P R (f e)) p) : Calm P R (p >>= f) := by
  induction p with
  | ret e => exact h
  | call c k ih =>
    refine ⟨h.1, fun b => ?_⟩
    rcases h.2 b with hb | hb
    · refine Or.inl ⟨hb.1, hb.2.1, ?_⟩
      dsimp only
      rw [hb.2.2]
      exact hf b.1
    · exact Or.inr ⟨hb.1, ih b hb.2⟩

theorem calm_next {p : Prog (At C) (Ans O) (Ended α)} {f : α → Prog (At C) (Ans O) (Ended β)}
    (h : Calm P (Ended.sat (fun a => Calm P R (f a)) R) p) : Calm P R (p >>= fun e => e.next f) := by
  refine calm_bind (fun _ => rfl) (calm_mono (fun e he => ?_) h)
  cases e <;> exact he

theorem calm_seq {a : Script C O α} {f : α → Script C O β}
    (h : Calm P (Ended.sat (fun v => Calm P R (f v ign)) R) (a ign)) : Calm P R ((a >>= f) ign) := calm_next h

/-! ### Commands -/

theorem calm_run {c : C} {K : Ended (Nat × O c) → Prop} (hc : P ⟨c, !ign⟩)
    (h : ∀ b, b.1 = 0 ∨ ign = true → K (.done b)) : Calm P K (run c ign) := by
  refine ⟨hc, fun b => ?_⟩
  dsimp only
  by_cases hb : b.1 = 0 ∨ ign = true
  · rw [if_pos hb]
    refine Or.inr ⟨fun hp => hb.resolve_right fun hi => ?_, h b hb⟩
    rw [hi] at hp
    cases hp
  · rw [if_neg hb]
    refine Or.inl ⟨?_, fun e => hb (Or.inl e), rfl⟩
    cases ign with
    | true => exact absurd (Or.inr rfl) hb
    | false => rfl

theorem calm_simple {c : C} {K : Ended Nat → Prop} (hc : P ⟨c, !ign⟩) (h : ∀ n, n = 0 ∨ ign = true → K (.done n)) :
    Calm P K (simple (O := O) c ign) := calm_seq (calm_run hc fun b hb => h b.1 hb)

theorem calm_subst {c : C} {K : Ended (O c) → Prop} (hc : P ⟨c, false⟩) (h : ∀ v, K (.done v)) :
    Calm P K (subst c ign) := ⟨hc, fun b => Or.inr ⟨fun hp => (by cases hp), h b.2⟩⟩

theorem calm_check {n : Nat} {K : Ended Nat → Prop} (hn : n = 0 ∨ ign = true) (h : K (.done n)) :
    Calm P K (check (C := C) (O := O) n ign) := by
  rw [check, if_pos hn]
  exact h

/-! ### Compound commands -/

variable {a b : Command C O} {K : Ended Nat → Prop}

theorem calm_orElse (h : Calm P (Ended.sat (fun n => (n = 0 → K (.done 0)) ∧ (n ≠ 0 → Calm P K (b ign))) K) (a true)) :
    Calm P K (orElse a b ign) := by
  refine calm_next (calm_mono (fun e he => ?_) h)
  cases e with
  | done n =>
    by_cases hn : n = 0
    · rw [Ended.sat, if_pos hn]
      exact he.1 hn
    · rw [Ended.sat, if_neg hn]
      exact he.2 hn
  | _ => exact he

theorem calm_func (h : Calm P (Returns ign) (a ign)) : Calm P (Passes ign) (func a ign) := by
  refine calm_bind (fun _ => rfl) (calm_mono (fun e he => ?_) h)
  cases e with
  | done n => exact calm_check he he
  | returned n => exact calm_check he he
  | exited n => exact he
  | cut => exact trivial

/-! ### What is kept -/

variable {sem : (c : At C) → σ → Ans O c → σ → Prop} {pre : At C → Log (At C) (Ans O) σ → σ → Prop}

/-- The commands of `P` keep `G`, which is all they need; one that fails where nothing
    catches it leaves `E` of its status. -/
structure Keeps (sem : (c : At C) → σ → Ans O c → σ → Prop) (pre : At C → Log (At C) (Ans O) σ → σ → Prop)
    (P : At C → Prop) (G : Log (At C) (Ans O) σ → σ → Prop) (E : Nat → Log (At C) (Ans O) σ → σ → Prop) : Prop where
  needs : ∀ c l s, P c → G l s → pre c l s
  keeps : ∀ c l s b s', P c → G l s → sem c s b s' → (c.plain = true → b.1 = 0) → G (⟨s, c, b, s'⟩ :: l) s'
  fails : ∀ c l s b s', P c → G l s → sem c s b s' → c.plain = true → b.1 ≠ 0 → E b.1 (⟨s, c, b, s'⟩ :: l) s'

section Keeping

variable {G : Log (At C) (Ans O) σ → σ → Prop} {E : Nat → Log (At C) (Ans O) σ → σ → Prop}
variable {l : Log (At C) (Ans O) σ} {s : σ} {Q : Ended Nat → Log (At C) (Ans O) σ → σ → Prop}

/-- A further fact that the commands keep. -/
theorem Keeps.and (hk : Keeps sem pre P G E) {X : Log (At C) (Ans O) σ → σ → Prop}
    (hX : ∀ c l s b s', P c → X l s → sem c s b s' → X (⟨s, c, b, s'⟩ :: l) s') :
    Keeps sem pre P (fun l s => G l s ∧ X l s) E where
  needs c l s hc h := hk.needs c l s hc h.1
  keeps c l s b s' hc h hs hb := ⟨hk.keeps c l s b s' hc h.1 hs hb, hX c l s b s' hc h.2 hs⟩
  fails c l s b s' hc h hs hp hb := hk.fails c l s b s' hc h.1 hs hp hb

theorem Keeps.mono {P' : At C → Prop} (hk : Keeps sem pre P G E) (hP : ∀ c, P' c → P c) : Keeps sem pre P' G E where
  needs c l s hc := hk.needs c l s (hP c hc)
  keeps c l s b s' hc := hk.keeps c l s b s' (hP c hc)
  fails c l s b s' hc := hk.fails c l s b s' (hP c hc)

/-- A command run under a guard. -/
theorem Keeps.step (hk : Keeps sem pre P G E) {c : C} (hc : P ⟨c, false⟩) {s' : σ} {b : Nat × O c} (h : G l s)
    (hs : sem ⟨c, false⟩ s b s') : G (⟨s, ⟨c, false⟩, b, s'⟩ :: l) s' :=
  hk.keeps _ l s b s' hc h hs fun hp => by cases hp

theorem Keeps.caught (hk : Keeps sem pre P G E) {c : C} (hc : P ⟨c, false⟩) (h : G l s)
    (hdone : ∀ b s', G (⟨s, ⟨c, false⟩, b, s'⟩ :: l) s' → Q (.done b.1) (⟨s, ⟨c, false⟩, b, s'⟩ :: l) s') :
    Goes sem pre (simple c true) Q l s :=
  goes_caught (hk.needs _ l s hc h) fun b s' hs => hdone b s' (hk.step hc h hs)

/-- `c || true` -/
theorem Keeps.ignored (hk : Keeps sem pre P G E) {c : C} (hc : P ⟨c, false⟩) (h : G l s)
    (hdone : ∀ b s', G (⟨s, ⟨c, false⟩, b, s'⟩ :: l) s' → Q (.done 0) (⟨s, ⟨c, false⟩, b, s'⟩ :: l) s') :
    Goes sem pre (orElse (simple c) (return 0) ign) Q l s :=
  goes_orElse (hk.caught hc h fun b s' h' => ⟨fun _ => hdone b s' h', fun _ => hdone b s' h'⟩)

theorem Keeps.plain (hk : Keeps sem pre P G E) {c : C} (hc : P ⟨c, true⟩) (h : G l s)
    (hexit : ∀ n l s, E n l s → Q (.exited n) l s)
    (hdone : ∀ b s', b.1 = 0 → G (⟨s, ⟨c, true⟩, b, s'⟩ :: l) s' → Q (.done 0) (⟨s, ⟨c, true⟩, b, s'⟩ :: l) s') :
    Goes sem pre (simple c false) Q l s :=
  goes_simple (hk.needs _ l s hc h) (fun b s' hs hb => hdone b s' hb (hk.keeps _ l s b s' hc h hs fun _ => hb))
    fun b s' hs hb => hexit _ _ _ (hk.fails _ l s b s' hc h hs rfl hb)

theorem Keeps.special (hk : Keeps sem pre P G E) {c : C} (hc : P ⟨c, true⟩) (h : G l s)
    (hexit : ∀ n l s, E n l s → Q (.exited n) l s)
    (hdone : ∀ b s', b.1 = 0 → G (⟨s, ⟨c, true⟩, b, s'⟩ :: l) s' → Q (.done 0) (⟨s, ⟨c, true⟩, b, s'⟩ :: l) s') :
    Goes sem pre (special c ign) Q l s :=
  goes_special (hk.needs _ l s hc h) (fun b s' hs hb => hdone b s' hb (hk.keeps _ l s b s' hc h hs fun _ => hb))
    fun b s' hs hb => hexit _ _ _ (hk.fails _ l s b s' hc h hs rfl hb)

theorem Keeps.assign (hk : Keeps sem pre P G E) {c : C} {K : Ended (O c) → Log (At C) (Ans O) σ → σ → Prop}
    (hc : P ⟨c, true⟩) (h : G l s) (hexit : ∀ n l s, E n l s → K (.exited n) l s)
    (hdone : ∀ b s', sem ⟨c, true⟩ s b s' → b.1 = 0 → G (⟨s, ⟨c, true⟩, b, s'⟩ :: l) s' →
      K (.done b.2) (⟨s, ⟨c, true⟩, b, s'⟩ :: l) s') : Goes sem pre (assign c false) K l s :=
  goes_assign (hk.needs _ l s hc h) (fun b s' hs hb => hdone b s' hs hb (hk.keeps _ l s b s' hc h hs fun _ => hb))
    fun b s' hs hb => hexit _ _ _ (hk.fails _ l s b s' hc h hs rfl hb)

/-- `if ! c; then t; fi` -/
theorem Keeps.guard (hk : Keeps sem pre P G E) {c : C} {t : Command C O} (hc : P ⟨c, false⟩) (h : G l s)
    (hfail : ∀ b s', G (⟨s, ⟨c, false⟩, b, s'⟩ :: l) s' → Goes sem pre (t ign) Q (⟨s, ⟨c, false⟩, b, s'⟩ :: l) s')
    (hdone : ∀ b s', sem ⟨c, false⟩ s b s' → b.1 = 0 → G (⟨s, ⟨c, false⟩, b, s'⟩ :: l) s' →
      Q (.done 0) (⟨s, ⟨c, false⟩, b, s'⟩ :: l) s') :
    Goes sem pre (ifThen (negate (simple c)) t (return 0) ign) Q l s := by
  refine goes_ifThen (goes_negate (goes_caught (hk.needs _ l s hc h) fun b s' hs => ?_))
  have h' := hk.step hc h hs
  refine ⟨fun _ => hfail b s' h', fun hn => ?_⟩
  by_cases hb : b.1 = 0
  · exact hdone b s' hs hb h'
  · exact absurd (if_neg hb) hn

end Keeping

/-- `if [ p ]; then t; fi` -/
theorem goes_ifTest {pre : At C → Log (At C) (Ans O) σ → σ → Prop} {Q : Ended Nat → Log (At C) (Ans O) σ → σ → Prop}
    {p : Bool} {t : Command C O} {l : Log (At C) (Ans O) σ} {s : σ} (htrue : p = true → Goes sem pre (t ign) Q l s)
    (hfalse : p = false → Q (.done 0) l s) : Goes sem pre (ifThen (test p) t (return 0) ign) Q l s := by
  refine goes_ifThen (goes_check (Or.inr rfl) ?_)
  cases p with
  | true => exact ⟨fun _ => htrue rfl, fun hn => absurd rfl hn⟩
  | false => exact ⟨fun hn => (by cases hn), fun _ => hfalse rfl⟩

theorem goes_calm {G : Log (At C) (Ans O) σ → σ → Prop} {E : Nat → Log (At C) (Ans O) σ → σ → Prop}
    (hk : Keeps sem pre P G E) {Q : Ended β → Log (At C) (Ans O) σ → σ → Prop} (hdone : ∀ e l s, R e → G l s → Q e l s)
    (hexit : ∀ n l s, E n l s → Q (.exited n) l s) {p : Prog (At C) (Ans O) (Ended β)} (hp : Calm P R p)
    {l : Log (At C) (Ans O) σ} {s : σ} (h : G l s) : Goes sem pre p Q l s := by
  induction p generalizing l s with
  | ret e => exact hdone e l s hp h
  | call c k ih =>
    refine ⟨hk.needs c l s hp.1 h, fun b s' hs => ?_⟩
    rcases hp.2 b with hb | hb
    · rw [hb.2.2]
      exact hexit _ _ _ (hk.fails c l s b s' hp.1 h hs hb.1 hb.2.1)
    · exact ih b hb.2 (hk.keeps c l s b s' hp.1 h hs hb.1)

end Calm

end Kaguya.Lib.Shell
