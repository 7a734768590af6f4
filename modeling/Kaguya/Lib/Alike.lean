/-
  Kaguya.Lib.Alike — relations between two pieces of script (`Kaguya.Lib.Shell`) that all
  constructs keep (`Congruence`): two scripts written alike are related if their commands
  are. A loop that is cut short is related where that is (`alike_while`).

  A property of one script is the case of a relation that looks at one side only:
  `congruence_goes`, for the rule of `Goes` with an invariant. `Further`: the second
  script goes on where the first is cut short. Of two such the second makes the runs of
  the first, if the first is never cut short (`serial_further`).
-/

import Kaguya.Lib.Shell

namespace Kaguya.Lib.Shell

variable {C α β : Type} {O : C → Type}

/-- A relation between programs, at any type of value. -/
abbrev Relation (C : Type) (O : C → Type) : Type 1 :=
  (α : Type) → Prog (At C) (Ans O) (Ended α) → Prog (At C) (Ans O) (Ended α) → Prop

/-- It relates what ends alike, what makes the same command of `P` and goes on related,
    and what is composed of related programs. -/
structure Congruence (P : C → Prop) (r : Relation C O) : Prop where
  ret : ∀ {α : Type} (e : Ended α), e ≠ .cut → r α (.ret e) (.ret e)
  call : ∀ {α : Type} (c : At C) (k k' : Ans O c → Prog (At C) (Ans O) (Ended α)), P c.cmd → (∀ b, r α (k b) (k' b)) →
    r α (.call c k) (.call c k')
  bind : ∀ {α β : Type} (p p' : Prog (At C) (Ans O) (Ended α)) (f f' : Ended α → Prog (At C) (Ans O) (Ended β)), r α p p' →
    f .cut = .ret .cut → f' .cut = .ret .cut → (∀ e, e ≠ .cut → r β (f e) (f' e)) → r β (p >>= f) (p' >>= f')

theorem congruence_mono {P P' : C → Prop} {r : Relation C O} (hP : ∀ c, P' c → P c) (hr : Congruence P r) :
    Congruence P' r where
  ret := hr.ret
  call c k k' hc := hr.call c k k' (hP _ hc)
  bind := hr.bind

/-- Related wherever they stand. -/
def Alike (r : Relation C O) (s s' : Script C O α) : Prop := ∀ ign, r α (s ign) (s' ign)

section Constructs

variable {P : C → Prop} {r : Relation C O} (hr : Congruence P r)
include hr

theorem related_next {p p' : Prog (At C) (Ans O) (Ended α)} {f f' : α → Prog (At C) (Ans O) (Ended β)} (hp : r α p p')
    (hf : ∀ a, r β (f a) (f' a)) : r β (p >>= fun e => e.next f) (p' >>= fun e => e.next f') := by
  refine hr.bind p p' _ _ hp rfl rfl fun e he => ?_
  cases e with
  | done a => exact hf a
  | returned n => exact hr.ret _ (by simp)
  | exited n => exact hr.ret _ (by simp)
  | cut => exact absurd rfl he

theorem alike_pure (a : α) : Alike r (pure a : Script C O α) (pure a) := fun _ => hr.ret _ (by simp)

theorem alike_bind {s s' : Script C O α} {f f' : α → Script C O β} (hs : Alike r s s') (hf : ∀ a, Alike r (f a) (f' a)) :
    Alike r (s >>= f) (s' >>= f') := fun ign => related_next hr (hs ign) fun a => hf a ign

theorem alike_exit (n : Nat) : Alike r (exit n : Script C O α) (exit n) := fun _ => hr.ret _ (by simp)

theorem alike_return (n : Nat) : Alike r (return_ n : Script C O α) (return_ n) := fun _ => hr.ret _ (by simp)

/-! ### Commands -/

theorem alike_check (n : Nat) : Alike r (check n : Command C O) (check n) := by
  intro ign
  refine hr.ret _ ?_
  split <;> simp

theorem alike_test (p : Bool) : Alike r (test p : Command C O) (test p) := alike_check hr _

theorem alike_run {c : C} (hc : P c) : Alike r (run (O := O) c) (run c) := by
  intro ign
  refine hr.call _ _ _ hc fun b => hr.ret _ ?_
  split <;> simp

theorem alike_simple {c : C} (hc : P c) : Alike r (simple (O := O) c) (simple c) :=
  alike_bind hr (alike_run hr hc) fun b => alike_pure hr b.1

theorem alike_assign {c : C} (hc : P c) : Alike r (assign (O := O) c) (assign c) :=
  alike_bind hr (alike_run hr hc) fun b => alike_pure hr b.2

theorem alike_special {c : C} (hc : P c) : Alike r (special (O := O) c) (special c) := by
  intro ign
  refine hr.call _ _ _ hc fun b => hr.ret _ ?_
  split <;> simp

theorem alike_subst {c : C} (hc : P c) : Alike r (subst (O := O) c) (subst c) :=
  fun _ => hr.call _ _ _ hc fun _ => hr.ret _ (by simp)

theorem alike_filtered {c : C} (hc : P c) (f : O c → Nat) : Alike r (filtered c f) (filtered c f) :=
  alike_bind hr (alike_subst hr hc) fun _ => alike_check hr _

/-! ### Compound commands -/

variable {a a' b b' : Command C O}

theorem alike_andThen (ha : Alike r a a') (hb : Alike r b b') : Alike r (andThen a b) (andThen a' b') := by
  intro ign
  refine related_next hr (ha true) fun n => ?_
  by_cases hn : n = 0
  · rw [if_pos hn, if_pos hn]
    exact hb ign
  · rw [if_neg hn, if_neg hn]
    exact hr.ret _ (by simp)

theorem alike_orElse (ha : Alike r a a') (hb : Alike r b b') : Alike r (orElse a b) (orElse a' b') := by
  intro ign
  refine related_next hr (ha true) fun n => ?_
  by_cases hn : n = 0
  · rw [if_pos hn, if_pos hn]
    exact hr.ret _ (by simp)
  · rw [if_neg hn, if_neg hn]
    exact hb ign

theorem alike_negate (ha : Alike r a a') : Alike r (negate a) (negate a') :=
  fun _ => related_next hr (ha true) fun _ => hr.ret _ (by simp)

theorem alike_assignOr {c : C} (hc : P c) (hb : Alike r b b') : Alike r (assignOr c b) (assignOr c b') := by
  intro ign
  refine hr.call _ _ _ hc fun x => ?_
  by_cases hx : x.1 = 0
  · rw [if_pos hx, if_pos hx]
    exact hr.ret _ (by simp)
  · rw [if_neg hx, if_neg hx]
    exact related_next hr (hb ign) fun _ => hr.ret _ (by simp)

theorem alike_ifThen {t t' e e' : Script C O α} (ha : Alike r a a') (ht : Alike r t t') (he : Alike r e e') :
    Alike r (ifThen a t e) (ifThen a' t' e') := by
  intro ign
  refine related_next hr (ha true) fun n => ?_
  by_cases hn : n = 0
  · rw [if_pos hn, if_pos hn]
    exact ht ign
  · rw [if_neg hn, if_neg hn]
    exact he ign

theorem alike_while {τ : Type} {cond cond' : τ → Command C O} {body body' : τ → Script C O τ}
    (hcut : r τ (.ret .cut) (.ret .cut)) (hcond : ∀ v, Alike r (cond v) (cond' v)) (hbody : ∀ v, Alike r (body v) (body' v))
    (rounds : Nat) (v : τ) : Alike r (whileDo cond body rounds v) (whileDo cond' body' rounds v) := by
  induction rounds generalizing v with
  | zero => exact fun _ => hcut
  | succ rounds ih =>
    exact alike_ifThen hr (hcond v) (alike_bind hr (hbody v) fun v' => ih v') (alike_pure hr v)

/-- The status a subshell or a function leaves. -/
theorem related_leaves {p p' : Prog (At C) (Ans O) (Ended Nat)} {exits : Nat → Prog (At C) (Ans O) (Ended Nat)} {ign : Bool}
    (hp : r Nat p p') (hexits : ∀ n, r Nat (exits n) (exits n)) :
    r Nat (p >>= fun e => e.leaves exits ign) (p' >>= fun e => e.leaves exits ign) := by
  refine hr.bind p p' _ _ hp rfl rfl fun e he => ?_
  cases e with
  | done n | returned n => exact alike_check hr n ign
  | exited n => exact hexits n
  | cut => exact absurd rfl he

theorem alike_subshell (ha : Alike r a a') : Alike r (subshell a) (subshell a') :=
  fun ign => related_leaves hr (ha ign) fun n => alike_check hr n ign

theorem alike_func (ha : Alike r a a') : Alike r (func a) (func a') :=
  fun ign => related_leaves hr (ha ign) fun _ => hr.ret _ (by simp)

end Constructs

/-! ## One side only -/

section Well

variable {σ : Type} {sem : (c : At C) → σ → Ans O c → σ → Prop} {pre : At C → Log (At C) (Ans O) σ → σ → Prop} {P : C → Prop}

/-- What goes well wherever `I` holds, and keeps it. -/
def Well (sem : (c : At C) → σ → Ans O c → σ → Prop) (pre : At C → Log (At C) (Ans O) σ → σ → Prop) (I : σ → Prop)
    (cuts : Prop) : Relation C O := fun _ p _ => ∀ l s, I s → Goes sem pre p (fun e _ s => I s ∧ (e = .cut → cuts)) l s

theorem congruence_goes {I : σ → Prop} (cuts : Prop) (hpre : ∀ c l s, P c.cmd → I s → pre c l s)
    (hkeep : ∀ c s b s', P c.cmd → I s → sem c s b s' → I s') : Congruence P (Well sem pre I cuts) where
  ret e he l s hs := ⟨hs, fun h => absurd h he⟩
  call c k k' hc hk l s hs := ⟨hpre c l s hc hs, fun b s' h => hk b _ s' (hkeep c s b s' hc hs h)⟩
  bind p p' f f' hp hf hf' hall l s hs := by
    refine goes_bind (goes_mono (fun e l' s' he => ?_) (hp l s hs))
    by_cases hcut : e = .cut
    · rw [hcut, hf]
      exact ⟨he.1, fun _ => he.2 hcut⟩
    · exact hall e hcut l' s' he.1

end Well

/-! ## A loop with more rounds -/

/-- The second does what the first does, up to where the first is cut short. -/
inductive Further : Relation C O
  | cut {α : Type} (p' : Prog (At C) (Ans O) (Ended α)) : Further α (.ret .cut) p'
  | ret {α : Type} (e : Ended α) : Further α (.ret e) (.ret e)
  | call {α : Type} (c : At C) {k k' : Ans O c → Prog (At C) (Ans O) (Ended α)} : (∀ b, Further α (k b) (k' b)) →
    Further α (.call c k) (.call c k')

theorem congruence_further : Congruence (fun _ => True) (Further (C := C) (O := O)) where
  ret e _ := .ret e
  call c _ _ _ hk := .call c hk
  bind p p' f f' hp hf hf' hall := by
    induction hp with
    | cut p' =>
      rw [Prog.ret_bind, hf]
      exact .cut _
    | ret e =>
      by_cases hcut : e = .cut
      · rw [hcut, Prog.ret_bind, hf]
        exact .cut _
      · exact hall e hcut
    | call c hk ih => exact .call c fun b => ih b f f' hf hf' hall

theorem further_while {τ : Type} {cond : τ → Command C O} {body : τ → Script C O τ}
    (hcond : ∀ v, Alike Further (cond v) (cond v)) (hbody : ∀ v, Alike Further (body v) (body v)) {rounds rounds' : Nat}
    (hle : rounds ≤ rounds') (v : τ) : Alike Further (whileDo cond body rounds v) (whileDo cond body rounds' v) := by
  induction rounds generalizing rounds' v with
  | zero => exact fun _ => .cut _
  | succ rounds ih =>
    obtain ⟨rounds', rfl⟩ := Nat.exists_eq_add_of_le' (Nat.le_trans (Nat.succ_le_succ (Nat.zero_le _)) hle)
    refine alike_ifThen congruence_further (hcond v) ?_ (alike_pure congruence_further v)
    exact alike_bind congruence_further (hbody v) fun v' => ih (Nat.le_of_succ_le_succ hle) v'

theorem further_ret {p p' : Prog (At C) (Ans O) (Ended α)} (h : Further α p p') (hcut : p ≠ .ret .cut) (e : Ended α) :
    p = .ret e ↔ p' = .ret e := by
  cases h with
  | cut _ => exact absurd rfl hcut
  | ret _ => exact Iff.rfl
  | call c _ => exact ⟨fun h => (by cases h), fun h => (by cases h)⟩

/-- The runs of the second are runs of the first, if that is never cut short. -/
theorem serial_further {ι σ : Type} {sem : (c : At C) → σ → Ans O c → σ → Prop} {init : σ → Prop}
    {body : ι → Prog (At C) (Ans O) (Ended α)} {i i' : ι} {h : List (Job ι (At C) (Ans O) (Ended α) σ)} {s₀ s : σ}
    {l : Log (At C) (Ans O) σ} {p' : Prog (At C) (Ans O) (Ended α)}
    (hr : Serial sem body init (⟨i', s₀, l, s, p'⟩ :: h) s) (hfurther : Further α (body i) (body i'))
    (hcut : ∀ s, Goes sem (fun _ _ _ => True) (body i) (fun e _ _ => e ≠ .cut) [] s) :
    ∃ p, Serial sem body init (⟨i, s₀, l, s, p⟩ :: h) s ∧ Further α p p' ∧
      Goes sem (fun _ _ _ => True) p (fun e _ _ => e ≠ .cut) l s := by
  induction l generalizing s p' with
  | nil => cases hr with
    | start _ hr => exact ⟨body i, .start i hr, hfurther, hcut _⟩
  | cons x l ih => cases hr with
    | act b _ hr hs =>
      obtain ⟨p, hp, hf, hgo⟩ := ih hr
      cases hf with
      | cut _ => exact absurd rfl hgo
      | call c hk => exact ⟨_, .act b _ hp hs, hk b, hgo.2 b _ hs⟩

end Kaguya.Lib.Shell
