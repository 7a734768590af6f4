/-
  Kaguya.Lib.Without — scripts that differ in commands that do not matter: the second is
  the first without some of its commands (`Without`), which go well and change nothing
  that lasts, but for what others do meanwhile. So a series of runs of the first is a
  series of runs of the second, run by run (`serial_without`), and the other way round if
  those commands can always be made (`serial_with`).
-/

import Kaguya.Lib.Alike
import Mathlib.Data.List.Forall2

namespace Kaguya.Lib.Shell

variable {C ι α β σ : Type} {O : C → Type}

section Without

variable (keep : C → Prop) (drops : C → Bool) (fine : (c : At C) → Ans O c → Prop)

/-- The second makes the commands of the first, which are of `keep`, but for some of
    `drops`, after which it is there already if their answer is fine. -/
inductive Without : Relation C O
  | ret {α : Type} (e : Ended α) : Without α (.ret e) (.ret e)
  | call {α : Type} (c : At C) {k k' : Ans O c → Prog (At C) (Ans O) (Ended α)} : keep c.cmd →
    (∀ b, Without α (k b) (k' b)) → Without α (.call c k) (.call c k')
  | skip {α : Type} (c : At C) {k : Ans O c → Prog (At C) (Ans O) (Ended α)} {p' : Prog (At C) (Ans O) (Ended α)} :
    drops c.cmd = true → (∀ b, fine c b → Without α (k b) p') → Without α (.call c k) p'

theorem congruence_without : Congruence keep (Without keep drops fine) where
  ret e _ := .ret e
  call c _ _ hc hk := .call c hc hk
  bind p p' f f' hp hf hf' hall := by
    induction hp with
    | ret e =>
      by_cases hcut : e = .cut
      · rw [hcut, Prog.ret_bind, Prog.ret_bind, hf, hf']
        exact .ret _
      · exact hall e hcut
    | call c hc _ ih => exact .call c hc fun b => ih b f f' hf hf' hall
    | skip c hc _ ih => exact .skip c hc fun b hb => ih b hb f f' hf hf' hall

/-- What was run and answered, but for what does not matter. -/
def heard (l : Log (At C) (Ans O) σ) : List ((c : At C) × Ans O c) :=
  (l.filter fun x => !drops x.call.cmd).map fun x => ⟨x.call, x.ans⟩

/-- The second run is the first without the commands that do not matter. -/
structure Sheds (j j' : Job ι (At C) (Ans O) (Ended α) σ) : Prop where
  info : j'.info = j.info
  heard : heard drops j'.calls = heard drops j.calls
  keeps : ∀ x ∈ j'.calls, keep x.call.cmd
  rest : Without keep drops fine α j.prog j'.prog

end Without

variable {keep : C → Prop} {drops : C → Bool} {fine : (c : At C) → Ans O c → Prop}

theorem heard_cons (x : Answered (At C) (Ans O) σ) (l : Log (At C) (Ans O) σ) :
    heard drops (x :: l) = if drops x.call.cmd = true then heard drops l else ⟨x.call, x.ans⟩ :: heard drops l := by
  rw [heard, List.filter_cons]
  cases drops x.call.cmd <;> rfl

theorem without_ret {e : Ended α} {p' : Prog (At C) (Ans O) (Ended α)} (h : Without keep drops fine α (.ret e) p') :
    p' = .ret e := by
  cases h with
  | ret _ => rfl

/-- What comes to nothing is followed by the rest. -/
theorem without_bind {e : Ended α} {p : Prog (At C) (Ans O) (Ended α)} {f : Ended α → Prog (At C) (Ans O) (Ended β)}
    {q : Prog (At C) (Ans O) (Ended β)} (h : Without keep drops fine α p (.ret e)) (hf : Without keep drops fine β (f e) q) :
    Without keep drops fine β (p >>= f) q := by
  generalize hr : (.ret e : Prog (At C) (Ans O) (Ended α)) = r at h
  induction h with
  | ret e' =>
    cases hr
    exact hf
  | call => cases hr
  | skip c hc _ ih => exact .skip c hc fun b hb => ih b hb hf hr

/-- A command that does not matter, where its status lets the script go on. -/
theorem without_simple {c : C} {ign : Bool} (hc : drops c = true) (hgo : ∀ b, fine ⟨c, !ign⟩ b → b.1 = 0 ∨ ign = true)
    {f : Ended Nat → Prog (At C) (Ans O) (Ended β)} {q : Prog (At C) (Ans O) (Ended β)}
    (hf : ∀ b, fine ⟨c, !ign⟩ b → Without keep drops fine β (f (.done b.1)) q) :
    Without keep drops fine β (simple c ign >>= f) q := by
  refine .skip ⟨c, !ign⟩ hc fun b hb => ?_
  show Without keep drops fine β ((Prog.ret (if b.1 = 0 ∨ ign = true then Ended.done b else .exited b.1) >>= fun e =>
    e.next fun a => (fun b => pure b.1 : Nat × O c → Script C O Nat) a ign) >>= f) q
  rw [if_pos (hgo b hb)]
  exact hf b hb

variable {sem : (c : At C) → σ → Ans O c → σ → Prop} {init : σ → Prop}
variable {body body' : ι → Prog (At C) (Ans O) (Ended α)}

theorem serial_without (env : σ → σ → Prop) (hrefl : ∀ s, env s s)
    (htrans : ∀ s s' s'', env s s' → env s' s'' → env s s'')
    (habsorb : ∀ c s s₁ b s', env s s₁ → sem c s₁ b s' → sem c s b s')
    (hstill : ∀ c s b s', drops c.cmd = true → sem c s b s' → env s s')
    (hbody : ∀ i, Without keep drops fine α (body i) (body' i)) {h : List (Job ι (At C) (Ans O) (Ended α) σ)} {s : σ}
    (hr : Serial sem body init h s) (hfine : ∀ j ∈ h, ∀ x ∈ j.calls, drops x.call.cmd = true → fine x.call x.ans) :
    ∃ h' s', Serial sem body' init h' s' ∧ env s' s ∧ List.Forall₂ (Sheds keep drops fine) h h' := by
  induction hr with
  | init s hs => exact ⟨[], s, .init s hs, hrefl s, .nil⟩
  | start i _ ih =>
    obtain ⟨h', s', hr', henv, hall⟩ := ih fun j hj => hfine j (List.mem_cons_of_mem _ hj)
    exact ⟨_, s', .start i hr', henv, .cons ⟨rfl, rfl, fun _ hx => (by cases hx), hbody i⟩ hall⟩
  | @act h i s₀ s l c k b t _ hs ih =>
    have hfine' : ∀ j ∈ (⟨i, s₀, l, s, .call c k⟩ : Job ι (At C) (Ans O) (Ended α) σ) :: h, ∀ x ∈ j.calls,
        drops x.call.cmd = true → fine x.call x.ans := by
      intro j hj x hx
      rcases List.mem_cons.mp hj with rfl | hj
      · exact hfine _ List.mem_cons_self x (List.mem_cons_of_mem _ hx)
      · exact hfine j (List.mem_cons_of_mem _ hj) x hx
    obtain ⟨h', s', hr', henv, hall⟩ := ih hfine'
    cases hall with
    | @cons _ j' _ older' hj hall =>
      have hstate := serial_state hr'
      obtain ⟨i', s₀', l', t', p'⟩ := j'
      dsimp only at hstate
      subst hstate
      obtain ⟨hinfo, hheard, hkeeps, hrest⟩ := hj
      cases hrest with
      | call _ hc hk =>
        refine ⟨_, t, .act b t hr' (habsorb c _ s b t henv hs), hrefl t, .cons ⟨hinfo, ?_, ?_, hk b⟩ hall⟩
        · rw [heard_cons, heard_cons, show heard drops l' = heard drops l from hheard]
        · exact List.forall_mem_cons.mpr ⟨hc, hkeeps⟩
      | skip _ hc hk =>
        refine ⟨_, _, hr', htrans _ _ _ henv (hstill c s b t hc hs), .cons ⟨hinfo, ?_, hkeeps, hk b ?_⟩ hall⟩
        · rw [heard_cons, if_pos hc]
          exact hheard
        · exact hfine _ List.mem_cons_self _ List.mem_cons_self hc

/-- The second is about to do what the first does. -/
inductive Settled (keep : C → Prop) (drops : C → Bool) (fine : (c : At C) → Ans O c → Prop) :
    Prog (At C) (Ans O) (Ended α) → Prog (At C) (Ans O) (Ended α) → Prop
  | ret (e : Ended α) : Settled keep drops fine (.ret e) (.ret e)
  | call (c : At C) {k k' : Ans O c → Prog (At C) (Ans O) (Ended α)} : keep c.cmd →
    (∀ b, Without keep drops fine α (k b) (k' b)) → Settled keep drops fine (.call c k) (.call c k')

theorem settled_without {p p' : Prog (At C) (Ans O) (Ended α)} (h : Settled keep drops fine p p') :
    Without keep drops fine α p p' := by
  cases h with
  | ret e => exact .ret e
  | call c hc hk => exact .call c hc hk

theorem settled_ret {e : Ended α} {p : Prog (At C) (Ans O) (Ended α)} (h : Settled keep drops fine p (.ret e)) :
    p = .ret e := by
  cases h with
  | ret _ => rfl

section With

variable (hable : ∀ (c : At C) (s : σ), drops c.cmd = true → ∃ b, fine c b ∧ sem c s b s)
include hable

/-- The first makes what the second leaves out. -/
theorem serial_settle {p p' : Prog (At C) (Ans O) (Ended α)} (hw : Without keep drops fine α p p')
    {h : List (Job ι (At C) (Ans O) (Ended α) σ)} {i : ι} {s₀ s : σ} {l : Log (At C) (Ans O) σ}
    (hr : Serial sem body init (⟨i, s₀, l, s, p⟩ :: h) s) :
    ∃ l₁ p₁, Serial sem body init (⟨i, s₀, l₁, s, p₁⟩ :: h) s ∧ heard drops l₁ = heard drops l ∧
      Settled keep drops fine p₁ p' := by
  induction hw generalizing l with
  | ret e => exact ⟨l, _, hr, rfl, .ret e⟩
  | call c hc hk _ => exact ⟨l, _, hr, rfl, .call c hc hk⟩
  | skip c hc _ ih =>
    obtain ⟨b, hb, hs⟩ := hable c s hc
    obtain ⟨l₁, p₁, hr₁, hheard, hsettled⟩ := ih b hb (.act b s hr hs)
    rw [heard_cons, if_pos hc] at hheard
    exact ⟨l₁, p₁, hr₁, hheard, hsettled⟩

theorem serial_with (hbody : ∀ i, Without keep drops fine α (body i) (body' i))
    {h' : List (Job ι (At C) (Ans O) (Ended α) σ)} {s : σ} (hr : Serial sem body' init h' s) :
    ∃ h, Serial sem body init h s ∧
      List.Forall₂ (fun j j' => Sheds keep drops fine j j' ∧ Settled keep drops fine j.prog j'.prog) h h' := by
  induction hr with
  | init s hs => exact ⟨[], .init s hs, .nil⟩
  | start i _ ih =>
    obtain ⟨h, hr, hall⟩ := ih
    obtain ⟨l, p, hr₁, hheard, hsettled⟩ := serial_settle hable (hbody i) (.start i hr)
    exact ⟨_, hr₁, .cons ⟨⟨rfl, hheard.symm, fun _ hx => (by cases hx), settled_without hsettled⟩, hsettled⟩ hall⟩
  | @act h i s₀ s l c k b t _ hs ih =>
    obtain ⟨h', hr', hall⟩ := ih
    cases hall with
    | @cons j _ _ _ hj hall =>
      have hstate := serial_state hr'
      obtain ⟨i', s₀', l', t', p'⟩ := j
      dsimp only at hstate
      subst hstate
      obtain ⟨⟨hinfo, hheard, hkeeps, _⟩, hsettled⟩ := hj
      cases hsettled with
      | call _ hc hk =>
        obtain ⟨l₁, p₁, hr₁, hheard₁, hsettled₁⟩ := serial_settle hable (hk b) (.act b t hr' hs)
        refine ⟨_, hr₁, .cons ⟨⟨hinfo, ?_, List.forall_mem_cons.mpr ⟨hc, hkeeps⟩, settled_without hsettled₁⟩, hsettled₁⟩ hall⟩
        rw [hheard₁, heard_cons, heard_cons, show heard drops l = heard drops l' from hheard]

end With

end Kaguya.Lib.Shell
