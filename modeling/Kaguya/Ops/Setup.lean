/-
  Kaguya.Ops.Setup — the rendering of the configurations (`setup.sh`): `.env` is read line
  by line into the environment, the host names are checked, and each template is filled by
  the inline Python program and written over its output.

  The program replaces the placeholder of one key after another in all of the text, what
  was put in for an earlier key included, and refuses a text in which an opening `\x7b\x7b` is
  left. While a run goes nothing else writes the files. The output is never closed by the
  program: it is flushed when the file object goes, where Python passes over an error. So
  on a full disk the program can succeed with its output cut short (`Lost`).

  Proved, wherever a run is stopped and whatever fails: `setup_renders`.
-/

import Mathlib.Logic.Function.Basic
import Kaguya.Lib.Template
import Kaguya.Ops.Update

namespace Kaguya.Ops.Setup

open Kaguya.Lib
open Kaguya.Lib.Shell
open Kaguya.Lib.Template
open Kaguya.Ops.Update (Environ exportLines)

/-! ## The Python program -/

/-- `keys` -/
def keys : List String := ["LORE_HOST", "LORE_AUTH_HOST", "LORE_WEB_HOST"]

/-- A text file as Python reads it: each end of a line is a line feed. -/
def newlines : List Char → List Char
  | [] => []
  | '\r' :: '\n' :: cs => '\n' :: newlines cs
  | c :: cs => (if c = '\r' then '\n' else c) :: newlines cs

/-- `os.environ.get(k, "")` -/
def value (env : Environ) (k : String) : String := (env k).getD ""

/-- What is written, if no placeholder remains. -/
def rendering (env : Environ) (tmpl : String) : Option String :=
  let text := replaceAll '\x7b' '\x7d' (fun k => (value env (String.ofList k)).toList) (keys.map String.toList)
    (newlines tmpl.toList)
  if Marked '\x7b' text then none else some (String.ofList text)

/-! ## The script -/

inductive Cmd where
  /-- `cd "$(dirname "$0")"` -/
  | cd
  /-- `[ -f path ]` -/
  | testFile (path : String)
  /-- `while read ..; done < path` -/
  | readLines (path : String)
  /-- `echo` to standard error -/
  | complain (text : String)
  /-- `python3 - tmpl out`, in its environment -/
  | python (tmpl out : String) (env : Environ)
  | echo (text : String)

@[reducible] def Cmd.Out : Cmd → Type
  | readLines _ => List String
  | _ => Unit

abbrev Sh (α : Type) := Script Cmd Cmd.Out α

/-- `for v in ..`: each is set, and not empty. -/
def checkSet (env : Environ) : List String → Sh Nat
  | [] => return 0
  | v :: vs => do
    let _ ← orElse (test (!(value env v).isEmpty)) do
      let _ ← simple (.complain ("error: " ++ v ++ " is not set in .env"))
      exit 1
    checkSet env vs

def render (env : Environ) (tmpl out : String) : Sh Nat := func (simple (.python tmpl out env))

def setup (environ : Environ) : Sh Nat := do
  let _ ← simple .cd
  let _ ← orElse (simple (.testFile ".env")) do
    let _ ← simple (.complain "error: copy .env.example to .env and edit it first")
    exit 1
  let lines : List String ← assign (Cmd.readLines ".env")
  let some env := exportLines lines environ | exit 2
  let _ ← checkSet env keys
  let _ ← render env "caddy/Caddyfile.tmpl" "caddy/Caddyfile"
  let _ ← render env "lore/local.toml.tmpl" "lore/local.toml"
  simple (.echo "done. next: build the loreserver image (see README), then: docker compose up -d")

/-- The templates, with what they are rendered to, in the script's order. -/
def templates : List (String × String) :=
  [("caddy/Caddyfile.tmpl", "caddy/Caddyfile"), ("lore/local.toml.tmpl", "lore/local.toml")]

/-! ## What the commands do -/

/-- The files, by path. -/
abbrev Files := String → Option String

/-- The lines of a file, the last one also without a line feed. -/
def linesFrom (line : List Char) : List Char → List String
  | [] => if line = [] then [] else [String.ofList line]
  | c :: cs => if c = '\n' then String.ofList line :: linesFrom [] cs else linesFrom (line ++ [c]) cs

/-- What a command can answer, and do. A program that fails while it writes may leave
    anything in its output, and so may one whose last flush fails, which is not told. -/
def Does (s : Files) : (c : Cmd) → Nat × c.Out → Files → Prop
  | .testFile path, b, s' => s' = s ∧ (b.1 = 0 ↔ s path ≠ none)
  | .readLines path, b, s' => s' = s ∧ (b.1 = 0 → ∃ text, s path = some text ∧ b.2 = linesFrom [] text.toList)
  | .python tmpl out env, b, s' =>
      match (s tmpl).bind (rendering env) with
      | some _ => (∀ path ≠ out, s' path = s path) ∧ (b.1 = 0 → s' out ≠ none)
      | none => s' = s ∧ b.1 ≠ 0
  | _, _, s' => s' = s

def Sem (c : At Cmd) (s : Files) (b : Ans Cmd.Out c) (s' : Files) : Prop := Does s c.cmd b s'

/-- The command succeeds if it can. -/
def Succeeds (s : Files) : (c : Cmd) → Nat × c.Out → Prop
  | .testFile _, _ => True
  | .readLines path, b => s path ≠ none → b.1 = 0
  | .python tmpl _ env, b => (s tmpl).bind (rendering env) ≠ none → b.1 = 0
  | _, b => b.1 = 0

abbrev Run := Job Environ (At Cmd) (Ans Cmd.Out) (Ended Nat) Files

/-- Runs one after another, each in an environment of its own, from any files. -/
abbrev History (h : List Run) (s : Files) : Prop := Serial Sem (fun environ => setup environ false) (fun _ => True) h s

/-- A command has failed that could succeed. -/
def Faulted (l : Log (At Cmd) (Ans Cmd.Out) Files) : Prop := ∃ x ∈ l, ¬ Succeeds x.before x.call.cmd x.ans

/-- The program for `out` has succeeded, and its output is not what it was to write. -/
def Lost (out : String) (l : Log (At Cmd) (Ans Cmd.Out) Files) : Prop :=
  ∃ x ∈ l, ∃ tmpl env, x.call.cmd = .python tmpl out env ∧ x.ans.1 = 0 ∧
    x.after out ≠ (x.before tmpl).bind (rendering env)

/-! ## What is to be rendered -/

/-- The environment after `.env`. -/
def settings (environ : Environ) (s : Files) : Option Environ :=
  (s ".env").bind fun text => exportLines (linesFrom [] text.toList) environ

/-- What a template is rendered to. -/
def rendered (environ : Environ) (s : Files) (tmpl : String) : Option String :=
  (settings environ s).bind fun env => (s tmpl).bind (rendering env)

/-- The output is what its template is rendered to, as the files were in `s₀`. -/
def Renders (environ : Environ) (s₀ s : Files) (t : String × String) : Prop :=
  rendered environ s₀ t.1 ≠ none ∧ s t.2 = rendered environ s₀ t.1

/-- Everything is there: the settings, each host name, and templates that can be filled. -/
structure Ready (environ : Environ) (s : Files) : Prop where
  hosts : ∃ env, settings environ s = some env ∧ ∀ v ∈ keys, value env v ≠ ""
  templates : ∀ t ∈ templates, rendered environ s t.1 ≠ none

/-! ## The course of a run -/

/-- At any instant of a run that started in `s₀`. -/
structure Stage (environ : Environ) (s₀ : Files) (l : Log (At Cmd) (Ans Cmd.Out) Files) (s : Files) : Prop where
  others : ∀ path, path ∉ templates.map Prod.snd → s path = s₀ path
  order : s "lore/local.toml" ≠ s₀ "lore/local.toml" →
    Renders environ s₀ s ("caddy/Caddyfile.tmpl", "caddy/Caddyfile") ∨ Lost "caddy/Caddyfile" l
  again : (∀ t ∈ templates, Renders environ s₀ s₀ t) → ¬ Faulted l → (∀ out, ¬ Lost out l) → s = s₀

/-- How a run may end. -/
def Final (environ : Environ) (s₀ : Files) (e : Ended Nat) (l : Log (At Cmd) (Ans Cmd.Out) Files) (s : Files) : Prop :=
  Stage environ s₀ l s ∧
    match e with
    | .done n => n = 0 ∧ Ready environ s₀ ∧ ∀ t ∈ templates, Renders environ s₀ s t ∨ Lost t.2 l
    | .exited n => n ≠ 0 ∧ (Ready environ s₀ → Faulted l)
    | _ => False

variable {environ env : Environ} {s₀ s s' : Files} {l : Log (At Cmd) (Ans Cmd.Out) Files}

theorem faulted_cons {x : Answered (At Cmd) (Ans Cmd.Out) Files} (h : Faulted l) : Faulted (x :: l) := by
  obtain ⟨y, hy, hf⟩ := h
  exact ⟨y, List.mem_cons_of_mem _ hy, hf⟩

theorem lost_cons {x : Answered (At Cmd) (Ans Cmd.Out) Files} {out : String} (h : Lost out l) : Lost out (x :: l) := by
  obtain ⟨y, hy, hl⟩ := h
  exact ⟨y, List.mem_cons_of_mem _ hy, hl⟩

theorem faulted_last {c : At Cmd} {b : Ans Cmd.Out c} (h : ¬ Succeeds s c.cmd b) : Faulted (⟨s, c, b, s'⟩ :: l) :=
  ⟨_, List.mem_cons_self, h⟩

/-- The commands that only say something. -/
def Speaks : Cmd → Prop
  | .cd | .complain _ | .echo _ => True
  | _ => False

theorem speaks_kept {c : Cmd} {b : Nat × c.Out} (hc : Speaks c) (h : Does s c b s') : s' = s := by
  cases c with
  | cd | complain _ | echo _ => exact h
  | _ => exact hc.elim

theorem speaks_faulted {c : At Cmd} {b : Ans Cmd.Out c} (hc : Speaks c.cmd) (hb : b.1 ≠ 0) :
    Faulted (⟨s, c, b, s'⟩ :: l) := by
  obtain ⟨c, plain⟩ := c
  refine faulted_last fun h => ?_
  cases c with
  | cd | complain _ | echo _ => exact hb h
  | _ => exact hc.elim

/-- One more call that leaves the files. -/
theorem Stage.same {x : Answered (At Cmd) (Ans Cmd.Out) Files} (h : Stage environ s₀ l s) : Stage environ s₀ (x :: l) s where
  others := h.others
  order hne := (h.order hne).imp_right lost_cons
  again hr hf hl := h.again hr (fun h => hf (faulted_cons h)) fun out h => hl out (lost_cons h)

theorem stage_start : Stage environ s l s where
  others _ _ := rfl
  order h := absurd rfl h
  again _ _ _ := rfl

/-- Commands that only say something keep the files, and `X` of them. -/
theorem keeps_speaking {X : Log (At Cmd) (Ans Cmd.Out) Files → Files → Prop} (hX : ∀ x l s, X l s → X (x :: l) s) :
    Keeps Sem (fun _ l s => Stage environ s₀ l s) (fun c => Speaks c.cmd)
      (fun l s => Stage environ s₀ l s ∧ X l s) (fun n l s => Final environ s₀ (.exited n) l s) where
  needs _ _ _ _ h := h.1
  keeps c l s b s' hc h hs _ := by
    obtain rfl := speaks_kept hc hs
    exact ⟨h.1.same, hX _ _ _ h.2⟩
  fails c l s b s' hc h hs _ hb := by
    obtain rfl := speaks_kept hc hs
    exact ⟨h.1.same, hb, fun _ => speaks_faulted hc hb⟩

/-! ### The checks -/

theorem goes_checkSet {Q : Ended Nat → Log (At Cmd) (Ans Cmd.Out) Files → Files → Prop} {vs : List String}
    (hdone : (∀ v ∈ vs, value env v ≠ "") → Q (.done 0) l s)
    (hexit : ∀ n l s, Final environ s₀ (.exited n) l s → Q (.exited n) l s)
    (hset : Ready environ s₀ → ∀ v ∈ vs, value env v ≠ "") (h : Stage environ s₀ l s) :
    Goes Sem (fun _ l s => Stage environ s₀ l s) (checkSet env vs false) Q l s := by
  induction vs with
  | nil => exact hdone fun v hv => by cases hv
  | cons v vs ih =>
    refine goes_seq (goes_orElse (goes_check (Or.inr rfl) ?_))
    by_cases hv : value env v = ""
    · refine ⟨fun hz => ?_, fun _ => ?_⟩
      · rw [hv] at hz
        cases hz
      · have hk := @keeps_speaking environ s₀ (fun _ _ => True) fun _ _ _ h => h
        refine goes_seq (hk.plain trivial ⟨h, trivial⟩ (fun n l s he => hexit n l s he) fun b s' _ h' => ?_)
        exact hexit 1 _ _ ⟨h'.1, by decide, fun hr => absurd hv (hset hr v List.mem_cons_self)⟩
    · refine ⟨fun _ => ?_, fun hz => ?_⟩
      · refine ih (fun hall => hdone fun w hw => ?_) fun hr w hw => hset hr w (List.mem_cons_of_mem _ hw)
        rcases List.mem_cons.mp hw with rfl | hw
        · exact hv
        · exact hall w hw
      · have hne : (value env v).isEmpty = false := by simpa using hv
        rw [hne] at hz
        exact absurd rfl hz

/-! ### The renderings -/

/-- The program, where its template is as it was. -/
theorem python_does {t : String × String} {plain : Bool} {b : Nat × Unit} (hset : settings environ s₀ = some env)
    (ht : s t.1 = s₀ t.1) (h : Does s (.python t.1 t.2 env) b s') :
    (∀ path ≠ t.2, s' path = s path) ∧
      (b.1 = 0 → rendered environ s₀ t.1 ≠ none ∧
        (s' t.2 = rendered environ s₀ t.1 ∨ Lost t.2 (⟨s, ⟨.python t.1 t.2 env, plain⟩, b, s'⟩ :: l))) ∧
      (b.1 ≠ 0 → rendered environ s₀ t.1 ≠ none → ¬ Succeeds s (.python t.1 t.2 env) b) := by
  have he : rendered environ s₀ t.1 = (s t.1).bind (rendering env) := by rw [rendered, hset, ht]; rfl
  have hlost : b.1 = 0 → s' t.2 = rendered environ s₀ t.1 ∨ Lost t.2 (⟨s, ⟨.python t.1 t.2 env, plain⟩, b, s'⟩ :: l) := by
    intro hb
    rw [he]
    exact or_iff_not_imp_left.mpr fun hne => ⟨_, List.mem_cons_self, t.1, env, rfl, hb, hne⟩
  rw [Does] at h
  rw [he] at hlost ⊢
  cases hr : (s t.1).bind (rendering env) with
  | none =>
    rw [hr] at h
    exact ⟨fun path _ => by rw [h.1], fun hb => absurd hb h.2, fun _ hn => absurd rfl hn⟩
  | some text =>
    rw [hr] at h hlost
    refine ⟨h.1, fun hb => ⟨Option.some_ne_none _, hlost hb⟩, fun hb _ hs => hb ?_⟩
    exact hs (by rw [hr]; exact Option.some_ne_none _)

/-- A template is rendered. -/
theorem goes_render {Q : Ended Nat → Log (At Cmd) (Ans Cmd.Out) Files → Files → Prop} {t : String × String}
    (ht : t ∈ templates) (hset : settings environ s₀ = some env)
    (hQ : ∀ n l s, Final environ s₀ (.exited n) l s → Q (.exited n) l s)
    (hstage : ∀ x s', (∀ path ≠ t.2, s' path = s path) →
      ((∀ t ∈ templates, Renders environ s₀ s₀ t) → ¬ Faulted (x :: l) → (∀ out, ¬ Lost out (x :: l)) → s' = s₀) →
      Stage environ s₀ (x :: l) s')
    (hdone : ∀ x s', (∀ path ≠ t.2, s' path = s path) → Stage environ s₀ (x :: l) s' → rendered environ s₀ t.1 ≠ none →
      (s' t.2 = rendered environ s₀ t.1 ∨ Lost t.2 (x :: l)) → Q (.done 0) (x :: l) s')
    (h : Stage environ s₀ l s) : Goes Sem (fun _ l s => Stage environ s₀ l s) (render env t.1 t.2 false) Q l s := by
  have htmpl : s t.1 = s₀ t.1 := by
    refine h.others t.1 ?_
    have : ∀ t ∈ templates, t.1 ∉ templates.map Prod.snd := by decide
    exact this t ht
  refine goes_func_simple h (fun b s' hs hb => ?_) fun b s' hs hb => ?_
  · obtain ⟨hkept, hwritten, _⟩ := python_does hset htmpl hs
    obtain ⟨hr, hout⟩ := hwritten hb
    refine hdone _ s' hkept (hstage _ s' hkept fun hagain hf hl => ?_) hr hout
    -- what is written is what was there
    have hsame : s = s₀ := h.again hagain (fun hf' => hf (faulted_cons hf')) fun out hl' => hl out (lost_cons hl')
    refine funext fun path => ?_
    by_cases hpath : path = t.2
    · rw [hpath, hout.resolve_right (hl t.2), (hagain t ht).2]
    · rw [hkept path hpath, hsame]
  · obtain ⟨hkept, _, hfault⟩ := @python_does environ env s₀ s s' l t true b hset htmpl hs
    refine hQ _ _ _ ⟨hstage _ s' hkept fun hagain hf _ => ?_, hb, fun hready => ?_⟩
    · exact absurd (faulted_last (hfault hb (hagain t ht).1)) hf
    · exact faulted_last (hfault hb (hready.templates t ht))

/-- From the settings on. -/
theorem goes_renders (hset : settings environ s₀ = some env) (h : Stage environ s₀ l s₀) :
    Goes Sem (fun _ l s => Stage environ s₀ l s) ((do
      let _ ← checkSet env keys
      let _ ← render env "caddy/Caddyfile.tmpl" "caddy/Caddyfile"
      let _ ← render env "lore/local.toml.tmpl" "lore/local.toml"
      simple (.echo "done. next: build the loreserver image (see README), then: docker compose up -d") : Sh Nat) false)
      (Final environ s₀) l s₀ := by
  have hhosts : Ready environ s₀ → ∀ v ∈ keys, value env v ≠ "" := by
    intro hready
    obtain ⟨env', he, hall⟩ := hready.hosts
    rw [hset] at he
    cases he
    exact hall
  have hexit : ∀ n l s, Final environ s₀ (.exited n) l s → Final environ s₀ (.exited n) l s := fun _ _ _ h => h
  refine goes_seq (goes_checkSet (fun hnames => ?_) hexit hhosts h)
  refine goes_seq (goes_render (t := ("caddy/Caddyfile.tmpl", "caddy/Caddyfile")) List.mem_cons_self hset hexit ?_ ?_ h)
  · -- only the first output can have changed
    intro x s' hkept hagain
    refine ⟨fun path hout => hkept path fun e => hout (e ▸ List.mem_cons_self), fun hne => ?_, hagain⟩
    exact absurd (hkept "lore/local.toml" (by decide)) hne
  intro x s₁ hkept hcaddy hr₁ hout
  have hfirst : Renders environ s₀ s₁ ("caddy/Caddyfile.tmpl", "caddy/Caddyfile") ∨ Lost "caddy/Caddyfile" (x :: l) :=
    hout.imp_left fun e => ⟨hr₁, e⟩
  -- the second leaves the first as it is
  have hstays : ∀ {y : Answered (At Cmd) (Ans Cmd.Out) Files} {s' : Files}, (∀ path ≠ "lore/local.toml", s' path = s₁ path) →
      Renders environ s₀ s' ("caddy/Caddyfile.tmpl", "caddy/Caddyfile") ∨ Lost "caddy/Caddyfile" (y :: x :: l) := by
    intro y s' hkept'
    refine hfirst.imp (fun hr => ⟨hr.1, ?_⟩) lost_cons
    have hsame := hkept' "caddy/Caddyfile" (by decide)
    exact hsame.trans hr.2
  refine goes_seq (goes_render (t := ("lore/local.toml.tmpl", "lore/local.toml"))
    (List.mem_cons_of_mem _ List.mem_cons_self) hset hexit ?_ ?_ hcaddy)
  · intro y s' hkept' hagain
    refine ⟨fun path hout => ?_, fun _ => hstays hkept', hagain⟩
    have hnot : path ≠ "caddy/Caddyfile" ∧ path ≠ "lore/local.toml" := by simpa [templates] using hout
    rw [hkept' path hnot.2, hkept path hnot.1]
  · intro y s₂ hkept' hlore hr₂ hout₂
    have hall : ∀ t ∈ templates, Renders environ s₀ s₂ t ∨ Lost t.2 (y :: x :: l) := by
      intro t ht
      rcases List.mem_pair.mp ht with rfl | rfl
      · exact hstays hkept'
      · exact hout₂.imp_left fun e => ⟨hr₂, e⟩
    have hsome : ∀ t ∈ templates, rendered environ s₀ t.1 ≠ none := by
      intro t ht
      rcases List.mem_pair.mp ht with rfl | rfl
      · exact hr₁
      · exact hr₂
    have hk := @keeps_speaking environ s₀ (fun l s => ∀ t ∈ templates, Renders environ s₀ s t ∨ Lost t.2 l)
      fun x l s h t ht => (h t ht).imp_right lost_cons
    refine hk.plain trivial ⟨hlore, hall⟩ hexit fun _ s' _ h' => ?_
    exact ⟨h'.1, rfl, ⟨⟨env, hset, hnames⟩, hsome⟩, h'.2⟩

/-- The course of a run. -/
theorem goes_setup (environ : Environ) (s₀ : Files) :
    Goes Sem (fun _ l s => Stage environ s₀ l s) (setup environ false) (Final environ s₀) [] s₀ := by
  have hk := @keeps_speaking environ s₀ (fun _ s => s = s₀) fun _ _ _ h => h
  refine goes_seq (hk.plain trivial ⟨stage_start, rfl⟩ (fun _ _ _ h => h) fun _ s₁ _ h₁ => ?_)
  refine goes_seq (goes_orElse (goes_caught h₁.1 fun b₂ s₂ hs₂ => ?_))
  obtain ⟨hstage, rfl⟩ := h₁
  obtain ⟨rfl, hexists⟩ := hs₂
  refine ⟨fun hz => ?_, fun hz => ?_⟩
  · -- `.env` is there
    refine goes_seq (goes_assign hstage.same (fun b₃ s₃ hs₃ hb₃ => ?_) fun b₃ s₃ hs₃ hb₃ => ?_)
    · obtain ⟨rfl, hread⟩ := hs₃
      obtain ⟨text, hfile, hlines⟩ := hread hb₃
      have hsettings : settings environ s₃ = exportLines b₃.2 environ := by rw [settings, hfile, hlines]; rfl
      rw [Ended.post]
      cases hset : exportLines b₃.2 environ with
      | none =>
        refine ⟨hstage.same.same, by decide, fun hready => ?_⟩
        obtain ⟨env, he, _⟩ := hready.hosts
        rw [hsettings, hset] at he
        cases he
      | some env =>
        exact goes_renders (hsettings.trans hset) hstage.same.same
    · obtain ⟨rfl, _⟩ := hs₃
      exact ⟨hstage.same.same, hb₃, fun _ => faulted_last fun h => hb₃ (h (hexists.mp hz))⟩
  · refine goes_seq (hk.plain trivial ⟨hstage.same, rfl⟩ (fun _ _ _ h => h) fun _ s₃ _ h₃ => ?_)
    refine ⟨h₃.1, by decide, fun hready => absurd (hexists.mpr fun hnone => ?_) hz⟩
    obtain ⟨env, he, _⟩ := hready.hosts
    rw [settings, hnone] at he
    cases he

/-! ## The runs -/

variable {older later : List Run} {j : Run}

theorem run_goes (hr : History (j :: older) s) :
    Goes Sem (fun _ l s => Stage j.info j.start l s) j.prog (Final j.info j.start) j.calls s := by
  have hbody : ∀ environ s₀, Goes Sem ((fun environ s₀ _ l s => Stage environ s₀ l s) environ s₀) (setup environ false)
      (Final environ s₀) [] s₀ := goes_setup
  exact serial_goes hbody hr

theorem run_stage (hr : History (j :: older) s) : Stage j.info j.start j.calls s := by
  have h := run_goes hr
  cases hp : j.prog with
  | call c k =>
    rw [hp] at h
    exact h.1
  | ret e =>
    rw [hp] at h
    exact h.1

theorem run_final {e : Ended Nat} (hr : History (j :: older) s) (hp : j.prog = .ret e) :
    Final j.info j.start e j.calls s := by
  have h := run_goes hr
  rw [hp] at h
  exact h

/-- What a template is rendered to stays, since neither `.env` nor a template is an output. -/
theorem Stage.rendered_eq (h : Stage environ s₀ l s) {t : String × String} (ht : t ∈ templates) :
    rendered environ s t.1 = rendered environ s₀ t.1 := by
  have hinput : ∀ t ∈ templates, t.1 ∉ templates.map Prod.snd := by decide
  rw [rendered, rendered, settings, settings, h.others ".env" (by decide), h.others t.1 (hinput t ht)]

/-- A run that has rendered all leaves files that the next one renders to themselves. -/
theorem rendered_fixed (hr : History (j :: older) s) (hp : j.prog = .ret (.done 0)) (hlost : ∀ out, ¬ Lost out j.calls) :
    ∀ t ∈ templates, Renders j.info s s t := by
  intro t ht
  obtain ⟨hstage, _, _, hall⟩ := run_final hr hp
  obtain ⟨hsome, hout⟩ := (hall t ht).resolve_right (hlost t.2)
  rw [Renders, hstage.rendered_eq ht]
  exact ⟨hsome, hout⟩

/-- Running it again changes nothing. -/
theorem rerun (hr : History (later ++ j :: older) s) (hp : j.prog = .ret (.done 0)) (hlost : ∀ out, ¬ Lost out j.calls)
    (hl : ∀ r ∈ later, r.info = j.info ∧ ¬ Faulted r.calls ∧ ∀ out, ¬ Lost out r.calls) : s = j.state := by
  induction later generalizing s with
  | nil => exact (serial_state hr).symm
  | cons r later ih =>
    have hstart : r.start = j.state := ih (serial_tail hr) fun r' h' => hl r' (List.mem_cons_of_mem _ h')
    obtain ⟨hinfo, hnofault, hnone⟩ := hl r List.mem_cons_self
    have hfixed := rendered_fixed (serial_at hr) hp hlost
    rw [← hinfo, ← hstart] at hfixed
    exact ((run_stage hr).again hfixed hnofault hnone).trans hstart

/-! ## What a rendering is -/

/-- A template of literals and holes whose values have no brace of their own. -/
theorem rendering_filled {tmpl : String} {ps : List (Template.Piece Char)} (hps : ∀ p ∈ ps, p.Ok '\x7b' '\x7d')
    (htmpl : newlines tmpl.toList = text '\x7b' '\x7d' ps) (hv : ∀ k ∈ keys, '\x7b' ∉ (value env k).toList) (out : String) :
    rendering env tmpl = some out ↔ (∀ k, Template.Piece.hole k ∈ ps → String.ofList k ∈ keys) ∧
      out.toList = ps.flatMap (Template.Piece.filled fun k => (value env (String.ofList k)).toList) := by
  have hn : ∀ k ∈ keys.map String.toList, '\x7d' ∉ k ∧ '\x7b' ∉ (value env (String.ofList k)).toList := by
    intro k hk
    have hbrace : ∀ k ∈ keys.map String.toList, '\x7d' ∉ k := by decide
    obtain ⟨name, hname, rfl⟩ := List.mem_map.mp hk
    rw [String.ofList_toList]
    exact ⟨hbrace _ hk, hv name hname⟩
  have hmem : ∀ k : List Char, k ∈ keys.map String.toList ↔ String.ofList k ∈ keys := by
    intro k
    constructor
    · intro hk
      obtain ⟨name, hname, rfl⟩ := List.mem_map.mp hk
      rwa [String.ofList_toList]
    · intro hk
      exact List.mem_map.mpr ⟨_, hk, String.toList_ofList⟩
  have hmarked := marked_replaceAll (by decide) hn hps
  rw [rendering, htmpl]
  by_cases hall : ∀ k, Template.Piece.hole k ∈ ps → String.ofList k ∈ keys
  · have hplain : ¬ Marked '\x7b' (replaceAll '\x7b' '\x7d' (fun k => (value env (String.ofList k)).toList)
        (keys.map String.toList) (text '\x7b' '\x7d' ps)) := by
      intro hm
      obtain ⟨k, hk, hnot⟩ := hmarked.mp hm
      exact hnot ((hmem k).mpr (hall k hk))
    rw [if_neg hplain, replaceAll_filled (by decide) hn hps fun k hk => (hmem k).mpr (hall k hk), Option.some.injEq]
    constructor
    · rintro rfl
      exact ⟨hall, String.toList_ofList⟩
    · rintro ⟨_, h⟩
      rw [← h, String.ofList_toList]
  · have hleft : Marked '\x7b' (replaceAll '\x7b' '\x7d' (fun k => (value env (String.ofList k)).toList)
        (keys.map String.toList) (text '\x7b' '\x7d' ps)) := by
      obtain ⟨k, hk⟩ := not_forall.mp hall
      obtain ⟨hk, hnot⟩ := Classical.not_imp.mp hk
      exact hmarked.mpr ⟨k, hk, fun h => hnot ((hmem k).mp h)⟩
    rw [if_pos hleft]
    exact ⟨fun h => (by cases h), fun h => absurd h.1 hall⟩

end Kaguya.Ops.Setup
