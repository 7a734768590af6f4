/-
  Kaguya.Ops.Runs — runs of the deploy script one after another on one host (the lock
  and the systemd unit keep them apart), each stopped anywhere or not.

  What lasts between runs is the checkout, what git fetched last, the record of the
  commit that failed, and what others change at any time: local edits of tracked files,
  and the branch at origin. `Does` is what each command does to that, whether it succeeds
  or fails, and what it can answer; the commits and their history are git's (`Repo`).

  `checkout_kept` and `failed_kept`: only a merge and a reset move the checkout, only the
  `echo` and the `rm` touch the record.
-/

import Kaguya.Ops.Update

namespace Kaguya.Ops.Runs

open Kaguya.Lib
open Kaguya.Lib.Shell
open Kaguya.Ops.Update

/-! ## The repository -/

/-- `*` stands for any characters, the slash included. -/
def globMatch : List Char → List Char → Bool
  | [], cs => cs.isEmpty
  | '*' :: p, cs => (List.range (cs.length + 1)).any fun n => globMatch p (cs.drop n)
  | c :: p, cs => cs.head? == some c && globMatch p cs.tail

/-- A path that git takes a pathspec for: by its wildcards, or as the file or directory. -/
def pathspecMatches (spec path : String) : Bool :=
  if spec.toList.contains '*' then globMatch spec.toList path.toList
  else path = spec || (spec.toList ++ ['/']).isPrefixOf path.toList

structure Repo where
  /-- A commit is the other or comes before it. -/
  ancestor : Commit → Commit → Prop
  refl : ∀ a, ancestor a a
  trans : ∀ a b c, ancestor a b → ancestor b c → ancestor a c
  antisymm : ∀ a b, ancestor a b → ancestor b a → a = b
  /-- The path is not the same in the two commits. -/
  differs : Commit → Commit → String → Prop
  /-- The lines of a commit's message. -/
  message : Commit → List String
  /-- What `ops/stack.sh` may read as where the commit is checked out. -/
  stackSh : Commit → String → Prop

/-- The commits of `a..b`. -/
def Repo.range (repo : Repo) (a b m : Commit) : Prop := repo.ancestor m b ∧ ¬ repo.ancestor m a

/-! ## The host -/

structure Host where
  checkout : Commit
  fetchHead : Commit
  /-- `.update-failed` -/
  failed : Option String
  edits : Bool
  origin : Commit

/-- Others push to the branch and edit files. -/
def Moved (s s' : Host) : Prop :=
  s' = { s with edits := s'.edits, origin := s'.origin }

section Semantics

variable (repo : Repo)

/-- The words `xargs` reads: blanks part them, quotes and the backslash protect, and white
    space of any kind before a word is passed over; a quote left open on a line is an error. -/
def xargsWords : (word : Option (List Char)) → (quote : Option Char) → List Char → Option (List String)
  | word, none, [] => some (word.elim [] fun w => [String.ofList w])
  | _, some _, [] => none
  | word, some q, c :: cs =>
    if c = '\n' then none
    else if c = q then xargsWords word none cs
    else xargsWords (some (word.getD [] ++ [c])) (some q) cs
  | word, none, '\\' :: c :: cs => xargsWords (some (word.getD [] ++ [c])) none cs
  | word, none, c :: cs =>
    if c = '\'' ∨ c = '"' then xargsWords (some (word.getD [])) (some c) cs
    else if c = ' ' ∨ c = '\t' ∨ c = '\n' then
      (xargsWords none none cs).map fun ws => word.elim ws fun w => String.ofList w :: ws
    else if word = none ∧ (c = '\r' ∨ c = '\x0b' ∨ c = '\x0c') then xargsWords none none cs
    else xargsWords (some (word.getD [] ++ [c])) none cs

/-- What a command can answer, and do. A command not listed changes nothing of this. -/
def Does (s : Host) : (c : Cmd) → Nat × c.Out → Host → Prop
  | .gitFetch _, b, s' => s' = { s with fetchHead := s'.fetchHead } ∧ (b.1 = 0 → s'.fetchHead = s.origin)
  | .gitRevParse .head, b, s' => s' = s ∧ (b.1 = 0 → b.2 = s.checkout)
  | .gitRevParse .fetchHead, b, s' => s' = s ∧ (b.1 = 0 → b.2 = s.fetchHead)
  | .gitDiffQuiet, b, s' => s' = s ∧ (b.1 = 0 → s.edits = false) ∧ (b.1 = 1 → s.edits = true)
  | .gitIsAncestor a c, b, s' => s' = s ∧ (b.1 = 0 → repo.ancestor a c) ∧ (b.1 = 1 → ¬ repo.ancestor a c)
  | .gitDiffNameOnly a c specs, b, s' => s' = s ∧
      (b.1 = 0 → ∀ path, path ∈ b.2 ↔ repo.differs a c path ∧ specs.any (pathspecMatches · path) = true)
  | .gitLog a c, b, s' => s' = s ∧
      (b.1 = 0 → ∀ line, line ∈ b.2 ↔ ∃ m, repo.range a c m ∧ line ∈ repo.message m)
  | .gitMerge t, b, s' => s' = if b.1 = 0 then { s with checkout := t } else s
  | .gitReset t, b, s' =>
      s' = if b.1 = 0 then { s with checkout := t, edits := s'.edits } else { s with edits := s'.edits }
  | .source _, b, s' => s' = s ∧ (b.1 = 0 → repo.stackSh s.checkout b.2)
  | .testFile path, b, s' => s' = s ∧ (path = failedFile → b.1 = 0 → s.failed ≠ none)
  | .cat path, b, s' => s' = s ∧ (path = failedFile → b.1 = 0 → ∀ text, s.failed = some text → b.2 = text)
  | .write _ text, b, s' => s' = { s with failed := s'.failed } ∧ (b.1 = 0 → s'.failed = some text)
  | .rm _, b, s' => s' = { s with failed := s'.failed } ∧ (b.1 = 0 → s'.failed = none)
  | .xargsRm lines, b, s' => s' = s ∧
      (xargsWords none none (lines.flatMap fun line => line.toList ++ ['\n']) = none → b.1 ≠ 0)
  | .curlProbe none _, b, s' => s' = s ∧ b.1 ≠ 0
  | _, _, s' => s' = s

/-- A command, whatever others do before it. -/
def Sem (c : At Cmd) (s : Host) (b : Ans Cmd.Out c) (s' : Host) : Prop :=
  ∃ s₁, Moved s s₁ ∧ Does repo s₁ c.cmd b s'

end Semantics

abbrev Call := Answered (At Cmd) (Ans Cmd.Out) Host

/-- The calls of a run, newest first. -/
abbrev Calls := Log (At Cmd) (Ans Cmd.Out) Host

abbrev Run := Job Invocation (At Cmd) (Ans Cmd.Out) (Ended Nat) Host

/-- The runs so far, the last first, from a host in `init`, the commands doing what `sem` allows. -/
abbrev History (sem : (c : At Cmd) → Host → Ans Cmd.Out c → Host → Prop) (init : Host → Prop) (h : List Run) (s : Host) :
    Prop := Serial sem (fun i => update i false) init h s

variable {repo : Repo} {c : At Cmd} {s s' : Host} {b : Ans Cmd.Out c}

/-- A command that moves the checkout. -/
def MovesCheckout : Cmd → Prop
  | .gitMerge _ => True
  | .gitReset _ => True
  | _ => False

/-- A command that touches the record of the failed commit. -/
def TouchesRecord : Cmd → Prop
  | .write .. => True
  | .rm _ => True
  | _ => False

theorem checkout_kept (h : Sem repo c s b s') (hc : ¬ MovesCheckout c.cmd) : s'.checkout = s.checkout := by
  obtain ⟨s₁, hm, hd⟩ := h
  have hs₁ : s₁.checkout = s.checkout := by rw [hm]
  rw [← hs₁]
  obtain ⟨cmd, plain⟩ := c
  cases cmd with
  | gitMerge t => exact absurd trivial hc
  | gitReset t => exact absurd trivial hc
  | gitFetch _ => rw [hd.1]
  | gitRevParse rev => cases rev <;> rw [hd.1]
  | curlProbe host path => cases host with
    | none => rw [hd.1]
    | some host => rw [show s' = s₁ from hd]
  | gitDiffQuiet | gitIsAncestor _ _ | gitDiffNameOnly _ _ _ | gitLog _ _ | source _ | testFile _ | cat _ | write _ _ | rm _
  | xargsRm _ =>
    rw [hd.1]
  | _ => rw [show s' = s₁ from hd]

theorem failed_kept (h : Sem repo c s b s') (hc : ¬ TouchesRecord c.cmd) : s'.failed = s.failed := by
  obtain ⟨s₁, hm, hd⟩ := h
  have hs₁ : s₁.failed = s.failed := by rw [hm]
  rw [← hs₁]
  obtain ⟨cmd, plain⟩ := c
  cases cmd with
  | write _ _ => exact absurd trivial hc
  | rm _ => exact absurd trivial hc
  | gitMerge t =>
    rw [show s' = _ from hd]
    split <;> rfl
  | gitReset t =>
    rw [show s' = _ from hd]
    split <;> rfl
  | gitFetch _ => rw [hd.1]
  | gitRevParse rev => cases rev <;> rw [hd.1]
  | curlProbe host path => cases host with
    | none => rw [hd.1]
    | some host => rw [show s' = s₁ from hd]
  | gitDiffQuiet | gitIsAncestor _ _ | gitDiffNameOnly _ _ _ | gitLog _ _ | source _ | testFile _ | cat _ | xargsRm _ => rw [hd.1]
  | _ => rw [show s' = s₁ from hd]

theorem fetchHead_kept (h : Sem repo c s b s') (hc : ∀ branch, c.cmd ≠ .gitFetch branch) : s'.fetchHead = s.fetchHead := by
  obtain ⟨s₁, hm, hd⟩ := h
  have hs₁ : s₁.fetchHead = s.fetchHead := by rw [hm]
  rw [← hs₁]
  obtain ⟨cmd, plain⟩ := c
  cases cmd with
  | gitFetch branch => exact absurd rfl (hc branch)
  | gitMerge t =>
    rw [show s' = _ from hd]
    split <;> rfl
  | gitReset t =>
    rw [show s' = _ from hd]
    split <;> rfl
  | gitRevParse rev => cases rev <;> rw [hd.1]
  | curlProbe host path => cases host with
    | none => rw [hd.1]
    | some host => rw [show s' = s₁ from hd]
  | gitDiffQuiet | gitIsAncestor _ _ | gitDiffNameOnly _ _ _ | gitLog _ _ | source _ | testFile _ | cat _ | write _ _ | rm _
  | xargsRm _ =>
    rw [hd.1]
  | _ => rw [show s' = s₁ from hd]

theorem fetch_origin {branch : String} {plain : Bool} {b : Nat × Unit} (h : Sem repo ⟨.gitFetch branch, plain⟩ s b s')
    (hb : b.1 = 0) : s'.fetchHead = s'.origin := by
  obtain ⟨s₁, _, hd⟩ := h
  rw [hd.2 hb, hd.1]

theorem head_answer {plain : Bool} {b : Nat × String} (h : Sem repo ⟨.gitRevParse .head, plain⟩ s b s') (hb : b.1 = 0) :
    b.2 = s.checkout := by
  obtain ⟨s₁, hm, hd⟩ := h
  rw [hd.2 hb, hm]

theorem fetchHead_answer {plain : Bool} {b : Nat × String} (h : Sem repo ⟨.gitRevParse .fetchHead, plain⟩ s b s')
    (hb : b.1 = 0) : b.2 = s.fetchHead := by
  obtain ⟨s₁, hm, hd⟩ := h
  rw [hd.2 hb, hm]

theorem reset_to {t : Commit} {plain : Bool} {b : Nat × Unit} (h : Sem repo ⟨.gitReset t, plain⟩ s b s') (hb : b.1 = 0) :
    s'.checkout = t := by
  obtain ⟨s₁, _, hd⟩ := h
  rw [show s' = if b.1 = 0 then _ else _ from hd, if_pos hb]

theorem reset_failed {t : Commit} {plain : Bool} {b : Nat × Unit} (h : Sem repo ⟨.gitReset t, plain⟩ s b s')
    (hb : b.1 ≠ 0) : s'.checkout = s.checkout := by
  obtain ⟨s₁, hm, hd⟩ := h
  rw [show s' = if b.1 = 0 then _ else _ from hd, if_neg hb]
  show s₁.checkout = s.checkout
  rw [hm]

theorem merge_to {t : Commit} {plain : Bool} {b : Nat × Unit} (h : Sem repo ⟨.gitMerge t, plain⟩ s b s') (hb : b.1 = 0) :
    s'.checkout = t := by
  obtain ⟨s₁, _, hd⟩ := h
  rw [show s' = if b.1 = 0 then _ else _ from hd, if_pos hb]

theorem merge_failed {t : Commit} {plain : Bool} {b : Nat × Unit} (h : Sem repo ⟨.gitMerge t, plain⟩ s b s')
    (hb : b.1 ≠ 0) : s'.checkout = s.checkout := by
  obtain ⟨s₁, hm, hd⟩ := h
  rw [show s' = if b.1 = 0 then _ else _ from hd, if_neg hb, hm]

end Kaguya.Ops.Runs
