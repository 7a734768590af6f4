/-
  Kaguya.Ops.Gates — what holds of a target that is brought up, over any history of runs,
  forced or not and stopped anywhere, where git succeeds and the branch at origin only
  moves forward (`Forward`).

  The gates look at `head..target` of the present run, and at the one commit that is
  recorded as failed. What makes that enough for all earlier runs is `Recorded`: a commit
  that a run recorded is still recorded, or origin has moved on from it, or the checkout
  has come to it. A target is where origin stood at the fetch, so it cannot be one that
  was recorded and that the checkout has not come to, but the one that still is.

  Proved: `gates_hold`, for each `docker compose up -d` at a target, and each report of
  "updated". The gates of a run that is not called with `--force` hold if the run is as it
  was called (`AsCalled`): `.env` is exported into the shell after the arguments are read,
  and a record that cannot be read is passed over. `env_forces` is a run where a line of
  `.env` sets `force`.
-/

import Kaguya.Ops.Deployed

namespace Kaguya.Ops.Gates

open Kaguya.Lib
open Kaguya.Lib.Shell
open Kaguya.Ops.Update
open Kaguya.Ops.Runs
open Kaguya.Ops.Phases
open Kaguya.Ops.Course
open Kaguya.Ops.Restore

/-! ## Git, when it succeeds -/

/-- Git commands succeed; those that ask a question answer it. -/
def Succeeds : (c : Cmd) → Nat × c.Out → Prop
  | .gitFetch _, b | .gitRevParse _, b | .gitRevParseShort _, b | .gitDiffNameOnly .., b | .gitLog .., b
  | .gitMerge _, b | .gitReset _, b => b.1 = 0
  | .gitDiffQuiet, b | .gitIsAncestor .., b => b.1 = 0 ∨ b.1 = 1
  | _, _ => True

/-- And the branch at origin only moves forward. -/
def Forward (repo : Repo) (c : At Cmd) (s : Host) (b : Ans Cmd.Out c) (s' : Host) : Prop :=
  Sem repo c s b s' ∧ Succeeds c.cmd b ∧ repo.ancestor s.origin s'.origin

variable {repo : Repo} {init : Host → Prop} {older : List Run} {j : Run} {s : Host}

theorem forward_sem (hr : History (Forward repo) init older s) : History (Sem repo) init older s :=
  serial_mono (fun _ _ _ _ h => h.1) (fun _ h => h) hr

/-- Where origin stood when a call was answered lies between the start of the run and now. -/
theorem origin_forward (hr : History (Forward repo) init (j :: older) s) :
    repo.ancestor j.start.origin s.origin ∧
      ∀ x ∈ j.calls, repo.ancestor j.start.origin x.after.origin ∧ repo.ancestor x.after.origin s.origin := by
  obtain ⟨i, s₀, l, s', p⟩ := j
  induction l generalizing s s' p with
  | nil => cases hr with
    | start _ _ => exact ⟨repo.refl _, fun x hx => by cases hx⟩
  | cons y l ih => cases hr with
    | act _ _ hr hs =>
      obtain ⟨hstart, hcalls⟩ := ih _ _ hr
      refine ⟨repo.trans _ _ _ hstart hs.2.2, fun x hx => ?_⟩
      rcases List.mem_cons.mp hx with rfl | hx
      · exact ⟨repo.trans _ _ _ hstart hs.2.2, repo.refl _⟩
      · exact ⟨(hcalls x hx).1, repo.trans _ _ _ (hcalls x hx).2 hs.2.2⟩

/-- What was made, did as its command does. -/
theorem made_sem {c : Cmd} {P : Host → Nat × c.Out → Host → Prop} (hr : History (Forward repo) init (j :: older) s)
    (hm : Made j.calls c P) : ∃ s₁ plain b s₂, Forward repo ⟨c, plain⟩ s₁ b s₂ ∧ P s₁ b s₂ := by
  obtain ⟨s₁, plain, b, s₂, hx, hp⟩ := hm
  exact ⟨s₁, plain, b, s₂, serial_sem hr hx, hp⟩

/-- A target that has passed the gates is where origin stood, and ahead of HEAD. -/
theorem target_between {t : Commit} {force : Bool} (hr : History (Forward repo) init (j :: older) s)
    (hc : Cleared j.start force t j.calls) :
    repo.ancestor j.start.origin t ∧ repo.ancestor t s.origin ∧ repo.ancestor j.start.checkout t := by
  obtain ⟨_, s₁, plain, b, s₂, hx, hb, ht⟩ := hc.fetched
  have horigin : s₂.origin = t := (fetch_origin (serial_sem hr hx).1 hb).symm.trans ht
  have hbetween := (origin_forward hr).2 _ hx
  obtain ⟨_, _, _, _, hs, hz⟩ := made_sem hr hc.forward
  obtain ⟨_, _, hd⟩ := hs.1
  exact ⟨horigin ▸ hbetween.1, horigin ▸ hbetween.2, hd.2.1 hz⟩

/-! ## Commits that were recorded as failed -/

/-- The run recorded `t` as failed. -/
def RecordedBy (t : Commit) (j : Run) : Prop := Made j.calls (.write failedFile t) fun _ b _ => b.1 = 0

/-- Where a commit that a run has recorded may be. -/
structure Recorded (repo : Repo) (t : Commit) (s : Host) : Prop where
  pushed : repo.ancestor t s.origin
  kept : s.failed = some t ∨ t ≠ s.origin ∨ repo.ancestor t s.checkout

/-- It stays there while the record and the checkout stay. -/
theorem Recorded.forward {t : Commit} {s s' : Host} (h : Recorded repo t s) (ho : repo.ancestor s.origin s'.origin)
    (hf : s'.failed = s.failed) (hc : s'.checkout = s.checkout) : Recorded repo t s' where
  pushed := repo.trans _ _ _ h.pushed ho
  kept := by
    rcases h.kept with hfailed | hne | hle
    · exact Or.inl (hf.trans hfailed)
    · refine Or.inr (Or.inl fun e => hne ?_)
      exact repo.antisymm _ _ h.pushed (e ▸ ho)
    · exact Or.inr (Or.inr (hc ▸ hle))

theorem recorded_untouched {t : Commit} (hu : Untouched j.start j.calls s) : ¬ RecordedBy t j := by
  intro hm
  obtain ⟨_, _, _, _, hx, _⟩ := hm
  exact hu.calls _ hx trivial

theorem recorded_only {t t' : Commit} (h : Records t j.calls) (hm : RecordedBy t' j) : t' = t := by
  obtain ⟨_, _, _, _, hx, _⟩ := hm
  exact h _ hx _ _ rfl

/-- Between two runs. -/
theorem recorded {t : Commit} {h : List Run} (hr : History (Forward repo) init h s) (hm : ∃ r ∈ h, RecordedBy t r) :
    Recorded repo t s := by
  induction h generalizing s with
  | nil => exact hm.elim fun _ h => by cases h.1
  | cons j older ih =>
    have hearlier : (∃ r ∈ older, RecordedBy t r) → Recorded repo t j.start := ih (serial_tail hr)
    have horigin := (origin_forward hr).1
    have hnow : RecordedBy t j ∨ ∃ r ∈ older, RecordedBy t r := by
      obtain ⟨r, hr, hm⟩ := hm
      rcases List.mem_cons.mp hr with rfl | hr
      · exact Or.inl hm
      · exact Or.inr ⟨r, hr, hm⟩
    obtain ⟨_, _, hphase⟩ := run_phase (forward_sem hr)
    cases hphase with
    | before hb =>
      have hold := hearlier (hnow.resolve_left (recorded_untouched hb.untouched))
      exact hold.forward horigin hb.failed hb.checkout
    | away t' ha =>
      obtain ⟨hfrom, hto, _⟩ := target_between hr ha.cleared
      have hle : repo.ancestor t t' := by
        rcases hnow with hj | hold
        · exact recorded_only ha.records hj ▸ repo.refl _
        · exact repo.trans _ _ _ (hearlier hold).pushed hfrom
      exact ⟨repo.trans _ _ _ hle hto, Or.inr (Or.inr (ha.checkout ▸ hle))⟩
    | back t' hb =>
      obtain ⟨hfrom, hto, _⟩ := target_between hr hb.cleared
      rcases hb.failed with hu | hf
      · exact (hearlier (hnow.resolve_left (recorded_untouched hu))).forward horigin hu.failed hb.checkout
      · by_cases ht : t = t'
        · exact ⟨ht ▸ hto, Or.inl (ht ▸ hf)⟩
        · have hle : repo.ancestor t t' := by
            rcases hnow with hj | hold
            · exact absurd (recorded_only hb.records hj) ht
            · exact repo.trans _ _ _ (hearlier hold).pushed hfrom
          refine ⟨repo.trans _ _ _ hle hto, Or.inr (Or.inl fun e => ht ?_)⟩
          exact repo.antisymm _ _ hle (e ▸ hto)

/-! ## The gates -/

/-- A file that matches `*.tmpl`, `.env.example` or `setup.sh`. -/
def SetupInput (path : String) : Prop := ".tmpl".toList <:+ path.toList ∨ path = ".env.example" ∨ path = "setup.sh"

theorem globMatch_literal {cs : List Char} (h : '*' ∉ cs) : globMatch cs cs = true := by
  induction cs with
  | nil => rfl
  | cons c cs ih =>
    have hc : c ≠ '*' := fun e => h (e ▸ List.mem_cons_self)
    rw [globMatch.eq_def]
    split
    · next e => cases e
    · next e => exact absurd (List.cons.inj e).1 hc
    · next e =>
      cases e
      simp [ih fun hm => h (List.mem_cons_of_mem _ hm)]

theorem setupInput_matches {path : String} (h : SetupInput path) : setupInputs.any (pathspecMatches · path) = true := by
  rcases h with ⟨pre, e⟩ | rfl | rfl
  · have hstar : globMatch ('*' :: ".tmpl".toList) path.toList = true := by
      rw [globMatch, List.any_eq_true]
      refine ⟨pre.length, List.mem_range.mpr (by rw [← e, List.length_append]; omega), ?_⟩
      rw [← e, List.drop_left]
      exact globMatch_literal (by decide)
    have hspec : pathspecMatches "*.tmpl" path = true := by
      rw [pathspecMatches, if_pos (by decide)]
      exact hstar
    simp [setupInputs, hspec]
  · decide
  · decide

/-- What holds of the target `t` when it is brought up in a run from `s₀`, after the runs
    `older`. -/
structure Gated (repo : Repo) (older : List Run) (s₀ : Host) (force : Bool) (t : Commit) (l : Calls) : Prop where
  target : Made l (.gitRevParse .fetchHead) fun _ b _ => b = (0, t)
  descendant : repo.ancestor s₀.checkout t
  clean : Made l .gitDiffQuiet fun _ _ s' => s'.edits = false
  inputs : ∀ path, repo.differs s₀.checkout t path → ¬ SetupInput path
  pulled : Made l .composePull fun _ b _ => b.1 = 0
  backedUp : ∃ dir, BackedUp dir l
  unmarked : force = false → ∀ m, repo.range s₀.checkout t m → ∀ line ∈ repo.message m,
    ¬ manualMark.toList <:+: line.toList
  unfailed : force = false → ∀ r ∈ older, ¬ RecordedBy t r

theorem grepQF_none {text : String} {lines : List String} (h : grepQF text lines ≠ 0) :
    ∀ line ∈ lines, ¬ text.toList <:+: line.toList := by
  intro line hl hi
  refine h (if_pos (List.any_eq_true.mpr ⟨line, hl, ?_⟩))
  exact decide_eq_true hi

/-- The run does as it was called, without `--force`: the lines of `.env` leave it so, and
    a record of a failed commit is read where there is one. -/
structure AsCalled (j : Run) : Prop where
  settings : ∀ lines, Made j.calls (.readLines ".env") (fun _ b _ => b.2 = lines) → forcedBy j.info lines = false
  record : RecordRead j.calls

theorem unforced {force : Bool} (h : Forced j.info force j.calls) (hasked : AsCalled j) : force = false := by
  obtain ⟨s₁, plain, b, s₂, hx, hb⟩ := h
  exact hb.symm.trans (hasked.settings b.2 ⟨s₁, plain, b, s₂, hx, rfl⟩)

/-- So it has done at every instant. -/
theorem AsCalled.early {i : Invocation} {s₀ s s' : Host} {late early : Calls} {x : Call}
    {p p' : Prog (At Cmd) (Ans Cmd.Out) (Ended Nat)} (h : AsCalled ⟨i, s₀, late ++ x :: early, s, p⟩) :
    AsCalled ⟨i, s₀, early, s', p'⟩ where
  settings lines hm := by
    obtain ⟨s₁, plain, b, s₂, hx, hb⟩ := hm
    exact h.settings lines ⟨s₁, plain, b, s₂, List.mem_append_right _ (List.mem_cons_of_mem _ hx), hb⟩
  record y hy := h.record y (List.mem_append_right _ (List.mem_cons_of_mem _ hy))

theorem cleared_gated {t : Commit} {force : Bool} (hr : History (Forward repo) init (j :: older) s)
    (ha : Away j.start force t j.calls s) (hforced : Forced j.info force j.calls)
    (hasked : forced j.info = false → AsCalled j) (hp : Made j.calls .composePull fun _ b _ => b.1 = 0)
    (hb : ∃ dir, BackedUp dir j.calls) : Gated repo older j.start (forced j.info) t j.calls where
  target := by
    obtain ⟨s₁, plain, b, s₂, hx, hz, ht⟩ := ha.cleared.target
    exact ⟨s₁, plain, b, s₂, hx, Prod.ext hz ht⟩
  descendant := (target_between hr ha.cleared).2.2
  clean := by
    obtain ⟨s₁, plain, b, s₂, hx, hz⟩ := ha.cleared.clean
    obtain ⟨s', _, hd⟩ := (serial_sem hr hx).1
    have hsame : s₂ = s' := hd.1
    have hclean : s'.edits = false := hd.2.1 hz
    exact ⟨s₁, plain, b, s₂, hx, hsame ▸ hclean⟩
  inputs path hdiff hpath := by
    obtain ⟨_, _, b, _, hs, hz, hnil⟩ := made_sem hr ha.cleared.inputs
    obtain ⟨_, _, hd⟩ := hs.1
    have hmem := (hd.2 hz path).mpr ⟨hdiff, setupInput_matches hpath⟩
    rw [hnil] at hmem
    cases hmem
  pulled := hp
  backedUp := hb
  unmarked hf m hm line hl := by
    obtain ⟨_, _, b, _, hs, hgrep⟩ := made_sem hr (ha.cleared.unmarked (unforced hforced (hasked hf)))
    obtain ⟨_, _, hd⟩ := hs.1
    exact grepQF_none hgrep line ((hd.2 hs.2.1 line).mpr ⟨m, hm, hl⟩)
  unfailed hf r hmem hrec := by
    obtain ⟨hfrom, _, hahead⟩ := target_between hr ha.cleared
    have hrecorded := recorded (serial_tail hr) ⟨r, hmem, hrec⟩
    rcases hrecorded.kept with hfailed | hne | hle
    · exact ha.cleared.retried (unforced hforced (hasked hf)) (hasked hf).record hfailed
    · exact hne (repo.antisymm _ _ hrecorded.pushed hfrom)
    · exact ha.ne (repo.antisymm _ _ hle hahead)

/-- Every target that is brought up has passed the gates, in this run and all before, and
    every one that is reported has passed the wait for health. -/
theorem gates_hold {later : List Run} {late early : Calls} {x : Call}
    (hr : History (Forward repo) init (later ++ j :: older) s) (hasked : forced j.info = false → AsCalled j)
    (hcalls : j.calls = late ++ x :: early) :
    (x.call.cmd = .composeUp → x.before.checkout ≠ j.start.checkout →
      Gated repo older j.start (forced j.info) x.before.checkout early) ∧
    (∀ body, x.call.cmd = .echo (.notice "updated" body) →
      x.before.checkout ≠ j.start.checkout ∧ Healthy x.before.checkout early) := by
  have hr := serial_at hr
  obtain ⟨i, s₀, calls, s', p⟩ := j
  dsimp only at hcalls hr ⊢
  subst hcalls
  obtain ⟨k, hrx, _⟩ := serial_call hr
  obtain ⟨force, hforced, hpre⟩ := (run_goes (forward_sem hrx)).1
  refine ⟨fun hup haway => ?_, fun body hecho => ?_⟩
  · have hneeds := hpre.2
    rw [hup] at hneeds
    obtain ⟨hpulled, hbacked⟩ := hneeds haway
    cases hpre.1 with
    | before h => exact absurd h.checkout haway
    | back t h => exact absurd h.checkout haway
    | away t h =>
      have hlines := hforced.resolve_left fun hb => haway hb.checkout
      exact h.checkout ▸ cleared_gated hrx h hlines (fun hf => (hasked hf).early) hpulled hbacked
  · have hneeds := hpre.2
    rw [hecho] at hneeds
    obtain ⟨t, haway, hhealthy⟩ := hneeds rfl
    exact haway.checkout ▸ ⟨haway.ne, hhealthy⟩

theorem answer_forward (fails : Cmd → Bool) (c : At Cmd) (s : Host) :
    Forward pair c s (answer fails c s).1 (answer fails c s).2 := by
  refine ⟨answer_sem fails c s, ?_, ?_⟩
  · obtain ⟨c, plain⟩ := c
    cases c with
    | gitRevParse rev => cases rev <;> rfl
    | gitDiffQuiet => cases h : s.edits <;> simp [answer, Succeeds, h]
    | gitIsAncestor x y => by_cases h : x = y ∨ x = "a" <;> simp [answer, Succeeds, h]
    | _ => trivial
  · obtain ⟨c, plain⟩ := c
    cases c with
    | gitRevParse rev => cases rev <;> exact Or.inl rfl
    | _ => exact Or.inl rfl

/-- The host gives no line of `.env`, and what there is of the record. -/
def Gives (c : At Cmd) (s : Host) (b : Ans Cmd.Out c) : Prop :=
  match c with
  | ⟨.readLines _, _⟩ => b.2 = []
  | ⟨.testFile path, _⟩ => path = failedFile → s.failed ≠ none → b.1 = 0
  | ⟨.cat _, _⟩ => b.1 = 0
  | _ => True

theorem answer_gives (fails : Cmd → Bool) (c : At Cmd) (s : Host) : Gives c s (answer fails c s).1 := by
  obtain ⟨c, plain⟩ := c
  cases c with
  | readLines _ | cat _ => rfl
  | testFile path =>
    intro _ hfailed
    exact if_pos (Or.inr (Option.isSome_iff_ne_none.mpr hfailed))
  | _ => trivial

theorem gives_asked (hr : History (fun c s b s' => Forward repo c s b s' ∧ Gives c s b) init (j :: older) s)
    (hj : j.info = nightly) : AsCalled j where
  settings lines hm := by
    obtain ⟨_, _, b, _, hx, rfl⟩ := hm
    have hnone : b.2 = [] := (serial_sem hr hx).2
    rw [hj, hnone]
    decide
  record x hx hc hfailed := by
    obtain ⟨s₁, ⟨c, plain⟩, b, s₂⟩ := x
    have hgives := (serial_sem hr hx).2
    rcases hc with e | e
    · cases e
      exact hgives rfl hfailed
    · cases e
      exact hgives

/-- The commit `b` is brought up. -/
theorem gates_hold_pushed : ∃ early, Gated pair [] pushed false "b" early := by
  have hanswer : ∀ c s, Forward pair c s (answer (fun _ => false) c s).1 (answer (fun _ => false) c s).2 ∧
      Gives c s (answer (fun _ => false) c s).1 := fun c s => ⟨answer_forward _ c s, answer_gives _ c s⟩
  have hstart : History (fun c s b s' => Forward pair c s b s' ∧ Gives c s b) (· = pushed)
      [⟨nightly, pushed, [], pushed, update nightly false⟩] pushed := .start nightly (.init pushed rfl)
  have hr := serial_play hanswer 32 hstart
  have hr₁ := Serial.act (0, ()) _ hr ⟨⟨Deployed.prune_nothing _ _ _, trivial, Or.inl rfl⟩, trivial⟩
  have hr₂ := serial_play hanswer 1 hr₁
  exact ⟨_, (@gates_hold pair _ [] _ _ [] [] _ _ (serial_mono (fun _ _ _ _ h => h.1) (fun _ h => h) hr₂)
    (fun _ => gives_asked hr₂ rfl) rfl).1 rfl (by decide)⟩

/-! ## A run that `.env` forces -/

/-- The commit `b` is marked. -/
def marked : Repo := { pair with message := fun _ => [manualMark] }

/-- The host has a line `force=1` in its `.env`. -/
def forcing (c : At Cmd) (s : Host) : Ans Cmd.Out c × Host :=
  match c with
  | ⟨.readLines _, _⟩ => ((0, ["force=1"]), s)
  | ⟨.gitLog a b, _⟩ => ((0, if b = a ∨ b = "a" then [] else [manualMark]), s)
  | c => answer (fun _ => false) c s

theorem marked_range (a b m : Commit) : marked.range a b m ↔ m = b ∧ ¬ (b = a ∨ b = "a") := by
  show (m = b ∨ m = "a") ∧ ¬ (m = a ∨ m = "a") ↔ _
  grind

theorem marked_of_pair {c : At Cmd} {s s' : Host} {b : Ans Cmd.Out c} (hc : ∀ x y, c.cmd ≠ .gitLog x y)
    (h : Forward pair c s b s') : Forward marked c s b s' := by
  obtain ⟨⟨s₁, hm, hd⟩, hok⟩ := h
  refine ⟨⟨s₁, hm, ?_⟩, hok⟩
  obtain ⟨c, plain⟩ := c
  cases c with
  | gitLog x y => exact absurd rfl (hc x y)
  | gitRevParse rev => cases rev <;> exact hd
  | curlProbe host _ => cases host <;> exact hd
  | _ => exact hd

theorem forcing_forward (c : At Cmd) (s : Host) : Forward marked c s (forcing c s).1 (forcing c s).2 := by
  obtain ⟨c, plain⟩ := c
  cases c with
  | gitLog a b =>
    refine ⟨⟨s, rfl, rfl, fun _ line => ?_⟩, rfl, Or.inl rfl⟩
    show line ∈ (if b = a ∨ b = "a" then [] else [manualMark]) ↔ ∃ m, marked.range a b m ∧ line ∈ [manualMark]
    simp only [marked_range]
    by_cases hb : b = a ∨ b = "a" <;> simp [hb]
  | readLines _ => exact ⟨⟨s, rfl, rfl⟩, trivial, Or.inl rfl⟩
  | _ => exact marked_of_pair (fun _ _ e => by cases e) (answer_forward (fun _ => false) _ s)

/-- A line of `.env` has a run deploy a marked commit that was not called with `--force`. -/
theorem env_forces : ¬ ∀ (repo : Repo) (init : Host → Prop) (j : Run) (s : Host) (late early : Calls) (x : Call),
    History (Forward repo) init [j] s → j.calls = late ++ x :: early → x.call.cmd = .composeUp →
    x.before.checkout ≠ j.start.checkout → Gated repo [] j.start (forced j.info) x.before.checkout early := by
  intro hall
  have hstart : History (Forward marked) (· = pushed) [⟨nightly, pushed, [], pushed, update nightly false⟩] pushed :=
    .start nightly (.init pushed rfl)
  have hr := serial_play forcing_forward 30 hstart
  have hr₁ := Serial.act (0, ()) _ hr
    (marked_of_pair (fun _ _ e => by cases e) ⟨Deployed.prune_nothing _ _ _, trivial, Or.inl rfl⟩)
  have hr₂ := serial_play forcing_forward 1 hr₁
  have hgated := hall marked _ _ _ [] _ _ hr₂ rfl rfl (by decide)
  refine hgated.unmarked (by decide) "b" ((marked_range _ _ _).mpr ⟨rfl, by decide⟩) manualMark ?_ List.infix_rfl
  exact List.mem_singleton.mpr rfl

end Kaguya.Ops.Gates
