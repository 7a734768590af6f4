/-
  Kaguya.Lib.Template — texts with placeholders, filled by string replacement: the text of
  one placeholder after another is replaced in all of the text, what was put in before
  included.

  A template is a list of pieces, literal text and named holes; a hole's name stands
  between doubled marks. Where no literal has the doubled mark, or could become part of
  one, and no value has the mark, the replacements come to what a template is for: each
  hole filled with its value, all at once (`replaceAll_text`, `replaceAll_filled`), and a
  doubled mark is left over exactly where a hole was not filled (`marked_replaceAll`).
-/

import Mathlib.Data.List.Infix
import Kaguya.Lib.Fields

namespace Kaguya.Lib.Template

variable {α : Type}

/-! ## Pieces -/

inductive Piece (α : Type) where
  | lit (s : List α)
  | hole (name : List α)

section Marks

-- the marks that open and close a hole
variable (o c : α)

/-- A hole as it is written. -/
def written (name : List α) : List α := o :: o :: (name ++ [c, c])

def Piece.text : Piece α → List α
  | lit s => s
  | hole name => written o c name

def text (ps : List (Piece α)) : List α := ps.flatMap (Piece.text o c)

/-- The doubled mark is in the text. -/
def Marked (s : List α) : Prop := [o, o] <:+: s

instance [DecidableEq α] (s : List α) : Decidable (Marked o s) := inferInstanceAs (Decidable (_ <:+: _))

/-- No doubled mark, and none with what comes after. -/
def Plain (s : List α) : Prop := ¬ Marked o s ∧ s.getLast? ≠ some o

/-- A piece of a template: a literal is plain, and a name has no marks. -/
def Piece.Ok : Piece α → Prop
  | lit s => Plain o s
  | hole name => o ∉ name ∧ c ∉ name

end Marks

variable {o c : α}

theorem marked_cons {x : α} {s : List α} : Marked o (x :: s) ↔ (x = o ∧ s.head? = some o) ∨ Marked o s := by
  rw [Marked, List.infix_cons_iff, List.cons_prefix_cons]
  refine or_congr_left ?_
  cases s with
  | nil => simp
  | cons y s => simp [eq_comm]

theorem plain_nil : Plain o [] := by
  refine ⟨?_, by simp⟩
  intro h
  cases List.infix_nil.mp h

theorem plain_tail {x : α} {s : List α} (h : Plain o (x :: s)) : Plain o s := by
  refine ⟨fun hm => h.1 (marked_cons.mpr (Or.inr hm)), ?_⟩
  cases s with
  | nil => simp
  | cons y s =>
    have hlast := h.2
    rwa [List.getLast?_cons_cons] at hlast

/-- A plain text does not start with the doubled mark, whatever comes after it. -/
theorem plain_start {x : α} {s : List α} (h : Plain o (x :: s)) (t : List α) : ¬ [o, o] <+: x :: (s ++ t) := by
  intro hp
  obtain ⟨hx, hp⟩ := List.cons_prefix_cons.mp hp
  cases s with
  | nil =>
    refine h.2 ?_
    rw [← hx]
    rfl
  | cons y s =>
    obtain ⟨hy, _⟩ := List.cons_prefix_cons.mp hp
    exact h.1 (marked_cons.mpr (Or.inl ⟨hx.symm, by rw [← hy]; rfl⟩))

theorem plain_of_not_mem {s : List α} (h : o ∉ s) : Plain o s := by
  refine ⟨fun hm => h (hm.subset List.mem_cons_self), fun hl => h ?_⟩
  exact List.mem_of_getLast? hl

theorem plain_append {s t : List α} (hs : Plain o s) (ht : Plain o t) : Plain o (s ++ t) := by
  induction s with
  | nil => exact ht
  | cons x s ih =>
    have hrest := ih (plain_tail hs)
    refine ⟨?_, ?_⟩
    · intro hm
      rcases List.infix_cons_iff.mp hm with hp | hm
      · exact plain_start hs t hp
      · exact hrest.1 hm
    · show (x :: (s ++ t)).getLast? ≠ some o
      cases hst : s ++ t with
      | nil =>
        obtain ⟨rfl, rfl⟩ := List.append_eq_nil_iff.mp hst
        exact hs.2
      | cons y l =>
        rw [List.getLast?_cons_cons, ← hst]
        exact hrest.2

/-! ## Replacing a string -/

section Replace

variable [DecidableEq α]

/-- Every occurrence of `pat` replaced, from the left; `skip` more elements belong to the
    last one. -/
def replaceFrom (pat new : List α) : Nat → List α → List α
  | _, [] => []
  | skip + 1, _ :: cs => replaceFrom pat new skip cs
  | 0, c :: cs =>
    if pat.isPrefixOf (c :: cs) then new ++ replaceFrom pat new (pat.length - 1) cs else c :: replaceFrom pat new 0 cs

def replace (pat new text : List α) : List α := replaceFrom pat new 0 text

theorem replace_cons {pat : List α} (new : List α) {x : α} {s : List α} (h : ¬ pat <+: x :: s) :
    replace pat new (x :: s) = x :: replace pat new s := by
  have hfalse : ¬ pat.isPrefixOf (x :: s) = true := fun hp => h (List.isPrefixOf_iff_prefix.mp hp)
  rw [replace, replaceFrom, if_neg hfalse]
  rfl

theorem replaceFrom_skip (pat new s t : List α) : replaceFrom pat new s.length (s ++ t) = replace pat new t := by
  induction s with
  | nil => rfl
  | cons x s ih => exact ih

theorem replace_here {pat : List α} (h : pat ≠ []) (new t : List α) :
    replace pat new (pat ++ t) = new ++ replace pat new t := by
  cases pat with
  | nil => exact absurd rfl h
  | cons x pat =>
    have hp : (x :: pat).isPrefixOf (x :: (pat ++ t)) = true :=
      List.isPrefixOf_iff_prefix.mpr (List.prefix_append (x :: pat) t)
    rw [replace, List.cons_append, replaceFrom, if_pos hp]
    exact congrArg (new ++ ·) (replaceFrom_skip (x :: pat) new pat t)

/-! ## Filling one hole -/

theorem replace_plain {name s : List α} (h : Plain o s) (new t : List α) :
    replace (written o c name) new (s ++ t) = s ++ replace (written o c name) new t := by
  induction s with
  | nil => rfl
  | cons x s ih =>
    have hstart : ¬ written o c name <+: x :: (s ++ t) := by
      intro hp
      exact plain_start h t ((List.prefix_append [o, o] _).trans hp)
    rw [List.cons_append, replace_cons new hstart, ih (plain_tail h), List.cons_append]

/-- Another hole stays: its name is another, and the rest of it has no doubled mark. -/
theorem replace_other {name name' : List α} (hoc : o ≠ c) (hn : c ∉ name) (hn' : o ∉ name' ∧ c ∉ name') (hne : name ≠ name')
    (new t : List α) :
    replace (written o c name) new (written o c name' ++ t) = written o c name' ++ replace (written o c name) new t := by
  have hfirst : ¬ written o c name <+: o :: (o :: (name' ++ [c, c]) ++ t) := by
    rintro ⟨rest, e⟩
    have e' : name ++ c :: (c :: rest) = name' ++ c :: (c :: t) := by simpa [written] using e
    exact hne (Fields.field_inj hn hn'.2 e').1
  have hsecond : ¬ written o c name <+: o :: (name' ++ [c, c] ++ t) := by
    intro hp
    obtain ⟨_, hp⟩ := List.cons_prefix_cons.mp hp
    cases name' with
    | nil => exact hoc (List.cons_prefix_cons.mp hp).1
    | cons x name' => exact hn'.1 ((List.cons_prefix_cons.mp hp).1 ▸ List.mem_cons_self)
  have hrest : Plain o (name' ++ [c, c]) := plain_of_not_mem (by simp [hn'.1, hoc])
  calc replace (written o c name) new (written o c name' ++ t)
      = o :: replace (written o c name) new (o :: (name' ++ [c, c]) ++ t) := replace_cons new hfirst
    _ = o :: o :: replace (written o c name) new (name' ++ [c, c] ++ t) := congrArg (o :: ·) (replace_cons new hsecond)
    _ = written o c name' ++ replace (written o c name) new t := by rw [replace_plain hrest]; rfl

/-- The holes of one name filled. -/
def Piece.fill (name value : List α) : Piece α → Piece α
  | lit s => lit s
  | hole name' => if name = name' then lit value else hole name'

theorem replace_text (hoc : o ≠ c) {name : List α} (hn : c ∉ name) (value : List α) {ps : List (Piece α)}
    (h : ∀ p ∈ ps, p.Ok o c) :
    replace (written o c name) value (text o c ps) = text o c (ps.map (Piece.fill name value)) := by
  induction ps with
  | nil => rfl
  | cons p ps ih =>
    have hrest := ih fun q hq => h q (List.mem_cons_of_mem _ hq)
    have hp := h p List.mem_cons_self
    rw [text, List.flatMap_cons, List.map_cons, text, List.flatMap_cons, ← text, ← text, ← hrest]
    cases p with
    | lit s => exact replace_plain hp value _
    | hole name' =>
      by_cases he : name = name'
      · subst he
        rw [Piece.fill, if_pos rfl]
        exact replace_here (List.cons_ne_nil _ _) value _
      · rw [Piece.fill, if_neg he]
        exact replace_other hoc hn hp he value _

theorem fill_ok {name value : List α} (hv : o ∉ value) {p : Piece α} (h : p.Ok o c) : (p.fill name value).Ok o c := by
  cases p with
  | lit s => exact h
  | hole name' =>
    rw [Piece.fill]
    split
    · exact plain_of_not_mem hv
    · exact h

/-! ## Filling all -/

/-- One name's holes filled after another's, in the text. -/
def replaceAll (o c : α) (value : List α → List α) (names : List (List α)) (s : List α) : List α :=
  names.foldl (fun s name => replace (written o c name) (value name) s) s

/-- All at once. -/
def Piece.fillAll (value : List α → List α) (names : List (List α)) : Piece α → Piece α
  | lit s => lit s
  | hole name => if name ∈ names then lit (value name) else hole name

theorem fillAll_cons (value : List α → List α) (name : List α) (names : List (List α)) (p : Piece α) :
    (p.fill name (value name)).fillAll value names = p.fillAll value (name :: names) := by
  cases p with
  | lit s => rfl
  | hole name' =>
    by_cases he : name = name'
    · subst he
      simp [Piece.fill, Piece.fillAll]
    · simp [Piece.fill, Piece.fillAll, he, Ne.symm he]

/-- The replacements, one after another, fill all holes at once. -/
theorem replaceAll_text (hoc : o ≠ c) {value : List α → List α} {names : List (List α)}
    (hn : ∀ name ∈ names, c ∉ name ∧ o ∉ value name) {ps : List (Piece α)} (h : ∀ p ∈ ps, p.Ok o c) :
    replaceAll o c value names (text o c ps) = text o c (ps.map (Piece.fillAll value names)) := by
  induction names generalizing ps with
  | nil =>
    have hsame : ps.map (Piece.fillAll value []) = ps := by
      conv_rhs => rw [← List.map_id ps]
      refine List.map_congr_left fun p _ => ?_
      cases p <;> simp [Piece.fillAll]
    rw [hsame]
    rfl
  | cons name names ih =>
    obtain ⟨hname, hvalue⟩ := hn name List.mem_cons_self
    have hok : ∀ p ∈ ps.map (Piece.fill name (value name)), p.Ok o c := by
      intro p hp
      obtain ⟨q, hq, rfl⟩ := List.mem_map.mp hp
      exact fill_ok hvalue (h q hq)
    calc replaceAll o c value (name :: names) (text o c ps)
        = replaceAll o c value names (text o c (ps.map (Piece.fill name (value name)))) := by
          rw [replaceAll, List.foldl_cons, replace_text hoc hname _ h, ← replaceAll]
      _ = text o c ((ps.map (Piece.fill name (value name))).map (Piece.fillAll value names)) :=
          ih (fun name' hm => hn name' (List.mem_cons_of_mem _ hm)) hok
      _ = text o c (ps.map (Piece.fillAll value (name :: names))) := by
          rw [List.map_map]
          exact congrArg (text o c) (List.map_congr_left fun p _ => fillAll_cons value name names p)

theorem fillAll_ok {value : List α → List α} {names : List (List α)} (hn : ∀ name ∈ names, o ∉ value name) {p : Piece α}
    (h : p.Ok o c) : (p.fillAll value names).Ok o c := by
  cases p with
  | lit s => exact h
  | hole name =>
    rw [Piece.fillAll]
    split
    · exact plain_of_not_mem (hn name ‹_›)
    · exact h

end Replace

/-! ## What is left over -/

/-- The doubled mark is in a template's text exactly where there is a hole. -/
theorem marked_text {ps : List (Piece α)} (h : ∀ p ∈ ps, p.Ok o c) :
    Marked o (text o c ps) ↔ ∃ name, Piece.hole name ∈ ps := by
  constructor
  · intro hm
    by_contra hnone
    have hplain : Plain o (text o c ps) := by
      clear hm
      induction ps with
      | nil => exact plain_nil
      | cons p ps ih =>
        have hrest := ih (fun q hq => h q (List.mem_cons_of_mem _ hq))
          fun ⟨name, hin⟩ => hnone ⟨name, List.mem_cons_of_mem _ hin⟩
        cases p with
        | lit s => exact plain_append (h _ List.mem_cons_self) hrest
        | hole name => exact absurd ⟨name, List.mem_cons_self⟩ hnone
    exact hplain.1 hm
  · rintro ⟨name, hin⟩
    obtain ⟨l₁, l₂, rfl⟩ := List.append_of_mem hin
    have hwritten : Marked o (written o c name ++ text o c l₂) := (List.prefix_append [o, o] _).isInfix
    have he : text o c (l₁ ++ .hole name :: l₂) = text o c l₁ ++ (written o c name ++ text o c l₂) := by
      rw [text, List.flatMap_append, List.flatMap_cons]
      rfl
    rw [he]
    exact hwritten.trans (List.suffix_append _ _).isInfix

section Filled

variable [DecidableEq α] {value : List α → List α} {names : List (List α)} {ps : List (Piece α)}

/-- A doubled mark is left over exactly where a hole was not filled. -/
theorem marked_replaceAll (hoc : o ≠ c) (hn : ∀ name ∈ names, c ∉ name ∧ o ∉ value name) (h : ∀ p ∈ ps, p.Ok o c) :
    Marked o (replaceAll o c value names (text o c ps)) ↔ ∃ name, Piece.hole name ∈ ps ∧ name ∉ names := by
  have hok : ∀ p ∈ ps.map (Piece.fillAll value names), p.Ok o c := by
    intro p hp
    obtain ⟨q, hq, rfl⟩ := List.mem_map.mp hp
    exact fillAll_ok (fun name hname => (hn name hname).2) (h q hq)
  rw [replaceAll_text hoc hn h, marked_text hok]
  refine exists_congr fun name => ?_
  constructor
  · intro hm
    obtain ⟨q, hq, he⟩ := List.mem_map.mp hm
    cases q with
    | lit s => cases he
    | hole name' =>
      rw [Piece.fillAll] at he
      split at he
      · cases he
      · cases he
        exact ⟨hq, ‹_›⟩
  · rintro ⟨hm, hnot⟩
    refine List.mem_map.mpr ⟨_, hm, ?_⟩
    rw [Piece.fillAll, if_neg hnot]

/-- A piece with its value in it. -/
def Piece.filled (value : List α → List α) : Piece α → List α
  | lit s => s
  | hole name => value name

theorem replaceAll_filled (hoc : o ≠ c) (hn : ∀ name ∈ names, c ∉ name ∧ o ∉ value name) (h : ∀ p ∈ ps, p.Ok o c)
    (hall : ∀ name, Piece.hole name ∈ ps → name ∈ names) :
    replaceAll o c value names (text o c ps) = ps.flatMap (Piece.filled value) := by
  rw [replaceAll_text hoc hn h, text, List.flatMap_map]
  refine List.flatMap_congr fun p hp => ?_
  cases p with
  | lit s => rfl
  | hole name =>
    rw [Piece.fillAll, if_pos (hall name hp)]
    rfl

end Filled

end Kaguya.Lib.Template
