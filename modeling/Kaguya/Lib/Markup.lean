/-
  Kaguya.Lib.Markup — text put into markup, over any alphabet. An escaping writes an
  entity for each of some characters (`Escaping`): what it writes has those characters
  only where an entity begins, and it can be undone (`escape_clean`, `escape_marked`,
  `unescape_escape`).

  A document is read as text and tags in turn (`pieces`); in a tag a quoted value may hold
  what would end it. `read_chunks`: a document put together from tags, plain text and
  escaped text is read as those tags, with the texts between them unescaped.
-/

import Mathlib.Data.List.Infix

namespace Kaguya.Lib

/-! ## Escaping -/

/-- The entities written for some characters. Each begins with `mark`, which is written as
    one too, and can be told from the others and from what is around it. -/
structure Escaping (α : Type) where
  mark : α
  table : List (α × List α)
  begins : ∀ p ∈ table, p.2.head? = some mark ∧ mark ∉ p.2.tail
  marked : ∃ p ∈ table, p.1 = mark
  clean : ∀ p ∈ table, ∀ q ∈ table, q.1 ≠ mark → q.1 ∉ p.2
  distinct : ∀ p ∈ table, ∀ q ∈ table, p.2 <+: q.2 → p.1 = q.1 ∧ p.2 = q.2

namespace Escaping

theorem begins_cons {α : Type} {E : Escaping α} {p : α × List α} (hp : p ∈ E.table) : ∃ w, p.2 = E.mark :: w ∧ E.mark ∉ w := by
  obtain ⟨hhead, htail⟩ := E.begins p hp
  obtain ⟨w, hw⟩ := List.head?_eq_some_iff.mp hhead
  refine ⟨w, hw, ?_⟩
  rwa [hw, List.tail_cons] at htail

variable {α : Type} [DecidableEq α] (E : Escaping α)

/-- What is written for a character. -/
def entity (c : α) : List α := ((E.table.find? (·.1 = c)).map (·.2)).getD [c]

def escape (s : List α) : List α := s.flatMap E.entity

/-- The entity that a text begins with. -/
def leading (s : List α) : Option (α × List α) := E.table.find? (·.2.isPrefixOf s)

/-- The entities replaced by their characters, with the first `skip` characters passed over. -/
def unescapeFrom : (skip : Nat) → List α → List α
  | _, [] => []
  | skip + 1, _ :: cs => unescapeFrom skip cs
  | 0, c :: cs => match E.leading (c :: cs) with
    | some p => p.1 :: unescapeFrom (p.2.length - 1) cs
    | none => c :: unescapeFrom 0 cs

def unescape (s : List α) : List α := E.unescapeFrom 0 s

variable {E} {c : α} {s rest : List α}

theorem escape_cons : E.escape (c :: s) = E.entity c ++ E.escape s := List.flatMap_cons

/-- What is written for a character is an entity of it, or it is none of the table's. -/
theorem entity_cases (c : α) :
    (∃ p ∈ E.table, p.1 = c ∧ E.entity c = p.2) ∨ ((∀ p ∈ E.table, p.1 ≠ c) ∧ E.entity c = [c]) := by
  cases h : E.table.find? (·.1 = c) with
  | some p =>
    refine Or.inl ⟨p, List.mem_of_find?_eq_some h, ?_, by rw [entity, h]; rfl⟩
    simpa using List.find?_some h
  | none => exact Or.inr ⟨by simpa using h, by rw [entity, h]; rfl⟩

/-- What is escaped has none of the table's characters but the mark. -/
theorem escape_clean {p : α × List α} (hp : p ∈ E.table) (hne : p.1 ≠ E.mark) : p.1 ∉ E.escape s := by
  intro h
  obtain ⟨c, _, hc⟩ := List.mem_flatMap.mp h
  rcases entity_cases (E := E) c with ⟨q, hq, _, e⟩ | ⟨hnone, e⟩
  · rw [e] at hc
    exact E.clean q hq p hp hne hc
  · rw [e, List.mem_singleton] at hc
    exact hnone p hp hc

/-- A mark in what is escaped begins an entity. -/
theorem escape_marked {a b : List α} (h : E.escape s = a ++ E.mark :: b) : ∃ p ∈ E.table, p.2 <+: E.mark :: b := by
  induction s generalizing a with
  | nil => cases a <;> cases h
  | cons c s ih =>
    rw [escape_cons] at h
    rcases List.append_eq_append_iff.mp h with ⟨a', rfl, hs⟩ | ⟨x, hc, hx⟩
    · exact ih hs
    · cases x with
      | nil => exact ih (a := []) hx.symm
      | cons d x =>
        obtain ⟨rfl, rfl⟩ := List.cons.inj hx
        rcases entity_cases (E := E) c with ⟨p, hp, _, e⟩ | ⟨hnone, e⟩
        · obtain ⟨rest, hbegin, honce⟩ := begins_cons hp
          rw [hc, hbegin] at e
          cases a with
          | nil =>
            refine ⟨p, hp, E.escape s, ?_⟩
            rw [hbegin, ← e]
            rfl
          | cons y a =>
            obtain ⟨_, hrest⟩ := List.cons.inj e
            exact absurd (hrest ▸ List.mem_append_right a List.mem_cons_self) honce
        · obtain ⟨p, hp, hmark⟩ := E.marked
          rw [hc] at e
          cases a with
          | nil =>
            obtain ⟨hmark', _⟩ := List.cons.inj e
            exact absurd (hmark.trans hmark') (hnone p hp)
          | cons y a =>
            have := (List.cons.inj e).2
            cases a <;> cases this

/-! ### Undoing it -/

theorem unescapeFrom_skip (w rest : List α) : E.unescapeFrom w.length (w ++ rest) = E.unescape rest := by
  induction w with
  | nil => rfl
  | cons c w ih => exact ih

theorem leading_entity {p : α × List α} (hp : p ∈ E.table) (rest : List α) :
    ∃ q, E.leading (p.2 ++ rest) = some q ∧ q.1 = p.1 ∧ q.2 = p.2 := by
  have hprefix : p.2.isPrefixOf (p.2 ++ rest) = true := List.isPrefixOf_iff_prefix.mpr (List.prefix_append _ _)
  cases h : E.leading (p.2 ++ rest) with
  | none => exact absurd hprefix (List.find?_eq_none.mp h p hp)
  | some q =>
    refine ⟨q, rfl, ?_⟩
    unfold leading at h
    have hq : q ∈ E.table := List.mem_of_find?_eq_some h
    have hfound := List.find?_some h
    have hqprefix : q.2 <+: p.2 ++ rest := List.isPrefixOf_iff_prefix.mp hfound
    rcases List.prefix_or_prefix_of_prefix hqprefix (List.prefix_append p.2 rest) with hle | hle
    · exact E.distinct q hq p hp hle
    · exact ⟨((E.distinct p hp q hq hle).1).symm, ((E.distinct p hp q hq hle).2).symm⟩

theorem unescape_entity {p : α × List α} (hp : p ∈ E.table) (rest : List α) :
    E.unescape (p.2 ++ rest) = p.1 :: E.unescape rest := by
  obtain ⟨q, hq, hchar, hbody⟩ := leading_entity hp rest
  obtain ⟨w, hw, _⟩ := begins_cons hp
  rw [hw, List.cons_append] at hq ⊢
  rw [unescape, unescapeFrom, hq]
  dsimp only
  rw [hchar, hbody, hw, List.length_cons, Nat.add_sub_cancel, unescapeFrom_skip]

theorem unescape_char (hc : c ≠ E.mark) (rest : List α) : E.unescape (c :: rest) = c :: E.unescape rest := by
  have hnone : E.leading (c :: rest) = none := by
    refine List.find?_eq_none.mpr fun p hp h => ?_
    obtain ⟨w, hw, _⟩ := begins_cons hp
    obtain ⟨t, ht⟩ := List.isPrefixOf_iff_prefix.mp h
    rw [hw, List.cons_append] at ht
    exact hc (List.cons.inj ht).1.symm
  rw [unescape, unescapeFrom, hnone]
  rfl

/-- What is written so, is undone to the text whatever follows. -/
def Writes (E : Escaping α) (w s : List α) : Prop := ∀ rest, E.unescape (w ++ rest) = s ++ E.unescape rest

theorem Writes.append {w₁ w₂ s₁ s₂ : List α} (h₁ : E.Writes w₁ s₁) (h₂ : E.Writes w₂ s₂) :
    E.Writes (w₁ ++ w₂) (s₁ ++ s₂) := by
  intro rest
  rw [List.append_assoc, h₁, h₂, List.append_assoc]

theorem Writes.unescape {w s : List α} (h : E.Writes w s) : E.unescape w = s := by
  have := h []
  rwa [List.append_nil, show E.unescape [] = [] from rfl, List.append_nil] at this

theorem writes_nil : E.Writes [] [] := fun _ => rfl

theorem writes_plain (h : E.mark ∉ s) : E.Writes s s := by
  induction s with
  | nil => exact writes_nil
  | cons c s ih =>
    obtain ⟨hc, hs⟩ := not_or.mp fun e => h (List.mem_cons.mpr e)
    intro rest
    rw [List.cons_append, unescape_char (Ne.symm hc), ih hs]
    rfl

theorem writes_escape (s : List α) : E.Writes (E.escape s) s := by
  induction s with
  | nil => exact writes_nil
  | cons c s ih =>
    intro rest
    rw [escape_cons, List.append_assoc]
    rcases entity_cases (E := E) c with ⟨p, hp, hchar, e⟩ | ⟨hnone, e⟩
    · rw [e, unescape_entity hp, ih, hchar]
      rfl
    · obtain ⟨p, hp, hmark⟩ := E.marked
      rw [e, List.cons_append, List.nil_append, unescape_char fun hc => hnone p hp (hmark.trans hc.symm), ih]
      rfl

theorem unescape_escape (s : List α) : E.unescape (E.escape s) = s := (writes_escape s).unescape

end Escaping

/-! ## Text and tags -/

inductive Piece (α : Type) where
  | text (s : List α)
  | tag (s : List α)
  deriving DecidableEq

/-- What a tag begins with, ends with, and puts around values. -/
structure Brackets (α : Type) where
  left : α
  right : α
  quotes : List α

/-- Where the reading of a document stands. -/
inductive Mode (α : Type) where
  | text
  | tag
  | value (quote : α)

namespace Brackets

variable {α : Type} [DecidableEq α] (B : Brackets α)

/-- The text and the tags from `w` on, which is what was read of the present one. -/
def read : Mode α → (w : List α) → List α → List (Piece α)
  | .text, w, [] => [.text w]
  | _, w, [] => [.tag w]
  | .text, w, c :: cs => if c = B.left then .text w :: read .tag [c] cs else read .text (w ++ [c]) cs
  | .tag, w, c :: cs =>
    if c = B.right then .tag (w ++ [c]) :: read .text [] cs
    else if c ∈ B.quotes then read (.value c) (w ++ [c]) cs
    else read .tag (w ++ [c]) cs
  | .value q, w, c :: cs => if c = q then read .tag (w ++ [c]) cs else read (.value q) (w ++ [c]) cs

def pieces (s : List α) : List (Piece α) := B.read .text [] s

/-- The rest of a tag: what ends it is its last character. -/
def closes : Mode α → List α → Bool
  | .tag, c :: cs =>
    if c = B.right then cs.isEmpty
    else if c ∈ B.quotes then closes (.value c) cs
    else closes .tag cs
  | .value q, c :: cs => if c = q then closes .tag cs else closes (.value q) cs
  | _, _ => false

def isTag : List α → Bool
  | [] => false
  | c :: cs => decide (c = B.left) && B.closes .tag cs

variable {B}

theorem read_text {t : List α} (h : B.left ∉ t) (w rest : List α) :
    B.read .text w (t ++ rest) = B.read .text (w ++ t) rest := by
  induction t generalizing w with
  | nil => rw [List.nil_append, List.append_nil]
  | cons c t ih =>
    obtain ⟨hc, ht⟩ := not_or.mp fun e => h (List.mem_cons.mpr e)
    rw [List.cons_append, read, if_neg (Ne.symm hc), ih ht, List.append_assoc]
    rfl

theorem read_closes {m : Mode α} {t : List α} (h : B.closes m t = true) (w rest : List α) :
    B.read m w (t ++ rest) = .tag (w ++ t) :: B.read .text [] rest := by
  induction t generalizing m w with
  | nil => cases m <;> cases h
  | cons c t ih =>
    cases m with
    | text => cases h
    | tag =>
      rw [closes] at h
      rw [List.cons_append, read]
      by_cases hright : c = B.right
      · rw [if_pos hright] at h
        rw [if_pos hright, List.isEmpty_iff.mp h]
        rfl
      rw [if_neg hright] at h ⊢
      by_cases hquote : c ∈ B.quotes
      · rw [if_pos hquote] at h ⊢
        rw [ih h, List.append_assoc]
        rfl
      · rw [if_neg hquote] at h ⊢
        rw [ih h, List.append_assoc]
        rfl
    | value q =>
      rw [closes] at h
      rw [List.cons_append, read]
      by_cases hq : c = q
      · rw [if_pos hq] at h ⊢
        rw [ih h, List.append_assoc]
        rfl
      · rw [if_neg hq] at h ⊢
        rw [ih h, List.append_assoc]
        rfl

theorem read_tag {t : List α} (h : B.isTag t = true) (w rest : List α) :
    B.read .text w (t ++ rest) = .text w :: .tag t :: B.read .text [] rest := by
  cases t with
  | nil => cases h
  | cons c t =>
    obtain ⟨hleft, hcloses⟩ := (Bool.and_eq_true _ _).mp h
    rw [List.cons_append, read, if_pos (of_decide_eq_true hleft), read_closes hcloses]
    rfl

end Brackets

def Piece.markup {α : Type} : Piece α → Option (List α)
  | text _ => none
  | tag g => some g

/-- The tags of a document. -/
def tagsOf {α : Type} (ps : List (Piece α)) : List (List α) := ps.filterMap Piece.markup

@[simp] theorem tagsOf_nil {α : Type} : tagsOf ([] : List (Piece α)) = [] := rfl
@[simp] theorem tagsOf_text {α : Type} (s : List α) (ps : List (Piece α)) : tagsOf (.text s :: ps) = tagsOf ps := rfl
@[simp] theorem tagsOf_tag {α : Type} (g : List α) (ps : List (Piece α)) : tagsOf (.tag g :: ps) = g :: tagsOf ps := rfl

theorem tagsOf_append {α : Type} (ps qs : List (Piece α)) : tagsOf (ps ++ qs) = tagsOf ps ++ tagsOf qs :=
  List.filterMap_append

/-! ## Documents put together -/

/-- A chunk of a document: as it stands, or a field that is escaped. -/
inductive Chunk (α : Type) where
  | plain (s : List α)
  | tag (s : List α)
  | field (s : List α)

section Chunks

variable {α : Type} [DecidableEq α] (E : Escaping α) (B : Brackets α)

def Chunk.write : Chunk α → List α
  | plain s => s
  | tag s => s
  | field s => E.escape s

/-- Plain text has nothing that begins a tag or an entity. -/
def Chunk.Ok : Chunk α → Prop
  | plain s => B.left ∉ s ∧ E.mark ∉ s
  | tag s => B.isTag s = true
  | field _ => True

instance : DecidablePred (Chunk.Ok E B)
  | .plain _ => inferInstanceAs (Decidable (_ ∧ _))
  | .tag _ => inferInstanceAs (Decidable (_ = true))
  | .field _ => .isTrue trivial

@[simp] theorem Chunk.ok_field (s : List α) : (Chunk.field s).Ok E B := trivial

/-- What the chunks tell after the text `w`: their tags, and the texts between them. -/
def told (w : List α) : List (Chunk α) → List (Piece α)
  | [] => [.text w]
  | .plain s :: ps => told (w ++ s) ps
  | .field s :: ps => told (w ++ s) ps
  | .tag g :: ps => .text w :: .tag g :: told [] ps

/-- A piece with the entities of its text replaced. -/
def Piece.decode : Piece α → Piece α
  | text s => text (E.unescape s)
  | tag g => tag g

variable {E B}

theorem tagsOf_decode (ps : List (Piece α)) : tagsOf (ps.map (Piece.decode E)) = tagsOf ps := by
  have hmarkup : (Piece.markup ∘ Piece.decode E) = Piece.markup := funext fun p => by cases p <;> rfl
  rw [tagsOf, List.filterMap_map, hmarkup, tagsOf]

theorem read_told (hleft : ∃ p ∈ E.table, p.1 = B.left ∧ B.left ≠ E.mark) {ps : List (Chunk α)} (h : ∀ p ∈ ps, p.Ok E B)
    {w s : List α} (hw : E.Writes w s) :
    (B.read .text w (ps.flatMap (Chunk.write E))).map (Piece.decode E) = told s ps := by
  induction ps generalizing w s with
  | nil =>
    rw [List.flatMap_nil, Brackets.read, List.map_singleton, Piece.decode, hw.unescape]
    rfl
  | cons p ps ih =>
    have hps := fun q hq => h q (List.mem_cons_of_mem p hq)
    have hp := h p List.mem_cons_self
    rw [List.flatMap_cons]
    cases p with
    | plain t =>
      obtain ⟨hopen, hmark⟩ := hp
      rw [Chunk.write, Brackets.read_text hopen, ih hps (hw.append (Escaping.writes_plain hmark))]
      rfl
    | field t =>
      obtain ⟨q, hq, hchar, hne⟩ := hleft
      have hopen : B.left ∉ E.escape t := hchar ▸ Escaping.escape_clean hq (hchar ▸ hne)
      rw [Chunk.write, Brackets.read_text hopen, ih hps (hw.append (Escaping.writes_escape t))]
      rfl
    | tag g =>
      rw [Chunk.write, Brackets.read_tag hp, List.map_cons, List.map_cons, ih hps Escaping.writes_nil, Piece.decode,
        Piece.decode, hw.unescape]
      rfl

/-- A document put together is read as its tags, with the texts between them. -/
theorem read_chunks (hleft : ∃ p ∈ E.table, p.1 = B.left ∧ B.left ≠ E.mark) {ps : List (Chunk α)} (h : ∀ p ∈ ps, p.Ok E B) :
    (B.pieces (ps.flatMap (Chunk.write E))).map (Piece.decode E) = told [] ps := read_told hleft h Escaping.writes_nil

end Chunks

end Kaguya.Lib
