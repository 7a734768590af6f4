/-
  Kaguya.Lib.Fields — texts made of fields: joined by a separator (`List.intercalate`),
  ended by a terminator (`field_inj`), or trimmed at both ends. What is said of bytes
  holds of the characters they are read as: joining, taking a prefix off and trimming go
  through a map of the elements.
-/

import Mathlib.Data.List.Basic
import Mathlib.Data.List.DropRight

namespace Kaguya.Lib.Fields

variable {α β : Type}

/-! ## Separators and terminators -/

theorem intercalate_map (f : α → β) (sep : List α) (ls : List (List α)) :
    (sep.intercalate ls).map f = (sep.map f).intercalate (ls.map (List.map f)) := by
  induction ls with
  | nil => rfl
  | cons l ls ih =>
    cases ls with
    | nil => simp
    | cons l' ls =>
      rw [List.intercalate_cons_cons, List.map_append, List.map_append, ih]
      simp [List.intercalate_cons_cons]

theorem mem_intercalate {x a : α} {ls : List (List α)} (h : x ∈ [a].intercalate ls) :
    x = a ∨ ∃ l ∈ ls, x ∈ l := by
  induction ls with
  | nil => cases h
  | cons l ls ih =>
    cases ls with
    | nil => exact Or.inr ⟨l, List.mem_cons_self, by rwa [List.intercalate_singleton] at h⟩
    | cons l' ls =>
      rw [List.intercalate_cons_cons, List.mem_append, List.mem_append] at h
      rcases h with (h | h) | h
      · exact Or.inr ⟨l, List.mem_cons_self, h⟩
      · exact Or.inl (List.mem_singleton.mp h)
      · rcases ih h with h | ⟨m, hm, h⟩
        · exact Or.inl h
        · exact Or.inr ⟨m, List.mem_cons_of_mem _ hm, h⟩

theorem mem_intercalate_of {x a : α} {ls : List (List α)} {l : List α} (hl : l ∈ ls) (h : x ∈ l) :
    x ∈ [a].intercalate ls := by
  induction ls with
  | nil => cases hl
  | cons m ls ih =>
    cases ls with
    | nil =>
      rw [List.intercalate_singleton, ← List.mem_singleton.mp hl]
      exact h
    | cons l' ls =>
      rw [List.intercalate_cons_cons]
      rcases List.mem_cons.mp hl with rfl | hl
      · exact List.mem_append_left _ (List.mem_append_left _ h)
      · exact List.mem_append_right _ (ih hl)

/-- A field that ends at the first of its terminators. -/
theorem field_inj {a : α} {xs ys rest rest' : List α} (hx : a ∉ xs) (hy : a ∉ ys)
    (h : xs ++ a :: rest = ys ++ a :: rest') : xs = ys ∧ rest = rest' := by
  induction xs generalizing ys with
  | nil =>
    cases ys with
    | nil => exact ⟨rfl, (List.cons.inj h).2⟩
    | cons y ys => exact absurd (List.cons.inj h).1 (List.ne_of_not_mem_cons hy)
  | cons x xs ih =>
    cases ys with
    | nil => exact absurd (List.cons.inj h).1.symm (List.ne_of_not_mem_cons hx)
    | cons y ys =>
      obtain ⟨rfl, htail⟩ := List.cons.inj h
      obtain ⟨rfl, hrest⟩ := ih (List.not_mem_of_not_mem_cons hx) (List.not_mem_of_not_mem_cons hy) htail
      exact ⟨rfl, hrest⟩

/-! ## Prefixes -/

theorem isPrefixOf?_map [DecidableEq α] [DecidableEq β] {f : α → β} (hf : Function.Injective f) :
    ∀ xs ys : List α, (xs.map f).isPrefixOf? (ys.map f) = (xs.isPrefixOf? ys).map (List.map f)
  | [], _ => rfl
  | _ :: _, [] => rfl
  | x :: xs, y :: ys => by
    simp only [List.map_cons, List.isPrefixOf?, beq_iff_eq, hf.eq_iff]
    split
    · exact isPrefixOf?_map hf xs ys
    · rfl

/-! ## Trimming -/

/-- The elements dropped are those whose images are. -/
theorem dropWhile_map_of {f : α → β} {p : β → Bool} {q : α → Bool} {l : List α} (h : ∀ a ∈ l, p (f a) = q a) :
    (l.map f).dropWhile p = (l.dropWhile q).map f := by
  induction l with
  | nil => rfl
  | cons a l ih =>
    rw [List.map_cons, List.dropWhile_cons, List.dropWhile_cons, h a List.mem_cons_self,
      ih fun b hb => h b (List.mem_cons_of_mem _ hb)]
    split <;> rfl

/-- Up to something that stays. -/
theorem dropWhile_stop {p : α → Bool} {a : α} (ha : p a = false) (xs ys : List α) :
    (xs ++ a :: ys).dropWhile p = xs.dropWhile p ++ a :: ys := by
  rw [List.dropWhile_append]
  split
  next h => rw [List.isEmpty_iff.mp h, List.dropWhile_cons_of_neg (by rw [ha]; exact Bool.false_ne_true), List.nil_append]
  next => rfl

theorem rdropWhile_stop {p : α → Bool} {a : α} (ha : p a = false) (xs ys : List α) :
    (xs ++ a :: ys).rdropWhile p = xs ++ a :: ys.rdropWhile p := by
  rw [List.rdropWhile, List.reverse_append, List.reverse_cons, List.append_assoc, List.singleton_append,
    dropWhile_stop ha, List.reverse_append, List.reverse_cons, List.reverse_reverse, List.append_assoc]
  rfl

theorem rdropWhile_all {p : α → Bool} (xs : List α) {ys : List α} (h : ∀ a ∈ ys, p a) :
    (xs ++ ys).rdropWhile p = xs.rdropWhile p := by
  rw [List.rdropWhile, List.reverse_append, List.dropWhile_append_of_pos fun a ha => h a (List.mem_reverse.mp ha)]
  rfl

theorem rdropWhile_map_of {f : α → β} {p : β → Bool} {q : α → Bool} {l : List α} (h : ∀ a ∈ l, p (f a) = q a) :
    (l.map f).rdropWhile p = (l.rdropWhile q).map f := by
  rw [List.rdropWhile, ← List.map_reverse, dropWhile_map_of fun a ha => h a (List.mem_reverse.mp ha), ← List.map_reverse,
    List.rdropWhile]

end Kaguya.Lib.Fields
