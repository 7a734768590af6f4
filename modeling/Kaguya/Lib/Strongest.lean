/-
  Kaguya.Lib.Strongest — the running maximum of a list, folded from nothing:
  `best = Some(best.map_or(a, |b| b.max(a)))` over the elements.

  Proved: it is the list's maximum (`strongest_eq_some`, `strongest_eq_none`), so
  neither the order of the elements nor their multiplicity matters, and losing elements
  only lowers it (`strongest_mono`).
-/

import Mathlib.Data.List.MinMax

namespace Kaguya.Lib

variable {α : Type} [LinearOrder α]

/-- One step of the fold: keep the larger of what is known and `a`. -/
def stronger (best : Option α) (a : α) : Option α := some (best.elim a (max · a))

def strongest (l : List α) : Option α := l.foldl stronger none

theorem foldl_stronger (l : List α) (a : α) :
    (l.foldl stronger (some a) : WithBot α) = max (a : WithBot α) l.maximum := by
  induction l generalizing a with
  | nil => exact (max_eq_left bot_le).symm
  | cons b l ih =>
    show (l.foldl stronger (some (max a b)) : WithBot α) = _
    rw [ih (max a b), List.maximum_cons, WithBot.coe_max, max_assoc]

/-- The fold computes Mathlib's `List.maximum`. -/
theorem strongest_eq_maximum (l : List α) : (strongest l : WithBot α) = l.maximum := by
  cases l with
  | nil => rfl
  | cons a l => exact (foldl_stronger l a).trans (List.maximum_cons a l).symm

theorem strongest_eq_some {l : List α} {m : α} : strongest l = some m ↔ m ∈ l ∧ ∀ a ∈ l, a ≤ m := by
  rw [← List.maximum_eq_coe_iff, ← strongest_eq_maximum]
  exact Iff.rfl

@[simp] theorem strongest_eq_none {l : List α} : strongest l = none ↔ l = [] := by
  rw [← List.maximum_eq_bot, ← strongest_eq_maximum]
  exact Iff.rfl

/-- Some of the elements have no larger maximum than all of them. -/
theorem strongest_mono {l l' : List α} (h : l ⊆ l') {m : α} (hm : strongest l = some m) :
    ∃ m', strongest l' = some m' ∧ m ≤ m' := by
  have hin : m ∈ l' := h (strongest_eq_some.mp hm).1
  cases e : strongest l' with
  | none => rw [strongest_eq_none.mp e] at hin; cases hin
  | some m' => exact ⟨m', rfl, (strongest_eq_some.mp e).2 m hin⟩

end Kaguya.Lib
