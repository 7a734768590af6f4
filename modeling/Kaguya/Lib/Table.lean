/-
  Kaguya.Lib.Table — a keyed table of a relational store: rows in insertion order, no
  two with one key, and the statements that write it. `INSERT OR IGNORE` keeps the
  row that is there, `INSERT OR REPLACE` drops it for the new one, `DELETE … WHERE`
  drops the rows a test picks; each answers with the number of rows it changed. The
  key constraint is a field of the table, so every statement proves that it keeps it.

  Proved: the rows after each statement (`mem_insertOrIgnore`, `mem_insertOrReplace`,
  `mem_deleteWhere`), how many a delete by key drops (`deleteWhere_zero`,
  `deleteWhere_one`), and when a statement changes nothing (`insertOrIgnore_of_key`,
  `deleteWhere_of_none`).
-/

import Mathlib.Data.List.Nodup

namespace Kaguya.Lib

/-- Rows of type `α`, at most one for each value of `key`. -/
@[ext] structure Table (α : Type) {κ : Type} (key : α → κ) where
  rows : List α
  keyed : (rows.map key).Nodup

namespace Table

variable {α κ : Type} {key : α → κ}

instance : Membership α (Table α key) := ⟨fun t x => x ∈ t.rows⟩

instance [DecidableEq α] : DecidableEq (Table α key) :=
  fun s t => decidable_of_iff (s.rows = t.rows) Table.ext_iff.symm

instance [DecidableEq α] (t : Table α key) (x : α) : Decidable (x ∈ t) := inferInstanceAs (Decidable (x ∈ t.rows))

theorem mem_rows {t : Table α key} {x : α} : x ∈ t.rows ↔ x ∈ t := Iff.rfl

def empty : Table α key := ⟨[], List.nodup_nil⟩

@[simp] theorem not_mem_empty (x : α) : x ∉ (empty : Table α key) := List.not_mem_nil

/-- `DELETE FROM t WHERE p`. -/
def deleteWhere (p : α → Bool) (t : Table α key) : Table α key × Nat :=
  (⟨t.rows.filter (!p ·), (List.filter_sublist.map key).nodup t.keyed⟩, (t.rows.filter p).length)

theorem mem_deleteWhere {p : α → Bool} {t : Table α key} {x : α} :
    x ∈ (t.deleteWhere p).1 ↔ x ∈ t ∧ p x = false := by
  show x ∈ t.rows.filter (!p ·) ↔ x ∈ t.rows ∧ p x = false
  simp

/-- A delete that picks no row leaves the table as it was. -/
theorem deleteWhere_of_none {p : α → Bool} {t : Table α key} (h : ∀ x ∈ t, p x = false) :
    (t.deleteWhere p).1 = t := by
  have hall : ∀ x ∈ t.rows, (!p x) = true := fun x hx => by simp [h x hx]
  exact Table.ext (List.filter_eq_self.mpr hall)

theorem deleteWhere_zero {p : α → Bool} {t : Table α key} (h : ∀ x ∈ t, p x = false) : (t.deleteWhere p).2 = 0 := by
  refine List.length_eq_zero_iff.mpr (List.filter_eq_nil_iff.mpr fun x hx => ?_)
  rw [h x hx]
  exact Bool.false_ne_true

/-- A delete by key changes the one row that has it. -/
theorem deleteWhere_one {p : α → Bool} {t : Table α key} {x : α} (hx : x ∈ t) (hp : ∀ y ∈ t, p y = true ↔ key y = key x) :
    (t.deleteWhere p).2 = 1 := by
  have hpick : t.rows.filter p = [x] := by
    refine List.perm_singleton.mp ((List.perm_ext_iff_of_nodup ?_ (List.nodup_singleton x)).mpr fun y => ?_)
    · exact List.filter_sublist.nodup t.keyed.of_map
    · rw [List.mem_filter, List.mem_singleton]
      refine ⟨fun h => List.inj_on_of_nodup_map t.keyed h.1 hx ((hp y h.1).mp h.2), fun h => ?_⟩
      rw [h]
      exact ⟨hx, (hp x hx).mpr rfl⟩
  exact congrArg List.length hpick

theorem keyed_snoc {l : List α} {x : α} (hl : (l.map key).Nodup) (hx : ∀ y ∈ l, key y ≠ key x) :
    ((l ++ [x]).map key).Nodup := by
  rw [List.map_append, List.nodup_append]
  refine ⟨hl, by simp, fun a ha b hb => ?_⟩
  obtain ⟨y, hy, rfl⟩ := List.mem_map.mp ha
  have hbx : b = key x := by simpa using hb
  exact hbx ▸ hx y hy

variable [DecidableEq κ]

/-- Whether some row has `x`'s key. -/
def hasKey (t : Table α key) (x : α) : Bool := t.rows.any fun y => key y = key x

theorem hasKey_iff {t : Table α key} {x : α} : t.hasKey x = true ↔ ∃ y ∈ t, key y = key x := by
  simp [hasKey, mem_rows]

theorem hasKey_false {t : Table α key} {x : α} : t.hasKey x = false ↔ ∀ y ∈ t, key y ≠ key x := by
  simp [hasKey, mem_rows]

/-- `INSERT OR IGNORE INTO t VALUES x`. -/
def insertOrIgnore (x : α) (t : Table α key) : Table α key × Nat :=
  if h : t.hasKey x = true then (t, 0)
  else (⟨t.rows ++ [x], keyed_snoc t.keyed (hasKey_false.mp (by simpa using h))⟩, 1)

theorem insertOrIgnore_of_key {x : α} {t : Table α key} (h : ∃ y ∈ t, key y = key x) :
    t.insertOrIgnore x = (t, 0) := by
  simp only [insertOrIgnore, hasKey_iff.mpr h, dite_true]

theorem insertOrIgnore_count {x : α} {t : Table α key} :
    0 < (t.insertOrIgnore x).2 ↔ ∀ y ∈ t, key y ≠ key x := by
  unfold insertOrIgnore
  split
  · rename_i h
    obtain ⟨y, hy, e⟩ := hasKey_iff.mp h
    exact ⟨fun h0 => absurd h0 (Nat.lt_irrefl 0), fun hn => absurd e (hn y hy)⟩
  · rename_i h
    exact ⟨fun _ => hasKey_false.mp (by simpa using h), fun _ => Nat.one_pos⟩

theorem mem_insertOrIgnore {x y : α} {t : Table α key} :
    y ∈ (t.insertOrIgnore x).1 ↔ y ∈ t ∨ (y = x ∧ ∀ z ∈ t, key z ≠ key x) := by
  unfold insertOrIgnore
  split
  · rename_i h
    obtain ⟨z, hz, e⟩ := hasKey_iff.mp h
    exact ⟨Or.inl, fun h => h.elim id fun ⟨_, hn⟩ => absurd e (hn z hz)⟩
  · rename_i h
    have hn : ∀ z ∈ t, key z ≠ key x := hasKey_false.mp (by simpa using h)
    show y ∈ t.rows ++ [x] ↔ _
    rw [List.mem_append, List.mem_singleton]
    exact or_congr Iff.rfl ⟨fun e => ⟨e, hn⟩, And.left⟩

/-- `INSERT OR REPLACE INTO t VALUES x`: the row with `x`'s key goes, `x` comes last. -/
def insertOrReplace (x : α) (t : Table α key) : Table α key × Nat :=
  (⟨t.rows.filter (fun y => key y ≠ key x) ++ [x],
    keyed_snoc ((List.filter_sublist.map key).nodup t.keyed) (fun y hy => by simpa using (List.mem_filter.mp hy).2)⟩, 1)

theorem mem_insertOrReplace {x y : α} {t : Table α key} :
    y ∈ (t.insertOrReplace x).1 ↔ y = x ∨ (y ∈ t ∧ key y ≠ key x) := by
  show y ∈ t.rows.filter (fun y => key y ≠ key x) ++ [x] ↔ _
  rw [List.mem_append, List.mem_filter, List.mem_singleton, or_comm]
  simp [mem_rows]

end Table

end Kaguya.Lib
