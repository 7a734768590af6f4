/-
  Kaguya.Lib.Dict — a hash map as the function from keys to what they hold: lookup,
  `insert`, `remove` and `retain`. The order of a map's entries is never seen, so the
  function is all there is to it.

  `Swept live d ref`: a table whose dead entries are swept now and then (`d`), against
  one that is never swept (`ref`). The operations keep it, and a lookup that asks for
  live entries finds the same in both. `replay` is the table that a list of edits makes;
  what is in it is read off the list (`replay_some`).
-/

namespace Kaguya.Lib

def Dict (κ α : Type) : Type := κ → Option α

namespace Dict

variable {κ α : Type}

def empty : Dict κ α := fun _ => none

def get (d : Dict κ α) (k : κ) : Option α := d k

def insert [DecidableEq κ] (d : Dict κ α) (k : κ) (v : α) : Dict κ α := fun k' => if k' = k then some v else d k'

def remove [DecidableEq κ] (d : Dict κ α) (k : κ) : Dict κ α := fun k' => if k' = k then none else d k'

/-- `HashMap::retain` -/
def retain (p : κ → α → Bool) (d : Dict κ α) : Dict κ α := fun k => (d k).filter (p k)

theorem ext {d d' : Dict κ α} (h : ∀ k, d.get k = d'.get k) : d = d' := funext h

@[simp] theorem get_empty (k : κ) : (empty : Dict κ α).get k = none := rfl

@[simp] theorem get_insert_self [DecidableEq κ] (d : Dict κ α) (k : κ) (v : α) : (d.insert k v).get k = some v :=
  if_pos rfl

theorem get_insert_ne [DecidableEq κ] (d : Dict κ α) {k k' : κ} (v : α) (h : k' ≠ k) :
    (d.insert k v).get k' = d.get k' := if_neg h

@[simp] theorem get_remove_self [DecidableEq κ] (d : Dict κ α) (k : κ) : (d.remove k).get k = none := if_pos rfl

theorem get_remove_ne [DecidableEq κ] (d : Dict κ α) {k k' : κ} (h : k' ≠ k) : (d.remove k).get k' = d.get k' :=
  if_neg h

theorem get_insert [DecidableEq κ] (d : Dict κ α) (k k' : κ) (v : α) :
    (d.insert k v).get k' = if k' = k then some v else d.get k' := rfl

theorem get_remove [DecidableEq κ] (d : Dict κ α) (k k' : κ) :
    (d.remove k).get k' = if k' = k then none else d.get k' := rfl

theorem get_retain (p : κ → α → Bool) (d : Dict κ α) (k : κ) : (d.retain p).get k = (d.get k).filter (p k) := rfl

/-- What is retained was there and passes the test. -/
theorem get_retain_some {p : κ → α → Bool} {d : Dict κ α} {k : κ} {v : α} :
    (d.retain p).get k = some v ↔ d.get k = some v ∧ p k v = true := by
  rw [get_retain, Option.filter_eq_some_iff]

/-! ## A table swept late -/

/-- `d` is `ref`, up to entries that are not live. -/
structure Swept (live : α → Prop) (d ref : Dict κ α) : Prop where
  kept : ∀ {k v}, d.get k = some v → ref.get k = some v
  live : ∀ {k v}, ref.get k = some v → live v → d.get k = some v

namespace Swept

variable {live : α → Prop} {d ref : Dict κ α}

theorem refl (d : Dict κ α) : Swept live d d := ⟨id, fun h _ => h⟩

/-- Entries only die. -/
theorem mono {live' : α → Prop} (hl : ∀ v, live' v → live v) (h : Swept live d ref) : Swept live' d ref :=
  ⟨h.kept, fun hk hv => h.live hk (hl _ hv)⟩

theorem insert [DecidableEq κ] (h : Swept live d ref) (k : κ) (v : α) : Swept live (d.insert k v) (ref.insert k v) := by
  constructor
  · intro k' v' hk
    rw [get_insert] at hk ⊢
    by_cases e : k' = k
    · rw [if_pos e] at hk ⊢
      exact hk
    · rw [if_neg e] at hk ⊢
      exact h.kept hk
  · intro k' v' hk hv
    rw [get_insert] at hk ⊢
    by_cases e : k' = k
    · rw [if_pos e] at hk ⊢
      exact hk
    · rw [if_neg e] at hk ⊢
      exact h.live hk hv

theorem remove [DecidableEq κ] (h : Swept live d ref) (k : κ) : Swept live (d.remove k) (ref.remove k) := by
  constructor
  · intro k' v' hk
    rw [get_remove] at hk ⊢
    by_cases e : k' = k
    · rw [if_pos e] at hk
      cases hk
    · rw [if_neg e] at hk ⊢
      exact h.kept hk
  · intro k' v' hk hv
    rw [get_remove] at hk ⊢
    by_cases e : k' = k
    · rw [if_pos e] at hk
      cases hk
    · rw [if_neg e] at hk ⊢
      exact h.live hk hv

/-- A sweep that keeps what is live shows in the table only. -/
theorem retain {p : κ → α → Bool} (h : Swept live d ref) (hp : ∀ k v, live v → p k v = true) :
    Swept live (d.retain p) ref := by
  constructor
  · intro k v hk
    exact h.kept (get_retain_some.mp hk).1
  · intro k v hk hv
    exact get_retain_some.mpr ⟨h.live hk hv, hp k v hv⟩

/-- A lookup that asks for live entries finds the same in both. -/
theorem filter_eq {p : α → Bool} (h : Swept live d ref) (hp : ∀ v, p v = true → live v) (k : κ) :
    (d.get k).filter p = (ref.get k).filter p := by
  refine Option.ext fun v => ?_
  rw [Option.filter_eq_some_iff, Option.filter_eq_some_iff]
  constructor
  · intro hv
    exact ⟨h.kept hv.1, hv.2⟩
  · intro hv
    exact ⟨h.live hv.1 (hp v hv.2), hv.2⟩

end Swept

/-! ## A table as its history -/

/-- What one step does to a table. -/
inductive Edit (κ α : Type) where
  | put (k : κ) (v : α)
  | drop (k : κ)
  | keep

/-- The edit decides what is under the key after it. -/
def Edit.Touches (k : κ) : Edit κ α → Prop
  | .put k' _ | .drop k' => k' = k
  | .keep => False

variable [DecidableEq κ] {μ : Type}

def edit (d : Dict κ α) : Edit κ α → Dict κ α
  | .put k v => d.insert k v
  | .drop k => d.remove k
  | .keep => d

/-- The table the steps make of the empty one, the newest step first. -/
def replay (f : μ → Edit κ α) : List μ → Dict κ α
  | [] => empty
  | m :: l => (replay f l).edit (f m)

/-- Under a key is what the last step to touch it put there. -/
theorem replay_some {f : μ → Edit κ α} {l : List μ} {k : κ} {v : α} : (replay f l).get k = some v ↔
    ∃ late m early, l = late ++ m :: early ∧ f m = .put k v ∧ ∀ x ∈ late, ¬ (f x).Touches k := by
  induction l with
  | nil =>
    constructor
    · intro h
      cases h
    · intro h
      obtain ⟨late, m, early, h, _⟩ := h
      simp at h
  | cons m l ih =>
    -- `m` touches the key and decides, or leaves it to the steps before
    have touched (ht : (f m).Touches k) : (∃ late m' early, m :: l = late ++ m' :: early ∧ f m' = .put k v ∧
        ∀ x ∈ late, ¬ (f x).Touches k) ↔ f m = .put k v := by
      constructor
      · intro h
        obtain ⟨late, m', early, h, hm, hlate⟩ := h
        cases late with
        | nil =>
          cases h
          exact hm
        | cons y late =>
          cases h
          exact absurd ht (hlate m List.mem_cons_self)
      · intro h
        exact ⟨[], m, l, rfl, h, fun x hx => by cases hx⟩
    have passed (ht : ¬ (f m).Touches k) : (∃ late m' early, m :: l = late ++ m' :: early ∧ f m' = .put k v ∧
        ∀ x ∈ late, ¬ (f x).Touches k) ↔ (replay f l).get k = some v := by
      rw [ih]
      constructor
      · intro h
        obtain ⟨late, m', early, h, hm, hlate⟩ := h
        cases late with
        | nil =>
          cases h
          rw [hm] at ht
          exact absurd rfl ht
        | cons y late =>
          cases h
          exact ⟨late, m', early, rfl, hm, fun x hx => hlate x (List.mem_cons_of_mem _ hx)⟩
      · intro h
        obtain ⟨late, m', early, h, hm, hlate⟩ := h
        refine ⟨m :: late, m', early, congrArg (m :: ·) h, hm, fun x hx => ?_⟩
        rcases List.mem_cons.mp hx with rfl | hx
        · exact ht
        · exact hlate x hx
    rw [replay]
    cases hm : f m with
    | keep =>
      rw [passed (by rw [hm]; exact id)]
      rfl
    | put k' v' =>
      rw [edit, get_insert]
      by_cases e : k = k'
      · rw [if_pos e, touched (by rw [hm]; exact e.symm), hm]
        subst e
        simp
      · rw [if_neg e, passed (by rw [hm]; exact fun h => e h.symm)]
    | drop k' =>
      rw [edit, get_remove]
      by_cases e : k = k'
      · rw [if_pos e, touched (by rw [hm]; exact e.symm), hm]
        simp
      · rw [if_neg e, passed (by rw [hm]; exact fun h => e h.symm)]

end Dict

end Kaguya.Lib
