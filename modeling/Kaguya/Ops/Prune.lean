/-
  Kaguya.Ops.Prune — what the pruning step hands to `rm -rf`
  (`ls -1d "$backup_root"/*/ | sort | head -n "-$keep" | xargs -r rm -rf`). The pattern
  passes over names with a dot in front and takes symbolic links to directories too. The
  paths go through the pipe as lines of text, and `xargs` reads words.

  `prune_exact`: for all settings and whatever the backup root holds, the words are the
  paths of the directories that sort before the newest `keep`, and none is that of the
  backup just written, if the directory is `Tame`: those directories are listed, each path
  a line that `xargs` takes for one word, what else is listed sorts after them, as many
  lines as directories are beyond `keep`, and fewer than `keep` directories sort after the
  one just written. Where nothing but directories is listed, by names of one line, this is
  exactly when. (A link `\.old` beside a directory `.old` is read as the directory.)
  `stamped_newest`: a clock that goes forward by a second gives the last part.

  `prune_other` is a run under a backup root with a blank: it hands `rm -rf` a path that
  is not under the root.
-/

import Mathlib.Data.List.Perm.Subperm
import Kaguya.Ops.Runs

namespace Kaguya.Ops.Prune

open Kaguya.Lib
open Kaguya.Lib.Shell
open Kaguya.Ops.Update
open Kaguya.Ops.Runs

/-! ## The backup root -/

/-- What it holds: directories, and symbolic links to directories. -/
structure Entries where
  dirs : List String
  links : List String
  nodup : (dirs ++ links).Nodup
  slashless : ∀ name ∈ dirs ++ links, '/' ∉ name.toList

/-- A path as the pattern `"$backup_root"/*/` gives it. -/
def path (root name : String) : String := root ++ "/" ++ name ++ "/"

/-- The names that `*` stands for. -/
def shown (name : String) : Bool := name.toList.head? ≠ some '.'

def Entries.listed (e : Entries) : List String := (e.dirs ++ e.links).filter shown

def linesOf (s : String) : List String := (s.toList.splitOn '\n').map String.ofList

variable (root : String) (e : Entries) (keep : Nat) (new : String)

/-- The lines of what is listed. -/
def Entries.lines : List String := e.listed.flatMap fun name => linesOf (path root name)

/-- `keep` directories sort after it. -/
def Older (name : String) : Prop := keep ≤ e.dirs.countP fun n => path root name < path root n

instance (name : String) : Decidable (Older root e keep name) := inferInstanceAs (Decidable (_ ≤ _))

/-- The directories that sort before the newest `keep`. -/
def Entries.older : List String := e.dirs.filter fun name => Older root e keep name

/-- The words of the lines that are piped to `xargs`. -/
def words (lines : List String) : Option (List String) :=
  xargsWords none none (lines.flatMap fun line => line.toList ++ ['\n'])

/-- The words that commands hand to `rm -rf`. -/
def handed : List (At Cmd) → Option (List String)
  | [] => some []
  | ⟨.xargsRm lines, _⟩ :: cs => (words lines).bind fun ws => (handed cs).map (ws ++ ·)
  | _ :: cs => handed cs

/-- Pruned is what should be: what sorts before the newest `keep`, nothing outside the
    backup root (a link leads there), not the backup just written. -/
structure Exact (ws : List String) : Prop where
  older : ∀ name ∈ e.dirs, path root name ∈ ws ↔ Older root e keep name
  inside : ∀ w ∈ ws, ∃ name ∈ e.dirs, w = path root name
  newest : path root new ∉ ws

/-- A character that `xargs` takes for more than itself. -/
def Special (c : Char) : Prop := c = ' ' ∨ c = '\t' ∨ c = '\n' ∨ c = '\'' ∨ c = '"' ∨ c = '\\'

/-- White space that is passed over before a word. -/
def Skipped (c : Char) : Prop := c = '\r' ∨ c = '\x0b' ∨ c = '\x0c'

instance : DecidablePred Special := fun _ => inferInstanceAs (Decidable (_ ∨ _))
instance : DecidablePred Skipped := fun _ => inferInstanceAs (Decidable (_ ∨ _))

structure Plain (cs : List Char) : Prop where
  chars : ∀ c ∈ cs, ¬ Special c
  start : ∀ c ∈ cs.head?, ¬ Skipped c

theorem plain_iff {cs : List Char} :
    Plain cs ↔ (cs.all fun c => !decide (Special c)) = true ∧ (cs.head?.all fun c => !decide (Skipped c)) = true := by
  refine ⟨fun h => ⟨by simpa using h.chars, ?_⟩, fun h => ⟨by simpa using h.1, ?_⟩⟩
  · simpa [Option.all_eq_true] using h.start
  · simpa [Option.all_eq_true] using h.2

instance : DecidablePred Plain := fun _ => decidable_of_iff' _ plain_iff

structure Tame : Prop where
  listed : ∀ name ∈ e.older root keep, shown name = true
  plain : ∀ name ∈ e.older root keep, Plain (path root name).toList
  after : ∀ line ∈ e.lines root, (∃ name ∈ e.older root keep, line = path root name) ∨
    ∀ name ∈ e.older root keep, path root name < line
  count : (e.lines root).length - keep = e.dirs.length - keep
  newest : new ∉ e.older root keep

/-- Nothing but directories is listed, by names of one line. -/
def Usual : Prop := ∀ name ∈ e.listed, name ∈ e.dirs ∧ '\n' ∉ name.toList

variable {root e keep new}

theorem mem_older {name : String} : name ∈ e.older root keep ↔ name ∈ e.dirs ∧ Older root e keep name := by
  simp [Entries.older]

theorem path_injective {n₁ n₂ : String} (h : path root n₁ = path root n₂) : n₁ = n₂ := by
  have h := congrArg String.toList h
  simp only [path, String.toList_append, List.append_cancel_left_eq, List.append_cancel_right_eq] at h
  exact String.toList_injective h

theorem path_ne_nil (name : String) : (path root name).toList ≠ [] := by simp [path]

theorem path_flat {name : String} (hroot : '\n' ∉ root.toList) (hname : '\n' ∉ name.toList) :
    '\n' ∉ (path root name).toList := by
  simp [path, hroot, hname]

/-! ## What `sort` and `head` leave -/

/-- All but the last `keep` of a sorted list. -/
theorem mem_take_sorted {l : List String} (hs : l.Pairwise (· < ·)) (keep : Nat) (x : String) :
    x ∈ l.take (l.length - keep) ↔ x ∈ l ∧ keep ≤ l.countP fun y => x < y := by
  by_cases hx : x ∈ l
  · obtain ⟨a, b, rfl⟩ := List.append_of_mem hx
    obtain ⟨_, hb, ha⟩ := List.pairwise_append.mp hs
    have hsmall : a.countP (fun y => decide (x < y)) = 0 := by
      refine List.countP_eq_zero.mpr fun y hy h => ?_
      exact String.lt_irrefl y (String.lt_trans (ha y hy x List.mem_cons_self) (of_decide_eq_true h))
    have hlarge : b.countP (fun y => decide (x < y)) = b.length :=
      List.countP_eq_length.mpr fun y hy => decide_eq_true ((List.pairwise_cons.mp hb).1 y hy)
    have hself : decide (x < x) = false := decide_eq_false (String.lt_irrefl x)
    have hnot : x ∉ a := fun h => String.lt_irrefl x (ha x h x List.mem_cons_self)
    rw [List.countP_append, List.countP_cons, hsmall, hlarge, hself, List.take_append, List.length_append,
      List.length_cons]
    have hmem : x ∈ (x :: b).take (a.length + (b.length + 1) - keep - a.length) ↔ keep ≤ b.length := by
      by_cases hk : keep ≤ b.length
      · obtain ⟨n, hn⟩ := Nat.exists_eq_add_of_le (show 1 ≤ a.length + (b.length + 1) - keep - a.length by omega)
        rw [hn, Nat.add_comm, List.take_succ_cons]
        exact ⟨fun _ => hk, fun _ => List.mem_cons_self⟩
      · rw [show a.length + (b.length + 1) - keep - a.length = 0 by omega]
        simp [hk]
    rw [List.mem_append, hmem]
    refine ⟨fun h => ⟨hx, ?_⟩, fun h => Or.inr (by simpa using h.2)⟩
    rcases h with h | h
    · exact absurd (List.mem_of_mem_take h) hnot
    · simpa using h
  · exact ⟨fun h => absurd (List.mem_of_mem_take h) hx, fun h => absurd h.1 hx⟩

theorem sort_le {a b : String} : (!decide (b < a)) = true ↔ a ≤ b := by
  rw [Bool.not_eq_true', decide_eq_false_iff_not, String.not_lt]

/-- `sort` -/
abbrev sorted (l : List String) : List String := l.mergeSort fun a b => !decide (b < a)

theorem sorted_le (l : List String) : (sorted l).Pairwise (· ≤ ·) := by
  have htrans : ∀ a b c : String, (!decide (b < a)) = true → (!decide (c < b)) = true → (!decide (c < a)) = true :=
    fun _ _ _ hab hbc => sort_le.mpr (String.le_trans (sort_le.mp hab) (sort_le.mp hbc))
  have htotal : ∀ a b : String, ((!decide (b < a)) || !decide (a < b)) = true :=
    fun a b => (Bool.or_eq_true _ _).mpr ((String.le_total a b).imp sort_le.mpr sort_le.mpr)
  exact (List.pairwise_mergeSort htrans htotal l).imp sort_le.mp

theorem sorted_perm (l : List String) : (sorted l).Perm l := List.mergeSort_perm l _

theorem sorted_lt {l : List String} (h : l.Nodup) : (sorted l).Pairwise (· < ·) := by
  refine ((sorted_le l).and ((sorted_perm l).nodup_iff.mpr h)).imp fun hab => ?_
  exact String.not_le.mp fun hle => hab.2 (String.le_antisymm hab.1 hle)

/-- What sorts before the rest comes first. -/
theorem sorted_append {l a b : List String} (hl : l.Perm (a ++ b)) (hab : ∀ x ∈ a, ∀ y ∈ b, x < y) :
    sorted l = sorted a ++ sorted b := by
  have hle : (sorted a ++ sorted b).Pairwise (· ≤ ·) := by
    refine List.pairwise_append.mpr ⟨sorted_le a, sorted_le b, fun x hx y hy => ?_⟩
    exact String.not_lt.mp fun hlt =>
      String.lt_irrefl x (String.lt_trans (hab x ((sorted_perm a).mem_iff.mp hx) y ((sorted_perm b).mem_iff.mp hy)) hlt)
  refine List.Perm.eq_of_pairwise (fun _ _ _ _ => String.le_antisymm) (sorted_le l) hle ?_
  exact ((sorted_perm l).trans hl).trans ((sorted_perm a).append (sorted_perm b)).symm

theorem paths_nodup {names : List String} (h : names.Nodup) : (names.map (path root)).Nodup :=
  List.Pairwise.map _ (fun _ _ hne e => hne (path_injective e)) h

/-- Of the paths of some names, all but the last `keep`. -/
theorem mem_cut {names out : List String} (hn : names.Nodup) (hout : out.Perm (names.map (path root))) (w : String) :
    w ∈ (sorted out).take ((sorted out).length - keep) ↔
      ∃ name ∈ names, (keep ≤ names.countP fun n => path root name < path root n) ∧ w = path root name := by
  have hperm := (sorted_perm out).trans hout
  rw [mem_take_sorted (sorted_lt (hout.nodup_iff.mpr (paths_nodup hn))), hperm.mem_iff, hperm.countP_eq, List.countP_map]
  constructor
  · intro h
    obtain ⟨name, hname, rfl⟩ := List.mem_map.mp h.1
    exact ⟨name, hname, h.2, rfl⟩
  · intro h
    obtain ⟨name, hname, hold, rfl⟩ := h
    exact ⟨List.mem_map_of_mem hname, hold⟩

/-- A directory that is not older sorts after those that are. -/
theorem older_before {name m : String} (hname : name ∈ e.older root keep) (hm : m ∈ e.dirs) (hnew : m ∉ e.older root keep) :
    path root name < path root m := by
  refine String.not_le.mp fun hle => hnew (mem_older.mpr ⟨hm, ?_⟩)
  refine Nat.le_trans (mem_older.mp hname).2 (List.countP_mono_left fun n _ h => decide_eq_true ?_)
  have hlt := of_decide_eq_true h
  exact String.not_le.mp fun hn => String.not_le.mpr hlt (String.le_trans hn hle)

theorem dirs_nodup : e.dirs.Nodup := (List.nodup_append.mp e.nodup).1

theorem older_nodup : (e.older root keep).Nodup := dirs_nodup.filter _

/-- All directories but `keep` are older. -/
theorem older_length : (e.older root keep).length = e.dirs.length - keep := by
  have hnodup : (e.dirs.map (path root)).Nodup := paths_nodup dirs_nodup
  have hcut : ((sorted (e.dirs.map (path root))).take ((sorted (e.dirs.map (path root))).length - keep)).Perm
      ((e.older root keep).map (path root)) := by
    refine (List.perm_ext_iff_of_nodup ?_ (paths_nodup older_nodup)).mpr fun w => ?_
    · exact ((sorted_perm _).nodup_iff.mpr hnodup).sublist (List.take_sublist _ _)
    rw [mem_cut dirs_nodup (.refl _), List.mem_map]
    constructor
    · intro h
      obtain ⟨name, hname, hold, rfl⟩ := h
      exact ⟨name, mem_older.mpr ⟨hname, hold⟩, rfl⟩
    · intro h
      obtain ⟨name, hname, rfl⟩ := h
      exact ⟨name, (mem_older.mp hname).1, (mem_older.mp hname).2, rfl⟩
  have hlen := hcut.length_eq
  rw [List.length_take, List.length_map, (sorted_perm _).length_eq, List.length_map] at hlen
  omega

/-! ## Lines -/

theorem linesOf_flat {s : String} (h : '\n' ∉ s.toList) : linesOf s = [s] := by
  rw [linesOf, List.splitOn_eq_singleton h, List.map_singleton, String.ofList_toList]

theorem split_sublist {c : Char} {cs piece : List Char} (h : piece ∈ cs.splitOn c) : piece.Sublist cs := by
  induction cs generalizing piece with
  | nil =>
    rw [List.splitOn_nil, List.mem_singleton] at h
    exact h ▸ List.Sublist.refl _
  | cons x cs ih =>
    rw [List.splitOn_cons_eq_if_modifyHead] at h
    split at h
    · rcases List.mem_cons.mp h with rfl | h
      · exact List.nil_sublist _
      · exact (ih h).cons _
    · cases hs : cs.splitOn c with
      | nil => exact absurd hs (List.splitOn_ne_nil _ _)
      | cons p ps =>
        rw [hs] at h ih
        rcases List.mem_cons.mp h with rfl | h
        · exact (ih List.mem_cons_self).cons_cons _
        · exact (ih (List.mem_cons_of_mem _ h)).cons _

theorem slashes_path {name : String} (h : '/' ∉ name.toList) :
    (path root name).toList.count '/' = root.toList.count '/' + 2 := by
  simp [path, List.count_append, List.count_eq_zero.mpr h]

/-- A line of a path that is a path itself is all of it. -/
theorem path_of_line {n m : String} (hroot : '\n' ∉ root.toList) (hn : '/' ∉ n.toList) (hm : '/' ∉ m.toList)
    (h : path root n ∈ linesOf (path root m)) : n = m := by
  by_cases hflat : '\n' ∈ m.toList
  · obtain ⟨piece, hpiece, e⟩ := List.mem_map.mp h
    have hslashes : (path root n).toList.count '/' = root.toList.count '/' + 2 := slashes_path hn
    rw [← e, String.toList_ofList] at hslashes
    obtain ⟨f, g, hfg⟩ := List.append_of_mem hflat
    rw [hfg] at hm
    have hsplit : (path root m).toList = (root.toList ++ '/' :: f) ++ '\n' :: (g ++ ['/']) := by simp [path, hfg]
    rw [hsplit, List.splitOn_append_cons_self, List.mem_append] at hpiece
    -- before the line end there is no slash after the name, after it there is none but the last
    rcases hpiece with hpiece | hpiece
    · have hle := (split_sublist hpiece).count_le '/'
      have hf : f.count '/' = 0 := List.count_eq_zero.mpr fun hmem => hm (List.mem_append_left _ hmem)
      rw [List.count_append, List.count_cons_self, hf] at hle
      omega
    · have hle := (split_sublist hpiece).count_le '/'
      have hg : g.count '/' = 0 :=
        List.count_eq_zero.mpr fun hmem => hm (List.mem_append_right _ (List.mem_cons_of_mem _ hmem))
      rw [List.count_append, hg, List.count_singleton_self] at hle
      omega
  · rw [linesOf_flat (path_flat hroot hflat), List.mem_singleton] at h
    exact path_injective h

theorem usual_lines (hroot : '\n' ∉ root.toList) (hu : Usual e) : e.lines root = e.listed.map (path root) := by
  rw [Entries.lines, List.map_eq_flatMap]
  exact List.flatMap_congr fun name hname => linesOf_flat (path_flat hroot (hu name hname).2)

theorem listed_nodup : e.listed.Nodup := e.nodup.filter _

theorem listed_slashless {name : String} (h : name ∈ e.listed) : '/' ∉ name.toList :=
  e.slashless name (List.mem_filter.mp h).1

theorem older_slashless {name : String} (h : name ∈ e.older root keep) : '/' ∉ name.toList :=
  e.slashless name (List.mem_append_left _ (mem_older.mp h).1)

theorem Plain.flat {cs : List Char} (h : Plain cs) : '\n' ∉ cs := fun hc => h.chars _ hc (Or.inr (Or.inr (Or.inl rfl)))

/-- The paths of the older directories, and lines that sort after them. -/
theorem Tame.lines (hroot : '\n' ∉ root.toList) (ht : Tame root e keep new) :
    ∃ rest, (e.lines root).Perm ((e.older root keep).map (path root) ++ rest) ∧
      ∀ line ∈ rest, ∀ name ∈ e.older root keep, path root name < line := by
  let old : String → Bool := fun name => decide (name ∈ e.older root keep)
  have hold : (e.listed.filter old).Perm (e.older root keep) := by
    refine (List.perm_ext_iff_of_nodup (listed_nodup.filter _) older_nodup).mpr fun name => ?_
    rw [List.mem_filter]
    refine ⟨fun h => of_decide_eq_true h.2, fun h => ⟨List.mem_filter.mpr ⟨?_, ht.listed name h⟩, decide_eq_true h⟩⟩
    exact List.mem_append_left _ (mem_older.mp h).1
  have hpaths : (e.older root keep).flatMap (fun name => linesOf (path root name)) = (e.older root keep).map (path root) := by
    rw [List.map_eq_flatMap]
    exact List.flatMap_congr fun name hname => linesOf_flat (ht.plain name hname).flat
  refine ⟨(e.listed.filter fun name => !old name).flatMap fun name => linesOf (path root name), ?_, ?_⟩
  · rw [Entries.lines, ← hpaths]
    refine ((List.filter_append_perm old e.listed).flatMap_right _).symm.trans ?_
    rw [List.flatMap_append]
    exact (hold.flatMap_right _).append_right _
  · intro line hline
    obtain ⟨m, hm, hline⟩ := List.mem_flatMap.mp hline
    obtain ⟨hm, hnew⟩ := List.mem_filter.mp hm
    refine (ht.after line (List.mem_flatMap.mpr ⟨m, hm, hline⟩)).resolve_left fun hpath => ?_
    obtain ⟨name, hname, rfl⟩ := hpath
    have : name = m := path_of_line hroot (older_slashless hname) (listed_slashless hm) hline
    subst this
    simp [old, hname] at hnew

/-! ## What `xargs` reads -/

theorem read_char {word : Option (List Char)} {c : Char} (hc : ¬ Special c) (hskip : word = none → ¬ Skipped c)
    (cs : List Char) : xargsWords word none (c :: cs) = xargsWords (some (word.getD [] ++ [c])) none cs := by
  simp only [Special, not_or] at hc
  obtain ⟨hblank, htab, hline, hquote, hdouble, hslash⟩ := hc
  rw [xargsWords.eq_5 _ _ _ (fun _ _ e => absurd e hslash)]
  rw [if_neg (by simp [hquote, hdouble]), if_neg (by simp [hblank, htab, hline]), if_neg fun h => hskip h.1 h.2]

theorem read_plain {cs : List Char} (h : ∀ c ∈ cs, ¬ Special c) (w rest : List Char) :
    xargsWords (some w) none (cs ++ '\n' :: rest) = (xargsWords none none rest).map (String.ofList (w ++ cs) :: ·) := by
  induction cs generalizing w with
  | nil => simp [xargsWords]
  | cons c cs ih =>
    rw [List.cons_append, read_char (h c List.mem_cons_self) fun e => by cases e]
    rw [ih fun c hc => h c (List.mem_cons_of_mem _ hc)]
    simp

/-- A line without special characters is one word. -/
theorem read_line {cs : List Char} (h : Plain cs) (hne : cs ≠ []) (rest : List Char) :
    xargsWords none none (cs ++ '\n' :: rest) = (xargsWords none none rest).map (String.ofList cs :: ·) := by
  obtain ⟨c, cs, rfl⟩ := List.exists_cons_of_ne_nil hne
  rw [List.cons_append, read_char (h.chars c List.mem_cons_self) fun _ => h.start c rfl]
  exact read_plain (fun c hc => h.chars c (List.mem_cons_of_mem _ hc)) [c] rest

/-- The characters but the line ends. -/
def size (cs : List Char) : Nat := cs.countP (· ≠ '\n')

def total (ws : List String) : Nat := size (ws.flatMap String.toList)

@[simp] theorem size_nil : size [] = 0 := rfl
@[simp] theorem size_append (a b : List Char) : size (a ++ b) = size a + size b := List.countP_append
@[simp] theorem size_end (cs : List Char) : size ('\n' :: cs) = size cs := by simp [size]
theorem total_cons (w : String) (ws : List String) : total (w :: ws) = size w.toList + total ws := by simp [total]

/-- The word so far and one more character. -/
theorem size_snoc (word : List Char) (c : Char) : size (word ++ [c]) = size word + size [c] := size_append word [c]

theorem size_split (c : Char) (cs : List Char) : size (c :: cs) = size [c] + size cs := size_append [c] cs

/-- The words of what follows a blank, after the word so far. -/
theorem total_next {word : Option (List Char)} {rest : Option (List String)} {ws : List String}
    (h : rest.map (fun ws => word.elim ws fun w => String.ofList w :: ws) = some ws) :
    ∃ ws', rest = some ws' ∧ total ws = size (word.getD []) + total ws' := by
  obtain ⟨ws', hrest, rfl⟩ := Option.map_eq_some_iff.mp h
  refine ⟨ws', hrest, ?_⟩
  cases word with
  | none => simp
  | some w => simp [total_cons]

/-- Reading adds no character to what it reads. -/
theorem read_le {word : Option (List Char)} {quote : Option Char} {cs : List Char} {ws : List String}
    (h : xargsWords word quote cs = some ws) : total ws ≤ size (word.getD []) + size cs := by
  fun_induction xargsWords word quote cs generalizing ws with
  | case1 word =>
    cases h
    cases word <;> simp [total]
  | case2 => cases h
  | case3 => cases h
  | case4 word c cs _ ih =>
    have := ih h
    have := size_split c cs
    omega
  | case5 word q c cs _ _ ih =>
    have := ih h
    have := size_split c cs
    have := size_snoc (word.getD []) c
    simp only [Option.getD_some] at *
    omega
  | case6 word c cs ih =>
    have := ih h
    have := size_split c cs
    have := size_split '\\' (c :: cs)
    have := size_snoc (word.getD []) c
    simp only [Option.getD_some] at *
    omega
  | case7 word c cs _ _ ih =>
    have := ih h
    have := size_split c cs
    simp only [Option.getD_some] at *
    omega
  | case8 word c cs _ _ _ ih =>
    obtain ⟨ws', hrest, htotal⟩ := total_next h
    have := ih hrest
    have := size_split c cs
    simp only [Option.getD_none, size_nil] at *
    omega
  | case9 word c cs _ _ _ hskip ih =>
    have := ih h
    have := size_split c cs
    simp only [Option.getD_none, size_nil] at *
    omega
  | case10 word c cs _ _ _ _ ih =>
    have := ih h
    have := size_split c cs
    have := size_snoc (word.getD []) c
    simp only [Option.getD_some] at *
    omega

theorem size_one {c : Char} (hc : c ≠ '\n') : size [c] = 1 := by simp [size, hc]

/-- A special character is lost, or the line end after a backslash is not counted. -/
theorem read_special {word : Option (List Char)} {c : Char} {cs : List Char} {ws : List String} (hc : Special c)
    (hline : c ≠ '\n') (hne : cs ≠ []) (h : xargsWords word none (c :: cs) = some ws) :
    total ws < size (word.getD []) + size (c :: cs) := by
  have hsize := size_split c cs
  rw [size_one hline] at hsize
  by_cases hslash : c = '\\'
  · obtain ⟨d, cs, rfl⟩ := List.exists_cons_of_ne_nil hne
    rw [hslash, xargsWords.eq_4] at h
    have := read_le h
    rw [Option.getD_some, size_snoc] at this
    have := size_split d cs
    omega
  rw [xargsWords.eq_5 _ _ _ fun _ _ e => absurd e hslash] at h
  by_cases hquote : c = '\'' ∨ c = '"'
  · rw [if_pos hquote] at h
    have := read_le h
    rw [Option.getD_some] at this
    omega
  rw [if_neg hquote] at h
  have hblank : c = ' ' ∨ c = '\t' ∨ c = '\n' := by
    rcases hc with hc | hc | hc | hc | hc | hc
    · exact Or.inl hc
    · exact Or.inr (Or.inl hc)
    · exact absurd hc hline
    · exact absurd (Or.inl hc) hquote
    · exact absurd (Or.inr hc) hquote
    · exact absurd hc hslash
  rw [if_pos hblank] at h
  obtain ⟨ws', hrest, htotal⟩ := total_next h
  have := read_le hrest
  rw [Option.getD_none, size_nil] at this
  omega

/-- So is white space before a word. -/
theorem read_skipped {c : Char} {cs : List Char} {ws : List String} (hc : Skipped c)
    (h : xargsWords none none (c :: cs) = some ws) :
    total ws < size (c :: cs) := by
  have hline : c ≠ '\n' := by rcases hc with rfl | rfl | rfl <;> decide
  have hsize := size_split c cs
  rw [size_one hline] at hsize
  have hread : xargsWords none none (c :: cs) = xargsWords none none cs := by
    rcases hc with rfl | rfl | rfl <;> simp [xargsWords]
  rw [hread] at h
  have := read_le h
  rw [Option.getD_none, size_nil] at this
  omega

/-- A line with a special character loses some. -/
theorem read_lt {word : Option (List Char)} {cs rest : List Char} {ws : List String} (hcs : '\n' ∉ cs)
    (h : xargsWords word none (cs ++ '\n' :: rest) = some ws) :
    ((∀ c ∈ cs, ¬ Special c) ∧ (word = none → ∀ c ∈ cs.head?, ¬ Skipped c)) ∨
      total ws < size (word.getD []) + size cs + size rest := by
  induction cs generalizing word with
  | nil => exact Or.inl ⟨fun c hc => (by cases hc), fun _ c hc => by cases hc⟩
  | cons c cs ih =>
    obtain ⟨hc, hcs⟩ := not_or.mp fun h => hcs (List.mem_cons.mpr h)
    have hsize : size (cs ++ '\n' :: rest) = size cs + size rest := by simp
    have hsplit := size_split c cs
    rw [size_one (Ne.symm hc)] at hsplit
    rw [List.cons_append] at h
    have hall := size_split c (cs ++ '\n' :: rest)
    rw [size_one (Ne.symm hc)] at hall
    by_cases hspecial : Special c
    · have := read_special hspecial (Ne.symm hc) (by simp) h
      exact Or.inr (by omega)
    by_cases hskip : word = none ∧ Skipped c
    · obtain ⟨rfl, hskip⟩ := hskip
      have := read_skipped hskip h
      rw [Option.getD_none, size_nil]
      exact Or.inr (by omega)
    have hstart : word = none → ¬ Skipped c := fun hw hs => hskip ⟨hw, hs⟩
    rw [read_char hspecial hstart] at h
    rcases ih hcs h with hplain | hlt
    · refine Or.inl ⟨fun d hd => ?_, fun hw d hd => ?_⟩
      · rcases List.mem_cons.mp hd with rfl | hd
        · exact hspecial
        · exact hplain.1 d hd
      · cases hd
        exact hstart hw
    · rw [Option.getD_some, size_snoc, size_one (Ne.symm hc)] at hlt
      exact Or.inr (by omega)

/-! ## The lines -/

theorem words_cons (line : String) (lines : List String) :
    words (line :: lines) = xargsWords none none (line.toList ++ '\n' :: lines.flatMap fun line => line.toList ++ ['\n']) := by
  simp [words]

theorem size_lines (lines : List String) : size (lines.flatMap fun line => line.toList ++ ['\n']) = total lines := by
  induction lines with
  | nil => rfl
  | cons line lines ih =>
    rw [List.flatMap_cons, size_append, size_append, ih, total_cons]
    simp

/-- Lines without special characters are the words. -/
theorem words_plain {lines : List String} (h : ∀ line ∈ lines, Plain line.toList ∧ line.toList ≠ []) :
    words lines = some lines := by
  induction lines with
  | nil => simp [words, xargsWords]
  | cons line lines ih =>
    have hline := h line List.mem_cons_self
    rw [words_cons, read_line hline.1 hline.2, ← words, ih fun l hl => h l (List.mem_cons_of_mem _ hl)]
    simp

/-- Lines of which nothing is lost have no special characters. -/
theorem plain_of_total {lines ws : List String} (h : words lines = some ws) (htotal : total lines ≤ total ws)
    (hflat : ∀ line ∈ lines, '\n' ∉ line.toList ∧ line.toList ≠ []) : ∀ line ∈ lines, Plain line.toList := by
  induction lines generalizing ws with
  | nil => exact fun line hline => by cases hline
  | cons line lines ih =>
    obtain ⟨hline, hne⟩ := hflat line List.mem_cons_self
    rw [words_cons] at h
    rw [total_cons] at htotal
    rcases read_lt hline h with hplain | hlt
    · have hplain : Plain line.toList := ⟨hplain.1, hplain.2 rfl⟩
      rw [read_line hplain hne, ← words] at h
      obtain ⟨ws', hrest, rfl⟩ := Option.map_eq_some_iff.mp h
      rw [total_cons, String.toList_ofList] at htotal
      intro l hl
      rcases List.mem_cons.mp hl with rfl | hl
      · exact hplain
      · exact ih hrest (by omega) (fun l hl => hflat l (List.mem_cons_of_mem _ hl)) l hl
    · rw [size_lines, Option.getD_none, size_nil] at hlt
      omega

theorem total_sublist {l ws : List String} (h : l.Sublist ws) : total l ≤ total ws := by
  induction h with
  | slnil => exact Nat.le_refl _
  | cons w _ ih =>
    rw [total_cons]
    omega
  | cons_cons w _ ih =>
    rw [total_cons, total_cons]
    omega

theorem total_perm {l ws : List String} (h : l.Perm ws) : total l = total ws := (h.flatMap_right String.toList).countP_eq _

theorem total_subset {l ws : List String} (h : l.Nodup) (hsub : l ⊆ ws) : total l ≤ total ws := by
  obtain ⟨l', hperm, hsublist⟩ := h.subperm hsub
  exact total_perm hperm ▸ total_sublist hsublist

/-- A list of some of the words that has as much is all of them. -/
theorem sublist_eq {l ws : List String} (h : l.Sublist ws) (hsize : ∀ w ∈ ws, 0 < size w.toList)
    (htotal : total ws ≤ total l) : l = ws := by
  induction h with
  | slnil => rfl
  | cons w h _ =>
    have := hsize w List.mem_cons_self
    have := total_sublist h
    rw [total_cons] at htotal
    omega
  | cons_cons w _ ih =>
    rw [total_cons, total_cons] at htotal
    rw [ih (fun w hw => hsize w (List.mem_cons_of_mem _ hw)) (by omega)]

theorem subset_perm {l ws : List String} (h : l.Nodup) (hsub : l ⊆ ws) (hsize : ∀ w ∈ ws, 0 < size w.toList)
    (htotal : total ws ≤ total l) : l.Perm ws := by
  obtain ⟨l', hperm, hsublist⟩ := h.subperm hsub
  have hall := sublist_eq hsublist hsize (total_perm hperm ▸ htotal)
  exact hall ▸ hperm.symm

theorem size_path (name : String) : 0 < size (path root name).toList := by
  have hslash : size ['/'] = 1 := rfl
  rw [path, String.toList_append, size_append, show "/".toList = ['/'] from rfl, hslash]
  omega

/-! ## The pruning -/

/-- The lines that the pruning pipes to `xargs`. -/
def pruned (c : Config) (out : List String) : List String := headBut c.keep (sorted out)

theorem prune_eq (c : Config) (ign : Bool) : prune c ign = .call ⟨.ls c.backupRoot, false⟩ fun b =>
    .call ⟨.xargsRm (pruned c b.2), !ign⟩ fun b' => .ret (if b'.1 = 0 ∨ ign = true then .done b'.1 else .exited b'.1) := by
  refine congrArg (Prog.call _) (funext fun b => congrArg (Prog.call _) (funext fun b' => ?_))
  dsimp only
  by_cases hb : b'.1 = 0 ∨ ign = true
  · rw [if_pos hb, if_pos hb]
    rfl
  · rw [if_neg hb, if_neg hb]
    rfl

theorem prune_handed {σ : Type} {h : (c : At Cmd) → σ → Option (Ans Cmd.Out c) × σ} {c : Config} {ign : Bool} {s s' : σ}
    {b : Nat × List String} (hls : h ⟨.ls c.backupRoot, false⟩ s = (some b, s')) :
    handed ((prune c ign).calls h s) = words (pruned c b.2) := by
  rw [prune_eq, Prog.calls_call_some h hls, handed, Prog.calls]
  · rcases h ⟨.xargsRm (pruned c b.2), !ign⟩ s' with ⟨_ | b', s''⟩
    · simp [handed]
    · simp [handed, Prog.calls]
  · exact fun lines plain e => by cases e

/-! ## The newest backup -/

theorem append_lt_append {a b : List Char} (hlen : a.length = b.length) (h : a < b) (x y : List Char) : a ++ x < b ++ y := by
  induction a generalizing b with
  | nil => cases b with
    | nil => exact absurd h (List.lt_irrefl [])
    | cons d b => cases hlen
  | cons c a ih => cases b with
    | nil => cases hlen
    | cons d b =>
      rw [List.cons_append, List.cons_append, List.cons_lt_cons_iff]
      rcases List.cons_lt_cons_iff.mp h with hlt | ⟨rfl, hlt⟩
      · exact Or.inl hlt
      · exact Or.inr ⟨rfl, ih (Nat.succ_inj.mp hlen) hlt⟩

/-- Of backups named by their stamps, one with a later stamp than the others is not pruned. -/
theorem stamped_newest {stamp rev : String → String} (hnames : ∀ name ∈ e.dirs, name = stamp name ++ "-" ++ rev name)
    (hlen : ∀ name ∈ e.dirs, (stamp name).toList.length = (stamp new).toList.length)
    (hclock : ∀ name ∈ e.dirs, name = new ∨ stamp name < stamp new) (hnew : new ∈ e.dirs) (hkeep : 1 ≤ keep) :
    ¬ Older root e keep new := by
  have hlast : ∀ name ∈ e.dirs, ¬ path root new < path root name := by
    intro name hname hlt
    rcases hclock name hname with rfl | hearlier
    · exact String.lt_irrefl _ hlt
    · refine String.lt_irrefl _ (String.lt_trans hlt (String.lt_iff.mpr ?_))
      rw [path, path, hnames name hname, hnames new hnew]
      simp only [String.toList_append, List.append_assoc]
      exact List.append_left_lt (List.append_left_lt
        (append_lt_append (hlen name hname) (String.lt_iff.mp hearlier) _ _))
  have hnone : e.dirs.countP (fun n => decide (path root new < path root n)) = 0 :=
    List.countP_eq_zero.mpr fun name hname h => hlast name hname (of_decide_eq_true h)
  intro hold
  rw [Older, hnone] at hold
  omega

/-! ## What `.env` can set -/

theorem unquote_mem {c : Char} {val : List Char} (h : c ∈ unquote val) : c ∈ val := by
  unfold unquote at h
  split at h
  · split at h
    · exact List.mem_cons_of_mem _ (List.mem_of_mem_dropLast h)
    · exact h
  · exact h

theorem envLine_mem {line key val : String} (h : envLine line = some (key, val)) {c : Char} (hc : c ∈ val.toList) :
    c ∈ line.toList := by
  unfold envLine at h
  split at h
  · cases h
  · cases h
  · cases h
    rw [String.toList_ofList] at hc
    have hval := unquote_mem hc
    split at hval
    · exact List.mem_of_mem_drop hval
    · exact hval

/-- A variable is as the environment had it, or its value is from a line. -/
theorem exported {lines : List String} {env env' : Environ} (h : exportLines lines env = some env') {key val : String}
    (hval : env' key = some val) : env key = some val ∨ ∃ line ∈ lines, ∀ c ∈ val.toList, c ∈ line.toList := by
  induction lines generalizing env with
  | nil =>
    cases h
    exact Or.inl hval
  | cons line lines ih =>
    unfold exportLines at h
    split at h
    · exact (ih h).imp_right fun ⟨l, hl, hc⟩ => ⟨l, List.mem_cons_of_mem _ hl, hc⟩
    · next k v hline =>
      split at h
      · rcases ih h with hkey | ⟨l, hl, hc⟩
        · unfold Environ.set at hkey
          split at hkey
          · cases hkey
            exact Or.inr ⟨line, List.mem_cons_self, fun c hc => envLine_mem hline hc⟩
          · exact Or.inl hkey
        · exact Or.inr ⟨l, List.mem_cons_of_mem _ hl, hc⟩
      · cases h

/-- Settings as the lines of `.env` can give them, over an environment whose backup
    directory is one line too. -/
def Readable (c : Config) : Prop := ∃ lines env, (∀ line ∈ lines, '\n' ∉ line.toList) ∧
  (∀ dir, env "UPDATE_BACKUP_DIR" = some dir → '\n' ∉ dir.toList) ∧ exportLines lines env = some c.env

theorem backupRoot_flat {c : Config} (h : Readable c) : '\n' ∉ c.backupRoot.toList := by
  obtain ⟨lines, env, hlines, henv, hexport⟩ := h
  rw [Config.backupRoot, Config.get]
  cases hdir : (c.env "UPDATE_BACKUP_DIR").filter (!·.isEmpty) with
  | none => decide
  | some dir =>
    rw [Option.getD_some]
    have hset : c.env "UPDATE_BACKUP_DIR" = some dir := (Option.filter_eq_some_iff.mp hdir).1
    rcases exported hexport hset with hsame | ⟨line, hline, hmem⟩
    · exact henv dir hsame
    · exact fun hc => hlines line hline (hmem _ hc)

/-! ## Exactly when -/

section Pruned

variable {c : Config} {out : List String} (hkeep : number c.keep = some keep)
include hkeep

theorem pruned_take : pruned c out = (sorted out).take ((sorted out).length - keep) := by
  rw [pruned, headBut, hkeep]
  rfl

variable (hc : Readable c)
include hc

/-- Of a tame directory the lines of the older directories are passed on. -/
theorem pruned_tame (hout : out.Perm (e.lines c.backupRoot)) (ht : Tame c.backupRoot e keep new) :
    pruned c out = sorted ((e.older c.backupRoot keep).map (path c.backupRoot)) := by
  obtain ⟨rest, hlines, hafter⟩ := ht.lines (backupRoot_flat hc)
  have hsort := sorted_append (hout.trans hlines) fun x hx y hy => by
    obtain ⟨name, hname, rfl⟩ := List.mem_map.mp hx
    exact hafter y hy name hname
  rw [pruned_take hkeep, (sorted_perm out).length_eq, hout.length_eq, ht.count, hsort]
  refine List.take_left' ?_
  rw [(sorted_perm _).length_eq, List.length_map, older_length]

/-- Where nothing but directories is listed, what is passed on are lines of older ones. -/
theorem pruned_usual (hout : out.Perm (e.lines c.backupRoot)) (hu : Usual e) :
    (pruned c out).Nodup ∧ (pruned c out).length = e.listed.length - keep ∧
      ∀ w ∈ pruned c out, ∃ name ∈ e.older c.backupRoot keep, name ∈ e.listed ∧ w = path c.backupRoot name := by
  rw [usual_lines (backupRoot_flat hc) hu] at hout
  have hnodup := hout.nodup_iff.mpr (paths_nodup listed_nodup)
  rw [pruned_take hkeep]
  refine ⟨((sorted_perm out).nodup_iff.mpr hnodup).sublist (List.take_sublist _ _), ?_, fun w hw => ?_⟩
  · rw [List.length_take, (sorted_perm out).length_eq, hout.length_eq, List.length_map]
    omega
  · obtain ⟨name, hname, hcount, rfl⟩ := (mem_cut listed_nodup hout w).mp hw
    have hsub : e.listed.Subperm e.dirs := listed_nodup.subperm fun n hn => (hu n hn).1
    exact ⟨name, mem_older.mpr ⟨(hu name hname).1, Nat.le_trans hcount (hsub.countP_le _)⟩, hname, rfl⟩

theorem exact_of_tame (hout : out.Perm (e.lines c.backupRoot)) (ht : Tame c.backupRoot e keep new) :
    ∃ ws, words (pruned c out) = some ws ∧ Exact c.backupRoot e keep new ws := by
  have hmem : ∀ w, w ∈ pruned c out ↔ ∃ name ∈ e.older c.backupRoot keep, w = path c.backupRoot name := by
    intro w
    rw [pruned_tame hkeep hc hout ht, (sorted_perm _).mem_iff, List.mem_map]
    exact exists_congr fun name => and_congr_right fun _ => eq_comm
  refine ⟨pruned c out, words_plain fun line hline => ?_, fun name hname => ?_, fun w hw => ?_, fun hold => ?_⟩
  · obtain ⟨name, hname, rfl⟩ := (hmem line).mp hline
    exact ⟨ht.plain name hname, path_ne_nil name⟩
  · rw [hmem]
    refine ⟨fun h => ?_, fun hold => ⟨name, mem_older.mpr ⟨hname, hold⟩, rfl⟩⟩
    obtain ⟨name', hname', e⟩ := h
    exact path_injective e ▸ (mem_older.mp hname').2
  · obtain ⟨name, hname, rfl⟩ := (hmem w).mp hw
    exact ⟨name, (mem_older.mp hname).1, rfl⟩
  · obtain ⟨name, hname, e⟩ := (hmem _).mp hold
    exact ht.newest (path_injective e ▸ hname)

theorem tame_of_exact (hout : out.Perm (e.lines c.backupRoot)) (hnew : new ∈ e.dirs) (hu : Usual e) {ws : List String}
    (hw : words (pruned c out) = some ws) (hexact : Exact c.backupRoot e keep new ws) : Tame c.backupRoot e keep new := by
  obtain ⟨hnodup, hlen, hlines⟩ := pruned_usual hkeep hc hout hu
  have hflat : ∀ line ∈ pruned c out, '\n' ∉ line.toList ∧ line.toList ≠ [] := by
    intro line hline
    obtain ⟨name, _, hname, rfl⟩ := hlines line hline
    exact ⟨path_flat (backupRoot_flat hc) (hu name hname).2, path_ne_nil name⟩
  -- the words are read from the lines, and the paths of all older directories are among them
  have hread : total ws ≤ total (pruned c out) := by
    have := read_le hw
    rwa [size_lines, Option.getD_none, size_nil, Nat.zero_add] at this
  have hpaths : total ((e.older c.backupRoot keep).map (path c.backupRoot)) ≤ total ws := by
    refine total_subset (paths_nodup older_nodup) fun w hw => ?_
    obtain ⟨name, hname, rfl⟩ := List.mem_map.mp hw
    exact (hexact.older name (mem_older.mp hname).1).mpr (mem_older.mp hname).2
  have hperm : (pruned c out).Perm ((e.older c.backupRoot keep).map (path c.backupRoot)) := by
    refine subset_perm hnodup (fun w hw => ?_) (fun w hw => ?_) (Nat.le_trans hpaths hread)
    · obtain ⟨name, hname, _, rfl⟩ := hlines w hw
      exact List.mem_map_of_mem hname
    · obtain ⟨name, _, rfl⟩ := List.mem_map.mp hw
      exact size_path name
  have hmem : ∀ name ∈ e.older c.backupRoot keep, path c.backupRoot name ∈ pruned c out := fun name hname =>
    hperm.mem_iff.mpr (List.mem_map_of_mem hname)
  have hplain := plain_of_total hw (total_perm hperm ▸ hpaths) hflat
  have hcount : (e.lines c.backupRoot).length = e.listed.length := by
    rw [usual_lines (backupRoot_flat hc) hu, List.length_map]
  refine ⟨fun name hname => ?_, fun name hname => hplain _ (hmem name hname), fun line hline => ?_, ?_, fun hold => ?_⟩
  · obtain ⟨name', _, hlisted, e⟩ := hlines _ (hmem name hname)
    rw [path_injective e]
    exact (List.mem_filter.mp hlisted).2
  · rw [usual_lines (backupRoot_flat hc) hu] at hline
    obtain ⟨m, hm, rfl⟩ := List.mem_map.mp hline
    by_cases hold : m ∈ e.older c.backupRoot keep
    · exact Or.inl ⟨m, hold, rfl⟩
    · exact Or.inr fun name hname => older_before hname (hu m hm).1 hold
  · rw [hcount, ← hlen, hperm.length_eq, List.length_map, older_length]
  · exact hexact.newest ((hexact.older new hnew).mpr (mem_older.mp hold).2)

end Pruned

/-- What the pruning hands to `rm -rf`. -/
theorem prune_exact {σ : Type} {h : (c : At Cmd) → σ → Option (Ans Cmd.Out c) × σ} {c : Config} {ign : Bool} {s s' : σ}
    {b : Nat × List String} {e : Entries} {keep : Nat} {new : String} (hc : Readable c) (hkeep : number c.keep = some keep)
    (hls : h ⟨.ls c.backupRoot, false⟩ s = (some b, s')) (hout : b.2.Perm (e.lines c.backupRoot)) (hnew : new ∈ e.dirs) :
    (Tame c.backupRoot e keep new →
      ∃ ws, handed ((prune c ign).calls h s) = some ws ∧ Exact c.backupRoot e keep new ws) ∧
    (Usual e → (∃ ws, handed ((prune c ign).calls h s) = some ws ∧ Exact c.backupRoot e keep new ws) →
      Tame c.backupRoot e keep new) := by
  rw [prune_handed hls]
  refine ⟨exact_of_tame hkeep hc hout, fun hu hw => ?_⟩
  obtain ⟨ws, hw, hexact⟩ := hw
  exact tame_of_exact hkeep hc hout hnew hu hw hexact

/-! ## Two hosts -/

/-- A `.env` that gives the backup directory and keeps one backup. -/
def envFile (dir : String) : List String := ["UPDATE_BACKUP_DIR=" ++ dir, "UPDATE_BACKUP_KEEP=1"]

def settings (dir : String) : Config := ⟨(exportLines (envFile dir) fun _ => none).getD fun _ => none⟩

theorem settings_readable {dir : String} (hdir : '\n' ∉ dir.toList)
    (h : (exportLines (envFile dir) fun _ => none).isSome = true) : Readable (settings dir) := by
  have hlines : ∀ line ∈ envFile dir, '\n' ∉ line.toList := by simp [envFile, hdir]
  obtain ⟨env, henv⟩ := Option.isSome_iff_exists.mp h
  refine ⟨envFile dir, fun _ => none, hlines, fun _ e => (by cases e), ?_⟩
  rw [settings, henv, Option.getD_some]

/-- A host where `ls` prints `out` and nothing fails. -/
def listing (out : List String) (c : At Cmd) (s : Unit) : Option (Ans Cmd.Out c) × Unit :=
  match c with
  | ⟨.ls _, _⟩ => (some (0, out), s)
  | ⟨.xargsRm _, _⟩ => (some (0, ()), s)
  | _ => (none, s)

/-- A backup of a year ago and the one just written. -/
def yearly : Entries := ⟨["20250101T030000Z-a", "20260101T030000Z-b"], [], by decide, by decide⟩

theorem yearly_tame : Tame "/srv/backups" yearly 1 "20260101T030000Z-b" := by
  have hold : yearly.older "/srv/backups" 1 = ["20250101T030000Z-a"] := by decide
  refine ⟨?_, ?_, ?_, by decide, by rw [hold]; decide⟩
  all_goals rw [hold]
  · decide
  · rw [List.forall_mem_singleton]
    decide
  · decide

theorem prune_exact_yearly : ∃ ws, handed ((prune (settings "/srv/backups") false).calls
      (listing (yearly.lines "/srv/backups")) ()) = some ws ∧ Exact "/srv/backups" yearly 1 "20260101T030000Z-b" ws :=
  (prune_exact (c := settings "/srv/backups") (settings_readable (by decide) (by decide)) (by decide) rfl (.refl _)
    (by decide)).1 yearly_tame

/-- With a blank in the backup root, `rm -rf` is handed a directory outside it. -/
theorem prune_other : ¬ ∀ (h : (c : At Cmd) → Unit → Option (Ans Cmd.Out c) × Unit) (c : Config) (b : Nat × List String)
    (e : Entries) (keep : Nat) (new : String), Readable c → number c.keep = some keep → 1 ≤ keep →
    h ⟨.ls c.backupRoot, false⟩ () = (some b, ()) → b.2.Perm (e.lines c.backupRoot) → new ∈ e.dirs →
    (∀ name ∈ e.dirs, name = new ∨ name < new) →
    ∃ ws, handed ((prune c false).calls h ()) = some ws ∧ Exact c.backupRoot e keep new ws := by
  intro hall
  obtain ⟨ws, hw, hexact⟩ := hall (listing (yearly.lines "/srv/my backups")) (settings "/srv/my backups") _ yearly 1
    "20260101T030000Z-b" (settings_readable (by decide) (by decide)) (by decide) (by decide) rfl (.refl _) (by decide)
    (by decide)
  rw [prune_handed (b := (0, yearly.lines "/srv/my backups")) rfl, pruned, sorted,
    List.mergeSort_of_pairwise (by decide)] at hw
  have hwords : words (headBut (settings "/srv/my backups").keep (yearly.lines "/srv/my backups")) =
      some ["/srv/my", "backups/20250101T030000Z-a/"] := by decide
  rw [hwords] at hw
  cases hw
  have hother : ∀ name ∈ yearly.dirs, "/srv/my" ≠ path "/srv/my backups" name := by decide
  obtain ⟨name, hname, e⟩ := hexact.inside "/srv/my" (by decide)
  exact hother name hname e

end Kaguya.Ops.Prune
