/-
  Kaguya.Lib.Json — JSON texts (RFC 8259). A value is written without white space, its
  strings with the escapes that must be (`render`), and read with white space wherever the
  grammar has it (`parse`). A number is kept as it is written.

  A reader's strings are code units of its own (`Units`): characters, or the halves of
  UTF-16 that `\u` escapes give. What is written is read back, whatever it is read into
  (`parse_render`).
-/

import Mathlib.Data.List.TakeWhile

namespace Kaguya.Lib.Json

/-! ## Values -/

def isDigit (c : Char) : Bool := '0' ≤ c && c ≤ '9'

/-- A character that numbers are written with. -/
def numChar (c : Char) : Bool := isDigit c || ['-', '+', '.', 'e', 'E'].contains c

def isExponent : List Char → Bool
  | [] => true
  | c :: rest =>
    let rest := match rest with
      | '+' :: rest | '-' :: rest => rest
      | rest => rest
    (c = 'e' || c = 'E') && !rest.isEmpty && rest.all isDigit

def isFraction : List Char → Bool
  | '.' :: c :: rest => isDigit c && isExponent (rest.dropWhile isDigit)
  | rest => isExponent rest

def isNumber (l : List Char) : Bool :=
  let l := match l with
    | '-' :: rest => rest
    | rest => rest
  match l with
  | [] => false
  | '0' :: rest => isFraction rest
  | c :: rest => isDigit c && isFraction (rest.dropWhile isDigit)

/-- A number as it is written. -/
structure Number where
  lexeme : List Char
  chars : ∀ c ∈ lexeme, numChar c = true
  ok : isNumber lexeme = true

/-- A JSON value with strings of the type `σ`. -/
inductive Value (σ : Type) where
  | null
  | bool (b : Bool)
  | num (n : Number)
  | str (s : σ)
  | arr (l : List (Value σ))
  | obj (l : List (σ × Value σ))

section Map

variable {σ τ : Type} (f : σ → τ)

mutual

def Value.map : Value σ → Value τ
  | .null => .null
  | .bool b => .bool b
  | .num n => .num n
  | .str s => .str (f s)
  | .arr l => .arr (mapElems l)
  | .obj l => .obj (mapMembers l)

def mapElems : List (Value σ) → List (Value τ)
  | [] => []
  | v :: l => v.map :: mapElems l

def mapMembers : List (σ × Value σ) → List (τ × Value τ)
  | [] => []
  | (s, v) :: l => (f s, v.map) :: mapMembers l

end

theorem mapElems_eq (l : List (Value σ)) : mapElems f l = l.map (Value.map f) := by
  induction l with
  | nil => rfl
  | cons v l ih => rw [mapElems, ih, List.map_cons]

end Map

/-! ## Writing -/

def hexDigit (n : Nat) : Char := Nat.digitChar n

/-- The escapes that must be: quote, backslash and control characters. -/
def escape (c : Char) : List Char :=
  if c = '"' then ['\\', '"']
  else if c = '\\' then ['\\', '\\']
  else if c = '\x08' then ['\\', 'b']
  else if c = '\t' then ['\\', 't']
  else if c = '\n' then ['\\', 'n']
  else if c = '\x0c' then ['\\', 'f']
  else if c = '\r' then ['\\', 'r']
  else if c.toNat < 0x20 then ['\\', 'u', '0', '0', hexDigit (c.toNat / 16), hexDigit (c.toNat % 16)]
  else [c]

def quote (s : List Char) : List Char := '"' :: (s.flatMap escape ++ ['"'])

mutual

def render : Value (List Char) → List Char
  | .null => ['n', 'u', 'l', 'l']
  | .bool true => ['t', 'r', 'u', 'e']
  | .bool false => ['f', 'a', 'l', 's', 'e']
  | .num n => n.lexeme
  | .str s => quote s
  | .arr [] => ['[', ']']
  | .arr (v :: l) => '[' :: (render v ++ renderElems l)
  | .obj [] => ['\x7b', '\x7d']
  | .obj ((s, v) :: l) => '\x7b' :: (quote s ++ ':' :: (render v ++ renderMembers l))

/-- The elements after the first, and the bracket. -/
def renderElems : List (Value (List Char)) → List Char
  | [] => [']']
  | v :: l => ',' :: (render v ++ renderElems l)

def renderMembers : List (List Char × Value (List Char)) → List Char
  | [] => ['\x7d']
  | (s, v) :: l => ',' :: (quote s ++ ':' :: (render v ++ renderMembers l))

end

/-! ## Reading -/

/-- The code units of a reader's strings: those of a character, and the one of a number
    that a `\u` escape gives. -/
structure Units (β : Type) where
  lit : Char → List β
  code : Nat → β
  ascii : ∀ c, c.toNat < 128 → lit c = [code c.toNat]

def isWs (c : Char) : Bool := c = ' ' || c = '\t' || c = '\n' || c = '\r'

def skipWs (cs : List Char) : List Char := cs.dropWhile isWs

def hexVal (c : Char) : Option Nat :=
  if '0' ≤ c ∧ c ≤ '9' then some (c.toNat - 48)
  else if 'a' ≤ c ∧ c ≤ 'f' then some (c.toNat - 87)
  else if 'A' ≤ c ∧ c ≤ 'F' then some (c.toNat - 55)
  else none

/-- The character of a short escape. -/
def unescape (c : Char) : Option Char :=
  if c = '"' ∨ c = '\\' ∨ c = '/' then some c
  else if c = 'b' then some '\x08'
  else if c = 't' then some '\t'
  else if c = 'n' then some '\n'
  else if c = 'f' then some '\x0c'
  else if c = 'r' then some '\r'
  else none

section Parse

variable {β : Type} (u : Units β)

/-- A string after its opening quote, and what follows it. -/
def string : List Char → Option (List β × List Char)
  | [] => none
  | '"' :: rest => some ([], rest)
  | '\\' :: 'u' :: a :: b :: c :: d :: rest => do
    let n := ((← hexVal a) * 16 + (← hexVal b)) * 256 + ((← hexVal c) * 16 + (← hexVal d))
    (string rest).map fun p => (u.code n :: p.1, p.2)
  | '\\' :: c :: rest => do
    let c ← unescape c
    (string rest).map fun p => (u.lit c ++ p.1, p.2)
  | c :: rest => if c.toNat < 0x20 then none else (string rest).map fun p => (u.lit c ++ p.1, p.2)

/-- A number and what follows it. -/
def number (cs : List Char) : Option (Value (List β) × List Char) :=
  let l := cs.takeWhile numChar
  if h : isNumber l = true then
    some (.num ⟨l, fun _ => List.mem_takeWhile_imp, h⟩, cs.dropWhile numChar)
  else none

mutual

/-- A value and what follows it; at most `fuel` values within values. -/
def value (fuel : Nat) (cs : List Char) : Option (Value (List β) × List Char) :=
  match fuel with
  | 0 => none
  | fuel + 1 =>
    match skipWs cs with
    | '"' :: rest => (string u rest).map fun p => (.str p.1, p.2)
    | '[' :: rest =>
      match skipWs rest with
      | ']' :: rest => some (.arr [], rest)
      | rest => (elems fuel rest).map fun p => (.arr p.1, p.2)
    | '\x7b' :: rest =>
      match skipWs rest with
      | '\x7d' :: rest => some (.obj [], rest)
      | rest => (members fuel rest).map fun p => (.obj p.1, p.2)
    | 't' :: 'r' :: 'u' :: 'e' :: rest => some (.bool true, rest)
    | 'f' :: 'a' :: 'l' :: 's' :: 'e' :: rest => some (.bool false, rest)
    | 'n' :: 'u' :: 'l' :: 'l' :: rest => some (.null, rest)
    | cs => number cs

/-- Elements up to the closing bracket. -/
def elems (fuel : Nat) (cs : List Char) : Option (List (Value (List β)) × List Char) :=
  match fuel with
  | 0 => none
  | fuel + 1 => do
    let (v, rest) ← value fuel cs
    match skipWs rest with
    | ',' :: rest => (elems fuel rest).map fun p => (v :: p.1, p.2)
    | ']' :: rest => some ([v], rest)
    | _ => none

def members (fuel : Nat) (cs : List Char) : Option (List (List β × Value (List β)) × List Char) :=
  match fuel with
  | 0 => none
  | fuel + 1 => do
    let '"' :: rest := skipWs cs | none
    let (s, rest) ← string u rest
    let ':' :: rest := skipWs rest | none
    let (v, rest) ← value fuel rest
    match skipWs rest with
    | ',' :: rest => (members fuel rest).map fun p => ((s, v) :: p.1, p.2)
    | '\x7d' :: rest => some ([(s, v)], rest)
    | _ => none

end

/-- The value of a text, if it is one. -/
def parse (cs : List Char) : Option (Value (List β)) := do
  let (v, rest) ← value u (cs.length + 1) cs
  if skipWs rest = [] then some v else none

end Parse

/-! ## Strings read back -/

section RoundTrip

variable {β : Type} (u : Units β)

theorem hexVal_digit : ∀ n < 16, hexVal (hexDigit n) = some n := by decide

/-- A control character from its two digits. -/
theorem string_control {c : Char} (h : c.toNat < 0x20) (rest : List Char) :
    string u ('\\' :: 'u' :: '0' :: '0' :: hexDigit (c.toNat / 16) :: hexDigit (c.toNat % 16) :: rest) =
      (string u rest).map fun p => (u.lit c ++ p.1, p.2) := by
  have hzero : hexVal '0' = some 0 := rfl
  have hhigh := hexVal_digit (c.toNat / 16) (by omega)
  have hlow := hexVal_digit (c.toNat % 16) (by omega)
  have hn : (0 * 16 + 0) * 256 + (c.toNat / 16 * 16 + c.toNat % 16) = c.toNat := by omega
  simp only [string, hzero, hhigh, hlow, Option.bind_eq_bind, Option.bind_some, hn]
  rw [u.ascii c (by omega)]
  rfl

theorem string_escape (c : Char) (rest : List Char) :
    string u (escape c ++ rest) = (string u rest).map fun p => (u.lit c ++ p.1, p.2) := by
  unfold escape
  split
  next h => rw [h]; rfl
  split
  next h => rw [h]; rfl
  split
  next h => rw [h]; rfl
  split
  next h => rw [h]; rfl
  split
  next h => rw [h]; rfl
  split
  next h => rw [h]; rfl
  split
  next h => rw [h]; rfl
  split
  next h => exact string_control u h rest
  next hquote hback _ _ _ _ _ h =>
    rw [List.singleton_append, string.eq_def]
    split
    next he => cases he
    next he =>
      cases he
      exact absurd rfl hquote
    next he =>
      cases he
      exact absurd rfl hback
    next he =>
      cases he
      exact absurd rfl hback
    next he =>
      cases he
      exact if_neg h

theorem string_quoted (s rest : List Char) :
    string u (s.flatMap escape ++ '"' :: rest) = some (s.flatMap u.lit, rest) := by
  induction s with
  | nil => rfl
  | cons c s ih =>
    rw [List.flatMap_cons, List.append_assoc, string_escape, ih]
    rfl

/-! ## Values read back -/

/-- What follows a value: the text ends, or goes on with no character of a number. -/
def Follows (rest : List Char) : Prop := ∀ c ∈ rest.head?, numChar c = false

theorem takeWhile_lexeme {l rest : List Char} (hl : ∀ c ∈ l, numChar c = true) (hrest : Follows rest) :
    (l ++ rest).takeWhile numChar = l ∧ (l ++ rest).dropWhile numChar = rest := by
  induction l with
  | nil =>
    cases rest with
    | nil => exact ⟨rfl, rfl⟩
    | cons c rest =>
      have hc := hrest c rfl
      exact ⟨by simp [hc], by simp [hc]⟩
  | cons c l ih =>
    rw [List.forall_mem_cons] at hl
    obtain ⟨htake, hdrop⟩ := ih hl.2
    exact ⟨by simp [hl.1, htake], by simp [hl.1, hdrop]⟩

theorem number_lexeme (n : Number) {rest : List Char} (hrest : Follows rest) :
    number (n.lexeme ++ rest) = some ((.num n : Value (List β)), rest) := by
  obtain ⟨htake, hdrop⟩ := takeWhile_lexeme n.chars hrest
  simp only [number, htake, hdrop, n.ok, dif_pos]

/-- A character that a value starts with. -/
def Starts (cs : List Char) : Prop := ∃ c rest, cs = c :: rest ∧ isWs c = false ∧ c ≠ ']' ∧ c ≠ '\x7d'

theorem skipWs_starts {cs : List Char} (h : Starts cs) (rest : List Char) : skipWs (cs ++ rest) = cs ++ rest := by
  obtain ⟨c, cs, rfl, hc, _⟩ := h
  exact List.dropWhile_cons_of_neg (by simp [hc])

theorem lexeme_starts (n : Number) : Starts n.lexeme := by
  obtain ⟨lexeme, chars, ok⟩ := n
  cases lexeme with
  | nil => cases ok
  | cons c rest =>
    have hc := chars c List.mem_cons_self
    refine ⟨c, rest, rfl, ?_, ?_, ?_⟩
    · cases h : isWs c with
      | false => rfl
      | true =>
        simp only [isWs, Bool.or_eq_true, decide_eq_true_eq] at h
        rcases h with ((rfl | rfl) | rfl) | rfl <;> exact absurd hc (by decide)
    · rintro rfl
      exact absurd hc (by decide)
    · rintro rfl
      exact absurd hc (by decide)

theorem render_starts (v : Value (List Char)) : Starts (render v) := by
  cases v with
  | null => exact ⟨_, _, rfl, by decide, by decide, by decide⟩
  | bool b => cases b <;> exact ⟨_, _, rfl, by decide, by decide, by decide⟩
  | num n => exact lexeme_starts n
  | str s => exact ⟨_, _, rfl, by decide, by decide, by decide⟩
  | arr l => cases l <;> exact ⟨_, _, rfl, by decide, by decide, by decide⟩
  | obj l =>
    rcases l with _ | ⟨⟨s, v⟩, l⟩
    · exact ⟨_, _, rfl, by decide, by decide, by decide⟩
    · exact ⟨_, _, rfl, by decide, by decide, by decide⟩

theorem value_num (n : Number) {rest : List Char} (hrest : Follows rest) (fuel : Nat) :
    value u (fuel + 1) (n.lexeme ++ rest) = some (.num n, rest) := by
  have hnum : ∀ c cs, n.lexeme ++ rest = c :: cs → numChar c = true := by
    intro c cs h
    cases hl : n.lexeme with
    | nil =>
      have hok := n.ok
      rw [hl] at hok
      cases hok
    | cons d l =>
      rw [hl] at h
      cases h
      exact n.chars c (hl ▸ List.mem_cons_self)
  rw [value, skipWs_starts (lexeme_starts n)]
  split
  next he => exact absurd (hnum _ _ he) (by decide)
  next he => exact absurd (hnum _ _ he) (by decide)
  next he => exact absurd (hnum _ _ he) (by decide)
  next he => exact absurd (hnum _ _ he) (by decide)
  next he => exact absurd (hnum _ _ he) (by decide)
  next he => exact absurd (hnum _ _ he) (by decide)
  next => exact number_lexeme n hrest

theorem value_arr {cs : List Char} (h : Starts cs) (fuel : Nat) (rest : List Char) :
    value u (fuel + 1) ('[' :: (cs ++ rest)) = (elems u fuel (cs ++ rest)).map fun p => (.arr p.1, p.2) := by
  have hskip := skipWs_starts h rest
  obtain ⟨c, cs, rfl, _, hc, _⟩ := h
  rw [value]
  simp only [show skipWs ('[' :: (c :: cs ++ rest)) = '[' :: (c :: cs ++ rest) from rfl, hskip]
  split
  next he =>
    cases he
    exact absurd rfl hc
  next => rfl

theorem value_obj (s : List Char) (fuel : Nat) (rest : List Char) :
    value u (fuel + 1) ('\x7b' :: (quote s ++ rest)) = (members u fuel (quote s ++ rest)).map fun p => (.obj p.1, p.2) := rfl

theorem follows_of {c : Char} (hc : numChar c = false) (rest : List Char) : Follows (c :: rest) := by
  intro d hd
  cases hd
  exact hc

/-- What is written can be read back with the fuel, whatever follows that is no part of a
    number. -/
structure ReadsBack (fuel : Nat) : Prop where
  value : ∀ v rest, Follows rest → (render v).length ≤ fuel →
    value u fuel (render v ++ rest) = some (v.map fun s => s.flatMap u.lit, rest)
  elems : ∀ v l rest, (render v ++ renderElems l).length ≤ fuel →
    elems u fuel (render v ++ (renderElems l ++ rest)) = some (mapElems (fun s => s.flatMap u.lit) (v :: l), rest)
  members : ∀ s v l rest, (quote s ++ ':' :: (render v ++ renderMembers l)).length ≤ fuel →
    members u fuel (quote s ++ ':' :: (render v ++ (renderMembers l ++ rest))) =
      some (mapMembers (fun s => s.flatMap u.lit) ((s, v) :: l), rest)

theorem render_pos (v : Value (List Char)) : 0 < (render v).length := by
  obtain ⟨c, cs, h, _⟩ := render_starts v
  rw [h]
  exact Nat.succ_pos _

section Step

variable {fuel : Nat} (ih : ReadsBack u fuel)
include ih

theorem value_render (v : Value (List Char)) {rest : List Char} (hrest : Follows rest)
    (hf : (render v).length ≤ fuel + 1) :
    value u (fuel + 1) (render v ++ rest) = some (v.map fun s => s.flatMap u.lit, rest) := by
  cases v with
  | null => rfl
  | bool b => cases b <;> rfl
  | num n => exact value_num u n hrest fuel
  | str s =>
    rw [render, quote, List.cons_append, List.append_assoc]
    change (string u (s.flatMap escape ++ '"' :: rest)).map _ = _
    rw [string_quoted]
    rfl
  | arr l =>
    rcases l with _ | ⟨v, l⟩
    · rfl
    · rw [render, List.length_cons] at hf
      rw [render, List.cons_append, List.append_assoc, value_arr u (render_starts v),
        ih.elems v l rest (Nat.le_of_succ_le_succ hf)]
      rfl
  | obj l =>
    rcases l with _ | ⟨⟨s, v⟩, l⟩
    · rfl
    · rw [render, List.length_cons] at hf
      rw [render, List.cons_append, List.append_assoc, List.cons_append, List.append_assoc, value_obj,
        ih.members s v l rest (Nat.le_of_succ_le_succ hf)]
      rfl

theorem elems_render (v : Value (List Char)) (l : List (Value (List Char))) (rest : List Char)
    (hf : (render v ++ renderElems l).length ≤ fuel + 1) :
    elems u (fuel + 1) (render v ++ (renderElems l ++ rest)) =
      some (mapElems (fun s => s.flatMap u.lit) (v :: l), rest) := by
  rw [List.length_append] at hf
  have hfollows : Follows (renderElems l ++ rest) := by cases l <;> exact follows_of (by decide) _
  have hpos : 0 < (renderElems l).length := by cases l <;> simp [renderElems]
  rw [elems, ih.value v _ hfollows (by omega)]
  cases l with
  | nil => rfl
  | cons w l =>
    rw [renderElems, List.length_cons] at hf
    have hv := render_pos v
    have hrest := ih.elems w l rest (by omega)
    simp only [renderElems, List.cons_append, List.append_assoc, Option.bind_eq_bind, Option.bind_some]
    change (elems u fuel _).map _ = _
    rw [hrest]
    rfl

theorem members_render (s : List Char) (v : Value (List Char)) (l : List (List Char × Value (List Char)))
    (rest : List Char) (hf : (quote s ++ ':' :: (render v ++ renderMembers l)).length ≤ fuel + 1) :
    members u (fuel + 1) (quote s ++ ':' :: (render v ++ (renderMembers l ++ rest))) =
      some (mapMembers (fun s => s.flatMap u.lit) ((s, v) :: l), rest) := by
  rw [List.length_append, List.length_cons, List.length_append] at hf
  have hfollows : Follows (renderMembers l ++ rest) := by
    rcases l with _ | ⟨⟨_, _⟩, _⟩ <;> exact follows_of (by decide) _
  have hvalue := ih.value v _ hfollows (by omega)
  have hname := string_quoted u s (':' :: (render v ++ (renderMembers l ++ rest)))
  have hquote : skipWs (quote s ++ ':' :: (render v ++ (renderMembers l ++ rest))) =
      '"' :: (s.flatMap escape ++ '"' :: ':' :: (render v ++ (renderMembers l ++ rest))) := by
    simp [quote, skipWs, isWs]
  have hcolon : skipWs (':' :: (render v ++ (renderMembers l ++ rest))) = ':' :: (render v ++ (renderMembers l ++ rest)) :=
    rfl
  rw [members]
  simp only [hquote, hname, hcolon, hvalue, Option.bind_eq_bind, Option.bind_some]
  rcases l with _ | ⟨⟨t, w⟩, l⟩
  · rfl
  · rw [renderMembers, List.length_cons] at hf
    have hrest := ih.members t w l rest (by omega)
    simp only [renderMembers, List.cons_append, List.append_assoc]
    change (members u fuel _).map _ = _
    rw [hrest]
    rfl

end Step

theorem readsBack (fuel : Nat) : ReadsBack u fuel := by
  induction fuel with
  | zero =>
    refine ⟨fun v rest _ hf => ?_, fun v l rest hf => ?_, fun s v l rest hf => ?_⟩
    · exact absurd (render_pos v) (by omega)
    · rw [List.length_append] at hf
      exact absurd (render_pos v) (by omega)
    · cases hf
  | succ fuel ih =>
    exact ⟨fun v _ hrest hf => value_render u ih v hrest hf, fun v l rest hf => elems_render u ih v l rest hf,
      fun s v l rest hf => members_render u ih s v l rest hf⟩

/-- A written text is read as what was written. -/
theorem parse_render (v : Value (List Char)) : parse u (render v) = some (v.map fun s => s.flatMap u.lit) := by
  have h := (readsBack u ((render v).length + 1)).value v [] (fun c hc => by cases hc) (Nat.le_succ _)
  rw [List.append_nil] at h
  rw [parse, h]
  rfl

end RoundTrip

end Kaguya.Lib.Json
