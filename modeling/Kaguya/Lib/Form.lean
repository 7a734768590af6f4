/-
  Kaguya.Lib.Form — names with values as a form writes them
  (application/x-www-form-urlencoded), and the URLs whose query is such a text.

  A text is written as its UTF-8: a byte that may stand for itself does, a space is a `+`,
  and any other byte is `%` and two digits. A reader takes a query apart at each `&`, and
  each part at its first `=`, and undoes the rest byte by byte. What is written is read
  back (`parse_serialize`), also at the end of a query that is there already
  (`extends_appendPair`), while the rest of the URL stays.
-/

import Kaguya.Lib.Encoding
import Kaguya.Lib.Fields

namespace Kaguya.Lib.Form

open Kaguya.Lib.Encoding

/-! ## Writing -/

/-- A byte that stands for itself: letters, digits and `*-._`. -/
def plain (b : UInt8) : Bool :=
  (48 ≤ b && b ≤ 57) || (65 ≤ b && b ≤ 90) || (97 ≤ b && b ≤ 122) || b == 42 || b == 45 || b == 46 || b == 95

def hexDigit (n : Nat) : Char := (Nat.digitChar n).toUpper

def writeByte (b : UInt8) : List Char :=
  if plain b then [Char.ofNat b.toNat]
  else if b = 32 then ['+']
  else ['%', hexDigit (b.toNat / 16), hexDigit (b.toNat % 16)]

def write (s : String) : List Char := (utf8 s).flatMap writeByte

def pair (kv : String × String) : List Char := write kv.1 ++ '=' :: write kv.2

def serialize (pairs : List (String × String)) : List Char := ['&'].intercalate (pairs.map pair)

/-! ## Reading -/

def hexVal (c : Char) : Option Nat :=
  if '0' ≤ c ∧ c ≤ '9' then some (c.toNat - 48)
  else if 'A' ≤ c ∧ c ≤ 'F' then some (c.toNat - 55)
  else if 'a' ≤ c ∧ c ≤ 'f' then some (c.toNat - 87)
  else none

/-- The bytes of a name or a value: a `%` without two digits is itself. -/
def read : List Char → List UInt8
  | [] => []
  | '%' :: a :: b :: cs =>
    match hexVal a, hexVal b with
    | some x, some y => UInt8.ofNat (16 * x + y) :: read cs
    | _, _ => 37 :: read (a :: b :: cs)
  | c :: cs => (if c = '+' then [32] else String.utf8EncodeChar c) ++ read cs

/-- A part without `=` is a name. -/
def readPair (part : List Char) : List UInt8 × List UInt8 :=
  (read (part.takeWhile (· ≠ '=')), read (part.dropWhile (· ≠ '=')).tail)

/-- The names and values of a query, as bytes; an empty part is none. -/
def parse (query : List Char) : List (List UInt8 × List UInt8) :=
  ((query.splitOn '&').filter (· ≠ [])).map readPair

/-! ## What is written is read back -/

/-- A name and its value as they are read. -/
def bytes (kv : String × String) : List UInt8 × List UInt8 := (utf8 kv.1, utf8 kv.2)

theorem bytes_inj : Function.Injective bytes := by
  intro kv kv' h
  exact Prod.ext (utf8_inj (Prod.ext_iff.mp h).1) (utf8_inj (Prod.ext_iff.mp h).2)

theorem mem_map_bytes {kv : String × String} {kvs : List (String × String)} : bytes kv ∈ kvs.map bytes ↔ kv ∈ kvs :=
  List.mem_map_of_injective bytes_inj

theorem hexVal_hexDigit : ∀ n < 16, hexVal (hexDigit n) = some n := by decide

/-- A byte that stands for itself is no separator, and is its character. -/
theorem plain_char {b : UInt8} (h : plain b = true) : (∀ x ∈ [37, 43, 38, 61, 35], b ≠ x) ∧ b.toNat < 128 := by
  refine ⟨fun x hx e => ?_, ?_⟩
  · have hnone : ∀ x ∈ [37, 43, 38, 61, 35], plain x = false := by decide +kernel
    rw [e, hnone x hx] at h
    cases h
  · simp only [plain, Bool.or_eq_true, Bool.and_eq_true, decide_eq_true_eq, beq_iff_eq, UInt8.le_iff_toNat_le,
      ← UInt8.toNat_inj] at h
    simp at h
    omega

theorem ofNat_byte (b : UInt8) : (Char.ofNat b.toNat).toNat = b.toNat := by
  have hb := b.toNat_lt
  have hvalid : b.toNat.isValidChar := Or.inl (by omega)
  rw [Char.ofNat, dif_pos hvalid]
  rfl

theorem byte_eq {b : UInt8} {c : Char} (h : Char.ofNat b.toNat = c) : b = UInt8.ofNat c.toNat := by
  rw [← h, ofNat_byte, UInt8.ofNat_toNat]

theorem hexDigit_char : ∀ n < 16, hexDigit n ∉ ['&', '=', '#'] := by decide

theorem read_writeByte (b : UInt8) (cs : List Char) : read (writeByte b ++ cs) = b :: read cs := by
  have hb := b.toNat_lt
  rw [writeByte]
  split
  · next hp =>
    obtain ⟨hmarks, hascii⟩ := plain_char hp
    have hpercent : Char.ofNat b.toNat ≠ '%' := fun e => hmarks 37 (by decide) (byte_eq e)
    have hplus : Char.ofNat b.toNat ≠ '+' := fun e => hmarks 43 (by decide) (byte_eq e)
    have hchar : String.utf8EncodeChar (Char.ofNat b.toNat) = [b] := by
      rw [encode_ascii (by rw [ofNat_byte]; exact hascii), ofNat_byte, UInt8.ofNat_toNat]
    rw [List.singleton_append, read.eq_def]
    split
    · next e => cases e
    · next e => exact absurd (List.cons.inj e).1 hpercent
    · next e =>
      cases e
      rw [if_neg hplus, hchar]
      rfl
  split
  · next hspace =>
    rw [hspace]
    cases cs with
    | nil => rfl
    | cons c cs => rfl
  · rw [List.cons_append, List.cons_append, List.singleton_append, read, hexVal_hexDigit _ (by omega),
      hexVal_hexDigit _ (by omega)]
    have he : 16 * (b.toNat / 16) + b.toNat % 16 = b.toNat := Nat.div_add_mod _ _
    dsimp only
    rw [he, UInt8.ofNat_toNat]

theorem read_writeBytes (bs : List UInt8) : read (bs.flatMap writeByte) = bs := by
  induction bs with
  | nil => rfl
  | cons b bs ih => rw [List.flatMap_cons, read_writeByte, ih]

theorem read_write (s : String) : read (write s) = utf8 s := read_writeBytes _

/-- What is written has none of the separators. -/
theorem mem_writeByte {b : UInt8} {c : Char} (h : c ∈ writeByte b) : c ∉ ['&', '=', '#'] := by
  have hb := b.toNat_lt
  rw [writeByte] at h
  split at h
  · next hp =>
    obtain ⟨hmarks, _⟩ := plain_char hp
    rw [List.mem_singleton.mp h]
    intro hm
    simp only [List.mem_cons, List.not_mem_nil, or_false] at hm
    rcases hm with e | e | e
    · exact hmarks 38 (by decide) (byte_eq e)
    · exact hmarks 61 (by decide) (byte_eq e)
    · exact hmarks 35 (by decide) (byte_eq e)
  split at h
  · rw [List.mem_singleton.mp h]
    decide
  · rcases List.mem_cons.mp h with rfl | h
    · decide
    rcases List.mem_cons.mp h with rfl | h
    · exact hexDigit_char _ (by omega)
    · rw [List.mem_singleton.mp h]
      exact hexDigit_char _ (by omega)

theorem mem_write {s : String} {c : Char} (h : c ∈ write s) : c ∉ ['&', '=', '#'] := by
  obtain ⟨b, _, hb⟩ := List.mem_flatMap.mp h
  exact mem_writeByte hb

theorem mem_pair {kv : String × String} {c : Char} (h : c ∈ pair kv) : c ∉ ['&', '#'] := by
  rcases List.mem_append.mp h with h | h
  · have := mem_write h
    simp_all
  rcases List.mem_cons.mp h with rfl | h
  · decide
  · have := mem_write h
    simp_all

theorem pair_ne_nil (kv : String × String) : pair kv ≠ [] := by simp [pair]

theorem readPair_pair (kv : String × String) : readPair (pair kv) = bytes kv := by
  have hname : ∀ c ∈ write kv.1, decide (c ≠ '=') = true := by
    intro c hc
    refine decide_eq_true fun e => mem_write hc ?_
    rw [e]
    decide
  have htake : (pair kv).takeWhile (· ≠ '=') = write kv.1 := by
    rw [pair, List.takeWhile_append_of_pos hname, List.takeWhile_cons_of_neg (by simp), List.append_nil]
  have hdrop : (pair kv).dropWhile (· ≠ '=') = '=' :: write kv.2 := by
    rw [pair, List.dropWhile_append_of_pos hname, List.dropWhile_cons_of_neg (by simp)]
  rw [readPair, htake, hdrop, List.tail_cons, read_write, read_write]
  rfl

theorem parse_pair (kv : String × String) : parse (pair kv) = [bytes kv] := by
  have hone : (pair kv).splitOn '&' = [pair kv] := List.splitOn_eq_singleton fun h => mem_pair h List.mem_cons_self
  rw [parse, hone, List.filter_singleton]
  simp [pair_ne_nil, readPair_pair]

/-- Two queries joined. -/
theorem parse_join (q q' : List Char) : parse (q ++ '&' :: q') = parse q ++ parse q' := by
  rw [parse, List.splitOn_append_cons_self, List.filter_append, List.map_append]
  rfl

theorem parse_serialize (pairs : List (String × String)) : parse (serialize pairs) = pairs.map bytes := by
  induction pairs with
  | nil => rfl
  | cons kv pairs ih =>
    cases pairs with
    | nil =>
      have hone : serialize [kv] = pair kv := List.intercalate_singleton
      rw [hone, parse_pair]
      rfl
    | cons kv' pairs =>
      have hjoin : serialize (kv :: kv' :: pairs) = pair kv ++ '&' :: serialize (kv' :: pairs) := by
        rw [serialize, List.map_cons, List.map_cons, List.intercalate_cons_cons, List.append_assoc]
        rfl
      rw [hjoin, parse_join, parse_pair, ih]
      rfl

/-! ## URLs -/

/-- A URL's text: what comes before the query, the query and the fragment, if there are any. -/
structure Url where
  base : List Char
  query : Option (List Char)
  fragment : Option (List Char)

/-- The text up to a mark, and what follows the mark. -/
def cut (mark : Char) (s : List Char) : List Char × Option (List Char) :=
  (s.takeWhile (· ≠ mark), match s.dropWhile (· ≠ mark) with
    | [] => none
    | _ :: rest => some rest)

/-- The fragment starts at the first `#`, the query at the first `?` before it. -/
def Url.of (s : List Char) : Url :=
  let (whole, fragment) := cut '#' s
  let (base, query) := cut '?' whole
  ⟨base, query, fragment⟩

def marked (mark : Char) : Option (List Char) → List Char
  | none => []
  | some s => mark :: s

def Url.text (u : Url) : List Char := u.base ++ (marked '?' u.query ++ marked '#' u.fragment)

/-- `query_pairs_mut().append_pair`: at the end of the query, in front of the fragment. -/
def Url.append (u : Url) (kv : String × String) : Url :=
  { u with query := some (match u.query with
    | none | some [] => pair kv
    | some q => q ++ '&' :: pair kv) }

/-- What a reader finds in the query. -/
def Url.pairs (u : Url) : List (List UInt8 × List UInt8) := u.query.elim [] parse

/-- Its parts have none of the marks that would end them early. -/
structure Url.Ok (u : Url) : Prop where
  base : '?' ∉ u.base ∧ '#' ∉ u.base
  query : ∀ q ∈ u.query, '#' ∉ q

theorem cut_marked {mark : Char} {s : List Char} (h : mark ∉ s) (rest : Option (List Char)) :
    cut mark (s ++ marked mark rest) = (s, rest) := by
  have hs : ∀ c ∈ s, decide (c ≠ mark) = true := fun c hc => decide_eq_true fun e => h (e ▸ hc)
  rw [cut, List.takeWhile_append_of_pos hs, List.dropWhile_append_of_pos hs]
  cases rest with
  | none => simp [marked]
  | some rest => simp [marked]

theorem of_text {u : Url} (h : u.Ok) : Url.of u.text = u := by
  have hwhole : '#' ∉ u.base ++ marked '?' u.query := by
    rw [List.mem_append, not_or]
    refine ⟨h.base.2, fun hm => ?_⟩
    cases hq : u.query with
    | none =>
      rw [hq] at hm
      cases hm
    | some q =>
      rw [hq] at hm
      rcases List.mem_cons.mp hm with e | hm
      · cases e
      · exact h.query q hq hm
  rw [Url.of, Url.text, ← List.append_assoc, cut_marked hwhole]
  dsimp only
  rw [cut_marked h.base.1]

theorem cut_not_mem (mark : Char) (s : List Char) : mark ∉ (cut mark s).1 := by
  intro h
  have := List.mem_takeWhile_imp h
  simp at this

theorem of_ok (s : List Char) : (Url.of s).Ok := by
  have hwhole := cut_not_mem '#' s
  refine ⟨⟨cut_not_mem '?' _, fun h => hwhole ?_⟩, fun q hq h => hwhole ?_⟩
  · exact (List.takeWhile_sublist _).subset h
  · have hin : q.Sublist (cut '#' s).1 := by
      have hq : (cut '?' (cut '#' s).1).2 = some q := hq
      rw [cut] at hq
      dsimp only at hq
      split at hq
      · cases hq
      · next e =>
        cases hq
        have hsuffix : (_ :: q) <:+ (cut '#' s).1 := e ▸ List.dropWhile_suffix _
        exact (List.sublist_cons_self _ _).trans hsuffix.sublist
    exact hin.subset h

theorem append_ok {u : Url} (h : u.Ok) (kv : String × String) : (u.append kv).Ok := by
  refine ⟨h.base, fun q hq hm => ?_⟩
  have hpair : '#' ∉ pair kv := fun hm => mem_pair hm (by decide)
  rw [Url.append] at hq
  dsimp only at hq
  cases hq
  cases hu : u.query with
  | none =>
    rw [hu] at hm
    exact hpair hm
  | some q =>
    rw [hu] at hm
    cases q with
    | nil => exact hpair hm
    | cons c q =>
      rcases List.mem_append.mp hm with hm | hm
      · exact h.query _ hu hm
      rcases List.mem_cons.mp hm with e | hm
      · cases e
      · exact hpair hm

theorem pairs_append (u : Url) (kv : String × String) : (u.append kv).pairs = u.pairs ++ [bytes kv] := by
  rw [Url.pairs, Url.pairs, Url.append]
  cases u.query with
  | none => exact parse_pair kv
  | some q =>
    cases q with
    | nil => exact parse_pair kv
    | cons c q =>
      show parse (c :: q ++ '&' :: pair kv) = _
      rw [parse_join, parse_pair]
      rfl

/-- `append_pair` on the text of a URL. -/
def appendPair (s : String) (name value : String) : String :=
  String.ofList ((Url.of s.toList).append (name, value)).text

/-- The text reads as another with pairs after those that were there, and all else as it was. -/
structure Extends (s s' : String) (kvs : List (String × String)) : Prop where
  base : (Url.of s'.toList).base = (Url.of s.toList).base
  fragment : (Url.of s'.toList).fragment = (Url.of s.toList).fragment
  pairs : (Url.of s'.toList).pairs = (Url.of s.toList).pairs ++ kvs.map bytes

theorem of_appendPair (s name value : String) :
    Url.of (appendPair s name value).toList = (Url.of s.toList).append (name, value) := by
  rw [appendPair, String.toList_ofList]
  exact of_text (append_ok (of_ok _) _)

theorem extends_appendPair (s : String) (kvs : List (String × String)) :
    Extends s (kvs.foldl (fun s kv => appendPair s kv.1 kv.2) s) kvs := by
  induction kvs generalizing s with
  | nil => exact ⟨rfl, rfl, by simp⟩
  | cons kv kvs ih =>
    obtain ⟨hbase, hfragment, hpairs⟩ := ih (appendPair s kv.1 kv.2)
    rw [of_appendPair] at hbase hfragment hpairs
    refine ⟨hbase, hfragment, hpairs.trans ?_⟩
    rw [pairs_append, List.append_assoc, List.map_cons, List.singleton_append]

end Kaguya.Lib.Form
