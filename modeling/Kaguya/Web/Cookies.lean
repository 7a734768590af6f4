/-
  Kaguya.Web.Cookies — the session cookie among what else the browser sends
  (`web/src/main.rs`, `session_id`). A Cookie header is made of pairs: any name and value
  of bytes that a `HeaderValue` admits, `;` apart, with spaces about them.

  `HeaderValue::to_str` is asked of the whole header, so a byte from 0x80 on in another
  cookie hides ours (`hidden_by_other`); and `str::trim` takes tabs off a name, so one
  that is ours but for them is read as ours. `found_iff`: on which headers the session is
  found as it is sent, all else being harmless.
-/

import Kaguya.Lib.Encoding
import Kaguya.Lib.Fields
import Kaguya.Web.Server

namespace Kaguya.Web.Cookies

open Kaguya.Lib.Encoding
open Kaguya.Lib.Fields
open Kaguya.Web.Server

/-! ## The header -/

/-- The bytes of a `HeaderValue` that do not end a pair. -/
def Admits (b : UInt8) : Prop := (32 ≤ b.toNat ∧ b.toNat ≠ 127 ∨ b.toNat = 9) ∧ b.toNat ≠ 59

instance (b : UInt8) : Decidable (Admits b) := inferInstanceAs (Decidable (_ ∧ _))

structure Pair where
  /-- spaces before the name -/
  before : Nat
  name : List UInt8
  value : List UInt8
  /-- spaces after the value -/
  after : Nat
  admits : ∀ b ∈ name ++ value, Admits b

namespace Pair

def text (p : Pair) : List UInt8 :=
  List.replicate p.before 32 ++ (p.name ++ 61 :: (p.value ++ List.replicate p.after 32))

/-- A byte of the pair is not ASCII. -/
def NonAscii (p : Pair) : Prop := ∃ b ∈ p.name ++ p.value, 128 ≤ b.toNat

end Pair

def header (pairs : List Pair) : List UInt8 := [59].intercalate (pairs.map Pair.text)

/-- One pair has the name of the session cookie, and the session's id, or none does. -/
def Sends (pairs : List Pair) (own : Option (BitVec 128)) : Prop :=
  (pairs.filter fun p => p.name = utf8 cookieName).map (·.value) = own.toList.map fun r => utf8 (lowerHex r)

/-! ## What `session_id` takes for ours -/

def blank (b : UInt8) : Bool := b == 32 || b == 9

namespace Pair

/-- The name, less the blanks in front, is the cookie's, or goes on with a `=`. -/
def Reads (p : Pair) : Prop :=
  p.name.dropWhile blank = utf8 cookieName ∨ utf8 cookieName ++ [61] <+: p.name.dropWhile blank

instance (p : Pair) : Decidable p.Reads := inferInstanceAs (Decidable (_ ∨ _))

/-- The pair is read as the session's: its name and its value are, up to blanks. -/
def Carries (p : Pair) (r : BitVec 128) : Prop :=
  p.name.dropWhile blank = utf8 cookieName ∧ p.value.rdropWhile blank = utf8 (lowerHex r)

end Pair

/-- When ours is sent, all is ASCII and the first pair that reads as ours carries it; when
    not, no pair reads as ours, or there is a byte that is not ASCII. -/
def Clear (pairs : List Pair) : Option (BitVec 128) → Prop
  | some r => (∀ p ∈ pairs, ¬ p.NonAscii) ∧ ∀ p, pairs.find? (fun p => p.Reads) = some p → p.Carries r
  | none => (∃ p ∈ pairs, p.NonAscii) ∨ ∀ p ∈ pairs, ¬ p.Reads

/-! ## Bytes and characters -/

/-- `HeaderValue::to_str`, a byte at a time. -/
def chr (b : UInt8) : Char := Char.ofNat b.toNat

theorem chr_toNat (b : UInt8) : (chr b).toNat = b.toNat := by
  have hb := b.toNat_lt
  have hvalid : b.toNat.isValidChar := Or.inl (by omega)
  rw [chr, Char.ofNat, dif_pos hvalid]
  rfl

theorem chr_inj : Function.Injective chr := fun a b h =>
  UInt8.toNat_inj.mp (by rw [← chr_toNat a, h, chr_toNat])

/-! ## A pair, read -/

/-- Visible ASCII, or a tab. -/
def Visible (b : UInt8) : Prop := (32 ≤ b.toNat ∧ b.toNat < 127) ∨ b.toNat = 9

theorem isWhitespace_low : ∀ n < 127, (32 ≤ n ∨ n = 9) → isWhitespace (Char.ofNat n) = blank (UInt8.ofNat n) := by
  decide

theorem isWhitespace_chr {b : UInt8} (h : Visible b) : isWhitespace (chr b) = blank b := by
  have := isWhitespace_low b.toNat (by rcases h with h | h <;> omega) (h.imp_left And.left)
  rwa [UInt8.ofNat_toNat] at this

namespace Pair

variable {p : Pair}

theorem text_visible (h : ¬ p.NonAscii) {b : UInt8} (hb : b ∈ p.text) : Visible b := by
  have hown (hb : b ∈ p.name ++ p.value) : Visible b := by
    have hadm := (p.admits b hb).1
    have hlow : ¬ 128 ≤ b.toNat := fun hge => h ⟨b, hb, hge⟩
    unfold Visible
    omega
  simp only [text, List.mem_append, List.mem_cons, List.mem_replicate] at hb
  rcases hb with ⟨_, rfl⟩ | hb | rfl | hb | ⟨_, rfl⟩
  · exact Or.inl (by decide)
  · exact hown (List.mem_append_left _ hb)
  · exact Or.inl (by decide)
  · exact hown (List.mem_append_right _ hb)
  · exact Or.inl (by decide)

/-- The name and the value, less the blanks at either end. -/
def bare (p : Pair) : List UInt8 := p.name.dropWhile blank ++ 61 :: p.value.rdropWhile blank

theorem trim_text (h : ¬ p.NonAscii) : trim (p.text.map chr) = p.bare.map chr := by
  have hspaces (n : Nat) : ∀ b ∈ List.replicate n (32 : UInt8), blank b := fun b hb => by
    rw [List.eq_of_mem_replicate hb]
    rfl
  have hwhite : ∀ b ∈ p.text, isWhitespace (chr b) = blank b := fun b hb => isWhitespace_chr (text_visible h hb)
  rw [trim, ← List.rdropWhile, dropWhile_map_of hwhite,
    rdropWhile_map_of fun b hb => hwhite b ((List.dropWhile_suffix _).subset hb), text,
    List.dropWhile_append_of_pos (hspaces p.before), dropWhile_stop (by decide), rdropWhile_stop (by decide),
    rdropWhile_all _ (hspaces p.after), bare]

/-- What is read of the pair, if it is taken for ours. -/
def found (p : Pair) : Option (List UInt8) := (utf8 cookieName ++ [61]).isPrefixOf? p.bare

theorem cookieName_equals : (61 : UInt8) ∉ utf8 cookieName := by
  rw [utf8_eq]
  decide

theorem found_some {v : List UInt8} : p.found = some v ↔
    (p.name.dropWhile blank = utf8 cookieName ∧ v = p.value.rdropWhile blank) ∨
    ∃ rest, p.name.dropWhile blank = utf8 cookieName ++ 61 :: rest ∧ v = rest ++ 61 :: p.value.rdropWhile blank := by
  rw [found, List.isPrefixOf?_eq_some_iff_append_eq, bare, List.append_assoc, List.singleton_append]
  constructor
  · intro h
    by_cases hname : (61 : UInt8) ∈ p.name.dropWhile blank
    · obtain ⟨name, rest, hsplit, hfirst⟩ := List.eq_append_cons_of_mem hname
      rw [hsplit, List.append_assoc, List.cons_append] at h
      obtain ⟨rfl, hv⟩ := field_inj cookieName_equals hfirst h
      exact Or.inr ⟨rest, hsplit, hv⟩
    · obtain ⟨hkw, hv⟩ := field_inj cookieName_equals hname h
      exact Or.inl ⟨hkw.symm, hv⟩
  · rintro (⟨hname, rfl⟩ | ⟨rest, hname, rfl⟩)
    · rw [hname]
    · rw [hname, List.append_assoc, List.cons_append]

theorem found_none : p.found = none ↔ ¬ p.Reads := by
  rw [← not_iff_not, not_not, ← ne_eq, ← Option.isSome_iff_ne_none, Option.isSome_iff_exists]
  constructor
  · rintro ⟨v, hv⟩
    rcases found_some.mp hv with ⟨hname, _⟩ | ⟨rest, hname, _⟩
    · exact Or.inl hname
    · exact Or.inr ⟨rest, by rw [hname, List.append_assoc, List.singleton_append]⟩
  · rintro (hname | ⟨rest, hname⟩)
    · exact ⟨_, found_some.mpr (Or.inl ⟨hname, rfl⟩)⟩
    · rw [List.append_assoc, List.singleton_append] at hname
      exact ⟨_, found_some.mpr (Or.inr ⟨rest, hname.symm, rfl⟩)⟩

end Pair

/-! ## The session's id -/

theorem mem_lowerHex {r : BitVec 128} {c : Char} (h : c ∈ (lowerHex r).toList) : ∃ d < 16, Nat.digitChar d = c := by
  rw [lowerHex, String.toList_ofList, List.leftpad, List.mem_append] at h
  rcases h with h | h
  · exact ⟨0, by decide, (List.eq_of_mem_replicate h).symm⟩
  · exact mem_toDigits h

theorem digitChar_low : ∀ d < 16, (Nat.digitChar d).toNat < 128 ∧ UInt8.ofNat (Nat.digitChar d).toNat ≠ 61 ∧
    blank (UInt8.ofNat (Nat.digitChar d).toNat) = false ∧ chr (UInt8.ofNat (Nat.digitChar d).toNat) = Nat.digitChar d ∧
    Admits (UInt8.ofNat (Nat.digitChar d).toNat) := by
  decide

theorem lowerHex_utf8 (r : BitVec 128) : utf8 (lowerHex r) = (lowerHex r).toList.map fun c => UInt8.ofNat c.toNat := by
  rw [utf8_eq]
  refine encode_map fun c hc => ?_
  obtain ⟨d, hd, rfl⟩ := mem_lowerHex hc
  exact (digitChar_low d hd).1

/-- The id's bytes are digits. -/
theorem mem_lowerHex_utf8 {r : BitVec 128} {b : UInt8} (h : b ∈ utf8 (lowerHex r)) : b ≠ 61 ∧ blank b = false ∧ Admits b := by
  rw [lowerHex_utf8] at h
  obtain ⟨c, hc, rfl⟩ := List.mem_map.mp h
  obtain ⟨d, hd, rfl⟩ := mem_lowerHex hc
  exact ⟨(digitChar_low d hd).2.1, (digitChar_low d hd).2.2.1, (digitChar_low d hd).2.2.2.2⟩

theorem lowerHex_chr (r : BitVec 128) : (utf8 (lowerHex r)).map chr = (lowerHex r).toList := by
  rw [lowerHex_utf8, List.map_map]
  conv => rhs; rw [← List.map_id (lowerHex r).toList]
  refine List.map_congr_left fun c hc => ?_
  obtain ⟨d, hd, rfl⟩ := mem_lowerHex hc
  exact (digitChar_low d hd).2.2.2.1

theorem found_id {p : Pair} {r : BitVec 128} : p.found = some (utf8 (lowerHex r)) ↔ p.Carries r := by
  rw [Pair.found_some]
  constructor
  · rintro (⟨hname, hvalue⟩ | ⟨rest, _, hvalue⟩)
    · exact ⟨hname, hvalue.symm⟩
    · have hmem : (61 : UInt8) ∈ utf8 (lowerHex r) := by
        rw [hvalue]
        exact List.mem_append_right _ List.mem_cons_self
      exact absurd rfl (mem_lowerHex_utf8 hmem).1
  · rintro ⟨hname, hvalue⟩
    exact Or.inl ⟨hname, hvalue.symm⟩

/-! ## The whole header -/

theorem Pair.text_sep (p : Pair) : (59 : UInt8) ∉ p.text := by
  intro h
  simp only [Pair.text, List.mem_append, List.mem_cons, List.mem_replicate] at h
  have hown (h : (59 : UInt8) ∈ p.name ++ p.value) : False := (p.admits 59 h).2 rfl
  rcases h with ⟨_, h⟩ | h | h | h | ⟨_, h⟩
  · cases h
  · exact hown (List.mem_append_left _ h)
  · cases h
  · exact hown (List.mem_append_right _ h)
  · cases h

theorem toStr_visible {value : List UInt8} (h : ∀ b ∈ value, Visible b) : toStr value = some (value.map chr) := by
  refine if_pos (List.all_eq_true.mpr fun b hb => ?_)
  rcases h b hb with ⟨hlo, hhi⟩ | htab
  · simp [UInt8.le_iff_toNat_le, UInt8.lt_iff_toNat_lt, hlo, hhi]
  · simp [UInt8.toNat_inj.mp (show b.toNat = (9 : UInt8).toNat from htab)]

/-- Our name and an equals sign, as `session_id` has them. -/
theorem prefix_chr : (cookieName ++ "=").toList = (utf8 cookieName ++ [61]).map chr := by
  rw [utf8_eq]
  decide

/-- The header is split into the pairs, each of them trimmed. -/
theorem header_trimmed {pairs : List Pair} (hne : pairs ≠ []) (h : ∀ p ∈ pairs, ¬ p.NonAscii) :
    (((header pairs).map chr).splitOn ';').map trim = pairs.map fun p => p.bare.map chr := by
  have hsep : ∀ l ∈ (pairs.map Pair.text).map (List.map chr), ';' ∉ l := by
    intro l hl hmem
    obtain ⟨text, htext, rfl⟩ := List.mem_map.mp hl
    obtain ⟨p, _, rfl⟩ := List.mem_map.mp htext
    obtain ⟨b, hb, hchr⟩ := List.mem_map.mp hmem
    have hsemi : b = 59 := chr_inj hchr
    exact p.text_sep (hsemi ▸ hb)
  rw [header, intercalate_map]
  change ((List.intercalate [';'] _).splitOn ';').map trim = _
  rw [List.splitOn_intercalate ';' hsep (by simpa using hne), List.map_map, List.map_map]
  exact List.map_congr_left fun p hp => p.trim_text (h p hp)

theorem sessionId_header {pairs : List Pair} (h : ∀ p ∈ pairs, ¬ p.NonAscii) :
    sessionId ⟨some (header pairs)⟩ = (pairs.findSome? Pair.found).map fun v => String.ofList (v.map chr) := by
  have hvisible : ∀ b ∈ header pairs, Visible b := by
    intro b hb
    rcases mem_intercalate hb with rfl | ⟨l, hl, hb⟩
    · exact Or.inl (by decide)
    · obtain ⟨p, hp, rfl⟩ := List.mem_map.mp hl
      exact p.text_visible (h p hp) hb
  cases pairs with
  | nil => rfl
  | cons p pairs =>
    have hfound (p : Pair) : ((cookieName ++ "=").toList.isPrefixOf? ∘ fun p : Pair => p.bare.map chr) p =
        p.found.map (List.map chr) := by
      rw [prefix_chr]
      exact isPrefixOf?_map chr_inj _ _
    have hid : sessionId ⟨some (header (p :: pairs))⟩ =
        (((((header (p :: pairs)).map chr).splitOn ';').map trim).findSome? (cookieName ++ "=").toList.isPrefixOf?).map
          String.ofList := by
      rw [sessionId, Option.bind_some, toStr_visible hvisible]
      rfl
    rw [hid, header_trimmed (List.cons_ne_nil p pairs) h, List.findSome?_map, funext hfound, List.map_findSome?,
      List.map_findSome?]
    simp only [Function.comp_def, Option.map_map]

theorem sessionId_nonAscii {pairs : List Pair} {p : Pair} (hp : p ∈ pairs) (h : p.NonAscii) :
    sessionId ⟨some (header pairs)⟩ = none := by
  obtain ⟨b, hb, hhigh⟩ := h
  have hheader : b ∈ header pairs := by
    refine mem_intercalate_of (List.mem_map.mpr ⟨p, hp, rfl⟩) ?_
    simp only [Pair.text, List.mem_append, List.mem_cons]
    rcases List.mem_append.mp hb with hb | hb
    · exact Or.inr (Or.inl hb)
    · exact Or.inr (Or.inr (Or.inr (Or.inl hb)))
  have hstr : toStr (header pairs) = none := by
    refine if_neg fun hall => ?_
    have hb := List.all_eq_true.mp hall b hheader
    simp only [Bool.or_eq_true, Bool.and_eq_true, decide_eq_true_eq, beq_iff_eq, UInt8.lt_iff_toNat_lt] at hb
    rcases hb with ⟨_, hlow⟩ | rfl
    · exact absurd hlow (Nat.not_lt.mpr (Nat.le_trans (by decide) hhigh))
    · exact absurd hhigh (by decide)
  unfold sessionId
  rw [Option.bind_some, hstr]
  rfl

/-- The pair with the cookie's name and the id carries it. -/
theorem Pair.own_carries {p : Pair} {r : BitVec 128} (hname : p.name = utf8 cookieName) (hvalue : p.value = utf8 (lowerHex r)) :
    p.Carries r := by
  refine ⟨?_, ?_⟩
  · rw [hname, utf8_eq]
    decide
  · rw [hvalue]
    refine List.rdropWhile_eq_self_iff.mpr fun hl => ?_
    rw [(mem_lowerHex_utf8 (List.getLast_mem hl)).2.1]
    exact Bool.false_ne_true

theorem Sends.own {pairs : List Pair} {r : BitVec 128} (h : Sends pairs (some r)) : ∃ p ∈ pairs, p.Reads := by
  have hmem : utf8 (lowerHex r) ∈ (pairs.filter fun p => p.name = utf8 cookieName).map (·.value) := by
    rw [h]
    exact List.mem_singleton_self _
  obtain ⟨p, hp, hvalue⟩ := List.mem_map.mp hmem
  obtain ⟨hp, hname⟩ := List.mem_filter.mp hp
  exact ⟨p, hp, Or.inl (Pair.own_carries (of_decide_eq_true hname) hvalue).1⟩

/-- The first pair that reads as ours is the one that is read. -/
theorem findSome?_found (pairs : List Pair) : pairs.findSome? Pair.found = (pairs.find? fun p => p.Reads).bind Pair.found := by
  induction pairs with
  | nil => rfl
  | cons p pairs ih =>
    cases hp : p.found with
    | none => rw [List.findSome?_cons_of_isNone (by rw [hp]; rfl), ih, List.find?_cons_of_neg (by simpa using p.found_none.mp hp)]
    | some v =>
      have hreads : p.Reads := by
        by_contra hno
        rw [p.found_none.mpr hno] at hp
        cases hp
      rw [List.findSome?_cons_of_isSome (by rw [hp]; rfl), List.find?_cons_of_pos (by simpa using hreads)]
      rfl

/-- The bytes of the id are what is read as it. -/
theorem chr_id {v : List UInt8} {r : BitVec 128} : String.ofList (v.map chr) = lowerHex r ↔ v = utf8 (lowerHex r) := by
  rw [← String.toList_inj, String.toList_ofList, ← lowerHex_chr]
  exact (List.map_injective_iff.mpr chr_inj).eq_iff

/-- The session is found as it is sent exactly in the clear headers. -/
theorem found_iff {pairs : List Pair} {own : Option (BitVec 128)} (h : Sends pairs own) :
    sessionId ⟨some (header pairs)⟩ = own.map lowerHex ↔ Clear pairs own := by
  by_cases hother : ∃ p ∈ pairs, p.NonAscii
  · obtain ⟨p, hp, ho⟩ := hother
    rw [sessionId_nonAscii hp ho]
    cases own with
    | none => exact ⟨fun _ => Or.inl ⟨p, hp, ho⟩, fun _ => rfl⟩
    | some r => exact ⟨fun e => (by cases e), fun hc => absurd ho (hc.1 p hp)⟩
  · have hascii : ∀ p ∈ pairs, ¬ p.NonAscii := fun p hp ho => hother ⟨p, hp, ho⟩
    rw [sessionId_header hascii]
    cases own with
    | none =>
      rw [Option.map_none, Option.map_eq_none_iff, List.findSome?_eq_none_iff]
      have hnone : (∀ p ∈ pairs, p.found = none) ↔ ∀ p ∈ pairs, ¬ p.Reads := forall₂_congr fun p _ => p.found_none
      rw [hnone]
      exact ⟨Or.inr, fun hc => hc.resolve_left hother⟩
    | some r =>
      obtain ⟨q, hq, hreads⟩ := h.own
      have hsome : (pairs.find? fun p => p.Reads).isSome := List.find?_isSome.mpr ⟨q, hq, decide_eq_true hreads⟩
      obtain ⟨p, hp⟩ := Option.isSome_iff_exists.mp hsome
      simp only [findSome?_found, hp, Option.bind_some, Option.map_some, Option.map_eq_some_iff, chr_id, exists_eq_right,
        found_id]
      exact ⟨fun hc => ⟨hascii, fun p' e => by cases e.symm.trans hp; exact hc⟩, fun hc => hc.2 p hp⟩

/-! ## Another cookie's bytes -/

theorem admits_all {bytes : List UInt8} (h : (bytes.all fun b => Admits b) = true) : ∀ b ∈ bytes, Admits b :=
  fun b hb => of_decide_eq_true (List.all_eq_true.mp h b hb)

theorem cookieName_admits : ∀ b ∈ utf8 cookieName, Admits b := by
  rw [utf8_eq]
  exact admits_all (by decide)

/-- Ours, after a space. -/
def sessionPair (r : BitVec 128) : Pair where
  before := 1
  name := utf8 cookieName
  value := utf8 (lowerHex r)
  after := 0
  admits _ hb := (List.mem_append.mp hb).elim (cookieName_admits _) fun h => (mem_lowerHex_utf8 h).2.2

theorem sends_own (r : BitVec 128) : Sends [sessionPair r] (some r) := by
  have hname : decide ((sessionPair r).name = utf8 cookieName) = true := decide_eq_true rfl
  rw [Sends, List.filter_singleton, hname]
  rfl

/-- With another pair before it. -/
theorem Sends.cons {p : Pair} {pairs : List Pair} {own : Option (BitVec 128)} (h : Sends pairs own)
    (hp : p.name ≠ utf8 cookieName) : Sends (p :: pairs) own := by
  rw [Sends, List.filter_cons_of_neg (by simpa using hp)]
  exact h

/-- `theme=dark` -/
def theme : Pair := ⟨0, [116, 104, 101, 109, 101], [100, 97, 114, 107], 0, admits_all (by decide)⟩

/-- `menu=café` -/
def menu : Pair := ⟨0, [109, 101, 110, 117], [99, 97, 102, 195, 169], 0, admits_all (by decide)⟩

theorem found_iff_theme : sessionId ⟨some (header [theme, sessionPair 1])⟩ = some (lowerHex 1) ↔
    Clear [theme, sessionPair 1] (some 1) :=
  found_iff ((sends_own 1).cons (by rw [utf8_eq]; decide))

/-- A byte of a cookie that is not ours is not ASCII. -/
theorem hidden_by_other : ¬ ∀ pairs own, Sends pairs own → sessionId ⟨some (header pairs)⟩ = own.map lowerHex := by
  intro h
  have hfound := h [menu, sessionPair 1] (some 1) ((sends_own 1).cons (by rw [utf8_eq]; decide))
  rw [sessionId_nonAscii List.mem_cons_self ⟨195, by decide, by decide⟩] at hfound
  cases hfound

end Kaguya.Web.Cookies
