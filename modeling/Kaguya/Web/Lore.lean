/-
  Kaguya.Web.Lore — the client of loreserver (`web/src/lore.rs`): the list of repositories,
  the metadata of a call, and a repository's id as the hexadecimal name it has in URLs.

  A `&str` is sliced at byte offsets, and a slice that ends within a character panics
  (`slice`). `u8::from_str_radix` takes a leading `+`. So `from_hex` takes more than hex,
  and panics on some of what it does not take. `from_hex_exact_iff`: it does as it is
  meant to on strings of odd length, on hex, and where the first two bytes that it does
  not read as one are whole characters. `hex_round_trip`: every id comes back from its
  name.

  tonic is a parameter.
-/

import Kaguya.Lib.Encoding
import Kaguya.Web.Server

namespace Kaguya.Web.Lore

open Kaguya.Lib
open Kaguya.Lib.Encoding
open Kaguya.Web.Server (RepoSummary)

/-! ## Hex -/

/-- `{b:02x}` -/
def byteHex (b : UInt8) : String := String.ofList (List.leftpad 2 '0' (Nat.toDigits 16 b.toNat))

def hex (bytes : List UInt8) : String := bytes.foldl (fun s b => s ++ byteHex b) ""

/-- `str::is_char_boundary` -/
def isCharBoundary (s : List UInt8) (index : Nat) : Bool :=
  index == 0 || match s[index]? with
    | none => index == s.length
    | some b => b < 128 || 192 ≤ b

/-- `&s[i..j]`, which may panic. -/
def slice (s : List UInt8) (i j : Nat) : Option (List UInt8) :=
  if i ≤ j ∧ isCharBoundary s i ∧ isCharBoundary s j then some ((s.drop i).take (j - i)) else none

/-- `(b as char).to_digit(16)` -/
def toDigit (b : UInt8) : Option Nat :=
  if 48 ≤ b.toNat ∧ b.toNat ≤ 57 then some (b.toNat - 48)
  else if 97 ≤ b.toNat ∧ b.toNat ≤ 102 then some (b.toNat - 87)
  else if 65 ≤ b.toNat ∧ b.toNat ≤ 70 then some (b.toNat - 55)
  else none

inductive IntErrorKind where
  | empty
  | invalidDigit
  | posOverflow

/-- `Display` of a `ParseIntError` -/
def IntErrorKind.text : IntErrorKind → String
  | empty => "cannot parse integer from empty string"
  | invalidDigit => "invalid digit found in string"
  | posOverflow => "number too large to fit in target type"

def readDigits (acc : Nat) : List UInt8 → Except IntErrorKind UInt8
  | [] => .ok (UInt8.ofNat acc)
  | c :: rest =>
    match toDigit c with
    | none => .error .invalidDigit
    | some d => if acc * 16 + d < 256 then readDigits (acc * 16 + d) rest else .error .posOverflow

/-- `u8::from_str_radix(src, 16)`: a plus sign may stand in front, and of a sign alone the
    digit is missing. -/
def fromStrRadix : List UInt8 → Except IntErrorKind UInt8
  | [] => .error .empty
  | [c] => if c = 43 ∨ c = 45 then .error .invalidDigit else readDigits 0 [c]
  | c :: rest => if c = 43 then readDigits 0 rest else readDigits 0 (c :: rest)

/-- `map(f).collect()` into a `Result`: up to the first error, or panic. -/
def collect (f : Nat → Option (Except String UInt8)) : List Nat → Option (Except String (List UInt8))
  | [] => some (.ok [])
  | i :: rest =>
    match f i with
    | none => none
    | some (.error e) => some (.error e)
    | some (.ok b) => (collect f rest).map fun r => r.map (b :: ·)

/-- The two bytes at `i`. -/
def readPair (s : List UInt8) (i : Nat) : Option (Except String UInt8) :=
  (slice s i (i + 2)).map fun part => (fromStrRadix part).mapError fun e => "bad hex: " ++ e.text

/-- `none`: it panics. -/
def fromHex (s : String) : Option (Except String (List UInt8)) :=
  let bytes := utf8 s
  if bytes.length % 2 ≠ 0 then some (.error "odd-length hex")
  else collect (readPair bytes) (List.range' 0 ((bytes.length + 1) / 2) 2)

/-! ## Metadata -/

structure Tonic where
  /-- `MetadataValue<Ascii>` -/
  AsciiValue : Type
  /-- `MetadataValue<Binary>` -/
  BinaryValue : Type
  /-- `str::parse::<MetadataValue<Ascii>>` -/
  parse : String → Option AsciiValue
  /-- `MetadataValue::<Binary>::from_bytes` -/
  fromBytes : List UInt8 → BinaryValue

variable (t : Tonic)

/-- The metadata of a request. -/
structure Metadata where
  ascii : Dict String t.AsciiValue
  bin : Dict String t.BinaryValue

def setBearer (req : Metadata t) (token : String) : Except String (Metadata t) :=
  match t.parse ("Bearer " ++ token) with
  | none => .error "invalid bearer token"
  | some value => .ok { req with ascii := req.ascii.insert "authorization" value }

/-- Bearer and repository id, under its name and the fallback's. -/
def setRepoScope (req : Metadata t) (token : String) (repoId : List UInt8) : Except String (Metadata t) := do
  let req ← setBearer t req token
  let id := t.fromBytes repoId
  return { req with bin := (req.bin.insert "lore-partition-bin" id).insert "urc-repository-id-bin" id }

/-! ## The list -/

structure Repository where
  id : List UInt8
  name : String
  description : String
  defaultBranchName : String

structure RepositoryListResponse where
  repository : Option Repository

/-- The messages of a stream, and the status that broke it off, if one did. -/
structure Streaming where
  messages : List RepositoryListResponse
  broken : Option String

def summary (r : Repository) : RepoSummary := ⟨hex r.id, r.name, r.description, r.defaultBranchName⟩

/-- `LoreClient::list_repos`, from how the connection and the call went. -/
def listRepos (conn : Except String Unit) (token : String) (resp : Except String Streaming) :
    Except String (List RepoSummary) := do
  conn.mapError ("lore connect: " ++ ·)
  let _ ← setBearer t ⟨Dict.empty, Dict.empty⟩ token
  let stream ← resp.mapError ("repository_list: " ++ ·)
  let repos := stream.messages.filterMap fun msg => msg.repository.map summary
  match stream.broken with
  | some e => .error ("repository_list stream: " ++ e)
  | none => return repos

/-! ## What `from_hex` reads -/

/-- A byte that no character goes on with, at a place where one ends, or the end. -/
theorem isCharBoundary_append (cs ds : List Char) : isCharBoundary (encode cs ++ encode ds) (encode cs).length = true := by
  rw [isCharBoundary, List.getElem?_append_right (Nat.le_refl _), Nat.sub_self]
  cases hd : encode ds with
  | nil => simp
  | cons b rest =>
    have hb := encode_starts hd
    simp only [List.getElem?_cons_zero, Bool.or_eq_true, decide_eq_true_eq]
    exact Or.inr hb

/-- What `from_hex` makes of the characters after the first ones. -/
def readFrom (cs ds : List Char) : Option (Except String (List UInt8)) :=
  collect (readPair (encode (cs ++ ds))) (List.range' (encode cs).length ((encode ds).length / 2) 2)

theorem readFrom_nil (cs : List Char) : readFrom cs [] = some (.ok []) := rfl

/-- Whole characters of two bytes are read together. -/
theorem readFrom_whole (cs ds : List Char) {mid : List Char} (h : (encode mid).length = 2) :
    readFrom cs (mid ++ ds) = match fromStrRadix (encode mid) with
      | .error e => some (.error ("bad hex: " ++ e.text))
      | .ok v => (readFrom (cs ++ mid) ds).map fun r => r.map (v :: ·) := by
  have hpair : readPair (encode (cs ++ (mid ++ ds))) (encode cs).length =
      some ((fromStrRadix (encode mid)).mapError fun e => "bad hex: " ++ e.text) := by
    have hstart := isCharBoundary_append cs (mid ++ ds)
    have hend := isCharBoundary_append (cs ++ mid) ds
    simp only [encode_append, List.append_assoc, List.length_append, h] at hstart hend
    simp only [readPair, slice, encode_append, hstart, hend]
    simp [h]
  have hlen : (encode (mid ++ ds)).length / 2 = (encode ds).length / 2 + 1 := by
    rw [encode_append, List.length_append, h]
    omega
  rw [readFrom, hlen, List.range'_succ, collect, hpair]
  cases fromStrRadix (encode mid) with
  | error e => rfl
  | ok v =>
    simp only [Except.mapError]
    rw [readFrom, encode_append cs mid, List.length_append, h, List.append_assoc]

/-- A character goes on past the two bytes. -/
theorem readFrom_cut {cs ds : List Char} {a b x : UInt8} {rest : List UInt8} (h : encode ds = a :: b :: x :: rest)
    (hx : 128 ≤ x.toNat ∧ x.toNat < 192) : readFrom cs ds = none := by
  have hlen : (encode ds).length / 2 = (rest.length + 1) / 2 + 1 := by
    rw [h]
    simp only [List.length_cons]
    omega
  have hat : (encode cs ++ encode ds)[(encode cs).length + 2]? = some x := by
    rw [List.getElem?_append_right (by omega), h, Nat.add_sub_cancel_left]
    rfl
  have hend : isCharBoundary (encode cs ++ encode ds) ((encode cs).length + 2) = false := by
    have hlow : ¬ x < 128 := Nat.not_lt.mpr hx.1
    have hhigh : ¬ 192 ≤ x := Nat.not_le.mpr hx.2
    simp [isCharBoundary, hat, hlow, hhigh]
  rw [readFrom, hlen, List.range'_succ, collect, readPair, slice, encode_append, hend]
  simp

/-- `0` to `9`, `a` to `f` or `A` to `F` -/
def IsDigit (c : Char) : Prop := '0' ≤ c ∧ c ≤ '9' ∨ 'a' ≤ c ∧ c ≤ 'f' ∨ 'A' ≤ c ∧ c ≤ 'F'

instance (c : Char) : Decidable (IsDigit c) := inferInstanceAs (Decidable (_ ∨ _))

/-- Pairs that are read as a byte: two digits, or a plus sign and a digit. -/
inductive Pairs : List Char → Prop
  | nil : Pairs []
  | cons {a b : Char} {cs : List Char} : a = '+' ∨ IsDigit a → IsDigit b → Pairs cs → Pairs (a :: b :: cs)

theorem isDigit_ascii {c : Char} (h : IsDigit c) : c.toNat < 128 := by
  simp only [IsDigit, Char.le_def, UInt32.le_iff_toNat_le] at h
  have : c.toNat = c.val.toNat := rfl
  simp at h
  omega

theorem toDigit_low : ∀ n < 128, (IsDigit (Char.ofNat n) ↔ (toDigit (UInt8.ofNat n)).isSome) ∧
    ∀ d ∈ toDigit (UInt8.ofNat n), Nat.digitChar d = (Char.ofNat n).toLower := by
  decide

/-- A digit's byte has its value. -/
theorem isDigit_iff {c : Char} (hc : c.toNat < 128) : IsDigit c ↔ ∃ d, toDigit (UInt8.ofNat c.toNat) = some d := by
  have h := (toDigit_low c.toNat hc).1
  rw [Char.ofNat_toNat] at h
  rw [h, Option.isSome_iff_exists]

theorem toDigit_none {c : Char} (hc : c.toNat < 128) (h : ¬ IsDigit c) : toDigit (UInt8.ofNat c.toNat) = none := by
  rwa [isDigit_iff hc, ← Option.isSome_iff_exists, Option.not_isSome_iff_eq_none] at h

theorem digitChar_lower {c : Char} (hc : c.toNat < 128) {d : Nat} (hd : toDigit (UInt8.ofNat c.toNat) = some d) :
    Nat.digitChar d = c.toLower := by
  have h := (toDigit_low c.toNat hc).2 d hd
  rwa [Char.ofNat_toNat] at h

theorem encode_pair {a b : Char} (ha : a.toNat < 128) (hb : b.toNat < 128) :
    encode [a, b] = [UInt8.ofNat a.toNat, UInt8.ofNat b.toNat] := by
  rw [encode_cons, encode_cons, encode_ascii ha, encode_ascii hb]
  rfl

theorem toDigit_lt {b : UInt8} {d : Nat} (h : toDigit b = some d) : d < 16 := by
  unfold toDigit at h
  split at h
  · cases h
    omega
  · split at h
    · cases h
      omega
    · split at h
      · cases h
        omega
      · cases h

theorem readDigits_one {c : UInt8} {d : Nat} (h : toDigit c = some d) : readDigits 0 [c] = .ok (UInt8.ofNat d) := by
  have hd := toDigit_lt h
  simp only [readDigits, h, Nat.zero_mul, Nat.zero_add]
  exact if_pos (by omega)

theorem read_two {x y : UInt8} {p q : Nat} (hp : toDigit x = some p) (hq : toDigit y = some q) :
    fromStrRadix [x, y] = .ok (UInt8.ofNat (p * 16 + q)) := by
  have hp16 := toDigit_lt hp
  have hq16 := toDigit_lt hq
  have hplus : x ≠ 43 := by
    rintro rfl
    cases hp
  simp only [fromStrRadix, if_neg hplus, readDigits, hp, hq, Nat.zero_mul, Nat.zero_add]
  rw [if_pos (by omega), if_pos (by omega)]

/-- Two digits are read as their byte, a plus sign and a digit as the digit. -/
theorem read_pair {a b : Char} (ha : a = '+' ∨ IsDigit a) (hb : IsDigit b) :
    ∃ v, fromStrRadix (encode [a, b]) = .ok v ∧
      (IsDigit a → [Nat.digitChar (v.toNat / 16), Nat.digitChar (v.toNat % 16)] = [a.toLower, b.toLower]) := by
  have hbl := isDigit_ascii hb
  obtain ⟨q, hq⟩ := (isDigit_iff hbl).mp hb
  rcases ha with rfl | ha
  · refine ⟨UInt8.ofNat q, ?_, fun h => absurd h (by decide)⟩
    rw [encode_pair (by decide) hbl]
    exact readDigits_one hq
  · have hal := isDigit_ascii ha
    obtain ⟨p, hp⟩ := (isDigit_iff hal).mp ha
    have hq16 := toDigit_lt hq
    have hv : (UInt8.ofNat (p * 16 + q)).toNat = p * 16 + q := by
      have hp16 := toDigit_lt hp
      rw [UInt8.toNat_ofNat']
      omega
    refine ⟨UInt8.ofNat (p * 16 + q), ?_, fun _ => ?_⟩
    · rw [encode_pair hal hbl, read_two hp hq]
    · rw [hv, ← digitChar_lower hal hp, ← digitChar_lower hbl hq]
      congr <;> omega

/-- Two bytes are two characters of one byte, or one of two. -/
theorem two_bytes {mid : List Char} (h : (encode mid).length = 2) :
    (∃ a b, mid = [a, b] ∧ a.toNat < 128 ∧ b.toNat < 128) ∨
    ∃ c x y, mid = [c] ∧ encode mid = [x, y] ∧ 192 ≤ x.toNat := by
  cases mid with
  | nil => cases h
  | cons c mid =>
    rcases utf8_char c with ⟨hc, he⟩ | ⟨_, x, y, rest, he, hx, _⟩
    · rw [encode_cons, he, List.singleton_append, List.length_cons] at h
      cases mid with
      | nil => cases h
      | cons d mid =>
        rcases utf8_char d with ⟨hd, he⟩ | ⟨_, x, y, rest, he, _⟩
        · rw [encode_cons, he, List.singleton_append, List.length_cons] at h
          have hmid : mid = [] := encode_eq_nil (by omega)
          rw [hmid]
          exact Or.inl ⟨c, d, rfl, hc, hd⟩
        · rw [encode_cons, he] at h
          simp at h
    · rw [encode_cons, he] at h ⊢
      simp only [List.cons_append, List.length_cons, List.length_append] at h
      have hrest : rest = [] := List.length_eq_zero_iff.mp (by omega)
      have hmid : mid = [] := encode_eq_nil (by omega)
      subst hmid hrest
      exact Or.inr ⟨c, x, y, rfl, rfl, hx⟩

theorem toDigit_high {b : UInt8} (h : 192 ≤ b.toNat) : toDigit b = none := by
  unfold toDigit
  rw [if_neg (by omega), if_neg (by omega), if_neg (by omega)]

/-- Nothing else that is two bytes long is read. -/
theorem read_other {mid : List Char} (h : (encode mid).length = 2) (hn : ¬ Pairs mid) :
    ∃ e, fromStrRadix (encode mid) = .error e := by
  rcases two_bytes h with ⟨a, b, rfl, ha, hb⟩ | ⟨c, x, y, rfl, he, hx⟩
  · rw [encode_pair ha hb]
    simp only [fromStrRadix]
    split
    next hplus =>
      -- a plus sign, and no digit after it
      have ha' : a = '+' := by
        have hnat : a.toNat = '+'.toNat := by
          have := congrArg UInt8.toNat hplus
          rwa [UInt8.toNat_ofNat', Nat.mod_eq_of_lt (by omega)] at this
        rw [← Char.ofNat_toNat a, hnat, Char.ofNat_toNat]
      have hb' := toDigit_none hb fun h => hn (.cons (Or.inl ha') h .nil)
      simp only [readDigits, hb']
      exact ⟨_, rfl⟩
    next =>
      cases hx : toDigit (UInt8.ofNat a.toNat) with
      | none => simp [readDigits, hx]
      | some p =>
        have ha' : IsDigit a := (isDigit_iff ha).mpr ⟨p, hx⟩
        have hb' := toDigit_none hb fun h => hn (.cons (Or.inr ha') h .nil)
        simp only [readDigits, hx, hb']
        split <;> exact ⟨_, rfl⟩
  · have hplus : x ≠ 43 := by
      rintro rfl
      exact absurd hx (by decide)
    rw [he]
    simp only [fromStrRadix, if_neg hplus, readDigits, toDigit_high hx]
    exact ⟨_, rfl⟩

/-! ## Which strings it accepts -/

/-- The digits of bytes. -/
def digits (bytes : List UInt8) : List Char :=
  bytes.flatMap fun b => [Nat.digitChar (b.toNat / 16), Nat.digitChar (b.toNat % 16)]

@[simp] theorem digits_cons (b : UInt8) (bytes : List UInt8) :
    digits (b :: bytes) = Nat.digitChar (b.toNat / 16) :: Nat.digitChar (b.toNat % 16) :: digits bytes := rfl

theorem hex_toList (bytes : List UInt8) : (hex bytes).toList = digits bytes := by
  have hfold (s : String) : (bytes.foldl (fun s b => s ++ byteHex b) s).toList = s.toList ++ digits bytes := by
    induction bytes generalizing s with
    | nil => simp [digits]
    | cons b bytes ih =>
      rw [List.foldl_cons, ih, String.toList_append, byteHex, String.toList_ofList, leftpad_byte, List.append_assoc]
      rfl
  exact hfold ""

theorem readFrom_pairs {mid : List Char} (h : Pairs mid) : ∃ vs,
    (∀ cs ds, readFrom cs (mid ++ ds) = (readFrom (cs ++ mid) ds).map fun r => r.map (vs ++ ·)) ∧
    ((∀ c ∈ mid, IsDigit c) → digits vs = mid.map Char.toLower) := by
  induction h with
  | nil =>
    refine ⟨[], fun cs ds => ?_, fun _ => rfl⟩
    rw [List.append_nil, List.nil_append]
    cases readFrom cs ds with
    | none => rfl
    | some r => cases r <;> rfl
  | @cons a b mid ha hb hmid ih =>
    obtain ⟨v, hv, hlower⟩ := read_pair ha hb
    obtain ⟨vs, hread, hdigits⟩ := ih
    refine ⟨v :: vs, fun cs ds => ?_, fun hall => ?_⟩
    · have hlen : (encode [a, b]).length = 2 := by
        have ha' : a.toNat < 128 := ha.elim (fun e => by rw [e]; decide) isDigit_ascii
        rw [encode_pair ha' (isDigit_ascii hb)]
        rfl
      have hstep := readFrom_whole cs (mid ++ ds) hlen
      rw [hv] at hstep
      rw [show a :: b :: mid ++ ds = [a, b] ++ (mid ++ ds) from rfl, hstep, hread, List.append_assoc]
      change ((readFrom (cs ++ a :: b :: mid) ds).map fun r => r.map (vs ++ ·)).map (fun r => r.map (v :: ·)) = _
      cases readFrom (cs ++ a :: b :: mid) ds with
      | none => rfl
      | some r => cases r <;> rfl
    · rw [List.forall_mem_cons, List.forall_mem_cons] at hall
      have hab := hlower hall.1
      rw [digits_cons, hdigits hall.2.2]
      simp only [List.map_cons]
      rw [List.cons.injEq, List.cons.injEq] at hab
      rw [hab.1, hab.2.1]

theorem fromHex_even {s : String} (h : (utf8 s).length % 2 = 0) : fromHex s = readFrom [] s.toList := by
  have hn : ¬ (utf8 s).length % 2 ≠ 0 := not_not.mpr h
  simp only [fromHex, if_neg hn, readFrom, List.nil_append, encode_nil, List.length_nil, ← utf8_eq]
  rw [show ((utf8 s).length + 1) / 2 = (utf8 s).length / 2 by omega]

/-- An even number of bytes, all of them hexadecimal digits. -/
def IsHex (s : String) : Prop := (utf8 s).length % 2 = 0 ∧ ∀ c ∈ s.toList, IsDigit c

/-- `from_hex` accepts the string exactly if it is hex, as the bytes it is the hex of. -/
structure Exact (s : String) : Prop where
  hex : IsHex s → ∃ bytes, fromHex s = some (.ok bytes) ∧ hex bytes = s.map Char.toLower
  other : ¬ IsHex s → ∃ e, fromHex s = some (.error e)

/-- The first two bytes that are not read as one are whole characters. -/
def Stops (s : String) : Prop :=
  ∃ pre mid post, s = pre ++ mid ++ post ∧ Pairs pre.toList ∧ (utf8 mid).length = 2 ∧ ¬ Pairs mid.toList

/-- The first two bytes that are not read as one end within a character. -/
def Cuts (s : String) : Prop :=
  ∃ pre post a b x rest, s = pre ++ post ∧ Pairs pre.toList ∧ utf8 post = a :: b :: x :: rest ∧
    128 ≤ x.toNat ∧ x.toNat < 192

theorem digits_pairs : ∀ {cs : List Char}, (encode cs).length % 2 = 0 → (∀ c ∈ cs, IsDigit c) → Pairs cs
  | [], _, _ => .nil
  | [c], he, hd => by
    rw [encode_cons, encode_ascii (isDigit_ascii (hd c List.mem_cons_self))] at he
    cases he
  | a :: b :: cs, he, hd => by
    rw [List.forall_mem_cons, List.forall_mem_cons] at hd
    rw [encode_cons, encode_cons, encode_ascii (isDigit_ascii hd.1), encode_ascii (isDigit_ascii hd.2.1)] at he
    simp only [List.cons_append, List.nil_append, List.length_cons] at he
    exact .cons (Or.inr hd.1) hd.2.1 (digits_pairs (by omega) hd.2.2)

theorem IsHex.pairs {s : String} (h : IsHex s) : Pairs s.toList := digits_pairs (utf8_eq s ▸ h.1) h.2

theorem Stops.not_hex {s : String} (h : Stops s) : ¬ IsHex s := by
  obtain ⟨pre, mid, post, rfl, _, hmid, hnot⟩ := h
  intro hx
  refine hnot (digits_pairs (by rw [← utf8_eq, hmid]) fun c hc => hx.2 c ?_)
  rw [String.toList_append, String.toList_append]
  exact List.mem_append_left _ (List.mem_append_right _ hc)

theorem stops_of {pre mid : List Char} (post : List Char) (hpre : Pairs pre) (hmid : (encode mid).length = 2)
    (hnot : ¬ Pairs mid) : Stops (String.ofList (pre ++ (mid ++ post))) := by
  refine ⟨String.ofList pre, String.ofList mid, String.ofList post, ?_, ?_, ?_, ?_⟩
  · rw [String.ofList_append, String.ofList_append, String.append_assoc]
  · rwa [String.toList_ofList]
  · rwa [utf8_eq, String.toList_ofList]
  · rwa [String.toList_ofList]

theorem cuts_of {pre post : List Char} {a b x : UInt8} {rest : List UInt8} (hpre : Pairs pre)
    (hpost : encode post = a :: b :: x :: rest) (hx : 128 ≤ x.toNat ∧ x.toNat < 192) :
    Cuts (String.ofList (pre ++ post)) := by
  refine ⟨String.ofList pre, String.ofList post, a, b, x, rest, String.ofList_append, ?_, ?_, hx⟩
  · rwa [String.toList_ofList]
  · rwa [utf8_eq, String.toList_ofList]

theorem Pairs.append {cs ds : List Char} (h : Pairs cs) (h' : Pairs ds) : Pairs (cs ++ ds) := by
  induction h with
  | nil => exact h'
  | cons ha hb _ ih => exact .cons ha hb ih

/-- A character of several bytes, where a pair would start. -/
theorem wide_ends {pre cs : List Char} {c : Char} {b d : UInt8} {rest : List UInt8} (hpre : Pairs pre)
    (he : String.utf8EncodeChar c = b :: d :: rest) (hrest : ∀ x ∈ d :: rest, 128 ≤ x.toNat ∧ x.toNat < 192) :
    Stops (String.ofList (pre ++ c :: cs)) ∨ Cuts (String.ofList (pre ++ c :: cs)) := by
  cases rest with
  | nil =>
    have hlen : (encode [c]).length = 2 := by
      rw [encode_cons, he]
      rfl
    exact Or.inl (stops_of cs hpre hlen fun h => by cases h)
  | cons x rest =>
    have hpost : encode (c :: cs) = b :: d :: x :: (rest ++ encode cs) := by
      rw [encode_cons, he]
      rfl
    exact Or.inr (cuts_of hpre hpost (hrest x (List.mem_cons_of_mem _ List.mem_cons_self)))

theorem goes_on : ∀ {pre cs : List Char}, Pairs pre → (encode cs).length % 2 = 0 →
    Pairs (pre ++ cs) ∨ Stops (String.ofList (pre ++ cs)) ∨ Cuts (String.ofList (pre ++ cs))
  | pre, [], hpre, _ => Or.inl (by rwa [List.append_nil])
  | pre, [c], hpre, he => by
    rcases utf8_char c with ⟨_, hec⟩ | ⟨_, b, d, rest, hec, _, hrest⟩
    · rw [encode_cons, hec] at he
      cases he
    · exact Or.inr (wide_ends hpre hec hrest)
  | pre, c :: d :: cs, hpre, he => by
    rcases utf8_char c with ⟨_, hec⟩ | ⟨_, b, d, rest, hec, _, hrest⟩
    · rcases utf8_char d with ⟨_, hed⟩ | ⟨_, b, x, rest, hed, _, hrest⟩
      · have hlen : (encode [c, d]).length = 2 := by
          rw [encode_cons, encode_cons, hec, hed]
          rfl
        by_cases hcd : Pairs [c, d]
        · have hcs : (encode cs).length % 2 = 0 := by
            rw [encode_cons, encode_cons, hec, hed] at he
            simp only [List.cons_append, List.nil_append, List.length_cons] at he
            omega
          have ih := goes_on (hpre.append hcd) hcs
          rwa [List.append_assoc] at ih
        · exact Or.inr (Or.inl (stops_of cs hpre hlen hcd))
      · have hpost : encode (c :: d :: cs) = UInt8.ofNat c.toNat :: b :: x :: (rest ++ encode cs) := by
          rw [encode_cons, encode_cons, hec, hed]
          rfl
        exact Or.inr (Or.inr (cuts_of hpre hpost (hrest x List.mem_cons_self)))
    · exact Or.inr (wide_ends hpre hec hrest)

/-- A string of even length is read to its end, or to one of the two. -/
theorem pairs_stops_cuts {s : String} (h : (utf8 s).length % 2 = 0) : Pairs s.toList ∨ Stops s ∨ Cuts s := by
  have := goes_on .nil (utf8_eq s ▸ h)
  rwa [List.nil_append, String.ofList_toList] at this

theorem fromHex_pairs {s : String} (he : (utf8 s).length % 2 = 0) (h : Pairs s.toList) : ∃ bytes,
    fromHex s = some (.ok bytes) ∧ ((∀ c ∈ s.toList, IsDigit c) → hex bytes = s.map Char.toLower) := by
  obtain ⟨vs, hread, hdigits⟩ := readFrom_pairs h
  refine ⟨vs, ?_, fun hall => ?_⟩
  · have hall := hread [] []
    rw [List.append_nil, readFrom_nil] at hall
    rw [fromHex_even he, hall]
    simp [Except.map]
  · rw [← String.toList_inj, hex_toList, hdigits hall, String.toList_map]

theorem fromHex_stops {s : String} (he : (utf8 s).length % 2 = 0) (h : Stops s) : ∃ e, fromHex s = some (.error e) := by
  obtain ⟨pre, mid, post, rfl, hpre, hmid, hnot⟩ := h
  obtain ⟨vs, hread, _⟩ := readFrom_pairs hpre
  rw [utf8_eq] at hmid
  obtain ⟨e, hother⟩ := read_other hmid hnot
  have hstop := readFrom_whole ([] ++ pre.toList) post.toList hmid
  rw [hother] at hstop
  rw [fromHex_even he, String.toList_append, String.toList_append, List.append_assoc, hread, hstop]
  exact ⟨_, rfl⟩

theorem fromHex_cuts {s : String} (he : (utf8 s).length % 2 = 0) (h : Cuts s) : fromHex s = none := by
  obtain ⟨pre, post, a, b, x, rest, rfl, hpre, hpost, hx⟩ := h
  obtain ⟨vs, hread, _⟩ := readFrom_pairs hpre
  rw [utf8_eq] at hpost
  rw [fromHex_even he, String.toList_append, hread, readFrom_cut hpost hx]
  rfl

/-- On which strings it does. -/
theorem from_hex_exact_iff (s : String) : Exact s ↔ (utf8 s).length % 2 = 1 ∨ IsHex s ∨ Stops s := by
  constructor
  · intro h
    by_cases he : (utf8 s).length % 2 = 0
    · by_cases hx : IsHex s
      · exact Or.inr (Or.inl hx)
      · obtain ⟨e, herr⟩ := h.other hx
        rcases pairs_stops_cuts he with hp | hs | hc
        · obtain ⟨bytes, hok, _⟩ := fromHex_pairs he hp
          rw [hok] at herr
          cases herr
        · exact Or.inr (Or.inr hs)
        · rw [fromHex_cuts he hc] at herr
          cases herr
    · exact Or.inl (by omega)
  · rintro (ho | hx | hs)
    · have hnot : ¬ IsHex s := fun hx => by have := hx.1; omega
      refine ⟨fun hx => absurd hx hnot, fun _ => ⟨"odd-length hex", ?_⟩⟩
      exact if_pos (by omega)
    · obtain ⟨bytes, hok, hlower⟩ := fromHex_pairs hx.1 hx.pairs
      exact ⟨fun _ => ⟨bytes, hok, hlower hx.2⟩, fun hnot => absurd hx hnot⟩
    · refine ⟨fun hx => absurd hx hs.not_hex, fun _ => ?_⟩
      by_cases he : (utf8 s).length % 2 = 0
      · exact fromHex_stops he hs
      · exact ⟨"odd-length hex", if_pos (by omega)⟩

/-- A sign is taken for a digit, and a character cut in two. -/
theorem from_hex_not_exact : fromHex "+a" = some (.ok [10]) ∧ fromHex "a€" = none ∧ ¬ ∀ s, Exact s := by
  have hsign : fromHex "+a" = some (.ok [10]) := by
    rw [fromHex_even (by rw [utf8_eq]; decide)]
    rfl
  have hcut : fromHex "a€" = none := by
    rw [fromHex_even (by rw [utf8_eq]; decide)]
    rfl
  refine ⟨hsign, hcut, fun h => ?_⟩
  obtain ⟨e, herr⟩ := (h "+a").other fun hx => absurd (hx.2 '+' (by decide)) (by decide)
  rw [hsign] at herr
  cases herr

/-! ## A name and its id -/

theorem isDigit_digitChar : ∀ d < 16, IsDigit (Nat.digitChar d) ∧ toDigit (UInt8.ofNat (Nat.digitChar d).toNat) = some d := by
  decide

/-- A byte is read from its two digits. -/
theorem read_digits (b : UInt8) :
    fromStrRadix (encode [Nat.digitChar (b.toNat / 16), Nat.digitChar (b.toNat % 16)]) = .ok b := by
  have hb := b.toNat_lt
  obtain ⟨hd, hp⟩ := isDigit_digitChar (b.toNat / 16) (by omega)
  obtain ⟨hd', hq⟩ := isDigit_digitChar (b.toNat % 16) (by omega)
  rw [encode_pair (isDigit_ascii hd) (isDigit_ascii hd'), read_two hp hq, ofNat_eq]
  omega

theorem encode_digits_length (bytes : List UInt8) : (encode (digits bytes)).length = 2 * bytes.length := by
  induction bytes with
  | nil => rfl
  | cons b bytes ih =>
    have hb := b.toNat_lt
    have hd := isDigit_ascii (isDigit_digitChar (b.toNat / 16) (by omega)).1
    have hd' := isDigit_ascii (isDigit_digitChar (b.toNat % 16) (by omega)).1
    rw [digits_cons, encode_cons, encode_cons, encode_ascii hd, encode_ascii hd']
    simp only [List.cons_append, List.nil_append, List.length_cons, ih]
    omega

theorem readFrom_digits (cs : List Char) (bytes : List UInt8) : readFrom cs (digits bytes) = some (.ok bytes) := by
  induction bytes generalizing cs with
  | nil => rfl
  | cons b bytes ih =>
    have hstep := readFrom_whole cs (digits bytes) (encode_digits_length [b])
    rw [show digits [b] = [Nat.digitChar (b.toNat / 16), Nat.digitChar (b.toNat % 16)] from rfl, read_digits, ih] at hstep
    exact hstep

theorem fromHex_hex (bytes : List UInt8) : fromHex (hex bytes) = some (.ok bytes) := by
  have he : (utf8 (hex bytes)).length % 2 = 0 := by
    rw [utf8_eq, hex_toList, encode_digits_length]
    exact Nat.mul_mod_right 2 bytes.length
  rw [fromHex_even he, hex_toList, readFrom_digits]

theorem hex_inj {bytes other : List UInt8} (h : hex bytes = hex other) : bytes = other := by
  have hb := fromHex_hex bytes
  rw [h, fromHex_hex] at hb
  cases hb
  rfl

/-- A call scoped to a repository carries its id. -/
theorem setRepoScope_id {req req' : Metadata t} {token : String} {id : List UInt8}
    (h : setRepoScope t req token id = .ok req') : req'.bin.get "lore-partition-bin" = some (t.fromBytes id) := by
  unfold setRepoScope setBearer at h
  cases hp : t.parse ("Bearer " ++ token) with
  | none =>
    rw [hp] at h
    cases h
  | some value =>
    rw [hp] at h
    cases h
    exact (Dict.get_insert_ne _ _ (by decide)).trans (Dict.get_insert_self _ _ _)

theorem listRepos_ok {conn : Except String Unit} {token : String} {stream : Streaming} {repos : List RepoSummary}
    (h : listRepos t conn token (.ok stream) = .ok repos) :
    repos = stream.messages.filterMap fun msg => msg.repository.map summary := by
  obtain ⟨messages, broken⟩ := stream
  cases conn with
  | error e => cases h
  | ok _ =>
    cases hb : setBearer t ⟨Dict.empty, Dict.empty⟩ token with
    | error e =>
      simp only [listRepos, hb] at h
      cases h
    | ok req =>
      simp only [listRepos, hb] at h
      cases broken with
      | some e => cases h
      | none =>
        cases h
        rfl

/-- An id comes back from its name, which is no other id's, and so a repository's name in
    the list leads to the metadata for it. -/
theorem hex_round_trip :
    (∀ bytes, fromHex (hex bytes) = some (.ok bytes) ∧ (utf8 (hex bytes)).length = 2 * bytes.length) ∧
    (∀ bytes other, hex bytes = hex other → bytes = other) ∧
    ∀ conn token stream repos, listRepos t conn token (.ok stream) = .ok repos → ∀ shown ∈ repos,
      ∃ msg ∈ stream.messages, ∃ r, msg.repository = some r ∧ shown = summary r ∧
        fromHex shown.id = some (.ok r.id) ∧ ∀ req req' token', setRepoScope t req token' r.id = .ok req' →
          req'.bin.get "lore-partition-bin" = some (t.fromBytes r.id) := by
  refine ⟨fun bytes => ⟨fromHex_hex bytes, ?_⟩, fun _ _ => hex_inj, fun conn token stream repos h shown hs => ?_⟩
  · rw [utf8_eq, hex_toList, encode_digits_length]
  · rw [listRepos_ok t h, List.mem_filterMap] at hs
    obtain ⟨msg, hmsg, hshown⟩ := hs
    obtain ⟨r, hr, rfl⟩ := Option.map_eq_some_iff.mp hshown
    exact ⟨msg, hmsg, r, hr, rfl, fromHex_hex r.id, fun _ _ _ => setRepoScope_id t⟩

end Kaguya.Web.Lore
