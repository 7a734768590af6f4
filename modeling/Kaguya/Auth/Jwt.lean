/-
  Kaguya.Auth.Jwt — tokens: the claims the service reads and writes, and the token
  library it uses (the jsonwebtoken crate, not part of the repository) as a parameter.

  `Jwt` lists the library's functions that the service calls, and the notions its
  documentation speaks about: which key a signature verifies under, and what a token's
  payload says. `Jwt.Documented` is what the service relies on, one field a documented
  fact. `Validation::new` makes only `exp` a required claim, with a leeway of 60 s;
  `set_issuer` and `set_audience` make `decode` compare a claim when the token carries
  it. A claim of another shape than the library reads is not compared.

  `Jwt.ofBook` is such a library over a finite book of tokens; the model runs on it.
-/

namespace Kaguya.Auth.Jwt

/-! ## Claims -/

/-- The identity claims read off a verified token. `sub` and `exp` carry into the minted
    token. -/
structure IdentityClaims where
  sub : String
  exp : UInt64
  preferredUsername : Option String := none
  name : Option String := none
  email : Option String := none
  emailVerified : Option Bool := none
  deriving DecidableEq, Repr

structure ResourceGrant where
  resourceId : String
  permission : List String
  deriving DecidableEq, Repr

structure MintedClaims where
  iss : String
  sub : String
  aud : List String
  iat : UInt64
  exp : UInt64
  name : String
  preferredUsername : String
  isServiceAccount : Bool
  resources : List ResourceGrant
  deriving DecidableEq, Repr

/-- The identity claims of a minted token: its `resources` are not among them, and it
    carries no email. -/
def MintedClaims.identity (m : MintedClaims) : IdentityClaims :=
  { sub := m.sub, exp := m.exp, preferredUsername := some m.preferredUsername, name := some m.name }

/-! ## The library's types -/

inductive AlgorithmFamily where
  | hmac
  | rsa
  | ec
  | ed
  deriving DecidableEq, Repr

inductive Algorithm where
  | hs256 | hs384 | hs512
  | es256 | es384
  | rs256 | rs384 | rs512
  | ps256 | ps384 | ps512
  | edDSA
  deriving DecidableEq, Repr

def Algorithm.family : Algorithm → AlgorithmFamily
  | hs256 | hs384 | hs512 => .hmac
  | es256 | es384 => .ec
  | rs256 | rs384 | rs512 | ps256 | ps384 | ps512 => .rsa
  | edDSA => .ed

structure Header where
  alg : Algorithm
  kid : Option String
  deriving DecidableEq, Repr

/-- A registered claim as the validation finds it. -/
inductive TryParse (α : Type) where
  | parsed (a : α)
  | failedToParse
  | notPresent
  deriving DecidableEq, Repr

/-- `iss` and `aud` may be one string or several. -/
inductive OneOrMany where
  | single (s : String)
  | multiple (l : List String)
  deriving DecidableEq, Repr

/-- One of the claim's values is acceptable. -/
def OneOrMany.shares (acceptable : List String) : OneOrMany → Bool
  | single s => acceptable.contains s
  | multiple l => l.any acceptable.contains

/-- What a token's payload says: the registered claims for the validation, and the
    identity claims when it deserialises to them. -/
structure Payload where
  iss : TryParse OneOrMany
  aud : TryParse OneOrMany
  exp : TryParse UInt64
  identity : Option IdentityClaims
  deriving DecidableEq, Repr

inductive SpecClaim where
  | aud
  | exp
  | iss
  deriving DecidableEq, Repr

def Payload.carries (p : Payload) : SpecClaim → Bool
  | .aud => (p.aud matches .parsed _)
  | .exp => (p.exp matches .parsed _)
  | .iss => (p.iss matches .parsed _)

structure Validation where
  algorithms : List Algorithm
  requiredSpecClaims : List SpecClaim
  leeway : Nat
  validateExp : Bool
  validateAud : Bool
  iss : Option (List String)
  aud : Option (List String)
  deriving DecidableEq, Repr

/-- An issuer is compared when the token carries one and the validation names some. -/
def issuerOk : TryParse OneOrMany → Option (List String) → Bool
  | .parsed iss, some acceptable => iss.shares acceptable
  | _, _ => true

/-- Likewise the audience; one that is carried where none is expected is refused. -/
def audienceOk : TryParse OneOrMany → Option (List String) → Bool
  | .parsed aud, some acceptable => aud.shares acceptable
  | .parsed _, none => false
  | _, _ => true

def notExpired (now leeway : Nat) : TryParse UInt64 → Bool
  | .parsed exp => now - leeway ≤ exp.toNat
  | _ => true

/-- The checks `decode` makes on the claims at time `now`. -/
def Validation.accepts (v : Validation) (now : Nat) (p : Payload) : Bool :=
  v.requiredSpecClaims.all p.carries && (!v.validateExp || notExpired now v.leeway p.exp) && issuerOk p.iss v.iss &&
    (!v.validateAud || audienceOk p.aud v.aud)

def MintedClaims.payload (m : MintedClaims) : Payload :=
  { iss := .parsed (.single m.iss), aud := .parsed (.multiple m.aud), exp := .parsed m.exp,
    identity := some m.identity }

end Jwt

open Jwt

structure Jwt where
  Jwk : Type
  DecodingKey : Type
  EncodingKey : Type
  keyId : Jwk → Option String
  decodeHeader : String → Except String Header
  fromJwk : Jwk → Except String DecodingKey
  family : DecodingKey → AlgorithmFamily
  /-- The token's signature verifies under the key with the algorithm. -/
  verifies : DecodingKey → Algorithm → String → Bool
  payload : String → Option Payload
  validation : Algorithm → Validation
  setIssuer : Validation → List String → Validation
  setAudience : Validation → List String → Validation
  /-- `decode::<IdentityClaims>` at time `now`. -/
  decode : Nat → String → DecodingKey → Validation → Except String IdentityClaims
  encode : Header → MintedClaims → EncodingKey → Except String String

namespace Jwt

/-- What the service relies on. -/
structure Documented (lib : Jwt) : Prop where
  validation_new : ∀ alg, lib.validation alg =
    { algorithms := [alg], requiredSpecClaims := [.exp], leeway := 60, validateExp := true, validateAud := true,
      iss := none, aud := none }
  set_issuer : ∀ v issuers, lib.setIssuer v issuers = { v with iss := some issuers }
  set_audience : ∀ v audiences, lib.setAudience v audiences = { v with aud := some audiences }
  decode_ok : ∀ now token key v claims, lib.decode now token key v = .ok claims ↔
    ∃ header payload, lib.decodeHeader token = .ok header ∧ header.alg ∈ v.algorithms ∧
      (∀ alg ∈ v.algorithms, lib.family key = alg.family) ∧ lib.verifies key header.alg token = true ∧
      lib.payload token = some payload ∧ payload.identity = some claims ∧ v.accepts now payload = true
  /-- The validation and the claims read one `exp`. -/
  one_exp : ∀ token payload claims, lib.payload token = some payload → payload.identity = some claims →
    payload.exp = .parsed claims.exp
  /-- A token that was encoded decodes to what was put in. -/
  encode_ok : ∀ header claims key token, lib.encode header claims key = .ok token →
    lib.decodeHeader token = .ok header ∧ lib.payload token = some claims.payload

structure JwkSet (lib : Jwt) where
  keys : List lib.Jwk

/-- The first key with the id. -/
def JwkSet.find {lib : Jwt} (set : JwkSet lib) (kid : String) : Option lib.Jwk :=
  set.keys.find? fun jwk => lib.keyId jwk = some kid

/-! ## A library over a book of tokens -/

/-- A token, what it says, and the name of the key that signed it. -/
structure Entry where
  token : String
  header : Header
  payload : Payload
  signer : String
  deriving DecidableEq

structure BookJwk where
  kid : Option String
  key : String
  family : AlgorithmFamily
  deriving DecidableEq

def lookup (book : List Entry) (token : String) : Option Entry := book.find? (·.token = token)

/-- Keys are names; a signature verifies under the key that made it. Encoding gives the
    token of the book that says so. -/
def ofBook (book : List Entry) : Jwt where
  Jwk := BookJwk
  DecodingKey := BookJwk
  EncodingKey := String
  keyId := BookJwk.kid
  decodeHeader token := match lookup book token with
    | some e => .ok e.header
    | none => .error "InvalidToken"
  fromJwk jwk := .ok jwk
  family := BookJwk.family
  verifies key alg token := match lookup book token with
    | some e => e.signer = key.key ∧ alg = e.header.alg
    | none => false
  payload token := (lookup book token).map (·.payload)
  validation alg :=
    { algorithms := [alg], requiredSpecClaims := [.exp], leeway := 60, validateExp := true, validateAud := true,
      iss := none, aud := none }
  setIssuer v issuers := { v with iss := some issuers }
  setAudience v audiences := { v with aud := some audiences }
  decode now token key v := match lookup book token with
    | some e =>
      if e.header.alg ∈ v.algorithms ∧ (∀ alg ∈ v.algorithms, key.family = alg.family) ∧ e.signer = key.key ∧
          v.accepts now e.payload = true then
        match e.payload.identity with
        | some claims => .ok claims
        | none => .error "Json"
      else .error "InvalidToken"
    | none => .error "InvalidToken"
  encode header claims key :=
    match book.find? fun e => e.header = header ∧ e.payload = claims.payload ∧ e.signer = key with
    | some e => .ok e.token
    | none => .error "InvalidKeyFormat"

/-- One entry per token, and the payloads' two readings of `exp` agree. -/
structure BookOk (book : List Entry) : Prop where
  one : ∀ e ∈ book, lookup book e.token = some e
  exp : ∀ e ∈ book, ∀ claims ∈ e.payload.identity, e.payload.exp = .parsed claims.exp

theorem ofBook_documented {book : List Entry} (h : BookOk book) : (ofBook book).Documented where
  validation_new _ := rfl
  set_issuer _ _ := rfl
  set_audience _ _ := rfl
  decode_ok now token key v claims := by
    simp only [ofBook]
    cases lookup book token with
    | none => simp
    | some e =>
      simp only [Except.ok.injEq, Option.map_some, Option.some.injEq, exists_and_left, exists_eq_left']
      constructor
      · intro hd
        split at hd
        · rename_i hc
          obtain ⟨ha, hf, hs, hv⟩ := hc
          cases hi : e.payload.identity with
          | none => simp [hi] at hd
          | some c =>
            simp only [hi, Except.ok.injEq] at hd
            exact ⟨ha, hf, by simp [hs], by rw [hd], hv⟩
        · cases hd
      · intro h
        obtain ⟨ha, hf, hs, hi, hv⟩ := h
        have hs' : e.signer = key.key := by simpa using hs
        rw [if_pos ⟨ha, hf, hs', hv⟩, hi]
  one_exp token payload claims hp hi := by
    simp only [ofBook, Option.map_eq_some_iff] at hp
    obtain ⟨e, he, rfl⟩ := hp
    exact h.exp e (List.mem_of_find?_eq_some he) claims hi
  encode_ok header claims key token he := by
    simp only [ofBook] at he ⊢
    split at he
    · rename_i e hf
      have hm := List.mem_of_find?_eq_some hf
      have hc := List.find?_some hf
      simp only [decide_eq_true_eq] at hc
      cases he
      rw [h.one e hm]
      exact ⟨congrArg _ hc.1, congrArg _ hc.2.1⟩
    · cases he

end Jwt

end Kaguya.Auth
