/-
  Kaguya.Auth.Thumbprint — the kid of a signing key (`auth/src/keys.rs`,
  `Signer::from_pkcs8_pem`) against the key: modulus and exponent as big-endian bytes, in
  base64url, in the canonical JSON, hashed, and in base64url again. Each step but the hash
  loses nothing, so two keys with one kid are one key or collide under SHA-256
  (`kid_identifies`).
-/

import Kaguya.Auth.Keys
import Kaguya.Lib.Encoding
import Kaguya.Lib.Fields

namespace Kaguya.Auth.Keys

open Kaguya.Lib.Encoding
open Kaguya.Lib.Fields (field_inj)

/-- The public key as two numbers, with the bytes and the text of them that the crates
    document. -/
structure KeyCrates.Encodes (K : KeyCrates) (modulus exponent : K.Key → Nat) : Prop where
  n : ∀ key, K.n key = bytesBe (modulus key)
  e : ∀ key, K.e key = bytesBe (exponent key)
  base64url : ∀ bytes, K.base64url bytes = String.ofList (base64 urlSafe bytes)

/-- The canonical JSON of a public key. -/
def canonical (n e : String) : String := "\x7b\"e\":\"" ++ e ++ "\",\"kty\":\"RSA\",\"n\":\"" ++ n ++ "\"\x7d"

variable {K : KeyCrates} {modulus exponent : K.Key → Nat}

/-- What is hashed for the key. -/
def hashed (K : KeyCrates) (key : K.Key) : List UInt8 :=
  utf8 (canonical (K.base64url (K.n key)) (K.base64url (K.e key)))

theorem fromPem_kid {pem : String} {key : K.Key} {signer : Signer K} (hkey : K.fromPkcs8Pem pem = .ok key)
    (h : fromPem K pem = .ok signer) :
    signer.kid = K.base64url (K.sha256 (hashed K key)) ∧ signer.ownJwk =
      buildJwk signer.kid (K.base64url (K.n key)) (K.base64url (K.e key)) := by
  unfold fromPem at h
  rw [hkey] at h
  cases hpem : K.fromRsaPem pem with
  | error err =>
    rw [hpem] at h
    cases h
  | ok encodingKey =>
    rw [hpem] at h
    cases h
    exact ⟨rfl, rfl⟩

section Injective

variable (hK : K.Encodes modulus exponent)
include hK

theorem base64url_inj {xs ys : List UInt8} (h : K.base64url xs = K.base64url ys) : xs = ys := by
  rw [hK.base64url, hK.base64url] at h
  exact base64_inj urlSafe_inj (String.ofList_injective h)

theorem base64url_quote (bytes : List UInt8) : '"' ∉ (K.base64url bytes).toList := by
  rw [hK.base64url, String.toList_ofList]
  intro h
  exact absurd (mem_base64 h) (by decide)

/-- The canonical JSON tells exponent and modulus apart, wherever one ends. -/
theorem canonical_inj {n n' e e' : List UInt8}
    (h : canonical (K.base64url n) (K.base64url e) = canonical (K.base64url n') (K.base64url e')) : n = n' ∧ e = e' := by
  have hl := congrArg String.toList h
  simp only [canonical, String.toList_append, List.append_assoc] at hl
  have htail := List.append_cancel_left hl
  obtain ⟨he, hrest⟩ := field_inj (base64url_quote hK e) (base64url_quote hK e') htail
  have hrest := @List.append_cancel_left _ ",\"kty\":\"RSA\",\"n\":\"".toList _ _ hrest
  obtain ⟨hn, _⟩ := field_inj (base64url_quote hK n) (base64url_quote hK n') hrest
  exact ⟨base64url_inj hK (String.toList_inj.mp hn), base64url_inj hK (String.toList_inj.mp he)⟩

theorem hashed_inj {key key' : K.Key} (h : hashed K key = hashed K key') :
    modulus key = modulus key' ∧ exponent key = exponent key' := by
  obtain ⟨hn, he⟩ := canonical_inj hK (utf8_inj h)
  rw [hK.n, hK.n] at hn
  rw [hK.e, hK.e] at he
  exact ⟨bytesBe_inj hn, bytesBe_inj he⟩

theorem hashed_congr {key key' : K.Key} (h : modulus key = modulus key' ∧ exponent key = exponent key') :
    hashed K key = hashed K key' := by
  rw [hashed, hashed, hK.n, hK.n, hK.e, hK.e, h.1, h.2]

end Injective

/-- Two keys have one kid exactly if they are one, unless their JSON collides. -/
theorem kid_identifies (hK : K.Encodes modulus exponent) {pem pem' : String} {key key' : K.Key} {signer signer' : Signer K}
    (hkey : K.fromPkcs8Pem pem = .ok key) (hkey' : K.fromPkcs8Pem pem' = .ok key') (h : fromPem K pem = .ok signer)
    (h' : fromPem K pem' = .ok signer')
    (hfree : K.sha256 (hashed K key) = K.sha256 (hashed K key') → hashed K key = hashed K key') :
    (signer.kid = signer'.kid ↔ modulus key = modulus key' ∧ exponent key = exponent key') ∧
    (signer.ownJwk.kid = signer'.ownJwk.kid ↔ modulus key = modulus key' ∧ exponent key = exponent key') ∧
    (signer.ownJwk = signer'.ownJwk ↔ modulus key = modulus key' ∧ exponent key = exponent key') := by
  obtain ⟨hkid, hjwk⟩ := fromPem_kid hkey h
  obtain ⟨hkid', hjwk'⟩ := fromPem_kid hkey' h'
  have hiff : signer.kid = signer'.kid ↔ modulus key = modulus key' ∧ exponent key = exponent key' := by
    rw [hkid, hkid']
    constructor
    · intro hsame
      exact hashed_inj hK (hfree (base64url_inj hK hsame))
    · intro hsame
      rw [hashed_congr hK hsame]
  rw [hjwk, hjwk']
  refine ⟨hiff, hiff, fun hsame => hiff.mp (congrArg OwnJwk.kid hsame), fun hsame => ?_⟩
  rw [hiff.mpr hsame, hK.n, hK.n, hK.e, hK.e, hsame.1, hsame.2]

/-- Crates with two RSA keys, by modulus and exponent. -/
def rsaKeys : KeyCrates where
  Key := Nat × Nat
  EncodingKey := String
  toPkcs8Pem key := .ok (if key = (3233, 17) then "PRIVATE KEY 1" else "PRIVATE KEY 0")
  fromPkcs8Pem pem :=
    if pem = "PRIVATE KEY 1" then .ok (3233, 17) else if pem = "PRIVATE KEY 0" then .ok (3127, 3) else .error "PEM error"
  fromRsaPem pem := .ok pem
  n key := bytesBe key.1
  e key := bytesBe key.2
  base64url bytes := String.ofList (base64 urlSafe bytes)
  sha256 bytes :=
    if bytes = encode "\x7b\"e\":\"EQ\",\"kty\":\"RSA\",\"n\":\"DKE\"\x7d".toList then
      [106, 12, 33, 187, 84, 220, 67, 34, 158, 168, 180, 123, 45, 165, 153, 22, 74, 165, 231, 174, 236, 201, 98, 228,
        246, 231, 170, 139, 129, 122, 219, 215]
    else if bytes = encode "\x7b\"e\":\"Aw\",\"kty\":\"RSA\",\"n\":\"DDc\"\x7d".toList then
      [49, 181, 137, 17, 22, 101, 225, 237, 222, 252, 51, 190, 18, 200, 218, 226, 90, 199, 86, 100, 108, 154, 252, 46,
        135, 144, 68, 70, 230, 120, 158, 176]
    else []

theorem rsaKeys_encodes : rsaKeys.Encodes Prod.fst Prod.snd := ⟨fun _ => rfl, fun _ => rfl, fun _ => rfl⟩

theorem hashed_rsaKeys :
    hashed rsaKeys (3233, 17) = encode "\x7b\"e\":\"EQ\",\"kty\":\"RSA\",\"n\":\"DKE\"\x7d".toList ∧
    hashed rsaKeys (3127, 3) = encode "\x7b\"e\":\"Aw\",\"kty\":\"RSA\",\"n\":\"DDc\"\x7d".toList := by
  simp only [hashed, utf8_eq]
  decide

theorem kid_identifies_two : ∃ signer signer', fromPem rsaKeys "PRIVATE KEY 1" = .ok signer ∧
    fromPem rsaKeys "PRIVATE KEY 0" = .ok signer' ∧ (signer.kid = signer'.kid ↔ 3233 = 3127 ∧ 17 = 3) := by
  refine ⟨_, _, rfl, rfl, ?_⟩
  have h := @kid_identifies rsaKeys Prod.fst Prod.snd rsaKeys_encodes "PRIVATE KEY 1" "PRIVATE KEY 0" (3233, 17) (3127, 3) _ _
    rfl rfl rfl rfl fun hsame => by
      rw [hashed_rsaKeys.1, hashed_rsaKeys.2] at hsame
      exact absurd hsame (by decide)
  exact h.1

end Kaguya.Auth.Keys
