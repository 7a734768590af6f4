/-
  Kaguya.Auth.Startup — the starts of the auth service, up to its serving (`main` without
  arguments in `auth/src/main.rs`, `jwks::publish`): the settings from the environment,
  the signing key (`Kaguya.Auth.Keys`), the key set that loreserver reads, the database,
  the verifiers. Starts come one after another on one keys directory; any call may fail,
  and any start may be killed after any of its calls, where the key file is spared
  (`Keys.Spared`, which `Starts` has of every call: no write of the key is cut short, and
  a key file that is there is seen). A publication that does not end leaves the file as it
  was, or any part of the new one.

  `tokens_survive`: while a start serves, `jwks.json` is the document of its signing key
  and no other; later starts leave that document or a first part of it; and what a start
  has signed is accepted by every start that serves, as long as it is fresh, under the
  issuer and audience it was signed for.
-/

import Kaguya.Lib.Json
import Kaguya.Auth.Keys
import Kaguya.Auth.Verify

namespace Kaguya.Auth.Startup

open Kaguya.Lib
open Kaguya.Lib.Json (Value render)
open Kaguya.Auth.Jwt
open Kaguya.Auth.Keys (KeyCrates KeyFile OwnJwk Signer SameKey Good Holds fromPem loadOrGenerate cut)
open Kaguya.Auth.Verify (SelfVerifier OidcVerifier VerifyError)

/-! ## The key set -/

/-- The members in the order of their names. -/
def jwkJson (jwk : OwnJwk) : Value (List Char) :=
  .obj [("alg".toList, .str jwk.alg.toList), ("e".toList, .str jwk.e.toList), ("kid".toList, .str jwk.kid.toList),
    ("kty".toList, .str jwk.kty.toList), ("n".toList, .str jwk.n.toList), ("use".toList, .str jwk.use.toList)]

def documentJson (jwk : OwnJwk) : Value (List Char) := .obj [("keys".toList, .arr [jwkJson jwk])]

/-- What `jwks::publish` writes. -/
def document (jwk : OwnJwk) : String := String.ofList (render (documentJson jwk))

/-- Strings of characters. -/
def chars : Json.Units Char := ⟨fun c => [c], Char.ofNat, fun c _ => by rw [Char.ofNat_toNat]⟩

/-- The file reads as what was published. -/
theorem parse_document (jwk : OwnJwk) : Json.parse chars (document jwk).toList = some (documentJson jwk) := by
  have hparse := Json.parse_render chars (documentJson jwk)
  have hlit : (fun s : List Char => s.flatMap chars.lit) = id := by
    funext s
    exact List.flatMap_singleton' s
  rw [document, String.toList_ofList, hparse, hlit]
  rfl

/-! ## Settings -/

abbrev Environ := String → Option String

def envRequired (env : Environ) (key : String) : Except String String :=
  match env key with
  | some value => .ok value
  | none => .error ("missing required env var " ++ key)

def dbPath (env : Environ) : String := (env "KAGUYA_DB_PATH").getD "/data/rebac.db"

def keysDir (env : Environ) : String := (env "KAGUYA_KEYS_DIR").getD "/keys"

/-- The audiences of provider tokens: the device client's and, if set, the web client's. -/
def oidcAudiences (env : Environ) (audience : String) : List String :=
  audience :: ((env "KAGUYA_WEB_AUDIENCE").filter (!·.isEmpty)).toList

structure Settings where
  oidcIssuer : String
  audience : String
  authIssuer : String

def settings (env : Environ) : Except String Settings := do
  let oidcIssuer ← envRequired env "KAGUYA_OIDC_ISSUER"
  let audience ← envRequired env "KAGUYA_JWT_AUDIENCE"
  let authIssuer ← envRequired env "KAGUYA_AUTH_ISSUER"
  return ⟨oidcIssuer, audience, authIssuer⟩

/-! ## A start -/

/-- What a start serves with. -/
structure Serving (K : KeyCrates) (lib : Jwt) where
  signer : Signer K
  selfVerifier : SelfVerifier lib
  oidc : OidcVerifier
  settings : Settings

inductive Call (K : KeyCrates) (lib : Jwt) where
  | key (c : Keys.Call)
  /-- `std::fs::write` of `jwks.json` -/
  | writeJwks (text : String)
  /-- `Store::open` -/
  | openStore (path : String)
  /-- `Server::serve`, until it ends -/
  | serve (v : Serving K lib)

@[reducible] def Call.Ans {K : KeyCrates} {lib : Jwt} : Call K lib → Type
  | key c => c.Ans K
  | writeJwks _ | openStore _ | serve _ => Except String Unit

section Main

variable (K : KeyCrates) (lib : Jwt)

abbrev Act (α : Type) := Prog (Call K lib) Call.Ans α

-- `serde_json::from_value` of our JWK
variable (fromValue : OwnJwk → Except String lib.Jwk)

/-- `Display` of `VerifyError` -/
def display : VerifyError → String
  | .malformed m => "malformed token: " ++ m
  | .unknownKid kid => "no IdP key for kid " ++ kid
  | .jwks m => "IdP JWKS unavailable: " ++ m
  | .invalid m => "token rejected: " ++ m

/-- `SelfVerifier::new`, of the JWK as JSON. -/
def selfVerifier (ownJwk : OwnJwk) (issuer audience : String) : Except VerifyError (SelfVerifier lib) :=
  match fromValue ownJwk with
  | .error e => .error (.jwks ("own jwk: " ++ e))
  | .ok jwk => SelfVerifier.new lib jwk issuer audience

/-- `main` without arguments. -/
def main (env : Environ) : Act K lib (Except String Unit) :=
  match settings env with
  | .error e => return .error e
  | .ok s => do
    let loaded : Except String (Signer K) ← (loadOrGenerate K).lift Call.key fun _ b => b
    match loaded with
    | .error e => return .error e
    | .ok signer =>
      let published : Except String Unit ← .ask (Call.writeJwks (document signer.ownJwk))
      match published with
      | .error e => return .error e
      | .ok _ =>
        let opened : Except String Unit ← .ask (Call.openStore (dbPath env))
        match opened with
        | .error e => return .error e
        | .ok _ =>
          match selfVerifier lib fromValue signer.ownJwk s.authIssuer s.audience with
          | .error e => return .error (display e)
          | .ok v => .ask (Call.serve ⟨signer, v, ⟨s.oidcIssuer, oidcAudiences env s.audience⟩, s⟩)

/-! ## Starts one after another -/

/-- The keys directory. -/
structure Dir where
  key : KeyFile
  jwks : Option String

def callSem : (c : Call K lib) → Dir → c.Ans → Dir → Prop
  | .key c, d, b, d' => Keys.callSem K c d.key b d'.key ∧ d'.jwks = d.jwks
  | .writeJwks text, d, .ok _, d' => d' = { d with jwks := some text }
  | .writeJwks text, d, .error _, d' => d' = d ∨ ∃ length, d' = { d with jwks := some (cut length text) }
  | .openStore _, d, _, d' => d' = d
  | .serve _, d, _, d' => d' = d

/-- The calls on the key file are spared (`Keys.Spared`); any other may fail. -/
def Spared : (c : Call K lib) → Dir → c.Ans → Dir → Prop
  | .key c, d, b, d' => Keys.Spared K c d.key b d'.key
  | _, _, _, _ => True

/-- The environments that name one keys directory. -/
structure Deployed (dir : String) where
  env : Environ
  keys : keysDir env = dir

abbrev Start (dir : String) := Job (Deployed dir) (Call K lib) Call.Ans (Except String Unit) Dir

/-- The starts so far, the last first, on a directory that had no key; what else may have
    been in it is not said. -/
def Starts (dir : String) : List (Start K lib dir) → Dir → Prop :=
  Serial (fun c d b d' => callSem K lib c d b d' ∧ Spared K lib c d b d') (fun i => main K lib fromValue i.env)
    (·.key = none)

end Main

/-! ## One start -/

variable {K : KeyCrates} {lib : Jwt} {fromValue : OwnJwk → Except String lib.Jwk} {dir : String}

/-- The start serves, or has served, with `v`. -/
def Serves (j : Start K lib dir) (v : Serving K lib) : Prop :=
  (∃ k, j.prog = .call (.serve v) k) ∨ ∃ x ∈ j.calls, x.call = .serve v

/-- What a start serves with: a signer from a key file, and the verifier of its own
    tokens, for the settings of its environment. -/
structure Built (fromValue : OwnJwk → Except String lib.Jwk) (env : Environ) (v : Serving K lib) : Prop where
  signer : ∃ pem, fromPem K pem = .ok v.signer
  settings : settings env = .ok v.settings
  verifier : selfVerifier lib fromValue v.signer.ownJwk v.settings.authIssuer v.settings.audience = .ok v.selfVerifier

/-- The directory has the signer's key, and its document. -/
def Shows (d : Dir) (signer : Signer K) : Prop := Holds d.key signer ∧ d.jwks = some (document signer.ownJwk)

/-- The directory has the signer's key, and its document or a first part of it. -/
def ShowsPart (d : Dir) (signer : Signer K) : Prop :=
  Holds d.key signer ∧
    (d.jwks = some (document signer.ownJwk) ∨ ∃ length, d.jwks = some (cut length (document signer.ownJwk)))

theorem Shows.part {d : Dir} {signer : Signer K} (h : Shows d signer) : ShowsPart d signer := ⟨h.1, Or.inl h.2⟩

/-- What a start has done to the directory `d₀` that it found. -/
structure Leaves (K : KeyCrates) (d₀ d : Dir) : Prop where
  kept : d₀.key = none ∨ d.key = d₀.key
  good : Good K d₀.key → Good K d.key
  jwks : d.jwks = d₀.jwks ∨ ∃ signer : Signer K, ShowsPart d signer

/-- A start that has not served. -/
def Unserved (l : Log (Call K lib) Call.Ans Dir) : Prop := ∀ x ∈ l, ∀ v, x.call ≠ .serve v

theorem unserved_cons {l : Log (Call K lib) Call.Ans Dir} {x : Answered (Call K lib) Call.Ans Dir} (h : Unserved l)
    (hx : ∀ v, x.call ≠ .serve v) : Unserved (x :: l) := by
  intro y hy
  rcases List.mem_cons.mp hy with rfl | hy
  · exact hx
  · exact h y hy

section Start

variable (fromValue) (env : Environ) (d₀ : Dir)

/-- Where a start is when it makes a call. -/
structure Pre (c : Call K lib) (l : Log (Call K lib) Call.Ans Dir) (d : Dir) : Prop where
  leaves : Leaves K d₀ d
  unserved : Unserved l
  serve : ∀ v, c = .serve v → Built fromValue env v ∧ Shows d v.signer

/-- Where it is when it has ended. -/
structure Post (l : Log (Call K lib) Call.Ans Dir) (d : Dir) : Prop where
  leaves : Leaves K d₀ d
  serve : ∀ x ∈ l, ∀ v, x.call = .serve v → Built fromValue env v ∧ Shows d v.signer

variable {fromValue env d₀}

/-- An end before it has served. -/
theorem post_unserved {l : Log (Call K lib) Call.Ans Dir} {d : Dir} (hl : Leaves K d₀ d) (hu : Unserved l) :
    Post fromValue env d₀ l d := ⟨hl, fun x hx v e => absurd e (hu x hx v)⟩

/-- A signer that is loaded is one of a key file's content. -/
theorem loadOrGenerate_from (s₀ : KeyFile) :
    Goes (fun c s b s' => Keys.callSem K c s b s' ∧ Keys.Spared K c s b s') (fun _ _ _ => True) (loadOrGenerate K)
      (fun r _ _ => ∀ signer, r = .ok signer → ∃ pem, fromPem K pem = .ok signer) [] s₀ := by
  refine ⟨trivial, fun made s₁ _ => ?_⟩
  cases made with
  | error err => exact fun signer e => by cases e
  | ok _ =>
    refine ⟨trivial, fun there s₂ _ => ?_⟩
    cases there with
    | true =>
      refine ⟨trivial, fun read s₃ _ => ?_⟩
      cases read with
      | error err => exact fun signer e => by cases e
      | ok pem => exact fun signer e => ⟨pem, e⟩
    | false =>
      refine ⟨trivial, fun generated s₃ _ => ?_⟩
      cases generated with
      | error err => exact fun signer e => by cases e
      | ok key =>
        cases hpem : K.toPkcs8Pem key with
        | error err =>
          simp only [Prog.bind, hpem]
          exact fun signer e => by cases e
        | ok pem =>
          simp only [Prog.bind, hpem]
          refine ⟨trivial, fun written s₄ _ => ?_⟩
          cases written with
          | error err => exact fun signer e => by cases e
          | ok _ => exact fun signer e => ⟨pem, e⟩

/-- The part of a start that loads the key: it leaves the key set as it is. -/
theorem load_goes (hd : K.Documented) :
    Goes (fun c d b d' => callSem K lib c d b d' ∧ Spared K lib c d b d') (Pre fromValue env d₀)
      ((loadOrGenerate K).lift Call.key fun _ b => b)
      (fun r l d => (d.jwks = d₀.jwks ∧ Unserved l) ∧ (∃ l, Keys.After d₀.key r l d.key) ∧
        ∀ signer, r = .ok signer → ∃ pem, fromPem K pem = .ok signer) [] d₀ := by
  have hgoes := goes_and (Keys.loadOrGenerate_goes hd d₀.key) (loadOrGenerate_from d₀.key)
  refine goes_mono ?_ (goes_lift Dir.key (fun l d => d.jwks = d₀.jwks ∧ Unserved l) ?_ ?_ hgoes ⟨rfl, fun x hx => by cases hx⟩)
  · rintro r l d ⟨hrest, l', hafter, hfrom⟩
    exact ⟨hrest, ⟨l', hafter⟩, hfrom⟩
  · rintro c l l' d ⟨⟨hkey, _⟩, _⟩ ⟨hjwks, hu⟩
    exact ⟨⟨Or.inr hkey, fun hg => hkey ▸ hg, Or.inl hjwks⟩, hu, fun v e => by cases e⟩
  · rintro c l d b d' ⟨hjwks, hu⟩ ⟨⟨hsem, hsame⟩, hspared⟩
    exact ⟨⟨hsem, hspared⟩, hsame.trans hjwks, unserved_cons hu fun v e => by cases e⟩

theorem main_goes (hd : K.Documented) :
    Goes (fun c d b d' => callSem K lib c d b d' ∧ Spared K lib c d b d') (Pre fromValue env d₀) (main K lib fromValue env)
      (fun _ l d => Post fromValue env d₀ l d) [] d₀ := by
  unfold main
  cases hs : settings env with
  | error e => exact post_unserved ⟨Or.inr rfl, id, Or.inl rfl⟩ fun x hx => by cases hx
  | ok s =>
    refine goes_bind (goes_mono ?_ (load_goes hd))
    rintro loaded l d ⟨⟨hjwks, hu⟩, ⟨l', hafter⟩, hfrom⟩
    have hleaves : Leaves K d₀ d := ⟨hafter.kept, hafter.good, Or.inl hjwks⟩
    cases loaded with
    | error e => exact post_unserved hleaves hu
    | ok signer =>
      have hholds : Holds d.key signer := hafter.holds signer rfl
      -- the publication
      refine ⟨⟨hleaves, hu, fun v e => by cases e⟩, fun published d₁ h₁ => ?_⟩
      obtain ⟨h₁, _⟩ := h₁
      have hu₁ : Unserved (⟨d, .writeJwks (document signer.ownJwk), published, d₁⟩ :: l) :=
        unserved_cons hu fun v e => by cases e
      cases published with
      | error e =>
        refine post_unserved ?_ hu₁
        rcases h₁ with rfl | ⟨length, rfl⟩
        · exact hleaves
        · exact ⟨hleaves.kept, hleaves.good, Or.inr ⟨signer, hholds, Or.inr ⟨length, rfl⟩⟩⟩
      | ok _ =>
        have hd₁ : d₁ = { d with jwks := some (document signer.ownJwk) } := h₁
        have hkey : d₁.key = d.key := by rw [hd₁]
        have hshows : Shows d₁ signer := ⟨hkey ▸ hholds, by rw [hd₁]⟩
        have hleaves₁ : Leaves K d₀ d₁ := ⟨hkey ▸ hleaves.kept, hkey ▸ hleaves.good, Or.inr ⟨signer, hshows.part⟩⟩
        -- the database
        refine ⟨⟨hleaves₁, hu₁, fun v e => by cases e⟩, fun opened d₂ h₂ => ?_⟩
        obtain ⟨rfl, _⟩ := h₂
        have hu₂ : Unserved (⟨d₂, .openStore (dbPath env), opened, d₂⟩ :: ⟨d, .writeJwks (document signer.ownJwk), _, d₂⟩ :: l) :=
          unserved_cons hu₁ fun v e => by cases e
        cases opened with
        | error e => exact post_unserved hleaves₁ hu₂
        | ok _ =>
          cases hv : selfVerifier lib fromValue signer.ownJwk s.authIssuer s.audience with
          | error e =>
            exact post_unserved hleaves₁ hu₂
          | ok v =>
            -- it serves
            have hbuilt : Built fromValue env ⟨signer, v, ⟨s.oidcIssuer, oidcAudiences env s.audience⟩, s⟩ :=
              ⟨hfrom signer rfl, hs, hv⟩
            refine ⟨⟨hleaves₁, hu₂, fun w e => ?_⟩, fun ended d₃ h₃ => ?_⟩
            · cases e
              exact ⟨hbuilt, hshows⟩
            · obtain ⟨rfl, _⟩ := h₃
              refine ⟨hleaves₁, fun x hx w e => ?_⟩
              rcases List.mem_cons.mp hx with rfl | hx
              · cases e
                exact ⟨hbuilt, hshows⟩
              · exact absurd e (hu₂ x hx w)

end Start

/-! ## Any number of starts -/

variable {starts older : List (Start K lib dir)} {j : Start K lib dir} {d : Dir}

theorem holds_same {s : KeyFile} {signer signer' : Signer K} (h : Holds s signer) (h' : Holds s signer') :
    SameKey signer signer' := by
  obtain ⟨content, held, hc, hdec, hsame⟩ := h
  obtain ⟨content', held', hc', hdec', hsame'⟩ := h'
  rw [hc] at hc'
  cases hc'
  rw [hdec] at hdec'
  cases hdec'
  exact hsame.trans hsame'.symm

/-- The last start, wherever it stands. -/
theorem last_start (hd : K.Documented) (h : Starts K lib fromValue dir (j :: older) d) :
    Leaves K j.start d ∧ ∀ v, Serves j v → Built fromValue j.info.env v ∧ Shows d v.signer := by
  have hbody (i : Deployed dir) (d₀ : Dir) : Goes _ (Pre fromValue i.env d₀) (main K lib fromValue i.env)
      (fun _ l d => Post fromValue i.env d₀ l d) [] d₀ := main_goes hd
  have hgoes := serial_goes hbody h
  cases hp : j.prog with
  | call c k =>
    rw [hp] at hgoes
    obtain ⟨hleaves, hu, hserve⟩ := hgoes.1
    refine ⟨hleaves, fun v hv => ?_⟩
    rcases hv with ⟨k', e⟩ | ⟨x, hx, e⟩
    · rw [hp] at e
      cases e
      exact hserve v rfl
    · exact absurd e (hu x hx v)
  | ret r =>
    rw [hp] at hgoes
    have hpost : Post fromValue j.info.env j.start j.calls d := hgoes
    refine ⟨hpost.leaves, fun v hv => ?_⟩
    rcases hv with ⟨k', e⟩ | ⟨x, hx, e⟩
    · rw [hp] at e
      cases e
    · exact hpost.serve x hx v e

/-- What a start has served with, later ones leave on the directory. -/
theorem shows_kept {signer : Signer K} {d₀ : Dir} (hl : Leaves K d₀ d) (h : ShowsPart d₀ signer) : ShowsPart d signer := by
  obtain ⟨hholds, hpart⟩ := h
  have hkey : d.key = d₀.key := by
    rcases hl.kept with hnone | hkey
    · obtain ⟨content, _, hc, _⟩ := hholds
      rw [hnone] at hc
      cases hc
    · exact hkey
  have hholds' : Holds d.key signer := hkey ▸ hholds
  refine ⟨hholds', ?_⟩
  rcases hl.jwks with hsame | ⟨signer', hholds₂, hpart₂⟩
  · rw [hsame]
    exact hpart
  · -- another start has published, the same key
    rw [(holds_same hholds' hholds₂).2]
    exact hpart₂

theorem starts_show (hd : K.Documented) (h : Starts K lib fromValue dir starts d) :
    ∀ j ∈ starts, ∀ v, Serves j v → Built fromValue j.info.env v ∧ ShowsPart d v.signer := by
  induction starts generalizing d with
  | nil =>
    intro j hj
    cases hj
  | cons j older ih =>
    obtain ⟨hleaves, hserve⟩ := last_start hd h
    intro j' hj' v hv
    rcases List.mem_cons.mp hj' with rfl | hj'
    · obtain ⟨hbuilt, hshows⟩ := hserve v hv
      exact ⟨hbuilt, hshows.part⟩
    · obtain ⟨hbuilt, hpart⟩ := ih (serial_tail h) j' hj' v hv
      exact ⟨hbuilt, shows_kept hleaves hpart⟩

/-! ## Tokens -/

/-- The two crates fit: the JWK of a signer is read as an RSA key, and what is encoded with
    its private key verifies under it. -/
structure Pairs (K : KeyCrates) (lib : Jwt) (fromValue : OwnJwk → Except String lib.Jwk)
    (encodingKey : K.EncodingKey → lib.EncodingKey) : Prop where
  reads : ∀ pem signer, fromPem K pem = .ok signer →
    ∃ jwk key, fromValue signer.ownJwk = .ok jwk ∧ lib.fromJwk jwk = .ok key ∧ lib.family key = .rsa
  verifies : ∀ pem signer jwk key header m token, fromPem K pem = .ok signer → fromValue signer.ownJwk = .ok jwk →
    lib.fromJwk jwk = .ok key → lib.encode header m (encodingKey signer.encodingKey) = .ok token →
    header.alg = .rs256 → lib.verifies key .rs256 token = true

theorem selfVerifier_built {env : Environ} {v : Serving K lib} (h : Built fromValue env v) :
    ∃ jwk, fromValue v.signer.ownJwk = .ok jwk ∧ lib.fromJwk jwk = .ok v.selfVerifier.key ∧
      v.selfVerifier.issuer = v.settings.authIssuer ∧ v.selfVerifier.audience = v.settings.audience := by
  have hv := h.verifier
  unfold selfVerifier at hv
  cases hjwk : fromValue v.signer.ownJwk with
  | error e =>
    rw [hjwk] at hv
    cases hv
  | ok jwk =>
    rw [hjwk] at hv
    simp only [SelfVerifier.new] at hv
    cases hkey : lib.fromJwk jwk with
    | error e =>
      rw [hkey] at hv
      cases hv
    | ok key =>
      rw [hkey] at hv
      have hv' : (⟨key, v.settings.authIssuer, v.settings.audience⟩ : SelfVerifier lib) = v.selfVerifier :=
        Except.ok.inj hv
      rw [← hv']
      exact ⟨jwk, rfl, hkey, rfl, rfl⟩

/-- A verifier accepts what a signer of its key has signed, for its issuer and audience. -/
theorem signed_accepted (hlib : lib.Documented) {encodingKey : K.EncodingKey → lib.EncodingKey}
    (hp : Pairs K lib fromValue encodingKey) {env env' : Environ} {v v' : Serving K lib} (hv : Built fromValue env v)
    (hv' : Built fromValue env' v') (hsame : SameKey v.signer v'.signer) {header : Header} {m : MintedClaims}
    {token : String} (henc : lib.encode header m (encodingKey v.signer.encodingKey) = .ok token)
    (halg : header.alg = .rs256) (hiss : m.iss = v'.settings.authIssuer) (haud : v'.settings.audience ∈ m.aud) {now : Nat}
    (hnow : now ≤ m.exp.toNat + 60) : v'.selfVerifier.claims now token = some m.identity := by
  obtain ⟨pem, hpem⟩ := hv.signer
  obtain ⟨jwk, hjwk, hkey, hissuer, haudience⟩ := selfVerifier_built hv'
  rw [← hsame.2] at hjwk
  obtain ⟨jwk₂, key₂, hjwk₂, hkey₂, hfamily⟩ := hp.reads pem _ hpem
  rw [hjwk] at hjwk₂
  cases hjwk₂
  rw [hkey] at hkey₂
  cases hkey₂
  obtain ⟨hheader, hpayload⟩ := hlib.encode_ok header m _ token henc
  refine (Verify.selfVerifier_ok hlib).mpr ⟨m.payload, ⟨⟨header, hheader, halg⟩, hfamily, ?_, hpayload, rfl, hnow⟩, ?_, ?_⟩
  · exact hp.verifies pem _ jwk _ header m token hpem hjwk hkey henc halg
  · simp [MintedClaims.payload, issuerOk, OneOrMany.shares, hissuer, hiss]
  · simp only [MintedClaims.payload, audienceOk, OneOrMany.shares, haudience, List.any_eq_true]
    exact ⟨_, haud, by simp⟩

/-- In every series of starts: while one serves, the directory shows its key's document,
    which reads as that one key; what later starts leave is that document or a first part
    of it, and they serve with the same key; and a token that any of them signed is
    accepted by all that serve under its issuer and audience while it is fresh. -/
theorem tokens_survive (hd : K.Documented) (hlib : lib.Documented) {encodingKey : K.EncodingKey → lib.EncodingKey}
    (hp : Pairs K lib fromValue encodingKey) (h : Starts K lib fromValue dir starts d) :
    (∀ later j older v, starts = later ++ j :: older → Serves j v → Shows j.state v.signer ∧
      Json.parse chars (document v.signer.ownJwk).toList = some (documentJson v.signer.ownJwk)) ∧
    (∀ j ∈ starts, ∀ v, Serves j v → ShowsPart d v.signer) ∧
    ∀ j ∈ starts, ∀ j' ∈ starts, ∀ v v', Serves j v → Serves j' v' → SameKey v.signer v'.signer ∧
      ∀ header m token now, lib.encode header m (encodingKey v.signer.encodingKey) = .ok token → header.alg = .rs256 →
        m.iss = v'.settings.authIssuer → v'.settings.audience ∈ m.aud → now ≤ m.exp.toNat + 60 →
        v'.selfVerifier.claims now token = some m.identity := by
  refine ⟨?_, ?_, ?_⟩
  · rintro later j older v rfl hv
    exact ⟨((last_start hd (serial_at h)).2 v hv).2, parse_document _⟩
  · intro j hj v hv
    exact (starts_show hd h j hj v hv).2
  · intro j hj j' hj' v v' hv hv'
    obtain ⟨hbuilt, hshows⟩ := starts_show hd h j hj v hv
    obtain ⟨hbuilt', hshows'⟩ := starts_show hd h j' hj' v' hv'
    have hsame := holds_same hshows.1 hshows'.1
    refine ⟨hsame, ?_⟩
    intro header m token now henc halg hiss haud hnow
    exact signed_accepted hlib hp hbuilt hbuilt' hsame henc halg hiss haud hnow

/-! ## Two starts -/

open Kaguya.Auth.Keys (twoKeys twoKeys_documented)

/-- The environment of the container. -/
def container : Deployed "/keys" where
  env name :=
    if name = "KAGUYA_OIDC_ISSUER" then some "https://idp.example"
    else if name = "KAGUYA_JWT_AUDIENCE" then some "lore.example"
    else if name = "KAGUYA_AUTH_ISSUER" then some "https://auth.lore.example"
    else none
  keys := rfl

def aliceClaims : MintedClaims where
  iss := "https://auth.lore.example"
  sub := "alice@example.com"
  aud := ["lore.example"]
  iat := 1000
  exp := 2000
  name := "Alice"
  preferredUsername := "alice"
  isServiceAccount := false
  resources := []

/-- Alice's token, signed with the second of the two keys. -/
def aliceToken : Entry := ⟨"eyJ.alice.sig", ⟨.rs256, none⟩, aliceClaims.payload, "PRIVATE KEY 1"⟩

def book : Jwt := Jwt.ofBook [aliceToken]

theorem book_documented : book.Documented := by
  refine Jwt.ofBook_documented ⟨?_, ?_⟩
  · intro e he
    rw [List.mem_singleton.mp he]
    rfl
  · intro e he claims hc
    rw [List.mem_singleton.mp he] at hc ⊢
    cases hc
    rfl

/-- The JWK of one of the two keys names its PEM. -/
def bookJwk (jwk : OwnJwk) : Except String book.Jwk :=
  .ok ⟨some jwk.kid, if jwk.n = twoKeys.base64url [1] then "PRIVATE KEY 1" else "PRIVATE KEY 0", .rsa⟩

theorem two_pems {pem : String} {signer : Signer twoKeys} (h : fromPem twoKeys pem = .ok signer) :
    pem = "PRIVATE KEY 1" ∨ pem = "PRIVATE KEY 0" := by
  by_contra hne
  obtain ⟨h₁, h₀⟩ := not_or.mp hne
  have herr : twoKeys.fromPkcs8Pem pem = .error "PEM error" := by
    simp only [twoKeys, if_neg h₁, if_neg h₀]
  unfold fromPem at h
  rw [herr] at h
  cases h

/-- The book has one token, which the second key signed. -/
theorem book_encode {header : Header} {m : MintedClaims} {pem token : String}
    (h : book.encode header m pem = .ok token) : token = aliceToken.token ∧ pem = "PRIVATE KEY 1" := by
  simp only [book, Jwt.ofBook, List.find?_cons, List.find?_nil] at h
  split at h
  · rename_i e he
    split at he
    · rename_i hc
      cases he
      cases h
      simp only [decide_eq_true_eq] at hc
      exact ⟨rfl, hc.2.2.symm⟩
    · cases he
  · cases h

theorem book_pairs : Pairs twoKeys book bookJwk id where
  reads pem signer h := ⟨_, _, rfl, rfl, rfl⟩
  verifies pem signer jwk key header m token h hjwk hkey henc halg := by
    rcases two_pems h with rfl | rfl
    · cases h
      cases hjwk
      cases hkey
      rw [(book_encode henc).1]
      decide
    · cases h
      have hsigner : "PRIVATE KEY 0" = "PRIVATE KEY 1" := (book_encode henc).2
      exact absurd hsigner (by decide)

/-- Every call succeeds. -/
def answer : (c : Call twoKeys book) → Dir → c.Ans × Dir
  | .key c, d => ((Keys.answer false c d.key).1, { d with key := (Keys.answer false c d.key).2 })
  | .writeJwks text, d => (.ok (), { d with jwks := some text })
  | .openStore _, d | .serve _, d => (.ok (), d)

theorem answer_sem (c : Call twoKeys book) (d : Dir) :
    callSem twoKeys book c d (answer c d).1 (answer c d).2 ∧ Spared twoKeys book c d (answer c d).1 (answer c d).2 := by
  cases c with
  | key c => exact ⟨⟨Keys.answer_sem false c d.key, rfl⟩, Keys.answer_spared c d.key⟩
  | writeJwks text => exact ⟨rfl, trivial⟩
  | openStore path => exact ⟨rfl, trivial⟩
  | serve v => exact ⟨rfl, trivial⟩

def attempt (d : Dir) (n : Nat) : Start twoKeys book "/keys" :=
  Job.play answer n ⟨container, d, [], d, main twoKeys book bookJwk container.env⟩

/-- A token signed by the first start is accepted by the second, which has read the key. -/
theorem tokens_survive_restart : ∃ v v' : Serving twoKeys book,
    Serves (attempt ⟨none, none⟩ 6) v ∧ Serves (attempt (attempt ⟨none, none⟩ 6).state 5) v' ∧
      v'.selfVerifier.claims 1500 "eyJ.alice.sig" = some aliceClaims.identity := by
  have h₀ : Starts twoKeys book bookJwk "/keys" [] ⟨none, none⟩ := .init _ rfl
  have h₁ : Starts twoKeys book bookJwk "/keys" [attempt ⟨none, none⟩ 6] (attempt ⟨none, none⟩ 6).state :=
    serial_play answer_sem 6 (.start container h₀)
  have h₂ : Starts twoKeys book bookJwk "/keys" [attempt (attempt ⟨none, none⟩ 6).state 5, attempt ⟨none, none⟩ 6]
      (attempt (attempt ⟨none, none⟩ 6).state 5).state :=
    serial_play answer_sem 5 (.start container h₁)
  have hkept := (tokens_survive twoKeys_documented book_documented book_pairs h₂).2.2
  refine ⟨_, _, Or.inl ⟨_, rfl⟩, Or.inl ⟨_, rfl⟩, ?_⟩
  have haccepts := (hkept _ (List.mem_cons_of_mem _ List.mem_cons_self) _ List.mem_cons_self _ _ (Or.inl ⟨_, rfl⟩)
    (Or.inl ⟨_, rfl⟩)).2
  exact haccepts ⟨.rs256, none⟩ aliceClaims "eyJ.alice.sig" 1500 rfl rfl rfl (by decide) (by decide)

end Kaguya.Auth.Startup
