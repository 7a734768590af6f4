/-
  Kaguya.Auth.Keys — the signing key over the starts of the service (`auth/src/keys.rs`,
  `Signer::load_or_generate`). A start reads the key file when it is there, and
  otherwise generates a key and writes it. Starts come one after another; any call may
  fail, and any start may be killed after any of its calls. A write that fails, or in
  which the start is killed, leaves no file or any prefix of the PEM.

  That the file is there is taken to mean that a key was persisted. So a file that was
  cut short stops every later start (`empty_file_stuck`). When each cut leaves no file
  or one that still decodes to the key, and `Path::exists` is right, every start whose
  calls succeed comes up, and all that came up have one key (`key_persists`).

  RSA, PEM, base64 and SHA-256 are other crates', a parameter.
-/

import Kaguya.Lib.Serial

namespace Kaguya.Auth.Keys

open Kaguya.Lib

/-! ## Other crates -/

structure KeyCrates where
  Key : Type
  EncodingKey : Type
  toPkcs8Pem : Key → Except String String
  fromPkcs8Pem : String → Except String Key
  fromRsaPem : String → Except String EncodingKey
  /-- `public.n().to_bytes_be()` -/
  n : Key → List UInt8
  /-- `public.e().to_bytes_be()` -/
  e : Key → List UInt8
  /-- `URL_SAFE_NO_PAD.encode` -/
  base64url : List UInt8 → String
  sha256 : List UInt8 → List UInt8

/-- A key is encoded, and its PEM decodes to it and can be signed with. -/
structure KeyCrates.Documented (K : KeyCrates) : Prop where
  encodes : ∀ key, ∃ pem, K.toPkcs8Pem key = .ok pem
  decodes : ∀ key pem, K.toPkcs8Pem key = .ok pem → K.fromPkcs8Pem pem = .ok key
  signs : ∀ key pem, K.toPkcs8Pem key = .ok pem → ∃ encodingKey, K.fromRsaPem pem = .ok encodingKey

/-! ## The signer -/

structure OwnJwk where
  kty : String
  use : String
  alg : String
  kid : String
  n : String
  e : String
  deriving DecidableEq

structure Signer (K : KeyCrates) where
  encodingKey : K.EncodingKey
  kid : String
  ownJwk : OwnJwk

variable (K : KeyCrates)

def buildJwk (kid n e : String) : OwnJwk := ⟨"RSA", "sig", "RS256", kid, n, e⟩

/-- RFC 7638 thumbprint of an RSA key. -/
def thumbprint (n e : String) : String :=
  let canonical := "\x7b\"e\":\"" ++ e ++ "\",\"kty\":\"RSA\",\"n\":\"" ++ n ++ "\"\x7d"
  K.base64url (K.sha256 canonical.toUTF8.toList)

def fromPem (pem : String) : Except String (Signer K) := do
  let key ← K.fromPkcs8Pem pem
  let n := K.base64url (K.n key)
  let e := K.base64url (K.e key)
  let kid := thumbprint K n e
  let ownJwk := buildJwk kid n e
  let encodingKey ← K.fromRsaPem pem
  return ⟨encodingKey, kid, ownJwk⟩

/-! ## A start -/

inductive Call where
  | createDirAll
  | pathExists
  | readToString
  | newKey
  /-- `std::fs::write` of the key file -/
  | write (pem : String)

@[reducible] def Call.Ans (K : KeyCrates) : Call → Type
  | createDirAll | write _ => Except String Unit
  | pathExists => Bool
  | readToString => Except String String
  | newKey => Except String K.Key

abbrev Act (α : Type) := Prog Call (Call.Ans K) α

/-- `Signer::load_or_generate` -/
def loadOrGenerate : Act K (Except String (Signer K)) := do
  let made : Except String Unit ← .ask Call.createDirAll
  match made with
  | .error err => return .error err
  | .ok _ =>
    let there : Bool ← .ask Call.pathExists
    if there then
      let read : Except String String ← .ask Call.readToString
      match read with
      | .error err => return .error err
      | .ok pem => return fromPem K pem
    else
      let generated : Except String K.Key ← .ask Call.newKey
      match generated with
      | .error err => return .error err
      | .ok key =>
        match K.toPkcs8Pem key with
        | .error err => return .error err
        | .ok pem =>
          let written : Except String Unit ← .ask (Call.write pem)
          match written with
          | .error err => return .error err
          | .ok _ => return fromPem K pem

abbrev KeyFile := Option String

/-- The first characters of a PEM, which is ASCII. -/
def cut (length : Nat) (pem : String) : String := String.ofList (pem.toList.take length)

/-- What a call does to the key file and may answer. `Path::exists` is false also when
    the file cannot be looked at. A write that fails has not created the file, or has
    written a part; a start that is killed in the write leaves the same and goes no
    further. -/
def callSem : (c : Call) → KeyFile → c.Ans K → KeyFile → Prop
  | .pathExists, s, b, s' => (b = true → s.isSome = true) ∧ s' = s
  | .readToString, s, b, s' => (∀ pem, b = .ok pem → s = some pem) ∧ s' = s
  | .write pem, _, .ok _, s' => s' = some pem
  | .write pem, s, .error _, s' => s' = s ∨ ∃ length, s' = some (cut length pem)
  | _, s, _, s' => s' = s

abbrev Start := Job Unit Call (Call.Ans K) (Except String (Signer K)) KeyFile

/-- The starts so far on a directory without a key, the last first, all of whose calls
    met `cond`. -/
def Starts (cond : (c : Call) → KeyFile → c.Ans K → KeyFile → Prop) : List (Start K) → KeyFile → Prop :=
  Serial (fun c s b s' => callSem K c s b s' ∧ cond c s b s') (fun _ => loadOrGenerate K) (· = none)

/-! ## Persistence -/

variable {K}

/-- The same key as far as anyone sees. -/
def SameKey (signer signer' : Signer K) : Prop := signer.kid = signer'.kid ∧ signer.ownJwk = signer'.ownJwk

theorem SameKey.symm {signer signer' : Signer K} (h : SameKey signer signer') : SameKey signer' signer :=
  ⟨h.1.symm, h.2.symm⟩

theorem SameKey.trans {signer signer' signer'' : Signer K} (h : SameKey signer signer')
    (h' : SameKey signer' signer'') : SameKey signer signer'' := ⟨h.1.trans h'.1, h.2.trans h'.2⟩

/-- The start's calls all succeeded, and it saw the key file if it was there. -/
def Works (l : Log Call (Call.Ans K) KeyFile) : Prop :=
  ∀ x ∈ l, match x with
    | ⟨s, .pathExists, b, _⟩ => b = s.isSome
    | ⟨_, .createDirAll, b, _⟩ | ⟨_, .write _, b, _⟩ => b = .ok ()
    | ⟨_, .readToString, b, _⟩ => ∃ pem, b = .ok pem
    | ⟨_, .newKey, b, _⟩ => ∃ key, b = .ok key

/-- A start whose calls succeed returns Ok, and all starts that returned Ok have one key. -/
structure Persists (starts : List (Start K)) : Prop where
  comesUp : ∀ j ∈ starts, Works j.calls → ∀ r, j.prog = .ret r → ∃ signer, r = .ok signer
  oneKey : ∀ j ∈ starts, ∀ j' ∈ starts, ∀ signer signer', j.prog = .ret (.ok signer) → j'.prog = .ret (.ok signer') →
    SameKey signer signer'

/-- The content decodes to the key of the PEM. -/
def Keeps (K : KeyCrates) (pem content : String) : Prop :=
  ∃ signer signer', fromPem K pem = .ok signer ∧ fromPem K content = .ok signer' ∧ SameKey signer signer'

/-- `Path::exists` sees the file that is there, and a write that does not end leaves no
    file or one that decodes to the key. -/
def Spared (K : KeyCrates) : (c : Call) → KeyFile → c.Ans K → KeyFile → Prop
  | .pathExists, s, b, _ => s.isSome = true → b = true
  | .write pem, _, .error _, s' => ∀ content, s' = some content → Keeps K pem content
  | _, _, _, _ => True

/-- What is in the key file, if it is there, decodes. -/
def Good (K : KeyCrates) (s : KeyFile) : Prop := ∀ content, s = some content → ∃ signer, fromPem K content = .ok signer

/-- The key file has the key of the signer. -/
def Holds (s : KeyFile) (signer : Signer K) : Prop :=
  ∃ content signer', s = some content ∧ fromPem K content = .ok signer' ∧ SameKey signer signer'

theorem pem_good (hd : K.Documented) {key : K.Key} {pem : String} (h : K.toPkcs8Pem key = .ok pem) :
    ∃ signer, fromPem K pem = .ok signer := by
  obtain ⟨encodingKey, hsigns⟩ := hd.signs key pem h
  unfold fromPem
  rw [hd.decodes key pem h, hsigns]
  exact ⟨_, rfl⟩

/-! ## One start -/

/-- Until it writes, a start leaves the file as it found it; it writes the PEM of a key,
    and only where it found no file. -/
def Before (K : KeyCrates) (s₀ : KeyFile) (c : Call) (_ : Log Call (Call.Ans K) KeyFile) (s : KeyFile) : Prop :=
  s = s₀ ∧ ∀ pem, c = .write pem → s₀ = none ∧ ∃ key, K.toPkcs8Pem key = .ok pem

structure After (s₀ : KeyFile) (r : Except String (Signer K)) (l : Log Call (Call.Ans K) KeyFile) (s : KeyFile) :
    Prop where
  kept : s₀ = none ∨ s = s₀
  good : Good K s₀ → Good K s
  holds : ∀ signer, r = .ok signer → Holds s signer
  comesUp : Works l → ((∃ signer, r = .ok signer) ↔ Good K s₀)

theorem after_error {s₀ : KeyFile} {err : String} {l : Log Call (Call.Ans K) KeyFile} (h : ¬ Works l) :
    After s₀ (.error err) l s₀ where
  kept := Or.inr rfl
  good := id
  holds signer e := by cases e
  comesUp hw := absurd hw h

theorem loadOrGenerate_goes (hd : K.Documented) (s₀ : KeyFile) :
    Goes (fun c s b s' => callSem K c s b s' ∧ Spared K c s b s') (Before K s₀) (loadOrGenerate K) (After s₀) [] s₀ := by
  -- the directory
  refine ⟨⟨rfl, fun _ e => by cases e⟩, fun made s hs => ?_⟩
  obtain rfl : s = s₀ := hs.1
  cases made with
  | error err => exact after_error fun hw => by cases hw _ List.mem_cons_self
  | ok _ =>
    -- whether the key is there
    refine ⟨⟨rfl, fun _ e => by cases e⟩, fun there s' hs => ?_⟩
    obtain ⟨⟨hthere, rfl⟩, hseen⟩ := hs
    cases there with
    | true =>
      refine ⟨⟨rfl, fun _ e => by cases e⟩, fun read s hs => ?_⟩
      obtain ⟨⟨hread, rfl⟩, _⟩ := hs
      cases read with
      | error err =>
        refine after_error fun hw => ?_
        obtain ⟨_, e⟩ := hw _ List.mem_cons_self
        cases e
      | ok pem =>
        have hpem := hread pem rfl
        refine ⟨Or.inr rfl, id, fun signer e => ?_, fun _ => ⟨fun hok content hc => ?_, fun hg => hg pem hpem⟩⟩
        · exact ⟨pem, signer, hpem, e, rfl, rfl⟩
        · rw [hpem] at hc
          cases hc
          exact hok
    | false =>
      have hnone : s' = none := by
        cases s' with
        | none => rfl
        | some content => cases hseen rfl
      subst hnone
      -- the new key
      refine ⟨⟨rfl, fun _ e => by cases e⟩, fun generated s hs => ?_⟩
      obtain rfl : s = none := hs.1
      cases generated with
      | error err =>
        refine after_error fun hw => ?_
        obtain ⟨_, e⟩ := hw _ List.mem_cons_self
        cases e
      | ok key =>
        obtain ⟨pem, hpem⟩ := hd.encodes key
        obtain ⟨signer, hsigner⟩ := pem_good hd hpem
        simp only [Prog.bind, hpem]
        -- its write
        refine ⟨⟨rfl, fun _ e => ⟨rfl, key, by cases e; exact hpem⟩⟩, fun written s hs => ?_⟩
        cases written with
        | error err =>
          refine ⟨Or.inl rfl, fun _ content hc => ?_, fun signer e => (by cases e), fun hw => ?_⟩
          · obtain ⟨_, signer', _, hdec, _⟩ := hs.2 content hc
            exact ⟨signer', hdec⟩
          · cases hw _ List.mem_cons_self
        | ok _ =>
          obtain rfl : s = some pem := hs.1
          refine ⟨Or.inl rfl, fun _ content hc => ?_, fun signer' e => ?_, fun _ => ?_⟩
          · cases hc
            exact ⟨signer, hsigner⟩
          · exact ⟨pem, signer', rfl, e, rfl, rfl⟩
          · exact ⟨fun _ content hc => (by cases hc), fun _ => ⟨signer, hsigner⟩⟩

/-! ## Any number of starts -/

/-- The key file of a run whose calls are all spared, and what its starts came to. -/
structure Kept (starts : List (Start K)) (s : KeyFile) : Prop where
  good : Good K s
  holds : ∀ j ∈ starts, ∀ signer, j.prog = .ret (.ok signer) → Holds s signer
  comesUp : ∀ j ∈ starts, Works j.calls → ∀ r, j.prog = .ret r → ∃ signer, r = .ok signer

/-- The last start, wherever it stands: the file as it found it or none found, and what it
    has come to. -/
theorem last_start (hd : K.Documented) {starts : List (Start K)} {j : Start K} {s : KeyFile}
    (h : Starts K (Spared K) (j :: starts) s) : (j.start = none ∨ s = j.start) ∧ (Good K j.start → Good K s) ∧
    ∀ r, j.prog = .ret r → After j.start r j.calls s := by
  have hgoes := serial_goes (fun _ s₀ => loadOrGenerate_goes hd s₀) h
  cases hq : j.prog with
  | call c k =>
    rw [hq] at hgoes
    obtain ⟨hs, _⟩ := hgoes.1
    exact ⟨Or.inr hs, fun hg => hs ▸ hg, fun r e => by cases e⟩
  | ret r =>
    rw [hq] at hgoes
    have hafter : After j.start r j.calls s := hgoes
    exact ⟨hafter.kept, hafter.good, fun r' e => by cases e; exact hafter⟩

theorem starts_kept (hd : K.Documented) {starts : List (Start K)} {s : KeyFile} (h : Starts K (Spared K) starts s) :
    Kept starts s := by
  induction starts generalizing s with
  | nil =>
    cases h with
    | init s hs => exact ⟨fun content hc => (by rw [hs] at hc; cases hc), fun _ hj => (by cases hj), fun _ hj => (by cases hj)⟩
  | cons j starts ih =>
    have hold := ih (serial_tail h)
    obtain ⟨hfile, hgood, hdone⟩ := last_start hd h
    refine ⟨hgood hold.good, fun j' hj' signer e => ?_, fun j' hj' hw r e => ?_⟩
    · rcases List.mem_cons.mp hj' with rfl | hj'
      · exact (hdone _ e).holds signer rfl
      · -- what the starts before came to, the last one keeps
        obtain ⟨content, signer', hc, hdec, hsame⟩ := hold.holds j' hj' signer e
        rcases hfile with hs | rfl
        · rw [hs] at hc
          cases hc
        · exact ⟨content, signer', hc, hdec, hsame⟩
    · rcases List.mem_cons.mp hj' with rfl | hj'
      · exact ((hdone r e).comesUp hw).mpr hold.good
      · exact hold.comesUp j' hj' hw r e

theorem key_persists (hd : K.Documented) {starts : List (Start K)} {s : KeyFile} (h : Starts K (Spared K) starts s) :
    Persists starts := by
  have hkept := starts_kept hd h
  refine ⟨hkept.comesUp, fun j hj j' hj' signer signer' e e' => ?_⟩
  obtain ⟨content, held, hc, hdec, hsame⟩ := hkept.holds j hj signer e
  obtain ⟨content', held', hc', hdec', hsame'⟩ := hkept.holds j' hj' signer' e'
  rw [hc] at hc'
  cases hc'
  rw [hdec] at hdec'
  cases hdec'
  exact hsame.trans hsame'.symm

/-! ## An empty key file -/

def twoKeys : KeyCrates where
  Key := Bool
  EncodingKey := String
  toPkcs8Pem key := .ok (if key then "PRIVATE KEY 1" else "PRIVATE KEY 0")
  fromPkcs8Pem pem :=
    if pem = "PRIVATE KEY 1" then .ok true else if pem = "PRIVATE KEY 0" then .ok false else .error "PEM error"
  fromRsaPem pem := .ok pem
  n key := [if key then 1 else 0]
  e _ := [1, 0, 1]
  base64url bytes := String.ofList (bytes.map fun b => Char.ofNat b.toNat)
  sha256 bytes := bytes

theorem twoKeys_documented : twoKeys.Documented where
  encodes key := ⟨_, rfl⟩
  decodes key pem h := by cases key <;> cases h <;> rfl
  signs key pem _ := ⟨pem, rfl⟩

/-- Every call succeeds, but for the write when the disk is full: it creates the file and
    writes nothing. -/
def answer (full : Bool) : (c : Call) → KeyFile → c.Ans twoKeys × KeyFile
  | .createDirAll, s => (.ok (), s)
  | .pathExists, s => (s.isSome, s)
  | .readToString, some pem => (.ok pem, some pem)
  | .readToString, none => (.error "No such file or directory", none)
  | .newKey, s => (.ok true, s)
  | .write pem, _ => if full then (.error "No space left on device", some (cut 0 pem)) else (.ok (), some pem)

theorem answer_sem (full : Bool) (c : Call) (s : KeyFile) : callSem twoKeys c s (answer full c s).1 (answer full c s).2 := by
  cases c with
  | pathExists => exact ⟨id, rfl⟩
  | readToString =>
    cases s with
    | none => exact ⟨fun pem e => (by cases e), rfl⟩
    | some pem => exact ⟨fun pem' e => (by cases e; rfl), rfl⟩
  | write pem =>
    cases full with
    | true => exact Or.inr ⟨0, rfl⟩
    | false => rfl
  | _ => rfl

/-- With room on the disk every call is spared. -/
theorem answer_spared (c : Call) (s : KeyFile) : Spared twoKeys c s (answer false c s).1 (answer false c s).2 := by
  cases c with
  | pathExists => exact id
  | readToString => cases s <;> trivial
  | _ => trivial

def attempt (full : Bool) (s : KeyFile) : Start twoKeys := Job.play (answer full) 5 ⟨(), s, [], s, loadOrGenerate twoKeys⟩

theorem attempt_starts {cond : (c : Call) → KeyFile → c.Ans twoKeys → KeyFile → Prop} {full : Bool}
    (hcond : ∀ c s, cond c s (answer full c s).1 (answer full c s).2) {starts : List (Start twoKeys)} {s : KeyFile}
    (h : Starts twoKeys cond starts s) : Starts twoKeys cond (attempt full s :: starts) (attempt full s).state :=
  serial_play (fun c s => ⟨answer_sem full c s, hcond c s⟩) 5 (.start () h)

def denied (c : Call) (s : KeyFile) : c.Ans twoKeys × KeyFile :=
  match c with
  | .createDirAll => (.error "Permission denied", s)
  | c => answer false c s

theorem denied_spared (c : Call) (s : KeyFile) : callSem twoKeys c s (denied c s).1 (denied c s).2 ∧
    Spared twoKeys c s (denied c s).1 (denied c s).2 := by
  cases c with
  | createDirAll => exact ⟨rfl, trivial⟩
  | _ => exact ⟨answer_sem false _ s, answer_spared _ s⟩

/-- A start that fails, and one that is killed before it writes. -/
def refused : Start twoKeys := Job.play denied 5 ⟨(), none, [], none, loadOrGenerate twoKeys⟩

def killed : Start twoKeys := Job.play (answer false) 3 ⟨(), none, [], none, loadOrGenerate twoKeys⟩

/-- After them, with room on the disk, two that come up. -/
theorem four_starts_persist : Persists [attempt false (attempt false none).state, attempt false none, killed, refused] := by
  have hrefused : Starts twoKeys (Spared twoKeys) [refused] none :=
    serial_play denied_spared 5 (.start () (.init none rfl))
  have hkilled : Starts twoKeys (Spared twoKeys) [killed, refused] none :=
    serial_play (fun c s => ⟨answer_sem false c s, answer_spared c s⟩) 3 (.start () hrefused)
  exact key_persists twoKeys_documented (attempt_starts answer_spared (attempt_starts answer_spared hkilled))

/-- The disk is full when the key is written; the next start finds the file empty. -/
theorem empty_file_stuck : ¬ ∀ (K : KeyCrates) (starts : List (Start K)) (s : KeyFile), K.Documented →
    Starts K (fun _ _ _ _ => True) starts s → Persists starts := by
  intro h
  have hfull : Starts twoKeys (fun _ _ _ _ => True) [attempt true none] (attempt true none).state :=
    attempt_starts (fun _ _ => trivial) (.init none rfl)
  have hruns : Starts twoKeys (fun _ _ _ _ => True) _ (attempt false (attempt true none).state).state :=
    attempt_starts (fun _ _ => trivial) hfull
  have hpersists := h twoKeys _ _ twoKeys_documented hruns
  have hworks : Works (attempt false (some "")).calls := by
    intro x hx
    change x ∈ [⟨some "", .readToString, .ok "", some ""⟩, ⟨some "", .pathExists, true, some ""⟩,
      ⟨some "", .createDirAll, .ok (), some ""⟩] at hx
    simp only [List.mem_cons, List.not_mem_nil, or_false] at hx
    rcases hx with rfl | rfl | rfl
    · exact ⟨"", rfl⟩
    · rfl
    · rfl
  obtain ⟨signer, e⟩ := hpersists.comesUp _ List.mem_cons_self hworks (.error "PEM error") rfl
  cases e

end Kaguya.Auth.Keys
