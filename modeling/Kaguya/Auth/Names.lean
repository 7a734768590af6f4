/-
  Kaguya.Auth.Names — the display names of a minted token, and of the answer that
  carries it, over every run of the RPCs that mint. All three take the names from the
  identity they have accepted (`issued_names`), by the fallbacks of `displayNames`.

  The fallbacks look at whether a field is there, not at whether it is empty: the names
  are usable exactly if no field that is taken is empty (`names_usable_iff`), and
  `name_left_empty` is a login whose provider gives an empty `name`. A token that is
  exchanged keeps its names, so such a one stays without (`named_minted`).
-/

import Kaguya.Lib.Trace
import Kaguya.Auth.ServiceProofs

namespace Kaguya.Auth.Names

open Kaguya.Lib
open Kaguya.Auth.Jwt
open Kaguya.Auth.Service
open Kaguya.Auth.Verify (Unicode canonicalSubject)

variable {σ : Type}

/-! ## What a run has done -/

/-- A verification that has accepted the identity. -/
def Accepts : Answered Call Call.Ans σ → IdentityClaims → Prop
  | ⟨_, .identity _, r, _⟩, claims => r = .ok claims
  | ⟨_, .oidc _, r, _⟩, claims => r = .ok claims
  | _, _ => False

/-- The token that a reply carries. -/
def given : Reply → Option UserToken
  | .session t => t
  | .exchanged t => some t
  | _ => none

/-- The calls before the identity is accepted. -/
def Before : Call → Prop
  | .identity _ | .oidc _ | .encode .. => False
  | _ => True

/-- The calls from then on: what is minted has the identity's names. -/
def After (claims : IdentityClaims) : Call → Prop
  | .identity _ | .oidc _ => False
  | .encode _ m => m.name = (displayNames claims).1 ∧ m.preferredUsername = (displayNames claims).2
  | _ => True

/-- A run that accepts one identity, mints for that one only and answers with its name. -/
def Issued (l : List (Answered Call Call.Ans σ)) (t : UserToken) : Prop :=
  ∃ l₁ x l₂ claims, l = l₁ ++ x :: l₂ ∧ (∀ y ∈ l₁, Before y.call) ∧ Accepts x claims ∧
    (∀ y ∈ l₂, After claims y.call) ∧ t.userName = (displayNames claims).1

variable {U : Unicode} {a : AuthConfig} {l : List (Answered Call Call.Ans σ)} {claims : IdentityClaims} {t : UserToken}

/-- What a run does before it accepts the identity. -/
theorem issued_bind {α β : Type} {p : Act α} {f : α → Act β} {b : β} (hp : p.Makes Before)
    (h : (p >>= f).Leads l (.ret b))
    (hrest : ∀ v (l₂ : List (Answered Call Call.Ans σ)), (f v).Leads l₂ (.ret b) → Issued l₂ t) : Issued l t := by
  obtain ⟨l₀, l₂, v, rfl, h₁, h₂⟩ := Prog.leads_bind_ret h
  obtain ⟨l₁, x, l₃, claims, rfl, hbefore, hcourse⟩ := hrest v l₂ h₂
  refine ⟨l₀ ++ l₁, x, l₃, claims, (List.append_assoc l₀ l₁ _).symm, fun y hy => ?_, hcourse⟩
  rcases List.mem_append.mp hy with hy | hy
  · exact (Prog.leads_makes h₁ hp).1 y hy
  · exact hbefore y hy

/-! ## The handlers -/

/-- A handler that has come to its reply. -/
theorem leads_reply_ok {α : Type} {f : α → Reply} {p : Act (Except Status α)} {r : Reply}
    (h : (reply f p).Leads l (.ret (.ok r))) : ∃ v, p.Leads l (.ret (.ok v)) ∧ r = f v := by
  obtain ⟨l₁, l₂, v, rfl, h₁, h₂⟩ := Prog.leads_bind_ret h
  cases v with
  | error status => cases (Prog.leads_ret h₂).2
  | ok v =>
    obtain ⟨rfl, e⟩ := Prog.leads_ret h₂
    cases e
    exact ⟨v, (List.append_nil l₁).symm ▸ h₁, rfl⟩

/-- The calls of a login that has minted its token. -/
theorem authn_path (h : (mintAuthn U a claims).Leads l (.ret (.ok t))) : ∃ c c' e e' iat token,
    l = [⟨c, .nowSecs, iat, c'⟩,
      ⟨e, .encode (mintHeader a) (mintedFor a iat (canonicalSubject U claims) claims []), .ok token, e'⟩] ∧
    t = ⟨token, expiresAt claims.exp, canonicalSubject U claims, (displayNames claims).1⟩ := by
  obtain ⟨l₁, l₂, minted, rfl, h₁, h₂⟩ := Prog.leads_bind_ret h
  obtain ⟨c, iat, c', l₃, rfl, h₃⟩ := Prog.leads_ask_ret h₁
  obtain ⟨e, signed, e', l₄, rfl, h₄⟩ := Prog.leads_ask_ret (f := Prog.ret) h₃
  obtain ⟨rfl, e₁⟩ := Prog.leads_ret h₄
  cases e₁
  cases minted with
  | error m => cases (Prog.leads_ret h₂).2
  | ok token =>
    obtain ⟨rfl, e₂⟩ := Prog.leads_ret h₂
    cases e₂
    exact ⟨c, c', e, e', iat, token, rfl, rfl⟩

theorem authn_names (h : (mintAuthn U a claims).Leads l (.ret (.ok t))) :
    (∀ y ∈ l, After claims y.call) ∧ t.userName = (displayNames claims).1 := by
  refine ⟨(Prog.leads_makes h (makes_mintAuthn trivial fun _ => ⟨rfl, rfl⟩)).1, ?_⟩
  obtain ⟨l₁, l₂, signed, rfl, _, h₂⟩ := Prog.leads_bind_ret h
  cases signed with
  | error e => cases (Prog.leads_ret h₂).2
  | ok token =>
    obtain ⟨_, e⟩ := Prog.leads_ret h₂
    cases e
    rfl

theorem session_issued {code state : String} (h : (getAuthSession U a code state).Leads l (.ret (.ok (some t)))) :
    Issued l t := by
  refine issued_bind (p := .ask (Call.resolveSession code state)) (Prog.makes_ask trivial) h fun session l₁ h₁ => ?_
  cases session with
  | none => cases (Prog.leads_ret h₁).2
  | some found =>
    refine issued_bind (makes_poll found.2 found.1 trivial) h₁ fun polled l₂ h₂ => ?_
    rcases polled with e | pending | idToken | e
    · cases (Prog.leads_ret h₂).2
    · cases (Prog.leads_ret h₂).2
    · -- the verification
      obtain ⟨s, verified, s', l₃, rfl, h₃⟩ := Prog.leads_ask_ret h₂
      cases verified with
      | error e => cases (Prog.leads_ret h₃).2
      | ok claims =>
        obtain ⟨s₁, removed, s₁', l₄, rfl, h₄⟩ := Prog.leads_ask_ret h₃
        obtain ⟨l₅, l₆, minted, rfl, h₅, h₆⟩ := Prog.leads_bind_ret h₄
        cases minted with
        | error status => cases (Prog.leads_ret h₆).2
        | ok token =>
          obtain ⟨rfl, e⟩ := Prog.leads_ret h₆
          cases e
          obtain ⟨hafter, hname⟩ := authn_names h₅
          refine ⟨[], _, _, claims, rfl, fun y hy => (by cases hy), rfl, fun y hy => ?_, hname⟩
          rcases List.mem_cons.mp hy with rfl | hy
          · trivial
          · exact hafter y (List.append_nil l₅ ▸ hy)
    · obtain ⟨_, _, _, _, _, h₃⟩ := Prog.leads_ask_ret h₂
      cases (Prog.leads_ret h₃).2

theorem external_issued {token : String} (h : (exchangeExternalTokenForUserToken U a token).Leads l (.ret (.ok t))) :
    Issued l t := by
  unfold exchangeExternalTokenForUserToken at h
  by_cases hempty : token.isEmpty = true
  · rw [if_pos hempty] at h
    cases (Prog.leads_ret h).2
  rw [if_neg hempty] at h
  obtain ⟨s, verified, s', l₁, rfl, h₁⟩ := Prog.leads_ask_ret h
  cases verified with
  | error e => cases (Prog.leads_ret h₁).2
  | ok claims =>
    obtain ⟨hafter, hname⟩ := authn_names h₁
    exact ⟨[], _, _, claims, rfl, fun y hy => (by cases hy), rfl, hafter, hname⟩

theorem multiresource_issued {auth : Option String} {ids : List String}
    (h : (exchangeUserTokenForMultiresourceToken a auth ids).Leads l (.ret (.ok t))) : Issued l t := by
  unfold exchangeUserTokenForMultiresourceToken at h
  by_cases hempty : (bearer auth).isEmpty = true
  · simp only [if_pos hempty] at h
    cases (Prog.leads_ret h).2
  simp only [if_neg hempty] at h
  obtain ⟨s, verified, s', l₁, rfl, h₁⟩ := Prog.leads_ask_ret h
  cases verified with
  | error e => cases (Prog.leads_ret h₁).2
  | ok claims =>
    have hmakes : ∀ resources, (mint a.kid a.authIssuer a.audience claims.sub (displayNames claims).1 (displayNames claims).2
        claims.exp resources).Makes (After claims) := fun _ => makes_mint trivial fun _ => ⟨rfl, rfl⟩
    obtain ⟨l₂, l₃, resources, rfl, h₂, h₃⟩ := Prog.leads_bind_ret h₁
    obtain ⟨l₄, l₅, minted, rfl, h₄, h₅⟩ := Prog.leads_bind_ret h₃
    cases minted with
    | error e => cases (Prog.leads_ret h₅).2
    | ok token =>
      obtain ⟨rfl, e⟩ := Prog.leads_ret h₅
      cases e
      refine ⟨[], _, _, claims, rfl, fun y hy => (by cases hy), rfl, fun y hy => ?_, rfl⟩
      rcases List.mem_append.mp hy with hy | hy
      · exact (Prog.leads_makes h₂ (makes_grantedIds (fun _ => trivial) ids)).1 y hy
      · exact (Prog.leads_makes h₄ (hmakes resources)).1 y (List.append_nil l₄ ▸ hy)

/-- Every answer with a token is one of the three. -/
theorem issued_names {rpc : Rpc} {r : Reply} (h : (rpc.handle U a).Leads l (.ret (.ok r))) (ht : given r = some t) :
    Issued l t := by
  cases rpc with
  | getAuthSession code state =>
    obtain ⟨v, h₁, rfl⟩ := leads_reply_ok h
    cases ht
    exact session_issued h₁
  | exchangeExternalTokenForUserToken token =>
    obtain ⟨v, h₁, rfl⟩ := leads_reply_ok h
    cases ht
    exact external_issued h₁
  | exchangeUserTokenForMultiresourceToken auth ids =>
    obtain ⟨v, h₁, rfl⟩ := leads_reply_ok h
    cases ht
    exact multiresource_issued h₁
  | createResource | deleteResource | checkUserPermission | lookupUserPermissions | startAuthSession =>
    obtain ⟨v, _, rfl⟩ := leads_reply_ok h
    cases ht
  | healthCheck | getUserInfo =>
    cases (Prog.leads_ret h).2
    cases ht
  | refreshAuthSession | verifyUser | exchangeApiKeyForUserToken | getUserId | getProviderUserId =>
    cases (Prog.leads_ret h).2

/-! ## Usable names -/

/-- No field that the names are taken from is there and empty. -/
structure Named (claims : IdentityClaims) : Prop where
  name : claims.name ≠ some ""
  preferredUsername : claims.preferredUsername ≠ some ""
  email : claims.preferredUsername = none → claims.email ≠ some ""

theorem displayNames_usable (hsub : claims.sub ≠ "") :
    ((displayNames claims).1 ≠ "" ∧ (displayNames claims).2 ≠ "") ↔ Named claims := by
  obtain ⟨sub, exp, preferred, name, email, verified⟩ := claims
  constructor
  · intro h
    obtain ⟨hname, hpreferred⟩ := h
    refine ⟨fun e => ?_, fun e => ?_, fun enone e => ?_⟩
    · cases e
      exact hname rfl
    · cases e
      exact hpreferred rfl
    · cases enone
      cases e
      exact hpreferred rfl
  · intro h
    obtain ⟨hname, hpreferred, hemail⟩ := h
    cases preferred with
    | some p =>
      have hp : p ≠ "" := fun e => hpreferred (congrArg some e)
      refine ⟨?_, hp⟩
      cases name with
      | some n => exact fun e => hname (congrArg some e)
      | none => exact hp
    | none =>
      have hshown : (displayNames ⟨sub, exp, none, name, email, verified⟩).1 ≠ "" := by
        cases name with
        | some n => exact fun e => hname (congrArg some e)
        | none => cases email with
          | some m => exact fun e => hemail rfl (congrArg some e)
          | none => exact hsub
      refine ⟨hshown, ?_⟩
      cases email with
      | some m => exact fun e => hemail rfl (congrArg some e)
      | none => exact hshown

/-- A minted token that is exchanged: usable names stay, an empty one stays empty. -/
theorem named_minted (m : MintedClaims) : Named m.identity ↔ m.name ≠ "" ∧ m.preferredUsername ≠ "" := by
  constructor
  · intro h
    exact ⟨fun e => h.name (congrArg some e), fun e => h.preferredUsername (congrArg some e)⟩
  · intro h
    refine ⟨fun e => h.1 (Option.some.inj e), fun e => h.2 (Option.some.inj e), fun e => ?_⟩
    cases e

theorem Accepts.verifies {x : Answered Call Call.Ans σ} (h : Accepts x claims) (claims' : IdentityClaims) :
    ¬ Before x.call ∧ ¬ After claims' x.call := by
  obtain ⟨s, call, r, s'⟩ := x
  cases call with
  | identity | oidc => exact ⟨fun h => h, fun h => h⟩
  | _ => exact h.elim

theorem Accepts.unique {x : Answered Call Call.Ans σ} {claims' : IdentityClaims} (h : Accepts x claims)
    (h' : Accepts x claims') : claims' = claims := by
  obtain ⟨s, call, r, s'⟩ := x
  cases call with
  | identity | oidc => exact Except.ok.inj (h'.symm.trans h)
  | _ => exact h.elim

/-- The names of what is minted, and of the answer, are those of the identity that was
    accepted. -/
theorem issued_carries (h : Issued l t) (hc : ∃ x ∈ l, Accepts x claims) {header : Header} {m : MintedClaims}
    (hm : ∃ x ∈ l, x.call = .encode header m) :
    t.userName = (displayNames claims).1 ∧ m.name = (displayNames claims).1 ∧ m.preferredUsername = (displayNames claims).2 := by
  obtain ⟨l₁, y, l₂, claims', rfl, hbefore, hy, hafter, huser⟩ := h
  obtain ⟨x, hx, hxc⟩ := hc
  have hsame : claims' = claims := by
    rcases List.mem_append.mp hx with hx | hx
    · exact absurd (hbefore x hx) (hxc.verifies claims').1
    rcases List.mem_cons.mp hx with rfl | hx
    · exact hxc.unique hy
    · exact absurd (hafter x hx) (hxc.verifies claims').2
  subst hsame
  obtain ⟨z, hz, hzm⟩ := hm
  refine ⟨huser, ?_⟩
  rcases List.mem_append.mp hz with hz | hz
  · have := hbefore z hz
    rw [hzm] at this
    exact this.elim
  rcases List.mem_cons.mp hz with rfl | hz
  · obtain ⟨s, call, r, s'⟩ := z
    dsimp only at hzm
    subst hzm
    exact hy.elim
  · have := hafter z hz
    rwa [hzm] at this

/-- A minted token and the answer that carries it have usable names exactly if the
    identity that was accepted has no empty one. -/
theorem names_usable_iff {rpc : Rpc} {r : Reply} {header : Header} {m : MintedClaims}
    (h : (rpc.handle U a).Leads l (.ret (.ok r))) (ht : given r = some t) (hc : ∃ x ∈ l, Accepts x claims)
    (hm : ∃ x ∈ l, x.call = .encode header m) (hsub : claims.sub ≠ "") :
    (m.name ≠ "" ∧ m.preferredUsername ≠ "" ∧ t.userName ≠ "") ↔ Named claims := by
  obtain ⟨huser, hname, hpreferred⟩ := issued_carries (issued_names h ht) hc hm
  rw [huser, hname, hpreferred, ← displayNames_usable hsub]
  exact ⟨fun h => ⟨h.1, h.2.1⟩, fun h => ⟨h.1, h.2, h.1⟩⟩

/-! ## An empty name -/

/-- An identity without a name, and one whose provider gives an empty one. -/
def unnamed : IdentityClaims := { sub := "u1", exp := 2000, preferredUsername := some "ada" }

def emptied : IdentityClaims := { unnamed with name := some "" }

/-- What the exchange of a token of the identity mints, its calls, and its answer. -/
def mintedOf (claims : IdentityClaims) : MintedClaims := mintedFor AuthConfig.lore 1000 claims.sub claims []

def callsOf (claims : IdentityClaims) : List (Answered Call Call.Ans Unit) :=
  [⟨(), .oidc "token", .ok claims, ()⟩, ⟨(), .nowSecs, (1000 : UInt64), ()⟩,
    ⟨(), .encode (mintHeader AuthConfig.lore) (mintedOf claims), .ok "authn", ()⟩]

def answerOf (claims : IdentityClaims) : UserToken := ⟨"authn", 2000, claims.sub, (displayNames claims).1⟩

theorem unnamed_exchanged : ((Rpc.exchangeExternalTokenForUserToken "token").handle Unicode.ascii AuthConfig.lore).Leads
    (callsOf unnamed) (.ret (.ok (.exchanged (answerOf unnamed)))) := .cons (.cons (.cons (.nil _)))

theorem emptied_exchanged : ((Rpc.exchangeExternalTokenForUserToken "token").handle Unicode.ascii AuthConfig.lore).Leads
    (callsOf emptied) (.ret (.ok (.exchanged (answerOf emptied)))) := .cons (.cons (.cons (.nil _)))

theorem unnamed_usable : ((mintedOf unnamed).name ≠ "" ∧ (mintedOf unnamed).preferredUsername ≠ "" ∧
    (answerOf unnamed).userName ≠ "") ↔ Named unnamed :=
  names_usable_iff unnamed_exchanged rfl ⟨_, List.mem_cons_self, rfl⟩
    ⟨_, List.mem_cons_of_mem _ (List.mem_cons_of_mem _ List.mem_cons_self), rfl⟩ (by decide)

/-- An empty name is taken for a name, though the username would do. -/
theorem name_left_empty : ¬ ∀ (rpc : Rpc) (l : List (Answered Call Call.Ans Unit)) (r : Reply) (t : UserToken)
    (claims : IdentityClaims) (header : Header) (m : MintedClaims),
    (rpc.handle Unicode.ascii AuthConfig.lore).Leads l (.ret (.ok r)) → given r = some t → (∃ x ∈ l, Accepts x claims) →
    (∃ x ∈ l, x.call = .encode header m) → claims.sub ≠ "" → m.name ≠ "" ∧ m.preferredUsername ≠ "" ∧ t.userName ≠ "" := by
  intro h
  refine (h _ _ _ _ emptied (mintHeader AuthConfig.lore) (mintedOf emptied) emptied_exchanged rfl
    ⟨_, List.mem_cons_self, rfl⟩ ⟨_, List.mem_cons_of_mem _ (List.mem_cons_of_mem _ List.mem_cons_self), rfl⟩ (by decide)).1 rfl

end Kaguya.Auth.Names
