/-
  Kaguya.Auth.Sessions — the table of device logins (`auth/src/sessions.rs`) under any
  number of `StartAuthSession` and `GetAuthSession` calls at once. A method holds the
  table's mutex from its sweep to its end; the monotonic clock, in nanoseconds, is read
  for the sweep and again for the entry, and may have moved on in between.

  `Issued`: what a call of `StartAuthSession` put under its code and no call removed.
  With fresh codes the table is that, up to what has expired (`run_table`): so a lookup
  answers by the issuing call, the client state, the time and the removals alone
  (`resolve_iff`), and a sweep changes no answer. Only a call that got a session removes
  it, so calls with a wrong pair are invisible to all others (`purge`).
-/

import Kaguya.Auth.ServiceProofs
import Kaguya.Lib.Dict
import Kaguya.Lib.Trace

namespace Kaguya.Auth.Sessions

open Kaguya.Lib
open Kaguya.Auth.Jwt
open Kaguya.Auth.Service
open Kaguya.Auth.Verify (VerifyError Unicode)

/-! ## The table -/

structure Session where
  deviceCode : String
  tokenEndpoint : String
  clientState : String
  /-- Nanoseconds of the monotonic clock. -/
  expiresAt : Nat
  deriving DecidableEq

abbrev Table := Dict String Session

/-- Nanoseconds in a second. -/
def second : Nat := 1000000000

def sweep (now : Nat) (m : Table) : Table := m.retain fun _ s => decide (now < s.expiresAt)

/-- `Sessions::insert`; the sweep and the entry read the clock one after the other. -/
def insert (swept now : Nat) (m : Table) (sessionCode deviceCode tokenEndpoint clientState : String) (ttl : Nat) :
    Table :=
  (sweep swept m).insert sessionCode ⟨deviceCode, tokenEndpoint, clientState, now + ttl * second⟩

/-- What a lookup finds in a table that has been swept. -/
def lookup (now : Nat) (m : Table) (sessionCode clientState : String) : Option (String × String) :=
  (m.get sessionCode).bind fun s =>
    if s.clientState = clientState ∧ now < s.expiresAt then some (s.deviceCode, s.tokenEndpoint) else none

/-- `Sessions::resolve` -/
def resolve (swept now : Nat) (m : Table) (sessionCode clientState : String) : Option (String × String) × Table :=
  (lookup now (sweep swept m) sessionCode clientState, sweep swept m)

/-- `Sessions::remove` -/
def remove (m : Table) (sessionCode : String) : Table := m.remove sessionCode

theorem sweep_some {now : Nat} {m : Table} {code : String} {s : Session} :
    (sweep now m).get code = some s ↔ m.get code = some s ∧ now < s.expiresAt := by
  simp [sweep, Dict.get_retain_some]

theorem lookup_some {now : Nat} {m : Table} {code state : String} {r : String × String} :
    lookup now m code state = some r ↔ ∃ s, m.get code = some s ∧ s.clientState = state ∧ now < s.expiresAt ∧
      r = (s.deviceCode, s.tokenEndpoint) := by
  simp only [lookup, Option.bind_eq_some_iff]
  refine exists_congr fun s => and_congr_right fun _ => ?_
  split
  · rename_i h
    simp [h, eq_comm]
  · rename_i h
    simp only [reduceCtorEq, false_iff]
    exact fun h' => h ⟨h'.1, h'.2.1⟩

/-! ## The calls of the two RPCs -/

/-- A call of one of the two RPCs. -/
inductive Login where
  | start (clientState : String)
  | get (sessionCode clientState : String)

def Login.rpc : Login → Rpc
  | start state => .startAuthSession state
  | get code state => .getAuthSession code state

structure State where
  table : Table
  now : Nat

/-- The table's methods take their time and read the clock twice; whatever else a handler
    calls answers anything. -/
def callSem : (c : Call) → State → c.Ans → State → Prop
  | .insertSession code dc endpoint state ttl, s, _, s' =>
    ∃ swept, s.now ≤ swept ∧ swept ≤ s'.now ∧ s'.table = insert swept s'.now s.table code dc endpoint state ttl
  | .resolveSession code state, s, b, s' =>
    ∃ swept, s.now ≤ swept ∧ swept ≤ s'.now ∧ (b, s'.table) = resolve swept s'.now s.table code state
  | .removeSession code, s, _, s' => s' = { s with table := remove s.table code }
  | _, s, _, s' => s' = s

/-- Time passes. -/
def tickSem (now : Nat) (s s' : State) : Prop := s.now ≤ now ∧ s' = { s with now }

def logins (U : Unicode) (a : AuthConfig) : System Login Nat Call Call.Ans (Except Status Reply) State where
  sem _ := callSem
  env := tickSem
  body login := login.rpc.handle U a

abbrev LoginPool := Pool Login Call Call.Ans (Except Status Reply) State
abbrev History := Trace Login Nat Call Call.Ans State
abbrev Step := Moment Login Nat Call Call.Ans State
abbrev LoginAnswered := Answered Call Call.Ans State

/-- `Sessions::new` -/
def Empty (s : State) : Prop := s.table = Dict.empty

/-- A code that is drawn was not drawn before. -/
def FreshCodes (trace : History) (_ : LoginPool) (m : Step) : Prop :=
  ∀ n code, m.did = .called n .randomId code → ∀ x ∈ trace, ∀ k, x.did ≠ .called k .randomId code

/-! ## Where a call stands -/

/-- The calls of the login table. -/
def OnTable : Call → Prop
  | .insertSession .. | .resolveSession .. | .removeSession _ => True
  | _ => False

/-- A `StartAuthSession` has not come to its session yet, is about to insert it, or has. -/
inductive StartStage (state : String) : List LoginAnswered → Act (Except Status Reply) → Prop
  | early {l q} : (∀ x ∈ l, ¬ OnTable x.call) → (∀ c k, q = .call c k → ¬ OnTable c) → StartStage state l q
  | inserting {a a' b b' c c' : State} {code : String} {disco : Discovery} {resp : DeviceCodeResponse} {k} :
      StartStage state [⟨a, .discovery, .ok disco, a'⟩,
          ⟨b, .postDevice disco.deviceAuthorizationEndpoint, .ok resp, b'⟩, ⟨c, .randomId, code, c'⟩]
        (.call (.insertSession code resp.deviceCode disco.tokenEndpoint state (sessionTtl resp.expiresIn)) k)
  | inserted {a a' b b' c c' d d' : State} {code url : String} {disco : Discovery} {resp : DeviceCodeResponse} :
      StartStage state [⟨a, .discovery, .ok disco, a'⟩,
          ⟨b, .postDevice disco.deviceAuthorizationEndpoint, .ok resp, b'⟩, ⟨c, .randomId, code, c'⟩,
          ⟨d, .insertSession code resp.deviceCode disco.tokenEndpoint state (sessionTtl resp.expiresIn), (), d'⟩]
        (.ret (.ok (.started ⟨code, url⟩)))

/-- The calls of a `GetAuthSession` that was given a session. -/
def Follows (code deviceCode endpoint : String) : Call → Prop
  | .postToken e d => e = endpoint ∧ d = deviceCode
  | .removeSession c => c = code
  | .insertSession .. | .resolveSession .. => False
  | _ => True

/-- The call returned a token or `permission_denied`. -/
def Ended (r : Except Status Reply) : Prop :=
  (∃ t, r = .ok (.session (some t))) ∨ ∃ m, r = .error ⟨.permissionDenied, m⟩

theorem not_ended_error {message : String} : ¬ Ended (.error ⟨.internal, message⟩) := by
  intro h
  rcases h with ⟨t, e⟩ | ⟨m, e⟩ <;> cases e

theorem not_ended_pending : ¬ Ended (.ok (.session none)) := by
  intro h
  rcases h with ⟨t, e⟩ | ⟨m, e⟩ <;> cases e

/-- A `GetAuthSession` looks its session up first, and goes on only with one. -/
inductive GetStage (code state : String) : List LoginAnswered → Act (Except Status Reply) → Prop
  | begun {k} : GetStage code state [] (.call (.resolveSession code state) k)
  | missed {s s' : State} {r} : ¬ Ended r → GetStage code state [⟨s, .resolveSession code state, none, s'⟩] (.ret r)
  | found {s s' : State} {deviceCode endpoint : String} {l q} : (∀ x ∈ l, Follows code deviceCode endpoint x.call) →
      (∀ c k, q = .call c k → Follows code deviceCode endpoint c) →
      (∀ r, q = .ret r → Ended r → ∃ x ∈ l, x.call = .removeSession code) →
      GetStage code state (⟨s, .resolveSession code state, some (deviceCode, endpoint), s'⟩ :: l) q

variable {U : Unicode} {a : AuthConfig}

theorem start_stage {state : String} {l : List LoginAnswered} {q : Act (Except Status Reply)}
    (h : ((Login.start state).rpc.handle U a).Leads l q) : StartStage state l q := by
  -- discovery
  rcases Prog.leads_call h with ⟨rfl, rfl⟩ | ⟨s₁, disco, s₁', l₁, rfl, h₁⟩
  · exact .early (by simp) fun c k e => by cases e; exact id
  cases disco with
  | error e =>
    obtain ⟨rfl, rfl⟩ := Prog.leads_ret h₁
    exact .early (by simp [OnTable]) (by simp)
  | ok disco =>
    -- the device code
    rcases Prog.leads_call h₁ with ⟨rfl, rfl⟩ | ⟨s₂, resp, s₂', l₂, rfl, h₂⟩
    · exact .early (by simp [OnTable]) fun c k e => by cases e; exact id
    cases resp with
    | error e =>
      obtain ⟨rfl, rfl⟩ := Prog.leads_ret h₂
      exact .early (by simp [OnTable]) (by simp)
    | ok resp =>
      cases hurl : resp.verificationUriComplete.or resp.verificationUri with
      | none =>
        simp only [Prog.bind, hurl] at h₂
        obtain ⟨rfl, rfl⟩ := Prog.leads_ret h₂
        exact .early (by simp [OnTable]) (by simp)
      | some url =>
        -- the session code, and the session
        simp only [Prog.bind, hurl] at h₂
        rcases Prog.leads_call h₂ with ⟨rfl, rfl⟩ | ⟨s₃, code, s₃', l₃, rfl, h₃⟩
        · exact .early (by simp [OnTable]) fun c k e => by cases e; exact id
        rcases Prog.leads_call h₃ with ⟨rfl, rfl⟩ | ⟨s₄, b, s₄', l₄, rfl, h₄⟩
        · exact .inserting
        obtain ⟨rfl, rfl⟩ := Prog.leads_ret h₄
        exact .inserted

theorem get_stage {code state : String} {l : List LoginAnswered} {q : Act (Except Status Reply)}
    (h : ((Login.get code state).rpc.handle U a).Leads l q) : GetStage code state l q := by
  rcases Prog.leads_call h with ⟨rfl, rfl⟩ | ⟨s₁, session, s₁', l₁, rfl, h₁⟩
  · exact .begun
  cases session with
  | none =>
    obtain ⟨rfl, rfl⟩ := Prog.leads_ret h₁
    refine .missed fun he => ?_
    rcases he with ⟨t, e⟩ | ⟨m, e⟩ <;> cases e
  | some found =>
    obtain ⟨deviceCode, endpoint⟩ := found
    have hfollows : (∀ x ∈ l₁, Follows code deviceCode endpoint x.call) ∧
        q.Makes (Follows code deviceCode endpoint) := by
      refine Prog.leads_makes h₁ (makes_reply (Prog.makes_bind (makes_poll endpoint deviceCode ⟨rfl, rfl⟩) fun r => ?_))
      rcases r with e | p
      · trivial
      · cases p with
        | pending => trivial
        | denied e => exact ⟨rfl, fun _ => trivial⟩
        | token t =>
          refine Prog.makes_bind (Prog.makes_ask trivial) fun r => ?_
          cases r with
          | error e => trivial
          | ok claims =>
            refine Prog.makes_bind (Prog.makes_ask rfl) fun _ => ?_
            exact Prog.makes_bind (makes_mintAuthn trivial fun _ => trivial) fun r => by cases r <;> trivial
    refine .found hfollows.1 (fun c k e => (e ▸ hfollows.2).1) fun r e he => ?_
    subst e
    rcases Prog.leads_call h₁ with ⟨_, e⟩ | ⟨s₂, resp, s₂', l₂, rfl, h₂⟩
    · cases e
    cases resp with
    | error e =>
      cases (Prog.leads_ret h₂).2
      exact absurd he not_ended_error
    | ok resp =>
      cases hc : classify resp with
      | pending =>
        simp only [Prog.bind, hc] at h₂
        cases (Prog.leads_ret h₂).2
        exact absurd he not_ended_pending
      | denied e =>
        simp only [Prog.bind, hc] at h₂
        rcases Prog.leads_call h₂ with ⟨_, e⟩ | ⟨s₃, b, s₃', l₃, rfl, _⟩
        · cases e
        · exact ⟨_, List.mem_cons_of_mem _ List.mem_cons_self, rfl⟩
      | token t =>
        simp only [Prog.bind, hc] at h₂
        rcases Prog.leads_call h₂ with ⟨_, e⟩ | ⟨s₃, verified, s₃', l₃, rfl, h₃⟩
        · cases e
        cases verified with
        | error e =>
          cases (Prog.leads_ret h₃).2
          exact absurd he not_ended_error
        | ok claims =>
          rcases Prog.leads_call h₃ with ⟨_, e⟩ | ⟨s₄, b, s₄', l₄, rfl, _⟩
          · cases e
          · exact ⟨_, List.mem_cons_of_mem _ (List.mem_cons_of_mem _ List.mem_cons_self), rfl⟩

end Kaguya.Auth.Sessions
