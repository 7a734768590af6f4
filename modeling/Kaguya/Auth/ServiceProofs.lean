/-
  Kaguya.Auth.ServiceProofs — what the handlers do (see `Kaguya.Auth.Service`).

  On the tables: only `CreateResource` and `DeleteResource` change them, the one by
  `record_owner` for its authenticated caller, the other by `delete_resource` after it
  read the caller as an owner (`serve_tables`, whatever statements fail).

  When no statement fails a handler's reply is a function of the tables and of what the
  caller's bearer resolves to: `serve_check`, `serve_lookup`, `serve_exchange`,
  `serve_create`, `serve_delete`, and the two logins (`serve_exchangeExternal`,
  `serve_getAuthSession`).
-/

import Kaguya.Auth.Service
import Kaguya.Auth.StoreProofs

namespace Kaguya.Auth.Service

open Kaguya.Lib
open Kaguya.Auth.Jwt
open Kaguya.Auth.Store
open Kaguya.Auth.Verify (VerifyError Unicode canonicalSubject)

/-! ## Calls that leave the tables alone -/

def Call.Quiet : Call → Prop
  | .store (.roleFor ..) | .store (.accessible _) => True
  | .store _ => False
  | _ => True

theorem exec_quiet {env : Env} {c : Call} (conn : Conn) (hc : c.Quiet) : (c.exec env conn).2.db = conn.db := by
  cases c with
  | store m =>
    have read : ∀ db', Leaves env.now m conn.db db' → db' = conn.db := by
      intro db' hp
      cases hp with
      | nothing => rfl
      | effect => cases m with
        | roleFor sub id => rfl
        | accessible sub => rfl
        | _ => exact hc.elim
      | resourceOnly => exact hc.elim
      | grantsOnly => exact hc.elim
    exact read _ (run_leaves env.now m conn)
  | _ => rfl

theorem run_quiet {α : Type} {env : Env} {p : Act α} (hp : p.Makes Call.Quiet) (conn : Conn) :
    (p.run (Call.exec env) conn).2.db = conn.db :=
  Prog.run_frame (Call.exec env) Conn.db hp (fun _ conn hc => exec_quiet conn hc) conn

/-- The header of minted tokens. -/
def mintHeader (a : AuthConfig) : Header := { alg := .rs256, kid := some a.kid }

/-- The claims minted for `sub` from a verified identity. -/
def mintedFor (a : AuthConfig) (iat : UInt64) (sub : String) (claims : IdentityClaims)
    (resources : List ResourceGrant) : MintedClaims :=
  { iss := a.authIssuer
    sub
    aud := [a.audience]
    iat
    exp := claims.exp
    name := (displayNames claims).1
    preferredUsername := (displayNames claims).2
    isServiceAccount := false
    resources }

section Makes

variable {P : Call → Prop}

theorem makes_subject {b : String} (h : P (.identity b)) : (subject b).Makes P :=
  Prog.makes_bind (Prog.makes_ask h) fun r => by cases r <;> trivial

theorem makes_reply {α : Type} {f : α → Reply} {p : Act (Except Status α)} (h : p.Makes P) : (reply f p).Makes P :=
  Prog.makes_bind h fun r => by cases r <;> trivial

theorem makes_checkIds {sub : String} (h : ∀ id, P (.store (.roleFor sub id))) (ids : List String)
    (allowed denied : List ResourcePermission) : (checkIds sub ids allowed denied).Makes P := by
  induction ids generalizing allowed denied with
  | nil => trivial
  | cons id ids ih =>
    refine Prog.makes_bind (Prog.makes_ask (h id)) fun r => ?_
    cases r with
    | none => exact ih allowed _
    | some role => exact ih _ denied

theorem makes_lookupIds {sub : String} (h : ∀ id, P (.store (.roleFor sub id))) (ids : List String) :
    (lookupIds sub ids).Makes P := by
  induction ids with
  | nil => trivial
  | cons id ids ih =>
    exact Prog.makes_bind (Prog.makes_ask (h id)) fun _ => Prog.makes_bind ih fun _ => trivial

theorem makes_grantedIds {sub : String} (h : ∀ id, P (.store (.roleFor sub id))) (ids : List String) :
    (grantedIds sub ids).Makes P := by
  induction ids with
  | nil => trivial
  | cons id ids ih =>
    refine Prog.makes_bind (Prog.makes_ask (h id)) fun r => ?_
    cases r with
    | none => exact ih
    | some role => exact Prog.makes_bind ih fun _ => trivial

theorem makes_mint {a : AuthConfig} {sub : String} {claims : IdentityClaims} {resources : List ResourceGrant}
    (hn : P .nowSecs) (he : ∀ iat, P (.encode (mintHeader a) (mintedFor a iat sub claims resources))) :
    (mint a.kid a.authIssuer a.audience sub (displayNames claims).1 (displayNames claims).2 claims.exp
      resources).Makes P :=
  Prog.makes_bind (Prog.makes_ask hn) fun iat => Prog.makes_ask (he iat)

theorem makes_mintAuthn {U : Unicode} {a : AuthConfig} {claims : IdentityClaims} (hn : P .nowSecs)
    (he : ∀ iat, P (.encode (mintHeader a) (mintedFor a iat (canonicalSubject U claims) claims []))) :
    (mintAuthn U a claims).Makes P :=
  Prog.makes_bind (makes_mint hn he) fun r => by cases r <;> trivial

end Makes

/-- The RPCs that mint a token. -/
def Rpc.Mints : Rpc → Prop
  | getAuthSession .. | exchangeExternalTokenForUserToken _ | exchangeUserTokenForMultiresourceToken .. => True
  | _ => False

/-- The calls an RPC can come to: one RPC records an owner, one deletes, three mint. -/
def Rpc.May (rpc : Rpc) : Call → Prop
  | .store (.recordOwner ..) => ∃ auth id name, rpc = .createResource auth id name
  | .store (.deleteResource _) => ∃ auth id, rpc = .deleteResource auth id
  | .store (.roleFor ..) | .store (.accessible _) => True
  | .store _ => False
  | .encode .. => rpc.Mints
  | _ => True

theorem makes_poll {P : Call → Prop} (endpoint deviceCode : String) (h : P (.postToken endpoint deviceCode)) :
    (poll endpoint deviceCode).Makes P :=
  Prog.makes_bind (Prog.makes_ask h) fun r => by cases r <;> trivial

theorem handle_makes (U : Unicode) (a : AuthConfig) (rpc : Rpc) : (rpc.handle U a).Makes rpc.May := by
  cases rpc with
  | createResource auth id name =>
    refine makes_reply (Prog.makes_bind (makes_subject trivial) fun r => ?_)
    cases r with
    | error e => trivial
    | ok sub => exact Prog.makes_bind (Prog.makes_ask ⟨auth, id, name, rfl⟩) fun r => by cases r <;> trivial
  | deleteResource auth id =>
    refine makes_reply (Prog.makes_bind (makes_subject trivial) fun r => ?_)
    cases r with
    | error e => trivial
    | ok sub =>
      refine Prog.makes_bind (Prog.makes_ask trivial) fun role => ?_
      show Prog.Makes _ (if role ≠ some .owner then _ else _)
      by_cases h : role ≠ some .owner
      · rw [if_pos h]
        trivial
      · rw [if_neg h]
        exact Prog.makes_bind (Prog.makes_ask ⟨auth, id, rfl⟩) fun r => by cases r <;> trivial
  | checkUserPermission auth ids =>
    refine makes_reply (Prog.makes_bind (makes_subject trivial) fun r => ?_)
    cases r with
    | error e => trivial
    | ok sub => exact Prog.makes_bind (makes_checkIds (fun _ => trivial) ids [] []) fun _ => trivial
  | lookupUserPermissions auth =>
    refine makes_reply (Prog.makes_bind (makes_subject trivial) fun r => ?_)
    cases r with
    | error e => trivial
    | ok sub =>
      refine Prog.makes_bind (Prog.makes_ask trivial) fun ids => ?_
      exact Prog.makes_bind (makes_lookupIds (fun _ => trivial) ids) fun _ => trivial
  | startAuthSession state =>
    refine makes_reply (Prog.makes_bind ?_ fun r => ?_)
    · refine Prog.makes_bind (Prog.makes_ask trivial) fun r => ?_
      cases r with
      | error e => trivial
      | ok disco =>
        refine Prog.makes_bind (Prog.makes_ask trivial) fun r => ?_
        cases r with
        | error e => trivial
        | ok resp =>
          dsimp only
          cases resp.verificationUriComplete.or resp.verificationUri <;> trivial
    · cases r with
      | error e => trivial
      | ok start => exact ⟨trivial, fun _ => ⟨trivial, fun _ => trivial⟩⟩
  | getAuthSession code state =>
    refine makes_reply (Prog.makes_bind (Prog.makes_ask trivial) fun session => ?_)
    cases session with
    | none => trivial
    | some s =>
      refine Prog.makes_bind (makes_poll s.2 s.1 trivial) fun r => ?_
      rcases r with e | p
      · trivial
      · cases p with
        | pending => trivial
        | denied e => exact ⟨trivial, fun _ => trivial⟩
        | token t =>
          refine Prog.makes_bind (Prog.makes_ask trivial) fun r => ?_
          cases r with
          | error e => trivial
          | ok claims =>
            refine Prog.makes_bind (Prog.makes_ask trivial) fun _ => ?_
            exact Prog.makes_bind (makes_mintAuthn trivial fun _ => trivial) fun r => by cases r <;> trivial
  | exchangeExternalTokenForUserToken token =>
    refine makes_reply ?_
    unfold Service.exchangeExternalTokenForUserToken
    by_cases he : token.isEmpty = true
    · rw [if_pos he]
      trivial
    · rw [if_neg he]
      refine Prog.makes_bind (Prog.makes_ask trivial) fun r => ?_
      cases r with
      | error e => trivial
      | ok claims => exact makes_mintAuthn trivial fun _ => trivial
  | exchangeUserTokenForMultiresourceToken auth ids =>
    refine makes_reply ?_
    unfold Service.exchangeUserTokenForMultiresourceToken
    by_cases he : (bearer auth).isEmpty = true
    · simp only [he, if_true]
      trivial
    · simp only [he]
      refine Prog.makes_bind (Prog.makes_ask trivial) fun r => ?_
      cases r with
      | error e => trivial
      | ok claims =>
        refine Prog.makes_bind (makes_grantedIds (fun _ => trivial) ids) fun _ => ?_
        exact Prog.makes_bind (makes_mint trivial fun _ => trivial) fun r => by cases r <;> trivial
  | _ => trivial

/-- Every RPC but the two that write makes quiet calls only. -/
theorem handle_quiet {U : Unicode} {a : AuthConfig} {rpc : Rpc}
    (hc : ∀ auth id name, rpc ≠ .createResource auth id name) (hd : ∀ auth id, rpc ≠ .deleteResource auth id) :
    (rpc.handle U a).Makes Call.Quiet := by
  refine Prog.makes_mono (fun c h => ?_) (handle_makes U a rpc)
  cases c with
  | store m =>
    cases m with
    | recordOwner owner id name =>
      obtain ⟨auth, id', name', e⟩ := h
      exact hc auth id' name' e
    | deleteResource id =>
      obtain ⟨auth, id', e⟩ := h
      exact hd auth id' e
    | roleFor sub id => trivial
    | accessible sub => trivial
    | _ => exact h
  | _ => trivial

/-! ## Runs -/

section Run

variable {α : Type} {env : Env}

theorem run_claims (b : String) (k : Except VerifyError IdentityClaims → Act α) (conn : Conn) :
    (claims b >>= k).run (Call.exec env) conn = (k (env.identity b)).run (Call.exec env) conn := rfl

theorem run_verifyOidc (t : String) (k : Except VerifyError IdentityClaims → Act α) (conn : Conn) :
    (verifyOidc t >>= k).run (Call.exec env) conn = (k (env.oidc t)).run (Call.exec env) conn := rfl

theorem run_resolve (code state : String) (k : Option (String × String) → Act α) (conn : Conn) :
    (Prog.ask (Call.resolveSession code state) >>= k).run (Call.exec env) conn =
      (k (env.resolveSession code state)).run (Call.exec env) conn := rfl

theorem run_remove (code : String) (k : Unit → Act α) (conn : Conn) :
    (Prog.ask (Call.removeSession code) >>= k).run (Call.exec env) conn = (k ()).run (Call.exec env) conn := rfl

theorem run_poll (endpoint deviceCode : String) (k : Except String Poll → Act α) (conn : Conn) :
    (poll endpoint deviceCode >>= k).run (Call.exec env) conn =
      (k ((env.postToken endpoint deviceCode).map classify)).run (Call.exec env) conn := by
  show ((Prog.ret (env.postToken endpoint deviceCode) : Act _) >>= _ >>= k).run (Call.exec env) conn = _
  cases env.postToken endpoint deviceCode <;> rfl

theorem run_subject (b : String) (k : Except VerifyError String → Act α) (conn : Conn) :
    (subject b >>= k).run (Call.exec env) conn =
      (k ((env.identity b).map IdentityClaims.sub)).run (Call.exec env) conn := by
  unfold subject
  rw [Prog.bind_assoc, run_claims]
  cases env.identity b <;> rfl

theorem run_reply (f : α → Reply) (p : Act (Except Status α)) (conn : Conn) :
    (reply f p).run (Call.exec env) conn =
      ((p.run (Call.exec env) conn).1.map (Except.map f), (p.run (Call.exec env) conn).2) := by
  unfold reply
  rw [Prog.run_bind]
  rcases p.run (Call.exec env) conn with ⟨_ | r, conn'⟩
  · rfl
  · cases r <;> rfl

/-- A store call answers what the method answers, on the connection it leaves. -/
theorem run_store (m : Method) (k : m.Ans → Act α) (conn : Conn) :
    (Prog.call (Call.store m) k).run (Call.exec env) conn =
      match m.run env.now conn with
      | (some b, conn') => (k b).run (Call.exec env) conn'
      | (none, conn') => (none, conn') := by
  rcases e : m.run env.now conn with ⟨_ | b, conn'⟩
  · exact Prog.run_call_none (Call.exec env) e
  · exact Prog.run_call_some (Call.exec env) e

/-- How a handler ends on the result of a store write. -/
def written : Option (Except SqlError Unit) → Option (Except Status Unit)
  | some (.ok _) => some (.ok ())
  | some (.error _) => some (.error ⟨.internal, "store error"⟩)
  | none => none

theorem run_createResource (auth : Option String) (id name : String) (conn : Conn) :
    (createResource auth id name).run (Call.exec env) conn =
      match env.identity (bearer auth) with
      | .error _ => (some (.error ⟨.unauthenticated, "invalid token"⟩), conn)
      | .ok claims =>
        (written ((Method.recordOwner claims.sub id name).run env.now conn).1,
          ((Method.recordOwner claims.sub id name).run env.now conn).2) := by
  rw [createResource, run_subject]
  cases env.identity (bearer auth) with
  | error e => rfl
  | ok claims =>
    dsimp only
    refine (run_store (.recordOwner claims.sub id name) _ conn).trans ?_
    rcases (Method.recordOwner claims.sub id name).run env.now conn with ⟨_ | r, conn'⟩
    · rfl
    · cases r <;> rfl

theorem run_deleteResource (auth : Option String) (id : String) (conn : Conn) :
    (deleteResource auth id).run (Call.exec env) conn =
      match env.identity (bearer auth) with
      | .error _ => (some (.error ⟨.unauthenticated, "invalid token"⟩), conn)
      | .ok claims =>
        match (Method.roleFor claims.sub id).run env.now conn with
        | (some role, conn') =>
          if role ≠ some .owner then (some (.error ⟨.permissionDenied, "not an owner of this resource"⟩), conn')
          else
            (written ((Method.deleteResource id).run env.now conn').1,
              ((Method.deleteResource id).run env.now conn').2)
        | (none, conn') => (none, conn') := by
  rw [deleteResource, run_subject]
  cases env.identity (bearer auth) with
  | error e => rfl
  | ok claims =>
    dsimp only
    refine (run_store (.roleFor claims.sub id) _ conn).trans ?_
    rcases (Method.roleFor claims.sub id).run env.now conn with ⟨_ | role, conn'⟩
    · rfl
    · show (if role ≠ some .owner then _ else _ : Act (Except Status Unit)).run (Call.exec env) conn' = _
      by_cases h : role ≠ some .owner
      · simp only [if_pos h]
        rfl
      · simp only [if_neg h]
        refine (run_store (.deleteResource id) _ conn').trans ?_
        rcases (Method.deleteResource id).run env.now conn' with ⟨_ | r, conn''⟩
        · rfl
        · cases r <;> rfl

end Run

/-- What an RPC can do to the tables. -/
theorem serve_tables (U : Unicode) (a : AuthConfig) (env : Env) (rpc : Rpc) (conn : Conn) :
    (rpc.serve U a env conn).2.db = conn.db ∨
    (∃ auth id name claims, rpc = .createResource auth id name ∧ env.identity (bearer auth) = .ok claims ∧
      Leaves env.now (.recordOwner claims.sub id name) conn.db (rpc.serve U a env conn).2.db) ∨
    ∃ auth id claims, rpc = .deleteResource auth id ∧ env.identity (bearer auth) = .ok claims ∧
      conn.db.roleFor claims.sub id = some .owner ∧
      Leaves env.now (.deleteResource id) conn.db (rpc.serve U a env conn).2.db := by
  have other : (∀ auth id name, rpc ≠ .createResource auth id name) → (∀ auth id, rpc ≠ .deleteResource auth id) →
      (rpc.serve U a env conn).2.db = conn.db := fun hc hd => run_quiet (handle_quiet hc hd) conn
  cases rpc with
  | createResource auth id name =>
    have hs : ((Rpc.createResource auth id name).serve U a env conn).2 =
        ((createResource auth id name).run (Call.exec env) conn).2 := congrArg Prod.snd (run_reply _ _ conn)
    rw [hs, run_createResource]
    cases hi : env.identity (bearer auth) with
    | error e => exact Or.inl rfl
    | ok claims =>
      exact Or.inr (Or.inl ⟨auth, id, name, claims, rfl, hi, run_leaves env.now (.recordOwner claims.sub id name) conn⟩)
  | deleteResource auth id =>
    have hs : ((Rpc.deleteResource auth id).serve U a env conn).2 =
        ((deleteResource auth id).run (Call.exec env) conn).2 := congrArg Prod.snd (run_reply _ _ conn)
    rw [hs, run_deleteResource]
    cases hi : env.identity (bearer auth) with
    | error e => exact Or.inl rfl
    | ok claims =>
      have hdb : ((Method.roleFor claims.sub id).run env.now conn).2.db = conn.db :=
        @exec_quiet env (.store (.roleFor claims.sub id)) conn trivial
      have howner := @run_roleFor_owner env.now claims.sub id conn
      dsimp only
      rcases e : (Method.roleFor claims.sub id).run env.now conn with ⟨_ | role, conn'⟩ <;> rw [e] at hdb howner
      · exact Or.inl hdb
      · by_cases h : role ≠ some .owner
        · dsimp only
          rw [if_pos h]
          exact Or.inl hdb
        · have hr : role = some .owner := not_not.mp h
          have hp := run_leaves env.now (.deleteResource id) conn'
          rw [show conn'.db = conn.db from hdb] at hp
          dsimp only
          rw [if_neg h]
          exact Or.inr (Or.inr ⟨auth, id, claims, rfl, hi, howner (congrArg some hr), hp⟩)
  | _ => exact Or.inl (other (fun _ _ _ h => by cases h) (fun _ _ h => by cases h))

/-! ## Replies when no statement fails -/

/-- The ids with a role, with its permissions. -/
def allowed (db : Db) (sub : String) (ids : List String) : List ResourcePermission :=
  ids.filterMap fun id => (db.roleFor sub id).map (grant id)

/-- The ids without one. -/
def denied (db : Db) (sub : String) (ids : List String) : List ResourcePermission :=
  (ids.filter fun id => (db.roleFor sub id).isNone).map fun id => ⟨id, []⟩

/-- The `resources` of a minted token. -/
def granted (db : Db) (sub : String) (ids : List String) : List ResourceGrant :=
  ids.filterMap fun id => (db.roleFor sub id).map fun role => ⟨id, role.permissions⟩

/-- What is listed for a subject. -/
def listed (db : Db) (sub : String) : List ResourcePermission :=
  (db.accessible sub).map fun id => grant id ((db.roleFor sub id).getD .member)

/-- The reply to a minted token, or to a signature that failed. -/
def issued (sub : String) (claims : IdentityClaims) : Except String String → Except Status UserToken
  | .ok token => .ok ⟨token, expiresAt claims.exp, sub, (displayNames claims).1⟩
  | .error _ => .error ⟨.internal, "token issuance failed"⟩

section Reliable

variable {U : Unicode} {a : AuthConfig} {env : Env} {claims : IdentityClaims} {auth : Option String}

theorem run_roleFor_then {α : Type} (db : Db) (sub id : String) (k : Option Role → Act α) :
    (roleFor sub id >>= k).run (Call.exec env) ⟨db, []⟩ = (k (db.roleFor sub id)).run (Call.exec env) ⟨db, []⟩ :=
  Prog.run_call_some (Call.exec env) (run_reliable env.now (.roleFor sub id) db)

theorem run_accessible_then {α : Type} (db : Db) (sub : String) (k : List String → Act α) :
    (accessible sub >>= k).run (Call.exec env) ⟨db, []⟩ = (k (db.accessible sub)).run (Call.exec env) ⟨db, []⟩ :=
  Prog.run_call_some (Call.exec env) (run_reliable env.now (.accessible sub) db)

/-- The loop of `check_user_permission`: the accumulators keep what came before. -/
theorem run_checkIds (db : Db) (sub : String) (ids : List String) (acc acc' : List ResourcePermission) :
    (checkIds sub ids acc acc').run (Call.exec env) ⟨db, []⟩ =
      (some ⟨acc ++ allowed db sub ids, acc' ++ denied db sub ids⟩, ⟨db, []⟩) := by
  induction ids generalizing acc acc' with
  | nil => simp [checkIds, allowed, denied]
  | cons id ids ih =>
    rw [checkIds, run_roleFor_then]
    cases e : db.roleFor sub id with
    | none =>
      have hd : denied db sub (id :: ids) = ⟨id, []⟩ :: denied db sub ids := by simp [denied, e]
      have ha : allowed db sub (id :: ids) = allowed db sub ids := by simp [allowed, e]
      rw [ih, hd, ha, List.append_assoc, List.singleton_append]
    | some role =>
      have hd : denied db sub (id :: ids) = denied db sub ids := by simp [denied, e]
      have ha : allowed db sub (id :: ids) = grant id role :: allowed db sub ids := by simp [allowed, e]
      rw [ih, hd, ha, List.append_assoc, List.singleton_append]

theorem run_lookupIds (db : Db) (sub : String) (ids : List String) :
    (lookupIds sub ids).run (Call.exec env) ⟨db, []⟩ =
      (some (ids.map fun id => grant id ((db.roleFor sub id).getD .member)), ⟨db, []⟩) := by
  induction ids with
  | nil => rfl
  | cons id ids ih =>
    rw [lookupIds, run_roleFor_then, Prog.run_bind_some (Call.exec env) ih]
    rfl

theorem run_grantedIds (db : Db) (sub : String) (ids : List String) :
    (grantedIds sub ids).run (Call.exec env) ⟨db, []⟩ = (some (granted db sub ids), ⟨db, []⟩) := by
  induction ids with
  | nil => rfl
  | cons id ids ih =>
    rw [grantedIds, run_roleFor_then]
    cases e : db.roleFor sub id with
    | none =>
      have hg : granted db sub (id :: ids) = granted db sub ids := by simp [granted, e]
      rw [ih, hg]
    | some role =>
      have hg : granted db sub (id :: ids) = ⟨id, role.permissions⟩ :: granted db sub ids := by simp [granted, e]
      rw [Prog.run_bind_some (Call.exec env) ih, hg]
      rfl

theorem run_mintAuthn (conn : Conn) :
    (mintAuthn U a claims).run (Call.exec env) conn =
      (some (issued (canonicalSubject U claims) claims
        (env.encode (mintHeader a) (mintedFor a env.nowSecs (canonicalSubject U claims) claims []))), conn) := by
  show ((Prog.ret (env.encode (mintHeader a) (mintedFor a env.nowSecs (canonicalSubject U claims) claims [])) :
    Act _) >>= _).run (Call.exec env) conn = _
  cases env.encode (mintHeader a) (mintedFor a env.nowSecs (canonicalSubject U claims) claims []) <;> rfl

theorem serve_check (hi : env.identity (bearer auth) = .ok claims) (db : Db) (ids : List String) :
    (Rpc.checkUserPermission auth ids).serve U a env ⟨db, []⟩ =
      (some (.ok (.checked ⟨allowed db claims.sub ids, denied db claims.sub ids⟩)), ⟨db, []⟩) := by
  refine (run_reply _ _ _).trans ?_
  rw [checkUserPermission, run_subject, hi]
  dsimp only [Except.map]
  rw [Prog.run_bind_some (Call.exec env) (run_checkIds db claims.sub ids [] [])]
  rfl

theorem serve_lookup (hi : env.identity (bearer auth) = .ok claims) (db : Db) :
    (Rpc.lookupUserPermissions auth).serve U a env ⟨db, []⟩ =
      (some (.ok (.looked ⟨listed db claims.sub, none⟩)), ⟨db, []⟩) := by
  refine (run_reply _ _ _).trans ?_
  rw [lookupUserPermissions, run_subject, hi]
  dsimp only [Except.map]
  rw [run_accessible_then, Prog.run_bind_some (Call.exec env) (run_lookupIds db claims.sub _)]
  rfl

theorem serve_exchange (hb : (bearer auth).isEmpty = false) (hi : env.identity (bearer auth) = .ok claims) (db : Db)
    (ids : List String) :
    (Rpc.exchangeUserTokenForMultiresourceToken auth ids).serve U a env ⟨db, []⟩ =
      (some ((issued claims.sub claims (env.encode (mintHeader a)
        (mintedFor a env.nowSecs claims.sub claims (granted db claims.sub ids)))).map Reply.exchanged), ⟨db, []⟩) := by
  refine (run_reply _ _ _).trans ?_
  unfold exchangeUserTokenForMultiresourceToken
  simp only [hb]
  rw [if_neg Bool.false_ne_true, run_claims, hi]
  dsimp only
  rw [Prog.run_bind_some (Call.exec env) (run_grantedIds db claims.sub ids)]
  have hm : ∀ k : Except String String → Act (Except Status UserToken),
      (mint a.kid a.authIssuer a.audience claims.sub (displayNames claims).1 (displayNames claims).2 claims.exp
        (granted db claims.sub ids) >>= k).run (Call.exec env) ⟨db, []⟩ =
      (k (env.encode (mintHeader a) (mintedFor a env.nowSecs claims.sub claims (granted db claims.sub ids)))).run
        (Call.exec env) ⟨db, []⟩ := fun _ => rfl
  rw [hm]
  cases env.encode (mintHeader a) (mintedFor a env.nowSecs claims.sub claims (granted db claims.sub ids)) <;> rfl

/-- The exchange with an empty bearer is refused before anything is resolved. -/
theorem serve_exchange_empty (hb : (bearer auth).isEmpty = true) (conn : Conn) (ids : List String) :
    (Rpc.exchangeUserTokenForMultiresourceToken auth ids).serve U a env conn =
      (some (.error ⟨.unauthenticated, "missing bearer token"⟩), conn) := by
  refine (run_reply _ _ _).trans ?_
  unfold exchangeUserTokenForMultiresourceToken
  simp only [hb]
  rfl

theorem serve_create (hi : env.identity (bearer auth) = .ok claims) (db : Db) (id name : String) :
    (Rpc.createResource auth id name).serve U a env ⟨db, []⟩ =
      (some (.ok .created), ⟨(Method.recordOwner claims.sub id name).effect env.now db, []⟩) := by
  refine (run_reply _ _ _).trans ?_
  rw [run_createResource, hi]
  dsimp only
  rw [run_reliable]
  rfl

theorem serve_delete (hi : env.identity (bearer auth) = .ok claims) (db : Db) (id : String) :
    (Rpc.deleteResource auth id).serve U a env ⟨db, []⟩ =
      if db.roleFor claims.sub id = some .owner then
        (some (.ok .deleted), ⟨(Method.deleteResource id).effect env.now db, []⟩)
      else (some (.error ⟨.permissionDenied, "not an owner of this resource"⟩), ⟨db, []⟩) := by
  refine (run_reply _ _ _).trans ?_
  rw [run_deleteResource, hi]
  dsimp only
  rw [run_reliable]
  dsimp only [Method.answer]
  by_cases h : db.roleFor claims.sub id = some .owner
  · rw [if_neg (not_not.mpr h), if_pos h]
    refine Prod.ext ?_ ?_
    · show (written ((Method.deleteResource id).run env.now ⟨db, []⟩).1).map _ = _
      rw [run_reliable]
      rfl
    · show ((Method.deleteResource id).run env.now ⟨db, []⟩).2 = _
      rw [run_reliable]
  · rw [if_pos h, if_neg h]
    rfl

/-- A login with a token the provider's verifier accepts, sent by the web frontend. -/
theorem serve_exchangeExternal {token : String} (ht : token.isEmpty = false) (hv : env.oidc token = .ok claims)
    (conn : Conn) :
    (Rpc.exchangeExternalTokenForUserToken token).serve U a env conn =
      (some ((issued (canonicalSubject U claims) claims (env.encode (mintHeader a)
        (mintedFor a env.nowSecs (canonicalSubject U claims) claims []))).map Reply.exchanged), conn) := by
  refine (run_reply _ _ _).trans ?_
  unfold exchangeExternalTokenForUserToken
  rw [ht, if_neg Bool.false_ne_true, run_verifyOidc, hv]
  dsimp only
  rw [run_mintAuthn]
  rfl

/-- The same login through the device flow, once the provider hands out the token. -/
theorem serve_getAuthSession {code state deviceCode endpoint token : String} {resp : TokenResponse}
    (hs : env.resolveSession code state = some (deviceCode, endpoint))
    (hp : env.postToken endpoint deviceCode = .ok resp) (hc : classify resp = .token token)
    (hv : env.oidc token = .ok claims) (conn : Conn) :
    (Rpc.getAuthSession code state).serve U a env conn =
      (some ((issued (canonicalSubject U claims) claims (env.encode (mintHeader a)
        (mintedFor a env.nowSecs (canonicalSubject U claims) claims []))).map fun t => .session (some t)), conn) := by
  refine (run_reply _ _ _).trans ?_
  have hr : (getAuthSession U a code state).run (Call.exec env) conn =
      (some ((issued (canonicalSubject U claims) claims (env.encode (mintHeader a)
        (mintedFor a env.nowSecs (canonicalSubject U claims) claims []))).map some), conn) := by
    unfold getAuthSession
    rw [run_resolve, hs]
    dsimp only
    rw [run_poll, hp]
    dsimp only [Except.map]
    rw [hc]
    dsimp only
    rw [run_verifyOidc, hv]
    dsimp only
    rw [run_remove, Prog.run_bind_some (Call.exec env) (run_mintAuthn conn)]
    cases env.encode (mintHeader a) (mintedFor a env.nowSecs (canonicalSubject U claims) claims []) <;> rfl
  rw [hr]
  cases env.encode (mintHeader a) (mintedFor a env.nowSecs (canonicalSubject U claims) claims []) <;> rfl

end Reliable

end Kaguya.Auth.Service
