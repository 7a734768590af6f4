/-
  Kaguya.Web.Api — the JSON between the web service and its page: the bodies of `/api/me`
  and `/api/repos` as axum and serde_json write them, and what the script makes of them
  (`fetch`, `Response.json`, the members it reads). A value of another shape than the
  script expects is read by JavaScript's rules: what is not there is undefined, and a
  method that is not there throws.

  `page_of_session`: in every run, a page that asks who is signed in and for the list
  shows the name of the one exchange that made the cookie's session, and what loreserver
  listed for that exchange's token, each field as it is; or that there is no such thing.
-/

import Kaguya.Lib.Json
import Kaguya.Web.Page
import Kaguya.Web.Bookkeeping

namespace Kaguya.Web.Api

open Kaguya.Lib
open Kaguya.Lib.Json (Value Number render)
open Kaguya.Web.Server hiding Fetched
open Kaguya.Web.Page (Str Repo Me Fetched Assign js units shown showRepos page notice shown_notice)
open Kaguya.Web.Runs
open Kaguya.Web.Bookkeeping

/-! ## What the service writes -/

/-- The fields in the order of the struct. -/
def repoJson (r : RepoSummary) : Value (List Char) :=
  .obj [("id".toList, .str r.id.toList), ("name".toList, .str r.name.toList),
    ("description".toList, .str r.description.toList), ("default_branch".toList, .str r.defaultBranch.toList)]

/-- The members in the order of their names. -/
def meJson (userName sub : String) : Value (List Char) :=
  .obj [("sub".toList, .str sub.toList), ("user_name".toList, .str userName.toList)]

def bodyText : Body → List Char
  | .empty => []
  | .text s => s.toList
  | .me userName sub => render (meJson userName sub)
  | .repos list => render (.arr (list.map repoJson))

/-! ## What the script reads -/

/-- Strings of UTF-16. -/
def utf16 : Json.Units UInt16 where
  lit := units
  code := UInt16.ofNat
  ascii c hc := if_pos (Nat.lt_trans hc (by decide))

section Script

-- whether a number is zero as a double
variable (isZero : Number → Bool)

/-- `v || ""`: undefined, null, false, zero and the empty string are empty. -/
def falsy : Option (Value Str) → Bool
  | none | some .null | some (.bool false) => true
  | some (.num n) => isZero n
  | some (.str s) => s.isEmpty
  | _ => false

/-- A member; of null it throws. -/
def member (name : String) : Value Str → Option (Option (Value Str))
  | .null => none
  | .obj l => some ((l.reverse.find? fun p => p.1 = js name).map (·.2))
  | _ => some none

/-- What `escapeHtml` is given; what is no string has no `replace`. -/
def textOf (v : Option (Value Str)) : Option Str :=
  if falsy isZero v then some []
  else match v with
    | some (.str s) => some s
    | _ => none

def repoOf (v : Value Str) : Option Repo := do
  let name ← textOf isZero (← member "name" v)
  let id ← textOf isZero (← member "id" v)
  let description ← textOf isZero (← member "description" v)
  let defaultBranch ← textOf isZero (← member "default_branch" v)
  return ⟨name, id, description, defaultBranch⟩

/-- The list: only an array and a string have a length, unless it is a member. -/
def reposOf : Value Str → Option (List Repo)
  | .null => none
  | .arr l => l.mapM (repoOf isZero)
  | .str s => if s.isEmpty then some [] else none
  | .obj l => do if falsy isZero (← member "length" (.obj l)) then some [] else none
  | _ => some []

/-- Who is signed in; `sub` is read only without a name. -/
def meOf (v : Value Str) : Option Me := do
  let name ← textOf isZero (← member "user_name" v)
  let sub ← if name.isEmpty then textOf isZero (← member "sub" v) else some []
  return ⟨name, sub⟩

/-- `fetch`, `ok` and `json`. -/
def fetched {α : Type} (read : Value Str → Option α) (resp : Response) : Fetched α :=
  if 200 ≤ resp.status ∧ resp.status ≤ 299 then
    match (Json.parse utf16 (bodyText resp.body)).bind read with
    | some a => .ok a
    | none => .thrown
  else .refused resp.status

/-! ## What is read back -/

/-- A repository as the script has it. -/
def repo (r : RepoSummary) : Repo := ⟨js r.name, js r.id, js r.description, js r.defaultBranch⟩

theorem textOf_str (s : Str) : textOf isZero (some (.str s)) = some s := by
  cases s <;> rfl

theorem repoOf_json (r : RepoSummary) : repoOf isZero ((repoJson r).map fun s => s.flatMap utf16.lit) = some (repo r) := by
  have hname : member "name" ((repoJson r).map fun s => s.flatMap utf16.lit) = some (some (.str (js r.name))) := rfl
  have hid : member "id" ((repoJson r).map fun s => s.flatMap utf16.lit) = some (some (.str (js r.id))) := rfl
  have hdesc : member "description" ((repoJson r).map fun s => s.flatMap utf16.lit) =
      some (some (.str (js r.description))) := rfl
  have hbranch : member "default_branch" ((repoJson r).map fun s => s.flatMap utf16.lit) =
      some (some (.str (js r.defaultBranch))) := rfl
  simp only [repoOf, hname, hid, hdesc, hbranch, textOf_str, Option.bind_eq_bind, Option.bind_some]
  rfl

theorem reposOf_json (list : List RepoSummary) :
    reposOf isZero ((Value.arr (list.map repoJson)).map fun s => s.flatMap utf16.lit) = some (list.map repo) := by
  rw [Value.map, Json.mapElems_eq, List.map_map]
  change List.mapM (repoOf isZero) _ = _
  induction list with
  | nil => rfl
  | cons r list ih =>
    rw [List.map_cons, List.mapM_cons, ih, Function.comp_apply, repoOf_json]
    rfl

theorem fetched_repos (list : List RepoSummary) (location setCookie : Option String) :
    fetched (reposOf isZero) ⟨200, location, setCookie, .repos list⟩ = .ok (list.map repo) := by
  have hparse := Json.parse_render utf16 (.arr (list.map repoJson))
  simp only [fetched, bodyText, hparse, Option.bind_some, reposOf_json]
  rfl

theorem meOf_json (userName sub : String) : meOf isZero ((meJson userName sub).map fun s => s.flatMap utf16.lit) =
    some ⟨js userName, if (js userName).isEmpty then js sub else []⟩ := by
  have hname : member "user_name" ((meJson userName sub).map fun s => s.flatMap utf16.lit) =
      some (some (.str (js userName))) := rfl
  have hsub : member "sub" ((meJson userName sub).map fun s => s.flatMap utf16.lit) = some (some (.str (js sub))) := rfl
  simp only [meOf, hname, hsub, textOf_str, Option.bind_eq_bind, Option.bind_some]
  split <;> rfl

theorem fetched_me (userName sub : String) (location setCookie : Option String) :
    fetched (meOf isZero) ⟨200, location, setCookie, .me userName sub⟩ =
      .ok ⟨js userName, if (js userName).isEmpty then js sub else []⟩ := by
  have hparse := Json.parse_render utf16 (meJson userName sub)
  simp only [fetched, bodyText, hparse, Option.bind_some, meOf_json]
  rfl

/-! ## What the page shows -/

/-- The markup of assignments, as it is read. -/
def drawn (as : List Assign) : List (List (Piece UInt16)) := (as.filterMap Assign.markup).map shown

/-- The heading, and a paragraph of the class `error` with the text. -/
def failure (text : String) : List (Piece UInt16) :=
  [.text [], .tag (js "<h2>"), .text (js "Repositories"), .tag (js "</h2>"), .text [], .tag (js "<p class=\"error\">"),
    .text (js text), .tag (js "</p>"), .text []]

/-- The name, and the link that signs out. -/
def nameLine (userName sub : String) : List (Piece UInt16) :=
  [.text ((if userName.isEmpty then js sub else js userName) ++ js " · "), .tag (js "<a href=\"/auth/logout\">"),
    .text (js "Sign out"), .tag (js "</a>"), .text []]

theorem drawn_refused (status : Nat) :
    drawn (showRepos (.refused status)) = [notice "Loading…", failure "Could not load repositories."] := by
  have hloading : shown Page.loading = notice "Loading…" := shown_notice (by decide) (by decide)
  have hok : ∀ p ∈ [Chunk.tag (js "<h2>"), .plain (js "Repositories"), .tag (js "</h2>"), .tag (js "<p class=\"error\">"),
      .plain (js "Could not load repositories."), .tag (js "</p>")], p.Ok Page.entities Page.html := by decide
  have hfailure : shown (js "<h2>Repositories</h2><p class=\"error\">Could not load repositories.</p>") =
      failure "Could not load repositories." := by
    rw [show js "<h2>Repositories</h2><p class=\"error\">Could not load repositories.</p>" = [Chunk.tag (js "<h2>"),
      .plain (js "Repositories"), .tag (js "</h2>"), .tag (js "<p class=\"error\">"),
      .plain (js "Could not load repositories."), .tag (js "</p>")].flatMap (Chunk.write Page.entities) by decide]
    rw [shown, read_chunks Page.left_escaped hok]
    rfl
  exact congrArg₂ (fun a b => [a, b]) hloading hfailure

theorem drawn_repos (list : List Repo) : drawn (showRepos (.ok list)) = [notice "Loading…", page list] := by
  have hloading : shown Page.loading = notice "Loading…" := shown_notice (by decide) (by decide)
  exact congrArg₂ (fun a b => [a, b]) hloading (Page.shown_repos list)

theorem js_eq_nil {s : String} : js s = [] ↔ s.isEmpty = true := by
  rw [String.isEmpty_iff, ← String.toList_eq_nil_iff]
  refine ⟨fun h => ?_, fun h => by rw [js, h]; rfl⟩
  cases hs : s.toList with
  | nil => rfl
  | cons c cs =>
    rw [js, hs, List.flatMap_cons, List.append_eq_nil_iff] at h
    have hc := h.1
    unfold units at hc
    split at hc <;> cases hc

theorem drawn_me (userName sub : String) : shown (Page.signedIn ⟨js userName, if (js userName).isEmpty then js sub else []⟩) =
    nameLine userName sub := by
  rw [Page.shown_signedIn, nameLine]
  by_cases hname : js userName = []
  · rw [if_pos (js_eq_nil.mp hname), if_neg (not_not.mpr hname), hname]
    rfl
  · rw [if_neg (mt js_eq_nil.mpr hname), if_pos hname]

end Script

/-! ## Runs -/

variable {crates : Crates} {o : Oidc} {trace : History} {p : WebPool}

/-- The request has no session: no cookie, or one whose lookup found none. -/
def NoSession (trace : History) (n : Nat) (headers : HeaderMap) : Prop :=
  ∀ id, sessionId headers = some id → ∃ s s', ⟨s, .called n (.getSession id) none, s'⟩ ∈ trace

/-- The request's cookie named a live session, made by a callback of what its one
    exchange was answered. -/
def BySession (trace : History) (n : Nat) (headers : HeaderMap) (issued : Issued) : Prop :=
  ∃ id s s' m k expiresAt idToken reply d d', sessionId headers = some id ∧
    ⟨s, .called n (.getSession id) (some (issued.token, issued.userName, issued.userId)), s'⟩ ∈ trace ∧
    m ∈ trace ∧ Creates m k id ⟨issued.token, issued.userName, issued.userId, expiresAt⟩ ∧ now s'.clock < expiresAt ∧
    ((trace.own k).filter fun x => isExchange x.call) = [⟨d, .exchangeExternal idToken "external", .ok reply, d'⟩] ∧
    issuedOf reply = .ok issued

/-- What a request looked up, and where it went on from. -/
theorem session_path {f : Option (String × String × String) → Act Response} {headers : HeaderMap}
    {l : List WebAnswered} {resp : Response} (h : (session headers >>= f).Leads l (.ret resp)) :
    (∃ l', (f none).Leads l' (.ret resp) ∧
      ∀ id, sessionId headers = some id → ∃ s s', l = ⟨s, .getSession id, none, s'⟩ :: l') ∨
    ∃ id s s' r l', sessionId headers = some id ∧ l = ⟨s, .getSession id, some r, s'⟩ :: l' ∧
      (f (some r)).Leads l' (.ret resp) := by
  unfold session at h
  cases hid : sessionId headers with
  | none =>
    rw [hid] at h
    exact Or.inl ⟨l, h, fun id e => by cases e⟩
  | some id =>
    rw [hid] at h
    obtain ⟨s, b, s', l', rfl, h'⟩ := Prog.leads_ask_ret h
    cases b with
    | none =>
      refine Or.inl ⟨l', h', fun id' e => ?_⟩
      cases e
      exact ⟨s, s', rfl⟩
    | some r => exact Or.inr ⟨id, s, s', r, l', rfl, rfl, h'⟩

theorem me_path {headers : HeaderMap} {l : List WebAnswered} {resp : Response} (h : (me headers).Leads l (.ret resp)) :
    (resp = plain 401 "not logged in" ∧ ∀ id, sessionId headers = some id → ∃ s s', ⟨s, .getSession id, none, s'⟩ ∈ l) ∨
    ∃ id s s' token userName sub, sessionId headers = some id ∧
      ⟨s, .getSession id, some (token, userName, sub), s'⟩ ∈ l ∧ resp = ⟨200, none, none, .me userName sub⟩ := by
  rcases session_path h with ⟨l', h', hnone⟩ | ⟨id, s, s', ⟨token, userName, sub⟩, l', hid, rfl, h'⟩
  · obtain ⟨_, e⟩ := Prog.leads_ret h'
    cases e
    refine Or.inl ⟨rfl, fun id hid => ?_⟩
    obtain ⟨s, s', rfl⟩ := hnone id hid
    exact ⟨s, s', List.mem_cons_self⟩
  · obtain ⟨_, e⟩ := Prog.leads_ret h'
    cases e
    exact Or.inr ⟨id, s, s', token, userName, sub, hid, List.mem_cons_self, rfl⟩

theorem repos_path {headers : HeaderMap} {l : List WebAnswered} {resp : Response}
    (h : (repos headers).Leads l (.ret resp)) :
    (resp = plain 401 "not logged in" ∧ ∀ id, sessionId headers = some id → ∃ s s', ⟨s, .getSession id, none, s'⟩ ∈ l) ∨
    ∃ id s s' t t' token userName sub answer, sessionId headers = some id ∧
      ⟨s, .getSession id, some (token, userName, sub), s'⟩ ∈ l ∧ ⟨t, .listRepos token, answer, t'⟩ ∈ l ∧
      resp = match answer with
        | .ok list => ⟨200, none, none, .repos list⟩
        | .error _ => plain 502 "could not list repositories" := by
  rcases session_path h with ⟨l', h', hnone⟩ | ⟨id, s, s', ⟨token, userName, sub⟩, l', hid, rfl, h'⟩
  · obtain ⟨_, e⟩ := Prog.leads_ret h'
    cases e
    refine Or.inl ⟨rfl, fun id hid => ?_⟩
    obtain ⟨s, s', rfl⟩ := hnone id hid
    exact ⟨s, s', List.mem_cons_self⟩
  · obtain ⟨t, answer, t', l'', rfl, h''⟩ := Prog.leads_ask_ret h'
    refine Or.inr ⟨id, s, s', t, t', token, userName, sub, answer, hid, List.mem_cons_self,
      List.mem_cons_of_mem _ List.mem_cons_self, ?_⟩
    cases answer <;>
    · obtain ⟨_, e⟩ := Prog.leads_ret h''
      cases e
      rfl

/-- A lookup that found a session. -/
theorem bySession (h : (web crates o).Run FreshIds Empty trace p) {n : Nat} {headers : HeaderMap} {id : String}
    {s s' : State} {token userName sub : String} (hid : sessionId headers = some id)
    (hx : ⟨s, .getSession id, some (token, userName, sub), s'⟩ ∈ trace.own n) :
    ∃ issued, issued.token = token ∧ issued.userName = userName ∧ issued.userId = sub ∧
      BySession trace n headers issued := by
  have hm := Trace.mem_own.mp hx
  obtain ⟨late, early, ht⟩ := List.append_of_mem hm
  obtain ⟨mid, m, first, k, expiresAt, hearly, hc, hlive, _⟩ :=
    ((run_lookups h).answers late early n id _ s s' ht token userName sub).mp rfl
  have hmem : m ∈ trace := by
    rw [ht, hearly]
    simp
  obtain ⟨_, _, idToken, reply, issued, d, d', hown, hissued, rfl, rfl, rfl⟩ :=
    (run_lookups h).created m k id _ hmem hc
  exact ⟨issued, rfl, rfl, rfl, id, s, s', m, k, expiresAt, idToken, reply, d, d', hid, hm, hmem, hc, hlive, hown, hissued⟩

/-- What a page shows is the session's: the name of who signed in, and the repositories
    that loreserver lists for the session's token, each field as it is. Without a session
    it shows the login, and without a list that there is none. -/
theorem page_of_session (isZero : Number → Bool) (crates : Crates) (o : Oidc) :
    (∀ trace p, (web crates o).Run FreshIds Empty trace p → ∀ n browser headers resp,
      p.threads[n]? = some ⟨⟨browser, .me headers⟩, .ret resp⟩ →
      (NoSession trace n headers ∧ ∀ failed repos,
        Page.init failed (fetched (meOf isZero) resp) repos = Page.showLogin failed) ∨
      ∃ issued, BySession trace n headers issued ∧ ∀ failed repos,
        drawn (Page.init failed (fetched (meOf isZero) resp) repos) =
          nameLine issued.userName issued.userId :: drawn (showRepos repos)) ∧
    ∀ trace p, (web crates o).Run FreshIds Empty trace p → ∀ n browser headers resp,
      p.threads[n]? = some ⟨⟨browser, .repos headers⟩, .ret resp⟩ →
      ((NoSession trace n headers ∨ ∃ issued s s' e, BySession trace n headers issued ∧
          ⟨s, .called n (.listRepos issued.token) (.error e), s'⟩ ∈ trace) ∧
        drawn (showRepos (fetched (reposOf isZero) resp)) = [notice "Loading…", failure "Could not load repositories."]) ∨
      ∃ issued s s' list, BySession trace n headers issued ∧
        ⟨s, .called n (.listRepos issued.token) (.ok list), s'⟩ ∈ trace ∧
        drawn (showRepos (fetched (reposOf isZero) resp)) = [notice "Loading…", page (list.map repo)] := by
  refine ⟨fun trace p h n browser headers resp hn => ?_, fun trace p h n browser headers resp hn => ?_⟩
  · rcases me_path ((System.run_leads h).1 n _ hn) with ⟨rfl, hnone⟩ | ⟨id, s, s', token, userName, sub, hid, hx, rfl⟩
    · refine Or.inl ⟨fun id hid => ?_, fun failed repos => rfl⟩
      obtain ⟨s, s', hx⟩ := hnone id hid
      exact ⟨s, s', Trace.mem_own.mp hx⟩
    · obtain ⟨issued, rfl, rfl, rfl, hs⟩ := bySession h hid hx
      refine Or.inr ⟨issued, hs, fun failed repos => ?_⟩
      rw [fetched_me]
      change shown (Page.signedIn _) :: drawn (showRepos repos) = _
      rw [drawn_me]
  · rcases repos_path ((System.run_leads h).1 n _ hn) with
      ⟨rfl, hnone⟩ | ⟨id, s, s', t, t', token, userName, sub, answer, hid, hx, hlist, rfl⟩
    · refine Or.inl ⟨Or.inl fun id hid => ?_, drawn_refused 401⟩
      obtain ⟨s, s', hx⟩ := hnone id hid
      exact ⟨s, s', Trace.mem_own.mp hx⟩
    · obtain ⟨issued, rfl, rfl, rfl, hs⟩ := bySession h hid hx
      cases answer with
      | error e => exact Or.inl ⟨Or.inr ⟨issued, t, t', e, hs, Trace.mem_own.mp hlist⟩, drawn_refused 502⟩
      | ok list =>
        refine Or.inr ⟨issued, t, t', list, hs, Trace.mem_own.mp hlist, ?_⟩
        rw [fetched_repos, drawn_repos]

end Kaguya.Web.Api
