/-
  Kaguya.Web.Page — the script of the page (`web/static/app.js`): what it puts into the
  document from the answers of the JSON API. Strings are JavaScript's, code units of any
  value.

  `repos_inert`: whatever the repositories' fields hold, the list is read as the template's
  tags, with each field as it is in the text between them (`page`); which tags there are
  tells no more of the fields than which descriptions and default branches are empty.
-/

import Kaguya.Lib.Markup

namespace Kaguya.Web.Page

open Kaguya.Lib

/-! ## Strings -/

abbrev Str := List UInt16

/-- UTF-16 -/
def units (c : Char) : Str :=
  if c.toNat < 0x10000 then [c.toNat.toUInt16]
  else [(0xD800 + (c.toNat - 0x10000) / 0x400).toUInt16, (0xDC00 + (c.toNat - 0x10000) % 0x400).toUInt16]

def js (s : String) : Str := s.toList.flatMap units

/-- The characters that `escapeHtml` replaces, by what. -/
def entities : Escaping UInt16 where
  mark := '&'.toNat.toUInt16
  table := [('&', "&amp;"), ('<', "&lt;"), ('>', "&gt;"), ('"', "&quot;"), ('\'', "&#39;")].map fun p =>
    (p.1.toNat.toUInt16, js p.2)
  begins := by decide
  marked := by decide
  clean := by decide
  distinct := by decide

/-- A falsy string is empty: `s || ""` is `s`. -/
def escapeHtml (s : Str) : Str := entities.escape s

/-- How the document is read. -/
def html : Brackets UInt16 := ⟨'<'.toNat.toUInt16, '>'.toNat.toUInt16, ['"'.toNat.toUInt16, '\''.toNat.toUInt16]⟩

/-! ## What the script assigns -/

structure Repo where
  name : Str
  id : Str
  description : Str
  defaultBranch : Str

/-- The end of a fetch of JSON: it throws, the status is not in the 200s, or the value. -/
inductive Fetched (α : Type) where
  | thrown
  | refused (status : Nat)
  | ok (a : α)

/-- An assignment to a property of an element. -/
inductive Assign where
  | appHtml (s : Str)
  | userHtml (s : Str)
  | userText (s : Str)

def row (repo : Repo) : Str :=
  js "\n      <li>\n        <div class=\"name\">" ++ escapeHtml repo.name ++ js "</div>\n        " ++
  (if repo.description ≠ [] then js "<div class=\"desc\">" ++ escapeHtml repo.description ++ js "</div>" else []) ++
  js "\n        <div class=\"meta\">" ++ escapeHtml repo.id ++
  (if repo.defaultBranch ≠ [] then js " · " ++ escapeHtml repo.defaultBranch else []) ++ js "</div>\n      </li>"

def loading : Str := js "<h2>Repositories</h2><p class=\"muted\">Loading…</p>"

def reposHtml (repos : List Repo) : Str :=
  if repos = [] then js "<h2>Repositories</h2><p class=\"muted\">You have access to no repositories yet.</p>"
  else js "<h2>Repositories</h2><ul class=\"repos\">" ++ repos.flatMap row ++ js "</ul>"

def showRepos (r : Fetched (List Repo)) : List Assign :=
  .appHtml loading :: match r with
    | .thrown => []
    | .refused _ => [.appHtml (js "<h2>Repositories</h2><p class=\"error\">Could not load repositories.</p>")]
    | .ok repos => [.appHtml (reposHtml repos)]

def showLogin (failed : Bool) : List Assign :=
  [.userText [],
    .appHtml (js "\n    " ++ (if failed then js "<p class=\"error\">Login failed. Please try again.</p>" else []) ++
      js "\n    <p>Sign in to browse the repositories you can access.</p>\n    <p><a class=\"btn\" href=\"/auth/login\">Sign in</a></p>")]

structure Me where
  userName : Str
  sub : Str

def signedIn (u : Me) : Str :=
  escapeHtml (if u.userName ≠ [] then u.userName else u.sub) ++ js " · <a href=\"/auth/logout\">Sign out</a>"

/-- `failed`: the location has `login=failed`. -/
def init (failed : Bool) (me : Fetched Me) (repos : Fetched (List Repo)) : List Assign :=
  match me with
  | .thrown => []
  | .refused status => if status = 401 then showLogin failed else [.appHtml (js "<p class=\"error\">Something went wrong.</p>")]
  | .ok u => .userHtml (signedIn u) :: showRepos repos

/-! ## Escaped strings -/

/-- What is escaped has no character that markup is made of, and every `&` in it begins one
    of the entities. -/
structure Inert (s : Str) : Prop where
  clean : ∀ c ∈ ['<', '>', '"', '\''], c.toNat.toUInt16 ∉ s
  marked : ∀ a b, s = a ++ '&'.toNat.toUInt16 :: b →
    ∃ e ∈ ["&amp;", "&lt;", "&gt;", "&quot;", "&#39;"], js e <+: '&'.toNat.toUInt16 :: b

theorem escapeHtml_inert (s : Str) : Inert (escapeHtml s) where
  clean c hc := by
    have htable : ['<', '>', '"', '\''].all (fun c => entities.table.any fun p =>
        decide (p.1 = c.toNat.toUInt16 ∧ p.1 ≠ entities.mark)) = true := by decide
    obtain ⟨p, hp, h⟩ := List.any_eq_true.mp (List.all_eq_true.mp htable c hc)
    obtain ⟨hchar, hne⟩ := of_decide_eq_true h
    exact hchar ▸ Escaping.escape_clean hp hne
  marked a b h := by
    have htable : ∀ p ∈ entities.table, ∃ e ∈ ["&amp;", "&lt;", "&gt;", "&quot;", "&#39;"], js e = p.2 := by decide
    obtain ⟨p, hp, hprefix⟩ := Escaping.escape_marked (E := entities) h
    obtain ⟨e, he, hbody⟩ := htable p hp
    exact ⟨e, he, hbody ▸ hprefix⟩

theorem escapeHtml_undone (s : Str) : entities.unescape (escapeHtml s) = s := Escaping.unescape_escape s

/-! ## The list of repositories -/

/-- How a document is read: its tags, and the texts between them with the entities
    replaced. -/
def shown (s : Str) : List (Piece UInt16) := (html.pieces s).map (Piece.decode entities)

theorem left_escaped : ∃ p ∈ entities.table, p.1 = html.left ∧ html.left ≠ entities.mark := by decide

/-- The template of a row. -/
def rowChunks (repo : Repo) : List (Chunk UInt16) :=
  let desc : List (Chunk UInt16) :=
    if repo.description ≠ [] then [.tag (js "<div class=\"desc\">"), .field repo.description, .tag (js "</div>")] else []
  let branch : List (Chunk UInt16) := if repo.defaultBranch ≠ [] then [.plain (js " · "), .field repo.defaultBranch] else []
  .plain (js "\n      ") :: .tag (js "<li>") :: .plain (js "\n        ") :: .tag (js "<div class=\"name\">") ::
    .field repo.name :: .tag (js "</div>") :: .plain (js "\n        ") :: (desc ++
    .plain (js "\n        ") :: .tag (js "<div class=\"meta\">") :: .field repo.id :: (branch ++
    [.tag (js "</div>"), .plain (js "\n      "), .tag (js "</li>")]))

theorem row_chunks (repo : Repo) : row repo = (rowChunks repo).flatMap (Chunk.write entities) := by
  have hstart : js "\n      <li>\n        <div class=\"name\">" =
      js "\n      " ++ js "<li>" ++ js "\n        " ++ js "<div class=\"name\">" := by decide
  have hname : js "</div>\n        " = js "</div>" ++ js "\n        " := by decide
  have hmeta : js "\n        <div class=\"meta\">" = js "\n        " ++ js "<div class=\"meta\">" := by decide
  have hend : js "</div>\n      </li>" = js "</div>" ++ js "\n      " ++ js "</li>" := by decide
  rw [row, hstart, hname, hmeta, hend]
  by_cases hd : repo.description = [] <;> by_cases hb : repo.defaultBranch = [] <;>
    simp [rowChunks, Chunk.write, escapeHtml, hd, hb]

theorem row_ok (repo : Repo) : ∀ p ∈ rowChunks repo, p.Ok entities html := by
  have hblank : (Chunk.plain (js "\n      ")).Ok entities html := by decide
  have hblanks : (Chunk.plain (js "\n        ")).Ok entities html := by decide
  have hdot : (Chunk.plain (js " · ")).Ok entities html := by decide
  have hitem : (Chunk.tag (js "<li>")).Ok entities html := by decide
  have hname : (Chunk.tag (js "<div class=\"name\">")).Ok entities html := by decide
  have hdesc : (Chunk.tag (js "<div class=\"desc\">")).Ok entities html := by decide
  have hmeta : (Chunk.tag (js "<div class=\"meta\">")).Ok entities html := by decide
  have hend : (Chunk.tag (js "</div>")).Ok entities html := by decide
  have hlast : (Chunk.tag (js "</li>")).Ok entities html := by decide
  by_cases hd : repo.description = [] <;> by_cases hb : repo.defaultBranch = [] <;>
    simp [rowChunks, hd, hb, hblank, hblanks, hdot, hitem, hname, hdesc, hmeta, hend, hlast]

/-- A row as it is read. -/
def rowPage (repo : Repo) : List (Piece UInt16) :=
  let desc : List (Piece UInt16) :=
    if repo.description ≠ [] then
      [.text (js "\n        "), .tag (js "<div class=\"desc\">"), .text repo.description, .tag (js "</div>"),
        .text (js "\n        ")]
    else [.text (js "\n        \n        ")]
  let place : Str := if repo.defaultBranch ≠ [] then repo.id ++ js " · " ++ repo.defaultBranch else repo.id
  .text (js "\n      ") :: .tag (js "<li>") :: .text (js "\n        ") :: .tag (js "<div class=\"name\">") ::
    .text repo.name :: .tag (js "</div>") :: (desc ++
    [.tag (js "<div class=\"meta\">"), .text place, .tag (js "</div>"), .text (js "\n      "), .tag (js "</li>")])

theorem told_row (repo : Repo) (ps : List (Chunk UInt16)) : told [] (rowChunks repo ++ ps) = rowPage repo ++ told [] ps := by
  have hblank : js "\n        \n        " = js "\n        " ++ js "\n        " := by decide
  by_cases hd : repo.description = [] <;> by_cases hb : repo.defaultBranch = [] <;>
    simp [rowChunks, rowPage, told, hd, hb, hblank]

theorem told_rows (repos : List Repo) (ps : List (Chunk UInt16)) :
    told [] (repos.flatMap rowChunks ++ ps) = repos.flatMap rowPage ++ told [] ps := by
  induction repos with
  | nil => rfl
  | cons repo repos ih =>
    rw [List.flatMap_cons, List.flatMap_cons, List.append_assoc, told_row, ih, List.append_assoc]

/-- The heading, and a paragraph of the class `muted` with the text. -/
def notice (text : String) : List (Piece UInt16) :=
  [.text [], .tag (js "<h2>"), .text (js "Repositories"), .tag (js "</h2>"), .text [], .tag (js "<p class=\"muted\">"),
    .text (js text), .tag (js "</p>"), .text []]

theorem shown_notice {text : String} {s : Str} (hok : (Chunk.plain (js text)).Ok entities html)
    (hs : s = [.tag (js "<h2>"), .plain (js "Repositories"), .tag (js "</h2>"), .tag (js "<p class=\"muted\">"),
      .plain (js text), .tag (js "</p>")].flatMap (Chunk.write entities)) : shown s = notice text := by
  have hopen : (Chunk.tag (js "<h2>")).Ok entities html := by decide
  have htitle : (Chunk.plain (js "Repositories")).Ok entities html := by decide
  have hclose : (Chunk.tag (js "</h2>")).Ok entities html := by decide
  have hmuted : (Chunk.tag (js "<p class=\"muted\">")).Ok entities html := by decide
  have hend : (Chunk.tag (js "</p>")).Ok entities html := by decide
  rw [hs, shown, read_chunks left_escaped (by simp [hok, hopen, htitle, hclose, hmuted, hend])]
  rfl

/-- The list as it is read. -/
def page (repos : List Repo) : List (Piece UInt16) :=
  if repos = [] then notice "You have access to no repositories yet."
  else [.text [], .tag (js "<h2>"), .text (js "Repositories"), .tag (js "</h2>"), .text [], .tag (js "<ul class=\"repos\">")] ++
    repos.flatMap rowPage ++ [.text [], .tag (js "</ul>"), .text []]

def listStart : List (Chunk UInt16) :=
  [.tag (js "<h2>"), .plain (js "Repositories"), .tag (js "</h2>"), .tag (js "<ul class=\"repos\">")]

def listEnd : List (Chunk UInt16) := [.tag (js "</ul>")]

theorem list_chunks (repos : List Repo) :
    js "<h2>Repositories</h2><ul class=\"repos\">" ++ repos.flatMap row ++ js "</ul>" =
      (listStart ++ (repos.flatMap rowChunks ++ listEnd)).flatMap (Chunk.write entities) := by
  have hstart : listStart.flatMap (Chunk.write entities) = js "<h2>Repositories</h2><ul class=\"repos\">" := by decide
  have hend : listEnd.flatMap (Chunk.write entities) = js "</ul>" := by decide
  have hrows : (repos.flatMap rowChunks).flatMap (Chunk.write entities) = repos.flatMap row := by
    rw [List.flatMap_assoc]
    exact congrArg (fun f => repos.flatMap f) (funext fun repo => (row_chunks repo).symm)
  rw [List.flatMap_append, List.flatMap_append, hstart, hend, hrows, List.append_assoc]

theorem list_ok (repos : List Repo) : ∀ p ∈ listStart ++ (repos.flatMap rowChunks ++ listEnd), p.Ok entities html := by
  have hstart : ∀ p ∈ listStart, p.Ok entities html := by decide
  have hend : ∀ p ∈ listEnd, p.Ok entities html := by decide
  have hrows : ∀ p ∈ repos.flatMap rowChunks, p.Ok entities html := by
    intro p hp
    obtain ⟨repo, _, hp⟩ := List.mem_flatMap.mp hp
    exact row_ok repo p hp
  exact List.forall_mem_append.mpr ⟨hstart, List.forall_mem_append.mpr ⟨hrows, hend⟩⟩

theorem shown_repos (repos : List Repo) : shown (reposHtml repos) = page repos := by
  rw [reposHtml, page]
  by_cases hnone : repos = []
  · rw [if_pos hnone, if_pos hnone]
    exact shown_notice (by decide) (by decide)
  · rw [if_neg hnone, if_neg hnone, list_chunks, shown, read_chunks left_escaped (list_ok repos)]
    exact congrArg (fun ps => [.text [], .tag (js "<h2>"), .text (js "Repositories"), .tag (js "</h2>"), .text [],
      .tag (js "<ul class=\"repos\">")] ++ ps) (told_rows repos listEnd)

/-! ## Which tags -/

/-- How many repositories there are, and which descriptions and default branches are empty. -/
def shape (repos : List Repo) : List (Bool × Bool) :=
  repos.map fun repo => (repo.description.isEmpty, repo.defaultBranch.isEmpty)

def rowTags (noDescription : Bool) : List Str :=
  [js "<li>", js "<div class=\"name\">", js "</div>"] ++
  (if noDescription then [] else [js "<div class=\"desc\">", js "</div>"]) ++
  [js "<div class=\"meta\">", js "</div>", js "</li>"]

theorem row_tags (repo : Repo) : tagsOf (rowPage repo) = rowTags repo.description.isEmpty := by
  cases hd : repo.description <;> simp [rowPage, rowTags, hd]

theorem rows_tags (repos : List Repo) :
    tagsOf (repos.flatMap rowPage) = (shape repos).flatMap fun e => rowTags e.1 := by
  induction repos with
  | nil => rfl
  | cons repo repos ih =>
    rw [List.flatMap_cons, tagsOf_append, row_tags, ih]
    rfl

theorem page_tags {repos repos' : List Repo} (h : shape repos = shape repos') : tagsOf (page repos) = tagsOf (page repos') := by
  have hnone : repos = [] ↔ repos' = [] := by
    have := congrArg List.length h
    rw [shape, shape, List.length_map, List.length_map] at this
    rw [← List.length_eq_zero_iff, this, List.length_eq_zero_iff]
  rw [page, page]
  by_cases he : repos = []
  · rw [if_pos he, if_pos (hnone.mp he)]
  · rw [if_neg he, if_neg (mt hnone.mpr he), tagsOf_append, tagsOf_append, tagsOf_append, tagsOf_append, rows_tags, rows_tags, h]

/-! ## What the list tells -/

/-- The HTML that is assigned. -/
def Assign.markup : Assign → Option Str
  | appHtml s => some s
  | userHtml s => some s
  | userText _ => none

/-- Repositories cannot inject markup: a field is escaped and can be read back, the list is
    read as the template with each field in the text between its tags, and the tags are the
    same for lists of the same shape. -/
theorem repos_inert :
    (∀ s, Inert (escapeHtml s) ∧ entities.unescape (escapeHtml s) = s) ∧
    (∀ repos, ((showRepos (.ok repos)).filterMap Assign.markup).map shown = [notice "Loading…", page repos]) ∧
    ∀ repos repos', shape repos = shape repos' →
      ((showRepos (.ok repos)).filterMap Assign.markup).map (fun s => tagsOf (html.pieces s)) =
        ((showRepos (.ok repos')).filterMap Assign.markup).map fun s => tagsOf (html.pieces s) := by
  have hloading : shown loading = notice "Loading…" := shown_notice (by decide) (by decide)
  have htags : ∀ s, tagsOf (html.pieces s) = tagsOf (shown s) := fun s => (tagsOf_decode _).symm
  refine ⟨fun s => ⟨escapeHtml_inert s, escapeHtml_undone s⟩, fun repos => ?_, fun repos repos' h => ?_⟩
  · exact congrArg₂ (fun a b => [a, b]) hloading (shown_repos repos)
  · have hrepos : tagsOf (html.pieces (reposHtml repos)) = tagsOf (html.pieces (reposHtml repos')) := by
      rw [htags, htags, shown_repos, shown_repos, page_tags h]
    exact congrArg (fun b => [tagsOf (html.pieces loading), b]) hrepos

/-- So is the name of who is signed in. -/
theorem shown_signedIn (u : Me) : shown (signedIn u) =
    [.text ((if u.userName ≠ [] then u.userName else u.sub) ++ js " · "), .tag (js "<a href=\"/auth/logout\">"),
      .text (js "Sign out"), .tag (js "</a>"), .text []] := by
  have hdot : (Chunk.plain (js " · ")).Ok entities html := by decide
  have hlink : (Chunk.tag (js "<a href=\"/auth/logout\">")).Ok entities html := by decide
  have hlabel : (Chunk.plain (js "Sign out")).Ok entities html := by decide
  have hend : (Chunk.tag (js "</a>")).Ok entities html := by decide
  have hsplit : js " · <a href=\"/auth/logout\">Sign out</a>" =
      js " · " ++ js "<a href=\"/auth/logout\">" ++ js "Sign out" ++ js "</a>" := by decide
  have hparts : signedIn u = [.field (if u.userName ≠ [] then u.userName else u.sub), .plain (js " · "),
      .tag (js "<a href=\"/auth/logout\">"), .plain (js "Sign out"), .tag (js "</a>")].flatMap (Chunk.write entities) := by
    rw [signedIn, hsplit]
    simp [Chunk.write, escapeHtml]
  rw [hparts, shown, read_chunks left_escaped (by simp [hdot, hlink, hlabel, hend])]
  rfl

end Kaguya.Web.Page
