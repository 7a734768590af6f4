/-
  Kaguya.Ops.Update — the pull-based deploy (`ops/update.sh`, with `ops/stack.sh`), as a
  script of `Kaguya.Lib.Shell`: its functions, its gates, the deploy and the rollback,
  command by command.

  A command is what the shell runs (`Cmd`), with the words it is given that anything
  depends on. Text filters the script pipes into or compares with (`grep -qF`, `awk`,
  `sort`, `head`) are functions of what they read. The wait for health loops for
  at most the `rounds` a run is given.
-/

import Mathlib.Data.List.Infix
import Kaguya.Lib.Shell

namespace Kaguya.Ops.Update

open Kaguya.Lib.Shell

abbrev Commit := String

/-! ## Commands -/

/-- A line that the script logs: words, or a notification's title and body. -/
inductive Line where
  | text (s : String)
  | notice (title body : String)
  deriving DecidableEq

inductive Rev where
  | head
  | fetchHead
  deriving DecidableEq

/-- A row of `docker compose ps -a --format '{{.Service}} {{.State}} {{.Health}}'`. -/
structure Service where
  name : String
  state : String
  health : String
  deriving DecidableEq

inductive Cmd where
  /-- `cd "$(dirname "$0")/.."` -/
  | cd
  | testFile (path : String)
  /-- `while read ..; done < path` -/
  | readLines (path : String)
  | cat (path : String)
  | source (file : String)
  /-- `exec 9>file` -/
  | openLock (file : String)
  | flock
  /-- `echo` to standard error -/
  | complain (text : String)
  | echo (line : Line)
  | curlNotify (title body url : String)
  /-- `curl` through the local Caddy; without a host the word is not set. -/
  | curlProbe (host : Option String) (path : String)
  | gitFetch (branch : String)
  | gitRevParse (rev : Rev)
  | gitRevParseShort (rev : Commit)
  | gitDiffQuiet
  | gitIsAncestor (a b : Commit)
  /-- `git diff --name-only a b -- specs` -/
  | gitDiffNameOnly (a b : Commit) (specs : List String)
  | gitLog (a b : Commit)
  /-- `git merge --ff-only --quiet` -/
  | gitMerge (rev : Commit)
  /-- `git reset --hard --quiet` -/
  | gitReset (rev : Commit)
  | composePull
  | composeStop (services : List String)
  | composeUp
  | composePs
  /-- `docker compose ps -aq` -/
  | composePsId (service : String)
  | composePsAll
  | composeLogs
  /-- `docker run --rm --volumes-from cid:ro .. tar czf - -C path . > out` -/
  | tarVolume (cid path out : String)
  | imagePrune
  /-- `date -u +%Y%m%dT%H%M%SZ` -/
  | dateStamp
  | dateSeconds
  | umask
  | mkdir (dir : String)
  | tarFiles (out : String) (files : List String)
  /-- `ls -1d dir/*/` -/
  | ls (dir : String)
  /-- `xargs -r rm -rf`, reading `lines` -/
  | xargsRm (lines : List String)
  | rm (path : String)
  /-- `echo text > path` -/
  | write (path text : String)
  | sleep (seconds : Nat)
  deriving DecidableEq

/-- What a command prints, where the script reads it; of a file that is sourced, its text. -/
@[reducible] def Cmd.Out : Cmd → Type
  | readLines _ | gitDiffNameOnly .. | gitLog .. | ls _ => List String
  | cat _ | source _ | gitRevParse _ | gitRevParseShort _ | composePsId _ | dateStamp => String
  | composePs => List Service
  | dateSeconds => Option Int
  | _ => Unit

abbrev Sh (α : Type) := Script Cmd Cmd.Out α

/-! ## stack.sh -/

def stack : String := "kaguya"

def healthTimeout : Int := 180

def configFiles : List String := ["caddy/Caddyfile", "lore/local.toml"]

def stackFile : String := "./ops/stack.sh"

/-! ## Settings -/

abbrev Environ := String → Option String

def Environ.set (env : Environ) (name val : String) : Environ := fun k => if k = name then some val else env k

/-- What the script has set before the lock. -/
structure Config where
  env : Environ

/-- `[ "$force" = 0 ]` fails. -/
def Config.force (c : Config) : Bool := decide (c.env "force" ≠ some "0")

/-- `${name:-default}` -/
def Config.get (c : Config) (name default : String) : String := ((c.env name).filter (!·.isEmpty)).getD default

def Config.branch (c : Config) : String := c.get "UPDATE_BRANCH" "main"

def Config.backupRoot (c : Config) : String := c.get "UPDATE_BACKUP_DIR" ("/var/backups/" ++ stack)

def Config.keep (c : Config) : String := c.get "UPDATE_BACKUP_KEEP" "5"

/-- Commit that failed health; not retried until superseded. -/
def failedFile : String := ".update-failed"

/-- A value between single quotes loses them. -/
def unquote (val : List Char) : List Char :=
  match val with
  | '\'' :: rest => if rest.getLast? = some '\'' then rest.dropLast else val
  | _ => val

/-- A line of `.env`, read literally: `none` for one that is skipped. -/
def envLine (line : String) : Option (String × String) :=
  match line.toList with
  | [] => none
  | '#' :: _ => none
  | cs =>
    let key := cs.takeWhile (· ≠ '=')
    let val := if cs.contains '=' then cs.drop (key.length + 1) else cs
    some (String.ofList key, String.ofList (unquote val))

/-- A name that `export` takes. -/
def validName (name : String) : Bool :=
  match name.toList with
  | [] => false
  | c :: cs => (c.isAlpha || c = '_') && cs.all fun c => c.isAlphanum || c = '_'

/-- Each line exported in turn, up to a name that is none. -/
def exportLines : List String → Environ → Option Environ
  | [], env => some env
  | line :: lines, env =>
    match envLine line with
    | none => exportLines lines env
    | some (key, val) => if validName key then exportLines lines (env.set key val) else none

/-! ## Functions -/

def log (line : Line) : Sh Nat := func (simple (.echo line))

/-- Best effort: a failed notification never fails the run. -/
def notify (c : Config) (title body : String) : Sh Nat := func do
  let _ ← log (.notice title body)
  let url := c.get "UPDATE_NOTIFY_URL" ""
  let _ ← orElse (test (!url.isEmpty)) (return_ 0)
  orElse (simple (.curlNotify title body url)) (log (.text "warning: notification failed"))

def probe (host : Option String) (path : String) : Sh Nat := func (expanding host.isSome (.curlProbe host path))

def backupVolume (service path out : String) : Sh Nat := func do
  let cid : String ← assign (Cmd.composePsId service)
  let _ ← orElse (test (!cid.isEmpty)) do
    let _ ← log (.text ("error: no container for service " ++ service))
    return_ 1
  simple (.tarVolume cid path out)

/-- Stop the writers so the copies are consistent; the following `up -d` restarts them. -/
def stackBackup (dir : String) : Sh Nat := func <|
  andThen (andThen (andThen (simple (.composeStop ["lore", "auth"])) (backupVolume "auth" "/keys" (dir ++ "/auth-keys.tgz")))
    (backupVolume "auth" "/data" (dir ++ "/auth-data.tgz"))) (backupVolume "lore" "/data" (dir ++ "/lore-data.tgz"))

def stackHealth (c : Config) : Sh Nat := func (probe (c.env "LORE_WEB_HOST") "/healthz")

/-- The `awk` over the services: each running, and healthy where it defines a healthcheck. -/
def running (s : Service) : Bool := s.state = "running" && (s.health = "" || s.health = "healthy")

def servicesOk : Sh Nat := func do
  let out : List Service ← assignOr Cmd.composePs (return_ 1)
  let _ ← orElse (test (!out.isEmpty)) (return_ 1)
  test (out.all running)

/-- `[ "$(date +%s)" -lt "$deadline" ]`: no number is an error. -/
def before (deadline : Int) : Sh Nat := do
  let now : Option Int ← subst Cmd.dateSeconds
  check (now.elim 2 fun t => if t < deadline then 0 else 1)

def poll (c : Config) (streak : Nat) : Sh Nat := do
  let streak ← ifThen (andThen servicesOk (stackHealth c)) (do
    let _ ← orElse (test (streak + 1 < 3)) (return_ 0)
    return streak + 1) (return 0)
  let _ ← simple (.sleep 5)
  return streak

/-- Three consecutive passes, so a crash-looping container cannot slip through. -/
def waitHealthy (c : Config) (rounds : Nat) : Sh Nat := func do
  let now : Option Int ← assign Cmd.dateSeconds
  let _ ← whileDo (fun _ => before (now.getD 0 + healthTimeout)) (poll c) rounds 0
  return_ 1

/-! ## Gates -/

/-- The changes that need a human on the box. -/
def setupInputs : List String := ["*.tmpl", ".env.example", "setup.sh"]

def manualMark : String := "[manual-deploy]"

def grepQF (text : String) (lines : List String) : Nat :=
  if lines.any fun line => decide (text.toList <:+: line.toList) then 0 else 1

/-- How the script is run: as what, with what arguments and environment, and for how
    many rounds it may wait. -/
structure Invocation where
  name : String
  argv : List String
  environ : Environ
  rounds : Nat

def Invocation.force (i : Invocation) : Sh String :=
  match i.argv.headD "" with
  | "--force" => return "1"
  | "" => return "0"
  | _ => do
    let _ ← simple (.complain ("usage: " ++ i.name ++ " [--force]"))
    exit 2

/-- To the lock. `force` is a variable of the shell, so a line of `.env` may set it anew. -/
def start (i : Invocation) : Sh Config := do
  let _ ← simple .cd
  let force : String ← i.force
  let _ ← orElse (simple (.testFile ".env")) do
    let _ ← simple (.complain "error: .env missing; run setup first")
    exit 1
  let lines : List String ← assign (Cmd.readLines ".env")
  let some env := exportLines lines (i.environ.set "force" force) | exit 2
  let _ ← special (.source stackFile)
  let _ ← special (.openLock ".update.lock")
  let _ ← orElse (simple .flock) do
    let _ ← log (.text "another update is running")
    exit 0
  return ⟨env⟩

/-- What is to be deployed, with the short names for the log. -/
structure Range where
  head : Commit
  target : Commit
  fromRev : String
  toRev : String

/-- The range, if there is one and nothing in it stops the deploy. -/
def gates (c : Config) : Sh Range := do
  let _ ← simple (.gitFetch c.branch)
  let head : String ← assign (Cmd.gitRevParse .head)
  let target : String ← assign (Cmd.gitRevParse .fetchHead)
  let _ ← orElse (test (head ≠ target)) (exit 0)
  let fromRev : String ← assign (Cmd.gitRevParseShort head)
  let toRev : String ← assign (Cmd.gitRevParseShort target)
  let _ ← ifThen (negate (simple .gitDiffQuiet)) (do
    let _ ← notify c "update blocked" "tracked files have local edits; commit or discard them (git status)"
    exit 1) (return 0)
  let _ ← ifThen (negate (simple (.gitIsAncestor head target))) (do
    let _ ← notify c "update blocked"
      ("local HEAD " ++ fromRev ++ " is not an ancestor of origin/" ++ c.branch ++ " " ++ toRev)
    exit 1) (return 0)
  let _ ← ifThen (andThen (andThen (test !c.force) (simple (.testFile failedFile))) (do
      let failed : String ← subst (Cmd.cat failedFile)
      test (failed = target)) : Sh Nat) (do
    let _ ← log (.text (toRev ++ " failed to deploy before; waiting for a newer commit or --force"))
    exit 0) (return 0)
  let changed : List String ← assign (Cmd.gitDiffNameOnly head target setupInputs)
  let _ ← ifThen (test (!changed.isEmpty)) (do
    let _ ← notify c "manual deploy pending" (fromRev ++ ".." ++ toRev ++ " changes setup inputs (" ++
      " ".intercalate changed ++ "); deploy by hand: git pull, ./setup.sh, then docker compose pull && " ++
      "docker compose up -d. See README.")
    exit 0) (return 0)
  let _ ← ifThen (andThen (test !c.force) (filtered (Cmd.gitLog head target) (grepQF manualMark))) (do
    let _ ← notify c "manual deploy pending" (fromRev ++ ".." ++ toRev ++
      " has a commit marked [manual-deploy]. Do the manual steps, then run ops/update.sh --force.")
    exit 0) (return 0)
  return ⟨head, target, fromRev, toRev⟩

/-! ## Backups -/

def backup (dir : String) : Sh Nat := do
  let _ ← simple .umask
  andThen (andThen (simple (.mkdir dir)) (simple (.tarFiles (dir ++ "/config.tgz") (".env" :: configFiles)))) (stackBackup dir)

def number (s : String) : Option Nat :=
  let digits := s.toList
  if digits ≠ [] ∧ digits.all Char.isDigit then some (digits.foldl (fun n c => 10 * n + (c.toNat - '0'.toNat)) 0) else none

/-- `head -n -keep` -/
def headBut (keep : String) (lines : List String) : List String :=
  (number keep).elim [] fun n => lines.take (lines.length - n)

/-- Keep the newest `keep` backups. -/
def prune (c : Config) : Sh Nat := do
  let dirs : List String ← subst (Cmd.ls c.backupRoot)
  simple (.xargsRm (headBut c.keep (dirs.mergeSort fun a b => !decide (b < a))))

/-! ## Deploy -/

section Deploy

variable (c : Config) (rounds : Nat) (r : Range)

def deployed (backupDir : String) : Sh Nat := do
  let _ ← simple (.rm failedFile)
  let _ ← orElse (simple .imagePrune) (return 0)
  let _ ← notify c "updated" (r.fromRev ++ ".." ++ r.toRev ++ " deployed; backup in " ++ backupDir)
  exit 0

/-- The target failed to start or is unhealthy. -/
def rollback (backupDir : String) : Sh Nat := do
  let _ ← simple (.write failedFile r.target)
  let _ ← log (.text (r.toRev ++ " failed to start or is unhealthy; state and logs follow, then rollback"))
  let _ ← orElse (simple .composePsAll) (return 0)
  let _ ← orElse (simple .composeLogs) (return 0)
  let _ ← simple (.gitReset r.head)
  let _ ← special (.source stackFile)
  let _ ← ifThen (andThen (simple .composeUp) (waitHealthy c rounds))
    (notify c "update rolled back" (r.toRev ++ " failed to start or failed health checks; back on " ++ r.fromRev ++
      ". See: journalctl -u " ++ stack ++ "-update"))
    (notify c "UPDATE FAILED, ROLLBACK UNHEALTHY" (r.toRev ++ " failed and " ++ r.fromRev ++
      " did not recover (a one-way migration may have run). Restore from " ++ backupDir ++ "; see README."))
  exit 1

def deploy : Sh Nat := do
  let _ ← log (.text ("deploying " ++ r.fromRev ++ ".." ++ r.toRev))
  let _ ← simple (.gitMerge r.target)
  let _ ← special (.source stackFile)
  let _ ← ifThen (negate (simple .composePull)) (do
    let _ ← simple (.gitReset r.head)
    let _ ← notify c "update failed" ("image pull for " ++ r.toRev ++ " failed; nothing changed, will retry next run")
    exit 1) (return 0)
  let stamp : String ← assign Cmd.dateStamp
  let backupDir := c.backupRoot ++ "/" ++ stamp ++ "-" ++ r.fromRev
  let _ ← ifThen (negate (subshell (backup backupDir))) (do
    let _ ← simple (.gitReset r.head)
    let _ ← orElse (simple .composeUp) (return 0)
    let _ ← notify c "update failed" ("backup to " ++ backupDir ++ " failed; stayed on " ++ r.fromRev)
    exit 1) (return 0)
  let _ ← prune c
  let _ ← ifThen (andThen (simple .composeUp) (waitHealthy c rounds)) (deployed c r backupDir) (return 0)
  rollback c rounds r backupDir

end Deploy

def update (i : Invocation) : Sh Nat := do
  let c ← start i
  let r ← gates c
  deploy c i.rounds r

end Kaguya.Ops.Update
