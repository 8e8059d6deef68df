/-
Running the program on a directory tree. `run` is the work behind the command line: find the configuration, collect
the paths to watch, print the first snapshot of each. When it goes on to watch, it is ended by an interrupt with no
file changed in between. `execute` is the whole program: arguments, log level, exit code.

Besides what it prints, a run leaves notices, of which the log shows those of the chosen level.
-/
import LiveFiles.Command.Args
import LiveFiles.Command.Help
import LiveFiles.Config
import LiveFiles.Snapshot
import LiveFiles.Tree

namespace LiveFiles.Command

/-- something worth a line in the log -/
inductive Notice where
  | noConfigFile
  | dryRunDone
  /-- the system is asked to watch a directory -/
  | arming
  | armed
  | armRefused
  | synchronizing
  | synchronizationFailed
  | watching
  | disarmed
  | closed
  deriving DecidableEq, Repr

def Notice.level : Notice → LogLevel
  | .noConfigFile | .dryRunDone | .synchronizing => .debug
  | .arming => .trace
  | .armRefused | .synchronizationFailed => .warn
  | .armed | .watching | .disarmed | .closed => .info

/-- what a run leaves behind -/
structure Trace where
  stdout : String := ""
  notices : List Notice := []
  deriving DecidableEq, Repr

def Trace.note (r : Trace) (n : Notice) : Trace := { r with notices := r.notices ++ [n] }

def Trace.print (r : Trace) (line : String) : Trace := { r with stdout := r.stdout ++ line ++ "\n" }

/-- the configuration file that is used without an explicit one, if it exists -/
def defaultConfigPath : Path := ⟨"FileSync.toml"⟩

/-- the settings in a file of the tree -/
def loadSettings (t : Tree) (p : Path) : Except Problem Settings :=
  match t.readText p with
  | .error e => .error (.io e.message)
  | .ok text =>
    match Settings.ofText? text with
    | none => .error .toml
    | some s => .ok s

def checkSettings (s : Settings) : Except Problem Config := s.check.mapError Problem.misfit

def loadConfig (t : Tree) (p : Path) : Except Problem Config := do checkSettings (← loadSettings t p)

/-- An explicit configuration file must exist; without the default one, the default settings hold. -/
def findConfig (t : Tree) (a : Args) : Trace × Except Problem Config :=
  match a.config with
  | some p => ({}, loadConfig t p)
  | none =>
    if t.isFile defaultConfigPath then ({}, loadConfig t defaultConfigPath)
    else (Trace.note {} .noConfigFile, checkSettings {})

/-- what a dry run prints -/
def dryRunLines (c : Config) (targets : List Path) : List String :=
  ["filesync dry-run",
   s!"  watcher.debounce_ms = {c.debounceMs}",
   s!"  sync.unwatched_writes = {c.unwatchedWrites.title}",
   "",
   s!"paths ({targets.length}):"] ++ targets.map fun p => s!"  - {p.text}"

/-- The first snapshot of a path. A file that goes away between the look at its date and the reading of it is missing. -/
def firstSnapshot (t : Tree) (p : Path) : Except Failure Snapshot := do
  match ← t.stat p with
  | none => return .missing p
  | some st =>
    match t.read p with
    | .ok contents => return .present p ⟨contents, st.modified, st.modified⟩
    | .error f =>
      match ← t.stat p with
      | none => return .missing p
      | some _ => throw f

/-- ask the system to watch a path, which is not done for a run that ends at once -/
def arm (t : Tree) (once : Bool) (r : Trace) (p : Path) : Trace :=
  if once then r
  else (r.note .arming).note (if t.canWatch p then .armed else .armRefused)

/-- print the first snapshot of each path, up to the first that cannot be had -/
def showFirst (t : Tree) (once : Bool) (r : Trace) : List Path → Trace × Except Problem Unit
  | [] => (r, .ok ())
  | p :: ps =>
    let r := (arm t once r p).note .synchronizing
    match firstSnapshot t p with
    | .ok s => showFirst t once (r.print s.line) ps
    | .error f => (r.note .synchronizationFailed, .error (.other f))

/-- end the watching of paths -/
def close (t : Tree) (once : Bool) (r : Trace) (targets : List Path) : Trace :=
  let r := if once then r
    else ((targets.filter t.canWatch).map fun _ => Notice.disarmed).foldl Trace.note (r.note .watching)
  r.note .closed

def run (t : Tree) (a : Args) : Trace × Except Problem Unit :=
  match findConfig t a with
  | (r, .error e) => (r, .error e)
  | (r, .ok c) =>
    let targets := c.targets a.paths
    if a.dryRun then (((dryRunLines c targets).foldl Trace.print r).note .dryRunDone, .ok ())
    else if targets.isEmpty then (r, .error (.misfit .nothingToWatch))
    else match showFirst t a.once r targets with
      | (r, .error e) => (r, .error e)
      | (r, .ok ()) => (close t a.once r targets, .ok ())

/-- a whole execution of the program -/
structure Execution where
  exit : Nat
  stdout : String
  /-- levels that occur in the log, most urgent first -/
  levels : List LogLevel
  /-- first line of the message with which the program gave up -/
  complaint : Option String
  deriving DecidableEq, Repr

def firstLine (s : String) : String := String.ofList (s.toList.takeWhile (· ≠ '\n'))

def execute (t : Tree) (words : List String) (environment : Option String) : Execution :=
  match Args.parse words with
  | .error (.help long) => ⟨0, helpText long, [], none⟩
  | .error .version => ⟨0, versionText, [], none⟩
  | .error _ => ⟨2, "", [], none⟩
  | .ok a =>
    let limit := LogLevel.choose a.logLevel environment
    let (r, outcome) := run t a
    let levels := LogLevel.all.filter fun l => limit.shows l && r.notices.any (·.level = l)
    match outcome with
    | .ok () => ⟨0, r.stdout, levels, none⟩
    | .error e => ⟨1, r.stdout, levels, some (firstLine e.message)⟩

end LiveFiles.Command
