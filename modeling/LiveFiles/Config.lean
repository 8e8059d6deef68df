/-
Checked configurations. `Settings.check` accepts settings whose quiet period is within bounds and whose paths are
neither empty nor given twice, and names the first thing that is wrong: the period before the paths, the paths in
their order. `Config.targets` is the list of paths to watch: those of the configuration, then new ones of the command
line.
-/
import LiveFiles.Config.Settings
import LiveFiles.Instant
import LiveFiles.Problem

namespace LiveFiles

/-- settings that have passed `Settings.check` -/
structure Config where
  debounceMs : Nat
  unwatchedWrites : WritePolicy
  paths : List Path
  deriving DecidableEq, Repr

/-- the first path of a list that is empty or names the same as an earlier one -/
def firstMisfit (seen : List Path.Key) : List Path → Option Misfit
  | [] => none
  | p :: ps =>
    if p.text.isEmpty then some .emptyEntry
    else if p.key ∈ seen then some (.repeated p)
    else firstMisfit (p.key :: seen) ps

def Settings.check (s : Settings) : Except Misfit Config :=
  if s.debounceMs = 0 || maxDebounceMs < s.debounceMs then .error (.debounceOutOfRange s.debounceMs)
  else match firstMisfit [] s.paths with
    | some m => .error m
    | none => .ok ⟨s.debounceMs, s.unwatchedWrites, s.paths⟩

namespace Config

/-- the length of the quiet period -/
def debounce (c : Config) : Span := Span.ofMillis c.debounceMs

/-- add a path to a list that does not name it yet -/
def addTarget (targets : List Path) (p : Path) : List Path :=
  if targets.any (·.same p) then targets else targets ++ [p]

/-- the configured paths, then the extra ones that are new, in order -/
def targets (c : Config) (extra : List Path) : List Path := extra.foldl addTarget c.paths

end Config

end LiveFiles
