/-
What can go wrong, by cause, and the message for each cause.
-/
import LiveFiles.Path
import LiveFiles.Text.Quoted

namespace LiveFiles

/-- the path as it was written, between quotes -/
def Path.quoted (p : Path) : String := Text.quoted p.text

/-- A failure reported by a disk: what was being done, and what lies behind it, outermost first. -/
structure Failure where
  message : String
  causes : List String := []
  deriving DecidableEq, Repr

/-- outermost message first -/
def Failure.chain (f : Failure) : List String := f.message :: f.causes

/-- what is wrong with a configuration whose form is right -/
inductive Misfit where
  | debounceOutOfRange (ms : Nat)
  | emptyEntry
  | repeated (path : Path)
  | nothingToWatch
  deriving DecidableEq, Repr

/-- longest quiet period allowed, in milliseconds -/
def maxDebounceMs : Nat := 60000

def Misfit.message : Misfit → String
  | .debounceOutOfRange ms => s!"[watcher].debounce_ms must be within 1..={maxDebounceMs} (got {ms})"
  | .emptyEntry => "[watch].paths must not contain empty entries"
  | .repeated p => s!"[watch].paths lists {p.quoted} more than once"
  | .nothingToWatch => "nothing to watch: pass paths on the command line or set [watch].paths"

inductive Problem where
  /-- the configuration does not fit; the text says how -/
  | config (reason : String)
  /-- reading the configuration file failed -/
  | io (reason : String)
  /-- the configuration file has the wrong form -/
  | toml
  /-- the directory of a path cannot be watched -/
  | watch
  /-- writing to a path that nobody watches is refused -/
  | unwatchedWrite (path : Path)
  /-- a file was gone right after it had been written -/
  | vanished (path : Path)
  /-- the engine takes no more work -/
  | shutDown
  | other (failure : Failure)
  deriving DecidableEq, Repr

namespace Problem

def misfit (m : Misfit) : Problem := .config m.message

def message : Problem → String
  | .config reason => s!"Configuration error: {reason}"
  | .io reason => s!"IO error: {reason}"
  | .toml => "TOML parsing error"
  | .watch => "File watch error"
  | .unwatchedWrite p => s!"Write rejected: {p.quoted} is not watched"
  | .vanished p => s!"File {p.quoted} disappeared right after being written"
  | .shutDown => "File sync manager has been shut down"
  | .other f => f.message

end Problem

end LiveFiles
