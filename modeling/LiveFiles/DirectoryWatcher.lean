/-
The watcher of the system. To watch a path it watches the directory of the path, which must exist when the path is
armed; afterwards the path counts as armed until it is disarmed, whatever becomes of the directory.
-/
import LiveFiles.Tree

namespace LiveFiles

structure DirectoryWatcher where
  /-- quiet period before an event is delivered -/
  debounce : Span
  armed : List Path.Key := []
  deriving DecidableEq, Repr

namespace DirectoryWatcher

def isArmed (x : DirectoryWatcher) (p : Path) : Bool := x.armed.contains p.key

/-- Arm a path. An armed path may be armed again; if that fails, it stays as it was. -/
def arm (x : DirectoryWatcher) (t : Tree) (p : Path) : Except Problem DirectoryWatcher :=
  if !t.canWatch p then .error .watch
  else if x.isArmed p then .ok x
  else .ok { x with armed := x.armed ++ [p.key] }

def disarm (x : DirectoryWatcher) (p : Path) : DirectoryWatcher := { x with armed := x.armed.filter (· ≠ p.key) }

def text (x : DirectoryWatcher) : String := "NotifyWatcher \x7b debounce: " ++ x.debounce.text ++ ", .. \x7d"

end DirectoryWatcher

end LiveFiles
