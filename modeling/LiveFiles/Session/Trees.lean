/-
Sessions on a directory tree: a layout says what the tree holds at the start, commands of the first kind read and change
files, those of the second kind arm and disarm a watcher.
-/
import LiveFiles.DirectoryWatcher

namespace LiveFiles.Session.Trees

structure LayoutFile where
  path : Path
  bytes : ByteArray
  modified : Instant

/-- what a tree holds besides the directories that are always there -/
structure Layout where
  directories : List Path := []
  files : List LayoutFile := []
  /-- symbolic links: where, and to what -/
  links : List (Path × String) := []

/-- the working directory of these sessions -/
def here : Place := ["tmp", "scratch"]

def addDirectory (t : Tree) (p : Path) : Tree := (t.makeDirectories (p.text.length + 1) p).1

def addFile (t : Tree) (f : LayoutFile) : Tree := (t.write f.path f.bytes).1.setModified f.path f.modified

def addLink (t : Tree) (link : Path × String) : Tree := ((t.makeLink link.1 link.2).toOption).getD t

/-- directories, then files, then links -/
def Layout.tree (l : Layout) : Tree :=
  l.links.foldl addLink (l.files.foldl addFile (l.directories.foldl addDirectory (Tree.initial here)))

inductive FileCommand where
  | write (path : Path) (bytes : ByteArray)
  | read (path : Path)
  | stat (path : Path)
  /-- set the modification date of a path, then look at it -/
  | date (path : Path) (modified : Instant)
  | unlink (path : Path)

inductive FileReply where
  | written (r : Except Failure Unit)
  | text (r : Except Failure String)
  | stat (r : Except Failure (Option Tree.Stat))
  | date (r : Except Failure (Option Instant))
  | unlinked (b : Bool)

def fileStep (t : Tree) : FileCommand → Tree × FileReply
  | .write p bytes =>
    let (t, r) := t.write p bytes
    (t, .written r)
  | .read p => (t, .text (t.read p))
  | .stat p => (t, .stat (t.stat p))
  | .date p modified =>
    let t := t.setModified p modified
    (t, .date ((t.stat p).map fun st => st.map (·.modified)))
  | .unlink p =>
    match t.unlink? p with
    | some t => (t, .unlinked true)
    | none => (t, .unlinked false)

def runFiles (t : Tree) : List FileCommand → List FileReply
  | [] => []
  | c :: cs =>
    let (t, r) := fileStep t c
    r :: runFiles t cs

inductive WatcherCommand where
  | arm (path : Path)
  | disarm (path : Path)
  | isArmed (path : Path)
  | describe

inductive WatcherReply where
  | nothing
  | armed (r : Except Problem Unit)
  | flag (b : Bool)
  | text (s : String)

def watcherStep (t : Tree) (x : DirectoryWatcher) : WatcherCommand → DirectoryWatcher × WatcherReply
  | .arm p =>
    match x.arm t p with
    | .ok x => (x, .armed (.ok ()))
    | .error e => (x, .armed (.error e))
  | .disarm p => (x.disarm p, .nothing)
  | .isArmed p => (x, .flag (x.isArmed p))
  | .describe => (x, .text x.text)

def runWatcher (t : Tree) (x : DirectoryWatcher) : List WatcherCommand → List WatcherReply
  | [] => []
  | c :: cs =>
    let (x, r) := watcherStep t x c
    r :: runWatcher t x cs

end LiveFiles.Session.Trees
