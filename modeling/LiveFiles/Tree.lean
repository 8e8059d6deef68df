/-
A directory tree with files, directories and symbolic links, and the operations on it that the program uses. Where a
path leads is decided by `walk`: it goes one piece at a time, enters directories only, follows links (at most
`maxLinks` of them, which makes it end) and tells apart what it found, a name free to be created, and the reasons to
stop.

`sameTarget` is the relation between a watched path and the path of an event: one path, or one file name below
directories that are the same place.
-/
import LiveFiles.Disk
import LiveFiles.Table
import LiveFiles.Text.Utf8

namespace LiveFiles

/-- why an operation on the tree fails -/
inductive TreeFault where
  | absent
  | present
  | notDirectory
  | directory
  | nameTooLong
  | linkLoop
  /-- a path holds the character NUL -/
  | nulInPath
  /-- a file read as text is none -/
  | notText
  deriving DecidableEq, Repr

def TreeFault.message : TreeFault → String
  | .absent => "No such file or directory (os error 2)"
  | .present => "File exists (os error 17)"
  | .notDirectory => "Not a directory (os error 20)"
  | .directory => "Is a directory (os error 21)"
  | .nameTooLong => "File name too long (os error 36)"
  | .linkLoop => "Too many levels of symbolic links (os error 40)"
  | .nulInPath => "file name contained an unexpected NUL byte"
  | .notText => "stream did not contain valid UTF-8"

inductive Node where
  | directory (modified : Instant)
  | file (bytes : ByteArray) (modified : Instant)
  | link (target : String)

/-- the names from the root down to a node -/
abbrev Place := List String

structure Tree where
  nodes : Table Place Node
  /-- the working directory -/
  here : Place
  /-- modification date of what is written now -/
  now : Instant

namespace Tree

/-- the node at a place; the root is always a directory -/
def node? (t : Tree) (p : Place) : Option Node := if p = [] then some (.directory t.now) else t.nodes.get? p

def set (t : Tree) (p : Place) (n : Node) : Tree := { t with nodes := t.nodes.insert p n }

/-- a directory and all directories above it, made directly -/
def withDirectory (t : Tree) : Place → Place → Tree
  | _, [] => t
  | above, name :: rest =>
    let p := above ++ [name]
    (if (t.node? p).isNone then t.set p (.directory t.now) else t).withDirectory p rest

/-- The tree in which the program finds itself: a few directories that are always there, and the working directory. -/
def initial (here : Place) : Tree :=
  let t : Tree := ⟨.empty, here, .epoch⟩
  ((t.withDirectory [] ["tmp"]).withDirectory [] ["usr", "bin"]).withDirectory [] here

/-! ### Where a path leads -/

/-- longest name and longest path, in bytes -/
def maxName : Nat := 255
def maxPath : Nat := 4095

/-- how many links are followed -/
def maxLinks : Nat := 40

/-- the names in a path, dots among them -/
def names (cs : List Char) : List String := ((Path.pieces cs).filter (!·.isEmpty)).map String.ofList

/-- the steps of a walk along a path; a slash at the end asks for a directory, as a dot does -/
def steps (cs : List Char) : List String :=
  if cs.getLast? = some '/' && !(names cs).isEmpty then names cs ++ ["."] else names cs

/-- where a walk ends -/
inductive Found where
  | at (p : Place) (n : Node)
  /-- nothing has this name in a directory that exists -/
  | free (p : Place)

/-- Walk on from a place, with `links` more links to follow; `follow` if a link at the end is followed too. -/
def walk (t : Tree) (follow : Bool) (links : Nat) (p : Place) (todo : List String) : Except TreeFault Found :=
  match todo with
  | [] =>
    match t.node? p with
    | some n => .ok (.at p n)
    | none => .error .absent
  | step :: rest =>
    match t.node? p with
    | some (.directory _) =>
      if step = "." then walk t follow links p rest
      else if step = ".." then walk t follow links p.dropLast rest
      else if maxName < step.utf8ByteSize then .error .nameTooLong
      else
        let q := p ++ [step]
        match t.node? q with
        | none => if rest = [] then .ok (.free q) else .error .absent
        | some (.link target) =>
          if rest = [] && !follow then .ok (.at q (.link target))
          else match links with
            | 0 => .error .linkLoop
            | links + 1 =>
              walk t follow links (if target.toList.head? = some '/' then [] else p) (steps target.toList ++ rest)
        | some _ => walk t follow links q rest
    | some _ => .error .notDirectory
    | none => .error .absent
termination_by (links, todo.length)

/-- where walks along a path begin -/
def start (t : Tree) (p : Path) : Place := if p.isAbsolute then [] else t.here

/-- why no walk along a path is even begun -/
def refusal? (p : Path) : Option TreeFault :=
  if p.text.toList.contains '\x00' then some .nulInPath
  else if p.text.isEmpty then some .absent
  else if maxPath < p.text.utf8ByteSize then some .nameTooLong
  else none

/-- what a path leads to -/
def find (t : Tree) (follow : Bool) (p : Path) : Except TreeFault Found :=
  match refusal? p with
  | some e => .error e
  | none => t.walk follow maxLinks (t.start p) (steps p.text.toList)

/-- the node that a path leads to, links followed, and its place -/
def locate (t : Tree) (p : Path) : Except TreeFault (Place × Node) := do
  match ← t.find true p with
  | .at q n => .ok (q, n)
  | .free _ => .error .absent

def isDirectory (t : Tree) (p : Path) : Bool :=
  match t.locate p with
  | .ok (_, .directory _) => true
  | _ => false

def isFile (t : Tree) (p : Path) : Bool :=
  match t.locate p with
  | .ok (_, .file _ _) => true
  | _ => false

/-- the place that a path leads to, if it leads anywhere -/
def canonical? (t : Tree) (p : Path) : Option Place :=
  match t.locate p with
  | .ok (q, _) => some q
  | .error _ => none

/-! ### Operations -/

/-- what is known of a file without reading it; a directory has no length -/
structure Stat where
  modified : Instant
  length : Option Nat
  deriving DecidableEq, Repr

/-- what a path leads to, or nothing if that does not exist -/
def stat? (t : Tree) (p : Path) : Except TreeFault (Option Stat) :=
  match t.locate p with
  | .ok (_, .file bytes modified) => .ok (some ⟨modified, some bytes.size⟩)
  | .ok (_, .directory modified) => .ok (some ⟨modified, none⟩)
  | .ok (_, .link _) => .ok none
  | .error .absent => .ok none
  | .error e => .error e

def readText (t : Tree) (p : Path) : Except TreeFault String := do
  match ← t.locate p with
  | (_, .file bytes _) =>
    match Text.Utf8.decode bytes with
    | .ok s => .ok s
    | .error _ => .error .notText
  | _ => .error .directory

/-- the file that a path leads to, or nothing if there is none -/
def stored? (t : Tree) (p : Path) : Except TreeFault (Option StoredFile) :=
  match t.locate p with
  | .ok (_, .file bytes modified) => .ok (some ⟨bytes, modified⟩)
  | .ok (_, .directory _) => .error .directory
  | .ok (_, .link _) => .ok none
  | .error .absent => .ok none
  | .error e => .error e

/-- make one directory; a slash at the end of its path does not count -/
def makeDirectory (t : Tree) (p : Path) : Except TreeFault Tree :=
  match refusal? p with
  | some e => .error e
  | none => do
    match ← t.walk false maxLinks (t.start p) (names p.text.toList) with
    | .at _ _ => .error .present
    | .free q => .ok (t.set q (.directory t.now))

/-- Make a directory and, if need be, the directories above it (`n` levels up at most). The tree is returned in any case,
because the upper directories stay when a lower one fails. -/
def makeDirectories (t : Tree) : Nat → Path → Tree × Except TreeFault Unit
  | 0, _ => (t, .ok ())
  | n + 1, p =>
    match p.text.isEmpty, p.parent? with
    | false, some up =>
      match t.makeDirectory p with
      | .ok t => (t, .ok ())
      | .error .absent =>
        match t.makeDirectories n up with
        | (t, .error e) => (t, .error e)
        | (t, .ok ()) =>
          match t.makeDirectory p with
          | .ok t => (t, .ok ())
          | .error e => (t, if e = .present && t.isDirectory p then .ok () else .error e)
      | .error e => (t, if e = .present && t.isDirectory p then .ok () else .error e)
    | _, _ => (t, .ok ())

/-- Create or replace a file. A path with a slash at the end can only name a directory. -/
def replaceFile (t : Tree) (p : Path) (bytes : ByteArray) : Except TreeFault Tree := do
  if let some e := refusal? p then throw e
  if p.text.toList.getLast? = some '/' && p.fileName?.isSome then
    match ← t.walk true maxLinks (t.start p) (names p.text.toList).dropLast with
    | .at _ (.directory _) => .error .directory
    | .at _ _ => .error .notDirectory
    | .free _ => .error .absent
  else match ← t.find true p with
    | .at q (.file _ _) => .ok (t.set q (.file bytes t.now))
    | .at _ _ => .error .directory
    | .free q => .ok (t.set q (.file bytes t.now))

/-- write a file below directories that are made as needed -/
def write (t : Tree) (p : Path) (bytes : ByteArray) : Tree × Except Failure Unit :=
  let up := p.parent?.getD ⟨""⟩
  match t.makeDirectories (up.text.length + 1) up with
  | (t, .error e) => (t, .error ⟨s!"creating dir {up.quoted}", [e.message]⟩)
  | (t, .ok ()) =>
    match t.replaceFile p bytes with
    | .ok t => (t, .ok ())
    | .error e => (t, .error ⟨s!"writing to file {p.quoted}", [e.message]⟩)

def stat (t : Tree) (p : Path) : Except Failure (Option Stat) :=
  (t.stat? p).mapError fun e => ⟨s!"stat {p.quoted}", [e.message]⟩

def read (t : Tree) (p : Path) : Except Failure String :=
  (t.readText p).mapError fun e => ⟨s!"reading file {p.quoted}", [e.message]⟩

/-- remove the name of a file or a link -/
def unlink? (t : Tree) (p : Path) : Option Tree :=
  if p.text.toList.getLast? = some '/' then none
  else match t.find false p with
    | .ok (.at q (.file _ _)) => some { t with nodes := t.nodes.erase q }
    | .ok (.at q (.link _)) => some { t with nodes := t.nodes.erase q }
    | _ => none

/-- give the file or directory that a path leads to another modification date -/
def setModified (t : Tree) (p : Path) (modified : Instant) : Tree :=
  match t.locate p with
  | .ok (q, .file bytes _) => t.set q (.file bytes modified)
  | .ok (q, .directory _) => t.set q (.directory modified)
  | _ => t

/-- make a symbolic link where nothing is -/
def makeLink (t : Tree) (p : Path) (target : String) : Except TreeFault Tree := do
  match ← t.find false p with
  | .at _ _ => .error .present
  | .free q => .ok (t.set q (.link target))

/-! ### Watching -/

/-- the path seen from the working directory -/
def absolute (t : Tree) (p : Path) : Path := (Path.mk ("/" ++ "/".intercalate t.here)).under p

/-- the directory to watch for a path exists, links followed -/
def canWatch (t : Tree) (p : Path) : Bool :=
  match t.locate (t.absolute p).watchRoot with
  | .ok _ => true
  | .error _ => false

/-- An event at path `event` concerns the watched path `target`: they are one path, or have one file name in directories that
exist and are the same place. The file itself need not exist. -/
def sameTargetBy (canonical? : Path → Option Place) (target event : Path) : Bool :=
  if target.same event then true
  else if target.fileName? ≠ event.fileName? then false
  else match target.parent?, event.parent? with
    | some a, some b =>
      match canonical? a, canonical? b with
      | some a, some b => a == b
      | _, _ => false
    | _, _ => false

/-- `sameTargetBy` with the places of this tree -/
def sameTarget (t : Tree) : Path → Path → Bool := sameTargetBy t.canonical?

end Tree

end LiveFiles
