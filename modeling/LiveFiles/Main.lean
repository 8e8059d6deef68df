/-
The program on the command line. All decisions are those of `Command.execute` on a tree, and while it watches those of
`Follower.look`; this module makes the tree from the disk, from time to time again, and prints.
-/
import LiveFiles.Command.Follow
import LiveFiles.Command.Run

namespace LiveFiles.Main

open Command

def instantOf (t : IO.FS.SystemTime) : Instant := ⟨t.sec * 1000000000 + t.nsec.toNat⟩

/-- add a directory of the disk to a tree, if it exists -/
def loadDirectory (t : Tree) (p : Path) : IO Tree := do
  try
    let place ← IO.FS.realPath p.text
    if (← place.metadata).type == .dir then return (t.makeDirectories (p.text.length + 1) p).1 else return t
  catch _ => return t

/-- add what is at a path of the disk to a tree; of what does not exist, only the directory it would be in -/
def load (t : Tree) (p : Path) : IO Tree := do
  try
    let place ← IO.FS.realPath p.text
    let info ← place.metadata
    if info.type == .dir then return (t.makeDirectories (p.text.length + 1) p).1
    let bytes ← IO.FS.readBinFile place
    return (t.write p bytes).1.setModified p (instantOf info.modified)
  catch _ => loadDirectory t (t.absolute p).watchRoot

/-- what a command line asks for, by the configuration in a tree -/
def config? (t : Tree) (a : Args) : Option Config := (findConfig t a).2.toOption

/-- a tree in which nothing is known but the working directory -/
def bare : IO Tree := do return Tree.initial (Tree.names (← IO.currentDir).toString.toList)

/-- the part of the disk that a command line is about -/
def loadFor (a : Args) : IO Tree := do
  let t ← load (← bare) (a.config.getD defaultConfigPath)
  match config? t a with
  | some c => (c.targets a.paths).foldlM load t
  | none => return t

/-- print text so that it is seen at once -/
def display (text : String) : IO Unit := do
  IO.print text
  (← IO.getStdout).flush

/-- look at the disk again and again, and print what the engine tells of it -/
partial def follow (f : Follower) : IO Unit := do
  IO.sleep 200
  let t ← (f.seen.map Prod.fst).foldlM load (← bare)
  let (news, f) := f.look t
  for s in news do
    display (s.line ++ "\n")
  follow f

/-- carry out a command line; the result is the exit code -/
def run (words : List String) : IO UInt32 := do
  let environment ← IO.getEnv "FILESYNC_LOG"
  let args := (Args.parse words).toOption
  let t ← match args with
    | some a => loadFor a
    | none => pure (Tree.initial [])
  let x := execute t words environment
  display x.stdout
  if let some complaint := x.complaint then IO.eprintln ("filesync error: " ++ complaint)
  if let some a := args then
    if x.exit = 0 && !a.once && !a.dryRun then
      if let some c := config? t a then follow (.start c.unwatchedWrites t (c.targets a.paths))
  return UInt32.ofNat x.exit

end LiveFiles.Main

def main (words : List String) : IO UInt32 := LiveFiles.Main.run words
