/-
Paths. A path keeps the text it was written as; what it names is its list of parts, its `key`. Repeated and trailing
slashes and dots inside the text do not count, so `a/b`, `a//b`, `a/./b` and `a/b/` have one key. A dot at the very
start does count (`./a` is not `a`), and `..` is a part like any other: nothing is resolved without looking at a disk.

All registries of the library are keyed by `Path.Key`, and every message and snapshot shows `Path.text`.
-/

namespace LiveFiles

/-- one step of a path -/
inductive Part where
  /-- the root directory, at the start of an absolute path -/
  | root
  /-- the dot at the start of a path such as `./a` -/
  | here
  /-- the directory above -/
  | up
  | name (s : String)
  deriving DecidableEq, Repr

/-- a path as it was written -/
structure Path where
  text : String
  deriving DecidableEq, Repr, Inhabited

namespace Path

/-- what a path names: its parts -/
abbrev Key := List Part

/-- the pieces between slashes, `n + 1` of them for `n` slashes -/
def pieces : List Char → List (List Char)
  | [] => [[]]
  | c :: cs =>
    if c = '/' then [] :: pieces cs
    else match pieces cs with
      | [] => [[c]]
      | p :: ps => (c :: p) :: ps

/-- the part that a piece stands for; an empty piece and a dot stand for none -/
def part? : List Char → Option Part
  | [] => none
  | ['.'] => none
  | ['.', '.'] => some .up
  | cs => some (.name (String.ofList cs))

/-- the start of a path that is not up for division: the slash of an absolute path, the dot of `./a`, else nothing -/
def lead : List Char → List Char
  | '/' :: _ => ['/']
  | ['.'] => ['.']
  | '.' :: '/' :: _ => ['.']
  | _ => []

/-- the part that the start stands for -/
def leadParts : List Char → List Part
  | ['/'] => [.root]
  | ['.'] => [.here]
  | _ => []

/-- the text after its start -/
def body (cs : List Char) : List Char := cs.drop (lead cs).length

/-- the parts of a path, by which it is compared -/
def key (p : Path) : Key :=
  let cs := p.text.toList
  leadParts (lead cs) ++ (pieces (body cs)).filterMap part?

/-- two spellings of one path -/
def same (a b : Path) : Bool := a.key == b.key

def isAbsolute (p : Path) : Bool := p.text.toList.head? = some '/'

/-- drop the pieces at the end that stand for no part; the list is given last piece first -/
def trimEnd : List (List Char) → List (List Char)
  | [] => []
  | p :: ps => if (part? p).isNone then trimEnd ps else p :: ps

/-- put slashes between pieces -/
def unpieces : List (List Char) → List Char
  | [] => []
  | [p] => p
  | p :: ps => p ++ '/' :: unpieces ps

/-- The path less its last part, as it was written; a root and an empty path have none. -/
def parent? (p : Path) : Option Path :=
  let cs := p.text.toList
  match trimEnd (pieces (body cs)).reverse with
  | _ :: rest => some ⟨String.ofList (lead cs ++ unpieces (trimEnd rest).reverse)⟩
  | [] => if lead cs = ['.'] then some ⟨""⟩ else none

/-- the last part, if it is a name -/
def fileName? (p : Path) : Option String :=
  match p.key.getLast? with
  | some (.name s) => some s
  | _ => none

/-- a path below a directory; an absolute path stands for itself -/
def under (dir p : Path) : Path :=
  if p.isAbsolute then p
  else if dir.text.isEmpty || dir.text.toList.getLast? = some '/' then ⟨dir.text ++ p.text⟩
  else ⟨dir.text ++ "/" ++ p.text⟩

/-- The directory to watch in order to see the path come and go. -/
def watchRoot (p : Path) : Path :=
  match p.parent? with
  | some up => if up.text.isEmpty then ⟨"."⟩ else up
  | none => ⟨"."⟩

end Path

end LiveFiles
