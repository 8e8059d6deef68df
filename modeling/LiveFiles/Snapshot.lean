/-
Snapshots: what a subscriber is shown of a path. A well-formed snapshot has a version exactly if its status is `ok`.
`Snapshot.line` is the one-line summary, from whose right end the fields can be read off.
-/
import LiveFiles.Digest.Blake3
import LiveFiles.Instant
import LiveFiles.Path

namespace LiveFiles

/-- the cached view of a file that is present -/
structure Version where
  contents : String
  /-- modification date of the version that `contents` reflects -/
  modified : Instant
  /-- modification date of the last change that was not made through the engine -/
  external : Instant
  deriving DecidableEq, Repr

inductive Status where
  | ok
  | missing
  deriving DecidableEq, Repr

def Status.text : Status → String
  | .ok => "ok"
  | .missing => "missing"

structure Snapshot where
  path : Path
  status : Status
  version : Option Version
  deriving DecidableEq, Repr

namespace Snapshot

def missing (path : Path) : Snapshot := ⟨path, .missing, none⟩

def present (path : Path) (v : Version) : Snapshot := ⟨path, .ok, some v⟩

/-- there is a version exactly if the status is `ok` -/
def WellFormed (s : Snapshot) : Prop := s.version.isSome ↔ s.status = .ok

/-- the same snapshot of the same path, however the path is written -/
def same (a b : Snapshot) : Bool := a.path.same b.path && a.status == b.status && a.version == b.version

def contents? (s : Snapshot) : Option String := s.version.map (·.contents)

/-- the summary of a present version: length in bytes, digest and the two dates -/
def versionFields (v : Version) : String :=
  s!"ok len={v.contents.utf8ByteSize} blake3={Digest.Blake3.hexDigest v.contents.toUTF8} " ++
    s!"mtime={v.modified.epochMillis} external={v.external.epochMillis}"

/-- One line for a snapshot: the path as it was written, then its summary. -/
def line (s : Snapshot) : String :=
  match s.status, s.version with
  | .ok, some v => s.path.text ++ " " ++ versionFields v
  | _, _ => s.path.text ++ " missing"

end Snapshot

/-- identity of a subscriber -/
structure SubscriberId where
  number : Nat
  deriving DecidableEq, Repr, Inhabited

def SubscriberId.text (id : SubscriberId) : String := s!"sub#{id.number}"

end LiveFiles
