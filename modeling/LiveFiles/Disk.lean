/-
A disk under observation. It holds files with modification dates from a clock of its own, and its operations take
time: a call is begun, may be held at a gate until the gate is opened, lets others go first, and only then is carried
out, or fails if failures of its kind have been ordered. The disk counts calls, and how many of them are under way at
a path.
-/
import LiveFiles.Instant
import LiveFiles.Problem
import LiveFiles.Table
import LiveFiles.Text.Utf8

namespace LiveFiles

/-- the operations of a disk -/
inductive DiskOp where
  | stat
  | read
  | write
  deriving DecidableEq, Repr

@[ext]
structure StoredFile where
  bytes : ByteArray
  modified : Instant

instance : DecidableEq StoredFile := fun f g =>
  decidable_of_iff (f.bytes.data = g.bytes.data ∧ f.modified = g.modified)
    ⟨fun h => StoredFile.ext (ByteArray.ext h.1) h.2, fun h => h ▸ ⟨rfl, rfl⟩⟩

/-- what is known of a file without reading it -/
structure FileStat where
  modified : Instant
  length : Nat
  deriving DecidableEq, Repr

abbrev GateId := Nat

structure Gate where
  isOpen : Bool := false
  /-- calls that have come to the gate so far -/
  arrivals : Nat := 0
  deriving DecidableEq, Repr

structure Disk where
  /-- milliseconds; moves on before each use -/
  clock : Nat := 1000
  files : Table Path.Key StoredFile := .empty
  calls : Table (DiskOp × Path.Key) Nat := .empty
  failures : Table (DiskOp × Path.Key) String := .empty
  /-- the gate at which new calls are held -/
  gateFor : Table (DiskOp × Path.Key) GateId := .empty
  gates : Table GateId Gate := .empty
  nextGate : GateId := 1
  underWay : Table Path.Key Nat := .empty
  mostUnderWay : Table Path.Key Nat := .empty

namespace Disk

/-! ### What others do to the files -/

/-- put a file in place, with a new date -/
def putFile (d : Disk) (p : Path) (bytes : ByteArray) : Disk :=
  let clock := d.clock + 1
  { d with clock, files := d.files.insert p.key ⟨bytes, Instant.ofMillis clock⟩ }

def removeFile (d : Disk) (p : Path) : Disk := { d with files := d.files.erase p.key }

/-- give a file a new date; the clock moves on even if there is no such file -/
def touch (d : Disk) (p : Path) : Disk :=
  let clock := d.clock + 1
  { d with clock, files := d.files.modify p.key fun f => { f with modified := Instant.ofMillis clock } }

def file? (d : Disk) (p : Path) : Option StoredFile := d.files.get? p.key

/-! ### Gates and failures -/

/-- Hold new calls of a kind at a new gate. Calls held at an earlier gate stay there. -/
def hold (d : Disk) (op : DiskOp) (p : Path) : GateId × Disk :=
  (d.nextGate,
    { d with nextGate := d.nextGate + 1, gates := d.gates.insert d.nextGate {},
             gateFor := d.gateFor.insert (op, p.key) d.nextGate })

/-- let all calls held at a gate, and all that come to it later, go on -/
def openGate (d : Disk) (g : GateId) : Disk := { d with gates := d.gates.modify g fun x => { x with isOpen := true } }

def isOpen (d : Disk) (g : GateId) : Bool := (d.gates.getD g {}).isOpen

def arrivals (d : Disk) (g : GateId) : Nat := (d.gates.getD g {}).arrivals

def orderFailure (d : Disk) (op : DiskOp) (p : Path) (message : String) : Disk :=
  { d with failures := d.failures.insert (op, p.key) message }

def clearFailure (d : Disk) (op : DiskOp) (p : Path) : Disk := { d with failures := d.failures.erase (op, p.key) }

/-! ### Calls -/

def callCount (d : Disk) (op : DiskOp) (p : Path) : Nat := d.calls.getD (op, p.key) 0

def underWayAt (d : Disk) (p : Path) : Nat := d.underWay.getD p.key 0

def mostUnderWayAt (d : Disk) (p : Path) : Nat := d.mostUnderWay.getD p.key 0

/-- begin a call: count it, and tell at which gate it is held, if at any -/
def enter (d : Disk) (op : DiskOp) (p : Path) : Disk × Option GateId :=
  let now := d.underWayAt p + 1
  let gate := d.gateFor.get? (op, p.key)
  ({ d with
      calls := d.calls.insert (op, p.key) (d.callCount op p + 1)
      underWay := d.underWay.insert p.key now
      mostUnderWay := d.mostUnderWay.insert p.key (max (d.mostUnderWayAt p) now)
      gates := match gate with
        | some g => d.gates.modify g fun x => { x with arrivals := x.arrivals + 1 }
        | none => d.gates },
    gate)

/-- a call is over, or has been abandoned -/
def leave (d : Disk) (p : Path) : Disk := { d with underWay := d.underWay.modify p.key (· - 1) }

/-- the failure that has been ordered for calls of a kind -/
def failure? (d : Disk) (op : DiskOp) (p : Path) : Option Failure :=
  (d.failures.get? (op, p.key)).map fun message => ⟨s!"{message}: {p.quoted}", []⟩

/-- carry out a look at a file's date -/
def stat (d : Disk) (p : Path) : Except Failure (Option FileStat) :=
  match d.failure? .stat p with
  | some f => .error f
  | none => .ok ((d.file? p).map fun f => ⟨f.modified, f.bytes.size⟩)

/-- carry out the reading of a file -/
def read (d : Disk) (p : Path) : Except Failure String :=
  match d.failure? .read p with
  | some f => .error f
  | none =>
    match d.file? p with
    | none => .error ⟨s!"File not found: {p.quoted}", []⟩
    | some f =>
      match Text.Utf8.decode f.bytes with
      | .ok s => .ok s
      | .error e => .error ⟨s!"Invalid UTF-8: {e.message}", []⟩

/-- carry out the writing of a file -/
def write (d : Disk) (p : Path) (bytes : ByteArray) : Disk × Except Failure Unit :=
  match d.failure? .write p with
  | some f => (d, .error f)
  | none => (d.putFile p bytes, .ok ())

end Disk

/-! ### A call between its beginning and its end -/

/-- where a call stands: held at a gate, or about to be carried out -/
inductive Call where
  | held (gate : GateId)
  | due
  deriving DecidableEq, Repr

end LiveFiles
