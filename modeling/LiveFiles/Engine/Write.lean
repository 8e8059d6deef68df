/-
Writes made through the engine. A write is the new truth: the file is written and its date looked up, and the bytes
written become the cached contents without being read back. The date of the last change from outside stays as it is. A
reconciliation that was pending is revoked, since whatever it would find is older than the write; those who wait for
it are released when the write ends, and if the write fails, a new reconciliation takes the place of the revoked one.
-/
import LiveFiles.Engine.World

namespace LiveFiles.Engine

abbrev Saved := Except Problem Unit

namespace World

/-- Revoke the reconciliation that is pending for an entry: whether there was one, and its signal. -/
def revoke (e : Entry) : Bool × Option SignalId × Entry :=
  match e.pendingQuery with
  | none => (false, none, e)
  | some _ =>
    (true, e.pendingSignal,
      { e with pendingQuery := none, pendingSignal := none, revokedSignals := e.revokedSignals ++ e.pendingSignal.toList })

/-- reserve a turn for a write and queue up -/
def queueSave (w : World) (p : Path) (bytes : ByteArray) (revoked : Bool) (waiters : Option SignalId) :
    World × Section Save Saved :=
  let (turn, w) := w.reserve p
  (w.queueUp turn, .go (.queued ⟨p, bytes, turn, revoked, waiters⟩))

def requestSave (w : World) (p : Path) (bytes : ByteArray) : World × Section Save Saved :=
  if w.isShutDown then (w, .ended (.error .shutDown))
  else match w.entry? p with
    | none =>
      if w.policy = .reject then (w, .ended (.error (.unwatchedWrite p))) else w.queueSave p bytes false none
    | some e =>
      let (revoked, waiters, e) := revoke e
      (w.setEntry p e).queueSave p bytes revoked waiters

/-- A write has failed: the lock is free again, waiters are released, and a revoked reconciliation is made up for. -/
def failSave (w : World) (job : SaveJob) (e : Problem) : World × Section Save Saved :=
  let w := (w.giveBack job.turn).giveIf job.waiters
  let w := if job.revoked then (w.forgetRevoked job.path).inBackground (.reconcile job.path) else w
  (w, .ended (.error e))

/-- Put what was written into the entry, if there is one by now, and show it. -/
def commitSave (w : World) (job : SaveJob) (modified : Instant) : World × Section Save Saved :=
  let e? := (w.entry? job.path).map fun e =>
    { e with contents := some (Text.Utf8.decodeLossy job.bytes), modified }
  let w := match e? with
    | some e => w.setEntry job.path e
    | none => w
  let w := w.giveIf job.waiters
  let w := if job.revoked then w.forgetRevoked job.path else w
  let w := match e? with
    | some e => w.broadcast (e.snapshot job.path)
    | none => w
  (w.giveBack job.turn, .ended (.ok ()))

def haveWritten (w : World) (job : SaveJob) : Except Failure Unit → World × Section Save Saved
  | .error f => w.failSave job (.other f)
  | .ok () => w.beginCall .stat job.path (.looking job)

def haveLookedUp (w : World) (job : SaveJob) : Except Failure (Option FileStat) → World × Section Save Saved
  | .error f => w.failSave job (.other f)
  | .ok none => w.failSave job (.vanished job.path)
  | .ok (some st) => w.commitSave job st.modified

/-- one section of a write -/
def stepSave (w : World) : Save → World × Section Save Saved
  | .queued job =>
    if w.turns.holds job.turn then w.beginCall .write job.path (.writing job) else (w, .wait (.queued job))
  | .writing job (.held g) => w.atGate g (.writing job)
  | .writing job .due =>
    let (disk, r) := w.disk.write job.path job.bytes
    ({ w with disk }.leaveDisk job.path).haveWritten job r
  | .looking job (.held g) => w.atGate g (.looking job)
  | .looking job .due => (w.leaveDisk job.path).haveLookedUp job (w.disk.stat job.path)

/-- Abandon a write: the call to the disk, then the turn, then those who wait. -/
def dropSave (w : World) : Save → World
  | .queued job => (w.giveBack job.turn).giveIf job.waiters
  | .writing job _ => ((w.leaveDisk job.path).giveBack job.turn).giveIf job.waiters
  | .looking job _ => ((w.leaveDisk job.path).giveBack job.turn).giveIf job.waiters

end World

end LiveFiles.Engine
