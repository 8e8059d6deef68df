/-
Cache entries. An entry holds what is known of a watched path: contents and dates, who is registered or about to be,
and which reconciliation may change it. Three places hold signals that newcomers wait for: of the reconciliation that
is pending, of the one that is running, and of those that a write has revoked and not replaced yet.
-/
import LiveFiles.Config.Policy
import LiveFiles.Problem
import LiveFiles.Signals
import LiveFiles.Snapshot
import LiveFiles.Tasks
import LiveFiles.Turns

namespace LiveFiles.Engine

abbrev QueryId := Nat

/-- a registered subscriber, with the task that listens for its leaving -/
structure Registration where
  listener : Option TaskId
  deriving DecidableEq, Repr

structure Entry where
  /-- the path as it was written when the entry was made -/
  spelling : Path
  /-- nothing while the file is believed absent, or has not been looked at -/
  contents : Option String := none
  modified : Instant := .epoch
  external : Instant := .epoch
  /-- the reconciliation that alone may change the entry -/
  pendingQuery : Option QueryId := none
  pendingSignal : Option SignalId := none
  /-- signal of the reconciliation that has the lock -/
  runningSignal : Option SignalId := none
  /-- signals of reconciliations revoked by writes that have not ended -/
  revokedSignals : List SignalId := []
  /-- subscribers registered, and those still waiting for their first snapshot -/
  count : Nat := 0
  registered : Table SubscriberId Registration := .empty
  /-- subscribers whose call to watch is still running, with the signal given when it ends -/
  joining : Table SubscriberId SignalId := .empty
  /-- the watcher is armed for the path -/
  armed : Bool := false

namespace Entry

/-- what subscribers are shown, under the spelling that is asked for -/
def snapshot (e : Entry) (p : Path) : Snapshot :=
  match e.contents with
  | some contents => .present p ⟨contents, e.modified, e.external⟩
  | none => .missing p

/-- the file is gone -/
def markMissing (e : Entry) : Entry := { e with contents := none, modified := .epoch, external := .epoch }

/-- the first signal, not given yet, that a newcomer has to wait for -/
def unsettled (e : Entry) (signals : Signals) : Option SignalId :=
  (e.pendingSignal.toList ++ e.runningSignal.toList ++ e.revokedSignals).find? fun s => !signals.isGiven s

end Entry

/-! ### What a look at the disk shows -/

/-- the disk compared to the cache -/
inductive Observation where
  | unchanged
  | missing
  | changed (contents : String) (modified : Instant)
  deriving DecidableEq, Repr

/-- the file does not exist: news only if there were contents -/
def Observation.absent (had : Bool) : Observation := if had then .missing else .unchanged

/-- The entry after an observation, and whether that is news. -/
def Entry.commit (e : Entry) : Observation → Entry × Bool
  | .unchanged => (e, false)
  | .missing => (e.markMissing, true)
  | .changed contents modified => ({ e with contents := some contents, modified, external := modified }, true)

end LiveFiles.Engine
