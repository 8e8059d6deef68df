/-
What the tasks of the engine are doing. A call to the engine, a piece of background work and a service (the listener
for a subscriber's leaving, the pump of an event stream) are tasks alike; between two sections each is in one of these
phases, which say all that it remembers and, by `awaits`, the event that lets it go on.
-/
import LiveFiles.Disk
import LiveFiles.Engine.Entry

namespace LiveFiles.Engine

abbrev StreamId := Nat

/-- a call to the engine, to its disk, or a piece of background work -/
inductive Request where
  | watch (path : Path) (subscriber : SubscriberId)
  | unwatch (path : Path) (subscriber : SubscriberId)
  | write (path : Path) (bytes : ByteArray)
  | reconcile (path : Path)
  /-- give back the place of a call to watch that was cancelled -/
  | release (path : Path)
  | waitIdle
  | shutDown
  | diskStat (path : Path)
  | diskRead (path : Path)
  | diskWrite (path : Path) (bytes : ByteArray)

inductive Answer where
  | nothing
  | flag (b : Bool)
  | snapshot (s : Snapshot)
  | stat (s : Option FileStat)
  | text (s : String)
  deriving DecidableEq, Repr

abbrev Outcome := Except Problem Answer

/-- how a call ended -/
inductive Ending where
  | returned (o : Outcome)
  | cancelled

/-- a reconciliation that holds the lock: what it found in the entry when it began -/
structure Look where
  path : Path
  turn : Turn
  /-- given when the reconciliation ends -/
  signal : Option SignalId
  had : Bool
  last : Instant
  deriving DecidableEq

inductive Refresh where
  | queued (path : Path) (query : QueryId) (turn : Turn)
  | looking (look : Look) (call : Call)
  | reading (look : Look) (modified : Instant) (call : Call)
  /-- reading failed: is the file still there? -/
  | lookingAgain (look : Look) (failure : Failure) (call : Call)

structure SaveJob where
  path : Path
  bytes : ByteArray
  turn : Turn
  /-- a pending reconciliation was revoked -/
  revoked : Bool
  /-- the signal of the revoked reconciliation, given when the write ends -/
  waiters : Option SignalId

inductive Save where
  | queued (job : SaveJob)
  | writing (job : SaveJob) (call : Call)
  | looking (job : SaveJob) (call : Call)

/-- the place that an unfinished call to watch has taken -/
structure Seat where
  path : Path
  subscriber : SubscriberId
  /-- given when the call ends -/
  joined : SignalId
  deriving DecidableEq, Repr

/-- what is left to do after a place has been given back -/
inductive Leaving where
  | unwatched
  /-- the first synchronization of a path failed -/
  | failed (seat : Seat) (problem : Problem)
  | abandoned

inductive Activity where
  | starting (request : Request)
  | refreshing (r : Refresh)
  | saving (s : Save)
  /-- looking for a place, after another call for the same subscriber has ended -/
  | joining (path : Path) (subscriber : SubscriberId) (joined : SignalId) (other : Option SignalId)
  /-- first subscriber of a path -/
  | synchronizing (seat : Seat) (r : Refresh)
  /-- waiting until no reconciliation is pending -/
  | settling (seat : Seat) (signal : Option SignalId)
  /-- last subscriber gone: waiting until nobody has a turn at the path -/
  | tearingDown (path : Path) (turn : Option Turn) (leaving : Leaving)
  | awaitingQuiet
  /-- shutting down: waiting for background work -/
  | closing (paths : List Path)
  /-- shutting down: waiting until nobody has a turn at a path, then at the rest of the paths -/
  | draining (path : Path) (turn : Option Turn) (rest : List Path)
  | diskStat (path : Path) (call : Call)
  | diskRead (path : Path) (call : Call)
  | diskWrite (path : Path) (bytes : ByteArray) (call : Call)
  /-- waiting for a subscriber to leave -/
  | listening (path : Path) (subscriber : SubscriberId)
  /-- turning the events of a stream into reconciliations -/
  | pumping (stream : StreamId)

/-- for whom a task works -/
inductive Role where
  | caller
  /-- counted by the pool -/
  | background
  | service
  deriving DecidableEq, Repr

structure Phase where
  role : Role
  activity : Activity

/-- the event that lets a task go on -/
inductive Await where
  | nothing
  | turn (id : TurnId)
  | gate (id : GateId)
  | signal (id : SignalId)
  | quiet
  | message (stream : StreamId)
  | farewell (subscriber : SubscriberId)
  deriving DecidableEq, Repr

def Call.awaits : Call → Await
  | .held g => .gate g
  | .due => .nothing

def Refresh.awaits : Refresh → Await
  | .queued _ _ turn => .turn turn.id
  | .looking _ c => Call.awaits c
  | .reading _ _ c => Call.awaits c
  | .lookingAgain _ _ c => Call.awaits c

def Save.awaits : Save → Await
  | .queued job => .turn job.turn.id
  | .writing _ c => Call.awaits c
  | .looking _ c => Call.awaits c

/-- the signal, if there is one to wait for -/
def awaitSignal : Option SignalId → Await
  | some s => .signal s
  | none => .nothing

def awaitTurn : Option Turn → Await
  | some t => .turn t.id
  | none => .nothing

def Activity.awaits : Activity → Await
  | .starting _ => .nothing
  | .refreshing r => r.awaits
  | .saving s => s.awaits
  | .joining _ _ _ other => awaitSignal other
  | .synchronizing _ r => r.awaits
  | .settling _ signal => awaitSignal signal
  | .tearingDown _ turn _ => awaitTurn turn
  | .awaitingQuiet => .quiet
  | .closing _ => .quiet
  | .draining _ turn _ => awaitTurn turn
  | .diskStat _ c => Call.awaits c
  | .diskRead _ c => Call.awaits c
  | .diskWrite _ _ c => Call.awaits c
  | .listening _ subscriber => .farewell subscriber
  | .pumping stream => .message stream

end LiveFiles.Engine
