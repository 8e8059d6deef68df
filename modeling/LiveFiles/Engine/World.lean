/-
The state that the engine's tasks share, and the small operations on it from which their sections are made. Whatever
lets somebody go on wakes the tasks that wait for it, in the same operation.
-/
import LiveFiles.Channel
import LiveFiles.Engine.Phase
import LiveFiles.Pool

namespace LiveFiles.Engine

inductive WatcherCall where
  | arm (path : Path)
  | disarm (path : Path)
  deriving DecidableEq, Repr

/-- a watcher that keeps a record of what it is told, and refuses to be armed for some paths -/
structure Watcher where
  calls : List WatcherCall := []
  /-- the paths for which it has been asked to be armed, whether it refused or not -/
  attempts : List Path := []
  refused : List Path.Key := []
  deriving Repr

namespace Watcher

def refuses (x : Watcher) (p : Path) : Bool := x.refused.contains p.key

/-- from now on refuse to be armed for a path -/
def refuse (x : Watcher) (p : Path) : Watcher := { x with refused := p.key :: x.refused }

/-- refuse a path no longer -/
def permit (x : Watcher) (p : Path) : Watcher := { x with refused := x.refused.filter (· ≠ p.key) }

def arm (x : Watcher) (p : Path) : Watcher := { x with calls := x.calls ++ [.arm p] }

def disarm (x : Watcher) (p : Path) : Watcher := { x with calls := x.calls ++ [.disarm p] }

/-- ask for a path to be armed, which is put down also if it is refused -/
def tryToArm (x : Watcher) (p : Path) : Watcher :=
  { if x.refuses p then x else x.arm p with attempts := x.attempts ++ [p] }

/-- one more call: an armed path stays under the spelling that it was armed with -/
def armedAfter (armed : List Path) : WatcherCall → List Path
  | .arm p => if armed.any (·.same p) then armed else armed ++ [p]
  | .disarm p => armed.filter fun q => !q.same p

/-- the paths for which the watcher is armed, by its record -/
def armed (x : Watcher) : List Path := x.calls.foldl armedAfter []

end Watcher

inductive EventKind where
  | created
  | modified
  | deleted
  deriving DecidableEq, Repr

/-- a change reported from outside -/
structure Event where
  path : Path
  kind : EventKind
  deriving DecidableEq, Repr

structure World where
  disk : Disk := {}
  watcher : Watcher := {}
  policy : WritePolicy := .allow
  entries : Table Path.Key Entry := .empty
  /-- in whose order the entries are gone through; those of equal rank in the order in which they were made -/
  rank : Path.Key → Nat := fun _ => 0
  turns : Turns := {}
  signals : Signals := {}
  pool : Pool := {}
  nextQuery : QueryId := 1
  isShutDown : Bool := false
  channels : Table SubscriberId (Channel Snapshot) := .empty
  nextSubscriber : Nat := 1
  streams : Table StreamId (Channel Event) := .empty
  nextStream : StreamId := 1
  /-- the task that turns events into reconciliations -/
  pump : Option TaskId := none
  tasks : Tasks Phase := {}
  /-- how calls have ended, in order -/
  endings : List (TaskId × Ending) := []

namespace World

/-- let the tasks go on that wait for an event -/
def wake (w : World) (a : Await) : World := { w with tasks := w.tasks.wake fun p => p.activity.awaits = a }

def cancel (w : World) (id : TaskId) : World := { w with tasks := w.tasks.cancel id }

def cancelIf (w : World) : Option TaskId → World
  | some id => w.cancel id
  | none => w

def spawn (w : World) (role : Role) (a : Activity) : TaskId × World :=
  let (id, tasks) := w.tasks.spawn ⟨role, a⟩
  (id, { w with tasks })

/-! ### Signals and turns -/

def freshSignal (w : World) : SignalId × World :=
  let (id, signals) := w.signals.fresh
  (id, { w with signals })

def give (w : World) (s : SignalId) : World := { w with signals := w.signals.give s }.wake (.signal s)

def giveIf (w : World) : Option SignalId → World
  | some s => w.give s
  | none => w

def reserve (w : World) (p : Path) : Turn × World :=
  let (turn, turns) := w.turns.reserve p.key
  (turn, { w with turns })

def queueUp (w : World) (turn : Turn) : World := { w with turns := w.turns.queueUp turn }

def giveBack (w : World) (turn : Turn) : World :=
  let (turns, next) := w.turns.giveBack turn
  let w := { w with turns }
  match next with
  | some id => w.wake (.turn id)
  | none => w

def giveBackIf (w : World) : Option Turn → World
  | some turn => w.giveBack turn
  | none => w

/-- Wait until nobody has a turn at a path. Waiting is done by taking turns there oneself: a section finds the path idle,
or takes a turn and queues up, or gives back a turn that has come and looks again. -/
def awaitIdle (w : World) (p : Path) : Option Turn → World × Section (Option Turn) Unit
  | some turn => if w.turns.holds turn then (w.giveBack turn, .go none) else (w, .wait (some turn))
  | none =>
    if w.turns.isIdle p.key then (w, .ended ())
    else
      let (turn, w) := w.reserve p
      (w.queueUp turn, .go (some turn))

/-! ### Background work -/

/-- start a piece of background work, unless the pool is closed -/
def inBackground (w : World) (r : Request) : World :=
  match w.pool.accept with
  | none => w
  | some (_, pool) => (({ w with pool }.wake .quiet).spawn .background (.starting r)).2

/-- a task is over; of the ways in which tasks end, only the calls' are kept -/
def finish (w : World) (id : TaskId) (role : Role) (e : Ending) : World :=
  match role with
  | .caller => { w with endings := w.endings ++ [(id, e)] }
  | .background => { w with pool := w.pool.finish }.wake .quiet
  | .service => w

/-! ### Entries -/

def entry? (w : World) (p : Path) : Option Entry := w.entries.get? p.key

def setEntry (w : World) (p : Path) (e : Entry) : World := { w with entries := w.entries.insert p.key e }

def modifyEntry (w : World) (p : Path) (f : Entry → Entry) : World := { w with entries := w.entries.modify p.key f }

def dropEntry (w : World) (p : Path) : World := { w with entries := w.entries.erase p.key }

def snapshot? (w : World) (p : Path) : Option Snapshot := (w.entry? p).map (·.snapshot p)

def isTracked (w : World) (p : Path) : Bool := w.entries.contains p.key

def subscriberCount (w : World) (p : Path) : Nat := ((w.entry? p).map (·.count)).getD 0

/-- Make a new reconciliation the one that may change the entry. Whoever waits for the one before goes on waiting. -/
def beginQuery (w : World) (e : Entry) : QueryId × Entry × World :=
  let query := w.nextQuery
  let w := { w with nextQuery := query + 1 }
  if e.pendingQuery.isNone || e.pendingSignal.isNone then
    let (signal, w) := w.freshSignal
    (query, { e with pendingQuery := some query, pendingSignal := some signal }, w)
  else (query, { e with pendingQuery := some query }, w)

/-- forget revoked signals that have been given -/
def forgetRevoked (w : World) (p : Path) : World :=
  w.modifyEntry p fun e => { e with revokedSignals := e.revokedSignals.filter fun s => !w.signals.isGiven s }

def deliver (channels : Table SubscriberId (Channel Snapshot)) (s : Snapshot) (id : SubscriberId) :
    Table SubscriberId (Channel Snapshot) := channels.modify id fun c => c.send s

/-- show a snapshot to all who are registered for its path -/
def broadcast (w : World) (s : Snapshot) : World :=
  match w.entry? s.path with
  | none => w
  | some e => { w with channels := e.registered.keys.foldl (fun cs id => deliver cs s id) w.channels }

/-! ### Calls to the disk -/

/-- Begin a call; `k` is the phase that waits for it. -/
def beginCall {σ α : Type} (w : World) (op : DiskOp) (p : Path) (k : Call → σ) : World × Section σ α :=
  let (disk, gate) := w.disk.enter op p
  let w := { w with disk }
  match gate with
  | some g => if disk.isOpen g then (w, .pause (k .due)) else (w, .wait (k (.held g)))
  | none => (w, .pause (k .due))

/-- a call held at a gate: it stays there, or lets others go first and is due then -/
def atGate {σ α : Type} (w : World) (g : GateId) (k : Call → σ) : World × Section σ α :=
  if w.disk.isOpen g then (w, .pause (k .due)) else (w, .wait (k (.held g)))

def leaveDisk (w : World) (p : Path) : World := { w with disk := w.disk.leave p }

end World

end LiveFiles.Engine
