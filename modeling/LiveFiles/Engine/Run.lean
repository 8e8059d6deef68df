/-
Runs of the engine. A run starts with an engine that nobody has used; in each move either a task that can go on carries
out one section, in whatever order, or something happens from outside: a call is made or cancelled, somebody changes the
files, a subscriber comes, reads or leaves, an event is sent. `World.settle` carries out sections in the order of the
queue, which is one way for a run to go (`World.tick_eq_move`).

It is assumed that the tasks share one thread and are not interrupted: nothing happens between two points at which a task
may wait, neither a section of another task nor anything from outside. The clock and the counters from which numbers are
given (of tasks, turns, requests, completions, subscribers, gates and streams) are taken without bound.
-/
import LiveFiles.Engine.Step
import LiveFiles.Schedule

namespace LiveFiles.Engine

export Machine (canGo floorTo serve)

/-- what can happen next -/
inductive Move where
  /-- a task carries out one section -/
  | turn (id : TaskId)
  | call (r : Request)
  | cancel (id : TaskId)
  | putFile (path : Path) (bytes : ByteArray)
  | removeFile (path : Path)
  | touch (path : Path)
  | orderFailure (op : DiskOp) (path : Path) (message : String)
  | clearFailure (op : DiskOp) (path : Path)
  | hold (op : DiskOp) (path : Path)
  | openGate (gate : GateId)
  | refuseArming (path : Path)
  | permitArming (path : Path)
  /-- the order in which the entries are gone through becomes another one, which it may at any time -/
  | rearrange (rank : Path.Key → Nat)
  | newSubscriber
  | drain (subscriber : SubscriberId)
  | tryRead (subscriber : SubscriberId)
  | closeSubscriber (subscriber : SubscriberId)
  | dropSubscriber (subscriber : SubscriberId)
  | notifyChange (path : Path)
  | attachStream
  | sendEvent (stream : StreamId) (event : Event)
  | closeStream (stream : StreamId)

/-- there is no task with the number 0 -/
instance : Inhabited Move := ⟨.turn 0⟩

@[simp] theorem default_move : (default : Move) = .turn 0 := rfl

/-- a request that users of the engine can make -/
def Request.isPublic : Request → Bool
  | .release _ => false
  | .watch .. | .unwatch .. | .write .. | .reconcile _ | .waitIdle | .shutDown | .diskStat _ | .diskRead _
  | .diskWrite .. => true

namespace World

def onDisk (w : World) (f : Disk → Disk) : World := { w with disk := f w.disk }

def move (w : World) : Move → World
  | .turn id => serve w id
  | .call r => if r.isPublic then (w.call r).2 else w
  | .cancel id => w.cancel id
  | .putFile p bytes => w.onDisk (·.putFile p bytes)
  | .removeFile p => w.onDisk (·.removeFile p)
  | .touch p => w.onDisk (·.touch p)
  | .orderFailure op p message => w.onDisk (·.orderFailure op p message)
  | .clearFailure op p => w.onDisk (·.clearFailure op p)
  | .hold op p => w.onDisk fun d => (d.hold op p).2
  | .openGate g => w.openGate g
  | .refuseArming p => { w with watcher := w.watcher.refuse p }
  | .permitArming p => { w with watcher := w.watcher.permit p }
  | .rearrange rank => { w with rank }
  | .newSubscriber => w.newSubscriber.2
  | .drain id => (w.drain id).2
  | .tryRead id => (w.tryRead id).2
  | .closeSubscriber id => w.closeSubscriber id
  | .dropSubscriber id => w.dropSubscriber id
  | .notifyChange p => w.notifyChange p
  | .attachStream => w.attachStream.2
  | .sendEvent s ev => (w.sendEvent s ev).2
  | .closeStream s => w.closeStream s

/-- an engine that nobody has used -/
def start (policy : WritePolicy) : World := { policy }

/-- the engine after `n` of the moves -/
def trace (w : World) (moves : Nat → Move) : Nat → World
  | 0 => w
  | n + 1 => (w.trace moves n).move (moves n)

/-- one section in the order of the queue is a move -/
theorem tick_eq_move (w : World) : ∃ m, Machine.tick w = w.move m := by
  obtain ⟨id, h⟩ := Machine.tick_eq_serve w
  exact ⟨.turn id, h⟩

end World

end LiveFiles.Engine
