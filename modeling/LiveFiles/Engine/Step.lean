/-
The engine as a machine of tasks: one section of any task, and what a cancelled task lets go of. The calls of the
engine's users are at the end; each starts a task or has its effect at once.
-/
import LiveFiles.Engine.ShutDown
import LiveFiles.Engine.Watch
import LiveFiles.Engine.Write

namespace LiveFiles.Engine

/-- a part of a task whose end is an answer -/
def ofPart {σ α : Type} (phase : σ → Activity) (answer : α → Answer) :
    World × Section σ (Except Problem α) → World × Section Activity Outcome
  | (w, .go s) => (w, .go (phase s))
  | (w, .wait s) => (w, .wait (phase s))
  | (w, .pause s) => (w, .pause (phase s))
  | (w, .ended r) => (w, .ended (r.map answer))

/-- a call to the disk has come to its end -/
def answered {α : Type} (w : World) (answer : α → Answer) (r : Except Failure α) : World × Section Activity Outcome :=
  (w, .ended ((r.map answer).mapError Problem.other))

namespace World

/-- the first section of a request -/
def begin (w : World) : Request → World × Section Activity Outcome
  | .watch p id => w.requestWatch p id
  | .unwatch p id => w.unwatch p id
  | .write p bytes => ofPart .saving (fun _ => .nothing) (w.requestSave p bytes)
  | .reconcile p => ofPart .refreshing .flag (w.requestRefresh p)
  | .release p => w.releasePlace p .abandoned
  | .waitIdle => (w, .go .awaitingQuiet)
  | .shutDown => w.requestShutDown
  | .diskStat p => w.beginCall .stat p (.diskStat p)
  | .diskRead p => w.beginCall .read p (.diskRead p)
  | .diskWrite p bytes => w.beginCall .write p (.diskWrite p bytes)

/-- one section of a task -/
def step (w : World) : Activity → World × Section Activity Outcome
  | .starting r => w.begin r
  | .refreshing r => ofPart .refreshing .flag (w.stepRefresh r)
  | .saving s => ofPart .saving (fun _ => .nothing) (w.stepSave s)
  | .joining p id joined other => w.stepJoining p id joined other
  | .synchronizing s r => w.stepSynchronizing s r
  | .settling s signal => w.stepSettling s signal
  | .tearingDown p turn l => w.stepTearingDown p turn l
  | .awaitingQuiet => w.stepAwaitingQuiet
  | .closing paths => w.stepClosing paths
  | .draining p turn rest => w.stepDraining p turn rest
  | .diskStat p (.held g) => w.atGate g (.diskStat p)
  | .diskStat p .due => answered (w.leaveDisk p) .stat (w.disk.stat p)
  | .diskRead p (.held g) => w.atGate g (.diskRead p)
  | .diskRead p .due => answered (w.leaveDisk p) .text (w.disk.read p)
  | .diskWrite p bytes (.held g) => w.atGate g (.diskWrite p bytes)
  | .diskWrite p bytes .due =>
    let (disk, r) := w.disk.write p bytes
    answered ({ w with disk }.leaveDisk p) (fun _ => .nothing) r
  | .listening p id => w.stepListening p id
  | .pumping s => w.stepPumping s

/-- what a cancelled task lets go of -/
def abandon (w : World) : Activity → World
  | .refreshing r => w.dropRefresh r
  | .saving s => w.dropSave s
  | .synchronizing s r => (w.dropRefresh r).abandonSeat s
  | .settling s _ => w.abandonSeat s
  | .tearingDown _ turn (.failed seat _) => (w.giveBackIf turn).endSeat seat
  | .tearingDown _ turn _ => w.giveBackIf turn
  | .draining _ turn _ => w.giveBackIf turn
  | .diskStat p _ => w.leaveDisk p
  | .diskRead p _ => w.leaveDisk p
  | .diskWrite p _ _ => w.leaveDisk p
  | .pumping s => w.closeReceiver s
  | .starting _ | .joining .. | .awaitingQuiet | .closing _ | .listening .. => w

/-- one section of a task, with what its end means for the world -/
def advance (w : World) (id : TaskId) (p : Phase) : World × Section Phase Unit :=
  match w.step p.activity with
  | (w, .go a) => (w, .go ⟨p.role, a⟩)
  | (w, .wait a) => (w, .wait ⟨p.role, a⟩)
  | (w, .pause a) => (w, .pause ⟨p.role, a⟩)
  | (w, .ended o) => (w.finish id p.role (.returned o), .ended ())

end World

instance : Machine World Phase where
  tasks w := w.tasks
  setTasks w tasks := { w with tasks }
  advance := World.advance
  drop w id p := (w.abandon p.activity).finish id p.role .cancelled

namespace World

/-- let everything run until nobody can go on -/
def settle (w : World) : World := Machine.settle w

/-! ### Calls from outside -/

/-- a call that takes its time: it becomes a task -/
def call (w : World) (r : Request) : TaskId × World := w.spawn .caller (.starting r)

/-- reconcile a path in the background -/
def notifyChange (w : World) (p : Path) : World := w.inBackground (.reconcile p)

/-- whatever the event says has happened, the disk is asked -/
def handleEvent (w : World) (ev : Event) : World := w.notifyChange ev.path

def newSubscriber (w : World) : SubscriberId × World :=
  let id : SubscriberId := ⟨w.nextSubscriber⟩
  (id, { w with channels := w.channels.insert id {}, nextSubscriber := w.nextSubscriber + 1 })

/-- the messages delivered to a subscriber and not read yet -/
def drain (w : World) (id : SubscriberId) : List Snapshot × World :=
  match w.channels.get? id with
  | none => ([], w)
  | some c =>
    let (ms, c) := c.drain
    (ms, { w with channels := w.channels.insert id c })

/-- one message delivered to a subscriber -/
def tryRead (w : World) (id : SubscriberId) : Option Snapshot × World :=
  match w.channels.get? id with
  | none => (none, w)
  | some c =>
    match c.read with
    | (.message s, c) => (some s, { w with channels := w.channels.insert id c })
    | _ => (none, w)

/-- a subscriber leaves, but may read what it has got -/
def closeSubscriber (w : World) (id : SubscriberId) : World :=
  { w with channels := w.channels.modify id fun c => c.close }.wake (.farewell id)

/-- a subscriber leaves -/
def dropSubscriber (w : World) (id : SubscriberId) : World :=
  { w with channels := w.channels.modify id fun c => c.dropReceiver }.wake (.farewell id)

/-- Make a stream of events and let it, and no other, drive the engine. -/
def attachStream (w : World) : StreamId × World :=
  let s := w.nextStream
  let w := { w with streams := w.streams.insert s {}, nextStream := s + 1 }
  let previous := w.pump
  let (pump, w) := w.spawn .service (.pumping s)
  (s, { w with pump := some pump }.cancelIf previous)

/-- send an event; also tells whether the stream takes it -/
def sendEvent (w : World) (s : StreamId) (ev : Event) : Bool × World :=
  match w.streams.get? s with
  | some c =>
    if c.isOpen then (true, { w with streams := w.streams.insert s (c.send ev) }.wake (.message s)) else (false, w)
  | none => (false, w)

/-- no more events will be sent -/
def closeStream (w : World) (s : StreamId) : World :=
  { w with streams := w.streams.modify s fun c => c.dropSender }.wake (.message s)

/-- open a gate of the disk -/
def openGate (w : World) (g : GateId) : World := { w with disk := w.disk.openGate g }.wake (.gate g)

end World

end LiveFiles.Engine
