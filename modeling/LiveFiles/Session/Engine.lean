/-
Sessions with the engine. A session drives one engine by commands that refer to calls, subscribers, gates and streams
by names of their own. A step is one command or a batch; all immediate effects of a batch come first, and then
everything runs until nobody can go on. The report of a step tells what has happened since the one before.
-/
import LiveFiles.Engine.Step

namespace LiveFiles.Session

open LiveFiles.Engine

/-- the calls that take their time, with subscribers by name -/
inductive NamedCall where
  | watch (path : Path) (subscriber : String)
  | unwatch (path : Path) (subscriber : String)
  | write (path : Path) (bytes : ByteArray)
  | reconcile (path : Path)
  | waitIdle
  | shutDown
  | diskStat (path : Path)
  | diskRead (path : Path)
  | diskWrite (path : Path) (bytes : ByteArray)

inductive Command where
  | call (name : String) (c : NamedCall)
  | abort (name : String)
  | addFile (path : Path) (bytes : ByteArray)
  | removeFile (path : Path)
  | touch (path : Path)
  | contents (path : Path)
  | modified (path : Path)
  | calls (path : Path)
  | mostUnderWay (path : Path)
  | orderFailure (op : DiskOp) (path : Path) (message : String)
  | clearFailure (op : DiskOp) (path : Path)
  | hold (op : DiskOp) (path : Path) (gate : String)
  | openGate (gate : String)
  | arrived (gate : String) (n : Nat)
  /-- `manual` if the session is not to read the subscriber's messages by itself -/
  | subscriber (name : String) (manual : Bool)
  | drain (subscriber : String)
  | tryRead (subscriber : String)
  | closeSubscriber (subscriber : String)
  | dropSubscriber (subscriber : String)
  | refuseArming (path : Path)
  | armed
  | notifyChange (path : Path)
  | handleEvent (event : Event)
  | attachStream (stream : String)
  | sendEvent (stream : String) (event : Event)
  | closeStream (stream : String)
  | snapshot (path : Path)
  | isTracked (path : Path)
  | subscriberCount (path : Path)

inductive Step where
  | one (c : Command)
  | batch (cs : List Command)

/-- what a command returns at once -/
inductive Reply where
  | nothing
  | flag (b : Bool)
  | number (n : Nat)
  | text (s : String)
  | counts (ns : List Nat)
  | paths (ps : List Path)
  | snapshot (s : Snapshot)
  | snapshots (ss : List Snapshot)

/-- what a step returns at once -/
inductive StepReply where
  | one (r : Reply)
  | batch (rs : List Reply)

structure NamedSubscriber where
  id : SubscriberId
  manual : Bool
  deriving Repr

/-- the number of subscribers of a path and its cached snapshot -/
abbrev Standing := Nat × Option Snapshot

structure State where
  world : World
  /-- paths whose standing is shown when it has changed -/
  observed : List Path
  shown : List Standing := []
  calls : Table String TaskId := .empty
  names : Table TaskId String := .empty
  subscribers : Table String NamedSubscriber := .empty
  gates : Table String GateId := .empty
  streams : Table String StreamId := .empty

def State.initial (policy : WritePolicy) (observed : List Path) : State := { world := { policy }, observed }

structure Report where
  reply : StepReply
  /-- calls that ended -/
  done : List (String × Ending)
  /-- messages delivered, for each subscriber that got any -/
  got : List (String × List Snapshot)
  /-- calls to the watcher, ordered by path -/
  watcher : List WatcherCall
  /-- present if it differs from what was shown last -/
  standings : Option (List Standing)
  tracked : Nat
  locked : Nat
  background : Nat

namespace State

def withWorld (s : State) (w : World) : State := { s with world := w }

/-- the request that a named call stands for; nothing if it names an unknown subscriber -/
def request? (s : State) : NamedCall → Option Request
  | .watch p name => (s.subscribers.get? name).map fun x => .watch p x.id
  | .unwatch p name => (s.subscribers.get? name).map fun x => .unwatch p x.id
  | .write p bytes => some (.write p bytes)
  | .reconcile p => some (.reconcile p)
  | .waitIdle => some .waitIdle
  | .shutDown => some .shutDown
  | .diskStat p => some (.diskStat p)
  | .diskRead p => some (.diskRead p)
  | .diskWrite p bytes => some (.diskWrite p bytes)

def startCall (s : State) (name : String) (r : Request) : State :=
  let (id, w) := s.world.call r
  { s with world := w, calls := s.calls.insert name id, names := s.names.insert id name }

def abort (s : State) (name : String) : State × Reply :=
  match s.calls.get? name with
  | some id => if s.world.tasks.isLive id then (s.withWorld (s.world.cancel id), .flag true) else (s, .flag false)
  | none => (s, .flag false)

def onDisk (s : State) (f : Disk → Disk) : State := s.withWorld { s.world with disk := f s.world.disk }

def dateOf (d : Disk) (p : Path) : Reply :=
  match d.file? p with
  | some f => .number f.modified.epochMillis
  | none => .nothing

/-- the receiving end of a subscriber's channel exists -/
def hasReceiver (w : World) (id : SubscriberId) : Bool := (w.channels.get? id).any (·.receiver)

def optSnapshot : Option Snapshot → Reply
  | some s => .snapshot s
  | none => .nothing

def pathLe (a b : Path) : Bool := a.text ≤ b.text

/-- the immediate effect of a command -/
def command (s : State) : Command → State × Reply
  | .call name c =>
    match s.request? c with
    | some r => (s.startCall name r, .nothing)
    | none => (s, .nothing)
  | .abort name => s.abort name
  | .addFile p bytes =>
    let s := s.onDisk (·.putFile p bytes)
    (s, dateOf s.world.disk p)
  | .removeFile p => (s.onDisk (·.removeFile p), .flag (s.world.disk.file? p).isSome)
  | .touch p =>
    let s := s.onDisk (·.touch p)
    (s, dateOf s.world.disk p)
  | .contents p =>
    match s.world.disk.file? p with
    | some f => (s, .text (Text.Utf8.decodeLossy f.bytes))
    | none => (s, .nothing)
  | .modified p => (s, dateOf s.world.disk p)
  | .calls p =>
    let d := s.world.disk
    (s, .counts [d.callCount .stat p, d.callCount .read p, d.callCount .write p])
  | .mostUnderWay p => (s, .number (s.world.disk.mostUnderWayAt p))
  | .orderFailure op p message => (s.onDisk (·.orderFailure op p message), .nothing)
  | .clearFailure op p => (s.onDisk (·.clearFailure op p), .nothing)
  | .hold op p name =>
    let (g, disk) := s.world.disk.hold op p
    ({ s with world := { s.world with disk }, gates := s.gates.insert name g }, .nothing)
  | .openGate name =>
    match s.gates.get? name with
    | some g => (s.withWorld (s.world.openGate g), .nothing)
    | none => (s, .nothing)
  | .arrived name n =>
    match s.gates.get? name with
    | some g => (s, .flag (n ≤ s.world.disk.arrivals g))
    | none => (s, .nothing)
  | .subscriber name manual =>
    let (id, w) := s.world.newSubscriber
    ({ s with world := w, subscribers := s.subscribers.insert name ⟨id, manual⟩ }, .nothing)
  | .drain name =>
    match s.subscribers.get? name with
    | some x =>
      if hasReceiver s.world x.id then
        let (ms, w) := s.world.drain x.id
        (s.withWorld w, .snapshots ms)
      else (s, .nothing)
    | none => (s, .nothing)
  | .tryRead name =>
    match s.subscribers.get? name with
    | some x =>
      let (m, w) := s.world.tryRead x.id
      (s.withWorld w, optSnapshot m)
    | none => (s, .nothing)
  | .closeSubscriber name =>
    match s.subscribers.get? name with
    | some x => (s.withWorld (s.world.closeSubscriber x.id), .nothing)
    | none => (s, .nothing)
  | .dropSubscriber name =>
    match s.subscribers.get? name with
    | some x => (s.withWorld (s.world.dropSubscriber x.id), .nothing)
    | none => (s, .nothing)
  | .refuseArming p => (s.withWorld { s.world with watcher := s.world.watcher.refuse p }, .nothing)
  | .armed => (s, .paths (s.world.watcher.armed.mergeSort pathLe))
  | .notifyChange p => (s.withWorld (s.world.notifyChange p), .nothing)
  | .handleEvent ev => (s.withWorld (s.world.handleEvent ev), .nothing)
  | .attachStream name =>
    let (id, w) := s.world.attachStream
    let w := match s.streams.get? name with
      | some old => w.closeStream old
      | none => w
    ({ s with world := w, streams := s.streams.insert name id }, .nothing)
  | .sendEvent name ev =>
    match s.streams.get? name with
    | some id =>
      let (taken, w) := s.world.sendEvent id ev
      (s.withWorld w, .flag taken)
    | none => (s, .nothing)
  | .closeStream name =>
    match s.streams.get? name with
    | some id => ({ s with world := s.world.closeStream id, streams := s.streams.erase name }, .flag true)
    | none => (s, .flag false)
  | .snapshot p => (s, optSnapshot (s.world.snapshot? p))
  | .isTracked p => (s, .flag (s.world.isTracked p))
  | .subscriberCount p => (s, .number (s.world.subscriberCount p))

/-- the immediate effects of commands, in order -/
def commands (s : State) : List Command → State × List Reply
  | [] => (s, [])
  | c :: cs =>
    let (s, r) := s.command c
    let (s, rs) := s.commands cs
    (s, r :: rs)

def immediate (s : State) : Step → State × StepReply
  | .one c =>
    let (s, r) := s.command c
    (s, .one r)
  | .batch cs =>
    let (s, rs) := s.commands cs
    (s, .batch rs)

/-- read the messages of all subscribers whose messages the session reads -/
def collect (w : World) : List (String × NamedSubscriber) → World × List (String × List Snapshot)
  | [] => (w, [])
  | (name, x) :: rest =>
    let (ms, w) := if x.manual then ([], w) else w.drain x.id
    let (w, got) := collect w rest
    (w, if ms.isEmpty then got else (name, ms) :: got)

def standing (w : World) (p : Path) : Standing := (w.subscriberCount p, w.snapshot? p)

def callPath : WatcherCall → Path
  | .arm p => p
  | .disarm p => p

/-- the names of calls that have ended, with how -/
def named (s : State) (endings : List (TaskId × Ending)) : List (String × Ending) :=
  endings.filterMap fun (id, e) => (s.names.get? id).map (·, e)

/-- One step: its immediate effects, then everything that follows from them. -/
def step (s : State) (x : Step) : State × Report :=
  let before := s.world
  let (s, reply) := s.immediate x
  let w := s.world.settle
  let done := s.named (w.endings.drop before.endings.length)
  let calls := w.watcher.calls.drop before.watcher.calls.length
  let (w, got) := collect w s.subscribers.rows
  let standings := s.observed.map (standing w)
  let report : Report :=
    { reply, done, got
      watcher := calls.mergeSort fun a b => pathLe (callPath a) (callPath b)
      standings := if standings = s.shown then none else some standings
      tracked := w.entries.size
      locked := w.turns.activePaths
      background := w.pool.active }
  ({ s with world := w, shown := standings }, report)

/-- all steps of a session in order -/
def run (s : State) : List Step → State × List Report
  | [] => (s, [])
  | x :: xs =>
    let (s, r) := s.step x
    let (s, rs) := s.run xs
    (s, r :: rs)

/-- the names of calls that have not ended, in order -/
def unfinished (s : State) : List String :=
  ((s.names.rows.filter fun r => s.world.tasks.isLive r.1).map (·.2)).mergeSort (fun a b => decide (a ≤ b))

end State

end LiveFiles.Session
