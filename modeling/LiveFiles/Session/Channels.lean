/-
Sessions with subscribers and their receivers. A subscriber lives as long as it is held by its name or by a task that
waits for the receiver to be closed; a name that is given to a new pair lets go of the old one.

A run starts without any pair; in each move either a task that can go on carries out one section, in whatever order, or
a command comes from outside, or a wait is cancelled. `Machine.settle` carries out sections in the order of the queue.
-/
import LiveFiles.Channel
import LiveFiles.Schedule
import LiveFiles.Snapshot

namespace LiveFiles.Session.Channels

inductive Command where
  | new (name : String)
  | notify (name : String) (s : Snapshot)
  | drain (name : String)
  | tryRead (name : String)
  | read (name : String)
  | close (name : String)
  | dropReceiver (name : String)
  | dropSubscriber (name : String)
  /-- a task waits until the receiver is closed -/
  | closed (name : String) (task : String)
  deriving DecidableEq

inductive Reply where
  | flag (b : Bool)
  /-- a new pair: the receiver has the subscriber's identity, and that is larger than those in use -/
  | made (sameId : Bool) (larger : Bool)
  | snapshot (s : Snapshot)
  | snapshots (ss : List Snapshot)
  | nothing
  | ended
  | wouldWait
  | noReceiver
  deriving DecidableEq, Repr

structure Pair where
  subscriberId : SubscriberId
  receiverId : SubscriberId
  channel : Channel Snapshot := {}
  /-- the subscriber is held by a name -/
  held : Bool := true
  /-- the tasks that hold it -/
  keepers : Nat := 0

namespace Pair

/-- the sending end exists while anybody holds the subscriber -/
def refresh (p : Pair) : Pair := { p with channel := { p.channel with sender := p.held || 0 < p.keepers } }

def letGo (p : Pair) : Pair := { p with held := false }.refresh

def keep (p : Pair) : Pair := { p with keepers := p.keepers + 1 }.refresh

def unkeep (p : Pair) : Pair := { p with keepers := p.keepers - 1 }.refresh

end Pair

structure Phase where
  pair : SubscriberId
  task : String

structure World where
  pairs : Table SubscriberId Pair := .empty
  names : Table String SubscriberId := .empty
  nextId : Nat := 1
  tasks : Tasks Phase := {}
  done : List String := []

namespace World

def advance (w : World) (p : Phase) : World × Section Phase Unit :=
  if (w.pairs.get? p.pair).any fun x => x.channel.isOpen then (w, .wait p)
  else ({ w with pairs := w.pairs.modify p.pair Pair.unkeep, done := w.done ++ [p.task] }, .ended ())

def drop (w : World) (p : Phase) : World := { w with pairs := w.pairs.modify p.pair Pair.unkeep }

def setChannel (w : World) (id : SubscriberId) (c : Channel Snapshot) : World :=
  { w with pairs := w.pairs.modify id fun x => { x with channel := c } }

def pair? (w : World) (name : String) : Option Pair := (w.names.get? name).bind w.pairs.get?

/-- the receiver of this name, if it exists, with its identity -/
def receiver? (w : World) (name : String) : Option (SubscriberId × Channel Snapshot) :=
  ((w.pair? name).filter (·.channel.receiver)).map fun x => (x.subscriberId, x.channel)

/-- the subscriber of this name, if it is held by it -/
def subscriber? (w : World) (name : String) : Option Pair := (w.pair? name).filter (·.held)

end World

instance : Machine World Phase where
  tasks w := w.tasks
  setTasks w tasks := { w with tasks }
  advance w _ p := w.advance p
  drop w _ p := w.drop p

/-- the receiver of a pair is closed or gone: those who wait for that go on -/
def wakeClosed (w : World) (id : SubscriberId) : World := { w with tasks := w.tasks.wake (·.pair = id) }

/-- a name lets go of its pair -/
def release (w : World) (name : String) : World :=
  match w.pair? name with
  | some x =>
    let x := { x with channel := x.channel.dropReceiver }.letGo
    wakeClosed { w with pairs := w.pairs.insert x.subscriberId x } x.subscriberId
  | none => w

/-- the immediate effect of a command, and what it returns -/
def command (w : World) : Command → World × Reply
  | .new name =>
    let id : SubscriberId := ⟨w.nextId⟩
    let pair : Pair := { subscriberId := id, receiverId := id }
    let larger := (w.pairs.values.filter (·.held)).all fun x => x.subscriberId.number < id.number
    let w := release w name
    ({ w with pairs := w.pairs.insert id pair, names := w.names.insert name id, nextId := w.nextId + 1 },
      .made (pair.subscriberId = pair.receiverId) larger)
  | .notify name s =>
    match w.subscriber? name with
    | some x => (w.setChannel x.subscriberId (x.channel.send s), .flag true)
    | none => (w, .flag false)
  | .drain name =>
    match w.receiver? name with
    | some (id, c) =>
      let (ss, c) := c.drain
      (w.setChannel id c, .snapshots ss)
    | none => (w, .noReceiver)
  | .tryRead name =>
    match w.receiver? name with
    | some (id, c) =>
      match c.read with
      | (.message s, c) => (w.setChannel id c, .snapshot s)
      | _ => (w, .nothing)
    | none => (w, .noReceiver)
  | .read name =>
    match w.receiver? name with
    | some (id, c) =>
      match c.read with
      | (.message s, c) => (w.setChannel id c, .snapshot s)
      | (.ended, _) => (w, .ended)
      | (.nothing, _) => (w, .wouldWait)
    | none => (w, .noReceiver)
  | .close name =>
    match w.receiver? name with
    | some (id, c) => (wakeClosed (w.setChannel id c.close) id, .flag true)
    | none => (w, .flag false)
  | .dropReceiver name =>
    match w.receiver? name with
    | some (id, c) => (wakeClosed (w.setChannel id c.dropReceiver) id, .flag true)
    | none => (w, .flag false)
  | .dropSubscriber name =>
    match w.subscriber? name with
    | some x => ({ w with pairs := w.pairs.modify x.subscriberId Pair.letGo }, .flag true)
    | none => (w, .flag false)
  | .closed name task =>
    match w.subscriber? name with
    | some x =>
      let (_, tasks) := w.tasks.spawn ⟨x.subscriberId, task⟩
      ({ w with tasks, pairs := w.pairs.modify x.subscriberId Pair.keep }, .flag true)
    | none => (w, .flag false)

structure Report where
  reply : Reply
  /-- waits for a closed receiver that ended -/
  done : List String
  deriving DecidableEq, Repr

/-- one command, then everything that follows from it -/
def step (w : World) (c : Command) : World × Report :=
  let (w, reply) := command w c
  let w := Machine.settle w
  ({ w with done := [] }, ⟨reply, w.done.mergeSort (fun a b => decide (a ≤ b))⟩)

def run (w : World) : List Command → List Report
  | [] => []
  | c :: cs =>
    let (w, r) := step w c
    r :: run w cs

/-- what can happen next -/
inductive Move where
  /-- a task carries out one section -/
  | turn (id : TaskId)
  | command (c : Command)
  /-- a wait is cancelled -/
  | cancel (id : TaskId)
  deriving DecidableEq

namespace World

def move (w : World) : Move → World
  | .turn id => Machine.serve w id
  | .command c => (Session.Channels.command w c).1
  | .cancel id => { w with tasks := w.tasks.cancel id }

/-- the session after `n` of the moves -/
def trace (w : World) (moves : Nat → Move) : Nat → World
  | 0 => w
  | n + 1 => (w.trace moves n).move (moves n)

end World

end LiveFiles.Session.Channels
