/-
Sessions with signals, which are made when they are first named.
-/
import LiveFiles.Signals
import LiveFiles.Tasks

namespace LiveFiles.Session.Signals

inductive Command where
  | new (name : String)
  | give (name : String)
  | isGiven (name : String)
  | wait (name : String) (task : String)
  | abort (task : String)

structure Phase where
  task : String
  signal : SignalId

structure World where
  signals : LiveFiles.Signals := {}
  names : Table String SignalId := .empty
  waits : Table String TaskId := .empty
  tasks : Tasks Phase := {}
  done : List String := []

namespace World

def advance (w : World) (p : Phase) : World × Section Phase Unit :=
  if w.signals.isGiven p.signal then ({ w with done := w.done ++ [p.task] }, .ended ()) else (w, .wait p)

def drop (w : World) (p : Phase) : World := { w with done := w.done ++ [p.task] }

/-- the signal of this name, made if need be -/
def signal (w : World) (name : String) : SignalId × World :=
  match w.names.get? name with
  | some id => (id, w)
  | none =>
    let (id, signals) := w.signals.fresh
    (id, { w with signals, names := w.names.insert name id })

end World

instance : Machine World Phase where
  tasks w := w.tasks
  setTasks w tasks := { w with tasks }
  advance w _ p := w.advance p
  drop w _ p := w.drop p

/-- the immediate effect of a command, and what it returns, if anything -/
def command (w : World) : Command → World × Option Bool
  | .new name => ((w.signal name).2, none)
  | .give name =>
    let (id, w) := w.signal name
    ({ w with signals := w.signals.give id, tasks := w.tasks.wake (·.signal = id) }, none)
  | .isGiven name =>
    let (id, w) := w.signal name
    (w, some (w.signals.isGiven id))
  | .wait name task =>
    let (signal, w) := w.signal name
    let (id, tasks) := w.tasks.spawn ⟨task, signal⟩
    ({ w with tasks, waits := w.waits.insert task id }, none)
  | .abort task =>
    match (w.waits.get? task).filter w.tasks.isLive with
    | some id => ({ w with tasks := w.tasks.cancel id }, some true)
    | none => (w, some false)

structure Report where
  reply : Option Bool
  /-- waits that ended or were cancelled -/
  done : List String
  /-- waits that have not ended -/
  waiting : Nat
  deriving DecidableEq, Repr

/-- one command, then everything that follows from it -/
def step (w : World) (c : Command) : World × Report :=
  let (w, reply) := command w c
  let w := Machine.settle w
  ({ w with done := [] }, ⟨reply, w.done.mergeSort (fun a b => decide (a ≤ b)), w.tasks.live.size⟩)

def run (w : World) : List Command → List Report
  | [] => []
  | c :: cs =>
    let (w, r) := step w c
    r :: run w cs

end LiveFiles.Session.Signals
