/-
Cooperative tasks. It is assumed that they all share one thread and that nobody is interrupted: between two points at which
a task may wait, nothing else happens. Such a stretch is a section, and runs of tasks are sequences of sections.

A task is a phase: what it will do when it next has the floor. Tasks that can go on stand in a
queue, first come first served; the one at the front gets the floor and keeps it, section by section, until it waits,
pauses or ends. What a section does to the shared state is up to the `Machine`; events wake the tasks whose phase
waits for them.

`tick` carries out one section, `settle` carries on until nobody can. A cancelled task is given the floor once more,
in turn, to let go of what it holds. The numbers of tasks are taken without bound, so none is given twice.
-/
import LiveFiles.Table

namespace LiveFiles

abbrev TaskId := Nat

structure Task (φ : Type) where
  phase : φ
  cancelled : Bool := false

/-- all tasks that have not ended, and who goes next -/
structure Tasks (φ : Type) where
  live : Table TaskId (Task φ) := .empty
  /-- those that can go on, in order -/
  ready : List TaskId := []
  /-- the one that has the floor -/
  floor : Option TaskId := none
  next : TaskId := 1

/-- how a section of a task ends: in a later phase, or with a result -/
inductive Section (σ α : Type) where
  /-- it goes on at once -/
  | go (phase : σ)
  /-- it waits for an event -/
  | wait (phase : σ)
  /-- it lets the others go first -/
  | pause (phase : σ)
  | ended (result : α)

namespace Tasks

variable {φ : Type}

/-- a new task, last in the queue -/
def spawn (ts : Tasks φ) (phase : φ) : TaskId × Tasks φ :=
  (ts.next,
    { ts with live := ts.live.insert ts.next ⟨phase, false⟩, ready := ts.ready ++ [ts.next], next := ts.next + 1 })

/-- let a task stand in the queue, where it stands at most once -/
def enqueue (ts : Tasks φ) (id : TaskId) : Tasks φ :=
  if id ∈ ts.ready || ts.floor = some id then ts else { ts with ready := ts.ready ++ [id] }

/-- let all tasks whose phase is chosen stand in the queue, oldest first -/
def wake (ts : Tasks φ) (chosen : φ → Bool) : Tasks φ :=
  (ts.live.rows.filter fun r => chosen r.2.phase).foldl (fun ts r => ts.enqueue r.1) ts

/-- A task is not to go on; it is still in its place in the queue, or gets one. -/
def cancel (ts : Tasks φ) (id : TaskId) : Tasks φ :=
  if ts.live.contains id then
    { ts with live := ts.live.modify id fun t => { t with cancelled := true } }.enqueue id
  else ts

def isLive (ts : Tasks φ) (id : TaskId) : Bool := ts.live.contains id

/-- nobody can go on -/
def quiet (ts : Tasks φ) : Bool := ts.ready.isEmpty && ts.floor.isNone

/-- put down how a section of the task that has the floor ended -/
def record (ts : Tasks φ) (id : TaskId) : Section φ Unit → Tasks φ
  | .go p => { ts with live := ts.live.modify id fun t => { t with phase := p } }
  | .wait p => { ts with live := ts.live.modify id fun t => { t with phase := p }, floor := none }
  | .pause p =>
    { ts with live := ts.live.modify id fun t => { t with phase := p }, floor := none, ready := ts.ready ++ [id] }
  | .ended _ => { ts with live := ts.live.erase id, floor := none }

end Tasks

/-- A shared state with tasks that work on it. -/
class Machine (W : Type) (φ : outParam Type) where
  tasks : W → Tasks φ
  setTasks : W → Tasks φ → W
  /-- carry out one section of a task -/
  advance : W → TaskId → φ → W × Section φ Unit
  /-- let go of what a cancelled task holds -/
  drop : W → TaskId → φ → W

namespace Machine

variable {W φ : Type} [Machine W φ]

/-- one section of the task that has the floor -/
def runSection (w : W) (id : TaskId) : W :=
  let ts := tasks w
  match ts.live.get? id with
  | none => setTasks w { ts with floor := none }
  | some t =>
    if t.cancelled then drop (setTasks w { ts with live := ts.live.erase id, floor := none }) id t.phase
    else
      let (w, ending) := advance w id t.phase
      setTasks w ((tasks w).record id ending)

/-- give the floor to a task -/
def giveFloor (w : W) (id : TaskId) : W :=
  let ts := tasks w
  setTasks w { ts with ready := ts.ready.erase id, floor := some id }

/-- one section of whoever has the floor, or else of the first in the queue -/
def tick (w : W) : W :=
  match (tasks w).floor with
  | some id => runSection w id
  | none =>
    match (tasks w).ready with
    | [] => w
    | id :: _ => runSection (giveFloor w id) id

/-- at most `n` sections -/
def settleWithin : Nat → W → W
  | 0, w => w
  | n + 1, w => if (tasks w).quiet then w else settleWithin n (tick w)

/-- how many sections `settle` carries out at most -/
def patience : Nat := 1000000

/-- Let everything run until nobody can go on. -/
def settle (w : W) : W := settleWithin patience w

end Machine

end LiveFiles
