/-
Turns at a path. Whoever wants to work on a path alone reserves a turn, queues up with it and, once the lock of the
path is given to the turn, holds it until the turn is given back. Locks go to the turns in the order in which they
queued up. A path has a lock only while somebody has a turn at it: the first turn makes the lock and the last one to
be given back discards it.

A turn may be given back at any stage, be it not queued yet, in the queue or holding the lock; a lock that was held
passes to the next in the queue in the same moment.
-/
import LiveFiles.Path
import LiveFiles.Table

namespace LiveFiles

abbrev TurnId := Nat
abbrev LockId := Nat

/-- a reserved turn, with the lock it queues up for -/
structure Turn where
  id : TurnId
  key : Path.Key
  lock : LockId
  deriving DecidableEq, Repr

structure Lock where
  holder : Option TurnId := none
  /-- first come first served -/
  queue : List TurnId := []
  deriving DecidableEq, Repr

/-- the lock that a path has at present, and the number of turns at it that have not been given back -/
structure Slot where
  lock : LockId
  users : Nat
  deriving DecidableEq, Repr

structure Turns where
  slots : Table Path.Key Slot := .empty
  locks : Table LockId Lock := .empty
  nextTurn : TurnId := 1
  nextLock : LockId := 1

namespace Turns

/-- Reserve a turn; this never waits. -/
def reserve (t : Turns) (key : Path.Key) : Turn × Turns :=
  match t.slots.get? key with
  | some slot =>
    (⟨t.nextTurn, key, slot.lock⟩,
      { t with slots := t.slots.insert key { slot with users := slot.users + 1 }, nextTurn := t.nextTurn + 1 })
  | none =>
    (⟨t.nextTurn, key, t.nextLock⟩,
      { slots := t.slots.insert key ⟨t.nextLock, 1⟩, locks := t.locks.insert t.nextLock {},
        nextTurn := t.nextTurn + 1, nextLock := t.nextLock + 1 })

def lock (t : Turns) (id : LockId) : Lock := t.locks.getD id {}

/-- the turn holds its lock -/
def holds (t : Turns) (turn : Turn) : Bool := (t.lock turn.lock).holder = some turn.id

/-- Queue up; a free lock is given at once. -/
def queueUp (t : Turns) (turn : Turn) : Turns :=
  let l := t.lock turn.lock
  let l := match l.holder with
    | none => { l with holder := some turn.id }
    | some _ => { l with queue := l.queue ++ [turn.id] }
  { t with locks := t.locks.insert turn.lock l }

/-- take a turn out of its lock: the lock afterwards, and who has been given it by that -/
def Lock.leave (l : Lock) (id : TurnId) : Lock × Option TurnId :=
  if l.holder = some id then
    match l.queue with
    | [] => ({ l with holder := none }, none)
    | next :: rest => (⟨some next, rest⟩, some next)
  else ({ l with queue := l.queue.erase id }, none)

/-- Give a turn back; also tells which turn has been given the lock by that, if any. -/
def giveBack (t : Turns) (turn : Turn) : Turns × Option TurnId :=
  let (l, next) := Lock.leave (t.lock turn.lock) turn.id
  let t := { t with locks := t.locks.insert turn.lock l }
  match t.slots.get? turn.key with
  | none => (t, next)
  | some slot =>
    if slot.users - 1 = 0 then
      ({ t with slots := t.slots.erase turn.key, locks := t.locks.erase slot.lock }, next)
    else ({ t with slots := t.slots.insert turn.key { slot with users := slot.users - 1 } }, next)

/-- nobody has a turn at the path -/
def isIdle (t : Turns) (key : Path.Key) : Bool := !t.slots.contains key

/-- the number of paths at which somebody has a turn -/
def activePaths (t : Turns) : Nat := t.slots.size

end Turns

end LiveFiles
