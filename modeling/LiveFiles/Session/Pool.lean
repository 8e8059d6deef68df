/-
Sessions with a pool of background work. A piece of work is what it does, step by step (`Work`): it may wait to be told
to go on, let the others go first, add work to the same pool, close it or wait for it to be idle, and it ends well, in
failure or by breaking off; to the count these are the same. A `Work` is finite, which is no restriction for what happens
up to a given moment.

A run starts with a pool that has taken no work; in each move either a task that can go on carries out one section, in
whatever order, or something comes from outside. `Machine.settle` carries out sections in the order of the queue.
-/
import LiveFiles.Pool
import LiveFiles.Schedule

namespace LiveFiles.Session.Pool

inductive Command where
  /-- work that adds `spawns` pieces of work before it ends -/
  | spawn (name : String) (held : Bool) (spawns : Nat)
  | finish (name : String)
  | length
  | waitIdle (name : String)
  | close

/-- how a piece of work ends -/
inductive Ending where
  | well
  /-- with an error, which is reported and hurts nobody else -/
  | failed
  /-- it breaks off -/
  | broken

/-- what a piece of work does -/
inductive Work where
  | ends (ending : Ending)
  /-- it lets the others go first -/
  | pauses (rest : Work)
  /-- it waits to be told a word -/
  | awaits (word : Nat) (rest : Work)
  /-- it adds work to the pool, and goes on as that is taken or refused -/
  | adds (work taken refused : Work)
  | closes (rest : Work)
  /-- it waits until the pool is idle -/
  | drains (rest : Work)

/-- add `n` pieces of work that end at once, whether they are taken or not -/
def Work.adding : Nat → Work → Work
  | 0, rest => rest
  | n + 1, rest =>
    let rest := adding n rest
    .adds (.ends .well) rest rest

/-- what a command asks for: work that adds other work and ends well, and that waits for a word first if it is held -/
def Work.asked (word : Nat) (held : Bool) (spawns : Nat) : Work :=
  let rest := adding spawns (.ends .well)
  if held then .awaits word rest else rest

inductive Phase where
  /-- a numbered piece of work, with what is left of it to do -/
  | working (number : Nat) (work : Work)
  | waiting (name : String)

structure World where
  pool : LiveFiles.Pool := {}
  tasks : Tasks Phase := {}
  nextWord : Nat := 1
  /-- words not given yet, with the tasks that they are for -/
  untold : Table String (Nat × TaskId) := .empty
  told : List Nat := []
  /-- pieces of work that have been reported to fail -/
  failures : List Nat := []
  done : List String := []

def Phase.awaitsIdle : Phase → Bool
  | .waiting _ => true
  | .working _ (.drains _) => true
  | .working .. => false

def Phase.awaitsWord (word : Nat) : Phase → Bool
  | .working _ (.awaits w _) => w = word
  | _ => false

namespace World

/-- the count has changed -/
def setPool (w : World) (pool : LiveFiles.Pool) : World := { w with pool, tasks := w.tasks.wake Phase.awaitsIdle }

/-- add work to the pool, if it takes any: its number and its task -/
def add (w : World) (work : Work) : Option (Nat × TaskId) × World :=
  match w.pool.accept with
  | none => (none, w)
  | some (n, pool) =>
    let w := w.setPool pool
    let (id, tasks) := w.tasks.spawn (.working n work)
    (some (n, id), { w with tasks })

/-- a piece of work is counted no longer -/
def unregister (w : World) : World := w.setPool w.pool.finish

def close (w : World) : World := { w with pool := w.pool.close }

/-- tell a word to those who wait for it -/
def tell (w : World) (word : Nat) : World :=
  { w with told := word :: w.told, tasks := w.tasks.wake (·.awaitsWord word) }

def report (w : World) (number : Nat) : Ending → World
  | .failed => { w with failures := w.failures ++ [number] }
  | .well | .broken => w

/-- one section of a task -/
def advance (w : World) : Phase → World × Section Phase Unit
  | .working n (.ends e) => ((w.report n e).unregister, .ended ())
  | .working n (.pauses rest) => (w, .pause (.working n rest))
  | .working n (.awaits word rest) =>
    if w.told.contains word then (w, .go (.working n rest)) else (w, .wait (.working n (.awaits word rest)))
  | .working n (.adds work taken refused) =>
    match w.add work with
    | (none, w) => (w, .go (.working n refused))
    | (some _, w) => (w, .go (.working n taken))
  | .working n (.closes rest) => (w.close, .go (.working n rest))
  | .working n (.drains rest) =>
    if w.pool.active = 0 then (w, .go (.working n rest)) else (w, .wait (.working n (.drains rest)))
  | .waiting name =>
    if w.pool.active = 0 then ({ w with done := w.done ++ [name] }, .ended ()) else (w, .wait (.waiting name))

/-- what a cancelled task lets go of -/
def drop (w : World) : Phase → World
  | .waiting _ => w
  | .working .. => w.unregister

end World

instance : Machine World Phase where
  tasks w := w.tasks
  setTasks w tasks := { w with tasks }
  advance w _ p := w.advance p
  drop w _ p := w.drop p

inductive Reply where
  | nothing
  | flag (b : Bool)
  | number (n : Nat)
  | text (s : String)
  deriving DecidableEq, Repr

/-- the immediate effect of a command, and what it returns -/
def command (w : World) : Command → World × Reply
  | .spawn name held spawns =>
    let word := w.nextWord
    match { w with nextWord := w.nextWord + 1 }.add (.asked word held spawns) with
    | (none, w) => (w, .nothing)
    | (some (n, id), w) =>
      let untold := if held then w.untold.insert name (word, id) else w.untold
      ({ w with untold }, .text (LiveFiles.Pool.idText n))
  | .finish name =>
    match w.untold.get? name with
    | none => (w, .flag false)
    | some (word, id) => ({ w with untold := w.untold.erase name }.tell word, .flag (w.tasks.isLive id))
  | .length => (w, .number w.pool.active)
  | .waitIdle name => ({ w with tasks := (w.tasks.spawn (.waiting name)).2 }, .nothing)
  | .close => (w.close, .nothing)

structure Report where
  reply : Reply
  /-- the count right after the command -/
  atOnce : Nat
  /-- waits that ended -/
  done : List String
  /-- the pool after everything has run -/
  pool : LiveFiles.Pool
  deriving DecidableEq, Repr

/-- one command, then everything that follows from it -/
def step (w : World) (c : Command) : World × Report :=
  let (w, reply) := command w c
  let atOnce := w.pool.active
  let w := Machine.settle w
  ({ w with done := [] }, ⟨reply, atOnce, w.done.mergeSort (fun a b => decide (a ≤ b)), w.pool⟩)

def run (w : World) : List Command → List Report
  | [] => []
  | c :: cs =>
    let (w, r) := step w c
    r :: run w cs

/-- what can happen next -/
inductive Move where
  /-- a task carries out one section -/
  | turn (id : TaskId)
  | command (c : Command)
  /-- work of any kind is offered to the pool -/
  | start (work : Work)
  | tell (word : Nat)
  /-- a task is cancelled -/
  | cancel (id : TaskId)

namespace World

def move (w : World) : Move → World
  | .turn id => Machine.serve w id
  | .command c => (Session.Pool.command w c).1
  | .start work => (w.add work).2
  | .tell word => w.tell word
  | .cancel id => { w with tasks := w.tasks.cancel id }

/-- the session after `n` of the moves -/
def trace (w : World) (moves : Nat → Move) : Nat → World
  | 0 => w
  | n + 1 => (w.trace moves n).move (moves n)

end World

end LiveFiles.Session.Pool
