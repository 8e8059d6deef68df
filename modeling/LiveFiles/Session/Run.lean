/-
Runs of a session with turns at paths. A run starts with a session in which no turn has been reserved; in each move
either a task that can go on carries out one section, in whatever order, or a command comes from outside.
`Machine.settle` carries out sections in the order of the queue, which is one way for a run to go (`tick_eq_move`).
-/
import LiveFiles.Schedule
import LiveFiles.Session.Locks

namespace LiveFiles.Session.Locks

/-- what can happen next -/
inductive Move where
  /-- a task carries out one section -/
  | turn (id : TaskId)
  | command (c : Command)

/-- there is no task with the number 0 -/
instance : Inhabited Move := ⟨.turn 0⟩

namespace World

def move (w : World) : Move → World
  | .turn id => Machine.serve w id
  | .command c => (w.command c).1

/-- the session after `n` of the moves -/
def trace (w : World) (moves : Nat → Move) : Nat → World
  | 0 => w
  | n + 1 => (w.trace moves n).move (moves n)

/-- one section in the order of the queue is a move -/
theorem tick_eq_move (w : World) : ∃ m, Machine.tick w = w.move m := by
  obtain ⟨id, h⟩ := Machine.tick_eq_serve w
  exact ⟨.turn id, h⟩

end World

end LiveFiles.Session.Locks
