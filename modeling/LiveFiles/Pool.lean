/-
The count of background work. Work is accepted until the pool is closed, and numbered from one; closing does not touch
what has been accepted.
-/

namespace LiveFiles

structure Pool where
  /-- number of the next piece of work -/
  next : Nat := 1
  /-- pieces of work accepted and not ended -/
  active : Nat := 0
  closed : Bool := false
  deriving DecidableEq, Repr

namespace Pool

/-- count one more piece of work and number it; a closed pool refuses it -/
def accept (p : Pool) : Option (Nat × Pool) :=
  if p.closed then none else some (p.next, { p with next := p.next + 1, active := p.active + 1 })

/-- a piece of work has ended, in whatever way -/
def finish (p : Pool) : Pool := { p with active := p.active - 1 }

def close (p : Pool) : Pool := { p with closed := true }

/-- the name of a numbered piece of work -/
def idText (n : Nat) : String := "TaskId(" ++ toString n ++ ")"

def text (p : Pool) : String :=
  "TaskPool \x7b active: " ++ toString p.active ++ ", closed: " ++ toString p.closed ++ " \x7d"

end Pool

end LiveFiles
