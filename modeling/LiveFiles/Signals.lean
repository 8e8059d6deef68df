/-
Signals. A signal is given once; whoever waits for it then, or looks later, goes on.
-/

namespace LiveFiles

abbrev SignalId := Nat

structure Signals where
  next : SignalId := 1
  /-- those that have been given -/
  given : List SignalId := []
  deriving Repr

namespace Signals

def fresh (s : Signals) : SignalId × Signals := (s.next, { s with next := s.next + 1 })

def give (s : Signals) (id : SignalId) : Signals := if id ∈ s.given then s else { s with given := id :: s.given }

def isGiven (s : Signals) (id : SignalId) : Bool := id ∈ s.given

theorem isGiven_give (s : Signals) (a b : SignalId) : (s.give a).isGiven b = (a = b || s.isGiven b) := by
  simp only [give, isGiven]
  split
  · rename_i h
    by_cases hb : a = b
    · subst hb; simp [h]
    · simp [hb]
  · by_cases hb : a = b
    · simp [hb]
    · simp [hb, Ne.symm hb]

end Signals

end LiveFiles
