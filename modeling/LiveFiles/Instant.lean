/-
Points in time and lengths of time, exact to the nanosecond.
-/

namespace LiveFiles

/-- a point in time: nanoseconds since the Unix epoch, negative before it -/
structure Instant where
  nanos : Int
  deriving DecidableEq, Repr, Inhabited

namespace Instant

def epoch : Instant := ⟨0⟩

def ofMillis (ms : Int) : Instant := ⟨ms * 1000000⟩

/-- whole milliseconds since the epoch; zero for a time before it -/
def epochMillis (t : Instant) : Nat := (t.nanos / 1000000).toNat

end Instant

/-- a length of time in nanoseconds -/
structure Span where
  nanos : Nat
  deriving DecidableEq, Repr

namespace Span

def ofMillis (ms : Nat) : Span := ⟨ms * 1000000⟩

/-- the digits of a fraction `n / 10 ^ places`, without the zeros at its end -/
def fractionDigits (n places : Nat) : List Char :=
  let ds := Nat.toDigits 10 n
  let padded := List.replicate (places - ds.length) '0' ++ ds
  (padded.reverse.dropWhile (· = '0')).reverse

/-- `n` units of `10 ^ places` nanoseconds each, with as many decimal places as are needed -/
def inUnits (n places : Nat) (unit : String) : String :=
  let size := Nat.pow 10 places
  let whole := toString (n / size)
  if n % size = 0 then whole ++ unit else whole ++ "." ++ String.ofList (fractionDigits (n % size) places) ++ unit

/-- A length of time in the largest of the units s, ms, µs and ns of which it has at least one. -/
def text (d : Span) : String :=
  if 1000000000 ≤ d.nanos then inUnits d.nanos 9 "s"
  else if 1000000 ≤ d.nanos then inUnits d.nanos 6 "ms"
  else if 1000 ≤ d.nanos then inUnits d.nanos 3 "µs"
  else inUnits d.nanos 0 "ns"

end Span

end LiveFiles
