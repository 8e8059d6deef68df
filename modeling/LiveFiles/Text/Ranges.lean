/-
Sets of characters given by ranges of code points.
-/

namespace LiveFiles.Text

/-- inclusive ranges of code points -/
abbrev Ranges := List (Nat × Nat)

/-- the character's code point lies in one of the ranges -/
def Ranges.has (rs : Ranges) (c : Char) : Bool := rs.any fun r => r.1 ≤ c.toNat && c.toNat ≤ r.2

end LiveFiles.Text
