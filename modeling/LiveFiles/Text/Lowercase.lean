/-
Lower-case text. Every character is mapped by itself, with two exceptions: a capital I with a dot becomes an `i` and a
combining dot, and a capital sigma becomes a final sigma where it ends a word.
-/
import LiveFiles.Text.CaseData

namespace LiveFiles.Text

/-- the rows' lower-case form of a code point, if it has one -/
def lowerOf? (n : Nat) : List (Nat × Nat × Nat × Int) → Option Nat
  | [] => none
  | (lo, hi, step, shift) :: rest =>
    if lo ≤ n && n ≤ hi && (n - lo) % step = 0 then some ((n : Int) + shift).toNat else lowerOf? n rest

/-- the lower-case form of a character by itself -/
def lowerChar (c : Char) : List Char :=
  if c.toNat < 0x80 then [c.toLower]
  else if c.toNat = 0x130 then ['i', Char.ofNat 0x307]
  else match lowerOf? c.toNat lowerRows with
    | some n => [Char.ofNat n]
    | none => [c]

/-- after the characters to pass over comes one that has a case -/
def startsCased (cs : List Char) : Bool :=
  match cs.dropWhile caseIgnorableRanges.has with
  | [] => false
  | c :: _ => casedRanges.has c

/-- lower-case forms of `rest`, which comes after `before` (given last character first) -/
def lowerAfter (before : List Char) : List Char → List Char
  | [] => []
  | c :: rest =>
    let here :=
      if c = 'Σ' then (if startsCased before && !startsCased rest then ['ς'] else ['σ'])
      else lowerChar c
    here ++ lowerAfter (c :: before) rest

def lowercase (s : String) : String := String.ofList (lowerAfter [] s.toList)

end LiveFiles.Text
