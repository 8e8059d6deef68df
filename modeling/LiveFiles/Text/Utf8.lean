/-
Reading bytes as UTF-8 text. `next` takes one character off the front of the bytes, or tells how many bytes at the
front are no start of any character. `decode` refuses text with such bytes and says where they stand; `decodeLossy`
puts one replacement character for each run of them.
-/

namespace LiveFiles.Text.Utf8

/-- what stands at the front of some bytes -/
inductive Front where
  | char (c : Char) (size : Nat)
  /-- the first `size` bytes start no character; `cut` if they would, had the bytes not ended there -/
  | bad (size : Nat) (cut : Bool)

/-- continuation byte -/
def isTail (b : UInt8) : Bool := 0x80 ≤ b && b ≤ 0xBF

/-- the six low bits -/
def low6 (b : UInt8) : Nat := b.toNat % 64

/-- second byte allowed after the first byte of a character of three bytes -/
def second3 (a b : UInt8) : Bool :=
  if a = 0xE0 then 0xA0 ≤ b && b ≤ 0xBF
  else if a = 0xED then 0x80 ≤ b && b ≤ 0x9F
  else isTail b

/-- second byte allowed after the first byte of a character of four bytes -/
def second4 (a b : UInt8) : Bool :=
  if a = 0xF0 then 0x90 ≤ b && b ≤ 0xBF
  else if a = 0xF4 then 0x80 ≤ b && b ≤ 0x8F
  else isTail b

/-- the character at the front of `a :: rest` -/
def next (a : UInt8) (rest : List UInt8) : Front :=
  if a < 0x80 then .char (Char.ofNat a.toNat) 1
  else if 0xC2 ≤ a && a ≤ 0xDF then
    match rest with
    | [] => .bad 1 true
    | b :: _ => if isTail b then .char (Char.ofNat ((a.toNat % 32) * 64 + low6 b)) 2 else .bad 1 false
  else if 0xE0 ≤ a && a ≤ 0xEF then
    match rest with
    | [] => .bad 1 true
    | [b] => if second3 a b then .bad 2 true else .bad 1 false
    | b :: c :: _ =>
      if !second3 a b then .bad 1 false
      else if !isTail c then .bad 2 false
      else .char (Char.ofNat ((a.toNat % 16) * 4096 + low6 b * 64 + low6 c)) 3
  else if 0xF0 ≤ a && a ≤ 0xF4 then
    match rest with
    | [] => .bad 1 true
    | [b] => if second4 a b then .bad 2 true else .bad 1 false
    | [b, c] => if !second4 a b then .bad 1 false else if isTail c then .bad 3 true else .bad 2 false
    | b :: c :: d :: _ =>
      if !second4 a b then .bad 1 false
      else if !isTail c then .bad 2 false
      else if !isTail d then .bad 3 false
      else .char (Char.ofNat ((a.toNat % 8) * 262144 + low6 b * 4096 + low6 c * 64 + low6 d)) 4
  else .bad 1 false

/-- why bytes are not text: the index of the first byte at fault, and how many bytes are; `none` if the bytes end inside a
character -/
structure Fault where
  index : Nat
  size : Option Nat
  deriving DecidableEq, Repr

def Fault.message (f : Fault) : String :=
  match f.size with
  | some n => s!"invalid utf-8 sequence of {n} bytes from index {f.index}"
  | none => s!"incomplete utf-8 byte sequence from index {f.index}"

/-- Read on at byte `index`, after the characters of `acc` (last first). -/
def decodeFrom (index : Nat) (acc : List Char) : List UInt8 → Except Fault (List Char)
  | [] => .ok acc.reverse
  | a :: rest =>
    match next a rest with
    | .char c size => decodeFrom (index + size) (c :: acc) (rest.drop (size - 1))
    | .bad size cut => .error ⟨index, if cut then none else some size⟩
termination_by bytes => bytes.length
decreasing_by simp only [List.length_drop, List.length_cons]; omega

def decode (bytes : ByteArray) : Except Fault String := (decodeFrom 0 [] bytes.toList).map String.ofList

/-- Read on after the characters of `acc` (last first), with replacement characters. -/
def decodeLossyFrom (acc : List Char) : List UInt8 → List Char
  | [] => acc.reverse
  | a :: rest =>
    match next a rest with
    | .char c size => decodeLossyFrom (c :: acc) (rest.drop (size - 1))
    | .bad size _ => decodeLossyFrom (Char.ofNat 0xFFFD :: acc) (rest.drop (size - 1))
termination_by bytes => bytes.length
decreasing_by all_goals simp only [List.length_drop, List.length_cons]; omega

def decodeLossy (bytes : ByteArray) : String := String.ofList (decodeLossyFrom [] bytes.toList)

end LiveFiles.Text.Utf8
