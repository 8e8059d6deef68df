/-
The BLAKE3 digest of a byte string, unkeyed, 32 bytes long. The input is cut into chunks of 1024 bytes, each a chain
of blocks of 64 bytes; the chunks are the leaves of a binary tree whose left subtrees are complete. Every node is an
`Output` not yet compressed, because the root is compressed with a flag of its own.
-/

namespace LiveFiles.Digest.Blake3

abbrev Words := Array UInt32

def iv : Words :=
  #[0x6A09E667, 0xBB67AE85, 0x3C6EF372, 0xA54FF53A, 0x510E527F, 0x9B05688C, 0x1F83D9AB, 0x5BE0CD19]

/-- where each message word comes from in the next round -/
def schedule : List Nat := [2, 6, 3, 10, 7, 0, 4, 13, 1, 11, 12, 5, 9, 14, 15, 8]

def chunkStart : UInt32 := 1
def chunkEnd : UInt32 := 2
def parentNode : UInt32 := 4
def rootNode : UInt32 := 8

def rotateRight (x : UInt32) (n : UInt32) : UInt32 := (x >>> n) ||| (x <<< (32 - n))

def word (ws : Words) (i : Nat) : UInt32 := ws.getD i 0

/-- the quarter round on the words `a b c d` of the state, with the message words `x` and `y` -/
def mix (s : Words) (a b c d : Nat) (x y : UInt32) : Words :=
  let va := word s a + word s b + x
  let vd := rotateRight (word s d ^^^ va) 16
  let vc := word s c + vd
  let vb := rotateRight (word s b ^^^ vc) 12
  let va := va + vb + y
  let vd := rotateRight (vd ^^^ va) 8
  let vc := vc + vd
  let vb := rotateRight (vb ^^^ vc) 7
  (((s.setIfInBounds a va).setIfInBounds b vb).setIfInBounds c vc).setIfInBounds d vd

/-- one round: the four columns, then the four diagonals -/
def round (s m : Words) : Words :=
  let s := mix s 0 4 8 12 (word m 0) (word m 1)
  let s := mix s 1 5 9 13 (word m 2) (word m 3)
  let s := mix s 2 6 10 14 (word m 4) (word m 5)
  let s := mix s 3 7 11 15 (word m 6) (word m 7)
  let s := mix s 0 5 10 15 (word m 8) (word m 9)
  let s := mix s 1 6 11 12 (word m 10) (word m 11)
  let s := mix s 2 7 8 13 (word m 12) (word m 13)
  mix s 3 4 9 14 (word m 14) (word m 15)

def permute (m : Words) : Words := (schedule.map (word m)).toArray

def rounds : Nat → Words → Words → Words
  | 0, s, _ => s
  | n + 1, s, m => rounds n (round s m) (permute m)

/-- a node of the tree before its last compression -/
structure Output where
  chain : Words
  block : Words
  counter : UInt64
  size : UInt32
  flags : UInt32

/-- the first eight words of the compressed node -/
def Output.compress (o : Output) (extra : UInt32) : Words :=
  let s := o.chain ++ #[word iv 0, word iv 1, word iv 2, word iv 3, o.counter.toUInt32, (o.counter >>> 32).toUInt32,
    o.size, o.flags ||| extra]
  let s := rounds 7 s o.block
  ((List.range 8).map fun i => word s i ^^^ word s (i + 8)).toArray

/-- the sixteen little-endian words of a block; bytes past the end count as zero -/
def blockWords (bytes : ByteArray) (start stop : Nat) : Words :=
  let byte (i : Nat) : UInt32 := if h : i < stop ∧ i < bytes.size then bytes[i].toUInt32 else 0
  ((List.range 16).map fun i =>
    let p := start + 4 * i
    byte p ||| (byte (p + 1) <<< 8) ||| (byte (p + 2) <<< 16) ||| (byte (p + 3) <<< 24)).toArray

/-- the blocks of a chunk from byte `pos` on, up to byte `stop`; the last one is left uncompressed -/
def chunkFrom (bytes : ByteArray) (stop : Nat) (counter : UInt64) : Nat → Nat → UInt32 → Words → Output
  | 0, pos, flags, chain => ⟨chain, blockWords bytes pos stop, counter, (stop - pos).toUInt32, flags ||| chunkEnd⟩
  | n + 1, pos, flags, chain =>
    if stop ≤ pos + 64 then ⟨chain, blockWords bytes pos stop, counter, (stop - pos).toUInt32, flags ||| chunkEnd⟩
    else
      let o : Output := ⟨chain, blockWords bytes pos stop, counter, 64, flags⟩
      chunkFrom bytes stop counter n (pos + 64) 0 (o.compress 0)

/-- chunk number `i` of the input -/
def chunk (bytes : ByteArray) (i : Nat) : Output :=
  chunkFrom bytes (min bytes.size (1024 * (i + 1))) i.toUInt64 15 (1024 * i) chunkStart iv

def parent (left right : Output) : Output :=
  ⟨iv, left.compress 0 ++ right.compress 0, 0, 64, parentNode⟩

/-- the number of leaves in the left subtree of a tree of `n ≥ 2` leaves: the largest power of two below `n` -/
def leftLeaves (n : Nat) : Nat := 1 <<< (n - 1).log2

theorem leftLeaves_lt {n : Nat} (h : 2 ≤ n) : leftLeaves n < n := by
  have := Nat.log2_self_le (n := n - 1) (by omega)
  rw [leftLeaves, Nat.one_shiftLeft]
  omega

theorem leftLeaves_pos (n : Nat) : 0 < leftLeaves n := by
  rw [leftLeaves, Nat.one_shiftLeft]
  exact Nat.two_pow_pos _

/-- the root of the tree over leaves `first, …, first + count - 1` -/
def tree (bytes : ByteArray) (first count : Nat) : Output :=
  if 2 ≤ count then
    parent (tree bytes first (leftLeaves count)) (tree bytes (first + leftLeaves count) (count - leftLeaves count))
  else chunk bytes first
termination_by count
decreasing_by
  · exact leftLeaves_lt ‹_›
  · exact Nat.sub_lt (Nat.lt_of_lt_of_le Nat.two_pos ‹_›) (leftLeaves_pos count)

/-- the digest as eight words -/
def hash (bytes : ByteArray) : Words := (tree bytes 0 ((bytes.size + 1023) / 1024)).compress rootNode

def hexDigit (n : Nat) : Char := (Nat.toDigits 16 n).headD '0'

/-- a word's four bytes, least significant first, as hexadecimal digits -/
def wordHex (w : UInt32) : List Char :=
  (List.range 4).flatMap fun i =>
    let b := (w.toNat >>> (8 * i)) % 256
    [hexDigit (b / 16), hexDigit (b % 16)]

/-- the digest as 64 hexadecimal digits -/
def hexDigest (bytes : ByteArray) : String := String.ofList ((hash bytes).toList.flatMap wordHex)

end LiveFiles.Digest.Blake3
