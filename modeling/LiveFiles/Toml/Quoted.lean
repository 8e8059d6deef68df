/-
Quoted text in a TOML document. Each function is given what follows the opening quotes and returns the text and what
follows the closing ones. Three quotes open a text of several lines: a line break right after them does not count, and
a backslash at the end of a line joins it to the next word.
-/

namespace LiveFiles.Toml

/-- may stand in a text as it is: everything but control characters, a tab excepted -/
def isPlain (c : Char) : Bool := c = '\t' || (0x20 ≤ c.toNat && c.toNat ≠ 0x7F)

/-- the character with the code point that hexadecimal digits stand for -/
def codePoint? (ds : List Char) : Option Char := do
  let n ← ds.foldlM (fun acc c =>
    (if '0' ≤ c && c ≤ '9' then some (c.toNat - '0'.toNat)
    else if 'a' ≤ c && c ≤ 'f' then some (c.toNat - 'a'.toNat + 10)
    else if 'A' ≤ c && c ≤ 'F' then some (c.toNat - 'A'.toNat + 10)
    else none).map (acc * 16 + ·)) 0
  if n < 0xD800 || (0xDFFF < n && n < 0x110000) then some (Char.ofNat n) else none

/-- the character that a letter after a backslash stands for -/
def escapeLetter? : Char → Option Char
  | 'b' => some '\x08'
  | 't' => some '\t'
  | 'n' => some '\n'
  | 'f' => some '\x0c'
  | 'r' => some '\r'
  | 'e' => some '\x1b'
  | '"' => some '"'
  | '\\' => some '\\'
  | _ => none

/-- where reading stands: in the text, or after a backslash that joins lines, before or after the first line break -/
inductive Join where
  | text
  | lineEnd
  | lineStart
  deriving DecidableEq

abbrev Read := Option (List Char × List Char)

def Read.cons (c : Char) (r : Read) : Read := r.map fun (cs, rest) => (c :: cs, rest)

/-- The end of a text of several lines: up to two quotes before the closing three belong to the text. -/
def closing (q : Char) : List Char → List Char × List Char
  | a :: b :: rest =>
    if a = q && b = q then ([q, q], rest) else if a = q then ([q], b :: rest) else ([], a :: b :: rest)
  | [a] => if a = q then ([q], []) else ([], [a])
  | [] => ([], [])

/-- text between double quotes; `lines` if it may have several lines -/
def basicText (lines : Bool) : Join → List Char → Read
  | _, [] => none
  | .lineEnd, c :: cs =>
    if c = ' ' || c = '\t' then basicText lines .lineEnd cs
    else if c = '\n' then basicText lines .lineStart cs
    else match c, cs with
      | '\r', '\n' :: cs => basicText lines .lineStart cs
      | _, _ => none
  | mode, c :: cs =>
    if mode = .lineStart && (c = ' ' || c = '\t' || c = '\n') then basicText lines .lineStart cs
    else if c = '"' then
      if !lines then some ([], cs)
      else match cs with
        | '"' :: '"' :: cs => some (closing '"' cs)
        | cs => Read.cons '"' (basicText lines .text cs)
    else if c = '\\' then
      match cs with
      | 'x' :: a :: b :: cs => (codePoint? [a, b]).bind fun ch => Read.cons ch (basicText lines .text cs)
      | 'u' :: a :: b :: d :: e :: cs =>
        (codePoint? [a, b, d, e]).bind fun ch => Read.cons ch (basicText lines .text cs)
      | 'U' :: a :: b :: d :: e :: f :: g :: h :: i :: cs =>
        (codePoint? [a, b, d, e, f, g, h, i]).bind fun ch => Read.cons ch (basicText lines .text cs)
      | x :: cs =>
        match escapeLetter? x with
        | some ch => Read.cons ch (basicText lines .text cs)
        | none =>
          if !lines then none
          else if x = ' ' || x = '\t' then basicText lines .lineEnd cs
          else if x = '\n' then basicText lines .lineStart cs
          else if x = '\r' then
            match cs with
            | '\n' :: cs => basicText lines .lineStart cs
            | _ => none
          else none
      | [] => none
    else if lines && c = '\n' then Read.cons '\n' (basicText lines .text cs)
    else if lines && c = '\r' then
      match cs with
      | '\n' :: cs =>
        if mode = .lineStart then basicText lines .lineStart cs
        else Read.cons '\r' (Read.cons '\n' (basicText lines .text cs))
      | _ => none
    else if isPlain c then Read.cons c (basicText lines .text cs)
    else none

/-- text between single quotes, in which a backslash means itself -/
def literalText (lines : Bool) : List Char → Read
  | [] => none
  | c :: cs =>
    if c = '\'' then
      if !lines then some ([], cs)
      else match cs with
        | '\'' :: '\'' :: cs => some (closing '\'' cs)
        | cs => Read.cons '\'' (literalText lines cs)
    else if lines && c = '\n' then Read.cons '\n' (literalText lines cs)
    else if lines && c = '\r' then
      match cs with
      | '\n' :: cs => Read.cons '\r' (Read.cons '\n' (literalText lines cs))
      | _ => none
    else if isPlain c then Read.cons c (literalText lines cs)
    else none

/-- a line break right after the opening quotes does not count -/
def dropFirstBreak : List Char → List Char
  | '\n' :: cs => cs
  | '\r' :: '\n' :: cs => cs
  | cs => cs

/-- quoted text in front, of several lines or of one -/
def quotedText? : List Char → Option (String × List Char)
  | '"' :: '"' :: '"' :: cs => (basicText true .text (dropFirstBreak cs)).map fun (t, r) => (String.ofList t, r)
  | '"' :: cs => (basicText false .text cs).map fun (t, r) => (String.ofList t, r)
  | '\'' :: '\'' :: '\'' :: cs => (literalText true (dropFirstBreak cs)).map fun (t, r) => (String.ofList t, r)
  | '\'' :: cs => (literalText false cs).map fun (t, r) => (String.ofList t, r)
  | _ => none

end LiveFiles.Toml
