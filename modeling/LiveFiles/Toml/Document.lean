/-
Reading a TOML document. The grammar is that of version 1.1 (line breaks and a last comma in inline tables, times
without seconds, `\e` and `\xHH` in quoted text). Arrays and inline tables may be nested `maxDepth` deep, which also
bounds the recursion. `Rows.grow` is the one rule for where a key may be added: it walks along the keys in front of
the last one and refuses to enter what is closed to it.
-/
import LiveFiles.Toml.Quoted
import LiveFiles.Toml.Scalar

namespace LiveFiles.Toml

/-! ### Growing tables -/

namespace Rows

/-- Change the table that `path` leads to, making the tables on the way that are not there yet; `viaDots` if the path was
written as a dotted key and not as a header. The change is told how the table came about. -/
def grow (viaDots : Bool) (change : Origin → Rows → Option Rows) : List String → Origin → Rows → Option Rows
  | [], origin, rows => change origin rows
  | key :: path, _, rows =>
    match rows.get? key with
    | none => do
      let origin := if viaDots then Origin.dotted else Origin.implied
      let inner ← grow viaDots change path origin []
      some (rows.put key (.table origin inner))
    | some (.table origin inner) =>
      if origin = .inline || (viaDots && origin = .header) then none
      else (grow viaDots change path origin inner).map fun inner => rows.put key (.table origin inner)
    | some (.array true items) =>
      match items.getLast? with
      | some (.table origin inner) =>
        (grow viaDots change path origin inner).map fun inner =>
          rows.put key (.array true (items.dropLast ++ [.table origin inner]))
      | _ => none
    | some _ => none

/-- Add a value under a dotted key: the last table on the way must have come about by dotted keys, unless the key has no
dots, and must not have the key yet. -/
def addValue (path : List String) (key : String) (v : Value) (origin : Origin) (rows : Rows) : Option Rows :=
  grow true (fun origin rows =>
    if decide (origin = .dotted) = path.isEmpty then none
    else if (rows.get? key).isSome then none
    else some (rows ++ [(key, v)])) path origin rows

end Rows

/-! ### Blanks, comments and line ends -/

/-- what remains after blanks on the line -/
def skipBlanks : List Char → List Char
  | c :: cs => if c = ' ' || c = '\t' then skipBlanks cs else c :: cs
  | [] => []

/-- What remains after blanks, comments and line breaks; nothing if a comment holds a control character. -/
def skipGap (inComment : Bool) : List Char → Option (List Char)
  | [] => some []
  | '\n' :: cs => skipGap false cs
  | '\r' :: '\n' :: cs => skipGap false cs
  | c :: cs =>
    if inComment then (if isPlain c then skipGap true cs else none)
    else if c = ' ' || c = '\t' then skipGap false cs
    else if c = '#' then skipGap true cs
    else some (c :: cs)

/-- what remains after the end of a line, before which there may be blanks and a comment -/
def skipLineEnd (inComment : Bool) : List Char → Option (List Char)
  | [] => some []
  | '\n' :: cs => some cs
  | '\r' :: '\n' :: cs => some cs
  | c :: cs =>
    if inComment then (if isPlain c then skipLineEnd true cs else none)
    else if c = ' ' || c = '\t' then skipLineEnd false cs
    else if c = '#' then skipLineEnd true cs
    else none

/-! ### Keys -/

def isBareKeyChar (c : Char) : Bool := c.isAlphanum || c = '-' || c = '_'

/-- one key in front, bare or quoted on one line -/
def simpleKey? (cs : List Char) : Option (String × List Char) :=
  match cs with
  | '"' :: '"' :: '"' :: _ => none
  | '\'' :: '\'' :: '\'' :: _ => none
  | '"' :: _ => quotedText? cs
  | '\'' :: _ => quotedText? cs
  | _ =>
    let key := cs.takeWhile isBareKeyChar
    if key.isEmpty then none else some (String.ofList key, cs.drop key.length)

/-- keys joined by dots, in at most `n` pieces, and what follows them and blanks -/
def dottedKey? : Nat → List Char → Option (List String × List Char)
  | 0, _ => none
  | n + 1, cs => do
    let (key, cs) ← simpleKey? (skipBlanks cs)
    match skipBlanks cs with
    | '.' :: cs => (dottedKey? n cs).map fun (keys, r) => (key :: keys, r)
    | cs => some ([key], cs)

/-- a dotted key: the keys in front, the last one, and what follows -/
def key? (cs : List Char) : Option (List String × String × List Char) := do
  let (keys, cs) ← dottedKey? (cs.length + 1) cs
  let last ← keys.getLast?
  some (keys.dropLast, last, cs)

/-! ### Values -/

/-- ends a value written without quotes -/
def endsScalar (c : Char) : Bool := " \t\r\n,]\x7d#=[\x7b\"\x27".toList.contains c

/-- a value without quotes in front; a date and a time may be one blank apart -/
def unquoted? (cs : List Char) : Option (Value × List Char) :=
  let word := cs.takeWhile (!endsScalar ·)
  let rest := cs.drop word.length
  match rest with
  | ' ' :: d :: _ =>
    if date? word = some [] && d.isDigit then
      let time := (rest.drop 1).takeWhile (!endsScalar ·)
      (scalar? (word ++ ' ' :: time)).map (·, rest.drop (1 + time.length))
    else (scalar? word).map (·, rest)
  | _ => (scalar? word).map (·, rest)

/-- the elements of an array up to its closing bracket, at most `n` of them -/
def arrayItems (value : List Char → Option (Value × List Char)) :
    Nat → List Char → Option (List Value × List Char)
  | 0, _ => none
  | n + 1, cs => do
    match ← skipGap false cs with
    | ']' :: cs => some ([], cs)
    | cs => do
      let (v, cs) ← value cs
      match ← skipGap false cs with
      | ',' :: cs => (arrayItems value n cs).map fun (vs, r) => (v :: vs, r)
      | ']' :: cs => some ([v], cs)
      | _ => none

/-- a key, an equals sign and a value in front: the keys before the last, the last, and the value -/
def keyValue? (value : List Char → Option (Value × List Char)) (cs : List Char) :
    Option (List String × String × Value × List Char) := do
  let (path, key, cs) ← key? cs
  match cs with
  | '=' :: cs => (value (skipBlanks cs)).map fun (v, r) => (path, key, v, r)
  | _ => none

/-- the rows of an inline table up to its closing brace, at most `n` more after `rows` -/
def inlineRows (value : List Char → Option (Value × List Char)) :
    Nat → Rows → List Char → Option (Rows × List Char)
  | 0, _, _ => none
  | n + 1, rows, cs => do
    match ← skipGap false cs with
    | '}' :: cs => some (rows, cs)
    | cs => do
      let (path, key, v, cs) ← keyValue? value cs
      let rows ← rows.addValue path key v .inline
      match ← skipGap false cs with
      | ',' :: cs => inlineRows value n rows cs
      | '}' :: cs => some (rows, cs)
      | _ => none

/-- how deep arrays and inline tables may be nested -/
def maxDepth : Nat := 80

/-- a value in front, in which arrays and inline tables are nested at most `depth` deep -/
def value? (depth : Nat) (cs : List Char) : Option (Value × List Char) :=
  match cs with
  | '"' :: _ => (quotedText? cs).map fun (s, r) => (.string s, r)
  | '\'' :: _ => (quotedText? cs).map fun (s, r) => (.string s, r)
  | '[' :: cs =>
    match depth with
    | 0 => none
    | depth + 1 => (arrayItems (value? depth) (cs.length + 1) cs).map fun (vs, r) => (.array false vs, r)
  | '{' :: cs =>
    match depth with
    | 0 => none
    | depth + 1 => (inlineRows (value? depth) (cs.length + 1) [] cs).map fun (rows, r) => (.table .inline rows, r)
  | cs => unquoted? cs

/-! ### Documents -/

/-- A document as far as it has been read: the tables closed so far, and the rows of the table being read with the header
that opened it: the keys in front, the last key, and whether it stood in double brackets. -/
structure Draft where
  closed : Rows := []
  header : Option (List String × String × Bool) := none
  rows : Rows := []

/-- put the table being read where its header says -/
def Draft.close (d : Draft) : Option Rows :=
  match d.header with
  | none => some d.rows
  | some (path, key, false) =>
    Rows.grow false (fun _ rows => some (rows ++ [(key, .table .header d.rows)])) path .header d.closed
  | some (path, key, true) =>
    Rows.grow false (fun _ rows =>
      match rows.get? key with
      | none => some (rows ++ [(key, .array true [.table .header d.rows])])
      | some (.array true items) => some (rows.put key (.array true (items ++ [.table .header d.rows])))
      | some _ => none) path .header d.closed

/-- the rows that a table has from longer headers before its own -/
def rowsAt : List String → Rows → Rows
  | [], rows => rows
  | key :: path, rows =>
    match rows.get? key with
    | some (.table _ inner) => rowsAt path inner
    | some (.array _ items) =>
      match items.getLast? with
      | some (.table _ inner) => rowsAt path inner
      | _ => []
    | _ => []

/-- Begin the table of a header. A table implied by a longer header keeps its rows; any other that is there already is
defined twice. -/
def Draft.open (d : Draft) (path : List String) (key : String) (ofTables : Bool) : Option Draft := do
  let closed ← d.close
  if ofTables then some { closed, header := some (path, key, true) }
  else
    let rest ← Rows.grow false (fun _ rows =>
      match rows.get? key with
      | none => some rows
      | some (.table .implied _) => some (Rows.erase key rows)
      | some _ => none) path .header closed
    let kept := match Rows.get? key (rowsAt path closed) with
      | some (.table .implied inner) => inner
      | _ => []
    some { closed := rest, header := some (path, key, false), rows := kept }

/-- a header in front, after its first bracket -/
def header? (cs : List Char) : Option (List String × String × Bool × List Char) :=
  match cs with
  | '[' :: cs => do
    let (path, key, cs) ← key? cs
    match cs with
    | ']' :: ']' :: cs => some (path, key, true, cs)
    | _ => none
  | cs => do
    let (path, key, cs) ← key? cs
    match cs with
    | ']' :: cs => some (path, key, false, cs)
    | _ => none

/-- read headers and key-value pairs, at most `n` of them -/
def lines : Nat → Draft → List Char → Option Rows
  | 0, _, _ => none
  | n + 1, d, cs => do
    match ← skipGap false cs with
    | [] => d.close
    | '[' :: cs => do
      let (path, key, ofTables, cs) ← header? cs
      let cs ← skipLineEnd false cs
      lines n (← d.open path key ofTables) cs
    | cs => do
      let (path, key, v, cs) ← keyValue? (value? maxDepth) cs
      let cs ← skipLineEnd false cs
      lines n { d with rows := ← d.rows.addValue path key v .header } cs

/-- The rows of a document; nothing if the text is no TOML document. A byte order mark in front does not count. -/
def document? (text : String) : Option Rows :=
  let cs := match text.toList with
    | c :: cs => if c.toNat = 0xFEFF then cs else c :: cs
    | [] => []
  lines (cs.length + 1) {} cs

end LiveFiles.Toml
