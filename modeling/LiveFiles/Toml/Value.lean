/-
Values of a TOML document. A table remembers how it came about, because that decides what may still be added to it: a
table written inline is closed, a table opened by its own header may not be opened again, a table implied by a longer
header may still get its own, and a table implied by a dotted key grows by dotted keys only.
-/

namespace LiveFiles.Toml

/-- how a table came about -/
inductive Origin where
  | inline
  /-- opened by its own header -/
  | header
  /-- implied by a longer header -/
  | implied
  /-- implied by a dotted key -/
  | dotted
  deriving DecidableEq, Repr

/-- a number with a fraction or an exponent: `mantissa · 10 ^ exponent` less its sign, or an infinity or not a number -/
inductive FloatText where
  | decimal (mantissa : Nat) (exponent : Int)
  | special
  deriving DecidableEq, Repr

inductive Value where
  | string (s : String)
  | integer (n : Int)
  | float (f : FloatText)
  | boolean (b : Bool)
  /-- a date, a time, or both -/
  | moment
  /-- `ofTables` if it was written by headers in double brackets -/
  | array (ofTables : Bool) (items : List Value)
  | table (origin : Origin) (rows : List (String × Value))
  deriving Inhabited

/-- the rows of a table in the order of first mention -/
abbrev Rows := List (String × Value)

namespace Rows

def get? (key : String) : Rows → Option Value
  | [] => none
  | (k, v) :: rest => if k = key then some v else get? key rest

/-- replace the value under a key in place, or add a row -/
def put (key : String) (v : Value) : Rows → Rows
  | [] => [(key, v)]
  | (k, w) :: rest => if k = key then (k, v) :: rest else (k, w) :: put key v rest

def erase (key : String) (rows : Rows) : Rows := rows.filter fun r => r.1 ≠ key

end Rows

/-- Half the distance above the largest finite double: a decimal that reaches it is read as infinite. -/
def infiniteFrom : Nat := (1 <<< 1024) - (1 <<< 970)

/-- the decimal is read as an infinite double although it is none -/
def FloatText.overflows : FloatText → Bool
  | .special => false
  | .decimal m e =>
    if m = 0 then false
    else
      let size : Int := (Nat.toDigits 10 m).length + e
      if size > 310 then true
      else if size < 300 then false
      else if 0 ≤ e then infiniteFrom ≤ m * Nat.pow 10 e.toNat
      else infiniteFrom * Nat.pow 10 (-e).toNat ≤ m

mutual

/-- Every number in the value can be represented: integers in 128 bits, signed or not, floats as finite doubles. -/
def Value.readable : Value → Bool
  | .integer n => -((1 <<< 127 : Nat) : Int) ≤ n && n < ((1 <<< 128 : Nat) : Int)
  | .float f => !f.overflows
  | .array _ items => allReadable items
  | .table _ rows => rowsReadable rows
  | _ => true

def allReadable : List Value → Bool
  | [] => true
  | v :: rest => v.readable && allReadable rest

def rowsReadable : List (String × Value) → Bool
  | [] => true
  | (_, v) :: rest => v.readable && rowsReadable rest

end

end LiveFiles.Toml
