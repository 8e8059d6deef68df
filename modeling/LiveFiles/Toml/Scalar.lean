/-
Values written without quotes: truth values, numbers, dates and times.
-/
import LiveFiles.Toml.Value

namespace LiveFiles.Toml

def digitValue? (base : Nat) (c : Char) : Option Nat :=
  let v? :=
    if '0' ≤ c && c ≤ '9' then some (c.toNat - '0'.toNat)
    else if 'a' ≤ c && c ≤ 'f' then some (c.toNat - 'a'.toNat + 10)
    else if 'A' ≤ c && c ≤ 'F' then some (c.toNat - 'A'.toNat + 10)
    else none
  v?.filter (· < base)

/-- the number that digits stand for, after the digits of `acc` -/
def number? (base acc : Nat) : List Char → Option Nat
  | [] => some acc
  | c :: cs => (digitValue? base c).bind fun d => number? base (acc * base + d) cs

/-- digits with underscores left out, each of which stood between two digits; at least one digit -/
def plainDigits? (base : Nat) : List Char → Option (List Char)
  | [] => none
  | [c] => if (digitValue? base c).isSome then some [c] else none
  | c :: '_' :: rest =>
    if (digitValue? base c).isSome then (plainDigits? base rest).map (c :: ·) else none
  | c :: rest => if (digitValue? base c).isSome then (plainDigits? base rest).map (c :: ·) else none

/-- decimal digits, more than one only if the first is not zero -/
def wholeDigits? (cs : List Char) : Option (List Char) :=
  (plainDigits? 10 cs).filter fun ds => ds.length = 1 || ds.head? ≠ some '0'

/-- a sign in front, and the rest -/
def splitSign : List Char → Bool × List Char
  | '+' :: cs => (false, cs)
  | '-' :: cs => (true, cs)
  | cs => (false, cs)

def integer? (cs : List Char) : Option Int :=
  match cs with
  | '0' :: 'x' :: ds => ((plainDigits? 16 ds).bind (number? 16 0)).map Int.ofNat
  | '0' :: 'o' :: ds => ((plainDigits? 8 ds).bind (number? 8 0)).map Int.ofNat
  | '0' :: 'b' :: ds => ((plainDigits? 2 ds).bind (number? 2 0)).map Int.ofNat
  | _ =>
    let (negative, ds) := splitSign cs
    ((wholeDigits? ds).bind (number? 10 0)).map fun n => if negative then -(n : Int) else n

/-- the text before the first character with a property, and what follows that character, if there is one -/
def cut (p : Char → Bool) : List Char → List Char × Option (List Char)
  | [] => ([], none)
  | c :: cs =>
    if p c then ([], some cs)
    else
      let (a, b) := cut p cs
      (c :: a, b)

def float? (cs : List Char) : Option FloatText := do
  let (_, cs) := splitSign cs
  if cs = ['i', 'n', 'f'] || cs = ['n', 'a', 'n'] then return .special
  let (mantissa, power) := cut (fun c => c = 'e' || c = 'E') cs
  let (whole, fraction) := cut (· = '.') mantissa
  if power.isNone && fraction.isNone then none
  let whole ← wholeDigits? whole
  let fraction ← match fraction with
    | none => some []
    | some ds => plainDigits? 10 ds
  let power ← match power with
    | none => some (0 : Int)
    | some ds => do
      let (negative, ds) := splitSign ds
      let n ← (plainDigits? 10 ds).bind (number? 10 0)
      some (if negative then -(n : Int) else n)
  let mantissa ← number? 10 0 (whole ++ fraction)
  return .decimal mantissa (power - fraction.length)

/-! ### Dates and times -/

/-- exactly `n` decimal digits in front, and the rest -/
def fixedDigits (n : Nat) (cs : List Char) : Option (Nat × List Char) := do
  let ds := cs.take n
  if ds.length = n then (number? 10 0 ds).map (·, cs.drop n) else none

def expect (c : Char) : List Char → Option (List Char)
  | c' :: cs => if c' = c then some cs else none
  | [] => none

def daysInMonth (year month : Nat) : Nat :=
  if month = 2 then (if year % 4 = 0 && (year % 100 ≠ 0 || year % 400 = 0) then 29 else 28)
  else if month = 4 || month = 6 || month = 9 || month = 11 then 30
  else 31

/-- a date in front, and the rest -/
def date? (cs : List Char) : Option (List Char) := do
  let (year, cs) ← fixedDigits 4 cs
  let cs ← expect '-' cs
  let (month, cs) ← fixedDigits 2 cs
  let cs ← expect '-' cs
  let (day, cs) ← fixedDigits 2 cs
  if 1 ≤ month && month ≤ 12 && 1 ≤ day && day ≤ daysInMonth year month then some cs else none

/-- a fraction of a second in front, if there is one, and the rest -/
def fraction? : List Char → Option (List Char)
  | '.' :: cs =>
    let digits := cs.takeWhile Char.isDigit
    if digits.isEmpty then none else some (cs.drop digits.length)
  | cs => some cs

/-- a time of day in front, and the rest; the seconds may be left out -/
def time? (cs : List Char) : Option (List Char) := do
  let (hour, cs) ← fixedDigits 2 cs
  let cs ← expect ':' cs
  let (minute, cs) ← fixedDigits 2 cs
  if hour > 23 || minute > 59 then none
  match cs with
  | ':' :: cs => do
    let (second, cs) ← fixedDigits 2 cs
    if second > 60 then none
    fraction? cs
  | cs => some cs

/-- the offset of a time from universal time: `Z`, or hours and minutes up to a day -/
def offset? (cs : List Char) : Bool :=
  match cs with
  | ['Z'] => true
  | ['z'] => true
  | sign :: cs =>
    (sign = '+' || sign = '-') &&
      ((do
        let (hours, cs) ← fixedDigits 2 cs
        let cs ← expect ':' cs
        let (minutes, cs) ← fixedDigits 2 cs
        some (cs.isEmpty && minutes ≤ 59 && hours * 60 + minutes ≤ 24 * 60)).getD false)
  | [] => false

/-- a date, a time, or both; only with both there may be an offset -/
def isMoment (cs : List Char) : Bool :=
  match date? cs with
  | some [] => true
  | some (sep :: cs) =>
    (sep = 'T' || sep = 't' || sep = ' ') &&
      (match time? cs with
      | some [] => true
      | some cs => offset? cs
      | none => false)
  | none => time? cs = some []

/-- a value written without quotes -/
def scalar? (cs : List Char) : Option Value :=
  if cs = "true".toList then some (.boolean true)
  else if cs = "false".toList then some (.boolean false)
  else match integer? cs with
    | some n => some (.integer n)
    | none => match float? cs with
      | some f => some (.float f)
      | none => if isMoment cs then some .moment else none

end LiveFiles.Toml
