/-
The command line. Words are read from left to right. A word that may still get values (an option waiting for its
value, or a run of paths) is pending; its values are taken over, and checked, only when the next known option begins
or the line ends, so an unknown option is reported before a wrong value in front of it. After `--` every word is a
path.
-/
import LiveFiles.Command.LogLevel
import LiveFiles.Path

namespace LiveFiles.Command

structure Args where
  config : Option Path := none
  once : Bool := false
  logLevel : Option LogLevel := none
  dryRun : Bool := false
  paths : List Path := []
  deriving DecidableEq, Repr

/-- why a command line is not carried out -/
inductive Usage where
  | unknownArgument
  /-- an option lacks its value, or a value is empty or not one of those allowed -/
  | invalidValue
  /-- an option is given twice -/
  | argumentConflict
  /-- a flag is given a value -/
  | tooManyValues
  /-- help is asked for; `long` if in full -/
  | help (long : Bool)
  | version
  deriving DecidableEq, Repr

def Usage.kind : Usage → String
  | .unknownArgument => "UnknownArgument"
  | .invalidValue => "InvalidValue"
  | .argumentConflict => "ArgumentConflict"
  | .tooManyValues => "TooManyValues"
  | .help _ => "DisplayHelp"
  | .version => "DisplayVersion"

/-- the options that take a value -/
inductive ValueOption where
  | config
  | logLevel
  deriving DecidableEq, Repr

/-- the options that take none -/
inductive Flag where
  | once
  | dryRun
  | help
  | version
  deriving DecidableEq, Repr

inductive Pending where
  | nothing
  | value (o : ValueOption) (given : Option String)
  | paths (given : List String)
  deriving DecidableEq, Repr

/-- a command line as far as it has been read -/
structure Reading where
  args : Args := {}
  pending : Pending := .nothing
  /-- everything else is a path -/
  literal : Bool := false

namespace Reading

/-- give an option its value; a second one is refused before it is looked at -/
def setValue (a : Args) : ValueOption → String → Except Usage Args
  | .config, v =>
    if a.config.isSome then .error .argumentConflict
    else if v.isEmpty then .error .invalidValue
    else .ok { a with config := some ⟨v⟩ }
  | .logLevel, v =>
    if a.logLevel.isSome then .error .argumentConflict
    else match LogLevel.ofName? v with
      | some l => .ok { a with logLevel := some l }
      | none => .error .invalidValue

def setFlag (a : Args) : Flag → Except Usage Args
  | .once => if a.once then .error .argumentConflict else .ok { a with once := true }
  | .dryRun => if a.dryRun then .error .argumentConflict else .ok { a with dryRun := true }
  | .help => .error (.help true)
  | .version => .error .version

/-- take over what is pending -/
def settle (r : Reading) : Except Usage Reading :=
  match r.pending with
  | .nothing => .ok r
  | .value _ none => .error .invalidValue
  | .value o (some v) => (setValue r.args o v).map fun a => { r with args := a, pending := .nothing }
  | .paths vs =>
    if vs.any (·.isEmpty) then .error .invalidValue
    else .ok { r with args := { r.args with paths := r.args.paths ++ vs.map Path.mk }, pending := .nothing }

def flag (r : Reading) (f : Flag) : Except Usage Reading := do
  let r ← r.settle
  return { r with args := ← setFlag r.args f }

/-- an option with its value attached, or waiting for it -/
def option (r : Reading) (o : ValueOption) (attached : Option String) : Except Usage Reading := do
  let r ← r.settle
  match attached with
  | some v => return { r with args := ← setValue r.args o v }
  | none => return { r with pending := .value o none }

/-- a word that is no option: the value that is waited for, or a path -/
def plain (r : Reading) (w : String) : Except Usage Reading :=
  match r.pending, r.literal with
  | .value o none, false => .ok { r with pending := .value o (some w) }
  | .paths vs, _ => .ok { r with pending := .paths (vs ++ [w]) }
  | _, _ => do
    let r ← r.settle
    return { r with pending := .paths [w] }

/-- an option written with two dashes: its name, and the value after an equals sign -/
def long (r : Reading) (name : String) (attached : Option String) : Except Usage Reading :=
  let flagOf (f : Flag) := if attached.isSome then .error .tooManyValues else r.flag f
  if name = "config" then r.option .config attached
  else if name = "log-level" then r.option .logLevel attached
  else if name = "once" then flagOf .once
  else if name = "dry-run" then flagOf .dryRun
  else if name = "help" then flagOf .help
  else if name = "version" then flagOf .version
  else .error .unknownArgument

/-- an option written with one dash; the two there are end the reading -/
def short (r : Reading) (c : Char) : Except Usage Reading :=
  if c = 'h' then do
    let _ ← r.settle
    throw (.help false)
  else if c = 'V' then r.flag .version
  else .error .unknownArgument

/-- the text before the first equals sign, and the text after it -/
def splitEquals : List Char → List Char × Option (List Char)
  | [] => ([], none)
  | c :: cs =>
    if c = '=' then ([], some cs)
    else
      let (a, b) := splitEquals cs
      (c :: a, b)

def word (r : Reading) (w : String) : Except Usage Reading :=
  if r.literal then r.plain w
  else match w.toList with
    | ['-', '-'] => .ok { r with literal := true }
    | '-' :: '-' :: cs =>
      let (name, value) := splitEquals cs
      r.long (String.ofList name) (value.map String.ofList)
    | '-' :: c :: _ => r.short c
    | _ => r.plain w

end Reading

/-- read a command line, less the name of the program -/
def Args.parse (words : List String) : Except Usage Args := do
  let r ← words.foldlM Reading.word {}
  let r ← r.settle
  return r.args

end LiveFiles.Command
