/-
Settings as a configuration file gives them, before anything is checked but their form. The file is a TOML document
with the sections `watcher`, `sync` and `watch`; every section and every field may be left out, and what is not known
is passed over. A section may be written as a table or as an array of its fields in order; the policy by its name or
as a table with that name as its only key.
-/
import LiveFiles.Config.Policy
import LiveFiles.Path
import LiveFiles.Toml.Document

namespace LiveFiles

structure Settings where
  /-- quiet period before an event of the watcher is delivered -/
  debounceMs : Nat := 200
  unwatchedWrites : WritePolicy := .allow
  /-- paths to watch from the start -/
  paths : List Path := []
  deriving DecidableEq, Repr

namespace Settings

open Toml

/-- The fields of a section that are given, in any of the forms of a section. Values under unknown names are passed over,
but must be readable; a date has no known fields. -/
def fields? (names : List String) : Value → Option Rows
  | .table _ rows =>
    if rowsReadable (rows.filter fun r => !names.contains r.1) then some (rows.filter fun r => names.contains r.1)
    else none
  | .array _ items => some (names.zip items)
  | .moment => some []
  | _ => none

/-- a section with one field: the default if the field is not given -/
def section? {α : Type} (name : String) (read : Value → Option α) (default : α) (v : Value) : Option α := do
  match Rows.get? name (← fields? [name] v) with
  | some field => read field
  | none => some default

def debounce? : Value → Option Nat
  | .integer n => if 0 ≤ n && n < UInt64.size then some n.toNat else none
  | _ => none

def policy? : Value → Option WritePolicy
  | .string s => WritePolicy.ofName? s
  | .table _ [(name, .table _ [])] => WritePolicy.ofName? name
  | .table _ [(name, .array _ [])] => WritePolicy.ofName? name
  | _ => none

def path? : Value → Option Path
  | .string s => some ⟨s⟩
  | _ => none

def paths? : Value → Option (List Path)
  | .array _ items => items.mapM path?
  | _ => none

/-- the value under a name read as a section, or the default -/
def given? {α : Type} (rows : Rows) (name : String) (read : Value → Option α) (default : α) : Option α :=
  match rows.get? name with
  | some v => read v
  | none => some default

def ofRows? (rows : Rows) : Option Settings := do
  let rows ← fields? ["watcher", "sync", "watch"] (.table .header rows)
  let debounceMs ← given? rows "watcher" (section? "debounce_ms" debounce? 200) 200
  let unwatchedWrites ← given? rows "sync" (section? "unwatched_writes" policy? .allow) .allow
  let paths ← given? rows "watch" (section? "paths" paths? []) []
  some { debounceMs, unwatchedWrites, paths }

/-- settings from the text of a configuration file -/
def ofText? (text : String) : Option Settings := (document? text).bind ofRows?

end Settings

end LiveFiles
