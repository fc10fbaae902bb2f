import Retrace.Config.Value

/-!
# Tables of configuration files

The tables that a configuration file builds up. A key with dots goes through tables, which come to
be as they are needed. A table may be given its header once, and keys with dots only go through
tables that such keys have made, or that no header has been given for.
-/

namespace Retrace

/-- How a table came to be. -/
inductive TableOrigin where
  /-- It has a header, or it is that of the whole file. -/
  | header
  /-- A table in it has a header. -/
  | implied
  /-- A key with dots goes through it. -/
  | dotted
  deriving DecidableEq, Repr

/-- What belongs to a key while a file is read. -/
inductive Node where
  | value (v : Setting)
  | table (origin : TableOrigin) (entries : List (String × Node))
  /-- Tables in a list. Only the last one may still grow. -/
  | tables (earlier : List Setting) (last : List (String × Node))
  deriving Inhabited

/-- A key with dots, as the keys that it goes through and the last one. -/
structure KeyPath where
  path : List String
  key : String
  deriving DecidableEq, Repr

namespace Node

mutual

/-- The value of a key. -/
def toSetting : Node → Setting
  | value v => v
  | table _ entries => .table (settings entries)
  | tables earlier last => .list (earlier ++ [.table (settings last)])

/-- The values of keys. -/
def settings : List (String × Node) → List (String × Setting)
  | [] => []
  | (key, node) :: rest => (key, node.toSetting) :: settings rest

end

/-- Entries of a table. -/
abbrev Entries := List (String × Node)

namespace Entries

/-- Entries with one more, of a key that they do not have. -/
def insert? (entries : Entries) (key : String) (node : Node) : Option Entries :=
  if (entries.lookup key).isSome then none else some (entries ++ [(key, node)])

/-- Entries where a key that they have belongs to another node. -/
def set (entries : Entries) (key : String) (node : Node) : Entries :=
  entries.map fun e => if e.1 = key then (key, node) else e

/-- Changes the table that a path leads to. If `isDotted`, the path is that of a key with dots,
and else that of a header. -/
def change? (isDotted : Bool) (f : TableOrigin → Entries → Option Entries) (origin : TableOrigin)
    (entries : Entries) : List String → Option Entries
  | [] => f origin entries
  | key :: path =>
    match entries.lookup key with
    | none => do
      let origin := if isDotted then .dotted else .implied
      entries.insert? key (.table origin (← change? isDotted f origin [] path))
    | some (.table origin inner) =>
      if isDotted ∧ origin = .header then none
      else do return entries.set key (.table origin (← change? isDotted f origin inner path))
    | some (.tables earlier last) => do
      return entries.set key (.tables earlier (← change? isDotted f .header last path))
    | some (.value _) => none

/-- Adds a value to a table. A key with dots ends in a table that such keys have made. -/
def addValue? (k : KeyPath) (v : Setting) (origin : TableOrigin) (entries : Entries) :
    Option Entries :=
  let isDotted := !k.path.isEmpty
  change? isDotted (fun origin entries =>
    if origin = .dotted ↔ isDotted then entries.insert? k.key (.value v) else none)
    origin entries k.path

/-- Gives a table its header. -/
def addTable? (k : KeyPath) (entries : Entries) : Option Entries :=
  change? false (fun _ entries =>
    match entries.lookup k.key with
    | none => entries.insert? k.key (.table .header [])
    | some (.table .implied inner) => some (entries.set k.key (.table .header inner))
    | some _ => none)
    .header entries k.path

/-- Adds a table to a list of tables. -/
def addToTables? (k : KeyPath) (entries : Entries) : Option Entries :=
  change? false (fun _ entries =>
    match entries.lookup k.key with
    | none => entries.insert? k.key (.tables [] [])
    | some (.tables earlier last) =>
      some (entries.set k.key (.tables (earlier ++ [.table (settings last)]) []))
    | some _ => none)
    .header entries k.path

end Entries

end Node

end Retrace
