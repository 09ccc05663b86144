import Noticeboard.Document.Value

/-!
# Tables of configuration files

A configuration file is a tree of tables. A table is opened by a header, comes into being because a
header names a table inside it, or because a dotted key does. A header opens a table only once, and
a dotted key may not reach into a table that a header opened. A header with double brackets starts
one more table in a row of tables; what comes after belongs to the last table of the row.
-/

namespace Noticeboard.Toml

/-- How a table came into being. -/
inductive Origin where
  /-- By a header of its own. -/
  | header
  /-- By a header of a table inside it. -/
  | path
  /-- By a dotted key. -/
  | dotted
deriving DecidableEq

/-- What stands under a name. -/
inductive Item where
  | value (v : Value)
  | table (origin : Origin) (entries : List (String × Item))
  | tables (all : List (List (String × Item)))

/-- What stands in a table. -/
abbrev Entries := List (String × Item)

namespace Entries

/-- Puts an item under a name that is there already. -/
def replace (es : Entries) (name : String) (item : Item) : Entries :=
  es.map fun e => if e.1 == name then (name, item) else e

/-- Changes the table at the end of a path, which is made if it is not there. `dotted` tells whether
the path belongs to a dotted key. -/
def change (dotted : Bool) (f : Origin → Entries → Option Entries) :
    List String → Origin → Entries → Option Entries
  | [], origin, es => f origin es
  | name :: path, _, es =>
    match es.lookup name with
    | none =>
      let origin := if dotted then Origin.dotted else .path
      (change dotted f path origin []).map fun inner => es ++ [(name, .table origin inner)]
    | some (.value _) => none
    | some (.table origin inner) =>
      if dotted && origin == .header then none
      else
        (change dotted f path origin inner).map fun inner => es.replace name (.table origin inner)
    | some (.tables all) =>
      all.getLast?.bind fun last =>
        (change dotted f path .header last).map fun last =>
          es.replace name (.tables (all.dropLast ++ [last]))

/-- Opens a table. One that a header opened or a dotted key made cannot be opened. -/
def openTable (name : String) (es : Entries) : Option Entries :=
  match es.lookup name with
  | none => some (es ++ [(name, .table .header [])])
  | some (.table .path inner) => some (es.replace name (.table .header inner))
  | some _ => none

/-- Starts one more table in a row. -/
def openNext (name : String) (es : Entries) : Option Entries :=
  match es.lookup name with
  | none => some (es ++ [(name, .tables [[]])])
  | some (.tables all) => some (es.replace name (.tables (all ++ [[]])))
  | some _ => none

/-- Puts a value under a dotted key. The table it goes to must have been made by a dotted key,
unless the key is a single name; and nothing may stand there yet. -/
def put (key : List String) (v : Value) (origin : Origin) (es : Entries) : Option Entries :=
  key.getLast?.bind fun name =>
    change true
      (fun origin inner =>
        if (origin == .dotted) == key.dropLast.isEmpty then none
        else if (inner.lookup name).isSome then none
        else some (inner ++ [(name, .value v)]))
      key.dropLast origin es

end Entries

mutual

/-- The document that an item stands for. -/
def Item.toValue : Item → Value
  | .value v => v
  | .table _ entries => .object (entryValues entries)
  | .tables all => .array (tableValues all)

/-- The documents of the items of a table. -/
def entryValues : List (String × Item) → List (Option String × Value)
  | [] => []
  | (name, item) :: rest => (some name, item.toValue) :: entryValues rest

/-- The documents of tables. -/
def tableValues : List (List (String × Item)) → List Value
  | [] => []
  | entries :: rest => .object (entryValues entries) :: tableValues rest

end

/-- The document that a table stands for. -/
def Entries.toValue (es : Entries) : Value := .object (entryValues es)

end Noticeboard.Toml
