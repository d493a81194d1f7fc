import SchemaDepot.Toml.Basic

/-! # Tables in the making

How a table came about decides what may still be added to it: a header of its own, a header further
down, or a key with dots.

* `Draft.putKey`: a key with a value, in the table of a header.
* `Draft.openTable`, `Draft.openRow`: a header of a table, or of a row in an array of tables.
* `Draft.finish`: the table when all is read. -/

namespace SchemaDepot.Toml

/-- How a table came about: by its own header, by a header further down, or by a key with dots. -/
inductive Origin where
  | header
  | implied
  | dotted
deriving DecidableEq

/-- What a key has so far: a value, a table, or tables in an array that may grow. -/
inductive Draft where
  | leaf (v : Value)
  | table (origin : Origin) (entries : List (String × Draft))
  | tables (rows : List (List (String × Draft)))

namespace Draft

/-- The entries of a table in the making. -/
abbrev Entries : Type := List (String × Draft)

/-- What a key has. -/
def find? (key : String) (es : Entries) : Option Draft := (List.find? (·.1 == key) es).map Prod.snd

/-- The entries with another value for a key that is there. -/
def replace (key : String) (d : Draft) (es : Entries) : Entries :=
  es.map fun e => if e.1 = key then (key, d) else e

/-- The entries with a change to the table at a path, or nothing if it must not be changed. Tables
that are not there come about on the way. Of an array of tables the last one is meant. A way of dots
must not lead through a table with a header. -/
def modify (isDotted : Bool) (change : Origin → Entries → Option Entries) :
    List String → Origin → Entries → Option Entries
  | [], origin, es => change origin es
  | key :: path, _, es =>
    match find? key es with
    | none => do
      let origin : Origin := if isDotted then .dotted else .implied
      return es ++ [(key, .table origin (← modify isDotted change path origin []))]
    | some (.leaf _) => none
    | some (.tables rows) => do
      let last ← modify isDotted change path .header (rows.getLast?.getD [])
      return replace key (.tables (rows.dropLast ++ [last])) es
    | some (.table origin inner) =>
      if isDotted && origin = .header then none
      else do return replace key (.table origin (← modify isDotted change path origin inner)) es

/-- The entries with a new key, unless it is there already, or dots lead to a table that they did
not make. -/
def addKey (hasPath : Bool) (key : String) (v : Value) (origin : Origin) (es : Entries) :
    Option Entries :=
  if hasPath && origin ≠ .dotted then none
  else if (find? key es).isSome then none
  else some (es ++ [(key, .leaf v)])

/-- The entries with a key behind a way of dots, in the table that the header `table` leads to. -/
def putKey (table path : List String) (key : String) (v : Value) (es : Entries) : Option Entries :=
  modify false (fun _ es => modify true (addKey (!path.isEmpty) key v) path .header es)
    table .header es

/-- The entries with a table of a header, unless there is something else than what headers further
down made. -/
def addTable (key : String) (_ : Origin) (es : Entries) : Option Entries :=
  match find? key es with
  | none => some (es ++ [(key, .table .header [])])
  | some (.table .implied inner) => some (replace key (.table .header inner) es)
  | some _ => none

/-- The entries with one more row in an array of tables, unless there is something else. -/
def addRow (key : String) (_ : Origin) (es : Entries) : Option Entries :=
  match find? key es with
  | none => some (es ++ [(key, .tables [[]])])
  | some (.tables rows) => some (replace key (.tables (rows ++ [[]])) es)
  | some _ => none

/-- The entries with the table of a header. -/
def openTable (path : List String) (key : String) (es : Entries) : Option Entries :=
  modify false (addTable key) path .header es

/-- The entries with the row of a header. -/
def openRow (path : List String) (key : String) (es : Entries) : Option Entries :=
  modify false (addRow key) path .header es

mutual

/-- The value of what is complete. -/
def finish : Draft → Value
  | leaf v => v
  | table _ entries => .table (finishEntries entries)
  | tables rows => .array (finishRows rows)

/-- The entries of what is complete. -/
def finishEntries : List (String × Draft) → List (String × Value)
  | [] => []
  | (key, d) :: es => (key, d.finish) :: finishEntries es

/-- The tables of an array that is complete. -/
def finishRows : List (List (String × Draft)) → List Value
  | [] => []
  | row :: rows => .table (finishEntries row) :: finishRows rows

end

end Draft

end SchemaDepot.Toml
