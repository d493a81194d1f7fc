import SchemaDepot.Toml.Quoted

/-! # Writing TOML documents

* `Sheet`: tables of plain values, each with a header.
* `Sheet.render`: its text. -/

namespace SchemaDepot.Toml

/-- A plain value as text. -/
def Plain.render : Plain → String
  | text s => Quoted.encode s
  | integer i => toString i
  | boolean true => "true"
  | boolean false => "false"

/-- Tables of plain values, with their names. -/
abbrev Sheet : Type := List (String × List (String × Plain))

namespace Sheet

/-- The line of a key. -/
def entryLine (key : String) (v : Plain) : String := key ++ " = " ++ v.render ++ "\n"

/-- The lines of a table. -/
def tableText (name : String) (entries : List (String × Plain)) : String :=
  "[" ++ name ++ "]\n" ++ String.join (entries.map fun (key, v) => entryLine key v)

/-- The text of all tables, with an empty line between two. Names and keys are written as they
are. -/
def render (s : Sheet) : String := "\n".intercalate (s.map fun (name, es) => tableText name es)

end Sheet

end SchemaDepot.Toml
