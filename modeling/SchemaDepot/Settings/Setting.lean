import SchemaDepot.Number.Shortest

/-! # What a setting can be

Settings from files and from the environment are read as what they look like and taken as what they
are needed for.

* `Setting`: what was read.
* `Setting.text?`, `Setting.natural?`, `Setting.flag?`, `Setting.choice?`: what it is taken for. -/

namespace SchemaDepot

/-- A setting as it was read. -/
inductive Setting where
  | nothing
  | boolean (b : Bool)
  | integer (i : Int)
  | number (f : Number.Binary64)
  | text (s : String)
  | list (items : List Setting)
  | table (entries : List (String × Setting))

namespace Setting

open Number

/-! ### Entries -/

/-- The setting of a key. -/
def find? (key : String) (entries : List (String × Setting)) : Option Setting :=
  (List.find? (·.1 == key) entries).map Prod.snd

/-- The entries with another setting for a key. -/
def put (key : String) (s : Setting) : List (String × Setting) → List (String × Setting)
  | [] => [(key, s)]
  | (k, t) :: rest => if k = key then (key, s) :: rest else (k, t) :: put key s rest

/-- A table of entries; of those with one key the last counts. -/
def ofEntries (entries : List (String × Setting)) : Setting :=
  .table (entries.foldl (fun es (key, s) => put key s es) [])

/-- The entries of a table; none, if it is no table. -/
def entries : Setting → List (String × Setting)
  | table entries => entries
  | _ => []

/-- The items of a list; none, if it is no list. -/
def items : Setting → List Setting
  | list items => items
  | _ => []

/-! ### Variables -/

/-- The text in lower case. Of the characters outside ASCII, only the Kelvin sign has a small letter
inside it. -/
def lower (s : String) : String :=
  String.ofList (s.toList.map fun c => if c = '\u212A' then 'k' else c.toLower)

/-- The value of a variable: a truth value, an integer or a number, if it looks like one. -/
def ofVariable (value : String) : Setting :=
  let cs := value.toList
  if lower value = "true" then .boolean true
  else if lower value = "false" then .boolean false
  else
    match integer? cs, Binary64.read? cs with
    | some i, _ => .integer i
    | none, some f => .number f
    | none, none => .text value

/-! ### What it is taken for -/

/-- The setting as a text. -/
def text? : Setting → Option String
  | text s => some s
  | boolean b => some (if b then "true" else "false")
  | integer i => some (toString i)
  | number f => some f.text
  | _ => none

/-- The words for yes and no. -/
def ofWord? (s : String) : Option Bool :=
  match lower s with
  | "true" | "on" | "yes" => some true
  | "false" | "off" | "no" => some false
  | _ => none

/-- The setting as a natural number of 64 bits. -/
def natural? : Setting → Option Nat
  | integer i => if 0 ≤ i then some i.toNat else none
  | boolean b => some b.toNat
  | number f => some (f.rounded (Nat.pow 2 64 - 1))
  | text s =>
    match ofWord? s with
    | some b => some b.toNat
    | none => Number.natural? (Nat.pow 2 64) s.toList
  | _ => none

/-- The setting as a truth value. -/
def flag? : Setting → Option Bool
  | boolean b => some b
  | integer i => some (i ≠ 0)
  | number f => some !f.isZero
  | text s =>
    if s = "1" then some true
    else if s = "0" then some false
    else ofWord? s
  | _ => none

/-- The setting as one of several words, in any case. A table with one entry stands for its key. -/
def choice? {α : Type} (words : List (String × α)) : Setting → Option α
  | text s => (words.find? (·.1 == lower s)).map Prod.snd
  | table [(key, _)] => (words.find? (·.1 == lower key)).map Prod.snd
  | _ => none

end Setting

end SchemaDepot
