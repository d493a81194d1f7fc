import SchemaDepot.Settings.Setting

/-! # Layers of settings

A layer is a row of settings with the paths to them. Laid over others, a table is joined with the
one below it, key by key; anything else takes the place of what is below. In which case the letters
of a key are does not matter, except inside lists.

* `SettingPath.read?`: a path as text.
* `Setting.lay`: a setting at a path, over others.
* `Layer.ofVariables`: the layer of the environment. -/

namespace SchemaDepot

/-- A step down from a setting: to a key of a table, or to a place in a list; counted from the end,
if it is negative. -/
inductive SettingStep where
  | key (name : String)
  | place (index : Int)
deriving DecidableEq

/-- The steps to a setting. -/
abbrev SettingPath : Type := List SettingStep

namespace SettingPath

/-- The characters of a name. -/
def isNameChar (c : Char) : Bool := c.isAlphanum || c == ' ' || c == '_' || c == '-'

/-- The characters that may stand around a place. -/
def isSpace (c : Char) : Bool := c == ' ' || c == '\t'

/-- The place between brackets in front. -/
def place? (cs : List Char) : Option (Int × List Char) := do
  let cs := cs.dropWhile isSpace
  let (sign, cs) := match cs with
    | '-' :: rest => (['-'], rest)
    | cs => ([], cs)
  let index ← Number.integer? (sign ++ cs.takeWhile Char.isDigit)
  match (cs.dropWhile Char.isDigit).dropWhile isSpace with
  | ']' :: rest => some (index, rest)
  | _ => none

/-- The steps in a text, at most `n`. -/
def steps? : Nat → List Char → Option SettingPath
  | _, [] => some []
  | 0, _ => none
  | n + 1, '.' :: cs =>
    let name := cs.takeWhile isNameChar
    if name.isEmpty then none
    else (steps? n (cs.dropWhile isNameChar)).map (.key (String.ofList name) :: ·)
  | n + 1, '[' :: cs => do
    let (index, rest) ← place? cs
    return .place index :: (← steps? n rest)
  | _, _ => none

/-- The path that a text denotes: names with points between them, and places in brackets. -/
def read? (text : String) : Option SettingPath := steps? (text.length + 1) ('.' :: text.toList)

/-- The path of a text; one step, if it denotes none. -/
def read (text : String) : SettingPath := (read? text).getD [.key text]

end SettingPath

namespace Setting

mutual

/-- The table `below` with a setting laid over its key, which is in lower case there. -/
def layKey (key : String) (below : Setting) : Setting → Setting
  | table entries =>
    let key := lower key
    .table (put key (layEntries ((find? key below.entries).getD (.table [])) entries) below.entries)
  | s => .table (put (lower key) s below.entries)

/-- The setting `below` with entries laid over it. -/
def layEntries (below : Setting) : List (String × Setting) → Setting
  | [] => below
  | (key, s) :: rest => layEntries (layKey key below s) rest

end

/-- Lists are shorter. -/
def maxItems : Nat := Nat.pow 2 32

/-- The place in a list of some length that an index denotes; it may lie behind the end, but not
before the start. -/
def placeOf? (index : Int) (length : Nat) : Option Nat :=
  if 0 ≤ index then if index.toNat < maxItems then some index.toNat else none
  else if index.natAbs ≤ length then some (length - index.natAbs)
  else none

/-- The setting `below` with another laid over what a path leads to, unless the path leads to a
place that a list cannot have. -/
def lay (s : Setting) : SettingPath → Setting → Option Setting
  | [], _ => some s
  | [.key name], below => some (layKey name below s)
  | .key name :: path, below => do
    let key := lower name
    let inner ← lay s path ((find? key below.entries).getD .nothing)
    return .table (put key inner below.entries)
  | .place index :: path, below => do
    let i ← placeOf? index below.items.length
    let items := below.items ++ List.replicate (i + 1 - below.items.length) nothing
    return .list (items.set i (← lay s path (items[i]?.getD .nothing)))

end Setting

/-- Settings with the paths to them. -/
abbrev Layer : Type := List (String × Setting)

namespace Layer

/-- Settings with those of a layer laid over them, unless one has a place that a list cannot
have. -/
def cover (layer : Layer) (below : Setting) : Option Setting :=
  layer.foldlM (fun below (path, s) => Setting.lay s (SettingPath.read path) below) below

/-! ### The environment -/

/-- What the names of variables start with. -/
def variableStart : List Char := "idlreg__".toList

/-- Points for pairs of underscores. -/
def pointsForPairs : List Char → List Char
  | '_' :: '_' :: cs => '.' :: pointsForPairs cs
  | c :: cs => c :: pointsForPairs cs
  | [] => []

/-- The path in the name of a variable, if it is one for a setting. -/
def variablePath? (name : String) : Option String :=
  let cs := (Setting.lower name).toList
  if variableStart.isPrefixOf cs then
    some (String.ofList (pointsForPairs (cs.drop variableStart.length)))
  else none

/-- The layer of the environment. -/
def ofVariables (environment : List (String × String)) : Layer :=
  environment.filterMap fun (name, value) =>
    (variablePath? name).map fun path => (path, Setting.ofVariable value)

end Layer

end SchemaDepot
