import SchemaDepot.Number.Binary64

/-! # TOML documents

* `Toml.Value`: what a key can have.
* `Toml.Plain`: the values that stand on one line and nest nothing. -/

namespace SchemaDepot.Toml

/-- A day. -/
structure Date where
  year : Nat
  month : Nat
  day : Nat
deriving DecidableEq

/-- A time of a day. -/
structure Time where
  hour : Nat
  minute : Nat
  second : Nat
  nanosecond : Nat
deriving DecidableEq

/-- How far a clock is from universal time. -/
inductive Offset where
  | universal
  | minutes (minutes : Int)
deriving DecidableEq

/-- A day, a time, or both; with both, an offset may stand too. -/
structure Moment where
  date : Option Date := none
  time : Option Time := none
  offset : Option Offset := none
deriving DecidableEq

/-- A value. The entries of a table keep their order, and their keys are distinct. -/
inductive Value where
  | text (s : String)
  | integer (i : Int)
  | float (f : Number.Binary64)
  | boolean (b : Bool)
  | moment (m : Moment)
  | array (items : List Value)
  | table (entries : List (String × Value))

/-- The entries of a table. -/
abbrev Entries : Type := List (String × Value)

/-- A value that is a text, an integer or a truth value. -/
inductive Plain where
  | text (s : String)
  | integer (i : Int)
  | boolean (b : Bool)
deriving DecidableEq

/-- The value as one of all values. -/
def Plain.toValue : Plain → Value
  | text s => .text s
  | integer i => .integer i
  | boolean b => .boolean b

/-! ### Characters -/

/-- The characters that may stand between the parts of a line. -/
def isSpace (c : Char) : Bool := c == ' ' || c == '\t'

/-- `cs` without the spaces before it. -/
def skipSpaces (cs : List Char) : List Char := cs.dropWhile isSpace

/-- The characters that may stand in comments, and between quotes as themselves: all but controls,
among which a tab does not count. -/
def isPlain (c : Char) : Bool := c == '\t' || (0x20 ≤ c.toNat && c.toNat != 0x7F)

/-- The text after the end of a line in front. -/
def newline? : List Char → Option (List Char)
  | '\n' :: cs => some cs
  | '\r' :: '\n' :: cs => some cs
  | _ => none

end SchemaDepot.Toml
