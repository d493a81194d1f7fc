import SchemaDepot.Number.Binary64
import SchemaDepot.Text.CodePoint
import SchemaDepot.Yaml.Tag

/-! # Nodes of YAML documents

A plain scalar is nothing, a truth value, an integer or a number, if it looks like one; any other is
a text.

* `Yaml.Node`: what a document can hold.
* `Node.ofScalar`: what a scalar is.
* `Node.tableOf?`: the table that keys and values make. -/

namespace SchemaDepot.Yaml

open Number

/-- A document or a part of it. A number keeps its text; one that is missing has no value of the
type that its tag names, or stands for a node that is not complete. -/
inductive Node where
  | missing
  | nothing
  | boolean (b : Bool)
  | integer (i : Int)
  | number (literal : String)
  | text (s : String)
  | list (items : List Node)
  | table (entries : List (Node × Node))

namespace Node

/-! ### Scalars -/

/-- The integer of 64 bits that digits to a base denote; a sign may stand before them. -/
def based? (base : Nat) (digits : List Char) : Option Int := do
  let (negative, digits) := splitSign digits
  if digits.isEmpty then none
  else
    let n ← Text.hexNumber? base digits
    (some (if negative then -n else n : Int)).filter fits

/-- The integer that a text denotes. -/
def integer? (cs : List Char) : Option Int :=
  match cs with
  | '0' :: 'x' :: digits => based? 16 digits
  | '0' :: 'o' :: digits => based? 8 digits
  | '+' :: digits => Number.integer? digits
  | cs => Number.integer? cs

/-- The texts of numbers that are not finite. -/
def specials : List String :=
  [".inf", ".Inf", ".INF", "+.inf", "+.Inf", "+.INF", "-.inf", "-.Inf", "-.INF", ".nan", ".NAN"]

/-- The text looks like a number. -/
def isNumber (text : String) : Bool :=
  specials.contains text || (Binary64.read? text.toList).isSome

/-- What a plain scalar is. -/
def ofPlain (text : String) : Node :=
  match text, integer? text.toList with
  | "~", _ | "null", _ => nothing
  | "true", _ => boolean true
  | "false", _ => boolean false
  | _, some i => integer i
  | _, none => if isNumber text then number text else .text text

/-- What a plain scalar is whose tag names a core type. -/
def ofType (type text : String) : Node :=
  match type, text with
  | "bool", "true" => boolean true
  | "bool", "false" => boolean false
  | "bool", _ => missing
  | "int", _ => ((Number.integer? text.toList).map integer).getD missing
  | "float", _ => if isNumber text then number text else missing
  | "null", "~" | "null", "null" => nothing
  | "null", _ => missing
  | _, _ => .text text

/-- What a scalar is: a text, if it is not plain or has a tag that is none of the core. -/
def ofScalar (isPlain : Bool) (tag : Option Tag) (text : String) : Node :=
  match isPlain, tag with
  | true, none => ofPlain text
  | true, some tag => if tag.handle == Tag.coreStart then ofType tag.name text else .text text
  | false, _ => .text text

/-! ### Tables -/

mutual

/-- Two nodes are the same. -/
def isSame : Node → Node → Bool
  | missing, missing => true
  | nothing, nothing => true
  | boolean a, boolean b => a == b
  | integer i, integer j => i == j
  | number a, number b => a == b
  | text a, text b => a == b
  | list as, list bs => areSame as bs
  | table as, table bs => haveSame as bs
  | _, _ => false

/-- Two lists have the same items. -/
def areSame : List Node → List Node → Bool
  | [], [] => true
  | a :: as, b :: bs => isSame a b && areSame as bs
  | _, _ => false

/-- Two tables have the same entries in the same order. -/
def haveSame : List (Node × Node) → List (Node × Node) → Bool
  | [], [] => true
  | (a, x) :: as, (b, y) :: bs => isSame a b && isSame x y && haveSame as bs
  | _, _ => false

end

/-- The entries of keys and values in turn. A key that is missing is passed over, and what follows
it is a key in its place; a key at the end has no entry. -/
def pairs : List Node → List (Node × Node)
  | missing :: rest => pairs rest
  | key :: value :: rest => (key, value) :: pairs rest
  | _ => []

/-- No key stands twice. -/
def areDistinct : List (Node × Node) → Bool
  | [] => true
  | (key, _) :: entries => entries.all (fun (k, _) => !isSame key k) && areDistinct entries

/-- The table of keys and values in turn. -/
def tableOf? (nodes : List Node) : Option Node :=
  let entries := pairs nodes
  if areDistinct entries then some (table entries) else none

end Node

end SchemaDepot.Yaml
