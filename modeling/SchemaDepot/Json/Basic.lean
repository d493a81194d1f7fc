/-! # JSON documents

A number keeps the text it is written with. A string whose escapes leave a surrogate without its
partner denotes no text; it is kept as `unpaired`, and so is an object with such a key.

* `Json.compact`, `Json.pretty`: the text of a document, on one line or indented by two blanks. -/

namespace SchemaDepot

/-- A JSON document. The members of an object keep their order and may repeat. -/
inductive Json where
  | null
  | bool (b : Bool)
  | number (literal : String)
  | string (s : String)
  | unpaired
  | array (items : List Json)
  | object (members : List (String × Json))

namespace Json

/-- A natural number. -/
def nat (n : Nat) : Json := .number (toString n)

/-- A text or null. -/
def ofOption (s : Option String) : Json := (s.map Json.string).getD .null

/-- A row of texts. -/
def strings (xs : List String) : Json := .array (xs.map .string)

/-- The value of the last member with a key. -/
def get? (key : String) : Json → Option Json
  | object members => (members.reverse.find? (·.1 == key)).map Prod.snd
  | _ => none

/-- How a character is written in a string: quotes, backslashes and controls are escaped. -/
def escapeChar (c : Char) : List Char :=
  if c = '"' then ['\\', '"']
  else if c = '\\' then ['\\', '\\']
  else if c = '\n' then ['\\', 'n']
  else if c = '\r' then ['\\', 'r']
  else if c = '\t' then ['\\', 't']
  else if c = '\x08' then ['\\', 'b']
  else if c = '\x0c' then ['\\', 'f']
  else if c.toNat < 0x10 then ['\\', 'u', '0', '0', '0', Nat.digitChar c.toNat]
  else if c.toNat < 0x20 then ['\\', 'u', '0', '0', '1', Nat.digitChar (c.toNat - 0x10)]
  else [c]

/-- A string between quotes. -/
def quote (s : String) : String := String.ofList ('"' :: s.toList.flatMap escapeChar ++ ['"'])

/-- The text of a document without a child. -/
def scalar : Json → String
  | bool true => "true"
  | bool false => "false"
  | number literal => literal
  | string s => quote s
  | _ => "null"

mutual

/-- The text of a document without blanks. -/
def compact : Json → String
  | array items => "[" ++ ",".intercalate (compactItems items) ++ "]"
  | object members => "\x7b" ++ ",".intercalate (compactMembers members) ++ "\x7d"
  | j => j.scalar

/-- The texts of the items of an array. -/
def compactItems : List Json → List String
  | [] => []
  | item :: items => item.compact :: compactItems items

/-- The texts of the members of an object. -/
def compactMembers : List (String × Json) → List String
  | [] => []
  | (key, value) :: members => (quote key ++ ":" ++ value.compact) :: compactMembers members

end

/-- Lines between brackets, the inner ones behind `indent` and two more blanks; the brackets alone
if there are none. -/
def bracketed (opening closing indent : String) (lines : List String) : String :=
  if lines.isEmpty then opening ++ closing
  else
    let inner := indent ++ "  "
    opening ++ "\n" ++ ",\n".intercalate (lines.map (inner ++ ·)) ++ "\n" ++ indent ++ closing

mutual

/-- The text of a document whose later lines stand behind `indent`. -/
def prettyFrom (indent : String) : Json → String
  | array items => bracketed "[" "]" indent (prettyItems (indent ++ "  ") items)
  | object members => bracketed "\x7b" "\x7d" indent (prettyMembers (indent ++ "  ") members)
  | j => j.scalar

/-- The texts of the items of an array. -/
def prettyItems (indent : String) : List Json → List String
  | [] => []
  | item :: items => item.prettyFrom indent :: prettyItems indent items

/-- The texts of the members of an object. -/
def prettyMembers (indent : String) : List (String × Json) → List String
  | [] => []
  | (key, value) :: members =>
    (quote key ++ ": " ++ value.prettyFrom indent) :: prettyMembers indent members

end

/-- The text of a document, indented by two blanks. -/
def pretty (j : Json) : String := j.prettyFrom ""

end Json

end SchemaDepot
