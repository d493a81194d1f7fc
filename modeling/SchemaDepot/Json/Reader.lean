import SchemaDepot.Json.Number
import SchemaDepot.Text.CodePoint

/-! # Reading JSON documents

The grammar is that of the standard, with one document in a text and blanks around it. A value of
which `n` characters are left nests at most `n` deep, so that many levels are tried.

* `Json.read`: the document in a text.
* `Json.depth`, `Json.isStrict`: how deep a document nests, and whether its strings and numbers all
  denote something. -/

namespace SchemaDepot.Json

/-- The characters that may stand between the parts of a document. -/
def isBlank (c : Char) : Bool := c == ' ' || c == '\n' || c == '\r' || c == '\t'

/-- `cs` without the blanks before it. -/
def skipBlanks (cs : List Char) : List Char := cs.dropWhile isBlank

/-! ### Strings -/

/-- The number that four hexadecimal digits denote. -/
def hexUnit (a b c d : Char) : Option Nat := Text.hexNumber? 16 [a, b, c, d]

/-- The character that a backslash and one more character denote. -/
def simpleEscape : Char → Option Char
  | '"' => some '"'
  | '\\' => some '\\'
  | '/' => some '/'
  | 'b' => some '\x08'
  | 'f' => some '\x0c'
  | 'n' => some '\n'
  | 'r' => some '\r'
  | 't' => some '\t'
  | _ => none

/-- The numbers that the characters and escapes of a string denote, up to its closing quote, and
the text after that. -/
def stringUnits : List Char → Option (List Nat × List Char)
  | [] => none
  | '"' :: cs => some ([], cs)
  | '\\' :: 'u' :: a :: b :: c :: d :: cs => do
    let n ← hexUnit a b c d
    let (units, rest) ← stringUnits cs
    return (n :: units, rest)
  | '\\' :: c :: cs => do
    let e ← simpleEscape c
    let (units, rest) ← stringUnits cs
    return (e.toNat :: units, rest)
  | c :: cs =>
    if c.toNat < 0x20 || c == '\\' then none
    else (stringUnits cs).map fun (units, rest) => (c.toNat :: units, rest)

/-- The characters that code points and pairs of surrogates denote. -/
def charsOfUnits : List Nat → Option (List Char)
  | [] => some []
  | n :: ns =>
    match Text.charOf? n, ns with
    | some c, ns => (charsOfUnits ns).map (c :: ·)
    | none, [] => none
    | none, m :: ms =>
      if n < 0xDC00 && 0xDC00 ≤ m && m < 0xE000 then do
        let c ← Text.charOf? (0x10000 + (n - 0xD800) * 0x400 + (m - 0xDC00))
        return c :: (← charsOfUnits ms)
      else none

/-- The string of some units. -/
def ofUnits (units : List Nat) : Json :=
  match charsOfUnits units with
  | some cs => .string (String.ofList cs)
  | none => .unpaired

/-- The object of some members, if all their keys denote texts. -/
def ofMembers (members : List (Json × Json)) : Json :=
  let named := members.mapM fun
    | (.string key, value) => some (key, value)
    | _ => none
  (named.map .object).getD .unpaired

/-! ### Numbers -/

/-- A point and digits, or nothing. -/
def fraction : List Char → Option (List Char × List Char)
  | '.' :: cs =>
    let digits := cs.takeWhile Char.isDigit
    if digits.isEmpty then none else some ('.' :: digits, cs.dropWhile Char.isDigit)
  | cs => some ([], cs)

/-- An `e`, a sign or none, and digits, or nothing. -/
def exponent : List Char → Option (List Char × List Char)
  | c :: cs =>
    if c == 'e' || c == 'E' then
      let (sign, cs) := match cs with
        | s :: rest => if s == '+' || s == '-' then ([s], rest) else ([], cs)
        | [] => ([], [])
      let digits := cs.takeWhile Char.isDigit
      if digits.isEmpty then none else some (c :: sign ++ digits, cs.dropWhile Char.isDigit)
    else some ([], c :: cs)
  | [] => some ([], [])

/-- The literal of a number, and the text after it. -/
def numberLiteral (cs : List Char) : Option (List Char × List Char) := do
  let (sign, cs) := match cs with
    | '-' :: rest => (['-'], rest)
    | _ => ([], cs)
  let whole := cs.takeWhile Char.isDigit
  if whole.isEmpty || (whole.head? == some '0' && whole.length != 1) then none
  else
    let (fraction, cs) ← fraction (cs.dropWhile Char.isDigit)
    let (exponent, cs) ← exponent cs
    return (sign ++ whole ++ fraction ++ exponent, cs)

/-! ### Values -/

mutual

/-- The value at the front of a text, in at most `n` levels, and the text after it. -/
def value : Nat → List Char → Option (Json × List Char)
  | 0, _ => none
  | n + 1, cs =>
    match skipBlanks cs with
    | '"' :: cs => (stringUnits cs).map fun (units, rest) => (ofUnits units, rest)
    | 'n' :: 'u' :: 'l' :: 'l' :: cs => some (.null, cs)
    | 't' :: 'r' :: 'u' :: 'e' :: cs => some (.bool true, cs)
    | 'f' :: 'a' :: 'l' :: 's' :: 'e' :: cs => some (.bool false, cs)
    | '[' :: cs =>
      match skipBlanks cs with
      | ']' :: cs => some (.array [], cs)
      | cs => (items n cs).map fun (items, rest) => (.array items, rest)
    | '{' :: cs =>
      match skipBlanks cs with
      | '}' :: cs => some (.object [], cs)
      | cs => (members n cs).map fun (members, rest) => (ofMembers members, rest)
    | cs => (numberLiteral cs).map fun (literal, rest) => (.number (String.ofList literal), rest)

/-- The items of an array up to its closing bracket. -/
def items : Nat → List Char → Option (List Json × List Char)
  | 0, _ => none
  | n + 1, cs => do
    let (item, cs) ← value n cs
    match skipBlanks cs with
    | ']' :: cs => return ([item], cs)
    | ',' :: cs =>
      let (others, rest) ← items n cs
      return (item :: others, rest)
    | _ => none

/-- The members of an object up to its closing brace. -/
def members : Nat → List Char → Option (List (Json × Json) × List Char)
  | 0, _ => none
  | n + 1, cs => do
    match skipBlanks cs with
    | '"' :: cs =>
      let (units, cs) ← stringUnits cs
      let key := ofUnits units
      match skipBlanks cs with
      | ':' :: cs =>
        let (item, cs) ← value n cs
        match skipBlanks cs with
        | '}' :: cs => return ([(key, item)], cs)
        | ',' :: cs =>
          let (others, rest) ← members n cs
          return ((key, item) :: others, rest)
        | _ => none
      | _ => none
    | _ => none

end

/-- The document in a text. -/
def read (text : String) : Option Json := do
  let cs := text.toList
  let (j, rest) ← value (2 * cs.length + 2) cs
  if (skipBlanks rest).isEmpty then some j else none

/-! ### What a reader may demand -/

mutual

/-- How many arrays and objects a document nests. -/
def depth : Json → Nat
  | array items => 1 + itemsDepth items
  | object members => 1 + membersDepth members
  | _ => 0

/-- The greatest depth of some items. -/
def itemsDepth : List Json → Nat
  | [] => 0
  | j :: js => max j.depth (itemsDepth js)

/-- The greatest depth of the values of some members. -/
def membersDepth : List (String × Json) → Nat
  | [] => 0
  | (_, j) :: ms => max j.depth (membersDepth ms)

end

mutual

/-- Every string of a document denotes a text, and every number one of double precision. -/
def isStrict : Json → Bool
  | unpaired => false
  | number literal => (double? literal).isSome
  | array items => areStrict items
  | object members => membersAreStrict members
  | _ => true

/-- The same of some items. -/
def areStrict : List Json → Bool
  | [] => true
  | j :: js => j.isStrict && areStrict js

/-- The same of the values of some members. -/
def membersAreStrict : List (String × Json) → Bool
  | [] => true
  | (_, j) :: ms => j.isStrict && membersAreStrict ms

end

end SchemaDepot.Json
