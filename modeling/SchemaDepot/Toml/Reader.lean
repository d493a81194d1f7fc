import SchemaDepot.Toml.Draft
import SchemaDepot.Toml.Scalar

/-! # Reading TOML documents

A document is a row of lines, each with a key and its value, with a header, or with neither. An
array goes on over line ends, an inline table does not.

* `Toml.value?`: the value in front of a text.
* `Toml.read`: the table of a document. -/

namespace SchemaDepot.Toml

/-- Keys must have fewer parts, and values nest less deep. -/
def nestingLimit : Nat := 80

/-! ### Keys -/

/-- A character of a key without quotes. -/
def isKeyChar (c : Char) : Bool := c.isAlphanum || c == '-' || c == '_'

/-- The part of a key in front. -/
def keyPart? (cs : List Char) : Option (String × List Char) :=
  match cs with
  | '"' :: _ | '\'' :: _ => Quoted.decodeShort? cs
  | cs =>
    let name := cs.takeWhile isKeyChar
    if name.isEmpty then none else some (String.ofList name, cs.dropWhile isKeyChar)

/-- The parts of a key in front, at most `n`, and the text after it and the spaces that follow. -/
def keyParts? : Nat → List Char → Option (List String × List Char)
  | 0, _ => none
  | n + 1, cs => do
    let (part, cs) ← keyPart? (skipSpaces cs)
    match skipSpaces cs with
    | '.' :: cs =>
      let (parts, rest) ← keyParts? n cs
      return (part :: parts, rest)
    | rest => return ([part], rest)

/-- A key: the way to its table, and the name there. -/
structure Key where
  path : List String
  name : String

/-- The key in front. -/
def Key.read? (cs : List Char) : Option (Key × List Char) := do
  let (parts, rest) ← keyParts? (nestingLimit - 1) cs
  return (⟨parts.dropLast, ← parts.getLast?⟩, rest)

/-! ### Values -/

/-- `cs` without the spaces, line ends and comments before it. In a comment, all goes up to the end
of its line but what must not stand there. -/
def skipFiller (inComment : Bool) : List Char → List Char
  | [] => []
  | c :: cs =>
    if c == '\n' || (c == '\r' && cs.head? == some '\n') then skipFiller false cs
    else if inComment then if isPlain c then skipFiller true cs else c :: cs
    else if c == '#' then skipFiller true cs
    else if isSpace c then skipFiller false cs
    else c :: cs

mutual

/-- The value in front, in at most `n` steps and with less than `room` values around each other. -/
def value? : Nat → Nat → List Char → Option (Value × List Char)
  | 0, _, _ => none
  | n + 1, room, cs =>
    match cs, room with
    | '[' :: _, 0 => none
    | '[' :: cs, room + 1 => (items? n room cs).map fun (items, rest) => (.array items, rest)
    | '{' :: _, 0 => none
    | '{' :: cs, room + 1 =>
      match skipSpaces cs with
      | '}' :: rest => some (.table [], rest)
      | cs => (pairs? n room [] cs).map fun (entries, rest) =>
        (.table (Draft.finishEntries entries), rest)
    | cs, _ => scalar? cs

/-- The items of an array up to its closing bracket. A comma may stand behind the last. -/
def items? : Nat → Nat → List Char → Option (List Value × List Char)
  | 0, _, _ => none
  | n + 1, room, cs =>
    match skipFiller false cs with
    | ']' :: rest => some ([], rest)
    | cs => do
      let (item, cs) ← value? n room cs
      match skipFiller false cs with
      | ']' :: rest => return ([item], rest)
      | ',' :: cs =>
        let (items, rest) ← items? n room cs
        return (item :: items, rest)
      | _ => none

/-- The entries of an inline table up to its closing brace, added to those before. -/
def pairs? : Nat → Nat → Draft.Entries → List Char → Option (Draft.Entries × List Char)
  | 0, _, _, _ => none
  | n + 1, room, before, cs => do
    let (key, cs) ← Key.read? cs
    match cs with
    | '=' :: cs =>
      let (v, cs) ← value? n room (skipSpaces cs)
      let entries ← Draft.putKey [] key.path key.name v before
      match skipSpaces cs with
      | '}' :: rest => return (entries, rest)
      | ',' :: cs => pairs? n room entries cs
      | _ => none
    | _ => none

end

/-! ### Lines -/

/-- The text after the end of a line, before which only spaces and a comment may stand. -/
def lineEnd? (inComment : Bool) : List Char → Option (List Char)
  | [] => some []
  | c :: cs =>
    if c == '\n' then some cs
    else if c == '\r' && cs.head? == some '\n' then some cs.tail
    else if inComment then if isPlain c then lineEnd? true cs else none
    else if c == '#' then lineEnd? true cs
    else if isSpace c then lineEnd? false cs
    else none

/-- What is read of a document: its entries, and the table that keys belong to. -/
structure Progress where
  entries : Draft.Entries := []
  table : List String := []

/-- What the line in front adds, and the text after its content. -/
def line? (p : Progress) (cs : List Char) : Option (Progress × List Char) :=
  match cs with
  | [] | '#' :: _ | '\n' :: _ | '\r' :: _ => some (p, cs)
  | '[' :: '[' :: cs => do
    let (key, cs) ← Key.read? cs
    match cs with
    | ']' :: ']' :: rest =>
      return (⟨← Draft.openRow key.path key.name p.entries, key.path ++ [key.name]⟩, rest)
    | _ => none
  | '[' :: cs => do
    let (key, cs) ← Key.read? cs
    match cs with
    | ']' :: rest =>
      return (⟨← Draft.openTable key.path key.name p.entries, key.path ++ [key.name]⟩, rest)
    | _ => none
  | cs => do
    let (key, cs) ← Key.read? cs
    match cs with
    | '=' :: cs =>
      let (v, rest) ← value? (2 * cs.length + 2) (nestingLimit - 1) (skipSpaces cs)
      return (⟨← Draft.putKey p.table key.path key.name v p.entries, p.table⟩, rest)
    | _ => none

/-- The entries of a document of at most `n` lines. -/
def lines? : Nat → Progress → List Char → Option Draft.Entries
  | 0, _, _ => none
  | n + 1, p, cs =>
    match skipSpaces cs with
    | [] => some p.entries
    | cs => do
      let (p, cs) ← line? p cs
      lines? n p (← lineEnd? false cs)

/-- The table of a document, a mark of the byte order in front being left out. -/
def read (text : String) : Option Entries :=
  let cs := match text.toList with
    | '\uFEFF' :: cs => cs
    | cs => cs
  (lines? (cs.length + 1) {} cs).map Draft.finishEntries

end SchemaDepot.Toml
