import SchemaDepot.Settings.Setting
import SchemaDepot.Text.Blank
import SchemaDepot.Text.CodePoint

/-! # Settings in sections

A text holds entries, and sections of entries under a name in brackets. An entry is a key, an equals
sign or a colon, and a value up to the end of the line, which is a text. Backslashes escape, and the
start of a value may be quoted. A comment starts a line.

* `Ini.readSetting`: the setting in a text. -/

namespace SchemaDepot.Ini

/-- What a character behind a backslash means. -/
def escaped : Char → List Char
  | '0' => ['\x00']
  | 'a' => ['\x07']
  | 'b' => ['\x08']
  | 't' => ['\t']
  | 'r' => ['\r']
  | 'n' => ['\n']
  | '\n' => []
  | c => [c]

/-- The characters up to one that stops them, what is escaped in them being replaced, and the text
from there. The end of the text stops them only if it may. -/
def upTo? (stops : Char → Bool) (mayEnd : Bool) : List Char → Option (List Char × List Char)
  | [] => if mayEnd then some ([], []) else none
  | '\\' :: 'x' :: a :: b :: c :: d :: cs => do
    let digits := if a = '+' then [b, c, d] else [a, b, c, d]
    let character ← Text.charOf? (← Text.hexNumber? 16 digits)
    let (more, rest) ← upTo? stops mayEnd cs
    return (character :: more, rest)
  | '\\' :: 'x' :: _ => none
  | '\\' :: c :: cs => do
    let (more, rest) ← upTo? stops mayEnd cs
    return (escaped c ++ more, rest)
  | c :: cs =>
    if stops c then some ([], c :: cs)
    else if c = '\\' then none
    else (upTo? stops mayEnd cs).map fun (more, rest) => (c :: more, rest)

/-- The end of a line starts here. -/
def isLineEnd (c : Char) : Bool := c == '\n' || c == '\r'

/-- The value in front, without the blanks around it. Its start may be quoted. -/
def value? (cs : List Char) : Option (List Char × List Char) := do
  let (start, cs) ← match cs with
    | c :: rest =>
      if c = '"' || c = '\'' then
        (upTo? (· == c) false rest).map fun (part, rest) => (part, rest.tail)
      else some ([], cs)
    | [] => some ([], [])
  let (line, rest) ← upTo? isLineEnd true cs
  return (Text.trimChars (start ++ line), rest)

/-- What is read of a text: the entries of the sections before, the section that entries belong to,
if one has started, with its entries, and the key that a value must follow. -/
structure Progress where
  entries : List (String × Setting) := []
  current : Option (String × List (String × Setting)) := none
  key : List Char := []

namespace Progress

/-- The entries of all sections. -/
def allEntries (p : Progress) : List (String × Setting) :=
  match p.current with
  | some (name, es) => Setting.put name (.table es) p.entries
  | none => p.entries

/-- A section starts. One of the same name before is left out. -/
def start (p : Progress) (name : String) : Progress :=
  { entries := p.allEntries, current := some (name, []), key := p.key }

/-- The value of the key. -/
def give (p : Progress) (value : List Char) : Progress :=
  let key := String.ofList p.key
  let s := Setting.text (String.ofList value)
  match p.current with
  | some (name, es) => { p with current := some (name, Setting.put key s es), key := [] }
  | none => { p with entries := Setting.put key s p.entries, key := [] }

end Progress

/-- `cs` without the blanks before it; it starts a line if it follows a line end, or if it did and
there are none. -/
def skipBlanks (startsLine : Bool) : List Char → Bool × List Char
  | [] => (startsLine, [])
  | c :: cs => if Text.isBlank c then skipBlanks (c == '\n') cs else (startsLine, c :: cs)

/-- All that is read of a text in at most `n` steps. -/
def entries? : Nat → Progress → Bool → List Char → Option Progress
  | 0, _, _, _ => none
  | n + 1, p, startsLine, cs =>
    let (startsLine, cs) := skipBlanks startsLine cs
    match cs with
    | [] => some p
    | c :: rest =>
      if c = ';' || c = '#' then
        if startsLine then entries? n p true (rest.dropWhile (· != '\n')).tail else none
      else if c = '[' then do
        let (name, rest) ← upTo? (· == ']') false rest
        entries? n (p.start (String.ofList (Text.trimChars name))) false rest.tail
      else if c = '=' || c = ':' then
        if p.key.isEmpty then none
        else do
          let isSpace (c : Char) : Bool := Text.isBlank c && !isLineEnd c
          let (value, rest) ← value? (rest.dropWhile isSpace)
          entries? n (p.give value) false rest
      else do
        let (key, rest) ← upTo? (fun c => c == '=' || c == ':') false cs
        entries? n { p with key := Text.trimChars key } false rest

/-- The setting in a text. -/
def readSetting (text : String) : Option Setting :=
  let cs := text.toList
  (entries? (cs.length + 1) {} true cs).map fun p => .table p.allEntries

end SchemaDepot.Ini
