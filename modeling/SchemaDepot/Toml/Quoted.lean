import SchemaDepot.Text.CodePoint
import SchemaDepot.Toml.Basic

/-! # Quoted texts

A text stands between double quotes, with backslashes that escape, or between single ones, where
every character means itself. Between three quotes it may hold line ends, and quotes of which no
three follow each other; a line end right behind the opening quotes does not count.

* `Quoted.encode`: a text in quotes. Escapes are avoided if there is a form without them.
* `Quoted.decode?`: the quoted text in front. -/

namespace SchemaDepot.Toml.Quoted

/-- A form of quotes. -/
structure Form where
  quote : Char
  isLong : Bool
deriving DecidableEq

namespace Form

/-- Double quotes: backslashes escape. -/
def basic : Form := ⟨'"', false⟩

/-- Single quotes. -/
def literal : Form := ⟨'\'', false⟩

/-- Three double quotes. -/
def longBasic : Form := ⟨'"', true⟩

/-- Three single quotes. -/
def longLiteral : Form := ⟨'\'', true⟩

/-- A backslash escapes. -/
def escapes (f : Form) : Bool := f.quote = '"'

/-- What opens and closes. -/
def delimiter (f : Form) : List Char := List.replicate (if f.isLong then 3 else 1) f.quote

end Form

/-! ### Reading -/

/-- The character that the text after a backslash denotes. -/
def escaped? : List Char → Option (Char × List Char)
  | 'u' :: cs => Text.codePoint? 4 cs
  | 'U' :: cs => Text.codePoint? 8 cs
  | 'b' :: cs => some ('\x08', cs)
  | 't' :: cs => some ('\t', cs)
  | 'n' :: cs => some ('\n', cs)
  | 'f' :: cs => some ('\x0c', cs)
  | 'r' :: cs => some ('\r', cs)
  | '"' :: cs => some ('"', cs)
  | '\\' :: cs => some ('\\', cs)
  | _ => none

/-- `cs` without the spaces and line ends before it. -/
def skipBlankLines : List Char → List Char
  | [] => []
  | c :: cs =>
    if isSpace c || c == '\n' || (c == '\r' && cs.head? == some '\n') then skipBlankLines cs
    else c :: cs

/-- The text after the closing quotes in front. Of up to five quotes the last three close. -/
def closing? (f : Form) (cs : List Char) : Option (List Char × List Char) :=
  let count := (cs.takeWhile (· == f.quote)).length
  if f.isLong then
    if 3 ≤ count then some (List.replicate (min count 5 - 3) f.quote, cs.drop (min count 5))
    else none
  else if 1 ≤ count then some ([], cs.drop 1)
  else none

/-- What the text in front means, up to the next character that means something by itself. -/
def piece? (f : Form) (cs : List Char) : Option (List Char × List Char) :=
  match cs with
  | [] => none
  | c :: rest =>
    if f.escapes && c == '\\' then
      if f.isLong && (newline? (skipSpaces rest)).isSome then some ([], skipBlankLines rest)
      else (escaped? rest).map fun (c, rest) => ([c], rest)
    else if isPlain c then some ([c], rest)
    else if f.isLong then (newline? cs).map fun rest => (['\n'], rest)
    else none

/-- The characters up to the closing quotes, in at most `n` pieces. -/
def body? (f : Form) : Nat → List Char → Option (List Char × List Char)
  | 0, _ => none
  | n + 1, cs =>
    match closing? f cs with
    | some last => some last
    | none => do
      let (piece, cs) ← piece? f cs
      let (more, rest) ← body? f n cs
      return (piece ++ more, rest)

/-- The form of the quotes in front, and the text after them. -/
def opening? : List Char → Option (Form × List Char)
  | '"' :: '"' :: '"' :: cs => some (.longBasic, (newline? cs).getD cs)
  | '"' :: cs => some (.basic, cs)
  | '\'' :: '\'' :: '\'' :: cs => some (.longLiteral, (newline? cs).getD cs)
  | '\'' :: cs => some (.literal, cs)
  | _ => none

/-- The quoted text in front, and the text after it. -/
def decode? (cs : List Char) : Option (String × List Char) := do
  let (f, cs) ← opening? cs
  let (text, rest) ← body? f (cs.length + 1) cs
  return (String.ofList text, rest)

/-- The text in front that is quoted on one line, and the text after it. -/
def decodeShort? (cs : List Char) : Option (String × List Char) := do
  let (f, cs) ← match cs with
    | '"' :: cs => some (Form.basic, cs)
    | '\'' :: cs => some (Form.literal, cs)
    | _ => none
  let (text, rest) ← body? f (cs.length + 1) cs
  return (String.ofList text, rest)

/-! ### Writing -/

/-- The length of the longest run of `c`, of which `run` have just gone by. -/
def longestRun (c : Char) (run : Nat) : List Char → Nat
  | [] => run
  | d :: ds => if d = c then longestRun c (run + 1) ds else max run (longestRun c 0 ds)

/-- `c` is a control that no form holds as itself. -/
def needsEscape (c : Char) : Bool := !isPlain c && c != '\n'

/-- The form in which a text is written: of double, single, three double and three single quotes the
first that holds every character as itself; failing that, double ones with escapes. -/
def formOf (cs : List Char) : Form :=
  let isBare := !cs.any needsEscape
  let isOneLine := !cs.contains '\n'
  let isWithoutBackslash := !cs.contains '\\'
  if isBare && isWithoutBackslash && !cs.contains '"' && isOneLine then .basic
  else if isBare && !cs.contains '\'' && isOneLine then .literal
  else if isBare && isWithoutBackslash && longestRun '"' 0 cs ≤ 2 then .longBasic
  else if isBare && longestRun '\'' 0 cs ≤ 2 then .longLiteral
  else if isOneLine then .basic
  else .longBasic

/-- An upper-case hexadecimal digit. -/
def hexDigit (n : Nat) : Char := (Nat.digitChar n).toUpper

/-- How a character other than a quote is written between double quotes. -/
def escapeChar (isLong : Bool) (c : Char) : List Char :=
  if c = '\x08' then ['\\', 'b']
  else if c = '\t' then ['\\', 't']
  else if c = '\n' then if isLong then ['\n'] else ['\\', 'n']
  else if c = '\x0c' then ['\\', 'f']
  else if c = '\r' then ['\\', 'r']
  else if c = '\\' then ['\\', '\\']
  else if isPlain c then [c]
  else ['\\', 'u', '0', '0', hexDigit (c.toNat / 16), hexDigit (c.toNat % 16)]

/-- The characters of a text between double quotes. A quote is escaped if `most` unescaped ones
stand before it, of which `run` have just gone by. -/
def escape (isLong : Bool) (most : Nat) (run : Nat) : List Char → List Char
  | [] => []
  | c :: cs =>
    if c = '"' then
      if run < most then '"' :: escape isLong most (run + 1) cs
      else '\\' :: '"' :: escape isLong most 0 cs
    else escapeChar isLong c ++ escape isLong most 0 cs

/-- The characters of a text between the quotes of a form. -/
def content (f : Form) (cs : List Char) : List Char :=
  let start := if f.isLong && cs.contains '\n' then ['\n'] else []
  start ++ if f.escapes then escape f.isLong (if f.isLong then 2 else 0) 0 cs else cs

/-- A text in quotes. -/
def encode (s : String) : String :=
  let cs := s.toList
  let f := formOf cs
  String.ofList (f.delimiter ++ content f cs ++ f.delimiter)

end SchemaDepot.Toml.Quoted
