import SchemaDepot.Json.Reader
import SchemaDepot.Settings.Setting
import SchemaDepot.Text.Blank
import SchemaDepot.Text.Filler
import SchemaDepot.Text.Letter
import SchemaDepot.Text.LetterMark

/-! # Settings in JSON5 documents

JSON with comments, keys without quotes, single quotes, a comma behind the last item, and more ways
to write a number.

* `Json5.readSetting`: the setting in a text. -/

namespace SchemaDepot.Json5

open Number

/-- The end of a line. -/
def isLineEnd (c : Char) : Bool := c == '\n' || c == '\r' || c == '\u2028' || c == '\u2029'

/-- What may stand between the parts of a document. -/
def filler : Text.Filler where
  isBlank c := c == '\uFEFF' || (Text.isBlank c && c != '\u0085')
  isLineEnd := isLineEnd
  nests := false

/-! ### Strings -/

/-- The character that one behind a backslash stands for. -/
def escaped? : Char → Option Char
  | 'b' => some '\x08'
  | 'f' => some '\x0c'
  | 'n' => some '\n'
  | 'r' => some '\r'
  | 't' => some '\t'
  | 'v' => some '\x0b'
  | '0' => some '\x00'
  | c => if c.isDigit || c == 'x' || c == 'u' then none else some c

/-- The numbers that the characters and escapes of a string denote, up to its closing quote, and
the text after that. -/
def stringUnits? (quote : Char) : List Char → Option (List Nat × List Char)
  | [] => none
  | '\\' :: 'u' :: a :: b :: c :: d :: cs => do
    let n ← Text.hexNumber? 16 [a, b, c, d]
    let (units, rest) ← stringUnits? quote cs
    return (n :: units, rest)
  | '\\' :: 'x' :: a :: b :: cs => do
    let n ← Text.hexNumber? 16 [a, b]
    let (units, rest) ← stringUnits? quote cs
    return (n :: units, rest)
  | '\\' :: '\r' :: '\n' :: cs => stringUnits? quote cs
  | '\\' :: c :: cs =>
    if isLineEnd c then stringUnits? quote cs
    else do
      let e ← escaped? c
      let (units, rest) ← stringUnits? quote cs
      return (e.toNat :: units, rest)
  | c :: cs =>
    if c = quote then some ([], cs)
    else if c = '\\' || isLineEnd c then none
    else (stringUnits? quote cs).map fun (units, rest) => (c.toNat :: units, rest)

/-- The characters that units make. The bits of a pair of surrogates are laid over those of the
first code point above the units. -/
def charsOfUnits? : List Nat → Option (List Char)
  | [] => some []
  | n :: rest =>
    if 0xD800 ≤ n && n < 0xDC00 then
      match rest with
      | low :: rest => do
        if 0xDC00 ≤ low && low < 0xE000 then
          let c ← Text.charOf? ((n - 0xD800) * 0x400 + (low - 0xDC00) ||| 0x10000)
          return c :: (← charsOfUnits? rest)
        else none
      | [] => none
    else do return (← Text.charOf? n) :: (← charsOfUnits? rest)

/-- The string behind an opening quote. -/
def string? (quote : Char) (cs : List Char) : Option (String × List Char) := do
  let (units, rest) ← stringUnits? quote cs
  return (String.ofList (← charsOfUnits? units), rest)

/-! ### Keys -/

/-- A character that a key without quotes may start with. -/
def isKeyStart (c : Char) : Bool := c == '$' || c == '_' || Text.isLetter c

/-- A character of a key without quotes. -/
def isKeyChar (c : Char) : Bool := isKeyStart c || Text.isLetterMark c

/-- The numbers that the characters and escapes of a key denote, and the text after it. -/
def keyUnits? : List Char → Option (List Nat × List Char)
  | '\\' :: 'u' :: a :: b :: c :: d :: cs => do
    let n ← Text.hexNumber? 16 [a, b, c, d]
    let (units, rest) ← keyUnits? cs
    return (n :: units, rest)
  | c :: cs =>
    if isKeyChar c then (keyUnits? cs).map fun (units, rest) => (c.toNat :: units, rest)
    else some ([], c :: cs)
  | [] => some ([], [])

/-- The key in front. -/
def key? (cs : List Char) : Option (String × List Char) :=
  match cs with
  | '"' :: cs => string? '"' cs
  | '\'' :: cs => string? '\'' cs
  | c :: _ =>
    if isKeyStart c || c == '\\' then do
      let (units, rest) ← keyUnits? cs
      let key ← charsOfUnits? units
      if key.isEmpty then none else some (String.ofList key, rest)
    else none
  | [] => none

/-! ### Numbers -/

/-- The exponent in front, if there is one. -/
def exponent : List Char → List Char × List Char
  | c :: cs =>
    if c == 'e' || c == 'E' then
      let (sign, rest) := match cs with
        | s :: rest => if s == '+' || s == '-' then ([s], rest) else ([], cs)
        | [] => ([], [])
      let digits := rest.takeWhile Char.isDigit
      if digits.isEmpty then ([], c :: cs) else (c :: sign ++ digits, rest.dropWhile Char.isDigit)
    else ([], c :: cs)
  | [] => ([], [])

/-- The digits of a whole number in front; after a zero there are no more. -/
def wholeDigits : List Char → List Char × List Char
  | '0' :: cs => (['0'], cs)
  | cs => (cs.takeWhile Char.isDigit, cs.dropWhile Char.isDigit)

/-- The number of decimal digits in front, behind a sign: an integer, if it has neither a point nor
an exponent. -/
def decimal? (sign : List Char) (cs : List Char) : Option (Setting × List Char) := do
  let (whole, cs) := wholeDigits cs
  let (places, cs) := match cs with
    | '.' :: cs => ('.' :: cs.takeWhile Char.isDigit, cs.dropWhile Char.isDigit)
    | cs => ([], cs)
  if whole.isEmpty && places.length ≤ 1 then none
  else
    let (exponent, rest) := exponent cs
    if places.isEmpty && exponent.isEmpty then return (.integer (← integer? (sign ++ whole)), rest)
    else
      let f := Binary64.ofDecimal (← Decimal.read? (sign ++ whole ++ places ++ exponent))
      match f with
      | .finite .. => return (.number f, rest)
      | _ => none

/-- The number in front. Hexadecimal digits make one of 32 bits, and no sign may stand before
them. -/
def number? (cs : List Char) : Option (Setting × List Char) :=
  let (sign, cs) := match cs with
    | '+' :: cs => (['+'], cs)
    | '-' :: cs => (['-'], cs)
    | cs => ([], cs)
  match cs with
  | 'I' :: 'n' :: 'f' :: 'i' :: 'n' :: 'i' :: 't' :: 'y' :: rest =>
    if sign = ['+'] then none else some (.number (.infinite (sign = ['-'])), rest)
  | 'N' :: 'a' :: 'N' :: rest => if sign = ['+'] then none else some (.number .notANumber, rest)
  | '0' :: x :: rest =>
    let digits := rest.takeWhile fun c => (Text.hexValue? c).isSome
    if (x == 'x' || x == 'X') && !digits.isEmpty then do
      let n ← Text.hexNumber? 16 digits
      if sign.isEmpty && n < Nat.pow 2 32 then some (.integer n, rest.drop digits.length) else none
    else decimal? sign cs
  | cs => decimal? sign cs

/-! ### Values -/

mutual

/-- The value in front, in at most `n` levels. -/
def value? : Nat → List Char → Option (Setting × List Char)
  | 0, _ => none
  | n + 1, cs => do
    match cs with
    | 'n' :: 'u' :: 'l' :: 'l' :: rest => return (.nothing, rest)
    | 't' :: 'r' :: 'u' :: 'e' :: rest => return (.boolean true, rest)
    | 'f' :: 'a' :: 'l' :: 's' :: 'e' :: rest => return (.boolean false, rest)
    | '"' :: cs => (string? '"' cs).map fun (s, rest) => (.text s, rest)
    | '\'' :: cs => (string? '\'' cs).map fun (s, rest) => (.text s, rest)
    | '[' :: cs =>
      match ← filler.skip? cs with
      | ']' :: rest => return (.list [], rest)
      | cs => (items? n cs).map fun (items, rest) => (.list items, rest)
    | '{' :: cs =>
      match ← filler.skip? cs with
      | '}' :: rest => return (.table [], rest)
      | cs => (members? n cs).map fun (members, rest) => (.ofEntries members, rest)
    | cs => number? cs

/-- The items of an array up to its closing bracket. A comma may stand behind the last. -/
def items? : Nat → List Char → Option (List Setting × List Char)
  | 0, _ => none
  | n + 1, cs => do
    let (item, cs) ← value? n cs
    match ← filler.skip? cs with
    | ']' :: rest => return ([item], rest)
    | ',' :: cs =>
      match ← filler.skip? cs with
      | ']' :: rest => return ([item], rest)
      | cs =>
        let (items, rest) ← items? n cs
        return (item :: items, rest)
    | _ => none

/-- The members of an object up to its closing brace. A comma may stand behind the last. -/
def members? : Nat → List Char → Option (List (String × Setting) × List Char)
  | 0, _ => none
  | n + 1, cs => do
    let (key, cs) ← key? cs
    match ← filler.skip? cs with
    | ':' :: cs =>
      let (s, cs) ← value? n (← filler.skip? cs)
      match ← filler.skip? cs with
      | '}' :: rest => return ([(key, s)], rest)
      | ',' :: cs =>
        match ← filler.skip? cs with
        | '}' :: rest => return ([(key, s)], rest)
        | cs =>
          let (members, rest) ← members? n cs
          return ((key, s) :: members, rest)
      | _ => none
    | _ => none

end

/-- The setting in a text. -/
def readSetting (text : String) : Option Setting := do
  let cs := text.toList
  let (s, rest) ← value? (2 * cs.length + 2) (← filler.skip? cs)
  if (← filler.skip? rest).isEmpty then some s else none

end SchemaDepot.Json5
