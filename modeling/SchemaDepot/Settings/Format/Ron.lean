import SchemaDepot.Settings.Setting
import SchemaDepot.Text.CodePoint
import SchemaDepot.Text.Filler

/-! # Settings in RON documents

A record has named fields in parentheses, a tuple only values; a name may stand before both. The
keys of a map are strings and characters. A value that may be missing is `None`, or stands behind
`Some`; in a document that says so, it needs no parentheses there.

* `Ron.readSetting`: the setting in a text. -/

namespace SchemaDepot.Ron

open Number

/-- What may stand between the parts of a document. -/
def filler : Text.Filler where
  isBlank c := c == ' ' || c == '\t' || c == '\n' || c == '\r'
  isLineEnd c := c == '\n'
  nests := true

/-! ### Names -/

/-- A character that a name may start with. -/
def isNameStart (c : Char) : Bool := c.isAlpha || c == '_'

/-- A character of a name. -/
def isNameChar (c : Char) : Bool := c.isAlphanum || c == '_'

/-- A character of a name behind `r#`. -/
def isRawNameChar (c : Char) : Bool := isNameChar c || c == '.' || c == '+' || c == '-'

/-- The name in front. -/
def name? (cs : List Char) : Option (String × List Char) :=
  match cs with
  | 'r' :: '"' :: _ => none
  | 'r' :: '#' :: rest =>
    let name := rest.takeWhile isRawNameChar
    if name.isEmpty then none else some (String.ofList name, rest.drop name.length)
  | c :: _ =>
    let name := cs.takeWhile isNameChar
    let rest := cs.drop name.length
    if !isNameStart c || (rest.head?).any isRawNameChar then none
    else some (String.ofList name, rest)
  | [] => none

/-- The text behind a word in front with which a name ends. -/
def afterWord? (word : String) (cs : List Char) : Option (List Char) :=
  let rest := cs.drop word.length
  if word.toList.isPrefixOf cs && !(rest.head?).any isNameChar then some rest else none

/-! ### Strings and characters -/

/-- The character that the text behind a backslash denotes. -/
def escaped? : List Char → Option (Char × List Char)
  | '\'' :: cs => some ('\'', cs)
  | '"' :: cs => some ('"', cs)
  | '\\' :: cs => some ('\\', cs)
  | 'n' :: cs => some ('\n', cs)
  | 'r' :: cs => some ('\r', cs)
  | 't' :: cs => some ('\t', cs)
  | '0' :: cs => some ('\x00', cs)
  | 'x' :: a :: b :: cs => do return (← Text.charOf? (← Text.hexNumber? 16 [a, b]), cs)
  | 'u' :: '{' :: cs => do
    let digits := cs.takeWhile (· != '}')
    if digits.isEmpty || 6 < digits.length then none
    else
      match cs.drop digits.length with
      | '}' :: rest => return (← Text.charOf? (← Text.hexNumber? 16 digits), rest)
      | _ => none
  | _ => none

/-- The characters of a string up to its closing quote, in at most `n` steps. -/
def string? : Nat → List Char → Option (List Char × List Char)
  | 0, _ => none
  | n + 1, cs =>
    match cs with
    | [] => none
    | '"' :: rest => some ([], rest)
    | '\\' :: rest => do
      let (c, rest) ← escaped? rest
      let (more, rest) ← string? n rest
      return (c :: more, rest)
    | c :: rest => (string? n rest).map fun (more, rest) => (c :: more, rest)

/-- The characters of a string without escapes, up to the text that closes it. -/
def rawString? (closing : List Char) : List Char → Option (List Char × List Char)
  | [] => none
  | c :: cs =>
    if closing.isPrefixOf (c :: cs) then some ([], (c :: cs).drop closing.length)
    else (rawString? closing cs).map fun (more, rest) => (c :: more, rest)

/-- The string in front. -/
def text? : List Char → Option (String × List Char)
  | '"' :: cs => (string? (cs.length + 1) cs).map fun (found, rest) => (String.ofList found, rest)
  | 'r' :: cs =>
    let marks := cs.takeWhile (· == '#')
    match cs.drop marks.length with
    | '"' :: cs => (rawString? ('"' :: marks) cs).map fun (found, rest) =>
      (String.ofList found, rest)
    | _ => none
  | _ => none

/-- The character between single quotes, of which the first has gone by. -/
def character? (cs : List Char) : Option (Char × List Char) := do
  let (c, rest) ← match cs with
    | '\\' :: rest => escaped? rest
    | c :: rest => if c = '\'' then none else some (c, rest)
    | [] => none
  match rest with
  | '\'' :: rest => some (c, rest)
  | _ => none

/-! ### Numbers -/

/-- A character of a number with a point or an exponent. -/
def isFloatChar (c : Char) : Bool :=
  c.isDigit || c == '.' || c == 'e' || c == 'E' || c == '+' || c == '-' || c == '_'

/-- A character of a whole number. -/
def isIntegerChar (c : Char) : Bool := (Text.hexValue? c).isSome || c == '_'

/-- The numbers that are words. -/
def numberWords : List (String × Binary64) :=
  [("inf", .infinite false), ("+inf", .infinite false), ("-inf", .infinite true),
    ("NaN", .notANumber), ("+NaN", .notANumber), ("-NaN", .notANumber)]

/-- The number with a point or an exponent in front, or the one that is a word. -/
def float? (cs : List Char) : Option (Setting × List Char) :=
  match numberWords.findSome? fun (word, f) => (afterWord? word cs).map fun rest => (f, rest) with
  | some (f, rest) => some (.number f, rest)
  | none => do
    let literal := cs.takeWhile isFloatChar
    let f := Binary64.ofDecimal (← Decimal.read? literal)
    return (.number f, cs.drop literal.length)

/-- The whole number in front of a text without a sign: the digits and their base. -/
def wholeNumber? (cs : List Char) : Option (Nat × List Char) := do
  let (base, cs) := match cs with
    | '0' :: 'x' :: cs => (16, cs)
    | '0' :: 'b' :: cs => (2, cs)
    | '0' :: 'o' :: cs => (8, cs)
    | cs => (10, cs)
  let digits := cs.takeWhile isIntegerChar
  if digits.isEmpty || digits.head? == some '_' then none
  else return (← Text.hexNumber? base (digits.filter (· != '_')), cs.drop digits.length)

/-- The integer in front: of 64 bits, with a sign if one stands there. -/
def integer? (cs : List Char) : Option (Setting × List Char) := do
  let (isSigned, negative, body) := match cs with
    | '+' :: cs => (true, false, cs)
    | '-' :: cs => (true, true, cs)
    | cs => (false, false, cs)
  let (n, rest) ← wholeNumber? body
  let i : Int := if negative then -n else n
  if fits i then some (.integer i, rest)
  else if !isSigned && n < Nat.pow 2 64 then some (.number (.ofNat n), rest)
  else none

/-- The number in front. -/
def number? (cs : List Char) : Option (Setting × List Char) :=
  let body := match cs with
    | '+' :: cs => cs
    | '-' :: cs => cs
    | cs => cs
  if (body.takeWhile isIntegerChar).length < (body.takeWhile isFloatChar).length then float? cs
  else (integer? cs).or (float? cs)

/-! ### Values -/

/-- The values that are words. -/
def word? (cs : List Char) : Option (Setting × List Char) :=
  [("true", Setting.boolean true), ("false", .boolean false), ("None", .nothing),
    ("inf", .number (.infinite false)), ("-inf", .number (.infinite true)),
    ("NaN", .number .notANumber)].findSome? fun (word, s) =>
      (afterWord? word cs).map fun rest => (s, rest)

/-- Where a value stands: how many more levels may follow, and whether `Some` needs no
parentheses. -/
structure Scope where
  depth : Nat := 128
  impliesSome : Bool := false

/-- One level further in. -/
def Scope.inner? (scope : Scope) : Option Scope :=
  match scope.depth with
  | 0 => none
  | depth + 1 => some { scope with depth }

/-- The text in parentheses starts with the name of a field. -/
def startsField (cs : List Char) : Bool :=
  match (name? cs).bind fun (_, rest) => filler.skip? rest with
  | some (':' :: _) => true
  | _ => false

/-- The text behind a mark in front, and behind the filler around it. -/
def afterMark? (mark : Char) (cs : List Char) : Option (List Char) := do
  match ← filler.skip? cs with
  | c :: rest => if c = mark then filler.skip? rest else none
  | [] => none

/-- A key: its name, and whether it is written as a character. -/
structure Key where
  name : String
  isCharacter : Bool := false

/-- The key of a map in front. -/
def key? : List Char → Option (Key × List Char)
  | '\'' :: cs => (character? cs).map fun (c, rest) => (⟨String.singleton c, true⟩, rest)
  | cs => (text? cs).map fun (name, rest) => (⟨name, false⟩, rest)

/-- The table of keys and their values. Characters come before strings; of those with one name the
last counts. -/
def tableOf (members : List (Key × Setting)) : Setting :=
  let (characters, strings) := members.partition (·.1.isCharacter)
  .ofEntries ((characters ++ strings).map fun (key, s) => (key.name, s))

mutual

/-- The value in front, in at most `n` levels. -/
def value? : Nat → Scope → List Char → Option (Setting × List Char)
  | 0, _, _ => none
  | n + 1, scope, cs =>
    match word? cs, afterWord? "Some" cs, cs with
    | some found, _, _ => some found
    | none, some rest, _ => do optional? n (← scope.inner?) (← filler.skip? rest)
    | none, none, '(' :: ')' :: rest => some (.nothing, rest)
    | none, none, '[' :: cs => do
      let (items, rest) ← items? n (← scope.inner?) ']' (← filler.skip? cs)
      return (.list items, rest)
    | none, none, '{' :: cs => do
      let (members, rest) ← members? n (← scope.inner?) '}' (← filler.skip? cs)
      return (tableOf members, rest)
    | none, none, '\'' :: cs => (character? cs).map fun (c, rest) =>
      (.text (String.singleton c), rest)
    | none, none, cs =>
      match name? cs, cs with
      | some (_, rest), _ => do record? n scope (← filler.skip? rest)
      | none, '(' :: _ => record? n scope cs
      | none, c :: _ =>
        if c.isDigit || c == '+' || c == '-' || c == '.' then number? cs
        else (text? cs).map fun (found, rest) => (.text found, rest)
      | none, [] => none

/-- The value behind `Some`, in parentheses or without them. -/
def optional? : Nat → Scope → List Char → Option (Setting × List Char)
  | 0, _, _ => none
  | n + 1, scope, cs => do
    match cs with
    | '(' :: cs =>
      let (s, rest) ← value? n scope (← filler.skip? cs)
      match (afterMark? ',' rest).getD (← filler.skip? rest) with
      | ')' :: rest => return (s, rest)
      | _ => none
    | cs => if scope.impliesSome then value? n scope cs else none

/-- The record or the tuple in parentheses in front; nothing is there without them. -/
def record? : Nat → Scope → List Char → Option (Setting × List Char)
  | 0, _, _ => none
  | n + 1, scope, cs => do
    match cs with
    | '(' :: cs =>
      let scope ← scope.inner?
      let cs ← filler.skip? cs
      if startsField cs then
        let (members, rest) ← members? n scope ')' cs
        return (tableOf members, rest)
      else
        let (items, rest) ← items? n scope ')' cs
        return (.list items, rest)
    | cs => return (.nothing, cs)

/-- The values up to a closing bracket. A comma may stand behind the last. -/
def items? : Nat → Scope → Char → List Char → Option (List Setting × List Char)
  | 0, _, _, _ => none
  | n + 1, scope, closing, cs =>
    match cs with
    | [] => none
    | c :: rest =>
      if c = closing then some ([], rest)
      else do
        let (item, cs) ← value? n (← scope.inner?) cs
        match afterMark? ',' cs with
        | some cs =>
          let (items, rest) ← items? n scope closing cs
          return (item :: items, rest)
        | none =>
          match ← filler.skip? cs with
          | c :: rest => if c = closing then some ([item], rest) else none
          | [] => none

/-- The keys and values up to a closing bracket. In parentheses the keys are names. -/
def members? : Nat → Scope → Char → List Char → Option (List (Key × Setting) × List Char)
  | 0, _, _, _ => none
  | n + 1, scope, closing, cs =>
    match cs with
    | [] => none
    | c :: rest =>
      if c = closing then some ([], rest)
      else do
        let (key, cs) ←
          if closing = ')' then (name? cs).map fun (name, rest) => (Key.mk name false, rest)
          else key? cs
        let (s, cs) ← value? n (← scope.inner?) (← afterMark? ':' cs)
        match afterMark? ',' cs with
        | some cs =>
          let (members, rest) ← members? n scope closing cs
          return ((key, s) :: members, rest)
        | none =>
          match ← filler.skip? cs with
          | c :: rest => if c = closing then some ([(key, s)], rest) else none
          | [] => none

end

/-! ### Documents -/

/-- The extension with which `Some` needs no parentheses. -/
def someExtension : String := "implicit_some"

/-- The extensions that a document may ask for. -/
def extensions : List String := [someExtension, "unwrap_newtypes", "unwrap_variant_newtypes"]

/-- The names of extensions up to a closing parenthesis, in at most `n` steps. -/
def extensions? : Nat → List Char → Option (List String × List Char)
  | 0, _ => none
  | n + 1, cs => do
    let (name, cs) ← name? cs
    if !extensions.contains name then none
    else
      match afterMark? ',' cs with
      | some (')' :: rest) => return ([name], rest)
      | some cs =>
        let (names, rest) ← extensions? n cs
        return (name :: names, rest)
      | none =>
        match ← filler.skip? cs with
        | ')' :: rest => return ([name], rest)
        | _ => none

/-- The names of extensions in the attributes in front, in at most `n` steps, and the text behind
these and the filler around them. -/
def attributes? : Nat → List Char → Option (List String × List Char)
  | 0, _ => none
  | n + 1, cs => do
    match ← filler.skip? cs with
    | '#' :: cs =>
      let cs ← afterMark? '[' (← afterMark? '!' cs)
      let cs ← afterMark? '(' (← afterWord? "enable" cs)
      let (names, cs) ← extensions? (cs.length + 1) cs
      let (more, rest) ← attributes? n (← afterMark? ']' cs)
      return (names ++ more, rest)
    | cs => return ([], cs)

/-- The setting in a text. -/
def readSetting (text : String) : Option Setting := do
  let cs := text.toList
  let (names, cs) ← attributes? (cs.length + 1) cs
  let scope : Scope := { impliesSome := names.contains someExtension }
  let (s, rest) ← value? (3 * cs.length + 3) scope cs
  if (← filler.skip? rest).isEmpty then some s else none

end SchemaDepot.Ron
