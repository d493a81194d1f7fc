import SchemaDepot.Text.CodePoint
import SchemaDepot.Yaml.Basic

/-! # Tags and directives

A tag says what a node is. It has a handle, which stands for the start of a name, and the rest of
the name. In front of a document, directives say what handles stand for.

* `Tag.read?`: the tag in front of a text.
* `Directive.read?`: the directive at a place. -/

namespace SchemaDepot.Yaml

/-- A tag: its handle and what follows it. -/
structure Tag where
  handle : String
  name : String
deriving DecidableEq

/-! ### Names -/

/-- A character of a name. -/
def isNameChar (c : Char) : Bool :=
  c.isAlphanum || "-#;/?:@&=+$,_.!~*'()[]%".toList.contains c

/-- A character of a name behind a handle. -/
def isShortNameChar (c : Char) : Bool := isNameChar c && !isBracket c && c != '!'

/-- The byte that a percent sign and two digits in front spell. -/
def byte? : List Char → Option (Nat × List Char)
  | '%' :: a :: b :: cs => do return (← Text.hexNumber? 16 [a, b], cs)
  | _ => none

/-- How many bytes follow the first byte of a character. -/
def bytesBehind? (first : Nat) : Option Nat :=
  if first < 0x80 then some 0
  else if first < 0xC0 then none
  else if first < 0xE0 then some 1
  else if first < 0xF0 then some 2
  else if first < 0xF8 then some 3
  else none

/-- The number that `count` more bytes make with those before them. -/
def moreBytes? : Nat → Nat → List Char → Option (Nat × List Char)
  | 0, n, cs => some (n, cs)
  | count + 1, n, cs => do
    let (byte, cs) ← byte? cs
    if byte / 64 = 2 then moreBytes? count (n * 256 + byte) cs else none

/-- The character that bytes in front spell: its code point is the number that all of them make. -/
def spelled? (cs : List Char) : Option (Char × List Char) := do
  let (first, cs) ← byte? cs
  let (n, cs) ← moreBytes? (← bytesBehind? first) first cs
  return (← Text.charOf? n, cs)

/-- The name in front, of at most `n` characters that satisfy `p`, some of which may be spelled. -/
def nameChars? (p : Char → Bool) : Nat → List Char → Option (List Char × List Char)
  | 0, cs => some ([], cs)
  | n + 1, cs =>
    match cs with
    | [] => some ([], [])
    | c :: rest =>
      if p c then do
        let (c, rest) ← if c = '%' then spelled? cs else some (c, rest)
        let (more, rest) ← nameChars? p n rest
        return (c :: more, rest)
      else some ([], cs)

/-- The name in front, of characters that satisfy `p`. -/
def name? (p : Char → Bool) (cs : List Char) : Option (List Char × List Char) :=
  nameChars? p cs.length cs

/-! ### Tags -/

/-- The handle behind an exclamation mark: a word with another mark behind it, if there is one. -/
def splitHandle (cs : List Char) : List Char × List Char :=
  let word := cs.takeWhile isWordChar
  match cs.drop word.length with
  | '!' :: rest => ('!' :: word ++ ['!'], rest)
  | rest => ('!' :: word, rest)

/-- A handle has a mark at both ends. -/
def isClosed (handle : List Char) : Bool := 2 ≤ handle.length && handle.getLast? == some '!'

namespace Tag

/-- The tag behind an exclamation mark. -/
def content? : List Char → Option (Tag × List Char)
  | '<' :: cs => do
    let (name, rest) ← name? isNameChar cs
    match rest with
    | '>' :: rest => return (⟨"", String.ofList name⟩, rest)
    | _ => none
  | cs => do
    let (handle, cs) := splitHandle cs
    let (name, rest) ← name? isShortNameChar cs
    if isClosed handle then
      if name.isEmpty then none else return (⟨String.ofList handle, String.ofList name⟩, rest)
    else
      let name := handle.tail ++ name
      return (if name.isEmpty then ⟨"", "!"⟩ else ⟨"!", String.ofList name⟩, rest)

/-- The tag in front of a text, and what follows it. -/
def read? (inBrackets : Bool) : List Char → Option (Tag × List Char)
  | '!' :: cs => do
    let (tag, rest) ← content? cs
    if endsWord rest || (inBrackets && startsBracket rest) then return (tag, rest) else none
  | _ => none

/-- What the names of the core types start with. -/
def coreStart : String := "tag:yaml.org,2002:"

/-- The tag with what its handle stands for, where `starts` says that. A closed handle stands for
something. -/
def resolve? (starts : List (String × String)) (tag : Tag) : Option Tag :=
  match starts.lookup tag.handle with
  | some start => some { tag with handle := start }
  | none =>
    if tag.handle == "!!" then some { tag with handle := coreStart }
    else if isClosed tag.handle.toList then none
    else some tag

end Tag

/-! ### Directives -/

/-- What a directive says: of which version the document is, or what a handle stands for. -/
inductive Directive where
  | version
  | start (handle start : String)

namespace Directive

/-- The text behind a number in front, which has at most nine digits. -/
def afterNumber? (cs : List Char) : Option (List Char) :=
  let digits := cs.takeWhile Char.isDigit
  if digits.isEmpty || 9 < digits.length then none else some (cs.drop digits.length)

/-- The text behind the number of a version: two numbers with a point between them. -/
def afterVersion? (cs : List Char) : Option (List Char) := do
  match ← afterNumber? (cs.dropWhile isBlank) with
  | '.' :: cs => afterNumber? cs
  | _ => none

/-- A handle, what it stands for, and the text behind that. -/
def start? (cs : List Char) : Option (Directive × List Char) := do
  match cs.dropWhile isBlank with
  | '!' :: cs =>
    let (handle, cs) := splitHandle cs
    let cs := cs.dropWhile isBlank
    if handle ≠ ['!'] && !isClosed handle then none
    else if !(cs.head?).any fun c => c == '!' || isShortNameChar c then none
    else
      let (name, rest) ← name? isNameChar cs
      if endsWord rest then return (.start (String.ofList handle) (String.ofList name), rest)
      else none
  | _ => none

/-- The directive behind a percent sign, and what follows it in the line. One that is not known says
nothing. -/
def content? (cs : List Char) : Option (Directive × List Char) := do
  let word := cs.takeWhile isWordChar
  let rest := cs.drop word.length
  if word.isEmpty || !endsWord rest then none
  else
    match String.ofList word with
    | "YAML" => return (.version, ← afterVersion? rest)
    | "TAG" => start? rest
    | _ => return (.start "" "", rest.dropWhile (· != '\n'))

/-- The directive whose percent sign is next, and the place behind its line. -/
def read? (c : Cursor) : Option (Directive × Cursor) := do
  let (directive, rest) ← content? c.rest.tail
  let after ← (c.goTo rest).lineRest?
  if after.endsLine then return (directive, after.next) else none

end Directive

end SchemaDepot.Yaml
