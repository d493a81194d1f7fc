/-! # Texts of YAML documents

* `Yaml.Cursor`: a place in a text.
* `Cursor.lineRest?`, `Cursor.gap?`: the places behind what means nothing, in a line and in a row of
  lines. -/

namespace SchemaDepot.Yaml

/-! ### Characters -/

/-- The blanks of a line. -/
def isBlank (c : Char) : Bool := c == ' ' || c == '\t'

/-- The characters around and between the parts of collections in brackets. -/
def isBracket (c : Char) : Bool :=
  c == ',' || c == '[' || c == ']' || c == '{' || c == '}'

/-- The characters of plain words. -/
def isWordChar (c : Char) : Bool := c.isAlphanum || c == '_' || c == '-'

/-- A bracket or a comma is in front. -/
def startsBracket (cs : List Char) : Bool := (cs.head?).any isBracket

/-- A blank or the end of a line or of the text is in front. -/
def endsWord : List Char → Bool
  | [] => true
  | c :: _ => isBlank c || c == '\n'

/-- A mark that starts or ends documents is in front. -/
def isMark : List Char → Bool
  | '-' :: '-' :: '-' :: cs => endsWord cs
  | '.' :: '.' :: '.' :: cs => endsWord cs
  | _ => false

/-- The ends of lines, written in one way. -/
def unifyLines : List Char → List Char
  | '\r' :: '\n' :: cs => '\n' :: unifyLines cs
  | '\r' :: cs => '\n' :: unifyLines cs
  | c :: cs => c :: unifyLines cs
  | [] => []

/-! ### Places -/

/-- A place in a text: what follows it, the numbers of its line, of its column and of the characters
before it, and whether there are only blanks before it in its line. -/
structure Cursor where
  rest : List Char
  line : Nat := 0
  column : Nat := 0
  index : Nat := 0
  isLeading : Bool := true

namespace Cursor

/-- The place behind the next character. -/
def next (c : Cursor) : Cursor :=
  match c.rest with
  | [] => c
  | '\n' :: rest => { rest, line := c.line + 1, index := c.index + 1 }
  | x :: rest =>
    { c with
      rest, column := c.column + 1, index := c.index + 1, isLeading := c.isLeading && isBlank x }

/-- The place behind the next `n` characters. -/
def skip (n : Nat) (c : Cursor) : Cursor := Nat.repeat next n c

/-- The place behind the characters in front that satisfy `p`. -/
def skipWhile (p : Char → Bool) (c : Cursor) : Cursor := c.skip (c.rest.takeWhile p).length

/-- The place from which `rest` is left. -/
def goTo (rest : List Char) (c : Cursor) : Cursor := c.skip (c.rest.length - rest.length)

/-- The end of a line or of the text is next. -/
def endsLine (c : Cursor) : Bool := c.rest.isEmpty || c.rest.head? == some '\n'

/-- A mark that starts or ends documents is next, at the start of a line. -/
def isAtMark (c : Cursor) : Bool := c.column == 0 && isMark c.rest

/-- The end of the line. -/
def lineEnd (c : Cursor) : Cursor := c.skipWhile (· != '\n')

/-- The place behind the blanks of the line and the comment that may follow them. -/
def lineRest? (c : Cursor) : Option Cursor :=
  let after := c.skipWhile isBlank
  if after.rest.head? == some '#' then
    if after.index == c.index then none else some after.lineEnd
  else some after

/-- The place behind the blanks, line ends and, where they may stand, comments, in at most `n`
steps. A tab that starts a line stands in a column from `least` on, unless the line is empty. -/
def gapIn? (mayComment : Bool) (least : Nat) : Nat → Cursor → Option Cursor
  | 0, c => some c
  | n + 1, c =>
    match c.rest with
    | '\t' :: _ =>
      if c.isLeading && c.column < least then do
        let after ← c.lineRest?
        if after.endsLine then gapIn? mayComment least n after else none
      else gapIn? mayComment least n c.next
    | ' ' :: _ | '\n' :: _ => gapIn? mayComment least n c.next
    | '#' :: _ => if mayComment then gapIn? mayComment least n c.lineEnd else some c
    | _ => some c

/-- The place behind the blanks, line ends and, where they may stand, comments. -/
def gap? (mayComment : Bool) (least : Nat) (c : Cursor) : Option Cursor :=
  c.gapIn? mayComment least c.rest.length

end Cursor

end SchemaDepot.Yaml
