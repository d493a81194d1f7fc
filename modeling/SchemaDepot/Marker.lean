import SchemaDepot.Comment
import SchemaDepot.Text.Blank
import SchemaDepot.Text.Lines

/-! # Markers: directives in comments

A marker `@namespace:option:value` stands at the start of a comment line or behind a character
that could not continue a word. The option has neither colons nor blanks in it, and the value
reaches to the next colon or the end of the line. A line yields the directive of its first marker,
unless the value is blank.

* `Marker.extract`: the directives of a comment, from top to bottom. -/

namespace SchemaDepot

/-- Which namespace a marker has to name; with none given, or an empty one, any namespace does. -/
structure Marker where
  space : Option String := none
deriving DecidableEq

namespace Marker

/-- The parts of a marker behind its at sign: all up to the value, the option, and the value as
written. -/
structure Parts where
  head : List Char
  option : List Char
  value : List Char

/-- The characters of a namespace when none is prescribed. -/
def isSpacePart (c : Char) : Bool := c.isAlphanum || c == '_' || c == '.' || c == '-'

/-- A character behind which a marker can start. -/
def isSeparator (c : Char) : Bool := !(c.isAlphanum || c == '_')

/-- The namespace at the front of `cs`, if the marker accepts it. -/
def spaceAt (m : Marker) (cs : List Char) : Option (List Char) :=
  match (m.space.getD "").toList with
  | [] =>
    let found := cs.takeWhile isSpacePart
    if found.isEmpty then none else some found
  | wanted => if wanted.isPrefixOf cs then some wanted else none

/-- The parts of the marker whose at sign stands before `cs`. -/
def partsAt (m : Marker) (cs : List Char) : Option Parts := do
  let space ← m.spaceAt cs
  match cs.drop space.length with
  | ':' :: cs =>
    let option := cs.takeWhile fun c => c != ':' && !Text.isBlank c
    if option.isEmpty then none
    else
      match cs.drop option.length with
      | ':' :: cs =>
        let value := cs.takeWhile fun c => c != ':' && c != '\r' && c != '\n'
        if value.isEmpty then none
        else some ⟨space ++ ':' :: option ++ [':'], option, value⟩
      | _ => none
  | _ => none

/-- The first marker of a line, of which `cs` is left and stands at `p`; `last` is the character
before `cs`. The two points are that where the marker starts and that of its at sign: a
second at sign right before the first belongs to the marker. -/
def find (m : Marker) (last : Option (Char × Position)) (p : Position) :
    List Char → Option (Position × Position × Parts)
  | [] => none
  | c :: cs =>
    let opens := match last with
      | none => true
      | some (d, _) => isSeparator d
    let found := if c == '@' && opens then m.partsAt cs else none
    match found with
    | some parts =>
      match last with
      | some ('@', q) => some (q, p, parts)
      | _ => some (p, p, parts)
    | none => find m (some (c, p)) (p.advance c) cs

/-- The directive of a line that stands at `p`. -/
def ofLine (m : Marker) (p : Position) (line : List Char) : Option Directive := do
  let (start, sign, parts) ← m.find none p line
  let value := Text.trimChars parts.value
  if value.isEmpty then none
  else
    let stop := sign.advanceOver ('@' :: parts.head ++ Text.trimEndChars parts.value)
    some ⟨String.ofList parts.option, String.ofList value, Span.between start stop⟩

/-- The directives of lines of which the first stands at `p`. -/
def ofLines (m : Marker) (p : Position) : List (List Char) → List Directive
  | [] => []
  | line :: lines =>
    (m.ofLine p line).toList ++ ofLines m ((p.advanceOver line).advance '\n') lines

/-- The directives of a comment, from top to bottom; only the first line of a line comment
counts. -/
def extract (m : Marker) (c : Comment) : List Directive :=
  let start := c.span.start
  let lines := Text.splitAt '\n' c.text.toList
  let lines := match c.kind with
    | .line => lines.take 1
    | .block => lines
  m.ofLines ⟨start.line, start.column + 2, start.offset + 2⟩ lines

end Marker

end SchemaDepot
