/-! # Blanks and comments

What may stand between the parts of a text and means nothing: blanks, comments from two slashes to
the end of the line, and comments between a slash with a star and a star with a slash.

* `Filler.skip?`: a text without the filler in front. -/

namespace SchemaDepot.Text

/-- The filler of a kind of text: its blanks, the ends of its lines, and whether comments between
stars may stand in each other. -/
structure Filler where
  isBlank : Char → Bool
  isLineEnd : Char → Bool
  nests : Bool

namespace Filler

/-- Where in the filler a text goes on: between comments, in one that the line ends, or in one
between stars, of which `depth` stand around it, behind the character `last`. -/
inductive Place where
  | between
  | line
  | inside (depth : Nat) (last : Char)

/-- The text behind the filler in front, which goes on from a place; nothing, if a comment is never
closed. -/
def skipFrom? (f : Filler) : Place → List Char → Option (List Char)
  | .inside _ _, [] => none
  | _, [] => some []
  | .inside depth last, c :: cs =>
    if last == '*' && c == '/' then
      skipFrom? f (if depth = 0 then .between else .inside (depth - 1) ' ') cs
    else if f.nests && last == '/' && c == '*' then skipFrom? f (.inside (depth + 1) ' ') cs
    else skipFrom? f (.inside depth c) cs
  | .line, c :: cs => skipFrom? f (if f.isLineEnd c then .between else .line) cs
  | .between, '/' :: '/' :: cs => skipFrom? f .line cs
  | .between, '/' :: '*' :: cs => skipFrom? f (.inside 0 ' ') cs
  | .between, c :: cs => if f.isBlank c then skipFrom? f .between cs else some (c :: cs)

/-- The text behind the filler in front; nothing, if a comment is never closed. -/
def skip? (f : Filler) (cs : List Char) : Option (List Char) := f.skipFrom? .between cs

end Filler

end SchemaDepot.Text
