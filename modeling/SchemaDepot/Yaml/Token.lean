import SchemaDepot.Yaml.Scalar
import SchemaDepot.Yaml.Tag

/-! # Tokens of YAML documents

Collections are written in brackets or in blocks. The parts of a block start in the same column, and
what belongs to a part starts behind that column. A key without a mark of its own is known by the
colon behind it: until that is met, what may be a key is a candidate.

* `Yaml.Token`: what a document is made of.
* `Scanner`: what is known of a text up to a place.
* `Scanner.openBlock`, `Scanner.closeBlocks`: the start and the end of blocks.
* `Scanner.nominate`, `Scanner.dismiss?`: what becomes of candidates. -/

namespace SchemaDepot.Yaml

/-- What a document is made of. Blocks have no brackets; where they start and end shows in the
columns. -/
inductive Token where
  | directive (what : Directive)
  | documentStart
  | documentEnd
  | blockItems
  | blockEntries
  | blockEnd
  | listStart
  | listEnd
  | tableStart
  | tableEnd
  | dash
  | comma
  | key
  | value
  | alias (name : String)
  | name (name : String)
  | tag (tag : Tag)
  | scalar (text : String) (isPlain : Bool)

/-- A column behind which further lines start: that of a block, or one more than that. -/
structure Indent where
  column : Nat
  isBlock : Bool

/-- What may turn out to be a key: whether it still may, whether it has to, how many tokens stand
before it, and where it starts. -/
structure Candidate where
  isPossible : Bool := false
  isRequired : Bool := false
  position : Nat := 0
  start : Cursor := { rest := [] }

/-- What is known of a text up to a place: the tokens, the last first; the columns that blocks start
in, the innermost first; whether a key may start here; the candidate, and those before the brackets
around, of which the innermost come first; the index of a place where a colon needs no blank behind
it; whether a table has started in brackets since the last bare entry; and whether there is such an
entry in brackets, which makes up a table of its own. -/
structure Scanner where
  cursor : Cursor
  tokens : List Token := []
  indents : List Indent := []
  mayStartKey : Bool := true
  candidate : Candidate := {}
  outer : List Candidate := []
  adjacent : Option Nat := none
  hasTable : Bool := false
  inBareEntry : Bool := false

namespace Scanner

/-- The place is in brackets. -/
def inBrackets (s : Scanner) : Bool := !s.outer.isEmpty

/-- One more than the column of the innermost block; nothing stands before it. -/
def margin (s : Scanner) : Nat :=
  match s.indents with
  | [] => 0
  | i :: _ => i.column + 1

/-- One more token. -/
def push (t : Token) (s : Scanner) : Scanner := { s with tokens := t :: s.tokens }

/-- One more token behind the first `position`. -/
def insert (position : Nat) (t : Token) (s : Scanner) : Scanner :=
  let later := s.tokens.length - position
  { s with tokens := s.tokens.take later ++ t :: s.tokens.drop later }

/-- The place further on. -/
def moveTo (c : Cursor) (s : Scanner) : Scanner := { s with cursor := c }

/-! ### Blocks -/

/-- A block starts in a column, unless there is one already, or the place is in brackets; its token
stands behind the first `position`. -/
def openBlock (column position : Nat) (t : Token) (s : Scanner) : Scanner :=
  if s.inBrackets then s
  else
    let indents := match s.indents with
      | i :: rest => if i.column ≤ column && !i.isBlock then rest else i :: rest
      | [] => []
    let s := { s with indents }
    if s.margin ≤ column then { s.insert position t with indents := ⟨column, true⟩ :: indents }
    else s

/-- Further lines start behind the column of the block. -/
def indentMore (s : Scanner) : Scanner :=
  match s.indents with
  | i :: _ =>
    if i.isBlock && !s.inBrackets then { s with indents := ⟨i.column + 1, false⟩ :: s.indents }
    else s
  | [] => s

/-- Further lines start where the block does. -/
def indentLess (s : Scanner) : Scanner :=
  { s with indents := s.indents.dropWhile fun i => !i.isBlock }

/-- The blocks whose columns are not before `column` end, unless the place is in brackets. -/
def closeBlocks (column : Nat) (s : Scanner) : Scanner :=
  if s.inBrackets then s
  else
    let closed := s.indents.takeWhile fun i => column ≤ i.column
    { s with
      indents := s.indents.drop closed.length
      tokens := (closed.filter Indent.isBlock).map (fun _ => Token.blockEnd) ++ s.tokens }

/-! ### Candidates -/

/-- The longest key without a mark of its own. -/
def maxKeyLength : Nat := 1024

/-- What follows may be a key, if one may start here. Where the next part of a block starts, it has
to be one. -/
def nominate (s : Scanner) : Scanner :=
  if s.mayStartKey then
    let isRequired := !s.inBrackets &&
      (s.indents.head?).any fun i => i.isBlock && i.column == s.cursor.column
    { s with candidate := ⟨true, isRequired, s.tokens.length, s.cursor⟩ }
  else s

/-- The candidate is no key, which it must not have to be. -/
def dismiss? (s : Scanner) : Option Scanner :=
  if s.candidate.isPossible && s.candidate.isRequired then none
  else some { s with candidate := { s.candidate with isPossible := false } }

/-- The candidate is no key if it is not in the line, or too long. -/
def expire? (s : Scanner) : Option Scanner :=
  let start := s.candidate.start
  if !s.inBrackets &&
      (start.line < s.cursor.line || start.index + maxKeyLength < s.cursor.index) then s.dismiss?
  else some s

/-! ### Brackets -/

/-- The deepest brackets. -/
def maxDepth : Nat := 255

/-- The place is behind an opening bracket. -/
def enter? (s : Scanner) : Option Scanner :=
  if maxDepth ≤ s.outer.length then none
  else some { s with candidate := {}, outer := s.candidate :: s.outer }

/-- The place is behind a closing bracket. -/
def leave (s : Scanner) : Scanner :=
  match s.outer with
  | c :: outer => { s with candidate := c, outer }
  | [] => s

/-- The bare entry ends here, if there is one. -/
def endBareEntry (s : Scanner) : Scanner :=
  if s.inBareEntry then { s.push .tableEnd with inBareEntry := false, hasTable := false } else s

end Scanner

end SchemaDepot.Yaml
