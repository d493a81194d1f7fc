/-! # Positions in a text

* `Position`: a point of a text, which `advance` moves over a character.
* `Span`: the stretch between two points. -/

namespace SchemaDepot

/-- A point of a text. Lines and columns count from 1, columns in characters; the offset counts
bytes from 0. No bound is put on lines and columns, so what is said of points is for texts of fewer
than `2 ^ 32` lines, each of fewer than `2 ^ 32` columns: in those both fit in 32 bits. -/
structure Position where
  line : Nat
  column : Nat
  offset : Nat
deriving DecidableEq, Inhabited

namespace Position

/-- The point before the first character. -/
def origin : Position := ⟨1, 1, 0⟩

/-- The point after `c`, which stands at `p`. -/
def advance (p : Position) (c : Char) : Position :=
  if c = '\n' then ⟨p.line + 1, 1, p.offset + c.utf8Size⟩
  else ⟨p.line, p.column + 1, p.offset + c.utf8Size⟩

/-- The point after the characters `cs`, which stand at `p`. -/
def advanceOver (p : Position) (cs : List Char) : Position := cs.foldl advance p

/-- The order of points: by line, then column, then offset. -/
def before (p q : Position) : Bool :=
  p.line < q.line || (p.line == q.line && (p.column < q.column ||
    (p.column == q.column && p.offset < q.offset)))

end Position

/-- The stretch of a text from one point to another. -/
structure Span where
  start : Position
  stop : Position
deriving DecidableEq, Inhabited

namespace Span

/-- The stretch from `start` to `stop`, empty if `stop` lies before `start`. -/
def between (start stop : Position) : Span :=
  if stop.before start then ⟨start, start⟩ else ⟨start, stop⟩

/-- The empty stretch at a point. -/
def point (p : Position) : Span := ⟨p, p⟩

end Span

end SchemaDepot
