import SchemaDepot.Marker
import SchemaDepot.Schema.Node

/-! # Placing comments on declarations

The grammar builds a tree from significant tokens; here the comments of the text come to it, each to
one place.

* A comment behind the last token of a declaration, on the same line, *trails* it.
* Any other comment *leads* the first declaration that starts after it in the order of a walk.
* Comments that no declaration follows are *detached*: they stand behind the declarations of the
  file, each with the directives in it.

A node carries the directives of its comments. `place` and `placeAll` go through the tree with the
pool of comments that have no place yet, in the order of the text. -/

namespace SchemaDepot

/-- A comment of a text, and the point where the significant token before it ends. -/
structure Note where
  comment : Comment
  follows : Option Position

namespace Note

/-- The comments among tokens; `last` is where the last significant token before them ends. -/
def ofTokens (last : Option Position) : List Token → List Note
  | [] => []
  | t :: ts =>
    match t.comment? with
    | some c => ⟨c, last⟩ :: ofTokens last ts
    | none => ofTokens (some t.span.stop) ts

/-- The comment starts before the point `p`. -/
def startsBefore (p : Position) (n : Note) : Bool := n.comment.span.start.offset < p.offset

/-- The comment trails a declaration that ends at `p`. -/
def trails (p : Position) (n : Note) : Bool :=
  n.follows == some p && n.comment.span.start.line == p.line

end Note

namespace Placement

variable (m : Marker)

/-- The comment of a note, in a placement. -/
def put (placement : Placement) (n : Note) : Comment := { n.comment with placement }

/-- The notes of `pool` that lead a declaration which starts at `p`. -/
def leadingAt (p : Position) (pool : List Note) : List Note := pool.takeWhile (·.startsBefore p)

/-- The notes of `pool` that trail a declaration which ends at `p`. -/
def trailingAt (p : Position) (pool : List Note) : List Note :=
  (pool.dropWhile (·.startsBefore p)).takeWhile (·.trails p)

/-- The notes of `pool` without those that trail a declaration which ends at `p`. -/
def notTrailingAt (p : Position) (pool : List Note) : List Note :=
  pool.takeWhile (·.startsBefore p) ++ (pool.dropWhile (·.startsBefore p)).dropWhile (·.trails p)

mutual

/-- A declaration with the comments of the pool that belong to it and to those in its block, and
the comments that are left. -/
def place (pool : List Note) : Node → Node × List Note
  | ⟨content, span, _, _, children⟩ =>
    let inner := placeAll (pool.dropWhile (·.startsBefore span.start)) children
    let comments := (leadingAt span.start pool).map (put .leading) ++
      (trailingAt span.stop inner.2).map (put .trailing)
    (⟨content, span, comments, comments.flatMap m.extract, inner.1⟩,
      notTrailingAt span.stop inner.2)

/-- Declarations in a row with their comments, and the comments that are left. -/
def placeAll (pool : List Note) : List Node → List Node × List Note
  | [] => ([], pool)
  | n :: ns =>
    let first := place pool n
    let others := placeAll first.2 ns
    (first.1 :: others.1, others.2)

end

/-- A comment that no declaration follows, as a node, with the directives in it behind it. -/
def detachedNodes (n : Note) : List Node :=
  let comment := put .detached n
  { content := .comment comment, span := comment.span } ::
    (m.extract comment).map fun d => { content := .directive d, span := d.span }

end Placement

end SchemaDepot
