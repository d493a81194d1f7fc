import SchemaDepot.Token

/-! # Comments and directives

A comment keeps the text between its delimiters. A directive is a structured note found in one. -/

namespace SchemaDepot

/-- A comment up to the end of its line, or one between delimiters. -/
inductive CommentKind where
  | line
  | block
deriving DecidableEq

/-- Where a comment stands: before its declaration, on the line on which that ends, or with no
declaration after it. -/
inductive Placement where
  | leading
  | trailing
  | detached
deriving DecidableEq

/-- A comment without its delimiters; the span includes them. -/
structure Comment where
  kind : CommentKind
  placement : Placement
  text : String
  span : Span
deriving DecidableEq

/-- An option and a value for it, noted in a comment. -/
structure Directive where
  option : String
  value : String
  span : Span
deriving DecidableEq

/-- The comment that a token is, if it is one. -/
def Token.comment? (t : Token) : Option Comment :=
  match t.kind with
  | .lineComment => some ⟨.line, .leading, t.text, t.span⟩
  | .blockComment => some ⟨.block, .leading, t.text, t.span⟩
  | _ => none

end SchemaDepot
