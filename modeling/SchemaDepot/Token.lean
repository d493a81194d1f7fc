import SchemaDepot.Position

/-! # Tokens

The smallest meaningful pieces of a schema text. Comments are tokens too; `significant` drops
them. -/

namespace SchemaDepot

/-- The class of a token. -/
inductive TokenKind where
  | word
  | integer
  | decimal
  | literal
  | symbol (c : Char)
  | lineComment
  | blockComment
deriving DecidableEq, Inhabited

/-- A token: its class, its text and where it stands. The text of a literal is what its escapes
denote, that of a comment lacks the delimiters, that of any other token is the source itself. -/
structure Token where
  kind : TokenKind
  text : String
  span : Span
deriving DecidableEq, Inhabited

namespace TokenKind

/-- The two classes of comments. -/
def isComment : TokenKind → Bool
  | lineComment | blockComment => true
  | _ => false

end TokenKind

namespace Token

/-- The token is a comment. -/
def isComment (t : Token) : Bool := t.kind.isComment

/-- The tokens that are not comments. -/
def significant (ts : List Token) : List Token := ts.filter (!·.isComment)

end Token

end SchemaDepot
