import SchemaDepot.Position
import SchemaDepot.Text.Quoted

/-! # What is wrong with a text

* `LexicalFault`: why no token can be read.
* `GrammarFault`: why the tokens do not form a schema.
* `SyntaxFault`: one of both, with its place and, if known, the file. -/

namespace SchemaDepot

/-- Why no token can be read at a point. -/
inductive LexicalFault where
  | unterminatedComment
  | unterminatedLiteral
  | emptyHexEscape
  | notACodePoint
  | unknownEscape (c : Char)
  | badNumeral (text : String)
  | strayCharacter (c : Char)
deriving DecidableEq

/-- The wording of a lexical fault. -/
def LexicalFault.message : LexicalFault → String
  | unterminatedComment => "unterminated block comment"
  | unterminatedLiteral => "unterminated string literal"
  | emptyHexEscape => "hex escape without digits"
  | notACodePoint => "escape is not a valid code point"
  | unknownEscape c => "invalid escape sequence '\\" ++ c.toString ++ "'"
  | badNumeral text => "invalid numeric literal '" ++ text ++ "'"
  | strayCharacter c => "unexpected character " ++ Text.quotedChar c

/-- Why tokens do not form a schema: the token found is not the one expected, blocks or braces are
nested too deeply, or a brace stands in a list of reserved ranges. -/
inductive GrammarFault where
  | expected (what : String) (found : Option String)
  | deepDeclarations
  | deepValue
  | braceIn (brace keyword : String)
deriving DecidableEq

/-- The wording of a grammatical fault. -/
def GrammarFault.message : GrammarFault → String
  | expected what (some text) => "expected " ++ what ++ ", found '" ++ text ++ "'"
  | expected what none => "expected " ++ what ++ ", found end of input"
  | deepDeclarations => "declarations nested too deeply"
  | deepValue => "option value nested too deeply"
  | braceIn brace keyword => "unexpected '" ++ brace ++ "' in " ++ keyword

/-- The cause of a syntax fault. -/
inductive SyntaxCause where
  | lexical (fault : LexicalFault)
  | grammatical (fault : GrammarFault)
deriving DecidableEq

/-- The wording of a cause. -/
def SyntaxCause.message : SyntaxCause → String
  | lexical fault => fault.message
  | grammatical fault => fault.message

/-- A cause, the point where it shows, and the path of the file, if it is one of several. -/
structure SyntaxFault where
  cause : SyntaxCause
  place : Position
  file : Option String := none
deriving DecidableEq

namespace SyntaxFault

/-- The cause in words, after the path of the file. -/
def detail (f : SyntaxFault) : String :=
  match f.file with
  | none => f.cause.message
  | some path => path ++ ": " ++ f.cause.message

/-- The fault with its line and column. -/
def message (f : SyntaxFault) : String :=
  "Syntax error at " ++ toString f.place.line ++ ":" ++ toString f.place.column ++ ": " ++ f.detail

/-- The fault, told of the file at `path`. -/
def inFile (path : String) (f : SyntaxFault) : SyntaxFault := { f with file := some path }

end SyntaxFault

end SchemaDepot
