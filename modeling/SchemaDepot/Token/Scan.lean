import SchemaDepot.Token.Lexeme

/-! # Scanning tokens

* `Token.scan`: all tokens of a text, and the point after it. -/

namespace SchemaDepot.Token

/-- The tokens of `cs`, which stand at `p`, and the point after them. -/
def scanFrom (p : Position) (cs : List Char) : Except SyntaxFault (List Token × Position) :=
  let start := p.advanceOver (cs.takeWhile Text.isBlank)
  let body := cs.dropWhile Text.isBlank
  if body.isEmpty then .ok ([], start)
  else
    match _h : Lexeme.read body with
    | .error fault => .error ⟨.lexical fault, start, none⟩
    | .ok lexeme =>
      let stop := start.advanceOver lexeme.source
      let (kind, text) := lexeme.value
      (scanFrom stop lexeme.rest).map fun (ts, final) =>
        (⟨kind, text, Span.between start stop⟩ :: ts, final)
termination_by cs.length
decreasing_by
  have := Lexeme.read_length_lt _h
  have : body.length ≤ cs.length := (List.dropWhile_suffix Text.isBlank).length_le
  omega

/-- The tokens of a text, which may begin with a byte order mark, and the point after them. -/
def scan (source : String) : Except SyntaxFault (List Token × Position) :=
  match source.toList with
  | '\uFEFF' :: cs => scanFrom (Position.origin.advance '\uFEFF') cs
  | cs => scanFrom Position.origin cs

end SchemaDepot.Token
