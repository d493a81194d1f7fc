import SchemaDepot.SyntaxFault
import SchemaDepot.Token

/-! # Readers of tokens

A reader takes tokens off the front of a list, or stops before one it cannot take. Where it stopped
is told by the tokens that are left.

* `Reader.token`, `symbol`, `word`, `keyword`: one token, if it is the right one.
* `Reader.accept`: a symbol that may be missing.
* `Reader.many`, `Reader.followers`, `Reader.chain`: repetitions. Each round takes at least one
  token, so as many rounds as there are tokens suffice. -/

namespace SchemaDepot

/-- Where and why reading stopped: before the tokens `rest`. -/
structure Stop where
  fault : GrammarFault
  rest : List Token

/-- A way to take something off the front of a list of tokens. -/
abbrev Reader (α : Type) : Type := StateT (List Token) (Except Stop) α

namespace Reader

variable {α : Type}

/-! ### Single tokens -/

/-- Stops because the next token is not what is described. -/
def expected (what : String) : Reader α := fun ts =>
  .error ⟨.expected what (ts.head?.map Token.text), ts⟩

/-- The next token, which stays where it is. -/
def peek : Reader (Option Token) := fun ts => .ok (ts.head?, ts)

/-- The next token, if it is accepted. -/
def token (accepts : Token → Bool) (what : String) : Reader Token
  | [] => expected what []
  | t :: ts => if accepts t then .ok (t, ts) else expected what (t :: ts)

/-- The next token is the symbol `c`. -/
def isSymbol (c : Char) (t : Token) : Bool := t.kind == .symbol c

/-- The next token is the word `w`. -/
def isWord (w : String) (t : Token) : Bool := t.kind == .word && t.text == w

/-- A word between single quotes, as messages name it. -/
def named (w : String) : String := "'" ++ w ++ "'"

/-- The symbol `c`. -/
def symbol (c : Char) : Reader Token := token (isSymbol c) (named c.toString)

/-- A word, described by its role. -/
def word (what : String) : Reader Token := token (fun t => t.kind == .word) what

/-- The word `w`. -/
def keyword (w : String) : Reader Token := token (isWord w) (named w)

/-- The text of the next token, if that is a word. -/
def peekWord : Reader (Option String) := fun ts =>
  .ok (ts.head?.bind fun t => if t.kind == .word then some t.text else none, ts)

/-- Takes the next token if it is accepted, and says whether it did. -/
def acceptToken (accepts : Token → Bool) : Reader Bool
  | [] => .ok (false, [])
  | t :: ts => if accepts t then .ok (true, ts) else .ok (false, t :: ts)

/-- Takes the symbol `c` if it is next. -/
def accept (c : Char) : Reader Bool := acceptToken (isSymbol c)

/-- Takes the word `w` if it is next. -/
def acceptWord (w : String) : Reader Bool := acceptToken (isWord w)

/-! ### Repetitions

The rounds of a repetition are counted by a list of tokens, `room`: one round for each. -/

/-- Items behind a `sep` each, in at most as many rounds as there is room. -/
def follow (sep : Char) (item : Reader α) : List Token → Reader (List α)
  | [] => pure []
  | _ :: room => do
    if ← accept sep then
      let x ← item
      let xs ← follow sep item room
      return x :: xs
    else return []

/-- Items behind a `sep` each. -/
def followers (sep : Char) (item : Reader α) : Reader (List α) := do
  follow sep item (← get)

/-- One item or more, with a `sep` between neighbours. -/
def chain (sep : Char) (item : Reader α) : Reader (List α) := do
  let x ← item
  let xs ← followers sep item
  return x :: xs

/-- Items or semicolons, as far as `ends` does not hold of the next token, in at most as many
rounds as there is room. -/
def manyWithin (ends : Token → Bool) (item : Reader α) : List Token → Reader (List α)
  | [] => pure []
  | _ :: room => do
    match ← peek with
    | none => return []
    | some t =>
      if ends t then return []
      else if isSymbol ';' t then
        let _ ← accept ';'
        manyWithin ends item room
      else
        let x ← item
        let xs ← manyWithin ends item room
        return x :: xs

/-- Items up to a token of which `ends` holds, or up to the last token; semicolons between them
mean nothing. -/
def many (ends : Token → Bool) (item : Reader α) : Reader (List α) := do
  manyWithin ends item (← get)

end Reader

end SchemaDepot
