import Mathlib.Computability.Language
import SchemaDepot.Schema.Grammar

/-! # The phrases of schemas

The grammar of schemas as languages of significant tokens: `*` is one phrase behind another, `+` is
a choice, and `∗` is any number of phrases in a row.

* `dotted`, `optionName`, `constant`, `compactOptions`: names and values.
* `member`: what may stand in a block of a scope; `block`: a block with others in it.
* `file`: a whole schema.

A field and a value of an enum begin with a name that anyone may choose. `file` is told with which
words they do not begin in which scope: with none, the grammar is free of context, and with those
of `leads` a word that begins something else in a scope is always read as that. -/

namespace SchemaDepot.Phrase

open Computability
open Reader (isSymbol isWord)
open Grammar (Scope isLiteral isSignable maxNesting)

/-! ### Parts of phrases -/

/-- One token that is accepted. -/
def one (accepts : Token → Bool) : Language Token := {ts | ∃ t, accepts t ∧ ts = [t]}

/-- The symbol `c`. -/
def symbol (c : Char) : Language Token := one (isSymbol c)

/-- The word `w`. -/
def keyword (w : String) : Language Token := one (isWord w)

/-- Any word. -/
def isAnyWord (t : Token) : Bool := t.kind == .word

/-- A word. -/
def word : Language Token := one isAnyWord

/-- A phrase or nothing. -/
def maybe (L : Language Token) : Language Token := 1 + L

/-- One phrase or more, with the symbol `c` between neighbours. -/
def separated (c : Char) (L : Language Token) : Language Token := L * (symbol c * L)∗

/-- No token of which `p` holds is next. -/
def Clear (p : Token → Bool) (ts : List Token) : Prop := ∀ t ∈ ts.head?, p t = false

/-- The phrases that do not begin with a token of which `p` holds. -/
def avoiding (p : Token → Bool) (L : Language Token) : Language Token := {ts | ts ∈ L ∧ Clear p ts}

/-- The token is one of the words. -/
def isOneOf (words : List String) (t : Token) : Bool := isAnyWord t && words.contains t.text

/-! ### Names and values -/

/-- Words with dots between them, perhaps after a dot. -/
def dotted : Language Token := maybe (symbol '.') * separated '.' word

/-- Words, and names in parentheses, with dots between them. -/
def optionName : Language Token := separated '.' (word + symbol '(' * dotted * symbol ')')

/-- One literal or more. -/
def literals : Language Token := one isLiteral * (one isLiteral)∗

/-- The token is a number. -/
def isNumber (t : Token) : Bool := t.kind == .integer || t.kind == .decimal

/-- The token is neither an opening nor a closing brace. -/
def isPlain (t : Token) : Bool := !(isSymbol '{' t || isSymbol '}' t)

/-- Any tokens between matching braces, which nest at most so deep. -/
def group : Nat → Language Token
  | 0 => 0
  | depth + 1 => symbol '{' * (one isPlain + group depth)∗ * symbol '}'

/-- The value of an option. -/
def constant : Language Token :=
  literals + one isNumber + separated '.' word + (symbol '+' + symbol '-') * one isSignable +
    group maxNesting

/-- A name and its value, with an equals sign between them. -/
def assignment : Language Token := optionName * symbol '=' * constant

/-- Options in brackets. -/
def compactOptions : Language Token := symbol '[' * separated ',' assignment * symbol ']'

/-! ### Declarations without a block -/

/-- The dialect of a file. -/
def dialect : Language Token :=
  (keyword "syntax" + keyword "edition") * symbol '=' * literals * symbol ';'

/-- The package of a file. -/
def package : Language Token := keyword "package" * dotted * symbol ';'

/-- An import. -/
def importFile : Language Token :=
  keyword "import" * maybe (keyword "public" + keyword "weak") * literals * symbol ';'

/-- An option and its value. -/
def setting : Language Token := keyword "option" * assignment * symbol ';'

/-- The label of a field. -/
def label : Language Token := keyword "optional" + keyword "required" + keyword "repeated"

/-- The type of a field. -/
def fieldType : Language Token :=
  keyword "map" * symbol '<' * dotted * symbol ',' * dotted * symbol '>' + dotted

/-- An integer. -/
def integer : Language Token := one (fun t => t.kind == .integer)

/-- A field without a label. -/
def bareField : Language Token :=
  fieldType * word * symbol '=' * integer * maybe compactOptions * symbol ';'

/-- A value of an enum. -/
def enumValue : Language Token :=
  word * symbol '=' * maybe (symbol '-') * integer * maybe compactOptions * symbol ';'

/-- How many brackets are open behind tokens, if so many are before them; a closing bracket that
closes none means nothing. -/
def openAfter (brackets : Nat) (ts : List Token) : Nat :=
  ts.foldl (fun n t => if isSymbol '[' t then n + 1 else if isSymbol ']' t then n - 1 else n)
    brackets

/-- Tokens other than braces up to the first semicolon outside brackets, if so many brackets are
open before them. -/
def rangesWithin (brackets : Nat) : Language Token :=
  {ts | ∃ inner last, ts = inner ++ [last] ∧ isSymbol ';' last ∧ openAfter brackets inner = 0 ∧
    (∀ t ∈ inner, isPlain t) ∧
    ∀ before t after, inner = before ++ t :: after → isSymbol ';' t → openAfter brackets before ≠ 0}

/-- Reserved or extension ranges, behind the word that says which. -/
def reserved (w : String) : Language Token := keyword w * rangesWithin 0

/-- A message type in parentheses, perhaps as a stream. -/
def rpcType : Language Token := symbol '(' * maybe (keyword "stream") * dotted * symbol ')'

/-! ### Declarations with a block -/

section Blocks
variable (leads : Scope → List String) (block : Scope → Language Token)

/-- A keyword, a name and a block. -/
def named (kind : String) (scope : Scope) : Language Token := keyword kind * word * block scope

/-- Further fields of a message declared elsewhere. -/
def extension : Language Token := keyword "extend" * dotted * block .extension

/-- A call of a service. -/
def rpc : Language Token :=
  keyword "rpc" * word * rpcType * keyword "returns" * rpcType * (symbol ';' + block .rpc)

/-- A field with a label, or one without that does not begin like something else. -/
def field (scope : Scope) : Language Token :=
  label * bareField + avoiding (isOneOf (leads scope)) bareField

/-- What may stand in a block of a scope. -/
def member : Scope → Language Token
  | .message => setting + named block "message" .message + named block "enum" .enumeration +
      extension block + named block "oneof" .oneof + (reserved "reserved" + reserved "extensions") +
      field leads .message
  | .enumeration =>
      setting + reserved "reserved" + avoiding (isOneOf (leads .enumeration)) enumValue
  | .service => setting + rpc block
  | .rpc => setting
  | .oneof => setting + avoiding (isOneOf (leads .oneof)) bareField
  | .extension => field leads .extension

/-- What may stand in a file. -/
def declaration : Language Token :=
  dialect + package + importFile + setting + named block "message" .message +
    named block "enum" .enumeration + named block "service" .service + extension block

end Blocks

/-- A block in which blocks nest at most so deep, itself counted. -/
def block (leads : Scope → List String) : Nat → Scope → Language Token
  | 0, _ => 0
  | depth + 1, scope =>
    symbol '{' * (symbol ';' + member leads (block leads depth) scope)∗ * symbol '}'

/-- A whole schema. -/
def file (leads : Scope → List String) : Language Token :=
  (symbol ';' + declaration (block leads maxNesting))∗

/-- The words with which no field without a label begins in a scope, nor a value of an enum: they
begin something else there. -/
def leads : Scope → List String
  | .message => ["option", "message", "enum", "extend", "oneof", "reserved", "extensions",
      "optional", "required", "repeated"]
  | .enumeration => ["option", "reserved"]
  | .oneof => ["option"]
  | .extension => ["optional", "required", "repeated"]
  | .service | .rpc => []

end SchemaDepot.Phrase
