import SchemaDepot.Schema.Node
import SchemaDepot.Schema.Reader

/-! # The grammar of schemas

Readers for names, values and declarations. Comments play no part here: the readers see significant
tokens only, and the nodes they build carry none.

* `Grammar.dotted`, `optionName`, `constant`, `compactOptions`: names and values.
* `Grammar.member`: a declaration in a block of a given scope, told what a block is.
* `Grammar.block`: a block in which blocks nest at most so deep.
* `Grammar.file`: a whole schema. -/

namespace SchemaDepot.Grammar

open Reader

/-- How deep blocks nest, and braces in a value. -/
def maxNesting : Nat := 128

/-! ### Names -/

/-- Words with dots between them, perhaps after a dot. -/
def dotted (what : String) : Reader String := do
  let rooted ← accept '.'
  let words ← chain '.' (word what)
  return (if rooted then "." else "") ++ ".".intercalate (words.map Token.text)

/-- A word, or the name of an extension in parentheses. -/
def optionNamePart : Reader String := do
  if ← accept '(' then
    let name ← dotted "an extension name"
    let _ ← symbol ')'
    return "(" ++ name ++ ")"
  else return (← word "an option name").text

/-- The name of an option: parts with dots between them. -/
def optionName : Reader String := do
  return ".".intercalate (← chain '.' optionNamePart)

/-! ### Values -/

/-- The token is a literal. -/
def isLiteral (t : Token) : Bool := t.kind == .literal

/-- All literals that are next, as one text. -/
def moreLiterals : Reader String := fun ts =>
  .ok (String.join ((ts.takeWhile isLiteral).map Token.text), ts.dropWhile isLiteral)

/-- One literal or more, as one text. -/
def literals (what : String) : Reader String := do
  let first ← token isLiteral what
  return first.text ++ (← moreLiterals)

/-- A token as an aggregate keeps it: literals in quotes, others as they are. -/
def kept (t : Token) : String := if isLiteral t then Text.quoted t.text else t.text

/-- What is kept of an aggregate up to the brace that closes it, `depth` braces being open. -/
def aggregateTail (depth : Nat) : Reader (List String)
  | [] => expected (named "\x7d") []
  | t :: ts =>
    let depth :=
      if isSymbol '{' t then depth + 1 else if isSymbol '}' t then depth - 1 else depth
    if maxNesting < depth then .error ⟨.deepValue, t :: ts⟩
    else if depth = 0 then .ok ([kept t], ts)
    else (aggregateTail depth ts).map fun (parts, rest) => (kept t :: parts, rest)

/-- Tokens between matching braces, kept with one blank between neighbours. -/
def aggregate : Reader String := do
  let first ← symbol '{'
  return " ".intercalate (first.text :: (← aggregateTail 1))

/-- A token that a sign may stand before. -/
def isSignable (t : Token) : Bool :=
  t.kind == .integer || t.kind == .decimal || t.kind == .word

/-- The value of an option. -/
def constant : Reader String := do
  match (← peek).map Token.kind with
  | some .literal => literals "a string"
  | some .integer | some .decimal => return (← token (fun _ => true) "a number").text
  | some (.symbol '-') =>
    let _ ← symbol '-'
    return "-" ++ (← token isSignable "a number").text
  | some (.symbol '+') =>
    let _ ← symbol '+'
    return "+" ++ (← token isSignable "a number").text
  | some .word => dotted "a constant"
  | some (.symbol '{') => aggregate
  | _ => expected "an option value"

/-- A name and its value, with an equals sign between them. -/
def assignment : Reader (String × String) := do
  let name ← optionName
  let _ ← symbol '='
  let value ← constant
  return (name, value)

/-- Options in brackets, or nothing. -/
def compactOptions : Reader (List CompactOption) := do
  if ← accept '[' then
    let options ← chain ',' assignment
    let _ ← symbol ']'
    return options.map fun (name, value) => ⟨name, value⟩
  else return []

/-! ### Declarations without a block -/

/-- The node that declares `content` from a point up to a token. -/
def leaf (content : Content) (start : Position) (last : Token) : Node :=
  { content, span := Span.between start last.span.stop }

/-- The point where the next token starts; of no account if there is none. -/
def startOfNext : Reader Position := do
  return ((← peek).map (·.span.start)).getD Position.origin

/-- The dialect of a file: `syntax` or `edition` and its name. -/
def dialect : Reader Node := do
  let first ← token (fun _ => true) (named "syntax")
  let _ ← symbol '='
  let value ← literals "a syntax string"
  return leaf (.dialect first.text value) first.span.start (← symbol ';')

/-- The package of a file. -/
def package : Reader Node := do
  let first ← keyword "package"
  let name ← dotted "a package name"
  return leaf (.package name) first.span.start (← symbol ';')

/-- An import, perhaps a public or a weak one. -/
def importFile : Reader Node := do
  let first ← keyword "import"
  let isPublic ← acceptWord "public"
  let isWeak ← if isPublic then pure false else acceptWord "weak"
  let path ← literals "an import path"
  return leaf (.importFile ⟨path, isPublic, isWeak⟩) first.span.start (← symbol ';')

/-- An option and its value. -/
def setting : Reader Node := do
  let first ← keyword "option"
  let (name, value) ← assignment
  return leaf (.setting name value) first.span.start (← symbol ';')

/-- The label of a field, or nothing. -/
def fieldLabel : Reader (Option FieldLabel) := do
  if ← acceptWord "optional" then return some .optional
  else if ← acceptWord "required" then return some .required
  else if ← acceptWord "repeated" then return some .repeated
  else return none

/-- The type of a field: a name, or a map from one type to another. A word `map` without a bracket
behind it is a name. -/
def fieldType : Reader String := do
  if ← acceptWord "map" then
    if ← accept '<' then
      let key ← dotted "a map key type"
      let _ ← symbol ','
      let value ← dotted "a map value type"
      let _ ← symbol '>'
      return "map<" ++ key ++ ", " ++ value ++ ">"
    else
      let words ← followers '.' (word "a type name")
      return ".".intercalate ("map" :: words.map Token.text)
  else dotted "a field type"

/-- An integer, described by its role. -/
def integer (what : String) : Reader String := do
  return (← token (fun t => t.kind == .integer) what).text

/-- A field, with a label if it may have one. -/
def field (labelled : Bool) : Reader Node := do
  let start ← startOfNext
  let label ← if labelled then fieldLabel else pure none
  let type ← fieldType
  let name ← word "a field name"
  let _ ← symbol '='
  let number ← integer "a field number"
  let options ← compactOptions
  return leaf (.field ⟨label, type, name.text, number, options⟩) start (← symbol ';')

/-- A value of an enum. -/
def enumValue : Reader Node := do
  let name ← word "an enum value name"
  let _ ← symbol '='
  let negative ← accept '-'
  let number ← integer "an enum number"
  let number := if negative then "-" ++ number else number
  let options ← compactOptions
  return leaf (.enumValue ⟨name.text, number, options⟩) name.span.start (← symbol ';')

/-- One more item, unless it is empty. -/
def addItem (item : List String) (items : List String) : List String :=
  if item.isEmpty then items else " ".intercalate item :: items

/-- The items up to the semicolon that ends them, and that semicolon. While brackets are open,
commas and semicolons belong to an item; `item` is what was read of the current one. -/
def ranges (first : String) (brackets : Nat) (item : List String) : Reader (List String × Token)
  | [] => expected (named ";") []
  | t :: ts =>
    if isSymbol ';' t && brackets == 0 then .ok ((addItem item [], t), ts)
    else if isSymbol ',' t && brackets == 0 then
      (ranges first 0 [] ts).map fun ((items, last), rest) => ((addItem item items, last), rest)
    else if isSymbol '{' t || isSymbol '}' t then .error ⟨.braceIn t.text first, t :: ts⟩
    else
      let brackets :=
        if isSymbol '[' t then brackets + 1 else if isSymbol ']' t then brackets - 1 else brackets
      ranges first brackets (item ++ [t.text]) ts

/-- Reserved or extension ranges. -/
def reserved : Reader Node := do
  let first ← token (fun _ => true) (named "reserved")
  let (items, last) ← ranges first.text 0 []
  return leaf (.reserved first.text items) first.span.start last

/-! ### Declarations with a block -/

/-- Where a declaration stands, which says what it may be. -/
inductive Scope where
  | message
  | enumeration
  | service
  | rpc
  | oneof
  | extension
deriving DecidableEq

/-- What is read of a block: the declarations in it, and its last token. -/
abbrev Block : Type := List Node × Token

/-- The node that declares `content` with a block of its own. -/
def blockNode (content : Content) (first : Token) (body : Block) : Node :=
  { content, span := Span.between first.span.start body.2.span.stop, children := body.1 }

section Blocks
variable (block : Scope → Reader Block)

/-- A keyword, a name and a block. -/
def namedBlock (kind what : String) (content : String → Content) (scope : Scope) :
    Reader Node := do
  let first ← keyword kind
  let name ← word what
  return blockNode (content name.text) first (← block scope)

/-- A message. -/
def message : Reader Node := namedBlock block "message" "a message name" .message .message

/-- An enum. -/
def enumeration : Reader Node := namedBlock block "enum" "an enum name" .enumeration .enumeration

/-- A service. -/
def service : Reader Node := namedBlock block "service" "a service name" .service .service

/-- A choice between fields. -/
def oneof : Reader Node := namedBlock block "oneof" "a oneof name" .oneof .oneof

/-- Further fields of a message declared elsewhere. -/
def extension : Reader Node := do
  let first ← keyword "extend"
  let extendee ← dotted "an extended type"
  return blockNode (.extension extendee) first (← block .extension)

/-- A message type in parentheses, perhaps as a stream. The word `stream` alone is a type. -/
def rpcType : Reader (String × Bool) := do
  let _ ← symbol '('
  if ← acceptWord "stream" then
    if ← accept ')' then return ("stream", false)
    else
      let type ← dotted "a message type"
      let _ ← symbol ')'
      return (type, true)
  else
    let type ← dotted "a message type"
    let _ ← symbol ')'
    return (type, false)

/-- The options of a call in a block, or a semicolon. -/
def rpcBody : Reader Block := do
  match ← peek with
  | some t => if isSymbol '{' t then block .rpc else return ([], ← symbol ';')
  | none => return ([], ← symbol ';')

/-- A call of a service. -/
def rpc : Reader Node := do
  let first ← keyword "rpc"
  let name ← word "an rpc name"
  let (request, requestStream) ← rpcType
  let _ ← keyword "returns"
  let (response, responseStream) ← rpcType
  let body ← rpcBody block
  return blockNode (.rpc ⟨name.text, request, requestStream, response, responseStream⟩) first body

/-- A declaration in a block of a scope, blocks being read by `block`. -/
def member : Scope → Reader Node
  | .message => do
    match ← peekWord with
    | some "option" => setting
    | some "message" => message block
    | some "enum" => enumeration block
    | some "extend" => extension block
    | some "oneof" => oneof block
    | some "reserved" | some "extensions" => reserved
    | _ => field true
  | .enumeration => do
    match ← peekWord with
    | some "option" => setting
    | some "reserved" => reserved
    | some _ => enumValue
    | none => expected "an enum value"
  | .service => do
    match ← peekWord with
    | some "option" => setting
    | some "rpc" => rpc block
    | _ => expected "'rpc' or 'option'"
  | .rpc => do
    match ← peekWord with
    | some "option" => setting
    | _ => expected "an rpc option"
  | .oneof => do
    match ← peekWord with
    | some "option" => setting
    | _ => field false
  | .extension => field true

/-- A declaration of a file. -/
def declaration : Reader Node := do
  match ← peekWord with
  | some "syntax" | some "edition" => dialect
  | some "package" => package
  | some "import" => importFile
  | some "option" => setting
  | some "message" => message block
  | some "enum" => enumeration block
  | some "service" => service block
  | some "extend" => extension block
  | _ => expected "a top-level declaration"

end Blocks

/-- A block in which blocks nest at most `room` deep, itself counted. -/
def block : Nat → Scope → Reader Block
  | 0, _ => fun ts => do
    let _ ← symbol '{' ts
    .error ⟨.deepDeclarations, ts⟩
  | room + 1, scope => do
    let _ ← symbol '{'
    let members ← many (isSymbol '}') (member (block room) scope)
    return (members, ← symbol '}')

/-- The declarations of a file. -/
def file : Reader (List Node) := many (fun _ => false) (declaration (block maxNesting))

end SchemaDepot.Grammar
