import SchemaDepot.Generate.Naming
import SchemaDepot.Generate.Code.Item
import SchemaDepot.Schema.Node
import SchemaDepot.Text.Blank

/-! # What names mean in generated code

* `escapeKeyword`: a name that is no keyword.
* `scalar?`: the types that need no declaration.
* `Symbols`: the messages and enums that were declared, by the last part of their names. -/

namespace SchemaDepot.Code

/-! ### Keywords -/

/-- The words that name nothing unless they are written raw. -/
def keywords : List String :=
  ["as", "async", "await", "break", "const", "continue", "crate", "dyn", "else", "enum", "extern",
    "false", "fn", "for", "if", "impl", "in", "let", "loop", "match", "mod", "move", "mut", "pub",
    "ref", "return", "static", "struct", "trait", "true", "type", "unsafe", "use", "where", "while",
    "abstract", "become", "box", "do", "final", "macro", "override", "priv", "typeof", "unsized",
    "virtual", "yield", "try"]

/-- A name, written raw if it is a keyword. -/
def escapeKeyword (name : String) : String :=
  if keywords.contains name then "r#" ++ name else name

/-- The characters of a name without any marks of raw names before it. -/
def dropRawMarks : List Char → List Char
  | 'r' :: '#' :: cs => dropRawMarks cs
  | cs => cs

/-- A name without any marks of raw names before it. -/
def withoutRawMarks (name : String) : String := String.ofList (dropRawMarks name.toList)

/-- The name of a field, a method or a module. -/
def valueName (name : String) : String := escapeKeyword (Naming.snakeCase name)

/-! ### Types -/

/-- The type of a scalar. -/
def scalar? : String → Option String
  | "double" => some "f64"
  | "float" => some "f32"
  | "int32" | "sint32" | "sfixed32" => some "i32"
  | "int64" | "sint64" | "sfixed64" => some "i64"
  | "uint32" | "fixed32" => some "u32"
  | "uint64" | "fixed64" => some "u64"
  | "bool" => some "bool"
  | "string" => some "String"
  | "bytes" => some "Vec<u8>"
  | _ => none

/-- The characters before the first comma, and those after it. -/
def splitComma : List Char → Option (List Char × List Char)
  | [] => none
  | ',' :: cs => some ([], cs)
  | c :: cs => (splitComma cs).map fun (before, after) => (c :: before, after)

/-- The types of the keys and of the values, if a type is a map. -/
def mapTypes? (type : String) : Option (String × String) :=
  match type.toList with
  | 'm' :: 'a' :: 'p' :: '<' :: cs =>
    if cs.getLast? = some '>' then
      (splitComma cs.dropLast).map fun (key, value) =>
        (String.ofList (Text.trimChars key), String.ofList (Text.trimChars value))
    else none
  | _ => none

/-! ### Symbols -/

/-- A declared message or enum, with its name in the source text. -/
structure Symbol where
  isMessage : Bool
  name : String
deriving DecidableEq

/-- What is declared under which name. The first of equal names counts. -/
abbrev Symbols : Type := List (String × Symbol)

namespace Symbols

mutual

/-- What a declaration in the scope named `above` declares, itself first. -/
def ofNode (above : String) : Node → Symbols
  | ⟨content, _, _, _, children⟩ =>
    match content with
    | .message name =>
      let own := above ++ Naming.pascalCase name
      (name, ⟨true, own⟩) :: ofNodes own children
    | .enumeration name => [(name, ⟨false, above ++ Naming.pascalCase name⟩)]
    | _ => []

/-- What declarations in the scope named `above` declare. -/
def ofNodes (above : String) : List Node → Symbols
  | [] => []
  | n :: ns => ofNode above n ++ ofNodes above ns

end

/-- The last part of a name with dots. -/
def lastPart (name : String) : String := (Text.split '.' name).getLast?.getD name

/-- The declaration that a name refers to by its last part. -/
def find? (symbols : Symbols) (name : String) : Option Symbol :=
  (List.find? (·.1 == lastPart name) symbols).map Prod.snd

/-- The name in the source text of what a name refers to, declared or not. -/
def nameOf (symbols : Symbols) (name : String) : String :=
  match symbols.find? name with
  | some symbol => symbol.name
  | none => Naming.pascalCase (lastPart name)

/-- A name refers to a message. -/
def isMessage (symbols : Symbols) (name : String) : Bool :=
  match symbols.find? name with
  | some symbol => symbol.isMessage
  | none => false

end Symbols

end SchemaDepot.Code
