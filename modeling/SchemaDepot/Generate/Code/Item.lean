/-! # Items of source text

What the generator writes, as data: structs, enums and traits with the attributes that the
serialization needs.

* `CodeItem.text`: an item as source text, after an empty line. -/

namespace SchemaDepot

/-- A type in source text. -/
inductive CodeType where
  | plain (name : String)
  | boxed (inner : CodeType)
  | vector (inner : CodeType)
  | optional (inner : CodeType)
  | map (key value : CodeType)
deriving DecidableEq

namespace CodeType

/-- The type as source text. -/
def text : CodeType → String
  | plain name => name
  | boxed inner => "Box<" ++ inner.text ++ ">"
  | vector inner => "Vec<" ++ inner.text ++ ">"
  | optional inner => "Option<" ++ inner.text ++ ">"
  | map key value => "std::collections::HashMap<" ++ key.text ++ ", " ++ value.text ++ ">"

/-- The type is an `Option`. -/
def isOptional : CodeType → Bool
  | optional _ => true
  | _ => false

end CodeType

/-- A field of a struct, and the name it is serialized under if that is another one. -/
structure CodeField where
  name : String
  rename : Option String
  type : CodeType
deriving DecidableEq

/-- A variant of an enum without data, the name it is serialized under, and its number if that is
written. -/
structure CodeVariant where
  name : String
  rename : String
  number : Option Int
deriving DecidableEq

/-- A method of a trait. -/
structure CodeMethod where
  name : String
  request : CodeType
  response : CodeType
deriving DecidableEq

/-- A struct, an enum of variants without data, an enum of variants with one value each, or a
trait. -/
inductive CodeItem where
  | struct (docs derives : List String) (name : String) (fields : List CodeField)
  | enumeration (docs derives : List String) (numbered : Bool) (name : String)
      (variants : List CodeVariant)
  | choice (derives : List String) (name : String) (variants : List (String × CodeType))
  | service (docs : List String) (name : String) (methods : List CodeMethod)
deriving DecidableEq

namespace CodeItem

/-- A line of source text. -/
def line (s : String) : String := s ++ "\n"

/-- A line inside an item. -/
def inner (s : String) : String := line ("    " ++ s)

/-- An attribute that gives the serialized name. -/
def renameAttribute (name : String) : String :=
  inner ("#[serde(rename = \"" ++ name ++ "\")]")

/-- Lines of documentation. -/
def docText (docs : List String) : String := String.join (docs.map fun d => line ("/// " ++ d))

/-- The attribute that lists what is derived. -/
def deriveText (derives : List String) : String :=
  line ("#[derive(" ++ ", ".intercalate derives ++ ")]")

/-- A field with its attributes. -/
def fieldText (f : CodeField) : String :=
  (if f.type.isOptional then inner "#[serde(skip_serializing_if = \"Option::is_none\")]" else "") ++
    (f.rename.map renameAttribute).getD "" ++
    inner ("pub " ++ f.name ++ ": " ++ f.type.text ++ ",")

/-- A variant without data, with its attributes. -/
def variantText (v : CodeVariant) : String :=
  renameAttribute v.rename ++
    inner (v.name ++ (v.number.map fun n => " = " ++ toString n).getD "" ++ ",")

/-- A method without a body. -/
def methodText (m : CodeMethod) : String :=
  inner ("fn " ++ m.name ++ "(&self, request: " ++ m.request.text ++ ") -> Result<" ++
    m.response.text ++ ", Self::Error>;")

/-- The lines of an item between its braces, behind a head. -/
def block (head : String) (body : List String) : String :=
  line (head ++ " \x7b") ++ String.join body ++ line "\x7d"

/-- An item as source text, after an empty line. -/
def text : CodeItem → String
  | struct docs derives name fields =>
    line "" ++ docText docs ++ deriveText derives ++
      block ("pub struct " ++ name) (fields.map fieldText)
  | enumeration docs derives numbered name variants =>
    line "" ++ docText docs ++ deriveText derives ++
      (if numbered then line "#[repr(i32)]" else "") ++
      block ("pub enum " ++ name) (variants.map variantText)
  | choice derives name variants =>
    line "" ++ deriveText derives ++ line "#[serde(rename_all = \"snake_case\")]" ++
      block ("pub enum " ++ name)
        (variants.map fun (name, type) => inner (name ++ "(" ++ type.text ++ "),"))
  | service docs name methods =>
    line "" ++ docText docs ++
      block ("pub trait " ++ name) (inner "type Error;" :: methods.map methodText)

end CodeItem

end SchemaDepot
