import SchemaDepot.Generate.Basic
import SchemaDepot.Generate.Code.Names
import SchemaDepot.Text.CodePoint

/-! # The code generator

The generator writes Rust. Messages become structs, enums and choices become enums, and services
become traits if they are asked for. A directive `rust_derive` adds to what is derived, and
`rust_skip` with the value `true` leaves a message or an enum out.

* `Code.itemsOf`: the items of a declaration in a scope.
* `Code.generate`: the source files of schema files. -/

namespace SchemaDepot.Code

/-! ### Attributes -/

/-- The declaration is to be left out. -/
def isSkipped (directives : List Directive) : Bool :=
  directives.any fun d => d.option == "rust_skip" && Text.trim d.value == "true"

/-- What is derived in any case. -/
def defaultDerives : List String := ["Debug", "Clone", "PartialEq", "Serialize", "Deserialize"]

/-- The names that directives ask to derive. -/
def requestedDerives (directives : List Directive) : List String :=
  (directives.filter (·.option == "rust_derive")).flatMap fun d =>
    ((Text.split ',' d.value).map Text.trim).filter (!·.isEmpty)

/-- What is derived: the usual, what the kind of item adds, and what directives ask for, each
once. -/
def derives (extra : List String) (directives : List Directive) : List String :=
  (requestedDerives directives).foldl
    (fun found name => if found.contains name then found else found ++ [name])
    (defaultDerives ++ extra)

/-- A line of a comment without blanks and stars around it. -/
def docLine (cs : List Char) : List Char :=
  Text.trimChars ((Text.trimChars cs).dropWhile (· == '*'))

/-- The lines of comments that document a declaration: neither empty nor directives. -/
def docs (comments : List Comment) : List String :=
  comments.flatMap fun c =>
    (((Text.splitAt '\n' c.text.toList).map docLine).filter fun cs =>
      !cs.isEmpty && cs.head? != some '@').map String.ofList

/-! ### Types -/

/-- The type of a value in the struct `owner`, in a box if it is that struct. -/
def valueType (symbols : Symbols) (owner type : String) : CodeType :=
  match scalar? type with
  | some scalar => .plain scalar
  | none =>
    let name := symbols.nameOf type
    if name = owner then .boxed (.plain name) else .plain name

/-- The type of a field in the struct `owner`. -/
def fieldType (symbols : Symbols) (owner : String) (f : Field) : CodeType :=
  match mapTypes? f.type with
  | some (key, value) => .map (valueType symbols owner key) (valueType symbols owner value)
  | none =>
    let inner := valueType symbols owner f.type
    match f.label with
    | some .repeated => .vector inner
    | some .optional => .optional inner
    | _ =>
      if symbols.isMessage f.type && (scalar? f.type).isNone then .optional inner else inner

/-- A message that is sent alone or as a stream. -/
def streamType (symbols : Symbols) (type : String) (isStream : Bool) : CodeType :=
  let inner := CodeType.plain (symbols.nameOf type)
  if isStream then .vector inner else inner

/-! ### Numbers -/

/-- The number that digits of a base denote, if it is below `2 ^ 63`. -/
def ofDigits? (base : Nat) (digits : List Char) : Option Nat := do
  let value ← Text.hexNumber? base digits
  if digits.isEmpty || Nat.pow 2 63 ≤ value then none else some value

/-- The number that a numeral without a sign denotes: hexadecimal behind `0x`, octal behind another
zero. -/
def natural? : List Char → Option Nat
  | '0' :: 'x' :: digits | '0' :: 'X' :: digits => ofDigits? 16 digits
  | '0' :: d :: digits => ofDigits? 8 (d :: digits)
  | digits => ofDigits? 10 digits

/-- The number that a numeral denotes. -/
def integer? (numeral : String) : Option Int :=
  match numeral.toList with
  | '-' :: cs => (natural? cs).map fun n => -(n : Int)
  | cs => (natural? cs).map fun n => (n : Int)

/-! ### Items -/

/-- The fields of the struct `owner` for a declaration in a message: one for a field, and an
optional one for a choice. -/
def structField? (symbols : Symbols) (owner : String) (n : Node) : Option CodeField :=
  match n.content with
  | .field f =>
    let name := valueName f.name
    let rename := if withoutRawMarks name = f.name then none else some f.name
    some ⟨name, rename, fieldType symbols owner f⟩
  | .oneof name =>
    some ⟨valueName name, none, .optional (.plain (owner ++ Naming.pascalCase name))⟩
  | _ => none

/-- The struct named `name` of a message. -/
def structItem (symbols : Symbols) (name : String) (comments : List Comment)
    (directives : List Directive) (children : List Node) : CodeItem :=
  .struct (docs comments) (derives [] directives) name
    (children.filterMap (structField? symbols name))

/-- The variant of a choice for a declaration in it, in the struct `owner`. -/
def choiceVariant? (symbols : Symbols) (owner : String) (n : Node) :
    Option (String × CodeType) :=
  match n.content with
  | .field f => some (Naming.pascalCase f.name, valueType symbols owner f.type)
  | _ => none

/-- The enum of a choice in the struct `owner`. -/
def choiceItem (symbols : Symbols) (owner name : String) (directives : List Directive)
    (children : List Node) : CodeItem :=
  .choice (derives [] directives) (owner ++ Naming.pascalCase name)
    (children.filterMap (choiceVariant? symbols owner))

/-- The values of an enum, each with its number if that can be read. -/
def enumNumbers (children : List Node) : List (String × Option Int) :=
  children.filterMap fun n =>
    match n.content with
    | .enumValue v => some (v.name, integer? v.number)
    | _ => none

/-- The numbers of values can all be read, and no two are equal. -/
def areDistinct : List (Option Int) → Bool
  | [] => true
  | none :: _ => false
  | some n :: numbers => !numbers.contains (some n) && areDistinct numbers

/-- The enum named `name`, its values with their numbers if those tell them apart. -/
def enumItem (name : String) (comments : List Comment) (directives : List Directive)
    (children : List Node) : CodeItem :=
  let values := enumNumbers children
  let numbered := areDistinct (values.map Prod.snd)
  .enumeration (docs comments) (derives ["Copy", "Eq", "Hash"] directives) numbered name
    (values.map fun (value, number) =>
      ⟨Naming.pascalCase value, value, if numbered then number else none⟩)

/-- The method of a call. -/
def method? (symbols : Symbols) (n : Node) : Option CodeMethod :=
  match n.content with
  | .rpc call =>
    some ⟨valueName call.name, streamType symbols call.request call.requestStream,
      streamType symbols call.response call.responseStream⟩
  | _ => none

/-- The trait of a service. -/
def serviceItem (symbols : Symbols) (name : String) (comments : List Comment)
    (children : List Node) : CodeItem :=
  .service (docs comments) (Naming.pascalCase name) (children.filterMap (method? symbols))

mutual

/-- The items of a declaration in the scope named `above`. -/
def itemsOf (symbols : Symbols) (above : String) : Node → List CodeItem
  | ⟨content, _, comments, directives, children⟩ =>
    match content with
    | .message name =>
      let own := above ++ Naming.pascalCase name
      if isSkipped directives then []
      else structItem symbols own comments directives children :: itemsIn symbols own children
    | .enumeration name =>
      if isSkipped directives then []
      else [enumItem (above ++ Naming.pascalCase name) comments directives children]
    | .oneof name => [choiceItem symbols above name directives children]
    | _ => []

/-- The items of declarations in the scope named `above`. -/
def itemsIn (symbols : Symbols) (above : String) : List Node → List CodeItem
  | [] => []
  | n :: ns => itemsOf symbols above n ++ itemsIn symbols above ns

end

/-- The items of a declaration of a file. -/
def fileItems (symbols : Symbols) (includeServices : Bool) (n : Node) : List CodeItem :=
  match n.content with
  | .service name =>
    if includeServices then [serviceItem symbols name n.comments n.children] else []
  | _ => itemsOf symbols "" n

/-! ### Files -/

/-- The first line of every file. -/
def header : String := "// @generated by idl-registry. Do not edit.\n"

/-- The source text of a schema file. -/
def fileText (symbols : Symbols) (includeServices : Bool) (parsed : ParsedFile) : String :=
  header ++ "// source: " ++ parsed.1.path ++ "\n\n" ++
    "use serde::\x7bDeserialize, Serialize\x7d;\n" ++
    String.join ((parsed.2.children.flatMap (fileItems symbols includeServices)).map CodeItem.text)

/-- The module of a schema file. -/
def moduleName (file : TextFile) : String := valueName (Naming.fileStem file.path)

/-- The file that names all modules. -/
def indexText (modules : List String) : String :=
  header ++ "\n" ++ String.join (modules.map fun m => "pub mod " ++ m ++ ";\n")

/-- The symbols of files, the earlier files first. -/
def symbolsOf (files : List ParsedFile) : Symbols :=
  files.flatMap fun parsed => Symbols.ofNodes "" parsed.2.children

/-- The source files of the schema files of an input. -/
def generate (m : Marker) (input : GeneratorInput) : Except String GeneratorOutput := do
  let own ← parseFiles m input.files
  let dependencies ← parseFiles m input.dependencyFiles
  let symbols := symbolsOf (own ++ dependencies)
  return {
    files := own.map fun parsed =>
      ⟨withoutRawMarks (moduleName parsed.1) ++ ".rs",
        fileText symbols input.includeServices parsed⟩
    packageFiles := [⟨"mod.rs", indexText (own.map fun parsed => moduleName parsed.1)⟩] }

end SchemaDepot.Code
