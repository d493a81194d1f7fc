import SchemaDepot.Error
import SchemaDepot.Files.Tree
import SchemaDepot.Schema.Parse

/-! # Schemas from texts, bytes and files

A `SchemaReader` says which directives count and what becomes of a file without a package.

* `parse`, `parseBytes`, `parseFile`: the tree of a schema.
* `packageName`, `imports`, `validate`: single questions about a schema text. -/

namespace SchemaDepot

/-- What becomes of a file without a package statement: an error, or the package without a name. -/
inductive MissingPackage where
  | error
  | empty
deriving DecidableEq

/-- How schemas are read. -/
structure SchemaReader where
  marker : Marker := {}
  missingPackage : MissingPackage := .error
deriving DecidableEq

namespace SchemaReader

variable (r : SchemaReader)

/-- The tree of a schema text. -/
def parse (text : String) : Except Error Node :=
  match Schema.parse r.marker text with
  | .ok root => .ok root
  | .error fault => .error (.malformed fault)

/-- The tree of a schema in bytes. -/
def parseBytes (bytes : List UInt8) : Except Error Node :=
  match Text.Utf8.decode bytes with
  | .ok text => r.parse text
  | .error valid => .error (.notUtf8 valid)

/-- The tree of the schema file at a path. -/
def parseFile (files : FileTree) (path : String) : Except Error Node :=
  match files.lookup path with
  | .error fault => .error (.cannotOpen path fault)
  | .ok found =>
    match found.bytes with
    | .ok bytes => r.parseBytes bytes
    | .error fault => .error (.file fault)

/-- The package of a schema tree. -/
def packageOf (root : Node) : Except Error String :=
  match Schema.packageName? root, r.missingPackage with
  | some name, _ => .ok name
  | none, .error => .error .noPackage
  | none, .empty => .ok ""

/-- The package of a schema text. -/
def packageName (text : String) : Except Error String := do r.packageOf (← r.parse text)

/-- The imports of a schema text. -/
def imports (text : String) : Except Error (List Import) := do
  return Schema.imports (← r.parse text)

/-- Whether a text is a schema. -/
def validate (text : String) : Except Error Unit := do
  let _ ← r.parse text

end SchemaReader

end SchemaDepot
