import SchemaDepot.Generate.Basic
import SchemaDepot.Generate.Naming
import SchemaDepot.Schema.Document.Encode

/-! # The descriptor generator

Each schema file becomes a JSON document of its package, imports, directives and tree. One more
document lists all files, those of dependencies too, with their checksums. -/

namespace SchemaDepot.Descriptor

/-- An import as an object. -/
def importToJson (i : Import) : Json :=
  .object [("path", .string i.path), ("public", .bool i.isPublic), ("weak", .bool i.isWeak)]

/-- The document of a file. -/
def describe (parsed : ParsedFile) : Json :=
  let (file, root) := parsed
  .object [("path", .string file.path), ("package", Json.ofOption (Schema.packageName? root)),
    ("imports", .array ((Schema.imports root).map importToJson)),
    ("directives", .array (root.allDirectives.map Directive.toJson)), ("root", root.toJson)]

/-- The entry of a file in the list of all files. -/
def listEntry (isDependency : Bool) (parsed : ParsedFile) : Json :=
  let (file, root) := parsed
  .object [("path", .string file.path), ("package", Json.ofOption (Schema.packageName? root)),
    ("checksum", .string (Checksum.ofText file.content).hex), ("dependency", .bool isDependency)]

/-- The option that asks for documents on one line, with the value `false`. -/
def prettyOption : String := "pretty"

/-- The documents of the files of an input. -/
def generate (m : Marker) (input : GeneratorInput) : Except String GeneratorOutput := do
  let own ← parseFiles m input.files
  let dependencies ← parseFiles m input.dependencyFiles
  let write := if input.options.get? prettyOption == some "false" then Json.compact else Json.pretty
  let list := Json.array (own.map (listEntry false) ++ dependencies.map (listEntry true))
  return {
    files := own.map fun parsed =>
      ⟨Naming.fileStem parsed.1.path ++ ".json", write (describe parsed)⟩
    packageFiles := [⟨"descriptor_set.json", write list⟩] }

end SchemaDepot.Descriptor
