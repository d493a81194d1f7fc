import SchemaDepot.Digest.Fingerprint
import SchemaDepot.Schema.Parse

/-! # Generators

A generator turns schema files into files of one language, or says why it cannot.

* `GeneratorInput`, `GeneratorOutput`: what goes in and what comes out.
* `GeneratorInput.fingerprint`: what identifies the work for one language. -/

namespace SchemaDepot

/-- The files to generate from, the files that their types may come from, and options. -/
structure GeneratorInput where
  files : List TextFile := []
  dependencyFiles : List TextFile := []
  options : Options := []
  includeServices : Bool := false
deriving DecidableEq

/-- The files generated from one schema file each, and those for all of them together. -/
structure GeneratorOutput where
  files : List TextFile := []
  packageFiles : List TextFile := []
deriving DecidableEq

namespace GeneratorInput

/-- The frames that tell inputs apart. -/
def frames (input : GeneratorInput) (language : String) : List Frame :=
  Frame.ofSection "schema" :: Frame.ofFiles input.files ++
    Frame.ofSection "dependencies" :: Frame.ofFiles input.dependencyFiles ++
    Frame.ofSection "language" :: Frame.ofText .text language ::
    Frame.ofSection "options" :: Frame.ofOptions input.options ++
    [Frame.ofFlag input.includeServices]

/-- What identifies the work on an input for a language. -/
def fingerprint (input : GeneratorInput) (language : String) : Fingerprint :=
  Fingerprint.ofFrames (input.frames language)

end GeneratorInput

/-- A schema file with its tree. -/
abbrev ParsedFile : Type := TextFile × Node

/-- The trees of files, or the first syntax error with the path of its file. -/
def parseFiles (m : Marker) (files : List TextFile) : Except String (List ParsedFile) :=
  files.mapM fun file =>
    match Schema.parse m file.content with
    | .ok root => .ok (file, root)
    | .error fault => .error (file.path ++ ": " ++ fault.message)

end SchemaDepot
