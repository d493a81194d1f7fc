import SchemaDepot.Settings.Load
import SchemaDepot.Toml.Writer

/-! # Saving settings

* `Settings.sheet`: the settings as tables.
* `Settings.save`: the text of the file in which they are kept. -/

namespace SchemaDepot.Settings

/-- The word for what becomes of a file without a package. -/
def missingPackageWord : MissingPackage → String
  | .error => "error"
  | .empty => "empty"

/-- The word for how far references are followed. -/
def modeWord : ResolutionMode → String
  | .direct => "direct"
  | .transitive => "transitive"

/-- The settings as tables. How many jobs run at once stands there only if it was set. -/
def sheet (s : Settings) : Toml.Sheet :=
  let concurrency := match s.maxConcurrency with
    | some n => [("max_concurrency", Toml.Plain.integer n)]
    | none => []
  [("registry", [("root", .text s.root)]),
    ("parser",
      [("directive_namespace", .text s.directiveNamespace),
        ("missing_package", .text (missingPackageWord s.missingPackage))]),
    ("resolver", [("mode", .text (modeWord s.mode)), ("max_depth", .integer s.maxDepth)]),
    ("compiler", concurrency ++
      [("generator_timeout_secs", .integer s.timeoutSeconds),
        ("cache_enabled", .boolean s.cacheEnabled)])]

/-- The numbers set. -/
def numbers (s : Settings) : List Nat := s.maxDepth :: s.maxConcurrency.toList ++ [s.timeoutSeconds]

/-- The text of the file in which the settings are kept. Numbers must fit into 64 bits with a
sign. -/
def save (s : Settings) : Except Error String :=
  if s.numbers.all (· < Nat.pow 2 63) then .ok s.sheet.render else .error (.file .numberTooGreat)

end SchemaDepot.Settings
