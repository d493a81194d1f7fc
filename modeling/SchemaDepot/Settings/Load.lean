import SchemaDepot.Settings.Basic
import SchemaDepot.Settings.Format

/-! # Loading settings

Settings come from files in known places, from the user's own file, from one more file, and from the
environment. What none of them sets is as it was before.

* `Settings.ofSetting?`: the settings in what was read.
* `SettingsSource.load`: the settings of all places. -/

namespace SchemaDepot

/-! ### Sections -/

/-- The parts of a section: by name in a table, by place in a list. -/
def Setting.parts? (names : List String) : Setting → Option (String → Option Setting)
  | table entries => some fun name => find? name entries
  | list items => some fun name => items[names.idxOf name]?
  | _ => none

namespace Settings

/-- The words for what becomes of a file without a package. -/
def missingPackageWords : List (String × MissingPackage) := [("error", .error), ("empty", .empty)]

/-- The words for how far references are followed. -/
def modeWords : List (String × ResolutionMode) := [("direct", .direct), ("transitive", .transitive)]

/-- What a part is taken for, or what held before if it is not there. -/
def part? {α : Type} (take? : Setting → Option α) (before : α) : Option Setting → Option α
  | none => some before
  | some s => take? s

/-- A number that may be left open. -/
def openNatural? : Setting → Option (Option Nat)
  | .nothing => some none
  | s => s.natural?.map some

/-- The settings with those of a section, if there is one. -/
def within? (names : List String)
    (take? : (String → Option Setting) → Settings → Option Settings) (s : Settings) :
    Option Setting → Option Settings
  | none => some s
  | some found => do take? (← found.parts? names) s

/-- The settings with those on where versions lie. -/
def takeRegistry? (get : String → Option Setting) (s : Settings) : Option Settings := do
  return { s with root := ← part? Setting.text? s.root (get "root") }

/-- The settings with those on how schemas are read. -/
def takeParser? (get : String → Option Setting) (s : Settings) : Option Settings := do
  return { s with
    directiveNamespace := ← part? Setting.text? s.directiveNamespace (get "directive_namespace")
    missingPackage :=
      ← part? (Setting.choice? missingPackageWords) s.missingPackage (get "missing_package") }

/-- The settings with those on how references are followed. -/
def takeResolver? (get : String → Option Setting) (s : Settings) : Option Settings := do
  return { s with
    mode := ← part? (Setting.choice? modeWords) s.mode (get "mode")
    maxDepth := ← part? Setting.natural? s.maxDepth (get "max_depth") }

/-- The settings with those on how jobs run. -/
def takeCompiler? (get : String → Option Setting) (s : Settings) : Option Settings := do
  return { s with
    maxConcurrency := ← part? openNatural? s.maxConcurrency (get "max_concurrency")
    timeoutSeconds := ← part? Setting.natural? s.timeoutSeconds (get "generator_timeout_secs")
    cacheEnabled := ← part? Setting.flag? s.cacheEnabled (get "cache_enabled") }

/-- The settings in what was read. -/
def ofSetting? (found : Setting) : Option Settings := do
  let get := fun name => Setting.find? name found.entries
  let s ← within? ["root"] takeRegistry? {} (get "registry")
  let s ← within? ["directive_namespace", "missing_package"] takeParser? s (get "parser")
  let s ← within? ["mode", "max_depth"] takeResolver? s (get "resolver")
  within? ["max_concurrency", "generator_timeout_secs", "cache_enabled"] takeCompiler? s
    (get "compiler")

end Settings

/-! ### Files -/

namespace FileTree

/-- The bytes of the file at a path that is written behind the path `here` of the tree. -/
def fileAt? (here : String) (tree : FileTree) (path : String) : Option (List UInt8) :=
  match tree.lookupBelow here path with
  | .ok (.file bytes) => some bytes
  | _ => none

/-- The file of settings at a path with its format; if there is none, the one whose name has an
extension more. -/
def findSettings? (here : String) (tree : FileTree) (path : String) :
    Option (SettingsFormat × List UInt8) :=
  match tree.fileAt? here path with
  | some bytes => (SettingsFormat.ofPath? path).map fun format => (format, bytes)
  | none => SettingsFormat.extensions.findSome? fun (extension, format) => do
    let bytes ← tree.fileAt? here (← Path.withExtension? extension path)
    return (format, bytes)

/-- The text of the file of settings at a path, with its format. -/
def settingsText? (here : String) (tree : FileTree) (path : String) :
    Option (SettingsFormat × String) :=
  match tree.findSettings? here path with
  | some (format, bytes) =>
    match Text.Utf8.decode bytes with
    | .ok text => some (format, text)
    | .error _ => none
  | none => none

/-- The layer of the file at a path. Where no text can be read, that is a fault only if one is
required. -/
def layer (here : String) (tree : FileTree) (path : String) (isRequired : Bool) :
    Except Error Layer :=
  match tree.settingsText? here path with
  | some (format, text) => format.read text
  | none => if isRequired then .error .badSettings else .ok []

end FileTree

/-- Where settings come from: the files, the path of the directory they lie in, those in the
directory that the user keeps settings in, a path that was asked for, and the variables of the
environment. -/
structure SettingsSource where
  files : FileTree
  here : String := ""
  userFiles : FileTree := .empty
  path : Option String := none
  environment : List (String × String) := []

namespace SettingsSource

/-- The place of settings in a directory. -/
def place : String := "registry.toml"

/-- The places that are always looked at. -/
def places : List String := [place, ".registry.toml", "config/registry.toml"]

/-- The layer of the user's own settings, if the place for them is taken. -/
def userLayer (src : SettingsSource) : Except Error Layer :=
  if src.userFiles.has place then src.userFiles.layer "" place false else .ok []

/-- The layer of the path that was asked for. -/
def pathLayer (src : SettingsSource) : Except Error Layer :=
  match src.path with
  | some path => src.files.layer src.here path true
  | none => .ok []

/-- All layers, the last being the uppermost. -/
def layers (src : SettingsSource) : List (Except Error Layer) :=
  places.map (src.files.layer src.here · false) ++
    [src.userLayer, src.pathLayer, .ok (Layer.ofVariables src.environment)]

/-- What was read below a layer, with the layer laid over it. -/
def cover (below : Setting) (layer : Except Error Layer) : Except Error Setting := do
  match (← layer).cover below with
  | some found => .ok found
  | none => .error .noSuchPlace

/-- The settings of all places. -/
def load (src : SettingsSource) : Except Error Settings := do
  match Settings.ofSetting? (← src.layers.foldlM cover (.table [])) with
  | some s => .ok s
  | none => .error .badSettings

end SettingsSource

end SchemaDepot
