import SchemaDepot.Files.Path
import SchemaDepot.Registry.Basic

/-! # Settings

* `Settings`: what can be set, with what holds if nothing is.
* `Settings.reader`, `Settings.resolver`, `Settings.compilerOptions`, `Settings.rootPath`: what
  follows for the parts of a registry. -/

namespace SchemaDepot

/-- Where versions lie, how schemas are read, how references are followed, and how jobs run. -/
structure Settings where
  root : String := "./schemas"
  directiveNamespace : String := "buf"
  missingPackage : MissingPackage := .error
  mode : ResolutionMode := .direct
  maxDepth : Nat := 32
  maxConcurrency : Option Nat := none
  timeoutSeconds : Nat := 60
  cacheEnabled : Bool := true
deriving DecidableEq

namespace Settings

/-- The directives that count: those of the namespace set, or all if that is blank. -/
def marker (s : Settings) : Marker :=
  let name := Text.trim s.directiveNamespace
  if name.isEmpty then ⟨none⟩ else ⟨some name⟩

/-- How schemas are read. -/
def reader (s : Settings) : SchemaReader := ⟨s.marker, s.missingPackage⟩

/-- How references are followed. -/
def resolver (s : Settings) : Resolver := ⟨s.mode, s.maxDepth⟩

/-- How jobs run on a machine that can do `processors` things at once. -/
def compilerOptions (processors : Nat) (s : Settings) : CompilerOptions where
  maxConcurrency := s.maxConcurrency.getD processors
  timeout := s.timeoutSeconds * 1000000
  cacheEnabled := s.cacheEnabled

/-- Where versions lie, seen from the directory `here`. -/
def rootPath (here : String) (s : Settings) : String := Path.join here s.root

/-- A registry for a store. -/
def registry (store : Store) (s : Settings) : Registry :=
  { store, reader := s.reader, resolver := s.resolver }

end Settings

end SchemaDepot
