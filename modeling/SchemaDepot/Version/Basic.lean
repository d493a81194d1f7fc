import SchemaDepot.Digest.Checksum
import SchemaDepot.Files.TextFile
import SchemaDepot.Version.Key
import SchemaDepot.Version.Reference

/-! # Modules and versions

* `Module`: a name under which versions are published.
* `Version`: one published state of a module. `seal` records the checksums of its files, `verify`
  compares them. -/

namespace SchemaDepot

/-- A module: its name, a description, and when it was made and last changed. -/
structure Module where
  name : String
  description : Option String := none
  createdAt : Nat
  updatedAt : Nat
deriving DecidableEq

namespace Module

/-- A module made at a time. -/
def new (name : String) (time : Nat) : Module := { name, createdAt := time, updatedAt := time }

/-- The module, changed at a time. -/
def touch (time : Nat) (m : Module) : Module := { m with updatedAt := time }

/-- The module was not changed before it was made. -/
def timesOrdered (m : Module) : Bool := m.createdAt ≤ m.updatedAt

end Module

/-- Where the files of a version come from. -/
structure SourceInfo where
  repository : Option String := none
  commit : Option String := none
  publishedBy : Option String := none
deriving DecidableEq

/-- A version of a module: its files and the references to the versions it needs. The checksums
are those of the files when it was sealed. -/
structure Version where
  module : String
  version : String
  files : List TextFile := []
  dependencies : List String := []
  source : SourceInfo := {}
  checksums : List Checksum := []
  createdAt : Nat := 0
deriving DecidableEq

/-- The checksum of a file's content. -/
def TextFile.checksum (f : TextFile) : Checksum := Checksum.ofText f.content

namespace Version

/-- The name of the version. -/
def id (v : Version) : VersionId := ⟨v.module, v.version⟩

/-- The first file with a path. -/
def file? (v : Version) (path : String) : Option TextFile := v.files.find? (·.path == path)

/-- The version with the checksums of its files as they are. -/
def sealed (v : Version) : Version := { v with checksums := v.files.map TextFile.checksum }

/-- One checksum for all that were recorded. -/
def manifest (v : Version) : Checksum := Checksum.combine v.checksums

/-- The files are as many as the checksums recorded, and each has its own. -/
def verify (v : Version) : Bool :=
  v.checksums.length == v.files.length &&
    (v.files.zip v.checksums).all fun (f, c) => c.verify f.content

/-- The references to the versions needed, unless one of them is malformed. -/
def references (v : Version) : Except Error (List Reference) := v.dependencies.mapM Reference.read

/-- What the version is ordered by. -/
def key (v : Version) : VersionKey := VersionKey.ofText v.version

end Version

end SchemaDepot
