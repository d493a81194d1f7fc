import SchemaDepot.Registry.Procedure
import SchemaDepot.Schema.Source

/-! # Publishing

* `PublishRequest.check`: whether a version may be published at all.
* `PublishRequest.publish`: the calls that publish it.
* `describeModule`: the calls that change the description of a module. -/

namespace SchemaDepot

/-- A version to publish, and a description for its module if that is to change. -/
structure PublishRequest where
  module : String
  version : String
  files : List TextFile := []
  dependencies : List String := []
  description : Option String := none
  source : SourceInfo := {}
deriving DecidableEq

namespace PublishRequest

/-- Refuses a file that is no schema; its fault tells the path. -/
def checkFile (reader : SchemaReader) (file : TextFile) : Except Error Unit :=
  match reader.validate file.content with
  | .ok () => .ok ()
  | .error (.malformed fault) => .error (.malformed (fault.inFile file.path))
  | .error e => .error e

/-- Refuses a reference that names no version. -/
def checkReference (text : String) : Except Error Unit := do
  let _ ← Reference.read text

/-- Refuses a request for the first of these: the name of the module, that of the version, a file, a
reference. -/
def check (reader : SchemaReader) (q : PublishRequest) : Except Error Unit := do
  VersionId.checkModule q.module
  VersionId.checkVersion q.version
  q.files.forM (checkFile reader)
  q.dependencies.forM checkReference

/-- The version as it is stored. -/
def toVersion (q : PublishRequest) (time : Nat) : Version :=
  Version.sealed
    { module := q.module, version := q.version, files := q.files, dependencies := q.dependencies,
      source := q.source, createdAt := time }

/-- The module after the request, at a time. -/
def updateModule (q : PublishRequest) (time : Nat) (m : Module) : Module :=
  let m := match q.description with
    | some text => { m with description := some text }
    | none => m
  m.touch time

/-- The calls that note the request in the entry of its module and read the version back. -/
def note (q : PublishRequest) (m : Module) : Procedure (Except Error Version) :=
  .readClock fun time =>
  .putModule (q.updateModule time m) <|
  .getVersion ⟨q.module, q.version⟩ fun answer =>
  .done answer

/-- The calls that store the version and note it in the entry of its module. -/
def store (q : PublishRequest) : Procedure (Except Error Version) :=
  .readClock fun time =>
  .createVersion (q.toVersion time) fun answer =>
  match answer with
  | .error e => .done (.error e)
  | .ok () =>
    .getModule q.module fun answer =>
    match answer with
    | .ok m => q.note m
    | .error e =>
      if e.isNotFound then .readClock fun time => q.note (Module.new q.module time)
      else .done (.error e)

/-- The calls that publish a version: none, if the request is refused. -/
def publish (reader : SchemaReader) (q : PublishRequest) : Procedure (Except Error Version) :=
  match q.check reader with
  | .ok () => q.store
  | .error e => .done (.error e)

end PublishRequest

/-- The calls that give a module another description. -/
def describeModule (name description : String) : Procedure (Except Error Module) :=
  .getModule name fun answer =>
  match answer with
  | .error e => .done (.error e)
  | .ok m =>
    .readClock fun time =>
    let m := Module.touch time { m with description := some description }
    .putModule m <| .done (.ok m)

end SchemaDepot
