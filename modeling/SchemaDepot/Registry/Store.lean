import SchemaDepot.Version.Basic

/-! # The store of modules and versions

A store keeps modules in the order of their names, and versions in the order in which they came.
Versions are never changed or taken away. Its clock tells a later time with each reading.

* `Store.getVersion`, `Store.listVersions`, `Store.getModule`: reading.
* `Store.createVersion`, `Store.putModule`: writing. -/

namespace SchemaDepot

/-- A store of modules and versions. -/
structure Store where
  modules : List Module := []
  versions : List Version := []
  clock : Nat := 0
deriving DecidableEq

namespace Store

/-- A store without modules. -/
def empty : Store := {}

/-- The time, and the store with a later one. -/
def readClock (s : Store) : Nat × Store := (s.clock, { s with clock := s.clock + 1 })

/-! ### Reading -/

/-- The module of a name, if there is one. -/
def module? (s : Store) (name : String) : Option Module := s.modules.find? (·.name == name)

/-- The version of a name, if there is one. -/
def version? (s : Store) (id : VersionId) : Option Version := s.versions.find? (·.id == id)

/-- The module of a name. -/
def getModule (s : Store) (name : String) : Except Error Module :=
  match s.module? name with
  | some m => .ok m
  | none => .error (.moduleNotFound name)

/-- The version of a name; where there is none, the error tells whether there is its module. -/
def getVersion (s : Store) (id : VersionId) : Except Error Version :=
  match s.version? id, s.module? id.module with
  | some v, _ => .ok v
  | none, some _ => .error (.versionNotFound id)
  | none, none => .error (.moduleNotFound id.module)

/-- The file at a path in a version. -/
def getFile (s : Store) (id : VersionId) (path : String) : Except Error TextFile := do
  match (← s.getVersion id).file? path with
  | some file => .ok file
  | none => .error (.fileNotFound id path)

/-- The order of versions: by key, then by time. -/
def isNotAfter (a b : Version) : Bool :=
  ((a.key.compare b.key).then (compare a.createdAt b.createdAt)).isLE

/-- The versions of a module, the oldest first. -/
def listVersions (s : Store) (name : String) : Except Error (List Version) :=
  match s.module? name with
  | some _ => .ok ((s.versions.filter (·.module == name)).mergeSort isNotAfter)
  | none => .error (.moduleNotFound name)

/-! ### Writing -/

/-- The modules with one more, in place of one of the same name. -/
def insertModule (m : Module) : List Module → List Module
  | [] => [m]
  | n :: ns =>
    if m.name < n.name then m :: n :: ns
    else if m.name = n.name then m :: ns
    else n :: insertModule m ns

/-- The store with a module, in place of one of the same name. -/
def putModule (m : Module) (s : Store) : Store := { s with modules := insertModule m s.modules }

/-- The store with an entry for the module of a name, a new one if there was none. -/
def ensureModule (name : String) (s : Store) : Store :=
  match s.module? name with
  | some _ => s
  | none =>
    let (time, s) := s.readClock
    s.putModule (Module.new name time)

/-- The store with one more version, and an entry for its module, unless there is a version of
this name. -/
def createVersion (v : Version) (s : Store) : Except Error Store :=
  match s.version? v.id with
  | some _ => .error (.alreadyExists v.id)
  | none => .ok (ensureModule v.module { s with versions := s.versions ++ [v] })

/-- The store with versions added one by one, until one of that name is there already. -/
def createVersions : List Version → Store → Store × Except Error Unit
  | [], s => (s, .ok ())
  | v :: vs, s =>
    let (time, s) := s.readClock
    match s.createVersion { v with createdAt := time } with
    | .ok s => createVersions vs s
    | .error e => (s, .error e)

end Store

end SchemaDepot
