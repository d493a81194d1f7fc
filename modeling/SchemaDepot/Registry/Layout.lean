import SchemaDepot.Files.Path
import SchemaDepot.Files.Tree
import SchemaDepot.Registry.Store

/-! # The layout of versions in a tree of files

Below a root stands a directory for each module, and in it one for each version. The schema files
anywhere below that belong to the version; a file `deps.txt` directly in it lists references.

* `Layout.read`: the versions below a root, in the order of module and version, each sealed.
* `Store.loadLayout`: their way into a store. -/

namespace SchemaDepot.Layout

/-- The file that lists references. -/
def dependencyFile : String := "deps.txt"

/-- The extension of schema files. -/
def schemaExtension : List Char := "proto".toList

/-- The file at a path is a schema file. -/
def isSchema (path : String) : Bool := Path.extension? (Path.fileName path) == some schemaExtension

/-- The directories in the directory at a path, in the order of their names. -/
def directories (path : String) (tree : FileTree) :
    Except FileFault (List (String × FileTree)) := do
  if !FileTree.isShort path then .error .nameTooLong
  else
    let entries ← tree.entries
    let isDirectory : FileTree → Bool
      | .directory _ => true
      | .file _ => false
    return (entries.filter (isDirectory ·.2)).mergeSort fun a b => a.1 ≤ b.1

/-- The text of the file at a path, of which the bytes are given. -/
def textOf (path : String) (bytes : List UInt8) : Except FileFault String :=
  if FileTree.isShort path then (FileTree.file bytes).text else .error .nameTooLong

/-- The schema files of the version at a path, in the order of their paths. In a directory whose
path is too long there are none. -/
def schemaFiles (path : String) (tree : FileTree) : Except FileFault (List TextFile) := do
  let isSeen (name : String) : Bool := FileTree.isShort (Path.parent (Path.join path name))
  let found := (tree.files "").filter fun (name, _) => isSchema name && isSeen name
  let files ← found.mapM fun (name, bytes) => do
    return TextFile.mk name (← textOf (Path.join path name) bytes)
  return files.mergeSort fun a b => a.path ≤ b.path

/-- The lines of a list of references that are neither empty nor comments. -/
def referenceLines (text : String) : List String :=
  ((Text.split '\n' text).map Text.trim).filter fun line =>
    !line.isEmpty && line.toList.head? != some '#'

/-- The references of the version at a path. -/
def dependencies (path : String) (tree : FileTree) : Except FileFault (List String) :=
  if FileTree.isShort (Path.join path dependencyFile) && tree.has dependencyFile then do
    return referenceLines (← tree.readText dependencyFile)
  else .ok []

/-- The version in the directory at a path. -/
def readVersion (module version path : String) (tree : FileTree) : Except FileFault Version := do
  let files ← schemaFiles path tree
  let dependencies ← dependencies path tree
  return Version.sealed { module, version, files, dependencies }

/-- The versions of a module in the directory at a path. -/
def readModule (module path : String) (tree : FileTree) : Except FileFault (List Version) := do
  (← directories path tree).mapM fun (version, tree) =>
    readVersion module version (Path.join path version) tree

/-- The versions below the directory at a path. -/
def readTree (path : String) (tree : FileTree) : Except FileFault (List Version) := do
  let modules ← directories path tree
  return (← modules.mapM fun (module, tree) =>
    readModule module (Path.join path module) tree).flatten

/-- The versions below the root at a path, which is written behind the path `here`. -/
def read (tree : FileTree) (root : String) (here : String := "") : Except Error (List Version) :=
  match tree.lookupBelow here root >>= readTree (Path.join here root) with
  | .ok versions => .ok versions
  | .error fault => .error (.file fault)

end SchemaDepot.Layout

namespace SchemaDepot

/-- The store with the versions below a root, and how many they are. Versions that came before one
that was there already stay. -/
def Store.loadLayout (tree : FileTree) (root : String) (s : Store) (here : String := "") :
    Store × Except Error Nat :=
  match Layout.read tree root here with
  | .error e => (s, .error e)
  | .ok versions =>
    let (s, outcome) := s.createVersions versions
    (s, outcome.map fun _ => versions.length)

end SchemaDepot
