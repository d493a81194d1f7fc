import SchemaDepot.Text.Lines

/-! # Paths

A path has slashes between its parts. One that starts with a slash starts at the top of all files.

* `Path.join`: a path seen from a directory.
* `Path.fileName`, `Path.extension?`: parts of a path.
* `Path.withExtension?`: a path with an extension more. -/

namespace SchemaDepot.Path

/-- The path starts at the top of all files. -/
def isAbsolute (path : String) : Bool := path.toList.head? == some '/'

/-- A path seen from a directory. -/
def join (directory path : String) : String :=
  if isAbsolute path || directory.isEmpty then path
  else if directory.toList.getLast? = some '/' then directory ++ path
  else directory ++ "/" ++ path

/-- A path below the directory that paths are seen from, which the empty one names itself. -/
def fromHere (path : String) : String := if path.isEmpty then "." else path

/-- The name of the file at a path. -/
def fileName (path : String) : List Char := ((Text.splitAt '/' path.toList).getLast?).getD []

/-- The name behind the last dot of a name, unless nothing stands before that. -/
def extension? (name : List Char) : Option (List Char) :=
  match (Text.splitAt '.' name).reverse with
  | _ :: [[]] => none
  | last :: _ :: _ => some last
  | _ => none

/-- The path with an extension behind its last name, unless it ends with no name. Slashes behind the
name, and dots for the directory itself, are left out. -/
def withExtension? (extension path : String) : Option String :=
  match (Text.split '/' path).reverse.dropWhile fun part => part == "" || part == "." with
  | [] | ".." :: _ => none
  | name :: above => some ("/".intercalate ((name ++ "." ++ extension) :: above).reverse)

/-- The path of the directory that the file at a path lies in. -/
def parent (path : String) : String :=
  "/".intercalate ((Text.split '/' path).dropLast)

end SchemaDepot.Path
