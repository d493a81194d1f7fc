import SchemaDepot.Error
import SchemaDepot.Files.Path
import SchemaDepot.Text.Utf8

/-! # Trees of files

A directory holds files and directories under distinct names. Paths have slashes between their
parts; a dot stands for the directory itself and two dots for the one above it. Of the directories
above the top, and of the one that a path with a slash in front starts from, nothing is known but
that they are there.

* `FileTree.lookup`: what a path names, or why it names nothing.
* `FileTree.readText`: the text of the file at a path.
* `FileTree.makeDirectory`, `FileTree.write`: the tree with a directory or a file at a path. -/

namespace SchemaDepot

/-- A file with its bytes, or a directory with its entries. -/
inductive FileTree where
  | file (bytes : List UInt8)
  | directory (entries : List (String × FileTree))

namespace FileTree

/-- A directory without entries. -/
def empty : FileTree := directory []

/-- The parts of a path. -/
def parts (path : String) : List String := Text.split '/' path

/-- The part of a path changes nothing. -/
def isIdle (part : String) : Bool := part = "" || part = "."

/-- The longest name, in bytes. -/
def maxNameBytes : Nat := 255

/-- The longest path, in bytes. -/
def maxPathBytes : Nat := 4095

/-- A path is not too long. -/
def isShort (path : String) : Bool := path.utf8ByteSize ≤ maxPathBytes

/-- A path names nothing if it is empty, or too long, or holds a zero. -/
def checkPath (path : String) : Except FileFault Unit :=
  if path.toList.contains '\x00' then .error .zeroInName
  else if path.isEmpty then .error .missing
  else if !isShort path then .error .nameTooLong
  else .ok ()

/-- The entry of a name. -/
def entry (name : String) (entries : List (String × FileTree)) : Except FileFault FileTree :=
  if maxNameBytes < name.utf8ByteSize then .error .nameTooLong
  else
    match entries.find? (·.1 == name) with
    | some (_, tree) => .ok tree
    | none => .error .missing

/-- What the parts of a path name from `tree` on, whose directories above are `above`, the nearest
first. -/
def follow (above : List FileTree) (tree : FileTree) : List String → Except FileFault FileTree
  | [] => .ok tree
  | part :: rest =>
    match tree with
    | file _ => .error .notADirectory
    | directory entries =>
      if isIdle part then follow above tree rest
      else if part = ".." then
        match above with
        | [] => follow [] empty rest
        | parent :: above => follow above parent rest
      else do follow (tree :: above) (← entry part entries) rest

/-- What a path names, or why it names nothing. -/
def lookup (tree : FileTree) (path : String) : Except FileFault FileTree := do
  checkPath path
  follow [] (if path.toList.head? = some '/' then empty else tree) (parts path)

/-- What a path names that is written behind the path `here` of the tree. -/
def lookupBelow (here : String) (tree : FileTree) (path : String) : Except FileFault FileTree := do
  checkPath (Path.join here path)
  tree.lookup path

/-- The path names something. -/
def has (tree : FileTree) (path : String) : Bool :=
  match tree.lookup path with
  | .ok _ => true
  | .error _ => false

/-- The bytes of a file. -/
def bytes : FileTree → Except FileFault (List UInt8)
  | file bytes => .ok bytes
  | directory _ => .error .isADirectory

/-- The text of a file. -/
def text (tree : FileTree) : Except FileFault String := do
  match Text.Utf8.decode (← tree.bytes) with
  | .ok s => .ok s
  | .error _ => .error .notText

/-- The text of the file at a path. -/
def readText (tree : FileTree) (path : String) : Except FileFault String := do
  (← tree.lookup path).text

/-- The entries of a directory. -/
def entries : FileTree → Except FileFault (List (String × FileTree))
  | directory entries => .ok entries
  | file _ => .error .notADirectory

/-- The entries with the one of a name replaced or added. -/
def setEntry (name : String) (tree : FileTree) : List (String × FileTree) → List (String × FileTree)
  | [] => [(name, tree)]
  | (n, t) :: rest => if n = name then (name, tree) :: rest else (n, t) :: setEntry name tree rest

/-- The names that lead from the top to a path whose directories are there; nothing, if it leads
above the top or starts with a slash. -/
def names? (path : String) : Option (List String) := do
  if Path.isAbsolute path then none
  else
    let names ← (parts path).foldlM (fun names part =>
      if isIdle part then some names
      else if part = ".." then
        match names with
        | [] => none
        | _ :: above => some above
      else some (part :: names)) []
    return names.reverse

/-- The tree with `leaf` under names from the top on, and directories above it where there are
none. A file in the way is an error; a directory stays if `leaf` is one too. -/
def place (leaf : FileTree) (tree : FileTree) : List String → Except FileFault FileTree
  | [] =>
    match tree, leaf with
    | directory _, file _ => .error .isADirectory
    | file _, directory _ => .error .alreadyExists
    | directory entries, directory _ => .ok (directory entries)
    | file _, file _ => .ok leaf
  | name :: rest =>
    match tree with
    | file _ => .error .notADirectory
    | directory entries =>
      if maxNameBytes < name.utf8ByteSize then .error .nameTooLong
      else do
        let start := match entries.find? (·.1 == name), rest with
          | some (_, found), _ => found
          | none, [] => leaf
          | none, _ => empty
        return directory (setEntry name (← place leaf start rest) entries)

/-- The tree with a file at a path whose directories are there. -/
def write (path : String) (bytes : List UInt8) (tree : FileTree) : Except FileFault FileTree :=
  match isShort path, names? path with
  | false, _ => .error .nameTooLong
  | true, some names => place (file bytes) tree names
  | true, none => .ok tree

/-- The tree with a directory where the parts of a path lead from the one that `names` lead to, the
nearest first, and directories on the way. Once one of these `isNew`, each part is made by itself,
and so a file in the way is there already; before, it is only no directory, unless it is last. -/
def makeParts (tree : FileTree) (names : List String) (isNew : Bool) :
    List String → Except FileFault FileTree
  | [] => .ok tree
  | part :: rest =>
    if isIdle part then makeParts tree names isNew rest
    else if part = ".." then
      match names with
      | [] => .ok tree
      | _ :: above => makeParts tree above isNew rest
    else
      let names := part :: names
      match follow [] tree names.reverse with
      | .ok (directory _) => makeParts tree names isNew rest
      | .ok (file _) =>
        .error (if isNew || rest.all isIdle then .alreadyExists else .notADirectory)
      | .error .missing => do makeParts (← place empty tree names.reverse) names true rest
      | .error fault => .error fault

/-- The tree with a directory at a path, and directories on the way. -/
def makeDirectory (path : String) (tree : FileTree) : Except FileFault FileTree :=
  if !isShort path then .error .nameTooLong
  else if Path.isAbsolute path then .ok tree
  else makeParts tree [] false (parts path)

mutual

/-- The files of a tree with the paths to them, in the order of the entries. -/
def files (above : String) : FileTree → List (String × List UInt8)
  | file bytes => [(above, bytes)]
  | directory entries => entryFiles above entries

/-- The files below the entries of a directory. -/
def entryFiles (above : String) : List (String × FileTree) → List (String × List UInt8)
  | [] => []
  | (name, tree) :: rest =>
    files (if above.isEmpty then name else above ++ "/" ++ name) tree ++ entryFiles above rest

end

end FileTree

end SchemaDepot
