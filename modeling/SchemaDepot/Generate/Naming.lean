import SchemaDepot.Text.Lines

/-! # Names in generated code

* `pascalCase`, `snakeCase`: a name in one of two customs.
* `fileStem`: the name that a schema file gives to what is generated from it. -/

namespace SchemaDepot.Naming

/-- An ASCII letter in lower case. -/
def isLower (c : Char) : Bool := 'a' ≤ c && c ≤ 'z'

/-- An ASCII letter in upper case. -/
def isUpper (c : Char) : Bool := 'A' ≤ c && c ≤ 'Z'

/-- A character that stands between the words of a name. -/
def isSeparator (c : Char) : Bool := c == '_' || c == '-' || c == ' ' || c == '.'

/-- The words of a name. -/
def words (cs : List Char) : List (List Char) :=
  Text.splitAt '_' (cs.map fun c => if isSeparator c then '_' else c)

/-- A word with a capital. The rest stays as it is, unless the whole word is in capitals. -/
def capitalize (word : List Char) : List Char :=
  match word with
  | [] => []
  | c :: cs => c.toUpper :: if word.all (!isLower ·) then cs.map Char.toLower else cs

/-- A name as one word, each of its words with a capital. -/
def pascalCase (s : String) : String := String.ofList ((words s.toList).flatMap capitalize)

/-- The rest of a name in lower case, an underscore before each capital that follows a small
letter or a digit; `small` says that one was before. -/
def snakeChars (small : Bool) : List Char → List Char
  | [] => []
  | c :: cs =>
    if isUpper c then (if small then ['_'] else []) ++ c.toLower :: snakeChars false cs
    else if c == '-' || c == ' ' || c == '.' then '_' :: snakeChars false cs
    else c :: snakeChars (isLower c || c.isDigit) cs

/-- A name in lower case, with underscores between its words. -/
def snakeCase (s : String) : String := String.ofList (snakeChars false s.toList)

/-- The text before the last dot and the text after it. -/
def splitExtension : List Char → Option (List Char × List Char)
  | [] => none
  | c :: cs =>
    match splitExtension cs with
    | some (stem, extension) => some (c :: stem, extension)
    | none => if c = '.' then some ([], cs) else none

/-- The path of a file without its extension, as one name. -/
def fileStem (path : String) : String :=
  let stem := match splitExtension path.toList with
    | some (stem, extension) => if extension.contains '/' then path.toList else stem
    | none => path.toList
  String.ofList (stem.map fun c => if c == '/' || c == '\\' || c == '.' then '_' else c)

end SchemaDepot.Naming
