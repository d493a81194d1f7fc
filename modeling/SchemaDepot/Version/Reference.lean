import SchemaDepot.Error
import SchemaDepot.Text.Blank

/-! # References to versions

A reference writes a module and a version with an at sign between them, the last one of the text, so
that a module may contain at signs itself.

* `Reference.read`: the version that a text refers to. -/

namespace SchemaDepot

/-- A reference to a version, with the text that wrote it. -/
structure Reference where
  text : String
  id : VersionId
deriving DecidableEq

namespace Reference

/-- The text before the last at sign, and the text after it. -/
def splitLast : List Char → Option (List Char × List Char)
  | [] => none
  | c :: cs =>
    match splitLast cs with
    | some (before, after) => some (c :: before, after)
    | none => if c = '@' then some ([], cs) else none

/-- The version that a text refers to; neither part may be blank. -/
def read (text : String) : Except Error Reference :=
  match splitLast text.toList with
  | none => .error (.invalidReference text)
  | some (before, after) =>
    if before.all Text.isBlank || after.all Text.isBlank then .error (.invalidReference text)
    else .ok ⟨text, ⟨String.ofList before, String.ofList after⟩⟩

end Reference

namespace VersionId

/-- A version can have this text as its name: it is not empty and holds neither at signs nor
blanks. -/
def isVersionName (s : String) : Bool :=
  !s.isEmpty && s.toList.all fun c => c != '@' && !Text.isBlank c

/-- Refuses what is no name of a version. -/
def checkVersion (s : String) : Except Error Unit :=
  if isVersionName s then .ok () else .error (.invalidVersion s)

/-- A module can have this text as its name: it is not blank and holds no at sign. -/
def isModuleName (s : String) : Bool := !Text.isBlankText s && s.toList.all (· != '@')

/-- Refuses what is no name of a module. -/
def checkModule (s : String) : Except Error Unit :=
  if isModuleName s then .ok () else .error (.invalidModuleName s)

end VersionId

end SchemaDepot
