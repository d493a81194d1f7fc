import SchemaDepot.Job.Status
import SchemaDepot.SyntaxFault
import SchemaDepot.Version.Id

/-! # Errors

* `FileFault`: what can go wrong with a file.
* `Error`: why an operation is refused; `Error.message` words it. -/

namespace SchemaDepot

/-- What can go wrong when a file or a directory is read or written. -/
inductive FileFault where
  | missing
  | notADirectory
  | isADirectory
  | alreadyExists
  | nameTooLong
  | notText
  | zeroInName
  | numberTooGreat
deriving DecidableEq

/-- The wording of a file fault. -/
def FileFault.message : FileFault → String
  | missing => "No such file or directory (os error 2)"
  | notADirectory => "Not a directory (os error 20)"
  | isADirectory => "Is a directory (os error 21)"
  | alreadyExists => "File exists (os error 17)"
  | nameTooLong => "File name too long (os error 36)"
  | notText => "stream did not contain valid UTF-8"
  | zeroInName => "file name contained an unexpected NUL byte"
  | numberTooGreat => "out-of-range value for u64 type"

/-- Why an operation is refused. -/
inductive Error where
  | malformed (fault : SyntaxFault)
  | notUtf8 (validBytes : Nat)
  | cannotOpen (path : String) (cause : FileFault)
  | noPackage
  | moduleNotFound (name : String)
  | versionNotFound (id : VersionId)
  | fileNotFound (id : VersionId) (path : String)
  | jobNotFound (job : String)
  | alreadyExists (id : VersionId)
  | invalidReference (text : String)
  | dependencyNotFound (reference : String) (cause : Error)
  | dependencyTooDeep (root : VersionId) (limit : Nat)
  | generatorUnavailable (language : String)
  | generatorFailed (language message : String)
  | invalidTransition (job : String) (current target : JobStatus)
  | noLanguages
  | serviceUnavailable (what : String)
  | cancelled
  | invalidVersion (text : String)
  | invalidModuleName (text : String)
  | file (cause : FileFault)
  | unreadableJson
  | badSettings
  | noSuchPlace
  | namelessKey
deriving DecidableEq

namespace Error

/-- The error in words. -/
def message : Error → String
  | malformed fault => fault.message
  | notUtf8 validBytes => "Invalid UTF-8 in schema input at byte " ++ toString validBytes
  | cannotOpen path cause => "Cannot open schema file " ++ path ++ ": " ++ cause.message
  | noPackage => "No package statement found"
  | moduleNotFound name => "Module not found: " ++ name
  | versionNotFound id => "Version not found: " ++ id.display
  | fileNotFound id path => "File not found: " ++ path ++ " in " ++ id.display
  | jobNotFound job => "Job not found: " ++ job
  | alreadyExists id => "Version already exists: " ++ id.display
  | invalidReference text =>
    "Invalid dependency reference '" ++ text ++ "': expected module@version"
  | dependencyNotFound reference _ => "Dependency not found: " ++ reference
  | dependencyTooDeep root limit =>
    "Dependency chain from " ++ root.display ++ " exceeds depth " ++ toString limit
  | generatorUnavailable language => "Generator unavailable for language '" ++ language ++ "'"
  | generatorFailed language message =>
    "Generator execution failed for '" ++ language ++ "': " ++ message
  | invalidTransition job current target =>
    "Job " ++ job ++ " cannot move from " ++ current.word ++ " to " ++ target.word
  | noLanguages => "Compile request names no target languages"
  | serviceUnavailable what => "Service unavailable: " ++ what
  | cancelled => "Compilation cancelled"
  | invalidVersion text => "Invalid version string: " ++ text
  | invalidModuleName text => "Invalid module name: " ++ Text.quoted text
  | file cause => "IO error: " ++ cause.message
  | unreadableJson => "JSON error"
  | badSettings => "Configuration error"
  | noSuchPlace => "Setting for a place that a list cannot have"
  | namelessKey => "Setting with a key that is neither a text nor an integer"

/-- What was asked for does not exist. -/
def isNotFound : Error → Bool
  | moduleNotFound _ | versionNotFound _ | fileNotFound .. | jobNotFound _
  | generatorUnavailable _ | dependencyNotFound .. => true
  | _ => false

/-- A schema text is malformed. -/
def isSyntax : Error → Bool
  | malformed _ | notUtf8 _ => true
  | _ => false

end Error

end SchemaDepot
