import SchemaDepot.CommandLine.Help
import SchemaDepot.Version.Id

/-! # Commands

* `Command`: what the program can be asked for.
* `Request.read`: the request that arguments make, help, or a fault. -/

namespace SchemaDepot

/-- What the program can be asked for. -/
inductive Command where
  | validate (files : List String)
  | inspect (file : String) (asDocument : Bool)
  | list
  | languages
  | resolve (id : VersionId) (isTransitive : Bool)
  | compile (id : VersionId) (languages options : List String) (includeServices : Bool)
      (out : Option String)
deriving DecidableEq

/-- A command, with where versions lie and where more settings are, if that was given. -/
structure Request where
  root : Option String := none
  settings : Option String := none
  command : Command
deriving DecidableEq

/-- What arguments come to: a request, lines of help, or a fault. -/
inductive RequestReading where
  | request (q : Request)
  | help (lines : List String)
  | misuse
deriving DecidableEq

/-! ### What is taken -/

namespace OptionSpec

/-- Where versions lie. -/
def root : OptionSpec where
  name := "root"
  letter := some 'r'
  kind := .value .path "ROOT"
  about := "Registry root (defaults to `[registry] root` from config)"

/-- Where more settings are. -/
def config : OptionSpec where
  name := "config"
  letter := some 'c'
  kind := .value .path "CONFIG"
  about := "Extra config file layered over the default locations"

/-- The tree as a document. -/
def json : OptionSpec where
  name := "json"
  kind := .flag
  about := "Print the full tree as JSON"

/-- References are followed on from the versions named. -/
def transitive : OptionSpec where
  name := "transitive"
  kind := .flag
  about := "Follow dependencies of dependencies"

/-- A language to generate. -/
def lang : OptionSpec where
  name := "lang"
  letter := some 'l'
  kind := .value .text "LANGUAGES"
  isRepeatable := true
  about := "Target language (repeatable) [default: rust]"

/-- An option for generators. -/
def option : OptionSpec where
  name := "option"
  letter := some 'O'
  kind := .value .text "OPTIONS"
  isRepeatable := true
  about := "Generator option as key=value (repeatable)"

/-- Services are generated too. -/
def grpc : OptionSpec where
  name := "grpc"
  kind := .flag
  about := "Emit service definitions too"

/-- Where generated files go. -/
def out : OptionSpec where
  name := "out"
  letter := some 'o'
  kind := .value .path "OUT"
  about := "Write generated files here instead of listing them"

/-- A question for help. -/
def help : OptionSpec where
  name := "help"
  letter := some 'h'
  kind := .help
  about := "Print help"

end OptionSpec

namespace Command

open OptionSpec

/-- The name of the program. -/
def program : String := "idl-registry"

/-- What the program is about. -/
def programAbout : String := "Validate, resolve and compile IDL schema modules"

/-- The arguments that name a version. -/
def versionArguments : List ArgumentSpec := [⟨"MODULE", .text, false⟩, ⟨"VERSION", .text, false⟩]

/-- The subcommands, with what they do and what they take. -/
def catalog : List (String × String × Usage) :=
  [("validate", "Check that schema files parse",
      { options := [root, config, OptionSpec.help], arguments := [⟨"FILES", .path, true⟩] }),
    ("inspect", "Show package, imports and directives of a schema file",
      { options := [json, root, config, OptionSpec.help], arguments := [⟨"FILE", .path, false⟩] }),
    ("list", "List modules and their versions", { options := [root, config, OptionSpec.help] }),
    ("languages", "List the built-in generator backends",
      { options := [root, config, OptionSpec.help] }),
    ("resolve", "Show the files a version compiles against",
      { options := [root, transitive, config, OptionSpec.help], arguments := versionArguments }),
    ("compile", "Compile a version with the built-in backends",
      { options := [lang, root, config, option, grpc, out, OptionSpec.help]
        arguments := versionArguments })]

/-- The subcommand for help, and what it does. -/
def helpEntry : String × String :=
  ("help", "Print this message or the help of the given subcommand(s)")

/-- What the program takes. -/
def programUsage : Usage where
  options := [root, config, OptionSpec.help]
  subcommands := catalog.map Prod.fst ++ [helpEntry.1]

/-- The help on the program. -/
def programHelp : HelpPage :=
  programUsage.help program programAbout
    ((catalog.map fun (name, about, _) => (name, about)) ++ [helpEntry])

/-- The help on the subcommand for help. -/
def helpHelp : HelpPage where
  about := helpEntry.2
  call := program ++ " help [COMMAND]..."
  sections := [("Arguments", [("[COMMAND]...", "Print help for the subcommand(s)")])]

/-- The entry of a subcommand. -/
def find? (name : String) : Option (String × Usage) :=
  (catalog.find? (·.1 == name)).map Prod.snd

/-- The help on a subcommand. -/
def helpOn? (name : String) : Option HelpPage :=
  if name = helpEntry.1 then some helpHelp
  else (find? name).map fun (about, usage) => usage.help (program ++ " " ++ name) about []

/-! ### What was asked for -/

/-- The command of a subcommand, by what was given. -/
def ofGiven? (name : String) (g : Given) : Option Command :=
  match name, g.arguments with
  | "validate", files => some (.validate files)
  | "inspect", [file] => some (.inspect file (g.has "json"))
  | "list", _ => some .list
  | "languages", _ => some .languages
  | "resolve", [m, v] => some (.resolve ⟨m, v⟩ (g.has "transitive"))
  | "compile", [m, v] =>
    let languages := g.values "lang"
    some (.compile ⟨m, v⟩ (if languages.isEmpty then ["rust"] else languages) (g.values "option")
      (g.has "grpc") (g.value? "out"))
  | _, _ => none

end Command

namespace Request

open Command

/-- What help was asked for by the subcommand for it. -/
def readHelp : List String → RequestReading
  | [] => .help programHelp.lines
  | [name] =>
    match helpOn? name with
    | some page => .help page.lines
    | none => .misuse
  | _ => .misuse

/-- What the arguments for a subcommand come to. An option given before it counts as well; a fault
there does not keep help from being given. -/
def readCommand (name : String) (before : Option Given) (rest : List String) : RequestReading :=
  match find? name with
  | none => .misuse
  | some (about, usage) =>
    match usage.read rest with
    | .complete g =>
      match before, ofGiven? name g with
      | some before, some command =>
        let first (option : String) : Option String := (g.value? option).or (before.value? option)
        .request ⟨first "root", first "config", command⟩
      | _, _ => .misuse
    | .help => .help (usage.help (program ++ " " ++ name) about []).lines
    | _ => .misuse

/-- What arguments come to. -/
def read (args : List String) : RequestReading :=
  match programUsage.read args with
  | .subcommand name before rest =>
    if name = helpEntry.1 then readHelp rest else readCommand name before rest
  | .help => .help programHelp.lines
  | _ => .misuse

end Request

end SchemaDepot
