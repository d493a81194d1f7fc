import SchemaDepot.CommandLine.Command
import SchemaDepot.Settings.Load

/-! # Running commands

* `Report`: the lines that a command prints, the files it leaves, and the error it ends with.
* `Request.run`: what a request does in its surroundings.
* `Outcome.ofArguments`: what the program does with its arguments. -/

namespace SchemaDepot

/-- A line to print; at the end of some stands how long the work took. -/
inductive Line where
  | plain (text : String)
  | timed (text : String)
deriving DecidableEq

/-- The text of a line, where `elapsed` tells how long the work took. -/
def Line.render (elapsed : String) : Line → String
  | plain text => text
  | timed text => text ++ " in " ++ elapsed

/-- Where a command runs: the files, the path of the directory they lie in, the files in the
directory that the user keeps settings in, and the variables of the environment. -/
structure Surroundings where
  files : FileTree
  here : String
  userFiles : FileTree := .empty
  environment : List (String × String) := []

/-- What a command prints, the files it leaves, and what it ends with: nothing, or an error in one
line. -/
structure Report where
  lines : List Line := []
  files : FileTree
  failure : Option String := none

namespace Error

/-- The error and those behind it, each in words. -/
def chain : Error → List String
  | cannotOpen path cause => [(cannotOpen path cause).message, cause.message]
  | dependencyNotFound reference cause =>
    (dependencyNotFound reference cause).message :: chain cause
  | file cause => [(file cause).message, cause.message]
  | e => [e.message]

/-- The error and those behind it in one line. -/
def oneLine (e : Error) : String := ": ".intercalate e.chain

end Error

/-- How something is counted of which some failed. -/
def countFailed (failed all : Nat) (what : String) : String :=
  toString failed ++ " of " ++ toString all ++ " " ++ what ++ "(s) failed"

namespace Surroundings

variable (w : Surroundings)

/-- A report of lines that leaves the files as they are. -/
def report (lines : List String) (failure : Option String := none) : Report :=
  { lines := lines.map .plain, files := w.files, failure }

/-- The report on an error. -/
def refuse (e : Error) : Report := w.report [] (some e.oneLine)

/-! ### Single files -/

/-- Whether files are schemas. -/
def validate (s : Settings) (paths : List String) : Report :=
  let faults := paths.map fun path =>
    match s.reader.parseFile w.files path with
    | .ok _ => (path, none)
    | .error e => (path, some e.message)
  let lines := faults.map fun
    | (path, none) => "✅ " ++ path
    | (path, some message) => "❌ " ++ path ++ " - " ++ message
  let failed := (faults.filter (·.2.isSome)).length
  w.report lines (if failed = 0 then none
    else some (countFailed failed paths.length "file" ++ " to parse"))

/-- The line on the package of a schema. -/
def packageLine (s : Settings) (root : Node) : String :=
  "📦 package: " ++ match s.reader.packageOf root with
    | .ok name => if name.isEmpty then "(default)" else name
    | .error e => e.message

/-- The line on an import. -/
def importLine (i : Import) : String :=
  "   └─ " ++ i.path ++ if i.isPublic then " (public)" else if i.isWeak then " (weak)" else ""

/-- The line on a directive. -/
def directiveLine (d : Directive) : String :=
  "   └─ " ++ toString d.span.start.line ++ ":" ++ toString d.span.start.column ++ " " ++
    d.option ++ " = " ++ d.value

/-- What a file holds, or its tree as a document. -/
def inspect (s : Settings) (path : String) (asDocument : Bool) : Report :=
  match s.reader.parseFile w.files path with
  | .error e => w.refuse e
  | .ok root =>
    if asDocument then w.report [root.toJson.pretty]
    else
      let imports := Schema.imports root
      let directives := root.allDirectives
      w.report (packageLine s root ::
        ("📥 imports: " ++ toString imports.length) :: imports.map importLine ++
        ("🏷️  directives: " ++ toString directives.length) :: directives.map directiveLine)

/-! ### The registry -/

/-- The registry of the versions that lie where the settings say. -/
def openRegistry (s : Settings) : Except String Registry :=
  match Store.loadLayout w.files (Path.fromHere s.root) {} w.here with
  | (store, .ok _) => .ok (s.registry store)
  | (_, .error e) => .error ("loading registry at " ++ s.rootPath w.here ++ ": " ++ e.oneLine)

/-- The line on a module. -/
def moduleLine (r : Registry) (m : Module) : Except Error String := do
  let versions ← r.store.listVersions m.name
  return "📦 " ++ m.name ++ " [" ++ ", ".intercalate (versions.map Version.version) ++ "]"

/-- The modules and their versions. -/
def list (s : Settings) : Report :=
  match w.openRegistry s with
  | .error message => w.report [] (some message)
  | .ok r =>
    match r.store.modules.mapM (moduleLine r) with
    | .ok lines => w.report lines
    | .error e => w.refuse e

/-- The languages there are generators for. -/
def languages (s : Settings) : Report :=
  w.report ((Backends.builtIn s.marker).descriptions.map fun (language, description) =>
    "🛠️  " ++ HelpPage.pad 12 language ++ " " ++ description)

/-- The line on a file that another stands before. -/
def shadowedLine (s : Shadowed) : String :=
  "   ⚠️  " ++ s.path ++ " from " ++ s.droppedFrom.display ++ " shadowed by " ++ s.keptFrom.display

/-- The lines on what a version needs. -/
def resolutionLines (id : VersionId) (needed : Resolution) : List String :=
  ("🔗 " ++ id.display ++ ": " ++ toString needed.files.length ++ " file(s)") ::
    needed.own.map (fun f => "   ├─ " ++ f.path ++ " (own)") ++
    needed.dependencies.map (fun f => "   ├─ " ++ f.path) ++
    needed.shadowed.map shadowedLine

/-- What a version needs. -/
def resolve (s : Settings) (id : VersionId) (isTransitive : Bool) : Report :=
  match w.openRegistry (if isTransitive then { s with mode := .transitive } else s) with
  | .error message => w.report [] (some message)
  | .ok r =>
    match r.resolve id with
    | .ok needed => w.report (resolutionLines id needed)
    | .error e => w.refuse e

/-! ### Compilation -/

/-- The option in a text: a key that is not empty, an equals sign, and a value. -/
def readOption (pair : String) : Except String (String × String) :=
  let cs := pair.toList
  let key := cs.takeWhile (· != '=')
  match cs.dropWhile (· != '=') with
  | _ :: value =>
    if key.isEmpty then .error ("option '" ++ pair ++ "' is not key=value")
    else .ok (String.ofList key, String.ofList value)
  | [] => .error ("option '" ++ pair ++ "' is not key=value")

/-- The report with one more file, or with the error of writing it. -/
def writeFile (directory : String) (file : TextFile) (r : Report) : Report :=
  if r.failure.isSome then r
  else
    let path := Path.join directory file.path
    match r.files.makeDirectory (Path.parent path) with
    | .error fault => { r with failure := some fault.message }
    | .ok files =>
      match files.write path (textBytes file.content) with
      | .error fault =>
        { r with files, failure := some ("writing " ++ path ++ ": " ++ fault.message) }
      | .ok files => { r with files, lines := r.lines ++ [.plain ("   └─ " ++ path)] }

/-- The report with the result for one language, whose files are written if there is a place for
them. -/
def addResult (out : Option String) (r : Report) (result : CompileResult) : Report :=
  if r.failure.isSome then r
  else if !result.success then
    { r with lines := r.lines ++
        [.plain ("❌ " ++ result.language ++ " - " ++ result.error.getD "unknown error")] }
  else
    let files := result.files ++ result.packageFiles
    let r := { r with lines := r.lines ++
        [.timed ("✅ " ++ result.language ++ " - " ++ toString files.length ++ " file(s)")] }
    match out with
    | none => { r with lines := r.lines ++ files.map fun f => .plain ("   └─ " ++ f.path) }
    | some directory =>
      files.foldl (fun r f => writeFile (Path.join directory result.language) f r) r

/-- The report on the results for all languages. -/
def compileReport (out : Option String) (results : List CompileResult) : Report :=
  let r := results.foldl (addResult out) { files := w.files }
  let failed := (results.filter (!·.success)).length
  if r.failure.isNone && failed ≠ 0 then
    { r with failure := some (countFailed failed results.length "language") }
  else r

/-- How many generators may run at once where nothing is set; what comes of a compilation does not
depend on it. -/
def processors : Nat := 1

/-- Compiles what a version needs. -/
def compile (s : Settings) (id : VersionId) (languages options : List String)
    (includeServices : Bool) (out : Option String) : Report :=
  match options.mapM readOption with
  | .error message => w.report [] (some message)
  | .ok options =>
    match w.openRegistry s with
    | .error message => w.report [] (some message)
    | .ok r =>
      let compiler := Compiler.new (Backends.builtIn s.marker) (s.compilerOptions processors)
      let r := { r with compiler := some compiler }
      match (r.compileVersion id languages (Options.ofList options) includeServices).2 with
      | .ok results => w.compileReport out results
      | .error e => w.refuse e

end Surroundings

/-! ### The program -/

/-- What a request does. -/
def Request.run (w : Surroundings) (q : Request) : Report :=
  match SettingsSource.load ⟨w.files, w.here, w.userFiles, q.settings, w.environment⟩ with
  | .error e => w.refuse e
  | .ok s =>
    let s := { s with root := q.root.getD s.root }
    match q.command with
    | .validate paths => w.validate s paths
    | .inspect path asDocument => w.inspect s path asDocument
    | .list => w.list s
    | .languages => w.languages s
    | .resolve id isTransitive => w.resolve s id isTransitive
    | .compile id languages options includeServices out =>
      w.compile s id languages options includeServices out

/-- What the program leaves: the number it ends with, what it prints, and the files. -/
structure Outcome where
  exitCode : Nat
  output : List Line
  errors : List String
  files : FileTree

/-- What the program does with its arguments. -/
def Outcome.ofArguments (w : Surroundings) (args : List String) : Outcome :=
  match Request.read args with
  | .help lines => ⟨0, lines.map .plain, [], w.files⟩
  | .misuse =>
    ⟨2, [], ["error: arguments not understood; '" ++ Command.program ++ " --help' tells more"],
      w.files⟩
  | .request q =>
    let report := q.run w
    match report.failure with
    | none => ⟨0, report.lines, [], report.files⟩
    | some message => ⟨1, report.lines, ["Error: " ++ message], report.files⟩

end SchemaDepot
