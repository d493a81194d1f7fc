import SchemaDepot.CommandLine.Run

/-! # The program

The files below the working directory are read before a command runs, and those that it changed are
written when it is done. Paths lead to these files only. -/

namespace SchemaDepot.Main

/-- The variables that settings can come from. -/
def variableNames : List String :=
  ["REGISTRY__ROOT", "PARSER__DIRECTIVE_NAMESPACE", "PARSER__MISSING_PACKAGE", "RESOLVER__MODE",
    "RESOLVER__MAX_DEPTH", "COMPILER__MAX_CONCURRENCY", "COMPILER__GENERATOR_TIMEOUT_SECS",
    "COMPILER__CACHE_ENABLED"].map ("IDLREG__" ++ ·)

/-- The variables that are set. -/
def readVariables : IO (List (String × String)) :=
  variableNames.filterMapM fun name => do return (← IO.getEnv name).map fun value => (name, value)

/-- The directory in which the user keeps settings. -/
def userDirectory : IO (Option String) := do
  match ← IO.getEnv "XDG_CONFIG_HOME" with
  | some directory => return some directory
  | none => return (← IO.getEnv "HOME").map (· ++ "/.config")

/-- The files of a directory; what cannot be read is left out. -/
partial def readTree (entries : Array IO.FS.DirEntry) : IO FileTree := do
  let read (entry : IO.FS.DirEntry) : IO (Option (String × FileTree)) := do
    try
      if ← entry.path.isDir then
        return some (entry.fileName, ← readTree (← entry.path.readDir))
      else return some (entry.fileName, .file (← IO.FS.readBinFile entry.path).toList)
    catch _ => return none
  return .directory (← entries.toList.filterMapM read)

/-- The files in the directory that the user keeps settings in. -/
def readUserFiles : IO FileTree := do
  let here ← IO.currentDir
  match ← userDirectory with
  | some directory =>
    try readTree (← (here / (directory ++ "/idl-registry")).readDir)
    catch _ => return .empty
  | none => return .empty

/-- Writes the files that differ from what they were. -/
def writeChanges (before after : FileTree) : IO Unit := do
  for (path, bytes) in after.files "" do
    if before.fileAt? "" path != some bytes then
      IO.FS.createDirAll (Path.join "." (Path.parent path))
      IO.FS.writeBinFile path ⟨bytes.toArray⟩

/-- Runs the program in the working directory. -/
def run (args : List String) : IO UInt32 := do
  let start ← IO.monoNanosNow
  let here ← IO.currentDir
  let files ← readTree (← here.readDir)
  let surroundings : Surroundings :=
    { files, here := here.toString, userFiles := ← readUserFiles, environment := ← readVariables }
  let outcome := Outcome.ofArguments surroundings args
  writeChanges files outcome.files
  let stop ← IO.monoNanosNow
  let elapsed := Text.duration ((stop - start) / 1000)
  outcome.output.forM fun line => IO.println (line.render elapsed)
  outcome.errors.forM IO.eprintln
  return outcome.exitCode.toUInt32

end SchemaDepot.Main

/-- Runs the program. -/
def main (args : List String) : IO UInt32 := SchemaDepot.Main.run args
