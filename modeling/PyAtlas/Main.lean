import PyAtlas.CommandLine.Read
import PyAtlas.Report.Describe
import PyAtlas.Report.Members
import PyAtlas.Report.Scan

/-!
# The program

Reads the files that a command needs, runs the command on them and prints what it yields.
-/

namespace PyAtlas

/-- Whether the content of a file is ever looked at. -/
def isSourceFile (name : String) : Bool :=
  match classifyFile? name with
  | some (_, kind) => kind.analyzable
  | none => false

/-- The names in the directory at a path, in order; nothing if there is no directory. -/
def listDirectory (path : String) : IO (Option (List String)) := do
  let place := IO.FS.DirEntry.mk path ""
  try
    let entries ← place.root.readDir
    pure (some ((entries.toList.map (·.fileName)).mergeSort fun a b => a ≤ b))
  catch _ => pure none

/-- The content of the file at a path, if it can be read. -/
def readContent (path : String) : IO (Option ByteArray) := do
  try
    let content ← IO.FS.readBinFile path
    pure (some content)
  catch _ => pure none

/-- The files at a path. Files that hold no source text are taken to be empty. -/
partial def readTree (path : String) : IO (Option FileTree) := do
  match ← listDirectory path with
  | some names =>
    let trees ← names.filterMapM fun name => do
      let tree ← readTree (Path.join path name)
      pure (tree.map (name, ·))
    pure (some (.directory trees))
  | none =>
    if isSourceFile ((Path.fileName? path).getD "") then
      return (← readContent path).map FileTree.file
    else pure (some (.file .empty))

/-- The directory at a path with the file of the settings and no other. -/
def readSettingsFile (root : String) : IO FileSystem := do
  match ← listDirectory root with
  | none => pure ⟨[]⟩
  | some _ =>
    let path := Path.join root Settings.fileName
    let entry ← match ← listDirectory path with
      | some _ => pure (some (.directory []))
      | none => Option.map FileTree.file <$> readContent path
    let entries := entry.toList.map fun tree => (Settings.fileName, tree)
    pure ⟨[(root, .directory entries)]⟩

/-- The libraries that settings may name, with their files. -/
def readLibraries (s : Settings) : IO FileSystem := do
  let installed := match s.installation with
    | some dir => (Installation.mk dir s.version).candidates
    | none => []
  let mounts ← (s.searchPaths ++ installed).filterMapM fun path => do
    match ← readTree path with
    | some (.directory entries) => pure (some (path, FileTree.directory entries))
    | _ => pure none
  pure ⟨mounts⟩

/-- Prints a report and yields the exit code of failure. -/
def fail (message : String) : IO UInt32 := do
  (← IO.getStderr).putStrLn ("error: " ++ message)
  pure 1

/-- The atlas for the project with the given options. -/
def openAtlas (o : ProjectOptions) : IO (Except SettingsError Atlas) := do
  match Settings.load (← readSettingsFile o.root) o.root with
  | .error e => pure (.error e)
  | .ok settings =>
    let settings := o.apply settings
    let files ← readLibraries settings
    pure (.ok (.empty settings.version files (settings.libraries files)))

/-- Runs something on a module of an atlas. -/
def withModule (o : ProjectOptions) (name : String)
    (run : EntityRef → Atlas → IO UInt32) : IO UInt32 := do
  match ← openAtlas o with
  | .error e => fail e.message
  | .ok atlas =>
    match atlas.import? name atlas.version with
    | (.error e, _) => fail e.message
    | (.ok module, atlas) => run module atlas

/-- Makes the file with the settings. -/
def runInit (root : String) : IO UInt32 := do
  match Settings.writeStandard (← readSettingsFile root) root with
  | .error e => fail e.message
  | .ok (path, _) =>
    IO.FS.writeFile path Settings.standardDocument
    IO.println ("Created " ++ path)
    pure 0

/-- Reports on all modules. -/
def runScan (o : ProjectOptions) : IO UInt32 := do
  match ← openAtlas o with
  | .error e => fail e.message
  | .ok atlas =>
    match (Report.scan atlas).1 with
    | .error e => fail e.message
    | .ok report =>
      IO.print report.render
      pure 0

/-- Lists members. -/
def runMembers (module : EntityRef) (member : Option String) (onInstance : Bool)
    (atlas : Atlas) : IO UInt32 := do
  match (Report.listMembers module member onInstance atlas).1 with
  | .error e => fail e.message
  | .ok lines =>
    lines.forM fun line => IO.println line
    pure 0

/-- Describes a member. -/
def runDescribe (module : EntityRef) (name : String) (atlas : Atlas) : IO UInt32 := do
  match Atlas.memberAt? module name atlas with
  | (.error e, _) => fail e.message
  | (.ok ref, atlas) =>
    IO.print (Report.describe ref atlas).1
    pure 0

/-- Runs a command. -/
def runCommand : Command → IO UInt32
  | .init path => runInit (path.getD ".")
  | .scan project => runScan project
  | .members module member onInstance project =>
    withModule project module fun ref atlas => runMembers ref member onInstance atlas
  | .describe module name project =>
    withModule project module fun ref atlas => runDescribe ref name atlas

/-- What a command line that asks for nothing that can be done leads to. -/
def reportUsage (e : UsageError) : IO UInt32 := do
  match e with
  | .helpAsked | .versionAsked =>
    IO.println e.message
    pure 0
  | _ =>
    (← IO.getStderr).putStrLn ("error: " ++ e.message)
    pure 2

end PyAtlas

open PyAtlas in
/-- Reads the command line and runs it. -/
def main (arguments : List String) : IO UInt32 :=
  match Command.ofArguments arguments with
  | .ok command => runCommand command
  | .error e => reportUsage e
