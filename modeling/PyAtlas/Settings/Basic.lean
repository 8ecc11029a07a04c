import PyAtlas.Library.Installation
import PyAtlas.Settings.Toml

/-!
# Settings

What a project says about the analysis of its modules, in a file at its root. Every setting may
be left out; paths are seen from the root.

## Key definitions
- `Settings`: the settings with their standard values.
- `Settings.ofDocument?`: the settings that a document makes.
- `Settings.load`, `Settings.writeStandard`: reading the file, and making it.
-/

namespace PyAtlas

/-- The settings of a project. -/
structure Settings where
  version : Version
  /-- Libraries that are searched before those of the installation. -/
  searchPaths : List String
  /-- The directory that an interpreter is installed in. -/
  installation : Option String
  /-- How many modules are read at the same time; as many as the machine can if not given. -/
  workers : Option Nat
  /-- How many milliseconds a module may take. -/
  timeout : Nat
  logLevel : String
  logFile : Option String
deriving Repr, DecidableEq

namespace Settings

/-- The settings of a project that says nothing. -/
def standard : Settings where
  version := .standard
  searchPaths := []
  installation := none
  workers := none
  timeout := 10000
  logLevel := "info"
  logFile := none

instance : Inhabited Settings := ⟨standard⟩

/-- The name of the file with the settings. -/
def fileName : String := "pyscope.toml"

/-- All libraries: the search paths, then those of the installation. -/
def libraries (s : Settings) (fs : FileSystem) : SearchPath :=
  s.searchPaths ++ match s.installation with
    | some dir => (Installation.mk dir s.version).libraries fs
    | none => []

/-! ### Documents -/

/-- A number of workers; zero is as good as none. -/
def workers? (n : Nat) : Option Nat :=
  if 0 < n then some n else none

/-- The settings after one more key. Keys are known by name, and each takes values of one
    kind. -/
def set? (root : String) (s : Settings) : String × Toml.Value → Option Settings
  | ("version", .text text) => (Version.ofText? text).map fun v => { s with version := v }
  | ("search_paths", .texts paths) =>
    some { s with searchPaths := paths.map (Path.join root) }
  | ("prefix", .text path) => some { s with installation := some (Path.join root path) }
  | ("workers", .number (.ofNat n)) => some { s with workers := workers? n }
  | ("module_timeout_ms", .number (.ofNat n)) => some { s with timeout := n }
  | ("log_level", .text level) => some { s with logLevel := level }
  | ("log_file", .text path) => some { s with logFile := some (Path.join root path) }
  | _ => none

/-- The settings that a document makes for the project at a root. -/
def ofDocument? (root text : String) : Option Settings :=
  (Toml.document? text).bind fun keys => keys.foldlM (set? root) standard

/-- The document that sets every key that has a value to its standard value. -/
def standardDocument : String :=
  let quoted := fun text => "\x22" ++ text ++ "\x22"
  "version = " ++ quoted standard.version.render ++ "\n"
    ++ "search_paths = []\n"
    ++ "module_timeout_ms = " ++ toString standard.timeout ++ "\n"
    ++ "log_level = " ++ quoted standard.logLevel ++ "\n"

end Settings

/-! ### Files -/

/-- Why a file cannot be read as text. -/
inductive TextError
  | file (cause : FileError)
  | notUtf8
deriving Repr, DecidableEq

/-- The report about a file that cannot be read as text. -/
def TextError.message : TextError → String
  | .file cause => cause.message
  | .notUtf8 => "stream did not contain valid UTF-8"

/-- Why settings cannot be read or written. -/
inductive SettingsError
  | unreadable (path : String) (cause : TextError)
  | invalid (path : String)
  | unwritable (path : String) (cause : FileError)
  | alreadyThere (path : String)
deriving Repr, DecidableEq

/-- The report about settings that cannot be read or written. -/
def SettingsError.message : SettingsError → String
  | .unreadable path cause => "failed to read " ++ path ++ ": " ++ cause.message
  | .invalid path => "invalid configuration in " ++ path
  | .unwritable path cause => "failed to write " ++ path ++ ": " ++ cause.message
  | .alreadyThere path => path ++ " already exists"

/-- The text of the file at a path. -/
def FileSystem.readText (fs : FileSystem) (path : String) : Except TextError String :=
  match fs.read path with
  | .error cause => .error (.file cause)
  | .ok content =>
    match String.fromUTF8? content with
    | some text => .ok text
    | none => .error .notUtf8

namespace Settings

/-- The settings of the project at a root. Without a file they are the standard ones. -/
def load (fs : FileSystem) (root : String) : Except SettingsError Settings :=
  let path := Path.join root fileName
  if fs.isThere path then
    match fs.readText path with
    | .error cause => .error (.unreadable path cause)
    | .ok text =>
      match ofDocument? root text with
      | some s => .ok s
      | none => .error (.invalid path)
  else .ok standard

/-- Makes the file with the settings of the project at a root, with the standard values. Yields
    its path and the files after that. -/
def writeStandard (fs : FileSystem) (root : String) :
    Except SettingsError (String × FileSystem) :=
  let path := Path.join root fileName
  if fs.isThere path then .error (.alreadyThere path)
  else
    match fs.write root fileName standardDocument.toUTF8 with
    | .ok fs => .ok (path, fs)
    | .error cause => .error (.unwritable path cause)

end Settings

end PyAtlas
