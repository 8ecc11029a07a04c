import PyAtlas.Settings.Basic

/-!
# Commands

What can be asked for on the command line, and what can be wrong with a command line.

## Key definitions
- `Command`, `ProjectOptions`: what was asked for.
- `ProjectOptions.apply`: options over settings.
- `OptionName`, `CommandName.options`, `CommandName.positionals`: what each command takes.
-/

namespace PyAtlas

/-- The options of every command that analyzes modules. -/
structure ProjectOptions where
  /-- The directory with the settings. -/
  root : String
  version : Option Version
  installation : Option String
  searchPaths : List String
  workers : Option Nat
deriving Repr, DecidableEq

/-- Options win over settings. Search paths come before those of the settings, and zero workers
    change nothing. -/
def ProjectOptions.apply (o : ProjectOptions) (s : Settings) : Settings :=
  { s with
    version := o.version.getD s.version
    installation := o.installation.or s.installation
    searchPaths := o.searchPaths ++ s.searchPaths
    workers := (o.workers.bind Settings.workers?).or s.workers }

/-- What was asked for. -/
inductive Command
  /-- Make a file with settings. -/
  | init (path : Option String)
  /-- Report on all modules. -/
  | scan (project : ProjectOptions)
  /-- List the members of a module, or of a member of it. -/
  | members (module : String) (member : Option String) (onInstance : Bool)
      (project : ProjectOptions)
  /-- Describe a member of a module. -/
  | describe (module name : String) (project : ProjectOptions)
deriving Repr, DecidableEq

/-- Why a command line asks for nothing that can be done. Asking for help or for the version of
    the program is treated the same way. -/
inductive UsageError
  | helpAsked
  | versionAsked
  /-- There is no command. -/
  | noCommand
  | unknownCommand
  /-- An option that is not known, or one positional argument too many. -/
  | unknownArgument
  | missingArgument
  /-- An option without its value, or an empty path. -/
  | missingValue
  /-- A value that is no version or no number. -/
  | invalidValue
  /-- An option given twice. -/
  | repeated
  /-- A value for an option that takes none. -/
  | unneededValue
deriving Repr, DecidableEq

/-- The report about a command line. -/
def UsageError.message : UsageError → String
  | .helpAsked => "usage: init [PATH] | scan | members MODULE | describe MODULE NAME"
  | .versionAsked => "0.1.0"
  | .noCommand => "a command is required: init, scan, members or describe"
  | .unknownCommand => "unrecognized command"
  | .unknownArgument => "unexpected argument"
  | .missingArgument => "a required argument is missing"
  | .missingValue => "a value is required"
  | .invalidValue => "invalid value"
  | .repeated => "an option cannot be used multiple times"
  | .unneededValue => "unexpected value for an option that takes none"

/-! ### What commands take -/

/-- The names of commands. -/
inductive CommandName
  | init
  | scan
  | members
  | describe
deriving Repr, DecidableEq

/-- The command of a name. -/
def CommandName.ofText? : String → Option CommandName
  | "init" => some .init
  | "scan" => some .scan
  | "members" => some .members
  | "describe" => some .describe
  | _ => none

/-- The options of commands. -/
inductive OptionName
  | root
  | version
  | installation
  | searchPath
  | workers
  | member
  | onInstance
deriving Repr, DecidableEq

namespace OptionName

/-- The option that is written in the given way. -/
def ofText? : String → Option OptionName
  | "root" => some .root
  | "version" => some .version
  | "prefix" => some .installation
  | "search-path" => some .searchPath
  | "workers" => some .workers
  | "member" => some .member
  | "instance" => some .onInstance
  | _ => none

/-- Whether an option has a value. -/
def takesValue (o : OptionName) : Bool :=
  o != .onInstance

/-- Whether an option may be given more than once. -/
def repeatable (o : OptionName) : Bool :=
  o == .searchPath

/-- The largest number of workers that can be asked for. -/
def maxWorkers : Nat := 0xFFFFFFFFFFFFFFFF

/-- What is wrong with the value of an option. -/
def fault? (o : OptionName) (value : String) : Option UsageError :=
  match o with
  | .root | .installation | .searchPath => if value = "" then some .missingValue else none
  | .version => if (Version.ofText? value).isNone then some .invalidValue else none
  | .workers =>
    if (Text.decimal? maxWorkers value.toList).isNone then some .invalidValue else none
  | .member | .onInstance => none

end OptionName

/-- Positional arguments. -/
inductive PositionalName
  | path
  | module
  | member
deriving Repr, DecidableEq

/-- What is wrong with a positional argument. -/
def PositionalName.fault? (p : PositionalName) (value : String) : Option UsageError :=
  if p = .path ∧ value = "" then some .missingValue else none

namespace CommandName

/-- The options that a command takes. -/
def options : CommandName → List OptionName
  | .init => []
  | .scan | .describe => [.root, .version, .installation, .searchPath, .workers]
  | .members =>
    [.root, .version, .installation, .searchPath, .workers, .member, .onInstance]

/-- The positional arguments that a command takes, in order. -/
def positionals : CommandName → List PositionalName
  | .init => [.path]
  | .scan => []
  | .members => [.module]
  | .describe => [.module, .member]

/-- The number of positional arguments that a command has to be given. -/
def required : CommandName → Nat
  | .init | .scan => 0
  | .members => 1
  | .describe => 2

end CommandName

end PyAtlas
