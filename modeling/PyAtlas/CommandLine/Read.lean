import PyAtlas.CommandLine.Basic

/-!
# Reading command lines

Arguments are read from left to right. The value of an option may be written behind an equals
sign or as the next argument, and it is looked at only when the argument after it is understood,
so of two faults the one that is noticed first need not be the one that stands first. After two
hyphens on their own everything is positional.

## Key definitions
- `Reading.step`: the step for one argument of a command.
- `Command.ofArguments`: the command of a command line.
-/

namespace PyAtlas

/-! ### Forms of arguments -/

/-- The form of an argument before its meaning is known. -/
inductive ArgumentForm
  /-- Two hyphens alone. -/
  | escape
  /-- An option with its name in full, perhaps with a value behind an equals sign. -/
  | long (name : String) (value : Option String)
  /-- An option of one letter; what follows the letter does not matter. -/
  | short (letter : Char)
  | plain
deriving Repr, DecidableEq

/-- The form of an argument. One hyphen alone is plain. -/
def ArgumentForm.ofText (text : String) : ArgumentForm :=
  match text.toList with
  | ['-', '-'] => .escape
  | '-' :: '-' :: rest =>
    let name := rest.takeWhile (· != '=')
    match rest.drop name.length with
    | _ :: value => .long (String.ofList name) (some (String.ofList value))
    | [] => .long (String.ofList name) none
  | '-' :: letter :: _ => .short letter
  | _ => .plain

/-! ### The arguments of a command -/

/-- An argument that has been read and not yet been looked at. -/
inductive PendingArgument
  /-- An option, and its value once that has been read. -/
  | option (name : OptionName) (value : Option String)
  | positional (name : PositionalName) (value : String)
deriving Repr, DecidableEq

/-- How far the arguments of a command have been read. -/
structure Reading where
  command : CommandName
  options : List (OptionName × String)
  positionals : List String
  pending : Option PendingArgument
  /-- Whether only positional arguments follow. -/
  escaped : Bool
deriving Repr, DecidableEq

namespace Reading

/-- The state before the first argument of a command. -/
def start (command : CommandName) : Reading :=
  ⟨command, [], [], none, false⟩

/-- Takes over an option with its value. -/
def addOption (r : Reading) (name : OptionName) (value : String) : Except UsageError Reading :=
  if !name.repeatable && r.options.any (·.1 == name) then .error .repeated
  else
    match name.fault? value with
    | some fault => .error fault
    | none => .ok { r with options := r.options ++ [(name, value)], pending := none }

/-- Looks at the argument that has been read last. -/
def resolve (r : Reading) : Except UsageError Reading :=
  match r.pending with
  | none => .ok r
  | some (.option _ none) => .error .missingValue
  | some (.option name (some value)) => r.addOption name value
  | some (.positional name value) =>
    match name.fault? value with
    | some fault => .error fault
    | none => .ok { r with positionals := r.positionals ++ [value], pending := none }

/-- The number of positional arguments that have been read. -/
def taken (r : Reading) : Nat :=
  match r.pending with
  | some (.positional _ _) => r.positionals.length + 1
  | _ => r.positionals.length

/-- Reads a positional argument. -/
def positional (r : Reading) (value : String) : Except UsageError Reading :=
  match r.command.positionals[r.taken]? with
  | none => .error .unknownArgument
  | some name => do
    let r ← r.resolve
    pure { r with pending := some (.positional name value) }

/-- Reads an option that is named in full. -/
def longOption (r : Reading) (name : String) (value : Option String) :
    Except UsageError Reading :=
  let known := (OptionName.ofText? name).filter r.command.options.contains
  match known, value with
  | some o, value =>
    -- A value behind an equals sign is taken at once; one in the next argument has to wait.
    match o.takesValue, value with
    | true, some value => do
      let r ← r.resolve
      r.addOption o value
    | true, none => do
      let r ← r.resolve
      pure { r with pending := some (.option o none) }
    | false, none => do
      let r ← r.resolve
      r.addOption o ""
    | false, some _ => .error .unneededValue
  | none, value =>
    if name = "help" then
      match value with
      | some _ => .error .unneededValue
      | none => do
        let _ ← r.resolve
        .error .helpAsked
    else .error .unknownArgument

/-- Reads an option of one letter. -/
def shortOption (r : Reading) (letter : Char) : Except UsageError Reading :=
  if letter = 'h' then do
    let _ ← r.resolve
    .error .helpAsked
  else .error .unknownArgument

/-- Reads an argument. -/
def step (r : Reading) (argument : String) : Except UsageError Reading :=
  if r.escaped then r.positional argument
  else
    match ArgumentForm.ofText argument with
    | .escape => .ok { r with escaped := true }
    | .long name value => r.longOption name value
    | .short letter => r.shortOption letter
    | .plain =>
      match r.pending with
      | some (.option name none) =>
        .ok { r with pending := some (.option name (some argument)) }
      | _ => r.positional argument

/-- The value of an option. -/
def option? (r : Reading) (name : OptionName) : Option String :=
  r.options.lookup name

/-- The options of the project. -/
def project (r : Reading) : ProjectOptions where
  root := (r.option? .root).getD "."
  version := (r.option? .version).bind Version.ofText?
  installation := r.option? .installation
  searchPaths := r.options.filterMap fun (name, value) =>
    if name = .searchPath then some value else none
  workers := (r.option? .workers).bind fun value =>
    Text.decimal? OptionName.maxWorkers value.toList

/-- The command that the arguments make. -/
def finish (r : Reading) : Except UsageError Command := do
  let r ← r.resolve
  match r.command, r.positionals with
  | .init, [] => .ok (.init none)
  | .init, path :: _ => .ok (.init (some path))
  | .scan, _ => .ok (.scan r.project)
  | .members, module :: _ =>
    .ok (.members module (r.option? .member) (r.option? .onInstance).isSome r.project)
  | .describe, module :: name :: _ => .ok (.describe module name r.project)
  | _, _ => .error .missingArgument

end Reading

/-! ### Command lines -/

/-- The outcome of asking for help on a command. Help on help can be asked for, but no command
    has commands of its own. -/
def helpOutcome : List String → UsageError
  | [] => .helpAsked
  | [name] =>
    if name = "help" || (CommandName.ofText? name).isSome then .helpAsked else .unknownCommand
  | _ => .unknownCommand

/-- What is wrong with an argument that stands where a command was expected. -/
def ArgumentForm.rootFault : ArgumentForm → UsageError
  | .long name value =>
    if name = "help" || name = "version" then
      if value.isSome then .unneededValue
      else if name = "help" then .helpAsked else .versionAsked
    else .unknownArgument
  | .short letter =>
    if letter = 'h' then .helpAsked
    else if letter = 'V' then .versionAsked
    else .unknownArgument
  | .escape | .plain => .unknownCommand

/-- What is wrong with the arguments after two hyphens where a command was expected: commands
    do not stand there. -/
def escapedFault : List String → UsageError
  | [] => .noCommand
  | name :: _ =>
    if name = "help" || (CommandName.ofText? name).isSome then .unknownArgument
    else .unknownCommand

/-- The command of a command line. -/
def Command.ofArguments : List String → Except UsageError Command
  | [] => .error .noCommand
  | argument :: rest =>
    if argument = "help" then .error (helpOutcome rest)
    else
      match CommandName.ofText? argument, ArgumentForm.ofText argument with
      | some name, _ => do
        let r ← rest.foldlM Reading.step (Reading.start name)
        r.finish
      | none, .escape => .error (escapedFault rest)
      | none, form => .error form.rootFault

end PyAtlas
