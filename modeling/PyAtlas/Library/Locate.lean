import PyAtlas.Files.Tree
import PyAtlas.Library.ModuleFile

/-!
# Locating modules

A library is a directory whose entries are modules and packages; a package is a directory with
an `__init__` file. Modules are looked for in a list of libraries, and the first that has the
module wins.

## Key definitions
- `moduleFile?`: the file of a directory that holds a module.
- `locateIn?`: the place of a dotted name in one library.
- `SearchPath.locate?`: the place of a dotted name in several.
-/

namespace PyAtlas

/-- A module and its place. -/
structure ModuleLocation where
  name : String
  path : String
  /-- The library that the module was found in. -/
  library : String
  kind : ModuleKind
  isPackage : Bool
deriving Repr, DecidableEq

/-- The entries of a directory. -/
abbrev Entries := List (String × FileTree)

/-- Whether a directory has a file of the given name. -/
def hasFile (entries : Entries) (name : String) : Bool :=
  match FileTree.child? entries name with
  | some tree => tree.isFile
  | none => false

/-- The extensions that are tried one after the other, best first. Native modules come after
    them, in the order of the listing. -/
def preferredExtensions : List (String × ModuleKind) :=
  [("py", .source), ("pyw", .source), ("pyc", .compiled), ("pyo", .compiled)]

/-- The file of a directory that holds the module of the given name. -/
def moduleFile? (entries : Entries) (name : String) : Option (String × ModuleKind) :=
  let preferred := preferredExtensions.findSome? fun (extension, kind) =>
    let fileName := name ++ "." ++ extension
    if hasFile entries fileName then some (fileName, kind) else none
  preferred.or <| entries.findSome? fun (fileName, tree) =>
    if tree.isFile && classifyFile? fileName == some (name, .native) then
      some (fileName, .native)
    else none

/-- A package in a directory: its entries, and the file that makes it one. -/
def package? (entries : Entries) (name : String) : Option (Entries × String × ModuleKind) :=
  match FileTree.child? entries name with
  | some (.directory inner) => (moduleFile? inner packageStem).map fun init => (inner, init)
  | _ => none

/-- The module of a name directly in a directory. A package wins over a file. -/
def moduleIn? (library dir : String) (entries : Entries) (dottedName name : String) :
    Option ModuleLocation :=
  match package? entries name with
  | some (_, file, kind) =>
    some ⟨dottedName, Path.join (Path.join dir name) file, library, kind, true⟩
  | none => (moduleFile? entries name).map fun (file, kind) =>
    ⟨dottedName, Path.join dir file, library, kind, false⟩

/-- The module that the segments of a dotted name lead to from a directory of a library. -/
def locateFrom? (library dottedName : String) :
    (segments : List String) → (dir : String) → Entries → Option ModuleLocation
  | [], _, _ => none
  | [name], dir, entries => moduleIn? library dir entries dottedName name
  | name :: rest, dir, entries =>
    (package? entries name).bind fun (inner, _) =>
      locateFrom? library dottedName rest (Path.join dir name) inner

/-- The place of a dotted name in a library. -/
def locateIn? (fs : FileSystem) (library dottedName : String) : Option ModuleLocation :=
  locateFrom? library dottedName (DottedName.segments dottedName) library
    ((fs.entries? library).getD [])

/-- The libraries that modules are looked for in, in order. -/
abbrev SearchPath := List String

/-- The place of a dotted name. Names with a segment that is no identifier have none. -/
def SearchPath.locate? (libraries : SearchPath) (fs : FileSystem) (dottedName : String) :
    Option ModuleLocation :=
  if (DottedName.segments dottedName).all Text.isIdentifier then
    libraries.findSome? fun library => locateIn? fs library dottedName
  else none

end PyAtlas
