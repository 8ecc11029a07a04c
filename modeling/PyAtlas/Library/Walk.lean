import PyAtlas.Library.Locate

/-!
# Walking through libraries

All modules of the libraries of a search path. A directory is listed before the packages in
it, and packages follow in the order of their names, each with all that is below it before
the next. Every module is listed once per library, with the file that locating it would find.
-/

namespace PyAtlas

/-- The dotted name of a module in a package, or in none. -/
def qualify (package : Option String) (name : String) : String :=
  match package with
  | some package => package ++ "." ++ name
  | none => name

/-- Whether a directory of this name is looked into. -/
def isPackageName (name : String) : Bool :=
  name != "__pycache__" && Text.isIdentifier name

/-- The module that an entry of a directory stands for. Entries that another one stands in
    front of are passed over, and so is the file of the package itself. -/
def entryModule? (library dir : String) (package : Option String) (entries : Entries) :
    String × FileTree → Option ModuleLocation
  | (name, .directory inner) =>
    if isPackageName name then
      (moduleFile? inner packageStem).map fun (file, kind) =>
        ⟨qualify package name, Path.join (Path.join dir name) file, library, kind, true⟩
    else none
  | (fileName, .file _) => do
    let (name, kind) ← classifyFile? fileName
    -- A package of the same name stands in front, and so does a better file.
    if name = packageStem then none
    else if (package? entries name).isSome then none
    else if ((moduleFile? entries name).map Prod.fst) != some fileName then none
    else some ⟨qualify package name, Path.join dir fileName, library, kind, false⟩

mutual

/-- The modules below a directory of a library. -/
def modulesBelow (library dir : String) (package : Option String) : FileTree →
    List ModuleLocation
  | .file _ => []
  | .directory entries =>
    entries.filterMap (entryModule? library dir package entries)
      ++ modulesInPackages library dir package entries

/-- The modules below those entries of a directory that are packages. -/
def modulesInPackages (library dir : String) (package : Option String) :
    List (String × FileTree) → List ModuleLocation
  | [] => []
  | (name, tree) :: rest =>
    (if isPackageName name && (moduleFile? tree.entries packageStem).isSome then
        modulesBelow library (Path.join dir name) (some (qualify package name)) tree
      else [])
    ++ modulesInPackages library dir package rest

end

/-- The modules of a library. -/
def libraryModules (fs : FileSystem) (library : String) : List ModuleLocation :=
  match fs.find library with
  | .ok tree => modulesBelow library library none tree
  | .error _ => []

/-- The modules of all libraries of a search path, those of the first library first. -/
def SearchPath.modules (libraries : SearchPath) (fs : FileSystem) : List ModuleLocation :=
  libraries.flatMap (libraryModules fs)

end PyAtlas
