import PyAtlas.Files.Path

/-!
# File trees

The files that modules are read from, as a value: trees of directories and files, each put at
the path under which it is known. Entries of a directory are kept in the order of their names.

## Key definitions
- `FileTree.put`: a tree with another file or directory.
- `FileSystem.find`: what is at a path, or why nothing is.
- `FileSystem.read`: the content of a file.
-/

namespace PyAtlas

/-- A file or a directory with its entries. -/
inductive FileTree
  | file (content : ByteArray)
  | directory (entries : List (String × FileTree))

namespace FileTree

instance : Inhabited FileTree := ⟨.directory []⟩

/-- Whether this is a file. -/
def isFile : FileTree → Bool
  | .file _ => true
  | .directory _ => false

/-- The entries of a directory; a file has none. -/
def entries : FileTree → List (String × FileTree)
  | .file _ => []
  | .directory entries => entries

/-- The entry of a name. -/
def child? (entries : List (String × FileTree)) (name : String) : Option FileTree :=
  entries.lookup name

/-- An entry that is found is one of the entries. -/
theorem mem_of_child? {entries : List (String × FileTree)} {name : String} {tree : FileTree}
    (h : child? entries name = some tree) : (name, tree) ∈ entries := by
  obtain ⟨front, back, rfl, -⟩ := List.lookup_eq_some_iff.1 h
  exact List.mem_append_right _ List.mem_cons_self

/-- Puts an entry at the place of its name. -/
def setEntry (name : String) (tree : FileTree) :
    List (String × FileTree) → List (String × FileTree)
  | [] => [(name, tree)]
  | (other, present) :: rest =>
    if name = other then (name, tree) :: rest
    else if name < other then (name, tree) :: (other, present) :: rest
    else (other, present) :: setEntry name tree rest

/-- Puts a file or directory at the end of some names, making the directories on the way. A
    directory that is there stays when a directory is put in its place. -/
def put (names : List String) (tree present : FileTree) : FileTree :=
  match names with
  | [] =>
    match tree, present with
    | .directory _, .directory entries => .directory entries
    | _, _ => tree
  | name :: rest =>
    let inner := put rest tree ((child? present.entries name).getD (.directory []))
    .directory (setEntry name inner present.entries)

end FileTree

/-! ### File systems -/

/-- Why there is nothing to be read at a path. -/
inductive FileError
  | missing
  | throughFile
  | isDirectory
deriving Repr, DecidableEq

/-- The report about a path that cannot be read or written. -/
def FileError.message : FileError → String
  | .missing => "No such file or directory (os error 2)"
  | .throughFile => "Not a directory (os error 20)"
  | .isDirectory => "Is a directory (os error 21)"

/-- Trees and the paths under which they are known. -/
structure FileSystem where
  mounts : List (String × FileTree)

namespace FileSystem

instance : Inhabited FileSystem := ⟨⟨[]⟩⟩

/-- What remains of a path below the path of a tree. -/
def below? (mount path : String) : Option String :=
  let m := mount.toList
  let p := path.toList
  if m.isPrefixOf p then
    let rest := p.drop m.length
    if rest.isEmpty || m.isEmpty || m.getLast? == some '/' || rest.head? == some '/' then
      some (String.ofList rest)
    else none
  else none

/-- Follows the pieces of a path from a place in a tree. `above` are the directories around
    the place, innermost first. What is around a whole tree is a directory whose entries are
    not known. -/
def follow : (pieces : List String) → (above : List FileTree) → FileTree →
    Except FileError FileTree
  | [], _, tree => .ok tree
  | _ :: _, _, .file _ => .error .throughFile
  | piece :: rest, above, .directory entries =>
    if Path.isStill piece then follow rest above (.directory entries)
    else if piece = ".." then
      match above with
      | [] => follow rest [] (.directory [])
      | outer :: above => follow rest above outer
    else
      match FileTree.child? entries piece with
      | some tree => follow rest (.directory entries :: above) tree
      | none => .error .missing

/-- What is at a path. -/
def find (fs : FileSystem) (path : String) : Except FileError FileTree :=
  let found := fs.mounts.findSome? fun (mount, tree) =>
    (below? mount path).map fun rest => (rest, tree)
  match found with
  | some (rest, tree) =>
    if rest = "" then .ok tree else follow (Path.pieces rest) [] tree
  | none => .error .missing

/-- The entries of the directory at a path, if there is one. -/
def entries? (fs : FileSystem) (path : String) : Option (List (String × FileTree)) :=
  match fs.find path with
  | .ok (.directory entries) => some entries
  | _ => none

/-- Whether there is anything at a path. -/
def isThere (fs : FileSystem) (path : String) : Bool :=
  match fs.find path with
  | .ok _ => true
  | .error _ => false

/-- The content of the file at a path. -/
def read (fs : FileSystem) (path : String) : Except FileError ByteArray :=
  match fs.find path with
  | .ok (.file content) => .ok content
  | .ok (.directory _) => .error .isDirectory
  | .error e => .error e

/-- The names that pieces of a path stand for, once directories left again are gone. -/
def settled (pieces : List String) : List String :=
  (pieces.foldl (fun names piece =>
    if Path.isStill piece then names
    else if piece = ".." then names.tail
    else piece :: names) []).reverse

/-- The files after a file is written in a directory, which has to be there. -/
def write (fs : FileSystem) (dir name : String) (content : ByteArray) :
    Except FileError FileSystem :=
  match fs.find dir with
  | .error e => .error e
  | .ok (.file _) => .error .throughFile
  | .ok (.directory _) =>
    .ok ⟨fs.mounts.map fun (mount, tree) =>
      match below? mount dir with
      | some rest =>
        (mount, FileTree.put (settled (Path.pieces rest) ++ [name]) (.file content) tree)
      | none => (mount, tree)⟩

end FileSystem

end PyAtlas
