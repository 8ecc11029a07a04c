import PyAtlas.Library.Locate
import PyAtlas.Module.Graph

/-!
# Atlases

An `Atlas` holds the modules read so far and what lookups between them have found out. Modules
are identified by their name and the version they are read under, and each is read once: a
request that has been answered gets the same answer from then on, failures included. The graph
of every answer has a number of its own.

## Key definitions
- `ModuleKey`, `EntityRef`: which module, and which entity of it.
- `GraphId`, `EntityKey`: the same by numbers.
- `Atlas`: modules and memos.
-/

namespace PyAtlas

/-- Why a module could not be read. -/
inductive ImportError
  | notFound (name : String)
  | unsupported (name : String) (kind : ModuleKind)
  | unreadable (path : String) (cause : FileError)
  | undecodable (path : String)
deriving Repr, DecidableEq

/-- The report about a module that could not be read. -/
def ImportError.message : ImportError → String
  | .notFound name => "no module named '" ++ name ++ "'"
  | .unsupported name kind =>
    "'" ++ name ++ "' is a " ++ kind.text ++ " module and cannot be analyzed"
  | .unreadable path cause => "failed to read " ++ path ++ ": " ++ cause.message
  | .undecodable path => path ++ " is not valid source text"

/-- The answer to the request for a module. Where the request failed an empty module stands in,
    so that imports have something to lead to. -/
structure ModuleSlot where
  graph : ModuleGraph
  failure : Option ImportError
deriving Repr

/-- Which module: one name read under two versions means two modules. -/
structure ModuleKey where
  name : String
  version : Version
deriving Repr, DecidableEq, Inhabited

/-- An entity of a module. -/
structure EntityRef where
  module : ModuleKey
  id : EntityId
deriving Repr, DecidableEq, Inhabited

/-- The number of the graph of a module. The graphs of an atlas are numbered from zero on, as they
    are made. -/
structure GraphId where
  number : Nat
deriving Repr, DecidableEq, Inhabited

/-- An entity by the number of the graph that it is in. -/
structure EntityKey where
  graph : GraphId
  id : EntityId
deriving Repr, DecidableEq, Inhabited

/-- The entity of a module. -/
def ModuleKey.ref (key : ModuleKey) : EntityRef := ⟨key, .module⟩

/-- The placeholder in the module of an entity. -/
def EntityRef.unknownBeside (ref : EntityRef) : EntityRef := ⟨ref.module, .unknown⟩

/-- How the names of an entity are accessed. -/
inductive Access
  /-- From code inside its scope. -/
  | unqualified
  /-- From the class. -/
  | onClass
  /-- From an instance: attributes of instances come first. -/
  | onInstance
deriving Repr, DecidableEq, Inhabited

/-- Modules and what lookups have found out about them. -/
structure Atlas where
  /-- The version that modules are read under unless another is asked for. -/
  version : Version
  files : FileSystem
  libraries : SearchPath
  /-- The answers to the requests so far, the last one first. -/
  modules : List (ModuleKey × ModuleSlot)
  /-- The numbers of the graphs of these answers. -/
  graphIds : List (ModuleKey × GraphId)
  /-- The number that the next graph gets. -/
  nextGraph : GraphId
  /-- The names visible on an entity. -/
  membersMemo : List ((EntityRef × Access) × NameTable EntityRef)
  /-- The bases of a class. -/
  basesMemo : List (EntityRef × List EntityRef)
  /-- What an import leads to. -/
  importMemo : List (EntityRef × EntityRef)

namespace Atlas

/-- The atlas in which no module has been asked for. -/
def empty (version : Version) (files : FileSystem) (libraries : SearchPath) : Atlas where
  version := version
  files := files
  libraries := libraries
  modules := []
  graphIds := []
  nextGraph := ⟨0⟩
  membersMemo := []
  basesMemo := []
  importMemo := []

/-- The number of the graph of a module, if the module has been asked for. -/
def graphId? (a : Atlas) (key : ModuleKey) : Option GraphId :=
  a.graphIds.lookup key

/-- The key of an entity, if its module has been asked for. -/
def entityKey? (a : Atlas) (ref : EntityRef) : Option EntityKey :=
  (a.graphId? ref.module).map (⟨·, ref.id⟩)

end Atlas

end PyAtlas
