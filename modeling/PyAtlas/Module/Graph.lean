import PyAtlas.Module.Entity
import PyAtlas.Source.Version
import PyAtlas.Syntax.Error

/-!
# Module graphs

All entities of one module, with what the module says about itself. Nothing in a graph looks
at other modules: imports and bases stay names here.

The module and its unknown placeholder are entities of every graph by the choice of
`EntityId`. Declared entities are only ever added, and what changes in them afterwards are
their tables and overloads.

## Key definitions
- `ModuleGraph.parent?`, `ModuleGraph.chain`: the scopes around an entity.
- `ModuleGraph.declare`, `ModuleGraph.bind`, `ModuleGraph.update`: how a graph grows.
-/

namespace PyAtlas

/-- The entities of a module. -/
structure ModuleGraph where
  name : String
  version : Version
  path : Option String
  isPackage : Bool
  /-- Whether the graph only stands in for a module that could not be read. -/
  synthetic : Bool
  doc : Option String
  /-- The names that a star import takes, where the module lists them. -/
  exports : Option (List String)
  errors : List SyntaxError
  /-- The modules whose exports the module takes over, in order. -/
  starImports : List ImportTarget
  members : NameTable EntityId
  declared : Array Entity
deriving Repr

namespace ModuleGraph

/-- A module that declares nothing. -/
def bare (name : String) (version : Version) : ModuleGraph where
  name := name
  version := version
  path := none
  isPackage := false
  synthetic := false
  doc := none
  exports := none
  errors := []
  starImports := []
  members := .empty
  declared := #[]

/-- A module without content that stands in for one that could not be read. -/
def standIn (name : String) (version : Version) : ModuleGraph :=
  { bare name version with synthetic := true }

instance : Inhabited ModuleGraph := ⟨standIn "" default⟩

/-- The number of entities. -/
def size (g : ModuleGraph) : Nat :=
  g.declared.size + 2

/-! ### Looking at entities -/

/-- A declared entity. -/
def entity? (g : ModuleGraph) : EntityId → Option Entity
  | .declared index => g.declared[index]?
  | _ => none

/-- The kind of a declared entity, with all that is known of it. -/
def kind? (g : ModuleGraph) (id : EntityId) : Option EntityKind :=
  (g.entity? id).map Entity.kind

/-- The category of an entity. -/
def category (g : ModuleGraph) : EntityId → Category
  | .module => .module
  | .unknown => .unknown
  | .declared index => (g.declared[index]?.map (·.kind.category)).getD .unknown

/-- The name of an entity. -/
def nameOf (g : ModuleGraph) : EntityId → String
  | .module => g.name
  | .unknown => "<unknown>"
  | .declared index => (g.declared[index]?.map (·.name)).getD ""

/-- Where an entity is declared. -/
def spanOf (g : ModuleGraph) (id : EntityId) : Span :=
  ((g.entity? id).map (·.span)).getD ⟨0, 0⟩

/-- The entity around an entity. -/
def parent? (g : ModuleGraph) : EntityId → Option EntityId
  | .module => none
  | .unknown => some .module
  | .declared index => g.declared[index]?.map (·.parent)

/-- The names declared inside an entity. -/
def table? (g : ModuleGraph) : EntityId → Option (NameTable EntityId)
  | .module => some g.members
  | .unknown => none
  | .declared index => g.declared[index]?.bind (·.kind.table?)

/-- What is known of an entity that is a class. -/
def class? (g : ModuleGraph) (id : EntityId) : Option ClassInfo :=
  match g.kind? id with
  | some (.class info) => some info
  | _ => none

/-- What is known of an entity that is a function. -/
def function? (g : ModuleGraph) (id : EntityId) : Option FunctionInfo :=
  match g.kind? id with
  | some (.function info) => some info
  | _ => none

/-- What an entity that is an import leads to. -/
def import? (g : ModuleGraph) (id : EntityId) : Option ImportTarget :=
  match g.kind? id with
  | some (.imported target) => some target
  | _ => none

/-- What an entity that is a variable is bound to. -/
def value? (g : ModuleGraph) (id : EntityId) : Option ValueKind :=
  match g.kind? id with
  | some (.variable value) => some value
  | _ => none

/-- The definitions of an entity that is a function. -/
def overloads (g : ModuleGraph) (id : EntityId) : List Overload :=
  ((g.function? id).map (·.overloads)).getD []

/-- The documentation of an entity: that of a module or class, or the first that a definition
    of a function has. -/
def docOf (g : ModuleGraph) (id : EntityId) : Option String :=
  match id with
  | .module => g.doc
  | _ =>
    match g.kind? id with
    | some (.class info) => info.shape.doc
    | some (.function info) => info.overloads.findSome? (·.signature.doc)
    | _ => none

/-- An entity and the entities around it, innermost first. -/
def chain (g : ModuleGraph) (id : EntityId) : List EntityId :=
  id :: match g.parent? id with
    | some parent => if parent.number < id.number then g.chain parent else []
    | none => []
termination_by id.number

/-- The dotted name of an entity, from the module on. -/
def qualifiedName (g : ModuleGraph) (id : EntityId) : String :=
  DottedName.join ((g.chain id).reverse.map g.nameOf)

/-! ### Growing -/

/-- Changes the kind of a declared entity. -/
def update (g : ModuleGraph) (id : EntityId) (f : EntityKind → EntityKind) : ModuleGraph :=
  match id with
  | .declared index =>
    { g with declared := g.declared.modify index fun e => { e with kind := f e.kind } }
  | _ => g

/-- Binds a name inside an entity. -/
def bind (g : ModuleGraph) (owner : EntityId) (name : String) (id : EntityId) : ModuleGraph :=
  match owner with
  | .module => { g with members := g.members.insert name id }
  | _ => g.update owner (.bind name id)

/-- The id that the next declared entity gets. -/
def nextId (g : ModuleGraph) : EntityId :=
  .declared g.declared.size

/-- Adds an entity, which gets the id `nextId`. -/
def push (g : ModuleGraph) (e : Entity) : ModuleGraph :=
  { g with declared := g.declared.push e }

/-- Adds an entity and binds its name inside the entity around it. -/
def declare (g : ModuleGraph) (e : Entity) : ModuleGraph :=
  (g.push e).bind e.parent e.name g.nextId

end ModuleGraph

end PyAtlas
