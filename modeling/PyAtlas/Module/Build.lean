import PyAtlas.Declaration.Outline
import PyAtlas.Module.Graph

/-!
# From outlines to graphs

`ModuleGraph.ofTree` takes the declarations of a module one by one and makes entities of
them. A later declaration of a name replaces an earlier one, except that functions that
follow each other under one name become one entity with several definitions.

## Key definitions
- `absoluteModule`: the module that a relative import means.
- `Assembly.place`: the step for one declaration.
-/

namespace PyAtlas

/-- The absolute name of a module that an import in the module `name` refers to. The first
    point stands for the package of the importing module, each further one for the package
    around it; `none` when that goes beyond the outermost package, or when nothing is
    named. -/
def absoluteModule (name : String) (isPackage : Bool) (module : Option String) :
    (level : Nat) → Option String
  | 0 => module
  | up + 1 =>
    let segments := DottedName.segments name
    let package := if isPackage then segments else segments.dropLast
    if package.length ≤ up then none
    else some (DottedName.join (package.take (package.length - up) ++ module.toList))

/-- The target of an import that binds one name. -/
def ImportTarget.ofRef (name : String) (isPackage : Bool) : ImportRef → ImportTarget
  | .module target => .module target
  | .member base level taken =>
    match absoluteModule name isPackage base level with
    | some target => .member target taken
    | none => .unresolved
  | .star base level =>
    match absoluteModule name isPackage base level with
    | some target => .module target
    | none => .unresolved

/-- What a name is bound to for a statement directly in the scope of an entity: by that
    entity, or by one around it that is not a class. -/
def ModuleGraph.visible? (g : ModuleGraph) (scope : EntityId) (name : String) :
    Option EntityId :=
  (g.chain scope).findSome? fun id =>
    if id == scope || g.category id != .type then (g.table? id).bind (·.get? name) else none

/-- A graph in the making: the graph of the declarations placed so far, and the entity that
    each of them has become, if any. -/
structure Assembly where
  graph : ModuleGraph
  ids : Array (Option EntityId)
deriving Repr

namespace Assembly

/-- The entity that the scope of a declaration has become. -/
def owner (a : Assembly) (d : Declaration) : EntityId :=
  (d.parent.bind fun parent => a.ids[parent]?.join).getD .module

/-- Notes that a declaration has become an entity of the given graph. -/
def placed (a : Assembly) (graph : ModuleGraph) (id : Option EntityId) : Assembly :=
  ⟨graph, a.ids.push id⟩

/-- Makes a new entity of a declaration. -/
def placeNew (a : Assembly) (d : Declaration) (kind : EntityKind) : Assembly :=
  a.placed (a.graph.declare ⟨d.name, d.span, a.owner d, kind⟩) (some a.graph.nextId)

/-- What a class is known by when its statement has run. Every class has itself under the
    name `__class__`. -/
def classInfo (a : Assembly) (d : Declaration) (shape : ClassShape) : ClassInfo where
  shape := shape
  members := NameTable.empty.insert "__class__" a.graph.nextId
  attributes := .empty
  priorBindings := (shape.bases ++ shape.metaclass.toList).filterMap fun base => do
    let name ← base.head?
    let id ← a.graph.visible? (a.owner d) name
    pure (name, id)

/-- Places a function: with the function of its name that is already there, or anew. -/
def placeFunction (a : Assembly) (d : Declaration) (signature : Signature) : Assembly :=
  let owner := a.owner d
  let overload := ⟨signature, d.span⟩
  let present := (a.graph.table? owner).bind (·.get? d.name)
  -- A definition after others of its name joins them.
  match present.filter fun id => a.graph.category id == .function with
  | some id => a.placed (a.graph.update id (.addOverload overload)) (some id)
  | none =>
    let scope := match a.graph.category owner with
      | .type => FunctionScope.method
      | .function => .nested
      | _ => .module
    a.placeNew d (.function ⟨[overload], scope, .empty⟩)

/-- Places an attribute that a method sets on instances of the class around it. -/
def placeAttribute (a : Assembly) (d : Declaration) (value : ValueKind) : Assembly :=
  let owner := a.owner d
  if a.graph.category owner = .type then
    let graph := a.graph.push ⟨d.name, d.span, owner, .variable value⟩
    a.placed (graph.update owner (.bindAttribute d.name a.graph.nextId)) none
  else a.placed a.graph none

/-- Places a star import. Only those of the module itself count. -/
def placeStar (a : Assembly) (d : Declaration) (target : ImportTarget) : Assembly :=
  if a.owner d = .module then
    a.placed { a.graph with starImports := a.graph.starImports ++ [target] } none
  else a.placed a.graph none

/-- Places one declaration. -/
def place (a : Assembly) (d : Declaration) : Assembly :=
  match d.kind with
  | .class shape => a.placeNew d (.class (a.classInfo d shape))
  | .function signature => a.placeFunction d signature
  | .variable value true => a.placeAttribute d value
  | .variable value false => a.placeNew d (.variable value)
  | .imported ref =>
    let target := ImportTarget.ofRef a.graph.name a.graph.isPackage ref
    match ref with
    | .star _ _ => a.placeStar d target
    | _ => a.placeNew d (.imported target)

end Assembly

/-- The graph of a module with the given outline. -/
def ModuleGraph.ofOutline (name : String) (version : Version) (path : Option String)
    (isPackage : Bool) (outline : Outline) : ModuleGraph :=
  let graph := { bare name version with
    path := path
    isPackage := isPackage
    doc := outline.doc
    exports := outline.exports
    errors := outline.errors }
  (outline.declarations.foldl Assembly.place ⟨graph, #[]⟩).graph

/-- The graph of a module with the given syntax tree. -/
def ModuleGraph.ofTree (name : String) (path : Option String) (isPackage : Bool)
    (tree : SyntaxTree) : ModuleGraph :=
  ofOutline name tree.version path isPackage (.ofTree tree)

end PyAtlas
