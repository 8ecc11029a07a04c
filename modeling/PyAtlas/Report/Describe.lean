import PyAtlas.Atlas.Query

/-!
# Descriptions

The text that introduces an entity to a reader: what it is, its details, and its
documentation.
-/

namespace PyAtlas.Report

open Atlas

/-- A text that ends its line. -/
def line (text : String) : String := text ++ "\n"

/-- The description of a module. -/
def describeModule (g : ModuleGraph) : String :=
  let path := match g.path with
    | some path => " (" ++ path ++ ")"
    | none => ""
  let unresolved := if g.synthetic then " (unresolved)" else ""
  let stars := g.starImports.length
  line ("module " ++ g.name ++ path ++ unresolved)
    ++ line ("grammar: " ++ g.version.render)
    ++ (if stars = 0 then "" else line ("star imports: " ++ toString stars))

/-- The description of a class: its header, its metaclass if it declares one, and what it
    derives from. -/
def describeClass (ref : EntityRef) (shape : ClassShape) : Query String := do
  let metaclass ← metaclass? ref
  let order ← linearize ref
  let a ← get
  let header := "class " ++ a.qualifiedName ref ++ "("
    ++ ", ".intercalate (shape.bases.map BaseRef.text) ++ ")"
  let metaclassLine := match metaclass with
    | some m => line ("metaclass: " ++ if a.isUnknown m then "?" else a.qualifiedName m)
    | none => ""
  let basesLine := match order.tail with
    | [] => ""
    | ancestors => line ("bases: " ++ " -> ".intercalate (ancestors.map a.qualifiedName))
  pure (line header ++ metaclassLine ++ basesLine)

/-- The description of one definition of a function. -/
def describeOverload (keyword name : String) (s : Signature) : String :=
  String.join (s.decorators.map fun decorator => line ("@" ++ decorator))
    ++ line ((if s.isAsync then "async " else "") ++ keyword ++ " " ++ name ++ s.render)

/-- The description of a function: all its definitions. -/
def describeFunction (name : String) (info : FunctionInfo) : String :=
  let keyword := match info.scope with
    | .method => "method"
    | .module | .nested => "def"
  String.join (info.overloads.map fun overload =>
    describeOverload keyword name overload.signature)

/-- The description of an entity. -/
def describe (ref : EntityRef) : Query String := do
  let a ← get
  let g := a.graph ref.module
  let body ← match ref.id, g.kind? ref.id with
    | .module, _ => pure (describeModule g)
    | _, some (.class info) => describeClass ref info.shape
    | _, some (.function info) => pure (describeFunction (g.nameOf ref.id) info)
    | _, some (.variable value) => pure (line (g.qualifiedName ref.id ++ ": " ++ value.text))
    | _, _ => pure (line (g.nameOf ref.id ++ ": unknown"))
  match g.docOf ref.id with
  | some doc => pure (body ++ "\n" ++ line doc)
  | none => pure body

end PyAtlas.Report
