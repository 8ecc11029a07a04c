import PyAtlas.Declaration.Basic
import PyAtlas.Module.NameTable

/-!
# Entities

The named things of a module. An `EntityId` says which one: the module itself, the
placeholder for what is not known, or one of the things that the module declares, counted in
the order of their making. Ids mean something only together with a module.

## Key definitions
- `EntityId`, `Entity`: ids and what stands behind those of declared things.
- `Category`: the coarse classification that users of the library see.
-/

namespace PyAtlas

/-- Which of the entities of a module. -/
inductive EntityId
  | module
  /-- Stands for whatever could not be found out. -/
  | unknown
  | declared (index : Nat)
deriving Repr, DecidableEq, Inhabited, Hashable

/-- The place of an entity among all entities of its module. -/
def EntityId.number : EntityId → Nat
  | .module => 0
  | .unknown => 1
  | .declared index => index + 2

/-- Different entities have different places. -/
theorem EntityId.number_injective {a b : EntityId} (h : a.number = b.number) : a = b := by
  cases a <;> cases b <;> simp_all [EntityId.number]

/-- What an import leads to. Modules are named absolutely. -/
inductive ImportTarget
  | module (name : String)
  | member (module name : String)
  /-- A relative import that leaves the outermost package. -/
  | unresolved
deriving Repr, DecidableEq

/-- Where a function stands. -/
inductive FunctionScope
  | module
  | method
  | nested
deriving Repr, DecidableEq

/-- One of the definitions that share the name of a function. -/
structure Overload where
  signature : Signature
  span : Span
deriving Repr, DecidableEq

/-- What is known of a class. -/
structure ClassInfo where
  shape : ClassShape
  members : NameTable EntityId
  /-- Attributes that methods set on their receiver. -/
  attributes : NameTable EntityId
  /-- What the names of bases and of the metaclass were bound to when the class statement ran,
      so that a class may derive from an earlier one of its own name. -/
  priorBindings : List (String × EntityId)
deriving Repr, DecidableEq

/-- What is known of a function. -/
structure FunctionInfo where
  overloads : List Overload
  scope : FunctionScope
  /-- Classes and functions declared in the body. -/
  locals : NameTable EntityId
deriving Repr, DecidableEq

/-- The kinds of declared entities. -/
inductive EntityKind
  | class (info : ClassInfo)
  | function (info : FunctionInfo)
  | variable (value : ValueKind)
  | imported (target : ImportTarget)
deriving Repr, DecidableEq

/-- A declared entity. -/
structure Entity where
  name : String
  /-- Where the name stands. -/
  span : Span
  /-- The module, class or function around it. -/
  parent : EntityId
  kind : EntityKind
deriving Repr, DecidableEq

/-- What an entity is, without details. -/
inductive Category
  | module
  | type
  | function
  | variable
  | imported
  | unknown
deriving Repr, DecidableEq, Inhabited

/-- The name of a category. -/
def Category.text : Category → String
  | .module => "module"
  | .type => "class"
  | .function => "function"
  | .variable => "variable"
  | .imported => "import"
  | .unknown => "unknown"

namespace EntityKind

/-- The category of the entities of a kind. -/
def category : EntityKind → Category
  | .class _ => .type
  | .function _ => .function
  | .variable _ => .variable
  | .imported _ => .imported

/-- The table that holds what is declared inside an entity. -/
def table? : EntityKind → Option (NameTable EntityId)
  | .class info => some info.members
  | .function info => some info.locals
  | _ => none

/-- The kind with another name in its table, if it has one. -/
def bind (name : String) (id : EntityId) : EntityKind → EntityKind
  | .class info => .class { info with members := info.members.insert name id }
  | .function info => .function { info with locals := info.locals.insert name id }
  | kind => kind

/-- The kind with another attribute of instances, if it is a class. -/
def bindAttribute (name : String) (id : EntityId) : EntityKind → EntityKind
  | .class info => .class { info with attributes := info.attributes.insert name id }
  | kind => kind

/-- The kind with another definition at the end, if it is a function. -/
def addOverload (overload : Overload) : EntityKind → EntityKind
  | .function info => .function { info with overloads := info.overloads ++ [overload] }
  | kind => kind

@[simp] theorem category_bind (name : String) (id : EntityId) (kind : EntityKind) :
    (kind.bind name id).category = kind.category := by
  cases kind <;> rfl

@[simp] theorem category_bindAttribute (name : String) (id : EntityId) (kind : EntityKind) :
    (kind.bindAttribute name id).category = kind.category := by
  cases kind <;> rfl

@[simp] theorem category_addOverload (overload : Overload) (kind : EntityKind) :
    (kind.addOverload overload).category = kind.category := by
  cases kind <;> rfl

end EntityKind

end PyAtlas
