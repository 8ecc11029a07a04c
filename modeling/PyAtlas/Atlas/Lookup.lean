import PyAtlas.Atlas.Load

/-!
# Lookups

Following names through an atlas: the members of modules and classes, the bases of classes,
and what imports lead to. Each of these is a task on an entity, and tasks call for other
tasks, on modules that may have to be read first.

A `Lookup` only says what it asks for and how it goes on with the answers. Who answers is
left open, so that the tasks are described once and can be performed with and without a memory.

## Key definitions
- `Task`, `Lookup`: the tasks, and computations that ask for them.
- `Task.body`, `Lookup.visitBody`: how a task, or a visit to a class, asks for others.
-/

namespace PyAtlas

/-- What a lookup may be busy with. -/
inductive Task
  | members (ref : EntityRef) (access : Access)
  | bases (ref : EntityRef)
  | follow (ref : EntityRef)
deriving Repr, DecidableEq

namespace Task

/-- The entity that a task is about. -/
def subject : Task → EntityRef
  | members ref _ => ref
  | bases ref => ref
  | follow ref => ref

/-- What a task finds out: the names visible on an entity, what the bases of a class are, one
    for each that is declared, or what an import leads to. -/
abbrev Answer : Task → Type
  | members _ _ => NameTable EntityRef
  | bases _ => List EntityRef
  | follow _ => EntityRef

end Task

/-- A computation that follows names through an atlas. -/
inductive Lookup (α : Type) : Type
  | done (answer : α)
  /-- Asks for a module. -/
  | request (key : ModuleKey) (next : ModuleSlot → Lookup α)
  /-- Asks for the answer of a task. -/
  | task (t : Task) (next : t.Answer → Lookup α)
  /-- Asks for the classes visited once a class is visited after those in `order`. -/
  | visit (order : List EntityRef) (ref : EntityRef) (next : List EntityRef → Lookup α)

namespace Lookup

/-- Goes on with the answer of a lookup. -/
protected def bind {α β : Type} : Lookup α → (α → Lookup β) → Lookup β
  | done x, f => f x
  | request key next, f => request key fun slot => (next slot).bind f
  | task t next, f => task t fun answer => (next answer).bind f
  | visit order ref next, f => visit order ref fun order => (next order).bind f

instance : Monad Lookup where
  pure := done
  bind := Lookup.bind

instance : LawfulMonad Lookup := LawfulMonad.mk' Lookup
  (fun x => by
    show x.bind done = x
    induction x with
    | done => rfl
    | request _ _ ih => simp only [Lookup.bind, ih]
    | task _ _ ih => simp only [Lookup.bind, ih]
    | visit _ _ _ ih => simp only [Lookup.bind, ih])
  (fun _ _ => rfl)
  (fun x f g => by
    show (x.bind f).bind g = x.bind fun a => (f a).bind g
    induction x with
    | done => rfl
    | request _ _ ih => simp only [Lookup.bind, ih]
    | task _ _ ih => simp only [Lookup.bind, ih]
    | visit _ _ _ ih => simp only [Lookup.bind, ih])

/-! ### What can be asked for -/

/-- The graph of a module. -/
def graph (key : ModuleKey) : Lookup ModuleGraph :=
  request key fun slot => done slot.graph

/-- The module of a name, unless it cannot be read. -/
def importModule? (key : ModuleKey) : Lookup (Option EntityRef) :=
  request key fun slot => done (if slot.failure.isNone then some key.ref else none)

/-- The names visible on an entity. -/
def members (ref : EntityRef) (access : Access) : Lookup (NameTable EntityRef) :=
  task (.members ref access) done

/-- The bases of a class; any other entity has none. -/
def bases (ref : EntityRef) : Lookup (List EntityRef) := do
  let g ← graph ref.module
  if (g.class? ref.id).isSome then task (.bases ref) done else pure []

/-- What an entity stands for: what it leads to if it is an import, else itself. -/
def dereference (ref : EntityRef) : Lookup EntityRef := do
  let g ← graph ref.module
  if (g.import? ref.id).isSome then task (.follow ref) done else pure ref

/-! ### Following imports -/

/-- The member of a name, followed if it is an import. -/
def member (ref : EntityRef) (access : Access) (name : String) : Lookup (Option EntityRef) := do
  let target ← dereference ref
  let table ← members target access
  match table.get? name with
  | some found => some <$> dereference found
  | none => pure none

/-- An entity unless it stands for what could not be found out. -/
def known? (ref : EntityRef) : Lookup (Option EntityRef) := do
  let g ← graph ref.module
  pure (if g.category ref.id = .unknown then none else some ref)

/-- The member of a module, unless it could not be found out. -/
def knownMember? (holder : EntityRef) (name : String) : Lookup (Option EntityRef) := do
  match ← member holder .unqualified name with
  | some found => known? found
  | none => pure none

/-- The module of a name inside another module. -/
def inside? (key : ModuleKey) (name : String) : Lookup (Option EntityRef) :=
  importModule? ⟨key.name ++ "." ++ name, key.version⟩

/-- What an import of the given target leads to. The member of a module may also be a module
    inside it. -/
def resolveImport (ref : EntityRef) (target : ImportTarget) : Lookup EntityRef := do
  match target with
  | .unresolved => pure ref.unknownBeside
  | .module name =>
    let key : ModuleKey := ⟨name, ref.module.version⟩
    request key fun _ => pure key.ref
  | .member source name =>
    let key : ModuleKey := ⟨source, ref.module.version⟩
    match ← importModule? key with
    | none => pure ref.unknownBeside
    | some present =>
      -- A package may import a module inside it under the name of that module. The import is
      -- then cut, and what it means is the module.
      match ← knownMember? present name with
      | some found => pure found
      | none => do
        let inside ← inside? key name
        pure (inside.getD ref.unknownBeside)

/-- What an entity leads to. -/
def follow (ref : EntityRef) : Lookup EntityRef := do
  let g ← graph ref.module
  match g.import? ref.id with
  | some target => resolveImport ref target
  | none => pure ref

/-! ### Members of modules -/

/-- Adds a name that a module lists among its exports: its member, or the module of that name
    inside it. -/
def addExport (key : ModuleKey) (members : NameTable EntityRef) (table : NameTable EntityRef)
    (name : String) : Lookup (NameTable EntityRef) := do
  if table.contains name then pure table
  else
    match members.get? name with
    | some found => pure (table.insertNew name found)
    | none =>
      match ← inside? key name with
      | some inside => pure (table.insertNew name inside)
      | none => pure table

/-- The names that do not begin with an underscore. -/
def publicEntries (members : NameTable EntityRef) : List (String × EntityRef) :=
  members.entries.filter fun entry => entry.1.toList.head? != some '_'

/-- Adds the exports of a module that can be read: those that it lists, or else all public
    names. -/
def addModuleExports (key : ModuleKey) (table : NameTable EntityRef) :
    Lookup (NameTable EntityRef) := do
  let members ← members key.ref .unqualified
  let g ← graph key
  match g.exports with
  | some names => names.foldlM (addExport key members) table
  | none => pure (table.insertAllNew (publicEntries members))

/-- Adds what a star import takes over. -/
def addExports (version : Version) (table : NameTable EntityRef) (target : ImportTarget) :
    Lookup (NameTable EntityRef) := do
  match target with
  | .module name =>
    match ← importModule? ⟨name, version⟩ with
    | some source => addModuleExports source.module table
    | none => pure table
  | _ => pure table

/-- The names of a module: its own, then those of its star imports. -/
def moduleMembers (ref : EntityRef) (g : ModuleGraph) : Lookup (NameTable EntityRef) :=
  g.starImports.foldlM (addExports ref.module.version) (g.members.map (⟨ref.module, ·⟩))

/-! ### Members of classes -/

/-- Visits a class and all that it derives from, depth first and from left to right. `order`
    are the classes visited before. -/
def visitBody (order : List EntityRef) (ref : EntityRef) : Lookup (List EntityRef) := do
  let g ← graph ref.module
  if g.category ref.id = .type ∧ ref ∉ order then
    let bases ← bases ref
    bases.foldlM (fun order base => visit order base done) (order ++ [ref])
  else pure order

/-- A class and all that it derives from, each once, in the order in which names are looked
    up. -/
def linearization (ref : EntityRef) : Lookup (List EntityRef) :=
  visit [] ref done

/-- The entries of a table of a class. -/
def classEntries (table : ClassInfo → NameTable EntityId) (ref : EntityRef) :
    Lookup (List (String × EntityRef)) := do
  let g ← graph ref.module
  match g.class? ref.id with
  | some info => pure ((table info).entries.map fun entry => (entry.1, ⟨ref.module, entry.2⟩))
  | none => pure []

/-- The entries of a table of several classes. -/
def entriesAlong (table : ClassInfo → NameTable EntityId) (order : List EntityRef) :
    Lookup (List (String × EntityRef)) := do
  let entries ← order.mapM (classEntries table)
  pure entries.flatten

/-- The names of a class: those of each class that it derives from, the first that has a name
    winning. For an instance all attributes of instances come before. -/
def classMembers (ref : EntityRef) (access : Access) : Lookup (NameTable EntityRef) := do
  let order ← linearization ref
  let attributes ←
    if access = .onInstance then entriesAlong ClassInfo.attributes order else pure []
  let members ← entriesAlong ClassInfo.members order
  pure (NameTable.empty.insertAllNew (attributes ++ members))

/-- The names visible on an entity. Those declared in a function are visible inside it only. -/
def collectMembers (ref : EntityRef) (access : Access) : Lookup (NameTable EntityRef) := do
  let g ← graph ref.module
  match g.category ref.id with
  | .module => moduleMembers ref g
  | .type => classMembers ref access
  | .function =>
    if access = .unqualified then
      pure (((g.table? ref.id).getD .empty).map (⟨ref.module, ·⟩))
    else pure .empty
  | _ => pure .empty

/-! ### Bases -/

/-- What a name means at the end of all scopes. -/
def builtin? (version : Version) (name : String) : Lookup (Option EntityRef) := do
  match ← importModule? ⟨version.builtinsModule, version⟩ with
  | some builtins => member builtins .unqualified name
  | none => pure none

/-- What a name means in a scope: a module is asked for its member, any other scope for what
    is declared in it. Classes count only as the innermost scope. -/
def inScope? (name : String) (innermost : Bool) (scope : EntityRef) :
    Lookup (Option EntityRef) := do
  let g ← graph scope.module
  if g.category scope.id = .type ∧ !innermost then pure none
  else if scope.id = .module then member scope .unqualified name
  else
    match (g.table? scope.id).bind (·.get? name) with
    | some id => some <$> dereference ⟨scope.module, id⟩
    | none => pure none

/-- What a name means in the first scope that has it. -/
def inScopes? (version : Version) (name : String) :
    (innermost : Bool) → (scopes : List EntityRef) → Lookup (Option EntityRef)
  | _, [] => builtin? version name
  | innermost, scope :: outer => do
    match ← inScope? name innermost scope with
    | some found => pure (some found)
    | none => inScopes? version name false outer

/-- What the first name of a base means where the class statement stands. -/
def baseHead? (ref : EntityRef) (name : String) : Lookup (Option EntityRef) := do
  let g ← graph ref.module
  match (g.class? ref.id).bind (·.priorBindings.lookup name) with
  | some id => some <$> dereference ⟨ref.module, id⟩
  | none => inScopes? ref.module.version name true ((g.chain ref.id).tail.map (⟨ref.module, ·⟩))

/-- How the members of an entity are accessed by a dotted path. -/
def pathAccess (ref : EntityRef) : Lookup Access := do
  let g ← graph ref.module
  pure (if g.category ref.id = .type then .onClass else .unqualified)

/-- The member at the end of a path of names. -/
def memberPath? (ref : EntityRef) : (path : List String) → Lookup (Option EntityRef)
  | [] => pure (some ref)
  | name :: path => do
    let access ← pathAccess ref
    match ← member ref access name with
    | some next => memberPath? next path
    | none => pure none

/-- What a base of a class is; the placeholder if that cannot be found out. -/
def resolveBase (ref : EntityRef) (base : BaseRef) : Lookup EntityRef := do
  match base with
  | .dotted (head :: path) =>
    match ← baseHead? ref head with
    | some start => do
      let found ← memberPath? start path
      pure (found.getD ref.unknownBeside)
    | none => pure ref.unknownBeside
  | _ => pure ref.unknownBeside

/-- The bases of a class. -/
def collectBases (ref : EntityRef) : Lookup (List EntityRef) := do
  let g ← graph ref.module
  match g.class? ref.id with
  | some info => info.shape.bases.mapM (resolveBase ref)
  | none => pure []

end Lookup

/-- How a task finds its answer. -/
def Task.body : (t : Task) → Lookup t.Answer
  | members ref access => .collectMembers ref access
  | bases ref => .collectBases ref
  | follow ref => .follow ref

end PyAtlas
