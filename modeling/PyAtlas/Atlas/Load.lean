import PyAtlas.Atlas.Basic
import PyAtlas.Module.Build
import PyAtlas.Source.Encoding
import PyAtlas.Syntax.ParseStmt

/-!
# Reading modules into an atlas

The ways for a module to enter an atlas: by an import, from a text, from a file. Whichever way
was first has settled what the module is.

## Key definitions
- `Atlas.slot`: what a module is, whether or not it was asked for before.
- `Atlas.request`: the same, and from then on it is settled.
- `Atlas.addSource`, `Atlas.addLocation`, `Atlas.addFile`: the other ways in.

## Key results
- `world_request`: no request changes what the modules are.
-/

namespace PyAtlas

/-- The answer to a request that failed. -/
def ModuleSlot.failed (key : ModuleKey) (e : ImportError) : ModuleSlot :=
  ⟨.standIn key.name key.version, some e⟩

/-- The answer to a request that the given text fulfils. -/
def ModuleSlot.ofSource (key : ModuleKey) (path : Option String) (isPackage : Bool)
    (source : String) : ModuleSlot :=
  ⟨.ofTree key.name path isPackage (.parse key.version source), none⟩

/-- The module of a slot, or why there is none. -/
def ModuleSlot.outcome (slot : ModuleSlot) (key : ModuleKey) : Except ImportError EntityRef :=
  match slot.failure with
  | some e => .error e
  | none => .ok key.ref

/-- The text of the source file at a path. -/
def FileSystem.readSource (files : FileSystem) (path : String) : Except ImportError String :=
  match files.read path with
  | .error cause => .error (.unreadable path cause)
  | .ok content =>
    match Encoding.decodeSource? content.toList with
    | some source => .ok source
    | none => .error (.undecodable path)

/-- A module read from its place. -/
def ModuleSlot.ofLocation (files : FileSystem) (version : Version) (m : ModuleLocation) :
    ModuleSlot :=
  let key : ModuleKey := ⟨m.name, version⟩
  if m.kind.analyzable then
    match files.readSource m.path with
    | .ok source => ofSource key (some m.path) m.isPackage source
    | .error e => failed key e
  else failed key (.unsupported m.name m.kind)

/-- What the modules are, each at its key. -/
abbrev World := ModuleKey → ModuleSlot

namespace Atlas

/-- What a request for a module that was not asked for before gets. -/
def fetch (a : Atlas) (key : ModuleKey) : ModuleSlot :=
  match a.libraries.locate? a.files key.name with
  | some m => .ofLocation a.files key.version m
  | none => .failed key (.notFound key.name)

/-- What a module is: what was answered to the request for it, or would be. -/
def slot (a : Atlas) (key : ModuleKey) : ModuleSlot :=
  (a.modules.lookup key).getD (a.fetch key)

/-- The modules of an atlas. -/
def world (a : Atlas) : World := a.slot

/-- The answer to the request for a module. If there is none yet, it is the given one, which
    is worked out only then and whose graph gets the next number. -/
def settle (a : Atlas) (key : ModuleKey) (answer : Unit → ModuleSlot) : ModuleSlot × Atlas :=
  match a.modules.lookup key with
  | some slot => (slot, a)
  | none =>
    let slot := answer ()
    (slot, { a with
      modules := (key, slot) :: a.modules
      graphIds := (key, a.nextGraph) :: a.graphIds
      nextGraph := ⟨a.nextGraph.number + 1⟩ })

/-- The answer to the request for a module that is asked for by name. -/
def request (a : Atlas) (key : ModuleKey) : ModuleSlot × Atlas :=
  a.settle key fun _ => a.fetch key

/-- The module of a name under a version, or why it cannot be read. -/
def import? (a : Atlas) (name : String) (version : Version) :
    Except ImportError EntityRef × Atlas :=
  let key : ModuleKey := ⟨name, version⟩
  let (slot, a) := a.request key
  (slot.outcome key, a)

/-- Registers a text as a module, and yields the module of that name. A module that is there
    already stays, even if it only stands in for one that could not be read. -/
def addSource (a : Atlas) (name source : String) : EntityRef × Atlas :=
  let key : ModuleKey := ⟨name, a.version⟩
  let (_, a) := a.settle key fun _ => .ofSource key none false source
  (key.ref, a)

/-- Registers a module whose place is known. -/
def addLocation (a : Atlas) (m : ModuleLocation) : Except ImportError EntityRef × Atlas :=
  let key : ModuleKey := ⟨m.name, a.version⟩
  let (slot, a) := a.settle key fun _ => .ofLocation a.files a.version m
  (slot.outcome key, a)

/-- Registers a source file as a module. It is a package if it has the name of the files that
    make one. -/
def addFile (a : Atlas) (name path : String) : Except ImportError EntityRef × Atlas :=
  a.addLocation ⟨name, path, "", .source, Path.stem? path == some packageStem⟩

/-! ### Requests -/

theorem slot_eq_getD_fetch (a : Atlas) (key : ModuleKey) :
    a.slot key = (a.modules.lookup key).getD (a.fetch key) := rfl

/-- A request is answered by what the module is. -/
theorem request_fst (a : Atlas) (key : ModuleKey) : (a.request key).1 = a.slot key := by
  rw [request, settle, slot]
  cases a.modules.lookup key <;> rfl

/-- No request changes what the modules are. -/
theorem world_request (a : Atlas) (key : ModuleKey) : (a.request key).2.world = a.world := by
  funext other
  rw [request, settle]
  cases h : a.modules.lookup key with
  | some slot => rfl
  | none =>
    show ((((key, a.fetch key) :: a.modules).lookup other).getD (a.fetch other)) = a.slot other
    rw [List.lookup_cons]
    by_cases heq : other = key
    · rw [heq, beq_self_eq_true, slot, h]
      rfl
    · rw [beq_eq_false_iff_ne.2 heq, slot]

/-! ### Entities -/

/-- The graph of a module. -/
def graph (a : Atlas) (key : ModuleKey) : ModuleGraph :=
  (a.slot key).graph

/-- The category of an entity. -/
def category (a : Atlas) (ref : EntityRef) : Category :=
  (a.graph ref.module).category ref.id

/-- Whether an entity is a class. -/
def isClass (a : Atlas) (ref : EntityRef) : Bool :=
  a.category ref == .type

/-- Whether an entity stands for what could not be found out. -/
def isUnknown (a : Atlas) (ref : EntityRef) : Bool :=
  a.category ref == .unknown

/-- The dotted name of an entity. -/
def qualifiedName (a : Atlas) (ref : EntityRef) : String :=
  (a.graph ref.module).qualifiedName ref.id

/-- The entity around an entity. -/
def parent? (a : Atlas) (ref : EntityRef) : Option EntityRef :=
  ((a.graph ref.module).parent? ref.id).map (⟨ref.module, ·⟩)

/-- How the members of an entity are accessed by a dotted path. -/
def pathAccess (a : Atlas) (ref : EntityRef) : Access :=
  if a.isClass ref then .onClass else .unqualified

end Atlas

end PyAtlas
