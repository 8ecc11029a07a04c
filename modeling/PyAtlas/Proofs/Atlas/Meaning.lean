import PyAtlas.Proofs.Atlas.Contract

/-!
# What names mean

The meaning of names between modules, told without tasks and without an order of computation:
relations between entities and what they stand for, which names they have, and what they
derive from. Where modules go round in circles some of this has no meaning.

The plain recursion computes these relations.

## Key definitions
- `StandsFor`, `HasMember`, `HasNames`, `HasBases`, `Visits`: the relations.
- `Question.Means`: what the answer to a question has to be.

## Key results
- `Question.means_of_recursive`: the plain recursion only finds such answers.
-/

namespace PyAtlas

namespace World

variable (w : World)

/-- Whether a module can be read. -/
def readable (key : ModuleKey) : Bool := (w key).failure.isNone

/-- The category of an entity. -/
def category (ref : EntityRef) : Category := (w ref.module).graph.category ref.id

/-- What an entity that is an import leads to. -/
def import? (ref : EntityRef) : Option ImportTarget := (w ref.module).graph.import? ref.id

/-- What is known of an entity that is a class. -/
def class? (ref : EntityRef) : Option ClassInfo := (w ref.module).graph.class? ref.id

/-- The names declared inside an entity. -/
def declared (ref : EntityRef) : NameTable EntityRef :=
  (((w ref.module).graph.table? ref.id).getD .empty).map (⟨ref.module, ·⟩)

/-- The entries of a table of a class. -/
def entriesOf (table : ClassInfo → NameTable EntityId) (cls : EntityRef) :
    List (String × EntityRef) :=
  match w.class? cls with
  | some info => (table info).entries.map fun entry => (entry.1, ⟨cls.module, entry.2⟩)
  | none => []

/-- The names of a class with the given classes to look them up in: the first that has a name
    counts, and for an instance all attributes of instances come before. -/
def namesAlong (access : Access) (order : List EntityRef) : NameTable EntityRef :=
  NameTable.empty.insertAllNew
    ((if access = .onInstance then order.flatMap (w.entriesOf ClassInfo.attributes) else [])
      ++ order.flatMap (w.entriesOf ClassInfo.members))

/-- The module of a name inside another module, if it can be read. -/
def inside? (key : ModuleKey) (name : String) : Option EntityRef :=
  let inside : ModuleKey := ⟨key.name ++ "." ++ name, key.version⟩
  if w.readable inside then some inside.ref else none

/-- Adds what a module with some names means by one of those that it lists: the name, or else
    the module inside it. -/
def addListed (key : ModuleKey) (names table : NameTable EntityRef) (name : String) :
    NameTable EntityRef :=
  match (names.get? name).or (w.inside? key name) with
  | some found => table.insertNew name found
  | none => table

/-- The scopes around a class, innermost first. -/
def scopes (ref : EntityRef) : List EntityRef :=
  ((w ref.module).graph.chain ref.id).tail.map (⟨ref.module, ·⟩)

end World

/-- The module that a name is looked up in at last. -/
def Version.builtinsKey (version : Version) : ModuleKey := ⟨version.builtinsModule, version⟩

section Relations

mutual

/-- What an entity stands for. An import stands for the module it names, for the member of the
    name, for the module of the name inside, or else for the placeholder. -/
inductive StandsFor (w : World) : EntityRef → EntityRef → Prop
  | itself {ref : EntityRef} : w.import? ref = none → StandsFor w ref ref
  | unresolved {ref : EntityRef} :
    w.import? ref = some .unresolved → StandsFor w ref ref.unknownBeside
  | module {ref : EntityRef} {name : String} :
    w.import? ref = some (.module name) →
    StandsFor w ref (ModuleKey.mk name ref.module.version).ref
  | unreadable {ref : EntityRef} {source name : String} :
    w.import? ref = some (.member source name) →
    w.readable ⟨source, ref.module.version⟩ = false → StandsFor w ref ref.unknownBeside
  | member {ref found : EntityRef} {source name : String} :
    w.import? ref = some (.member source name) →
    w.readable ⟨source, ref.module.version⟩ = true →
    HasMember w (ModuleKey.mk source ref.module.version).ref .unqualified name (some found) →
    w.category found ≠ .unknown → StandsFor w ref found
  | inside {ref : EntityRef} {source name : String} {found : Option EntityRef} :
    w.import? ref = some (.member source name) →
    w.readable ⟨source, ref.module.version⟩ = true →
    HasMember w (ModuleKey.mk source ref.module.version).ref .unqualified name found →
    (∀ member ∈ found, w.category member = .unknown) →
    StandsFor w ref
      ((w.inside? ⟨source, ref.module.version⟩ name).getD ref.unknownBeside)

/-- Which member of a name an entity has. -/
inductive HasMember (w : World) : EntityRef → Access → String → Option EntityRef → Prop
  | some {ref target entry found : EntityRef} {access : Access} {name : String}
    {table : NameTable EntityRef} :
    StandsFor w ref target → HasNames w target access table →
    table.get? name = some entry → StandsFor w entry found →
    HasMember w ref access name (some found)
  | none {ref target : EntityRef} {access : Access} {name : String}
    {table : NameTable EntityRef} :
    StandsFor w ref target → HasNames w target access table →
    table.get? name = none → HasMember w ref access name none

/-- Which names an entity has, and for what. -/
inductive HasNames (w : World) : EntityRef → Access → NameTable EntityRef → Prop
  | module {ref : EntityRef} {access : Access} {table : NameTable EntityRef} :
    w.category ref = .module →
    TakesAllOver w ref.module.version (w.declared ref) (w ref.module).graph.starImports table →
    HasNames w ref access table
  | type {ref : EntityRef} {access : Access} {order : List EntityRef} :
    w.category ref = .type → Visits w [] ref order →
    HasNames w ref access (w.namesAlong access order)
  | inFunction {ref : EntityRef} : w.category ref = .function →
    HasNames w ref .unqualified (w.declared ref)
  | onFunction {ref : EntityRef} {access : Access} :
    w.category ref = .function → access ≠ .unqualified → HasNames w ref access .empty
  | other {ref : EntityRef} {access : Access} :
    w.category ref ≠ .module → w.category ref ≠ .type → w.category ref ≠ .function →
    HasNames w ref access .empty

/-- What a table of names becomes by one star import after the other. -/
inductive TakesAllOver (w : World) :
    Version → NameTable EntityRef → List ImportTarget → NameTable EntityRef → Prop
  | nil {version : Version} {table : NameTable EntityRef} : TakesAllOver w version table [] table
  | cons {version : Version} {table more most : NameTable EntityRef} {target : ImportTarget}
    {targets : List ImportTarget} :
    TakesOver w version table target more → TakesAllOver w version more targets most →
    TakesAllOver w version table (target :: targets) most

/-- What a table of names becomes when a star import takes over the exports of a module: those
    listed, or else all public names. -/
inductive TakesOver (w : World) :
    Version → NameTable EntityRef → ImportTarget → NameTable EntityRef → Prop
  | notModule {version : Version} {table : NameTable EntityRef} {target : ImportTarget} :
    (∀ name, target ≠ .module name) → TakesOver w version table target table
  | unreadable {version : Version} {table : NameTable EntityRef} {name : String} :
    w.readable ⟨name, version⟩ = false → TakesOver w version table (.module name) table
  | listed {version : Version} {table members : NameTable EntityRef} {name : String}
    {names : List String} :
    w.readable ⟨name, version⟩ = true →
    HasNames w (ModuleKey.mk name version).ref .unqualified members →
    (w ⟨name, version⟩).graph.exports = some names →
    TakesOver w version table (.module name)
      (names.foldl (w.addListed ⟨name, version⟩ members) table)
  | unlisted {version : Version} {table members : NameTable EntityRef} {name : String} :
    w.readable ⟨name, version⟩ = true →
    HasNames w (ModuleKey.mk name version).ref .unqualified members →
    (w ⟨name, version⟩).graph.exports = none →
    TakesOver w version table (.module name) (table.insertAllNew (Lookup.publicEntries members))

/-- The classes visited once a class is visited after others: depth first, from left to right,
    and none again. -/
inductive Visits (w : World) : List EntityRef → EntityRef → List EntityRef → Prop
  | noClass {order : List EntityRef} {ref : EntityRef} :
    w.category ref ≠ .type → Visits w order ref order
  | again {order : List EntityRef} {ref : EntityRef} : ref ∈ order → Visits w order ref order
  | new {order order' bases : List EntityRef} {ref : EntityRef} :
    w.category ref = .type → ref ∉ order → HasBases w ref bases →
    VisitsAll w (order ++ [ref]) bases order' → Visits w order ref order'

/-- The same for some classes, one after the other. -/
inductive VisitsAll (w : World) : List EntityRef → List EntityRef → List EntityRef → Prop
  | nil {order : List EntityRef} : VisitsAll w order [] order
  | cons {order more most bases : List EntityRef} {base : EntityRef} :
    Visits w order base more → VisitsAll w more bases most → VisitsAll w order (base :: bases) most

/-- What the bases of an entity are: one for each that a class declares. -/
inductive HasBases (w : World) : EntityRef → List EntityRef → Prop
  | declared {ref : EntityRef} {info : ClassInfo} {bases : List EntityRef} :
    w.class? ref = some info → BasesAre w ref info.shape.bases bases → HasBases w ref bases
  | none {ref : EntityRef} : w.class? ref = none → HasBases w ref []

/-- What some bases of a class are, one by one. -/
inductive BasesAre (w : World) : EntityRef → List BaseRef → List EntityRef → Prop
  | nil {ref : EntityRef} : BasesAre w ref [] []
  | cons {ref result : EntityRef} {base : BaseRef} {bases : List BaseRef}
    {results : List EntityRef} :
    BaseIs w ref base result → BasesAre w ref bases results →
    BasesAre w ref (base :: bases) (result :: results)

/-- What a base of a class is: the end of a path of names, or else the placeholder. -/
inductive BaseIs (w : World) : EntityRef → BaseRef → EntityRef → Prop
  | noPath {ref : EntityRef} {base : BaseRef} :
    (∀ head path, base ≠ .dotted (head :: path)) → BaseIs w ref base ref.unknownBeside
  | noHead {ref : EntityRef} {head : String} {path : List String} :
    HeadIs w ref head none → BaseIs w ref (.dotted (head :: path)) ref.unknownBeside
  | path {ref start : EntityRef} {head : String} {path : List String} {found : Option EntityRef} :
    HeadIs w ref head (some start) → LeadsTo w start path found →
    BaseIs w ref (.dotted (head :: path)) (found.getD ref.unknownBeside)

/-- What a name means where a class statement stands: what it was bound to before, or else what
    it means in the scopes around. -/
inductive HeadIs (w : World) : EntityRef → String → Option EntityRef → Prop
  | bound {ref target : EntityRef} {name : String} {id : EntityId} :
    (w.class? ref).bind (·.priorBindings.lookup name) = some id →
    StandsFor w ⟨ref.module, id⟩ target → HeadIs w ref name (some target)
  | around {ref : EntityRef} {name : String} {found : Option EntityRef} :
    (w.class? ref).bind (·.priorBindings.lookup name) = none →
    InScopes w ref.module.version name true (w.scopes ref) found → HeadIs w ref name found

/-- What a name means in the first scope that has it, the builtins coming last. -/
inductive InScopes (w : World) :
    Version → String → Bool → List EntityRef → Option EntityRef → Prop
  | builtin {version : Version} {name : String} {innermost : Bool} {found : Option EntityRef} :
    w.readable version.builtinsKey = true →
    HasMember w version.builtinsKey.ref .unqualified name found →
    InScopes w version name innermost [] found
  | noBuiltins {version : Version} {name : String} {innermost : Bool} :
    w.readable version.builtinsKey = false → InScopes w version name innermost [] none
  | here {version : Version} {name : String} {innermost : Bool} {scope found : EntityRef}
    {outer : List EntityRef} :
    InScope w name innermost scope (some found) →
    InScopes w version name innermost (scope :: outer) (some found)
  | outside {version : Version} {name : String} {innermost : Bool} {scope : EntityRef}
    {outer : List EntityRef} {found : Option EntityRef} :
    InScope w name innermost scope none → InScopes w version name false outer found →
    InScopes w version name innermost (scope :: outer) found

/-- What a name means in a scope. Classes count only as the innermost scope. -/
inductive InScope (w : World) : String → Bool → EntityRef → Option EntityRef → Prop
  | outerClass {name : String} {scope : EntityRef} :
    w.category scope = .type → InScope w name false scope none
  | module {name : String} {innermost : Bool} {scope : EntityRef} {found : Option EntityRef} :
    ¬ (w.category scope = .type ∧ innermost = false) → scope.id = .module →
    HasMember w scope .unqualified name found → InScope w name innermost scope found
  | declared {name : String} {innermost : Bool} {scope entry target : EntityRef} :
    ¬ (w.category scope = .type ∧ innermost = false) → scope.id ≠ .module →
    (w.declared scope).get? name = some entry → StandsFor w entry target →
    InScope w name innermost scope (some target)
  | absent {name : String} {innermost : Bool} {scope : EntityRef} :
    ¬ (w.category scope = .type ∧ innermost = false) → scope.id ≠ .module →
    (w.declared scope).get? name = none → InScope w name innermost scope none

/-- Where names lead to, one after the other. -/
inductive LeadsTo (w : World) : EntityRef → List String → Option EntityRef → Prop
  | here {ref : EntityRef} : LeadsTo w ref [] (some ref)
  | onwards {ref next : EntityRef} {name : String} {path : List String}
    {found : Option EntityRef} :
    HasMember w ref (if w.category ref = .type then .onClass else .unqualified) name (some next) →
    LeadsTo w next path found → LeadsTo w ref (name :: path) found
  | nowhere {ref : EntityRef} {name : String} {path : List String} :
    HasMember w ref (if w.category ref = .type then .onClass else .unqualified) name none →
    LeadsTo w ref (name :: path) none

end

end Relations

/-! ### What tasks and questions ask for -/

/-- What the answer of a task has to be. -/
def Task.Means (w : World) : (t : Task) → t.Answer → Prop
  | members ref access, table => HasNames w ref access table
  | bases ref, answer => HasBases w ref answer
  | follow ref, target => StandsFor w ref target

/-- What the answer to a question has to be. -/
def Question.Means (w : World) : (q : Question) → q.Answer → Prop
  | member ref access name, found => HasMember w ref access name found
  | memberNames ref access, names =>
    ∃ target table, StandsFor w ref target ∧ HasNames w target access table ∧ names = table.names
  | linearize ref, order => Visits w [] ref order
  | bases ref, answer => HasBases w ref answer
  | metaclass ref, found =>
    match (w.class? ref).bind (·.shape.metaclass) with
    | some base => ∃ result, BaseIs w ref base result ∧ found = some result
    | none => found = none

/-- Anything may be asked for, and all answers mean what they have to. -/
def Contract.means (w : World) : Contract where
  world := w
  mayRequest _ := True
  mayAttend _ := True
  answer := Task.Means w
  mayVisit _ _ := True
  order := Visits w

namespace Lookup

/-- What the lookup yields has the property `Q` if the answers it gets mean what they have to. -/
abbrev Finds (w : World) {α : Type} (x : Lookup α) (Q : α → Prop) : Prop := x.Meets (.means w) Q

section Finds

variable {w : World} {ref : EntityRef} {key : ModuleKey} {name : String} {access : Access}

theorem finds_graph : (graph key).Finds w (· = (w key).graph) := ⟨trivial, fun _ => rfl⟩

theorem finds_importModule? :
    (importModule? key).Finds w (· = if w.readable key then some key.ref else none) :=
  ⟨trivial, fun _ => rfl⟩

theorem finds_inside? : (inside? key name).Finds w (· = w.inside? key name) :=
  ⟨trivial, fun _ => rfl⟩

theorem finds_members : (members ref access).Finds w (HasNames w ref access) :=
  ⟨trivial, fun _ h => h⟩

theorem finds_bases : (bases ref).Finds w (HasBases w ref) := by
  refine finds_graph.bind ?_
  rintro _ rfl
  split
  · exact ⟨trivial, fun _ h => h⟩
  · next hnone => exact .pure (.none (Option.not_isSome_iff_eq_none.1 hnone))

theorem finds_dereference : (dereference ref).Finds w (StandsFor w ref) := by
  refine finds_graph.bind ?_
  rintro _ rfl
  split
  · exact ⟨trivial, fun _ h => h⟩
  · next hnone => exact .pure (.itself (Option.not_isSome_iff_eq_none.1 hnone))

theorem finds_member : (member ref access name).Finds w (HasMember w ref access name) := by
  refine finds_dereference.bind fun target htarget => finds_members.bind fun table htable => ?_
  split
  · next entry hentry =>
    exact finds_dereference.map fun found hfound => .some htarget htable hentry hfound
  · next hnone => exact .pure (.none htarget htable hnone)

/-! #### Imports -/

theorem finds_known? : (known? ref).Finds w
    (· = if w.category ref = .unknown then none else some ref) := ⟨trivial, fun _ => rfl⟩

/-- A member that is known is the one of the name; otherwise there is none but the placeholder. -/
theorem finds_knownMember? : (knownMember? ref name).Finds w fun known =>
    ∃ found, HasMember w ref .unqualified name found
      ∧ known = found.filter (fun member => w.category member ≠ .unknown) := by
  refine finds_member.bind fun found hfound => ?_
  cases found with
  | none => exact .pure ⟨none, hfound, rfl⟩
  | some found =>
    refine finds_known?.weaken fun known hknown => ⟨some found, hfound, ?_⟩
    rw [hknown, Option.filter_some]
    by_cases hunknown : w.category found = .unknown
    · rw [if_pos hunknown, if_neg (by simpa using hunknown)]
    · rw [if_neg hunknown, if_pos (by simpa using hunknown)]

theorem finds_resolveImport {target : ImportTarget} (h : w.import? ref = some target) :
    (resolveImport ref target).Finds w (StandsFor w ref) := by
  cases target with
  | unresolved => exact .pure (.unresolved h)
  | module name => exact ⟨trivial, fun _ => .module h⟩
  | member source name =>
    refine finds_importModule?.bind ?_
    rintro _ rfl
    cases hreadable : w.readable ⟨source, ref.module.version⟩ with
    | false => exact .pure (.unreadable h hreadable)
    | true =>
      refine finds_knownMember?.bind ?_
      rintro _ ⟨found, hfound, rfl⟩
      -- A member that is not known does not count: then the module of the name is looked for.
      cases hknown : found.filter (fun member => w.category member ≠ .unknown) with
      | some member =>
        obtain ⟨rfl, hcategory⟩ := Option.filter_eq_some_iff.1 hknown
        exact .pure (.member h hreadable hfound (by simpa using hcategory))
      | none =>
        refine finds_inside?.bind ?_
        rintro _ rfl
        refine .pure (.inside h hreadable hfound fun member hmember => ?_)
        have hnot := Option.filter_eq_none_iff.1 hknown member hmember
        simpa using hnot

theorem finds_follow : (follow ref).Finds w (StandsFor w ref) := by
  refine finds_graph.bind ?_
  rintro _ rfl
  split
  · next target htarget => exact finds_resolveImport htarget
  · next hnone => exact .pure (.itself hnone)

/-! #### Members -/

theorem finds_addExport {members table : NameTable EntityRef} :
    (addExport key members table name).Finds w (· = w.addListed key members table name) := by
  unfold addExport World.addListed
  split
  · next hcontains =>
    refine .pure ?_
    split
    · rw [NameTable.insertNew_of_contains hcontains]
    · rfl
  · split
    · next found hfound =>
      refine .pure ?_
      rw [hfound]
      rfl
    · next hnone =>
      refine finds_inside?.bind ?_
      rintro _ rfl
      rw [hnone, Option.none_or]
      cases w.inside? key name with
      | none => exact .pure rfl
      | some inside => exact .pure rfl

theorem finds_addExports {version : Version} {table : NameTable EntityRef}
    {target : ImportTarget} :
    (addExports version table target).Finds w (TakesOver w version table target) := by
  cases target with
  | unresolved => exact .pure (.notModule nofun)
  | member source name => exact .pure (.notModule nofun)
  | module name =>
    refine finds_importModule?.bind ?_
    rintro _ rfl
    cases hreadable : w.readable ⟨name, version⟩ with
    | false => exact .pure (.unreadable hreadable)
    | true =>
      refine finds_members.bind fun members hmembers => finds_graph.bind ?_
      rintro _ rfl
      split
      · next names hnames =>
        refine (Meets.foldlM_steps (S := fun table names result =>
          result = names.foldl (w.addListed ⟨name, version⟩ members) table) (fun _ => rfl)
          (fun table name names => ?_) _ _).weaken ?_
        · refine finds_addExport.weaken ?_
          rintro _ rfl _ rfl
          rfl
        · rintro _ rfl
          exact .listed hreadable hmembers hnames
      · next hnames => exact .pure (.unlisted hreadable hmembers hnames)

theorem finds_moduleMembers (h : w.category ref = .module) :
    (moduleMembers ref (w ref.module).graph).Finds w (HasNames w ref access) := by
  have hown : (w ref.module).graph.members.map (⟨ref.module, ·⟩) = w.declared ref := by
    rw [World.declared, ModuleGraph.category_module h]
    rfl
  rw [moduleMembers, hown]
  refine (Meets.foldlM_steps (S := TakesAllOver w ref.module.version) (fun _ => .nil)
    (fun table target targets => ?_) _ _).weaken fun table htable => .module h htable
  exact finds_addExports.weaken fun _ hmore _ hmost => .cons hmore hmost

theorem finds_visitBody {order : List EntityRef} :
    (visitBody order ref).Finds w (Visits w order ref) := by
  refine finds_graph.bind ?_
  rintro _ rfl
  split
  · next hnew =>
    refine finds_bases.bind fun bases hbases => ?_
    refine (Meets.foldlM_steps (S := VisitsAll w) (fun _ => .nil) (fun order base bases => ?_)
      bases _).weaken fun _ hall => .new hnew.1 hnew.2 hbases hall
    exact ⟨trivial, fun _ hmore _ hmost => .cons hmore hmost⟩
  · next hnot =>
    refine .pure ?_
    -- The class was visited before, or there is none.
    by_cases hagain : ref ∈ order
    · exact .again hagain
    · exact .noClass fun htype => hnot ⟨htype, hagain⟩

theorem meets_classEntries {c : Contract} {table : ClassInfo → NameTable EntityId}
    (h : c.mayRequest ref.module) :
    (classEntries table ref).Meets c (· = c.world.entriesOf table ref) := by
  refine ⟨h, fun _ => ?_⟩
  show Meets c (Lookup.bind (done (c.world ref.module).graph) _) _
  rw [World.entriesOf, World.class?]
  dsimp only [Lookup.bind]
  cases (c.world ref.module).graph.class? ref.id with
  | some info => exact .pure rfl
  | none => exact .pure rfl

theorem meets_entriesAlong {c : Contract} {table : ClassInfo → NameTable EntityId}
    {order : List EntityRef} (h : ∀ cls ∈ order, c.mayRequest cls.module) :
    (entriesAlong table order).Meets c (· = order.flatMap (c.world.entriesOf table)) := by
  refine Meets.bind (Q := (· = order.map (c.world.entriesOf table))) ?_ ?_
  · induction order with
    | nil => exact .pure rfl
    | cons cls order ih =>
      rw [List.mapM_cons]
      refine (meets_classEntries (h cls List.mem_cons_self)).bind ?_
      rintro _ rfl
      refine (ih fun other hother => h other (List.mem_cons_of_mem cls hother)).bind ?_
      rintro _ rfl
      exact .pure rfl
  · rintro _ rfl
    exact .pure List.flatMap_def.symm

/-- The names of a class are those along the classes that a visit comes to. -/
theorem meets_classMembers {c : Contract} (hvisit : c.mayVisit [] ref)
    (hrequest : ∀ order, c.order [] ref order → ∀ cls ∈ order, c.mayRequest cls.module) :
    (classMembers ref access).Meets c fun table =>
      ∃ order, c.order [] ref order ∧ table = c.world.namesAlong access order := by
  refine Meets.bind (Q := c.order [] ref) ⟨hvisit, fun _ h => h⟩ fun order horder => ?_
  have hentries : ∀ table : ClassInfo → NameTable EntityId,
      (entriesAlong table order).Meets c (· = order.flatMap (c.world.entriesOf table)) :=
    fun table => meets_entriesAlong (hrequest order horder)
  have hmembers : ∀ attributes, Meets c (do
      let members ← entriesAlong ClassInfo.members order
      pure (NameTable.empty.insertAllNew (attributes ++ members)))
      (· = NameTable.empty.insertAllNew
        (attributes ++ order.flatMap (c.world.entriesOf ClassInfo.members))) := by
    refine fun attributes => (hentries ClassInfo.members).bind ?_
    rintro _ rfl
    exact .pure rfl
  show Meets _ (if _ then _ else _) _
  split
  · next hinstance =>
    refine (hentries ClassInfo.attributes).bind ?_
    rintro _ rfl
    refine (hmembers _).weaken ?_
    rintro _ rfl
    exact ⟨order, horder, by rw [World.namesAlong, if_pos hinstance]⟩
  · next hother =>
    refine (hmembers []).weaken ?_
    rintro _ rfl
    exact ⟨order, horder, by rw [World.namesAlong, if_neg hother]⟩

theorem finds_classMembers (h : w.category ref = .type) :
    (classMembers ref access).Finds w (HasNames w ref access) := by
  refine (meets_classMembers trivial fun _ _ _ _ => trivial).weaken ?_
  rintro _ ⟨order, horder, rfl⟩
  exact .type h horder

theorem finds_collectMembers : (collectMembers ref access).Finds w (HasNames w ref access) := by
  refine finds_graph.bind ?_
  rintro _ rfl
  rw [show (w ref.module).graph.category ref.id = w.category ref from rfl]
  cases hcategory : w.category ref with
  | module => exact finds_moduleMembers hcategory
  | type => exact finds_classMembers hcategory
  | function =>
    dsimp only
    split
    · next haccess =>
      subst haccess
      exact .pure (.inFunction hcategory)
    · next haccess => exact .pure (.onFunction hcategory haccess)
  | _ =>
    refine .pure (.other ?_ ?_ ?_)
    all_goals
      rw [hcategory]
      nofun

/-! #### Bases -/

theorem finds_builtin? {version : Version} {innermost : Bool} :
    (builtin? version name).Finds w (InScopes w version name innermost []) := by
  refine Meets.bind (x := importModule? version.builtinsKey) finds_importModule? ?_
  rintro _ rfl
  cases hreadable : w.readable version.builtinsKey with
  | true => exact finds_member.weaken fun found hfound => .builtin hreadable hfound
  | false => exact .pure (.noBuiltins hreadable)

theorem finds_inScope? {innermost : Bool} :
    (inScope? name innermost ref).Finds w (InScope w name innermost ref) := by
  refine finds_graph.bind ?_
  rintro _ rfl
  split
  · next hclass =>
    obtain ⟨hcategory, hinnermost⟩ := hclass
    rw [Bool.not_eq_true'] at hinnermost
    subst hinnermost
    exact .pure (.outerClass hcategory)
  -- The scope counts. Modules are asked for members, other scopes for what they declare.
  · next hclass =>
    have hcounts : ¬ (w.category ref = .type ∧ innermost = false) := by
      rwa [Bool.not_eq_true'] at hclass
    split
    · next hmodule => exact finds_member.weaken fun _ hfound => .module hcounts hmodule hfound
    · next hmodule =>
      have hdeclared : (w.declared ref).get? name
          = (((w ref.module).graph.table? ref.id).bind (·.get? name)).map (⟨ref.module, ·⟩) := by
        rw [World.declared, NameTable.get?_map]
        cases (w ref.module).graph.table? ref.id <;> rfl
      split
      · next id hid =>
        rw [hid] at hdeclared
        exact finds_dereference.map fun target htarget =>
          .declared hcounts hmodule hdeclared htarget
      · next hnone =>
        rw [hnone] at hdeclared
        exact .pure (.absent hcounts hmodule hdeclared)

theorem finds_inScopes? {version : Version} {innermost : Bool} {scopes : List EntityRef} :
    (inScopes? version name innermost scopes).Finds w
      (InScopes w version name innermost scopes) := by
  induction scopes generalizing innermost with
  | nil => exact finds_builtin?
  | cons scope outer ih =>
    refine finds_inScope?.bind fun found hfound => ?_
    cases found with
    | some found => exact .pure (.here hfound)
    | none => exact ih.weaken fun _ houter => .outside hfound houter

theorem finds_baseHead? : (baseHead? ref name).Finds w (HeadIs w ref name) := by
  refine finds_graph.bind ?_
  rintro _ rfl
  split
  · next id hid =>
    exact finds_dereference.map fun target htarget => .bound hid htarget
  · next hnone => exact finds_inScopes?.weaken fun _ hfound => .around hnone hfound

theorem finds_memberPath? {path : List String} :
    (memberPath? ref path).Finds w (LeadsTo w ref path) := by
  induction path generalizing ref with
  | nil => exact .pure .here
  | cons name path ih =>
    have haccess : (pathAccess ref).Finds w
        (· = if w.category ref = .type then .onClass else .unqualified) :=
      ⟨trivial, fun _ => rfl⟩
    refine haccess.bind ?_
    rintro _ rfl
    refine finds_member.bind fun found hfound => ?_
    cases found with
    | some next => exact ih.weaken fun _ hpath => .onwards hfound hpath
    | none => exact .pure (.nowhere hfound)

theorem finds_resolveBase {base : BaseRef} :
    (resolveBase ref base).Finds w (BaseIs w ref base) := by
  unfold resolveBase
  split
  · next head path =>
    refine finds_baseHead?.bind fun found hfound => ?_
    cases found with
    | some start =>
      exact finds_memberPath?.bind fun found hpath => .pure (.path hfound hpath)
    | none => exact .pure (.noHead hfound)
  · next hbase => exact .pure (.noPath hbase)

theorem finds_collectBases : (collectBases ref).Finds w (HasBases w ref) := by
  refine finds_graph.bind ?_
  rintro _ rfl
  split
  · next info hinfo =>
    refine (Meets.mapM_steps (S := BasesAre w ref) .nil (fun base bases => ?_) _).weaken
      fun _ hbases => .declared hinfo hbases
    exact finds_resolveBase.weaken fun _ hresult _ hresults => .cons hresult hresults
  · next hnone => exact .pure (.none hnone)

end Finds

end Lookup

/-- Tasks find what they have to, if the tasks they ask for do. -/
theorem Task.finds_body (w : World) (t : Task) : t.body.Finds w (t.Means w) := by
  cases t with
  | members ref access => exact Lookup.finds_collectMembers
  | bases ref => exact Lookup.finds_collectBases
  | follow ref => exact Lookup.finds_follow

/-- Whatever is found has the property. -/
def Judgement.option : Judgement Option where
  Holds x Q := ∀ a, x = some a → Q a
  pure := by
    rintro _ _ _ h _ ⟨⟩
    exact h
  bind hp hf b hb := by
    obtain ⟨a, ha, hb⟩ := Option.bind_eq_some_iff.1 hb
    exact hf a (hp a ha) b hb

theorem honors_recursive (w : World) (depth : Nat) :
    (recursive w depth).Honors .option (.means w) := by
  induction depth with
  -- Induction on the depth, which falls with every task and every visit.
  | zero =>
    refine ⟨?_, fun _ _ _ h => ?_, fun _ _ _ _ h => ?_⟩
    · rintro key - _ ⟨⟩
      exact ⟨rfl, trivial⟩
    · cases h
    · cases h
  | succ depth ih =>
    refine ⟨?_, fun t _ => (t.finds_body w).interpret ih,
      fun order ref _ => Lookup.finds_visitBody.interpret ih⟩
    rintro key - _ ⟨⟩
    exact ⟨rfl, trivial⟩

end PyAtlas
