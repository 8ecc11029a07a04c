import PyAtlas.Atlas.Perform

/-!
# How far an atlas reaches

There are endless names to ask for, but only finitely many lead to a module that declares
anything: those asked for before, and those of the files of the libraries. Everywhere else a
lookup asks for modules and for nothing more, so only finitely many entities can keep lookups
busy.

## Key definitions
- `Atlas.busyEntities`: entities of modules that may declare something.
- `Lookup.Quiet`: a lookup that asks for modules only.

## Key results
- `Atlas.inert_of_not_mem`: all other entities are inert.
- `Task.quiet_of_inert`: tasks on inert entities ask for no other tasks.
-/

namespace PyAtlas

/-! ### Names of modules in files -/

/-- The beginnings of a name, itself included. -/
def beginnings (name : String) : List String :=
  (List.range (name.toList.length + 1)).map fun n => String.ofList (name.toList.take n)

/-- Names that a module of a directory may have: beginnings of the names of its entries. -/
def stems (entries : Entries) : List String :=
  entries.flatMap fun entry =>
    beginnings entry.1 ++ ((classifyFile? entry.1).map Prod.fst).toList

mutual

/-- The segments of all dotted names that may lead to a module from a directory. -/
def FileTree.locatable : FileTree → List (List String)
  | .file _ => []
  | .directory entries => (stems entries).map ([·]) ++ locatableBelow entries

/-- The same for what is below some entries. -/
def locatableBelow : Entries → List (List String)
  | [] => []
  | (name, tree) :: rest => tree.locatable.map (name :: ·) ++ locatableBelow rest

end

section Locatable

variable {entries inner : Entries} {name : String}

theorem mem_beginnings (front back : String) : front ∈ beginnings (front ++ back) := by
  refine List.mem_map.2 ⟨front.toList.length, List.mem_range.2 ?_, ?_⟩
  · rw [String.toList_append, List.length_append]
    omega
  · rw [String.toList_append, List.take_left, String.ofList_toList]

theorem mem_of_hasFile (h : hasFile entries name = true) : ∃ tree, (name, tree) ∈ entries := by
  rw [hasFile] at h
  split at h
  · next tree hchild => exact ⟨tree, FileTree.mem_of_child? hchild⟩
  · cases h

theorem mem_stems_of_moduleFile? {file : String × ModuleKind}
    (h : moduleFile? entries name = some file) : name ∈ stems entries := by
  rw [moduleFile?, Option.or_eq_some_iff] at h
  rcases h with h | ⟨-, h⟩
  · obtain ⟨⟨extension, kind⟩, -, hfile⟩ := List.exists_of_findSome?_eq_some h
    dsimp only at hfile
    split at hfile
    · next hpresent =>
      obtain ⟨tree, htree⟩ := mem_of_hasFile hpresent
      refine List.mem_flatMap.2 ⟨_, htree, List.mem_append_left _ ?_⟩
      rw [String.append_assoc]
      exact mem_beginnings name _
    · cases hfile
  · obtain ⟨⟨fileName, tree⟩, hentry, hfile⟩ := List.exists_of_findSome?_eq_some h
    dsimp only at hfile
    split at hfile
    · next hnative =>
      rw [Bool.and_eq_true, beq_iff_eq] at hnative
      refine List.mem_flatMap.2 ⟨_, hentry, List.mem_append_right _ ?_⟩
      rw [hnative.2]
      exact List.mem_singleton.2 rfl
    · cases hfile

theorem child?_of_package? {file : String × ModuleKind}
    (h : package? entries name = some (inner, file)) :
    FileTree.child? entries name = some (.directory inner) := by
  rw [package?] at h
  split at h
  · next found hchild =>
    obtain ⟨init, -, heq⟩ := Option.map_eq_some_iff.1 h
    rw [hchild, (Prod.mk.inj heq).1]
  · cases h

theorem mem_stems_of_moduleIn? {library dir dottedName : String} {m : ModuleLocation}
    (h : moduleIn? library dir entries dottedName name = some m) : name ∈ stems entries := by
  rw [moduleIn?] at h
  split at h
  · next inner file kind hpackage =>
    have hentry := FileTree.mem_of_child? (child?_of_package? hpackage)
    refine List.mem_flatMap.2 ⟨_, hentry, List.mem_append_left _ ?_⟩
    have hself := mem_beginnings name ""
    rwa [String.append_empty] at hself
  · obtain ⟨file, hfile, -⟩ := Option.map_eq_some_iff.1 h
    exact mem_stems_of_moduleFile? hfile

theorem mem_locatableBelow {tree : FileTree} {more : List String} (hentry : (name, tree) ∈ entries)
    (hmore : more ∈ tree.locatable) : name :: more ∈ locatableBelow entries := by
  induction entries with
  | nil => cases hentry
  | cons entry rest ih =>
    rw [locatableBelow]
    rcases List.mem_cons.1 hentry with rfl | hentry
    · exact List.mem_append_left _ (List.mem_map.2 ⟨more, hmore, rfl⟩)
    · exact List.mem_append_right _ (ih hentry)

/-- The segments that lead to a module are among those listed. -/
theorem mem_locatable {library dottedName dir : String} {segments : List String}
    {m : ModuleLocation} (h : locateFrom? library dottedName segments dir entries = some m) :
    segments ∈ (FileTree.directory entries).locatable := by
  induction segments generalizing dir entries with
  | nil => cases h
  | cons name more ih =>
    rw [FileTree.locatable]
    cases more with
    | nil => exact List.mem_append_left _ (List.mem_map.2 ⟨name, mem_stems_of_moduleIn? h, rfl⟩)
    | cons next more =>
      obtain ⟨⟨inner, file⟩, hpackage, hinner⟩ := Option.bind_eq_some_iff.1 h
      exact List.mem_append_right _
        (mem_locatableBelow (FileTree.mem_of_child? (child?_of_package? hpackage)) (ih hinner))

end Locatable

/-- All dotted names that may lead to a module of some libraries. -/
def SearchPath.names (libraries : SearchPath) (files : FileSystem) : List String :=
  libraries.flatMap fun library =>
    (FileTree.directory ((files.entries? library).getD [])).locatable.map DottedName.join

theorem SearchPath.mem_names {libraries : SearchPath} {files : FileSystem} {name : String}
    {m : ModuleLocation} (h : libraries.locate? files name = some m) :
    name ∈ libraries.names files := by
  rw [locate?] at h
  split at h
  · obtain ⟨library, hlibrary, hfound⟩ := List.exists_of_findSome?_eq_some h
    refine List.mem_flatMap.2 ⟨library, hlibrary, List.mem_map.2 ⟨_, mem_locatable hfound, ?_⟩⟩
    exact DottedName.join_segments name
  · cases h

/-! ### Entities that keep lookups busy -/

/-- Nothing about the entity makes a lookup ask for anything but modules. -/
structure ModuleGraph.Inert (g : ModuleGraph) (id : EntityId) : Prop where
  notClass : g.class? id = none
  notImport : g.import? id = none
  noStars : id = .module → g.starImports = []

/-- Nothing about the entity makes a lookup ask for anything but modules. -/
def World.Inert (w : World) (ref : EntityRef) : Prop := (w ref.module).graph.Inert ref.id

theorem ModuleGraph.inert_standIn (name : String) (version : Version) (id : EntityId) :
    (standIn name version).Inert id := by
  refine ⟨?_, ?_, fun _ => rfl⟩
  all_goals cases id <;> rfl

theorem ModuleGraph.inert_of_declared_ge {g : ModuleGraph} {id : EntityId} (hmodule : id ≠ .module)
    (hid : ∀ index, id = .declared index → g.declared.size ≤ index) : g.Inert id := by
  have hkind : g.kind? id = none := by
    cases id with
    | module => exact absurd rfl hmodule
    | unknown => rfl
    | declared index =>
      have hnone : g.declared[index]? = none := Array.getElem?_eq_none (hid index rfl)
      rw [kind?, entity?, hnone]
      rfl
  refine ⟨?_, ?_, fun heq => absurd heq hmodule⟩
  · rw [class?, hkind]
  · rw [import?, hkind]

theorem ModuleSlot.eq_standIn_of_fetch {a : Atlas} {key : ModuleKey}
    (h : a.libraries.locate? a.files key.name = none) :
    (a.fetch key).graph = .standIn key.name key.version := by
  rw [Atlas.fetch, h]
  rfl

namespace Atlas

/-- The modules that may declare something: those asked for before, and those of the
    libraries. -/
def presentKeys (a : Atlas) : List ModuleKey :=
  a.modules.map Prod.fst
    ++ (a.libraries.names a.files).flatMap fun name => Version.all.map (⟨name, ·⟩)

/-- The entities of these modules. -/
def busyEntities (a : Atlas) : List EntityRef :=
  a.presentKeys.flatMap fun key =>
    key.ref :: (List.range (a.graph key).declared.size).map (⟨key, .declared ·⟩)

/-- A module that is not present is empty. -/
theorem graph_of_not_present {a : Atlas} {key : ModuleKey} (h : key ∉ a.presentKeys) :
    a.graph key = .standIn key.name key.version := by
  rw [presentKeys, List.mem_append, not_or] at h
  have hlookup : a.modules.lookup key = none := by
    rw [List.lookup_eq_none_iff]
    exact fun entry hentry => bne_iff_ne.2 fun heq => h.1 (List.mem_map.2 ⟨entry, hentry, heq.symm⟩)
  have hlocate : a.libraries.locate? a.files key.name = none := by
    refine Option.eq_none_iff_forall_not_mem.2 fun m hm => h.2 ?_
    exact List.mem_flatMap.2
      ⟨_, SearchPath.mem_names hm, List.mem_map.2 ⟨_, key.version.mem_all, rfl⟩⟩
  rw [graph, slot, hlookup]
  exact ModuleSlot.eq_standIn_of_fetch hlocate

theorem inert_of_not_mem {a : Atlas} {ref : EntityRef} (h : ref ∉ a.busyEntities) :
    a.world.Inert ref := by
  obtain ⟨key, id⟩ := ref
  show (a.graph key).Inert id
  by_cases hkey : key ∈ a.presentKeys
  · have hnot : ∀ id', (⟨key, id'⟩ : EntityRef) ∈ key.ref
        :: (List.range (a.graph key).declared.size).map (⟨key, .declared ·⟩) → id' ≠ id := by
      rintro id' hmem rfl
      exact h (List.mem_flatMap.2 ⟨key, hkey, hmem⟩)
    refine ModuleGraph.inert_of_declared_ge (hnot .module List.mem_cons_self).symm ?_
    rintro index rfl
    refine Nat.le_of_not_lt fun hlt => hnot (.declared index) ?_ rfl
    exact List.mem_cons_of_mem _ (List.mem_map.2 ⟨index, List.mem_range.2 hlt, rfl⟩)
  · rw [graph_of_not_present hkey]
    exact ModuleGraph.inert_standIn _ _ _

end Atlas

/-! ### Quiet lookups -/

/-- A lookup that asks for modules only. -/
def Lookup.Quiet (w : World) {α : Type} : Lookup α → Prop
  | done _ => True
  | request key next => (next (w key)).Quiet w
  | task _ _ => False
  | visit _ _ _ => False

section Quiet

variable {w : World} {ref : EntityRef}

theorem ModuleGraph.class?_isSome_of_type {g : ModuleGraph} {id : EntityId}
    (h : g.category id = .type) : g.class? id ≠ none := by
  cases id with
  | module => cases h
  | unknown => cases h
  | declared index =>
    rw [category] at h
    rw [class?, kind?, entity?]
    cases he : g.declared[index]? with
    | none =>
      rw [he] at h
      cases h
    | some e =>
      rw [he] at h
      cases hk : e.kind with
      | «class» info =>
        rw [Option.map_some, hk]
        exact Option.some_ne_none _
      | _ =>
        rw [Option.map_some, Option.getD_some, hk] at h
        cases h

theorem ModuleGraph.category_module {g : ModuleGraph} {id : EntityId}
    (h : g.category id = .module) : id = .module := by
  cases id with
  | module => rfl
  | unknown => cases h
  | declared index =>
    rw [category] at h
    cases he : g.declared[index]? with
    | none =>
      rw [he] at h
      cases h
    | some e =>
      rw [he] at h
      cases hk : e.kind <;> rw [Option.map_some, Option.getD_some, hk] at h <;> cases h

theorem Lookup.quiet_collectMembers (h : w.Inert ref) (access : Access) :
    (collectMembers ref access).Quiet w := by
  dsimp only [collectMembers, graph, Bind.bind, Lookup.bind, Quiet]
  cases hcategory : (w ref.module).graph.category ref.id with
  | module =>
    have hstars := h.noStars (ModuleGraph.category_module hcategory)
    show Quiet w (moduleMembers ref (w ref.module).graph)
    rw [moduleMembers, hstars]
    exact trivial
  | type => exact absurd h.notClass (ModuleGraph.class?_isSome_of_type hcategory)
  | function =>
    dsimp only
    split <;> exact trivial
  | _ => exact trivial

/-- A task on an inert entity asks for no other task. -/
theorem Task.quiet_of_inert {t : Task} (h : w.Inert t.subject) : t.body.Quiet w := by
  cases t with
  | members ref access => exact Lookup.quiet_collectMembers h access
  | bases ref =>
    dsimp only [Task.body, Lookup.collectBases, Lookup.graph, Bind.bind, Lookup.bind, Lookup.Quiet]
    rw [show (w ref.module).graph.class? ref.id = none from h.notClass]
    exact trivial
  | follow ref =>
    dsimp only [Task.body, Lookup.follow, Lookup.graph, Bind.bind, Lookup.bind, Lookup.Quiet]
    rw [show (w ref.module).graph.import? ref.id = none from h.notImport]
    exact trivial

end Quiet

end PyAtlas
