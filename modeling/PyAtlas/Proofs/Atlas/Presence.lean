import PyAtlas.Proofs.Atlas.Reach
import PyAtlas.Proofs.Atlas.Stability

/-!
# Answers are no imports

Tables of members hold imports, and star imports hand them on, but whoever looks a member up
follows what it finds. So what an import leads to, the bases of a class and the classes that a
visit comes to are entities that have been followed, and a cut is answered by a placeholder. Each
of these entities is of a module that has been asked for by then, and a module that has been asked
for never changes, so an entity that is no import once it has been found stays one.

The atlas that all this is told about is a later one. Whatever a lookup remembers or yields on the
way, it is said of the modules of that atlas.

## Key definitions
- `Atlas.Resolved`: an entity that is no import, of a module that has been asked for.
- `Task.Fits`, `Lookup.Resolves`: answers that are as they have to be, and lookups that make them
  so out of others.

## Key results
- `Task.resolves_body`, `Question.resolves_lookup`: no task and no question yields an import, if
  none that it asks for does.
-/

namespace PyAtlas

/-! ### Modules that have been asked for -/

namespace Atlas

/-- The modules that have been asked for. -/
def settledKeys (a : Atlas) : List ModuleKey :=
  a.modules.map Prod.fst

theorem GrowsTo.settledKeys {a b : Atlas} (h : a.GrowsTo b) {key : ModuleKey}
    (hkey : key ∈ a.settledKeys) : key ∈ b.settledKeys := by
  obtain ⟨slot, hslot⟩ := exists_lookup_of_mem_keys hkey
  exact mem_keys_of_lookup (h.modules hslot)

/-- An entity of a module that has been asked for, which is no import. -/
structure Resolved (a : Atlas) (ref : EntityRef) : Prop where
  settled : ref.module ∈ a.settledKeys
  noImport : a.category ref ≠ .imported

end Atlas

/-! ### Lookups that follow imports -/

/-- What the answer of a task has to be. Tables may hold imports, the other answers may not. -/
def Task.Fits (a : Atlas) : (t : Task) → t.Answer → Prop
  | .members _ _, table => EntriesIn a.settledKeys table.entries
  | .bases _, answer => ∀ ref ∈ answer, a.Resolved ref
  | .follow _, target => a.Resolved target

/-- Anything may be asked for, but for tasks on entities of modules that have been asked for
    only. -/
def Contract.resolved (b : Atlas) : Contract where
  world := b.world
  mayRequest _ := True
  present key := key ∈ b.settledKeys
  mayAttend t := t.subject.module ∈ b.settledKeys
  answer := Task.Fits b
  mayVisit order _ := ∀ ref ∈ order, b.Resolved ref
  order _ _ order' := ∀ ref ∈ order', b.Resolved ref

namespace ModuleGraph

theorem category_ne_imported {g : ModuleGraph} {id : EntityId} (h : g.import? id = none) :
    g.category id ≠ .imported := by
  intro hcategory
  cases id with
  | module => cases hcategory
  | unknown => cases hcategory
  | declared index =>
    simp only [category] at hcategory
    cases he : g.declared[index]? with
    | none => simp [he] at hcategory
    | some e =>
      have hkind : e.kind.category = .imported := by simpa [he] using hcategory
      simp only [import?, kind?, entity?, he, Option.map_some] at h
      cases hk : e.kind <;> simp_all [EntityKind.category]

end ModuleGraph

namespace Atlas

variable {b : Atlas}

/-- A module is no import. -/
theorem resolved_module {key : ModuleKey} (h : key ∈ b.settledKeys) : b.Resolved key.ref :=
  ⟨h, by simp [category, ModuleKey.ref, ModuleGraph.category]⟩

/-- Nor is the placeholder of a module. -/
theorem resolved_unknownBeside {ref : EntityRef} (h : ref.module ∈ b.settledKeys) :
    b.Resolved ref.unknownBeside :=
  ⟨h, by simp [category, EntityRef.unknownBeside, ModuleGraph.category]⟩

theorem resolved_of_import?_eq_none {ref : EntityRef} (h : ref.module ∈ b.settledKeys)
    (hnone : (b.world ref.module).graph.import? ref.id = none) : b.Resolved ref :=
  ⟨h, ModuleGraph.category_ne_imported hnone⟩

end Atlas

namespace Lookup

/-- If the answers that the lookup gets are no imports, what it yields has the property `Q`. -/
abbrev Resolves (b : Atlas) {α : Type} (x : Lookup α) (Q : α → Prop) : Prop :=
  x.Meets (.resolved b) Q

section Resolves

variable {b : Atlas} {ref : EntityRef} {key : ModuleKey} {name : String} {access : Access}

/-- What was found, if anything, is no import. -/
abbrev FoundResolved (b : Atlas) (found : Option EntityRef) : Prop :=
  ∀ ref ∈ found, b.Resolved ref

theorem resolves_graph :
    (graph key).Resolves b fun g => g = (b.world key).graph ∧ key ∈ b.settledKeys :=
  ⟨trivial, fun h => ⟨rfl, h⟩⟩

theorem resolves_importModule? :
    (importModule? key).Resolves b
      fun found => ∀ ref ∈ found, ref = key.ref ∧ key ∈ b.settledKeys := by
  refine ⟨trivial, fun hkey ref href => ?_⟩
  split at href
  · exact ⟨(Option.some_inj.1 href).symm, hkey⟩
  · cases href

theorem resolves_members (h : ref.module ∈ b.settledKeys) :
    (members ref access).Resolves b fun table => EntriesIn b.settledKeys table.entries :=
  ⟨h, fun _ htable => htable⟩

theorem resolves_bases : (bases ref).Resolves b fun answer => ∀ base ∈ answer, b.Resolved base := by
  apply resolves_graph.bind
  rintro _ ⟨rfl, hkey⟩
  split
  · exact ⟨hkey, fun _ hanswer => hanswer⟩
  · exact .pure fun _ hbase => nomatch hbase

/-- An entity that is no import stands for itself, any other is followed. -/
theorem resolves_dereference : (dereference ref).Resolves b b.Resolved := by
  apply resolves_graph.bind
  rintro _ ⟨rfl, hkey⟩
  split
  · exact ⟨hkey, fun _ htarget => htarget⟩
  · rename_i hnone
    exact .pure (Atlas.resolved_of_import?_eq_none hkey (Option.not_isSome_iff_eq_none.1 hnone))

theorem resolves_some_dereference : (some <$> dereference ref).Resolves b (FoundResolved b) := by
  apply resolves_dereference.map
  rintro target htarget _ ⟨⟩
  exact htarget

theorem resolves_none :
    (pure none : Lookup (Option EntityRef)).Resolves b (FoundResolved b) :=
  .pure fun _ h => nomatch h

theorem resolves_member : (member ref access name).Resolves b (FoundResolved b) := by
  apply resolves_dereference.bind
  intro target htarget
  apply (resolves_members htarget.settled).bind
  intro table _
  split
  · exact resolves_some_dereference
  · exact resolves_none

/-! #### Imports -/

theorem resolves_known? (h : b.Resolved ref) : (known? ref).Resolves b (FoundResolved b) := by
  apply resolves_graph.bind
  rintro _ -
  refine .pure fun found hfound => ?_
  split at hfound
  · cases hfound
  · cases hfound
    exact h

theorem resolves_knownMember? : (knownMember? ref name).Resolves b (FoundResolved b) := by
  apply resolves_member.bind
  intro found hfound
  cases found with
  | some found => exact resolves_known? (hfound found rfl)
  | none => exact resolves_none

theorem resolves_inside? : (inside? key name).Resolves b (FoundResolved b) := by
  apply resolves_importModule?.weaken
  intro found hfound ref href
  obtain ⟨rfl, hkey⟩ := hfound ref href
  exact Atlas.resolved_module hkey

/-- An import leads to a module, to a member that has been followed, or nowhere. -/
theorem resolves_resolveImport (h : ref.module ∈ b.settledKeys) (target : ImportTarget) :
    (resolveImport ref target).Resolves b b.Resolved := by
  have hunknown : b.Resolved ref.unknownBeside := Atlas.resolved_unknownBeside h
  cases target with
  | unresolved => exact .pure hunknown
  | module name => exact ⟨trivial, fun hkey => Atlas.resolved_module hkey⟩
  | member source name =>
    apply resolves_importModule?.bind
    intro found hfound
    cases found with
    | none => exact .pure hunknown
    | some present =>
      apply resolves_knownMember?.bind
      intro found hfound
      cases found with
      | some found => exact .pure (hfound found rfl)
      | none =>
        apply resolves_inside?.bind
        intro found hfound
        cases found with
        | some inside => exact .pure (hfound inside rfl)
        | none => exact .pure hunknown

theorem resolves_follow : (follow ref).Resolves b b.Resolved := by
  apply resolves_graph.bind
  rintro _ ⟨rfl, hkey⟩
  split
  · exact resolves_resolveImport hkey _
  · rename_i hnone
    exact .pure (Atlas.resolved_of_import?_eq_none hkey hnone)

/-! #### Members of modules -/

theorem resolves_addExport {members table : NameTable EntityRef}
    (hmembers : EntriesIn b.settledKeys members.entries)
    (htable : EntriesIn b.settledKeys table.entries) :
    (addExport key members table name).Resolves b
      fun table => EntriesIn b.settledKeys table.entries := by
  rw [addExport]
  split
  · exact .pure htable
  · split
    · rename_i found hfound
      exact .pure (htable.insertNew (hmembers.get? hfound))
    · apply resolves_inside?.bind
      intro found hfound
      cases found with
      | some inside => exact .pure (htable.insertNew (hfound inside rfl).settled)
      | none => exact .pure htable

theorem resolves_addModuleExports {table : NameTable EntityRef} (h : key ∈ b.settledKeys)
    (htable : EntriesIn b.settledKeys table.entries) :
    (addModuleExports key table).Resolves b
      fun table => EntriesIn b.settledKeys table.entries := by
  have hself : key.ref.module ∈ b.settledKeys := h
  apply (resolves_members hself).bind
  intro members hmembers
  apply resolves_graph.bind
  rintro _ ⟨rfl, -⟩
  split
  · exact .foldlM htable fun table htable name _ => resolves_addExport hmembers htable
  · refine .pure (htable.insertAllNew fun entry hentry => ?_)
    exact hmembers entry (List.mem_filter.1 hentry).1

theorem resolves_addExports {version : Version} {table : NameTable EntityRef}
    {target : ImportTarget} (htable : EntriesIn b.settledKeys table.entries) :
    (addExports version table target).Resolves b
      fun table => EntriesIn b.settledKeys table.entries := by
  cases target with
  | module name =>
    apply resolves_importModule?.bind
    intro found hfound
    cases found with
    | some source =>
      obtain ⟨rfl, hkey⟩ := hfound source rfl
      exact resolves_addModuleExports hkey htable
    | none => exact .pure htable
  | unresolved => exact .pure htable
  | member _ _ => exact .pure htable

theorem resolves_moduleMembers (h : ref.module ∈ b.settledKeys) (g : ModuleGraph) :
    (moduleMembers ref g).Resolves b fun table => EntriesIn b.settledKeys table.entries :=
  .foldlM (entriesIn_of_module h) fun _ htable _ _ => resolves_addExports htable

/-! #### Members of classes -/

/-- Only classes are visited. -/
theorem resolves_visitBody {order : List EntityRef} (horder : ∀ cls ∈ order, b.Resolved cls) :
    (visitBody order ref).Resolves b fun order => ∀ cls ∈ order, b.Resolved cls := by
  apply resolves_graph.bind
  rintro _ ⟨rfl, hkey⟩
  split
  · rename_i hclass
    have hself : b.Resolved ref := by
      refine ⟨hkey, fun himported => ?_⟩
      have htype : b.category ref = .type := hclass.1
      rw [htype] at himported
      cases himported
    apply resolves_bases.bind
    intro bases _
    have hstart : ∀ cls ∈ order ++ [ref], b.Resolved cls := by
      simp only [List.mem_append, List.mem_singleton]
      rintro cls (hcls | rfl)
      · exact horder cls hcls
      · exact hself
    exact .foldlM hstart fun order horder base _ => ⟨horder, fun _ horder' => horder'⟩
  · exact .pure horder

theorem resolves_linearization :
    (linearization ref).Resolves b fun order => ∀ cls ∈ order, b.Resolved cls :=
  ⟨fun _ hcls => (nomatch hcls), fun _ horder => horder⟩

theorem resolves_entriesAlong {table : ClassInfo → NameTable EntityId} {order : List EntityRef} :
    (entriesAlong table order).Resolves b (EntriesIn b.settledKeys) := by
  have hclass : ∀ cls ∈ order, (classEntries table cls).Resolves b (EntriesIn b.settledKeys) := by
    intro cls _
    apply resolves_graph.bind
    rintro _ ⟨rfl, hkey⟩
    split
    · exact .pure (entriesIn_of_module hkey)
    · exact .pure fun _ hentry => nomatch hentry
  apply (Meets.mapM hclass).bind
  intro entries hentries
  exact .pure (List.forall_mem_flatten.2 hentries)

theorem resolves_classMembers :
    (classMembers ref access).Resolves b fun table => EntriesIn b.settledKeys table.entries := by
  apply resolves_linearization.bind
  intro order _
  have hmembers : ∀ attributes, EntriesIn b.settledKeys attributes →
      Resolves b (do
        let members ← entriesAlong ClassInfo.members order
        pure (NameTable.empty.insertAllNew (attributes ++ members)))
      fun table => EntriesIn b.settledKeys table.entries := by
    intro attributes hattributes
    apply resolves_entriesAlong.bind
    intro members hmembers
    refine .pure (EntriesIn.insertAllNew (fun _ h => nomatch h) ?_)
    exact List.forall_mem_append.2 ⟨hattributes, hmembers⟩
  show Resolves b (if _ then _ else _) _
  split
  · exact resolves_entriesAlong.bind hmembers
  · exact hmembers [] fun _ h => nomatch h

theorem resolves_collectMembers :
    (collectMembers ref access).Resolves b
      fun table => EntriesIn b.settledKeys table.entries := by
  apply resolves_graph.bind
  rintro _ ⟨rfl, hkey⟩
  split
  · exact resolves_moduleMembers hkey _
  · exact resolves_classMembers
  · split
    · exact .pure (entriesIn_of_module hkey)
    · exact .pure fun _ hentry => nomatch hentry
  · exact .pure fun _ hentry => nomatch hentry

/-! #### Bases -/

theorem resolves_builtin? {version : Version} :
    (builtin? version name).Resolves b (FoundResolved b) := by
  apply resolves_importModule?.bind
  intro found _
  cases found with
  | some builtins => exact resolves_member
  | none => exact resolves_none

theorem resolves_inScope? {innermost : Bool} :
    (inScope? name innermost ref).Resolves b (FoundResolved b) := by
  apply resolves_graph.bind
  rintro _ ⟨rfl, -⟩
  split
  · exact resolves_none
  · split
    · exact resolves_member
    · split
      · exact resolves_some_dereference
      · exact resolves_none

theorem resolves_inScopes? {version : Version} {innermost : Bool} {scopes : List EntityRef} :
    (inScopes? version name innermost scopes).Resolves b (FoundResolved b) := by
  induction scopes generalizing innermost with
  | nil => exact resolves_builtin?
  | cons scope outer ih =>
    apply resolves_inScope?.bind
    intro found hfound
    cases found with
    | some found => exact .pure hfound
    | none => exact ih

theorem resolves_baseHead? : (baseHead? ref name).Resolves b (FoundResolved b) := by
  apply resolves_graph.bind
  rintro _ ⟨rfl, -⟩
  split
  · exact resolves_some_dereference
  · exact resolves_inScopes?

theorem resolves_memberPath? {path : List String} (h : b.Resolved ref) :
    (memberPath? ref path).Resolves b (FoundResolved b) := by
  induction path generalizing ref with
  | nil =>
    refine .pure ?_
    rintro _ ⟨⟩
    exact h
  | cons name path ih =>
    have haccess : (pathAccess ref).Resolves b fun _ => True := ⟨trivial, fun _ => trivial⟩
    apply haccess.bind
    intro access _
    apply resolves_member.bind
    intro found hfound
    cases found with
    | some next => exact ih (hfound next rfl)
    | none => exact resolves_none

/-- A base is what its path leads to, or the placeholder. -/
theorem resolves_resolveBase {base : BaseRef} (h : ref.module ∈ b.settledKeys) :
    (resolveBase ref base).Resolves b b.Resolved := by
  have hunknown : b.Resolved ref.unknownBeside := Atlas.resolved_unknownBeside h
  unfold resolveBase
  split
  · apply resolves_baseHead?.bind
    intro found hfound
    cases found with
    | some start =>
      apply (resolves_memberPath? (hfound start rfl)).bind
      intro found hfound
      cases found with
      | some found => exact .pure (hfound found rfl)
      | none => exact .pure hunknown
    | none => exact .pure hunknown
  · exact .pure hunknown

theorem resolves_collectBases :
    (collectBases ref).Resolves b fun answer => ∀ base ∈ answer, b.Resolved base := by
  apply resolves_graph.bind
  rintro _ ⟨rfl, hkey⟩
  split
  · exact .mapM fun base _ => resolves_resolveBase hkey
  · exact .pure fun _ hbase => nomatch hbase

end Resolves

end Lookup

/-! ### Tasks and questions -/

section Questions

variable {b : Atlas}

theorem Task.resolves_body (t : Task) : t.body.Resolves b (t.Fits b) := by
  cases t with
  | members ref access => exact Lookup.resolves_collectMembers
  | bases ref => exact Lookup.resolves_collectBases
  | follow ref => exact Lookup.resolves_follow

/-- A cut is answered by nothing, or by a placeholder. -/
theorem Task.fits_cut {t : Task} (h : t.subject.module ∈ b.settledKeys) : t.Fits b t.cut := by
  cases t with
  | members ref access => exact fun _ hentry => nomatch hentry
  | bases ref => exact fun _ hbase => nomatch hbase
  | follow ref => exact Atlas.resolved_unknownBeside h

theorem Question.resolves_lookup (q : Question) :
    q.lookup.Resolves b fun answer => ∀ ref ∈ q.refs answer, b.Resolved ref := by
  cases q with
  | member ref access name =>
    apply Lookup.resolves_member.weaken
    intro found hfound target htarget
    exact hfound target (Option.mem_toList.1 htarget)
  | memberNames ref access =>
    apply Lookup.resolves_dereference.bind
    intro target htarget
    apply (Lookup.resolves_members htarget.settled).bind
    intro table _
    exact .pure fun _ hmem => nomatch hmem
  | linearize ref => exact Lookup.resolves_linearization
  | bases ref => exact Lookup.resolves_bases
  | metaclass ref =>
    apply Lookup.resolves_graph.bind
    rintro _ ⟨rfl, hkey⟩
    split
    · apply (Lookup.resolves_resolveBase hkey).map
      intro target htarget found hfound
      rwa [List.mem_singleton.1 hfound]
    · exact .pure fun _ hmem => nomatch hmem

end Questions

end PyAtlas
