import PyAtlas.Proofs.Atlas.Contract

/-!
# The modules that lookups ask for

A lookup asks for modules that are named in modules: by imports, or in a list of exports, whose
names may mean modules inside. If a set of modules has all that its members name, lookups about
its entities stay in it. This is shown for each way in which lookups are put together, up to
the bodies of all tasks and questions.

## Key definitions
- `World.Closed`: a set of modules that nothing leads out of.
- `Lookup.StaysIn`: a lookup that asks for nothing outside such a set.

## Key results
- `Task.staysIn_body`, `Question.staysIn_lookup`: no task and no question leads out of it.
-/

namespace PyAtlas

/-! ### Closed sets of modules -/

/-- The modules that an import may ask for. -/
def ImportTarget.keys (version : Version) : ImportTarget → List ModuleKey
  | .unresolved => []
  | .module name => [⟨name, version⟩]
  | .member source name => [⟨source, version⟩, ⟨source ++ "." ++ name, version⟩]

/-- The modules that the imports and the exports of a module may ask for. -/
def ModuleGraph.mentioned (g : ModuleGraph) (key : ModuleKey) : List ModuleKey :=
  g.declared.toList.flatMap (fun e =>
      match e.kind with
      | .imported target => target.keys key.version
      | _ => [])
    ++ g.starImports.flatMap (ImportTarget.keys key.version)
    ++ (g.exports.getD []).map (⟨key.name ++ "." ++ ·, key.version⟩)

/-- Nothing leads from these modules to others. -/
structure World.Closed (w : World) (keys : List ModuleKey) : Prop where
  mentioned : ∀ key ∈ keys, ∀ other ∈ (w key).graph.mentioned key, other ∈ keys
  builtins : ∀ key ∈ keys, ⟨key.version.builtinsModule, key.version⟩ ∈ keys

/-! ### Entities of some modules -/

/-- The entities are all of the given modules. -/
abbrev RefsIn (keys : List ModuleKey) (refs : List EntityRef) : Prop :=
  ∀ ref ∈ refs, ref.module ∈ keys

/-- What was found, if anything, is of one of the given modules. -/
abbrev FoundIn (keys : List ModuleKey) (found : Option EntityRef) : Prop :=
  ∀ ref ∈ found, ref.module ∈ keys

/-- The entities that names are listed for are all of the given modules. -/
abbrev EntriesIn (keys : List ModuleKey) (entries : List (String × EntityRef)) : Prop :=
  ∀ entry ∈ entries, entry.2.module ∈ keys

section EntriesIn

variable {keys : List ModuleKey} {table : NameTable EntityRef} {name : String} {ref : EntityRef}

theorem EntriesIn.get? (h : EntriesIn keys table.entries) (hfound : table.get? name = some ref) :
    ref.module ∈ keys := by
  rw [NameTable.get?, Option.map_eq_some_iff] at hfound
  obtain ⟨entry, hentry, rfl⟩ := hfound
  exact h entry (List.mem_of_find?_eq_some hentry)

theorem EntriesIn.insertNew (h : EntriesIn keys table.entries) (href : ref.module ∈ keys) :
    EntriesIn keys (table.insertNew name ref).entries := by
  rw [NameTable.insertNew]
  split
  · exact h
  · exact List.forall_mem_append.2 ⟨h, List.forall_mem_singleton.2 href⟩

theorem EntriesIn.insertAllNew {entries : List (String × EntityRef)}
    (h : EntriesIn keys table.entries) (hentries : EntriesIn keys entries) :
    EntriesIn keys (table.insertAllNew entries).entries := by
  induction entries generalizing table with
  | nil => exact h
  | cons entry entries ih =>
    rw [EntriesIn, List.forall_mem_cons] at hentries
    exact ih (h.insertNew hentries.1) hentries.2

/-- A table of ids, read as entities of one of the modules. -/
theorem entriesIn_of_module {ids : List (String × EntityId)} {key : ModuleKey} (h : key ∈ keys) :
    EntriesIn keys (ids.map fun entry => (entry.1, ⟨key, entry.2⟩)) := by
  intro entry hentry
  obtain ⟨own, -, rfl⟩ := List.mem_map.1 hentry
  exact h

end EntriesIn

/-! ### Lookups that stay in a set of modules -/

namespace Task

/-- The entities in the answer of a task. -/
def refs : (t : Task) → t.Answer → List EntityRef
  | members _ _, table => table.entries.map Prod.snd
  | bases _, answer => answer
  | follow _, target => [target]

end Task

/-- Nothing is asked for beyond the given modules, and no answer leads beyond them. -/
def Contract.within (w : World) (keys : List ModuleKey) : Contract where
  world := w
  mayRequest key := key ∈ keys
  mayAttend t := t.subject.module ∈ keys
  answer t answer := RefsIn keys (t.refs answer)
  mayVisit order ref := RefsIn keys order ∧ ref.module ∈ keys
  order _ _ order' := RefsIn keys order'

namespace Lookup

/-- The lookup asks for none but the given modules and for tasks on their entities only. If all
    answers are about such entities, what it yields has the property `Q`. -/
abbrev StaysIn (w : World) (keys : List ModuleKey) {α : Type} (x : Lookup α) (Q : α → Prop) :
    Prop :=
  x.Meets (.within w keys) Q

section Combinators

variable {w : World} {keys : List ModuleKey} {ref : EntityRef} {key : ModuleKey} {name : String}

theorem staysIn_graph (h : key ∈ keys) : (graph key).StaysIn w keys (· = (w key).graph) :=
  ⟨h, fun _ => rfl⟩

theorem staysIn_importModule? (h : key ∈ keys) :
    (importModule? key).StaysIn w keys fun found => ∀ ref ∈ found, ref = key.ref := by
  refine ⟨h, fun _ ref href => ?_⟩
  split at href
  · exact (Option.some_inj.1 href).symm
  · cases href

theorem staysIn_members {access : Access} (h : ref.module ∈ keys) :
    (members ref access).StaysIn w keys
      fun table => EntriesIn keys table.entries :=
  ⟨h, fun _ hanswer entry hentry => hanswer _ (List.mem_map.2 ⟨entry, hentry, rfl⟩)⟩

theorem staysIn_bases (h : ref.module ∈ keys) :
    (bases ref).StaysIn w keys (RefsIn keys) := by
  refine (staysIn_graph h).bind ?_
  rintro _ rfl
  split
  · exact ⟨h, fun _ hanswer => hanswer⟩
  · exact .pure fun _ h => nomatch h

theorem staysIn_dereference (h : ref.module ∈ keys) :
    (dereference ref).StaysIn w keys (·.module ∈ keys) := by
  refine (staysIn_graph h).bind ?_
  rintro _ rfl
  split
  · exact ⟨h, fun _ hanswer => hanswer _ (List.mem_singleton.2 rfl)⟩
  · exact .pure h

theorem staysIn_some_dereference (h : ref.module ∈ keys) :
    (some <$> dereference ref).StaysIn w keys (FoundIn keys) :=
  (staysIn_dereference h).map fun _ htarget _ hfound => Option.some_inj.1 hfound ▸ htarget

theorem staysIn_none : (pure none : Lookup (Option EntityRef)).StaysIn w keys (FoundIn keys) :=
  .pure fun _ h => nomatch h

theorem staysIn_member {access : Access} (h : ref.module ∈ keys) :
    (member ref access name).StaysIn w keys (FoundIn keys) := by
  refine (staysIn_dereference h).bind fun target htarget => ?_
  refine (staysIn_members htarget).bind fun table htable => ?_
  split
  · next found hfound => exact staysIn_some_dereference (htable.get? hfound)
  · exact staysIn_none

theorem staysIn_known? (h : ref.module ∈ keys) :
    (known? ref).StaysIn w keys (FoundIn keys) := by
  refine (staysIn_graph h).bind fun g _ => .pure fun found hfound => ?_
  split at hfound
  · cases hfound
  · exact Option.some_inj.1 hfound ▸ h

theorem staysIn_knownMember? (h : ref.module ∈ keys) :
    (knownMember? ref name).StaysIn w keys (FoundIn keys) := by
  refine (staysIn_member h).bind fun found hfound => ?_
  cases found with
  | some found => exact staysIn_known? (hfound found rfl)
  | none => exact staysIn_none

theorem staysIn_inside? (h : ⟨key.name ++ "." ++ name, key.version⟩ ∈ keys) :
    (inside? key name).StaysIn w keys (FoundIn keys) := by
  refine (staysIn_importModule? h).weaken fun found hfound ref href => ?_
  rw [hfound ref href]
  exact h

theorem ModuleGraph.mentioned_of_import? {g : ModuleGraph} {id : EntityId} {target : ImportTarget}
    {other : ModuleKey} (h : g.import? id = some target)
    (hother : other ∈ target.keys key.version) :
    other ∈ g.mentioned key := by
  rw [ModuleGraph.import?] at h
  split at h
  · next hkind =>
    cases h
    -- Only a declared entity is an import, so its target is mentioned with the entity.
    obtain ⟨e, he, hkind⟩ := Option.map_eq_some_iff.1 hkind
    have hmem : e ∈ g.declared.toList := by
      cases id with
      | declared index => exact Array.mem_toList_iff.2 (Array.mem_of_getElem? he)
      | module => cases he
      | unknown => cases he
    refine List.mem_append_left _ (List.mem_append_left _ (List.mem_flatMap.2 ⟨e, hmem, ?_⟩))
    rw [hkind]
    exact hother
  · cases h

theorem staysIn_resolveImport {target : ImportTarget} (h : ref.module ∈ keys)
    (htarget : ∀ key ∈ target.keys ref.module.version, key ∈ keys) :
    (resolveImport ref target).StaysIn w keys (·.module ∈ keys) := by
  cases target with
  | unresolved => exact .pure h
  | module name =>
    have hname := htarget _ List.mem_cons_self
    exact ⟨hname, fun _ => hname⟩
  | member source name =>
    -- Such an import may ask for its source and for the module of the name inside.
    have hsource := htarget _ List.mem_cons_self
    have hinside := htarget _ (List.mem_cons_of_mem _ List.mem_cons_self)
    refine (staysIn_importModule? hsource).bind fun found hfound => ?_
    cases found with
    | none => exact .pure h
    | some present =>
      -- What is found of the source is the source itself.
      have hpresent : present.module ∈ keys := by
        rw [hfound present rfl]
        exact hsource
      refine (staysIn_knownMember? hpresent).bind fun found hfound => ?_
      cases found with
      | some found => exact .pure (hfound found rfl)
      | none =>
        refine (staysIn_inside? hinside).bind fun found hfound => .pure ?_
        cases found with
        | some inside => exact hfound inside rfl
        | none => exact h

variable (hw : w.Closed keys)

include hw in
theorem staysIn_follow (h : ref.module ∈ keys) :
    (follow ref).StaysIn w keys (·.module ∈ keys) := by
  refine (staysIn_graph h).bind ?_
  rintro _ rfl
  split
  · next target htarget =>
    refine staysIn_resolveImport h fun key hkey => ?_
    exact hw.mentioned _ h _ (ModuleGraph.mentioned_of_import? htarget hkey)
  · exact .pure h

/-! #### Members of modules -/

theorem staysIn_addExport {members table : NameTable EntityRef}
    (hmembers : EntriesIn keys members.entries)
    (htable : EntriesIn keys table.entries)
    (hinside : ⟨key.name ++ "." ++ name, key.version⟩ ∈ keys) :
    (addExport key members table name).StaysIn w keys
      fun table => EntriesIn keys table.entries := by
  rw [addExport]
  split
  · exact .pure htable
  · split
    · next found hfound =>
      exact .pure (htable.insertNew (hmembers.get? hfound))
    · refine (staysIn_inside? hinside).bind fun found hfound => ?_
      cases found with
      | some inside =>
        exact .pure (htable.insertNew (hfound inside rfl))
      | none => exact .pure htable

include hw

theorem staysIn_addModuleExports {table : NameTable EntityRef} (h : key ∈ keys)
    (htable : EntriesIn keys table.entries) :
    (addModuleExports key table).StaysIn w keys
      fun table => EntriesIn keys table.entries := by
  refine (staysIn_members h).bind fun members hmembers => (staysIn_graph h).bind ?_
  rintro _ rfl
  split
  · next names hnames =>
    refine .foldlM htable fun table htable name hname => ?_
    -- A module inside is looked for under a name that the module lists.
    refine staysIn_addExport hmembers htable (hw.mentioned _ h _ ?_)
    refine List.mem_append_right _ (List.mem_map.2 ⟨name, ?_, rfl⟩)
    rw [hnames]
    exact hname
  · refine .pure (htable.insertAllNew fun entry hentry => ?_)
    exact hmembers entry (List.mem_filter.1 hentry).1

theorem staysIn_addExports {version : Version} {table : NameTable EntityRef}
    {target : ImportTarget} (htable : EntriesIn keys table.entries)
    (htarget : ∀ key ∈ target.keys version, key ∈ keys) :
    (addExports version table target).StaysIn w keys
      fun table => EntriesIn keys table.entries := by
  cases target with
  | module name =>
    have hname := htarget _ List.mem_cons_self
    refine (staysIn_importModule? hname).bind fun found hfound => ?_
    cases found with
    | some source =>
      refine staysIn_addModuleExports hw ?_ htable
      rw [hfound source rfl]
      exact hname
    | none => exact .pure htable
  | unresolved => exact .pure htable
  | member _ _ => exact .pure htable

theorem staysIn_moduleMembers (h : ref.module ∈ keys) :
    (moduleMembers ref (w ref.module).graph).StaysIn w keys
      fun table => EntriesIn keys table.entries := by
  refine .foldlM (entriesIn_of_module h) fun table htable target htarget => ?_
  refine staysIn_addExports hw htable fun key hkey => hw.mentioned _ h _ ?_
  refine List.mem_append_left _ (List.mem_append_right _ ?_)
  exact List.mem_flatMap.2 ⟨target, htarget, hkey⟩

/-! #### Members of classes -/

omit hw

theorem staysIn_visitBody {order : List EntityRef} (horder : RefsIn keys order)
    (h : ref.module ∈ keys) :
    (visitBody order ref).StaysIn w keys (RefsIn keys) := by
  refine (staysIn_graph h).bind ?_
  rintro _ rfl
  split
  · refine (staysIn_bases h).bind fun bases hbases => ?_
    refine .foldlM ?_ fun order horder base hbase => ?_
    · exact List.forall_mem_append.2 ⟨horder, List.forall_mem_singleton.2 h⟩
    · exact ⟨⟨horder, hbases base hbase⟩, fun _ horder => horder⟩
  · exact .pure horder

theorem staysIn_linearization (h : ref.module ∈ keys) :
    (linearization ref).StaysIn w keys (RefsIn keys) :=
  ⟨⟨(fun _ h => nomatch h), h⟩, fun _ horder => horder⟩

theorem staysIn_classEntries {table : ClassInfo → NameTable EntityId} (h : ref.module ∈ keys) :
    (classEntries table ref).StaysIn w keys (EntriesIn keys) := by
  refine (staysIn_graph h).bind ?_
  rintro _ rfl
  split
  · exact .pure (entriesIn_of_module h)
  · exact .pure fun _ h => nomatch h

theorem staysIn_entriesAlong {table : ClassInfo → NameTable EntityId} {order : List EntityRef}
    (horder : RefsIn keys order) :
    (entriesAlong table order).StaysIn w keys (EntriesIn keys) := by
  refine (Meets.mapM fun cls hcls => staysIn_classEntries (horder cls hcls)).bind
    fun entries hentries => .pure ?_
  exact List.forall_mem_flatten.2 hentries

theorem staysIn_classMembers {access : Access} (h : ref.module ∈ keys) :
    (classMembers ref access).StaysIn w keys
      fun table => EntriesIn keys table.entries := by
  refine (staysIn_linearization h).bind fun order horder => ?_
  have hmembers : ∀ attributes, EntriesIn keys attributes →
      StaysIn w keys (do
        let members ← entriesAlong ClassInfo.members order
        pure (NameTable.empty.insertAllNew (attributes ++ members)))
      fun table => EntriesIn keys table.entries := by
    refine fun attributes hattributes => (staysIn_entriesAlong horder).bind
      fun members hmembers => .pure (EntriesIn.insertAllNew (fun _ h => nomatch h) ?_)
    exact List.forall_mem_append.2 ⟨hattributes, hmembers⟩
  show StaysIn w keys (if _ then _ else _) _
  split
  · exact (staysIn_entriesAlong horder).bind hmembers
  · exact hmembers [] fun _ h => nomatch h

include hw

theorem staysIn_collectMembers {access : Access} (h : ref.module ∈ keys) :
    (collectMembers ref access).StaysIn w keys
      fun table => EntriesIn keys table.entries := by
  refine (staysIn_graph h).bind ?_
  rintro _ rfl
  split
  · exact staysIn_moduleMembers hw h
  · exact staysIn_classMembers h
  · split
    · exact .pure (entriesIn_of_module h)
    · exact .pure fun _ h => nomatch h
  · exact .pure fun _ h => nomatch h

/-! #### Bases -/

theorem staysIn_builtin? (h : key ∈ keys) :
    (builtin? key.version name).StaysIn w keys (FoundIn keys) := by
  have hbuiltins := hw.builtins key h
  refine (staysIn_importModule? hbuiltins).bind fun found hfound => ?_
  cases found with
  | some builtins =>
    refine staysIn_member ?_
    rw [hfound builtins rfl]
    exact hbuiltins
  | none => exact staysIn_none

omit hw in
theorem staysIn_inScope? {innermost : Bool} (h : ref.module ∈ keys) :
    (inScope? name innermost ref).StaysIn w keys (FoundIn keys) := by
  refine (staysIn_graph h).bind ?_
  rintro _ rfl
  split
  · exact staysIn_none
  · split
    · exact staysIn_member h
    · split
      · exact staysIn_some_dereference h
      · exact staysIn_none

theorem staysIn_inScopes? {innermost : Bool} {scopes : List EntityRef} (h : key ∈ keys)
    (hscopes : ∀ scope ∈ scopes, scope.module ∈ keys) :
    (inScopes? key.version name innermost scopes).StaysIn w keys (FoundIn keys) := by
  induction scopes generalizing innermost with
  | nil => exact staysIn_builtin? hw h
  | cons scope outer ih =>
    rw [List.forall_mem_cons] at hscopes
    refine (staysIn_inScope? hscopes.1).bind fun found hfound => ?_
    cases found with
    | some found => exact .pure hfound
    | none => exact ih hscopes.2

theorem staysIn_baseHead? (h : ref.module ∈ keys) :
    (baseHead? ref name).StaysIn w keys (FoundIn keys) := by
  refine (staysIn_graph h).bind ?_
  rintro _ rfl
  split
  · exact staysIn_some_dereference h
  · refine staysIn_inScopes? hw h fun scope hscope => ?_
    obtain ⟨id, -, rfl⟩ := List.mem_map.1 hscope
    exact h

omit hw in
theorem staysIn_memberPath? {path : List String} (h : ref.module ∈ keys) :
    (memberPath? ref path).StaysIn w keys (FoundIn keys) := by
  induction path generalizing ref with
  | nil => exact .pure fun found hfound => Option.some_inj.1 hfound ▸ h
  | cons name path ih =>
    refine ((staysIn_graph h).bind fun _ _ => .pure (Q := fun _ => True) trivial).bind
      fun access _ => ?_
    refine (staysIn_member h).bind fun found hfound => ?_
    cases found with
    | some next => exact ih (hfound next rfl)
    | none => exact staysIn_none

theorem staysIn_resolveBase {base : BaseRef} (h : ref.module ∈ keys) :
    (resolveBase ref base).StaysIn w keys (·.module ∈ keys) := by
  unfold resolveBase
  split
  · refine (staysIn_baseHead? hw h).bind fun found hfound => ?_
    cases found with
    | some start =>
      refine (staysIn_memberPath? (hfound start rfl)).bind fun found hfound => .pure ?_
      cases found with
      | some found => exact hfound found rfl
      | none => exact h
    | none => exact .pure h
  · exact .pure h

theorem staysIn_collectBases (h : ref.module ∈ keys) :
    (collectBases ref).StaysIn w keys (RefsIn keys) := by
  refine (staysIn_graph h).bind ?_
  rintro _ rfl
  split
  · exact .mapM fun base _ => staysIn_resolveBase hw h
  · exact .pure fun _ h => nomatch h

end Combinators

end Lookup

section Questions

variable {w : World} {keys : List ModuleKey}

/-- Tasks ask for nothing beyond a closed set that their entity is from. -/
theorem Task.staysIn_body (hw : w.Closed keys) {t : Task} (h : t.subject.module ∈ keys) :
    t.body.StaysIn w keys fun answer => RefsIn keys (t.refs answer) := by
  cases t with
  | members ref access =>
    refine (Lookup.staysIn_collectMembers hw h).weaken fun table htable => ?_
    exact List.forall_mem_map.2 htable
  | bases ref => exact Lookup.staysIn_collectBases hw h
  | follow ref =>
    exact (Lookup.staysIn_follow hw h).weaken fun _ htarget => List.forall_mem_singleton.2 htarget

/-- The entities in the answer to a question. -/
def Question.refs : (q : Question) → q.Answer → List EntityRef
  | member _ _ _, found => found.toList
  | memberNames _ _, _ => []
  | linearize _, order => order
  | bases _, answer => answer
  | metaclass _, found => found.toList

/-- Nor do questions. -/
theorem Question.staysIn_lookup (hw : w.Closed keys) {q : Question}
    (h : q.subject.module ∈ keys) :
    q.lookup.StaysIn w keys fun answer => RefsIn keys (q.refs answer) := by
  cases q with
  | member ref access name =>
    refine (Lookup.staysIn_member h).weaken fun found hfound => ?_
    exact fun ref href => hfound ref (Option.mem_toList.1 href)
  | memberNames ref access =>
    refine (Lookup.staysIn_dereference h).bind fun target htarget => ?_
    refine (Lookup.staysIn_members htarget).bind fun table _ => .pure ?_
    exact fun _ hmem => nomatch hmem
  | linearize ref => exact Lookup.staysIn_linearization h
  | bases ref => exact Lookup.staysIn_bases h
  | metaclass ref =>
    refine (Lookup.staysIn_graph h).bind fun g _ => ?_
    split
    · next base _ =>
      refine (Lookup.staysIn_resolveBase hw h).map fun target htarget => ?_
      exact List.forall_mem_singleton.2 htarget
    · exact .pure fun _ hmem => nomatch hmem

end Questions

end PyAtlas
