import PyAtlas.Atlas.Load

/-!
# Names and versions of graphs

Whichever way a module is read, its graph has the name and the version that the module was asked
for by. The outline of a text fills the graph without changing either, and a place is found for no
other name than the one looked for.

## Key definitions
- `ModuleGraph.SameModule`: graphs of one module.
- `ModuleSlot.IsFor`: an answer that is about the module asked for.

## Key results
- `Assembly.sameModule_foldl`: declarations change neither the name nor the version.
- `ModuleSlot.isFor_ofSource`, `ModuleSlot.isFor_ofLocation`, `Atlas.isFor_fetch`: all that is read
  is for the module asked for.
-/

namespace PyAtlas

/-! ### Graphs -/

section Graphs

variable {g : ModuleGraph} {id : EntityId} {name : String}

/-- Two graphs are of the same module. -/
def ModuleGraph.SameModule (g g' : ModuleGraph) : Prop :=
  g'.name = g.name ∧ g'.version = g.version

namespace ModuleGraph.SameModule

theorem refl (g : ModuleGraph) : g.SameModule g := ⟨rfl, rfl⟩

theorem trans {g' g'' : ModuleGraph} (h : g.SameModule g') (h' : g'.SameModule g'') :
    g.SameModule g'' :=
  ⟨h'.1.trans h.1, h'.2.trans h.2⟩

theorem update (f : EntityKind → EntityKind) : g.SameModule (g.update id f) := by
  cases id <;> exact .refl _

theorem bind (owner : EntityId) : g.SameModule (g.bind owner name id) := by
  cases owner <;> exact .refl _

theorem declare (e : Entity) : g.SameModule (g.declare e) :=
  bind (g := g.push e) e.parent

end ModuleGraph.SameModule

/-- Placing a declaration changes neither the name nor the version. -/
theorem Assembly.sameModule_place (a : Assembly) (d : Declaration) :
    a.graph.SameModule (a.place d).graph := by
  have hnew : ∀ kind, a.graph.SameModule (a.placeNew d kind).graph := fun _ => .declare _
  rw [place]
  split
  · exact hnew _
  · rw [placeFunction]
    split
    · exact .update _
    · exact hnew _
  · rw [placeAttribute]
    split
    · exact .update _
    · exact .refl _
  · exact hnew _
  · dsimp only
    split
    · rw [placeStar]
      split <;> exact .refl _
    · exact hnew _

theorem Assembly.sameModule_foldl (a : Assembly) (declarations : List Declaration) :
    a.graph.SameModule (declarations.foldl place a).graph := by
  induction declarations generalizing a with
  | nil => exact .refl _
  | cons d declarations ih => exact (a.sameModule_place d).trans (ih (a.place d))

end Graphs

/-! ### Answers to requests -/

/-- The graph of the slot has the name and the version that are asked for. -/
structure ModuleSlot.IsFor (slot : ModuleSlot) (key : ModuleKey) : Prop where
  name : slot.graph.name = key.name
  version : slot.graph.version = key.version

theorem ModuleSlot.isFor_failed (key : ModuleKey) (e : ImportError) : (failed key e).IsFor key :=
  ⟨rfl, rfl⟩

theorem ModuleSlot.isFor_ofSource (key : ModuleKey) (path : Option String) (isPackage : Bool)
    (source : String) : (ofSource key path isPackage source).IsFor key := by
  obtain ⟨hname, hversion⟩ := Assembly.sameModule_foldl
    ⟨{ ModuleGraph.bare key.name key.version with
      path := path
      isPackage := isPackage
      doc := (Outline.ofTree (.parse key.version source)).doc
      exports := (Outline.ofTree (.parse key.version source)).exports
      errors := (Outline.ofTree (.parse key.version source)).errors }, #[]⟩
    (Outline.ofTree (.parse key.version source)).declarations
  exact ⟨hname, hversion⟩

theorem ModuleSlot.isFor_ofLocation (files : FileSystem) (version : Version) (m : ModuleLocation) :
    (ofLocation files version m).IsFor ⟨m.name, version⟩ := by
  rw [ofLocation]
  split
  · split
    · exact isFor_ofSource _ _ _ _
    · exact isFor_failed _ _
  · exact isFor_failed _ _

/-- A place is found for the name that was looked for. -/
theorem name_of_locateFrom? {library dottedName dir : String} {segments : List String}
    {entries : Entries} {m : ModuleLocation}
    (h : locateFrom? library dottedName segments dir entries = some m) : m.name = dottedName := by
  induction segments generalizing dir entries with
  | nil => cases h
  | cons segment more ih =>
    cases more with
    | nil =>
      rw [locateFrom?, moduleIn?] at h
      split at h
      · cases h
        rfl
      · obtain ⟨file, -, rfl⟩ := Option.map_eq_some_iff.1 h
        rfl
    | cons next more =>
      obtain ⟨⟨inner, file⟩, -, hinner⟩ := Option.bind_eq_some_iff.1 h
      exact ih hinner

theorem SearchPath.name_of_locate? {name : String} {libraries : SearchPath} {files : FileSystem}
    {m : ModuleLocation} (h : libraries.locate? files name = some m) : m.name = name := by
  rw [locate?] at h
  split at h
  · obtain ⟨library, -, hfound⟩ := List.exists_of_findSome?_eq_some h
    exact name_of_locateFrom? hfound
  · cases h

theorem Atlas.isFor_fetch (a : Atlas) (key : ModuleKey) : (a.fetch key).IsFor key := by
  rw [fetch]
  split
  · rename_i m hlocate
    have hslot := ModuleSlot.isFor_ofLocation a.files key.version m
    rwa [SearchPath.name_of_locate? hlocate] at hslot
  · exact ModuleSlot.isFor_failed _ _

end PyAtlas
