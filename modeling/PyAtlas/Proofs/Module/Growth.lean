import PyAtlas.Proofs.Module.Placement

/-!
# How graphs grow

A graph is seen through its entities, their tables and their categories. For each way to change a
graph there is one lemma for each view: adding an entity is seen at the new id only, and binding a
name is seen in the table of its scope only. What an entity is called, where it stands and what
category it is of never changes once it is there; `Extends` says this of two graphs.

## Key definitions
- `ModuleGraph.InRange`: the id is that of an entity of the graph.
- `ModuleGraph.Extends`: all entities of a graph are there in another.

## Key results
- `entity?_push`, `entity?_update`, `table?_update`, `table?_declare`: what is seen of a change.
- `Extends.declare`, `Extends.place`: graphs only grow.
-/

namespace PyAtlas

/-- Categories of the entities that others stand in. -/
def Category.IsScope (c : Category) : Prop := c = .module ∨ c = .type ∨ c = .function

namespace ModuleGraph

variable {g g' : ModuleGraph} {id owner : EntityId} {e : Entity} {name : String}
  {f : EntityKind → EntityKind}

/-! ### Ids -/

/-- The id is that of an entity of the graph. -/
def InRange (g : ModuleGraph) (id : EntityId) : Prop := id.number < g.size

theorem inRange_module (g : ModuleGraph) : g.InRange .module :=
  Nat.zero_lt_succ _

theorem inRange_declared {index : Nat} : g.InRange (.declared index) ↔ index < g.declared.size :=
  Nat.add_lt_add_iff_right

theorem InRange.ne_nextId (h : g.InRange id) : id ≠ g.nextId := by
  rintro rfl
  exact Nat.lt_irrefl _ h

theorem inRange_of_entity? (h : g.entity? id = some e) : g.InRange id := by
  cases id with
  | declared index => exact inRange_declared.2 (Array.getElem?_eq_some_iff.1 h).1
  | _ => cases h

theorem inRange_of_table? {table : NameTable EntityId} (h : g.table? id = some table) :
    g.InRange id := by
  cases id with
  | module => exact g.inRange_module
  | unknown => cases h
  | declared index =>
    obtain ⟨e, he, -⟩ := Option.bind_eq_some_iff.1 h
    exact inRange_declared.2 (Array.getElem?_eq_some_iff.1 he).1

/-! ### The views of one entity -/

/-- Everything else that is seen of a declared entity is read off it. -/
theorem views_of_entity? (h : g.entity? id = some e) :
    g.nameOf id = e.name ∧ g.parent? id = some e.parent ∧ g.category id = e.kind.category
      ∧ g.table? id = e.kind.table? := by
  cases id with
  | declared index =>
    have he : g.declared[index]? = some e := h
    simp [nameOf, parent?, category, table?, he]
  | _ => cases h

theorem exists_entity?_of_inRange (h : g.InRange id) :
    id = .module ∨ id = .unknown ∨ ∃ e, g.entity? id = some e := by
  cases id with
  | module => exact .inl rfl
  | unknown => exact .inr (.inl rfl)
  | declared index =>
    exact .inr (.inr ⟨_, Array.getElem?_eq_getElem (inRange_declared.1 h)⟩)

theorem inRange_of_category (h : g.category id ≠ .unknown) : g.InRange id := by
  cases id with
  | module => exact g.inRange_module
  | unknown => exact absurd rfl h
  | declared index =>
    cases he : g.declared[index]? with
    | some e => exact inRange_declared.2 (Array.getElem?_eq_some_iff.1 he).1
    | none => exact absurd (by rw [category, he]; rfl) h

/-- The module apart, only declared entities are scopes. -/
theorem exists_entity?_of_isScope (h : (g.category id).IsScope) :
    id = .module ∨ ∃ e, g.entity? id = some e := by
  cases id with
  | module => exact .inl rfl
  | unknown => rcases h with h | h | h <;> cases h
  | declared index =>
    cases he : g.declared[index]? with
    | some e => exact .inr ⟨e, he⟩
    | none =>
      rw [category, he] at h
      rcases h with h | h | h <;> cases h

/-! ### Adding an entity -/

theorem entity?_push (g : ModuleGraph) (e : Entity) (id : EntityId) :
    (g.push e).entity? id = if id = g.nextId then some e else g.entity? id := by
  cases id with
  | declared index =>
    show (g.declared.push e)[index]? = _
    rw [Array.getElem?_push, nextId]
    simp only [EntityId.declared.injEq]
    rfl
  | _ => rfl

theorem entity?_nextId (g : ModuleGraph) (e : Entity) : (g.push e).entity? g.nextId = some e := by
  rw [entity?_push, if_pos rfl]

theorem table?_push (g : ModuleGraph) (e : Entity) (id : EntityId) :
    (g.push e).table? id = if id = g.nextId then e.kind.table? else g.table? id := by
  cases id with
  | declared index =>
    have hentity := entity?_push g e (.declared index)
    show ((g.push e).entity? (.declared index)).bind (·.kind.table?) = _
    rw [hentity]
    split <;> rfl
  | _ => rfl

/-! ### Changing an entity -/

theorem entity?_update (g : ModuleGraph) (owner : EntityId) (f : EntityKind → EntityKind)
    (id : EntityId) :
    (g.update owner f).entity? id =
      if id = owner then (g.entity? id).map fun e => { e with kind := f e.kind }
      else g.entity? id := by
  cases owner with
  | declared place =>
    cases id with
    | declared index =>
      show (g.declared.modify place _)[index]? = _
      rw [Array.getElem?_modify]
      simp only [EntityId.declared.injEq, eq_comm (a := place)]
      rfl
    | _ => rfl
  | _ => cases id <;> rfl

/-- A change that concerns no table shows in none. -/
theorem table?_update (hf : ∀ kind : EntityKind, (f kind).table? = kind.table?)
    (g : ModuleGraph) (owner id : EntityId) : (g.update owner f).table? id = g.table? id := by
  cases id with
  | declared index =>
    show ((g.update owner f).entity? (.declared index)).bind (·.kind.table?)
      = (g.entity? (.declared index)).bind (·.kind.table?)
    rw [entity?_update]
    split
    · cases g.entity? (.declared index) with
      | none => rfl
      | some e => exact hf e.kind
    · rfl
  | _ => cases owner <;> rfl

theorem entity?_bind (g : ModuleGraph) (owner : EntityId) (name : String) (x id : EntityId) :
    (g.bind owner name x).entity? id =
      if id = owner then (g.entity? id).map fun e => { e with kind := e.kind.bind name x }
      else g.entity? id := by
  cases owner with
  | module => cases id <;> rfl
  | _ => exact entity?_update _ _ _ id

/-- A name is bound in the table of its scope only. -/
theorem table?_bind (g : ModuleGraph) (owner : EntityId) (name : String) (x id : EntityId) :
    (g.bind owner name x).table? id =
      if id = owner then (g.table? id).map fun table => table.insert name x else g.table? id := by
  cases id with
  | declared index =>
    show ((g.bind owner name x).entity? (.declared index)).bind (·.kind.table?)
      = if _ then ((g.entity? (.declared index)).bind (·.kind.table?)).map _
        else (g.entity? (.declared index)).bind (·.kind.table?)
    rw [entity?_bind]
    split
    · cases g.entity? (.declared index) with
      | none => rfl
      | some e => cases h : e.kind <;> simp [h, EntityKind.bind, EntityKind.table?]
    · rfl
  | _ => cases owner <;> rfl

/-! ### Adding an entity and binding its name -/

/-- The new entity is what was added: its name is bound elsewhere. -/
theorem entity?_declare_nextId (hrange : g.InRange e.parent) :
    (g.declare e).entity? g.nextId = some e := by
  rw [declare, entity?_bind, if_neg hrange.ne_nextId.symm, entity?_nextId]

theorem table?_declare (hrange : g.InRange e.parent) (id : EntityId) :
    (g.declare e).table? id =
      if id = g.nextId then e.kind.table?
      else if id = e.parent then (g.table? id).map fun table => table.insert e.name g.nextId
      else g.table? id := by
  rw [declare, table?_bind, table?_push]
  by_cases hnew : id = g.nextId
  · subst hnew
    rw [if_neg hrange.ne_nextId.symm, if_pos rfl, if_pos rfl]
  · rw [if_neg hnew, if_neg hnew]

end ModuleGraph

/-! ### Graphs with more entities -/

/-- The entities have one name and one place, and are of one category. -/
structure Entity.SameShape (e e' : Entity) : Prop where
  name : e'.name = e.name
  span : e'.span = e.span
  parent : e'.parent = e.parent
  category : e'.kind.category = e.kind.category

theorem Entity.SameShape.trans {e e' e'' : Entity} (h : e.SameShape e') (h' : e'.SameShape e'') :
    e.SameShape e'' :=
  ⟨h'.name.trans h.name, h'.span.trans h.span, h'.parent.trans h.parent,
    h'.category.trans h.category⟩

namespace ModuleGraph

variable {g g' g'' : ModuleGraph} {id : EntityId}

/-- The entities of a graph are there in another graph of the module, and what they are has not
    changed. -/
structure Extends (g g' : ModuleGraph) : Prop where
  name : g'.name = g.name
  isPackage : g'.isPackage = g.isPackage
  size : g.size ≤ g'.size
  entity : ∀ id e, g.entity? id = some e → ∃ e', g'.entity? id = some e' ∧ e.SameShape e'

namespace Extends

theorem trans (h : g.Extends g') (h' : g'.Extends g'') : g.Extends g'' where
  name := h'.name.trans h.name
  isPackage := h'.isPackage.trans h.isPackage
  size := Nat.le_trans h.size h'.size
  entity id e he := by
    obtain ⟨e', he', hshape⟩ := h.entity id e he
    obtain ⟨e'', he'', hshape'⟩ := h'.entity id e' he'
    exact ⟨e'', he'', hshape.trans hshape'⟩

theorem push (g : ModuleGraph) (e : Entity) : g.Extends (g.push e) where
  name := rfl
  isPackage := rfl
  size := by
    show g.declared.size + 2 ≤ (g.declared.push e).size + 2
    rw [Array.size_push]
    omega
  entity id e' he' := by
    refine ⟨e', ?_, rfl, rfl, rfl, rfl⟩
    rw [entity?_push, if_neg (inRange_of_entity? he').ne_nextId, he']

theorem update {f : EntityKind → EntityKind} (hf : ∀ kind, (f kind).category = kind.category)
    (g : ModuleGraph) (owner : EntityId) : g.Extends (g.update owner f) where
  name := by cases owner <;> rfl
  isPackage := by cases owner <;> rfl
  size := by
    cases owner with
    | declared index =>
      exact Nat.add_le_add_right (Nat.le_of_eq Array.size_modify.symm) 2
    | _ => exact Nat.le_refl _
  entity id e he := by
    rw [entity?_update, he]
    by_cases hid : id = owner
    · exact ⟨_, if_pos hid, rfl, rfl, rfl, hf e.kind⟩
    · exact ⟨e, if_neg hid, rfl, rfl, rfl, rfl⟩

theorem bind (g : ModuleGraph) (owner : EntityId) (name : String) (x : EntityId) :
    g.Extends (g.bind owner name x) := by
  cases owner with
  | module => exact ⟨rfl, rfl, Nat.le_refl _, fun _ e he => ⟨e, he, rfl, rfl, rfl, rfl⟩⟩
  | unknown => exact update (EntityKind.category_bind name x) g .unknown
  | declared index => exact update (EntityKind.category_bind name x) g (.declared index)

theorem declare (g : ModuleGraph) (e : Entity) : g.Extends (g.declare e) :=
  (push g e).trans (bind _ _ _ _)

theorem withStarImports (g : ModuleGraph) (starImports : List ImportTarget) :
    g.Extends { g with starImports := starImports } :=
  ⟨rfl, rfl, Nat.le_refl _, fun _ e he => ⟨e, he, rfl, rfl, rfl, rfl⟩⟩

theorem inRange (h : g.Extends g') (hid : g.InRange id) : g'.InRange id :=
  Nat.lt_of_lt_of_le hid h.size

/-- Nothing that is seen of an entity but its tables changes. -/
theorem views (h : g.Extends g') (hid : g.InRange id) :
    g'.nameOf id = g.nameOf id ∧ g'.parent? id = g.parent? id
      ∧ g'.category id = g.category id := by
  rcases exists_entity?_of_inRange hid with rfl | rfl | ⟨e, he⟩
  · exact ⟨h.name, rfl, rfl⟩
  · exact ⟨rfl, rfl, rfl⟩
  · obtain ⟨e', he', hshape⟩ := h.entity id e he
    obtain ⟨hname, hparent, hcategory, -⟩ := views_of_entity? he
    obtain ⟨hname', hparent', hcategory', -⟩ := views_of_entity? he'
    exact ⟨by rw [hname, hname', hshape.name], by rw [hparent, hparent', hshape.parent],
      by rw [hcategory, hcategory', hshape.category]⟩

/-- Placing a declaration adds to the graph. -/
theorem place (a : Assembly) (d : Declaration) : a.graph.Extends (a.place d).graph := by
  have hstep := a.step_place d
  generalize a.place d = a' at hstep
  cases hstep with
  | new => exact declare _ _
  | joined => exact update (EntityKind.category_addOverload _) _ _
  | «attribute» =>
    exact (push _ _).trans (update (EntityKind.category_bindAttribute _ _) _ _)
  | star => exact withStarImports _ _

end Extends

end ModuleGraph

end PyAtlas
