import PyAtlas.Proofs.Module.Growth

/-!
# Well-formed graphs

In the graph of a module every id leads somewhere. Parents come before their children and are
scopes; what a table lists under a name is an entity of that name, declared in the scope that has the
table; and what a class derives from, where that is known already, comes before the class. So no
lookup of an entity misses, and going up from scope to scope ends at the module.

## Key definitions
- `ModuleGraph.WellFormed`: a graph in which every id leads to the right entity.
- `ModuleGraph.Climbs`: the way up from an entity to the module.

## Key results
- `WellFormed.push`, `WellFormed.update`, `WellFormed.bind`: how a change keeps a graph well formed.
- `Assembly.Sound.place`: placing a declaration keeps the assembly sound.
- `WellFormed.climbs`: the chain of an entity is the way up to the module.
- `ModuleGraph.wellFormed_ofTree`: the graph of a module is well formed while it is made and when it
  is done.
-/

namespace PyAtlas

/-! ### Entries of tables -/

namespace NameTable

variable {α : Type} {t : NameTable α} {name : String} {x : α} {entry : String × α}

theorem mem_entries_of_get? (h : t.get? name = some x) : (name, x) ∈ t.entries := by
  obtain ⟨⟨found, y⟩, hfound, rfl⟩ := Option.map_eq_some_iff.1 h
  have hname := List.find?_some hfound
  obtain rfl : found = name := eq_of_beq hname
  exact List.mem_of_find?_eq_some hfound

/-- What is in a table after an insertion was put in or was there before. -/
theorem mem_entries_insert (h : entry ∈ (t.insert name x).entries) :
    entry = (name, x) ∨ entry ∈ t.entries := by
  unfold insert at h
  split at h
  · obtain ⟨old, hold, rfl⟩ := List.mem_map.1 h
    split
    · exact .inl rfl
    · exact .inr hold
  · rcases List.mem_append.1 h with hold | hnew
    · exact .inr hold
    · exact .inl (List.mem_singleton.1 hnew)

theorem mem_names_insert (h : name ∈ t.names) (name' : String) (x : α) :
    name ∈ (t.insert name' x).names := by
  rw [names_insert]
  split
  · exact h
  · exact List.mem_append_left _ h

end NameTable

namespace ModuleGraph

variable {g g' : ModuleGraph} {id owner : EntityId} {e : Entity} {name : String} {kind : EntityKind}

/-! ### What makes a graph well formed -/

/-- The id is that of an entity with the given name that stands in the given scope. -/
structure Bound (g : ModuleGraph) (owner : EntityId) (name : String) (id : EntityId) : Prop where
  inRange : g.InRange id
  name : g.nameOf id = name
  parent : g.parent? id = some owner

/-- What a class knows leads to the right entities. Its own table lists the class itself under one
    name, unless its body binds that name. -/
structure WellFormedClass (g : ModuleGraph) (id : EntityId) (info : ClassInfo) : Prop where
  members : ∀ entry ∈ info.members.entries,
    g.Bound id entry.1 entry.2 ∨ entry = ("__class__", id)
  attributes : ∀ entry ∈ info.attributes.entries, g.Bound id entry.1 entry.2
  self : "__class__" ∈ info.members.names
  priorBindings : ∀ binding ∈ info.priorBindings, binding.2.number < id.number

/-- What an entity knows leads to the right entities. -/
def WellFormedKind (g : ModuleGraph) (id : EntityId) : EntityKind → Prop
  | .class info => g.WellFormedClass id info
  | .function info => ∀ entry ∈ info.locals.entries, g.Bound id entry.1 entry.2
  | _ => True

/-- Every id in a graph leads to the right entity: to a scope that comes before, where it is that of
    a parent, and to what the name says, where it is in a table. -/
structure WellFormed (g : ModuleGraph) : Prop where
  parents : ∀ id e, g.entity? id = some e →
    e.parent.number < id.number ∧ (g.category e.parent).IsScope
  members : ∀ entry ∈ g.members.entries, g.Bound .module entry.1 entry.2
  kinds : ∀ id e, g.entity? id = some e → g.WellFormedKind id e.kind

/-! ### What growing keeps -/

theorem Bound.mono (h : g.Bound owner name id) (hext : g.Extends g') : g'.Bound owner name id := by
  obtain ⟨hname, hparent, -⟩ := hext.views h.inRange
  exact ⟨hext.inRange h.inRange, hname.trans h.name, hparent.trans h.parent⟩

theorem WellFormedKind.mono (h : g.WellFormedKind id kind) (hext : g.Extends g') :
    g'.WellFormedKind id kind := by
  cases kind with
  | «class» info =>
    exact ⟨fun entry hentry => (h.members entry hentry).imp_left (·.mono hext),
      fun entry hentry => (h.attributes entry hentry).mono hext, h.self, h.priorBindings⟩
  | function info => exact fun entry hentry => (h entry hentry).mono hext
  | «variable» => trivial
  | imported => trivial

/-- A graph that grows stays well formed if all that is new leads to the right entities. -/
theorem WellFormed.grow (h : g.WellFormed) (hext : g.Extends g')
    (hmembers : ∀ entry ∈ g'.members.entries,
      entry ∈ g.members.entries ∨ g'.Bound .module entry.1 entry.2)
    (hentities : ∀ id e', g'.entity? id = some e' → (∃ e, g.entity? id = some e)
      ∨ e'.parent.number < id.number ∧ (g'.category e'.parent).IsScope)
    (hkinds : ∀ id e', g'.entity? id = some e' →
      (∃ e, g.entity? id = some e ∧ e.kind = e'.kind) ∨ g'.WellFormedKind id e'.kind) :
    g'.WellFormed where
  parents id e' he' := by
    rcases hentities id e' he' with ⟨e, he⟩ | hnew
    · obtain ⟨e'', he'', hshape⟩ := hext.entity id e he
      obtain rfl : e' = e'' := Option.some.inj (he'.symm.trans he'')
      obtain ⟨hless, hscope⟩ := h.parents id e he
      have hrange : g.InRange e.parent := Nat.lt_trans hless (inRange_of_entity? he)
      rw [hshape.parent, (hext.views hrange).2.2]
      exact ⟨hless, hscope⟩
    · exact hnew
  members entry hentry :=
    (hmembers entry hentry).elim (fun hold => (h.members entry hold).mono hext) id
  kinds id e' he' := by
    rcases hkinds id e' he' with ⟨e, he, hkind⟩ | hnew
    · rw [← hkind]
      exact (h.kinds id e he).mono hext
    · exact hnew

theorem WellFormed.push (h : g.WellFormed) (hrange : g.InRange e.parent)
    (hscope : (g.category e.parent).IsScope) (hkind : (g.push e).WellFormedKind g.nextId e.kind) :
    (g.push e).WellFormed := by
  refine h.grow (.push g e) (fun entry hentry => .inl hentry) (fun id e' he' => ?_)
    fun id e' he' => ?_
  · rw [entity?_push] at he'
    split at he'
    · rename_i hid
      obtain rfl := Option.some.inj he'
      subst hid
      rw [((Extends.push g e).views hrange).2.2]
      exact .inr ⟨hrange, hscope⟩
    · exact .inl ⟨e', he'⟩
  · rw [entity?_push] at he'
    split at he'
    · rename_i hid
      obtain rfl := Option.some.inj he'
      subst hid
      exact .inr hkind
    · exact .inl ⟨e', he', rfl⟩

theorem WellFormed.update {f : EntityKind → EntityKind} (h : g.WellFormed)
    (hf : ∀ kind, (f kind).category = kind.category)
    (hkind : ∀ e, g.entity? owner = some e → g.WellFormedKind owner (f e.kind)) :
    (g.update owner f).WellFormed := by
  have hext : g.Extends (g.update owner f) := .update hf g owner
  refine h.grow hext (fun entry hentry => .inl ?_) (fun id e' he' => .inl ?_) fun id e' he' => ?_
  · cases owner <;> exact hentry
  · rw [entity?_update] at he'
    split at he'
    · obtain ⟨e, he, -⟩ := Option.map_eq_some_iff.1 he'
      exact ⟨e, he⟩
    · exact ⟨e', he'⟩
  · rw [entity?_update] at he'
    split at he'
    · rename_i hid
      obtain ⟨e, he, rfl⟩ := Option.map_eq_some_iff.1 he'
      subst hid
      exact .inr ((hkind e he).mono hext)
    · exact .inl ⟨e', he', rfl⟩

theorem WellFormedKind.bind (h : g.WellFormedKind owner kind) (hbound : g.Bound owner name id) :
    g.WellFormedKind owner (kind.bind name id) := by
  cases kind with
  | «class» info =>
    refine ⟨fun entry hentry => ?_, h.attributes, NameTable.mem_names_insert h.self name id,
      h.priorBindings⟩
    rcases NameTable.mem_entries_insert hentry with rfl | hold
    · exact .inl hbound
    · exact h.members entry hold
  | function info =>
    intro entry hentry
    rcases NameTable.mem_entries_insert hentry with rfl | hold
    · exact hbound
    · exact h entry hold
  | «variable» => trivial
  | imported => trivial

theorem WellFormedKind.bindAttribute (h : g.WellFormedKind owner kind)
    (hbound : g.Bound owner name id) : g.WellFormedKind owner (kind.bindAttribute name id) := by
  cases kind with
  | «class» info =>
    refine ⟨h.members, fun entry hentry => ?_, h.self, h.priorBindings⟩
    rcases NameTable.mem_entries_insert hentry with rfl | hold
    · exact hbound
    · exact h.attributes entry hold
  | function info => exact h
  | «variable» => trivial
  | imported => trivial

theorem WellFormedKind.addOverload (h : g.WellFormedKind owner kind) (overload : Overload) :
    g.WellFormedKind owner (kind.addOverload overload) := by
  cases kind <;> exact h

theorem WellFormed.bind (h : g.WellFormed) (hbound : g.Bound owner name id) :
    (g.bind owner name id).WellFormed := by
  have hext : g.Extends (g.bind owner name id) := .bind g owner name id
  have hupdate : ∀ owner', g.Bound owner' name id →
      (g.update owner' (.bind name id)).WellFormed := fun owner' hbound' =>
    h.update (EntityKind.category_bind name id) fun e he => (h.kinds owner' e he).bind hbound'
  cases owner with
  | module =>
    refine h.grow hext (fun entry hentry => ?_) (fun _ e he => .inl ⟨e, he⟩)
      fun _ e he => .inl ⟨e, he, rfl⟩
    rcases NameTable.mem_entries_insert hentry with rfl | hold
    · exact .inr (hbound.mono hext)
    · exact .inl hold
  | unknown => exact hupdate .unknown hbound
  | declared index => exact hupdate (.declared index) hbound

/-- An entity that has just been added is what it was added as. -/
theorem bound_nextId (g : ModuleGraph) (e : Entity) : (g.push e).Bound e.parent e.name g.nextId := by
  obtain ⟨hname, hparent, -, -⟩ := views_of_entity? (entity?_nextId g e)
  exact ⟨inRange_of_entity? (entity?_nextId g e), hname, hparent⟩

theorem WellFormed.declare (h : g.WellFormed) (hrange : g.InRange e.parent)
    (hscope : (g.category e.parent).IsScope) (hkind : (g.push e).WellFormedKind g.nextId e.kind) :
    (g.declare e).WellFormed :=
  (h.push hrange hscope hkind).bind (bound_nextId g e)

/-! ### What a well-formed graph gives -/

/-- Scopes have tables. -/
theorem exists_table? (h : (g.category id).IsScope) : ∃ table, g.table? id = some table := by
  rcases exists_entity?_of_isScope h with rfl | ⟨e, he⟩
  · exact ⟨g.members, rfl⟩
  · obtain ⟨-, -, hcategory, htable⟩ := views_of_entity? he
    rw [hcategory] at h
    rw [htable]
    cases hkind : e.kind with
    | «class» info => exact ⟨info.members, rfl⟩
    | function info => exact ⟨info.locals, rfl⟩
    | _ => rw [hkind] at h; rcases h with h | h | h <;> cases h

/-- What a table lists is there: an entity of its scope, or the class that has the table. -/
theorem WellFormed.bound_of_get? (h : g.WellFormed) {table : NameTable EntityId}
    (htable : g.table? owner = some table) (hget : table.get? name = some id) :
    g.Bound owner name id ∨ name = "__class__" ∧ id = owner ∧ g.category owner = .type := by
  have hentry := NameTable.mem_entries_of_get? hget
  cases howner : owner with
  | module =>
    subst howner
    obtain rfl := Option.some.inj htable
    exact .inl (h.members _ hentry)
  | unknown =>
    subst howner
    cases htable
  | declared index =>
    subst howner
    obtain ⟨e, hdeclared, hkind⟩ := Option.bind_eq_some_iff.1 htable
    have he : g.entity? (.declared index) = some e := hdeclared
    have hwell := h.kinds (.declared index) e he
    obtain ⟨-, -, hcategory, -⟩ := views_of_entity? he
    rw [hcategory]
    cases hkind' : e.kind with
    | «class» info =>
      rw [hkind'] at hwell hkind
      obtain rfl := Option.some.inj hkind
      refine (hwell.members _ hentry).imp_right fun heq => ?_
      obtain ⟨rfl, rfl⟩ := Prod.mk.inj heq
      exact ⟨rfl, rfl, rfl⟩
    | function info =>
      rw [hkind'] at hwell hkind
      obtain rfl := Option.some.inj hkind
      exact .inl (hwell _ hentry)
    | _ => rw [hkind'] at hkind; cases hkind

theorem WellFormed.inRange_of_get? (h : g.WellFormed) {table : NameTable EntityId}
    (htable : g.table? owner = some table) (hget : table.get? name = some id) : g.InRange id := by
  rcases h.bound_of_get? htable hget with hbound | ⟨-, rfl, -⟩
  · exact hbound.inRange
  · exact inRange_of_table? htable

/-- A name that is visible from a scope leads to an entity of the graph. -/
theorem WellFormed.inRange_of_visible? (h : g.WellFormed) {scope : EntityId}
    (hvisible : g.visible? scope name = some id) : g.InRange id := by
  obtain ⟨outer, -, houter⟩ := List.exists_of_findSome?_eq_some hvisible
  split at houter
  · obtain ⟨table, htable, hget⟩ := Option.bind_eq_some_iff.1 houter
    exact h.inRange_of_get? htable hget
  · cases houter

/-- Going up from an entity to the entity around it and on, one arrives at the module; the list
    holds the entities on the way. -/
inductive Climbs (g : ModuleGraph) : EntityId → List EntityId → Prop
  | module : Climbs g .module [.module]
  | up {id parent : EntityId} {above : List EntityId} :
    g.parent? id = some parent → Climbs g parent above → Climbs g id (id :: above)

/-- The chain of an entity is the whole way up. -/
theorem WellFormed.climbs (h : g.WellFormed) (id : EntityId) (hid : g.InRange id) :
    g.Climbs id (g.chain id) := by
  induction hn : id.number using Nat.strongRecOn generalizing id with
  | ind n ih =>
    subst hn
    rcases exists_entity?_of_inRange hid with rfl | rfl | ⟨e, he⟩
    · rw [chain]
      exact .module
    · rw [chain]
      exact .up rfl (ih 0 Nat.zero_lt_one .module g.inRange_module rfl)
    · obtain ⟨-, hparent, -, -⟩ := views_of_entity? he
      obtain ⟨hless, -⟩ := h.parents id e he
      rw [chain, hparent]
      simp only [hless, if_true]
      exact .up hparent (ih _ hless e.parent (Nat.lt_trans hless hid) rfl)

theorem Climbs.inRange {above : List EntityId} (h : g.Climbs id above) :
    ∀ outer ∈ above, g.InRange outer := by
  induction h with
  | module => exact fun outer houter => List.mem_singleton.1 houter ▸ g.inRange_module
  | @up id _ _ hparent _ ih =>
    refine List.forall_mem_cons.2 ⟨?_, ih⟩
    cases id with
    | module => exact g.inRange_module
    | unknown => exact Nat.succ_lt_succ (Nat.zero_lt_succ _)
    | declared index =>
      obtain ⟨e, he, -⟩ := Option.map_eq_some_iff.1 hparent
      exact inRange_declared.2 (Array.getElem?_eq_some_iff.1 he).1

/-- Whoever looks at entities of the graph finds them: the module and the placeholder at their
    places, all others by their ids, and each by going up or by looking up names. -/
structure Intact (g : ModuleGraph) : Prop where
  wellFormed : g.WellFormed
  module : ∀ id, g.InRange id → (g.category id = .module ↔ id.number = 0)
  unknown : ∀ id, g.InRange id → (g.category id = .unknown ↔ id.number = 1)
  declared : ∀ id, g.InRange id → 1 < id.number → ∃ e, g.entity? id = some e
  climbs : ∀ id, g.InRange id →
    g.Climbs id (g.chain id) ∧ ∀ outer ∈ g.chain id, g.InRange outer
  visible : ∀ scope name id, g.visible? scope name = some id → g.InRange id

theorem category_ne_of_entity? (h : g.entity? id = some e) :
    g.category id ≠ .module ∧ g.category id ≠ .unknown := by
  rw [(views_of_entity? h).2.2.1]
  cases e.kind <;> exact ⟨nofun, nofun⟩

theorem WellFormed.intact (h : g.WellFormed) : g.Intact where
  wellFormed := h
  module id hid := by
    rcases exists_entity?_of_inRange hid with rfl | rfl | ⟨e, he⟩
    · exact iff_of_true rfl rfl
    · exact iff_of_false nofun nofun
    · exact iff_of_false (category_ne_of_entity? he).1
        (Nat.ne_of_gt (Nat.zero_lt_of_lt (h.parents id e he).1))
  unknown id hid := by
    rcases exists_entity?_of_inRange hid with rfl | rfl | ⟨e, he⟩
    · exact iff_of_false nofun nofun
    · exact iff_of_true rfl rfl
    · refine iff_of_false (category_ne_of_entity? he).2 fun hnumber => ?_
      obtain rfl : id = .unknown := EntityId.number_injective hnumber
      cases he
  declared id hid hnumber := by
    rcases exists_entity?_of_inRange hid with rfl | rfl | he
    · cases hnumber
    · exact absurd hnumber (Nat.lt_irrefl 1)
    · exact he
  climbs id hid := ⟨h.climbs id hid, (h.climbs id hid).inRange⟩
  visible _ _ _ hvisible := h.inRange_of_visible? hvisible

end ModuleGraph

/-! ### Graphs in the making -/

/-- The category of the entity that a declaration becomes. -/
def DeclarationKind.category : DeclarationKind → Category
  | .class _ => .type
  | .function _ => .function
  | .variable _ _ => .variable
  | .imported _ => .imported

namespace Assembly

open ModuleGraph

variable {graph : ModuleGraph} {a : Assembly} {ds : List Declaration} {d : Declaration}
  {id : EntityId}

/-- The graph is well formed, and each declaration has become an entity of its kind. -/
structure Sound (a : Assembly) (ds : List Declaration) : Prop where
  graph : a.graph.WellFormed
  tracks : a.Tracks ds
  category : ∀ (i : Nat) (d : Declaration) (id : EntityId), ds[i]? = some d →
    a.ids[i]? = some (some id) → a.graph.category id = d.kind.category

/-- What a declaration has become is an entity of the graph. -/
theorem Sound.inRange (h : a.Sound ds) {i : Nat} {id : EntityId} (hd : ds[i]? = some d)
    (hid : a.ids[i]? = some (some id)) : a.graph.InRange id := by
  refine inRange_of_category ?_
  rw [h.category i d id hd hid]
  cases d.kind <;> nofun

/-- The scope of a declaration is a scope of the graph. -/
theorem Sound.owner (h : a.Sound ds) {i : Nat} (hd : d.StandsIn ds i) :
    a.graph.InRange (a.owner d) ∧ (a.graph.category (a.owner d)).IsScope := by
  cases hparent : d.parent with
  | none =>
    have howner : a.owner d = .module := by rw [Assembly.owner, hparent]; rfl
    rw [howner]
    exact ⟨a.graph.inRange_module, .inl rfl⟩
  | some p =>
    obtain ⟨-, e, he, hscope, -⟩ := hd.inside p hparent
    obtain ⟨index, hindex⟩ := h.tracks.entity p e he (e.binds_of_isScope hscope)
    have hkind : e.kind.category = .type ∨ e.kind.category = .function := by
      cases hkind : e.kind with
      | «class» => exact .inl rfl
      | function => exact .inr rfl
      | _ => rw [hkind] at hscope; cases hscope
    rw [owner_of_parent hparent hindex]
    exact ⟨h.inRange he hindex, .inr (h.category p e _ he hindex ▸ hkind)⟩

/-- What a declaration makes leads to the right entities. -/
theorem Makes.wellFormedKind {kind : EntityKind} (h : a.Makes d kind) (hgraph : a.graph.WellFormed)
    (graph : ModuleGraph) : graph.WellFormedKind a.graph.nextId kind := by
  cases h with
  | @«class» shape =>
    have hself : (NameTable.empty.insert "__class__" a.graph.nextId).entries
        = [("__class__", a.graph.nextId)] := rfl
    refine ⟨fun entry hentry => .inr ?_, nofun, List.mem_singleton.2 rfl, ?_⟩
    · rw [classInfo, hself] at hentry
      exact List.mem_singleton.1 hentry
    · intro binding hbinding
      obtain ⟨base, -, hbase⟩ := List.mem_filterMap.1 hbinding
      obtain ⟨name, -, hname⟩ := Option.bind_eq_some_iff.1 hbase
      obtain ⟨id, hid, hbound⟩ := Option.bind_eq_some_iff.1 hname
      obtain rfl := Option.some.inj hbound
      exact hgraph.inRange_of_visible? hid
  | function => exact nofun
  | «variable» => trivial
  | imported => trivial

theorem Makes.category {kind : EntityKind} (h : a.Makes d kind) :
    kind.category = d.kind.category := by
  cases h with
  | «class» hkind => rw [hkind]; rfl
  | function _ hkind => rw [hkind]; rfl
  | «variable» hkind => rw [hkind]; rfl
  | imported hkind => rw [hkind]; rfl

/-- The graph stays well formed. -/
theorem Sound.wellFormed_place (h : a.Sound ds) (hd : d.StandsIn ds ds.length) :
    (a.place d).graph.WellFormed := by
  obtain ⟨hrange, hscope⟩ := h.owner hd
  have hstep := a.step_place d
  generalize a.place d = a' at hstep
  cases hstep with
  | new hmakes => exact h.graph.declare hrange hscope (hmakes.wellFormedKind h.graph _)
  | joined =>
    exact h.graph.update (EntityKind.category_addOverload _)
      fun e he => (h.graph.kinds _ e he).addOverload _
  | @«attribute» value =>
    have hpush : (a.graph.push ⟨d.name, d.span, a.owner d, .variable value⟩).WellFormed :=
      h.graph.push hrange hscope trivial
    exact hpush.update (EntityKind.category_bindAttribute _ _)
      fun e he => (hpush.kinds _ e he).bindAttribute (bound_nextId a.graph _)
  | star =>
    exact h.graph.grow (.withStarImports _ _) (fun _ hentry => .inl hentry)
      (fun _ e he => .inl ⟨e, he⟩)
      fun _ e he => .inl ⟨e, he, rfl⟩

/-- The entity that the last declaration has become is of its kind. -/
theorem category_place (hid : (a.place d).ids[a.ids.size]? = some (some id)) :
    (a.place d).graph.category id = d.kind.category := by
  have hstep := a.step_place d
  generalize a.place d = a' at hstep hid
  -- What has been noted last is what the step has noted.
  have hlast : ∀ {graph : ModuleGraph} {noted : Option EntityId},
      (a.placed graph noted).ids[a.ids.size]? = some (some id) → noted = some id := by
    intro graph noted hnoted
    rw [placed, Array.getElem?_push_size] at hnoted
    exact Option.some.inj hnoted
  cases hstep with
  | @new kind hmakes =>
    obtain rfl := Option.some.inj (hlast hid)
    obtain ⟨-, -, hcategory, -⟩ := views_of_entity? (entity?_nextId a.graph
      ⟨d.name, d.span, a.owner d, kind⟩)
    rw [← hmakes.category]
    exact ((Extends.bind _ _ _ _).views (bound_nextId a.graph _).inRange).2.2.trans hcategory
  | @joined _ id' hkind _ hfunction =>
    obtain rfl := Option.some.inj (hlast hid)
    have hrange : a.graph.InRange id' := inRange_of_category (by rw [hfunction]; decide)
    rw [hkind]
    exact ((Extends.update (EntityKind.category_addOverload _) _ _).views hrange).2.2.trans hfunction
  | «attribute» => cases hlast hid
  | star => cases hlast hid

theorem Sound.place (h : a.Sound ds) (hd : d.StandsIn ds ds.length) :
    (a.place d).Sound (ds ++ [d]) where
  graph := h.wellFormed_place hd
  tracks := h.tracks.place d
  category i e id he hid := by
    by_cases hi : i < ds.length
    · rw [List.getElem?_append_left hi] at he
      rw [getElem?_ids_place (h.tracks.size ▸ hi)] at hid
      rw [((Extends.place a d).views (h.inRange he hid)).2.2]
      exact h.category i e id he hid
    · obtain rfl : i = ds.length := by
        have := (List.getElem?_eq_some_iff.1 he).1
        rw [List.length_append, List.length_singleton] at this
        omega
      obtain rfl : d = e := Option.some.inj (List.getElem?_concat_length.symm.trans he)
      exact category_place (h.tracks.size ▸ hid)

/-- Placing declarations that nest is sound at every step. -/
theorem Sound.build (hgraph : graph.WellFormed) (hds : WellNested ds) :
    (build graph ds).Sound ds := by
  induction ds using List.reverseRecOn with
  | nil => exact ⟨hgraph, ⟨rfl, nofun⟩, nofun⟩
  | append_singleton ds d ih =>
    rw [build_concat]
    exact (ih hds.of_append).place hds.stands_last

theorem Sound.upTo (name : String) (path : Option String) (isPackage : Bool) (tree : SyntaxTree)
    (n : Nat) :
    (upTo name path isPackage tree n).Sound ((Outline.ofTree tree).declarations.take n) :=
  .build ⟨nofun, nofun, nofun⟩ ((Outline.wellNested_ofTree tree).take n)

end Assembly

/-- The graph of a module is well formed, and so is the graph in the making whenever a declaration
    is to be placed: no id leads nowhere, each way up ends at the module, and the declaration is
    placed in a scope of the graph, which has a table. -/
theorem ModuleGraph.wellFormed_ofTree (name : String) (path : Option String) (isPackage : Bool)
    (tree : SyntaxTree) :
    (ofTree name path isPackage tree).Intact
      ∧ ∀ (n : Nat) (d : Declaration), (Outline.ofTree tree).declarations[n]? = some d →
        let a := Assembly.upTo name path isPackage tree n
        a.graph.Intact ∧ a.graph.InRange (a.owner d)
          ∧ ∃ table, a.graph.table? (a.owner d) = some table := by
  refine ⟨?_, fun n d hd => ?_⟩
  · rw [← Assembly.graph_upTo_length]
    exact (Assembly.Sound.upTo name path isPackage tree _).graph.intact
  · have hsound := Assembly.Sound.upTo name path isPackage tree n
    obtain ⟨hrange, hscope⟩ := hsound.owner ((Outline.wellNested_ofTree tree).stands_take hd)
    exact ⟨hsound.graph.intact, hrange, exists_table? hscope⟩

end PyAtlas
