import Mathlib.Data.List.DropRight
import PyAtlas.Proofs.Module.WellFormed

/-!
# What names are bound to

The table of a scope lists the names that its declarations bind, in the order in which they are
first declared. What a name is bound to is decided by its declarations in that scope alone: it is
the entity that the last of them has become. A class, a variable or an import is an entity of its
own; a function is one entity with the functions of its name right before it.

This is an invariant of placing declarations. What a name is bound to is told by the declarations
that have become the entity, so that joining a function to others is seen in one place only.

## Key definitions
- `Assembly.boundIn`, `Assembly.named`: the declarations of a scope, and those of one name.
- `Assembly.became`: the declarations that have become an entity.
- `lastRun`: the declarations of a name that count.
- `Assembly.Made`: an entity tells what its declarations say.

## Key results
- `Bindings.new`, `Bindings.joined`, `Bindings.unbound`: how placing a declaration keeps the tables
  right.
- `ModuleGraph.bindings_ofTree`: what the tables of a module list.
-/

namespace PyAtlas

/-! ### The declarations that count -/

def DeclarationKind.isFunction : DeclarationKind → Bool
  | .function _ => true
  | _ => false

theorem DeclarationKind.isFunction_iff (kind : DeclarationKind) :
    kind.isFunction = true ↔ kind.category = .function := by
  cases kind <;> simp [isFunction, category]

/-- Of the declarations of a name, the last one, with the functions right before it if it is a
    function. -/
def lastRun (ds : List Declaration) : List Declaration :=
  match ds.getLast? with
  | none => []
  | some d => if d.kind.isFunction then ds.rtakeWhile (·.kind.isFunction) else [d]

section LastRun

variable {ds : List Declaration} {d : Declaration}

theorem lastRun_concat (ds : List Declaration) (d : Declaration) :
    lastRun (ds ++ [d]) =
      if d.kind.isFunction then ds.rtakeWhile (·.kind.isFunction) ++ [d] else [d] := by
  rw [lastRun, List.getLast?_concat]
  dsimp only
  split
  · rename_i h
    rw [List.rtakeWhile_concat, if_pos h]
  · rfl

theorem mem_of_mem_lastRun (h : d ∈ lastRun ds) : d ∈ ds := by
  induction ds using List.reverseRecOn with
  | nil => cases h
  | append_singleton ds last _ =>
    rw [lastRun_concat] at h
    split at h
    · rcases List.mem_append.1 h with hrun | hlast
      · exact List.mem_append_left _ ((List.rtakeWhile_suffix _ ds).subset hrun)
      · exact List.mem_append_right _ hlast
    · exact List.mem_append_right _ h

theorem mem_lastRun_concat (ds : List Declaration) (d : Declaration) :
    d ∈ lastRun (ds ++ [d]) := by
  rw [lastRun_concat]
  split
  · exact List.mem_append_right _ (List.mem_singleton.2 rfl)
  · exact List.mem_singleton.2 rfl

theorem lastRun_ne_nil (h : ds ≠ []) : lastRun ds ≠ [] := by
  induction ds using List.reverseRecOn with
  | nil => exact absurd rfl h
  | append_singleton ds d _ => exact List.ne_nil_of_mem (mem_lastRun_concat ds d)

/-- A function right behind functions adds to them. -/
theorem lastRun_concat_of_function (hd : d.kind.isFunction = true)
    (h : ∀ e ∈ lastRun ds, e.kind.isFunction = true) : lastRun (ds ++ [d]) = lastRun ds ++ [d] := by
  rw [lastRun_concat, if_pos hd]
  induction ds using List.reverseRecOn with
  | nil => rfl
  | append_singleton ds last _ =>
    have hlast := h last (mem_lastRun_concat ds last)
    rw [lastRun_concat, if_pos hlast, List.rtakeWhile_concat, if_pos hlast]

/-- Anything else starts anew. -/
theorem lastRun_concat_of_other
    (h : d.kind.isFunction = true → ∀ e ∈ lastRun ds, e.kind.isFunction ≠ true) :
    lastRun (ds ++ [d]) = [d] := by
  rw [lastRun_concat]
  split
  · rename_i hd
    induction ds using List.reverseRecOn with
    | nil => rfl
    | append_singleton ds last _ =>
      rw [List.rtakeWhile_concat, if_neg (h hd last (mem_lastRun_concat ds last))]
      rfl
  · rfl

end LastRun

/-! ### What entities are made of -/

/-- An entity of a module tells what its declarations say. -/
inductive EntityKind.MadeOf (module : String) (isPackage : Bool) :
    EntityKind → List Declaration → Prop
  | class {info : ClassInfo} {d : Declaration} : d.kind = .class info.shape →
    MadeOf module isPackage (.class info) [d]
  | function {info : FunctionInfo} {run : List Declaration} :
    run.map (fun d => (d.kind, d.span))
      = info.overloads.map (fun o => (.function o.signature, o.span)) →
    MadeOf module isPackage (.function info) run
  | variable {value : ValueKind} {d : Declaration} : d.kind = .variable value false →
    MadeOf module isPackage (.variable value) [d]
  | imported {ref : ImportRef} {d : Declaration} : d.kind = .imported ref →
    MadeOf module isPackage (.imported (.ofRef module isPackage ref)) [d]

namespace EntityKind.MadeOf

variable {module : String} {isPackage : Bool} {kind : EntityKind} {run : List Declaration}

/-- Names that are bound inside an entity do not matter for what the entity is. -/
theorem bind (h : kind.MadeOf module isPackage run) (name : String) (id : EntityId) :
    (kind.bind name id).MadeOf module isPackage run := by
  cases h with
  | «class» h => exact .class h
  | function h => exact .function h
  | «variable» h => exact .variable h
  | imported h => exact .imported h

theorem bindAttribute (h : kind.MadeOf module isPackage run) (name : String) (id : EntityId) :
    (kind.bindAttribute name id).MadeOf module isPackage run := by
  cases h with
  | «class» h => exact .class h
  | function h => exact .function h
  | «variable» h => exact .variable h
  | imported h => exact .imported h

theorem addOverload {signature : Signature} {d : Declaration}
    (h : kind.MadeOf module isPackage run) (hcategory : kind.category = .function)
    (hd : d.kind = .function signature) :
    (kind.addOverload ⟨signature, d.span⟩).MadeOf module isPackage (run ++ [d]) := by
  cases h with
  | function h =>
    refine .function ?_
    rw [List.map_append, List.map_append, h, List.map_singleton, hd]
    rfl
  | «class» => cases hcategory
  | «variable» => cases hcategory
  | imported => cases hcategory

end EntityKind.MadeOf

namespace ModuleGraph

variable {id : EntityId}

/-! ### Entities that stay what they are -/

/-- An entity of the first graph is in the second what the same declarations say. -/
def Keeps (g g' : ModuleGraph) (id : EntityId) : Prop :=
  ∀ e, g.entity? id = some e → ∃ e', g'.entity? id = some e' ∧ e.SameShape e'
    ∧ ∀ module isPackage run, e.kind.MadeOf module isPackage run →
      e'.kind.MadeOf module isPackage run

theorem keeps_of_eq {g g' : ModuleGraph} (h : g'.entity? id = g.entity? id) : Keeps g g' id :=
  fun e he => ⟨e, h.trans he, ⟨rfl, rfl, rfl, rfl⟩, fun _ _ _ h => h⟩

theorem Keeps.trans {g g' g'' : ModuleGraph} (h : Keeps g g' id) (h' : Keeps g' g'' id) :
    Keeps g g'' id := by
  intro e he
  obtain ⟨e', he', hshape, hmade⟩ := h e he
  obtain ⟨e'', he'', hshape', hmade'⟩ := h' e' he'
  exact ⟨e'', he'', hshape.trans hshape', fun m p run h => hmade' m p run (hmade m p run h)⟩

theorem keeps_push (g : ModuleGraph) (e : Entity) (id : EntityId) : Keeps g (g.push e) id := by
  intro e' he'
  refine ⟨e', ?_, ⟨rfl, rfl, rfl, rfl⟩, fun _ _ _ h => h⟩
  rw [entity?_push, if_neg (inRange_of_entity? he').ne_nextId, he']

theorem keeps_update {f : EntityKind → EntityKind} (hf : ∀ kind, (f kind).category = kind.category)
    (hmade : ∀ kind module isPackage run, kind.MadeOf module isPackage run →
      (f kind).MadeOf module isPackage run)
    (g : ModuleGraph) (owner id : EntityId) : Keeps g (g.update owner f) id := by
  intro e he
  rw [entity?_update, he]
  by_cases hid : id = owner
  · exact ⟨_, if_pos hid, ⟨rfl, rfl, rfl, hf e.kind⟩, hmade e.kind⟩
  · exact ⟨e, if_neg hid, ⟨rfl, rfl, rfl, rfl⟩, fun _ _ _ h => h⟩

theorem keeps_bind (g : ModuleGraph) (owner : EntityId) (name : String) (x id : EntityId) :
    Keeps g (g.bind owner name x) id := by
  have hupdate : ∀ owner', Keeps g (g.update owner' (.bind name x)) id :=
    fun owner' => keeps_update (EntityKind.category_bind name x)
      (fun _ _ _ _ h => h.bind name x) g owner' id
  cases owner with
  | module => exact keeps_of_eq (by cases id <;> rfl)
  | unknown => exact hupdate .unknown
  | declared index => exact hupdate (.declared index)

/-- The names that a scope has without any declaration. -/
def ownNames (g : ModuleGraph) (scope : EntityId) : List String :=
  if g.category scope = .type then ["__class__"] else []

end ModuleGraph

namespace Assembly

open ModuleGraph

variable {a a' : Assembly} {ds run : List Declaration} {d : Declaration} {graph : ModuleGraph}
  {noted : Option EntityId} {scope id : EntityId} {name : String} {e e' : Entity}

/-- An entity that declarations have become: it has their name, stands in their scope where the
    first of them does, and tells what they say. -/
structure Made (a : Assembly) (e : Entity) (run : List Declaration) : Prop where
  here : ∀ d ∈ run, a.owner d = e.parent ∧ d.name = e.name
  span : run.head?.map (·.span) = some e.span
  kind : e.kind.MadeOf a.graph.name a.graph.isPackage run

/-! ### The declarations of a scope -/

/-- The declarations that bind their names in a scope, in order. -/
def boundIn (a : Assembly) (ds : List Declaration) (scope : EntityId) : List Declaration :=
  ds.filter fun d => d.binds && a.owner d == scope

/-- The declarations of one name in a scope, in order. -/
def named (a : Assembly) (ds : List Declaration) (scope : EntityId) (name : String) :
    List Declaration :=
  (a.boundIn ds scope).filter (·.name == name)

/-- The declarations that have become an entity, in order. -/
def became (a : Assembly) (ds : List Declaration) (id : EntityId) : List Declaration :=
  ((ds.zip a.ids.toList).filter (·.2 == some id)).map Prod.fst

theorem mem_boundIn : d ∈ a.boundIn ds scope ↔ d ∈ ds ∧ d.binds = true ∧ a.owner d = scope := by
  rw [boundIn, List.mem_filter, Bool.and_eq_true, beq_iff_eq]

theorem mem_named :
    d ∈ a.named ds scope name ↔ d ∈ a.boundIn ds scope ∧ d.name = name := by
  rw [named, List.mem_filter, beq_iff_eq]

/-- Placing a declaration leaves it and those before it where they are. -/
theorem boundIn_placed (hds : WellNested (ds ++ [d])) (hsize : a.ids.size = ds.length) :
    (a.placed graph noted).boundIn (ds ++ [d]) scope = a.boundIn (ds ++ [d]) scope := by
  refine List.filter_congr fun e he => ?_
  obtain ⟨i, hi⟩ := List.mem_iff_getElem?.1 he
  have hless := (List.getElem?_eq_some_iff.1 hi).1
  rw [List.length_append, List.length_singleton] at hless
  rw [owner_placed (hds i e hi) (by omega) graph noted]

theorem boundIn_placed_self (hds : WellNested (ds ++ [d])) (hsize : a.ids.size = ds.length)
    (hbinds : d.binds = true) :
    (a.placed graph noted).boundIn (ds ++ [d]) (a.owner d) = a.boundIn ds (a.owner d) ++ [d] := by
  rw [boundIn_placed hds hsize, boundIn, List.filter_append, boundIn]
  simp [hbinds]

theorem boundIn_placed_other (hds : WellNested (ds ++ [d])) (hsize : a.ids.size = ds.length)
    (hother : d.binds = true → a.owner d ≠ scope) :
    (a.placed graph noted).boundIn (ds ++ [d]) scope = a.boundIn ds scope := by
  rw [boundIn_placed hds hsize, boundIn, List.filter_append, boundIn, List.append_right_eq_self]
  simpa using hother

theorem named_placed_self (hds : WellNested (ds ++ [d])) (hsize : a.ids.size = ds.length)
    (hbinds : d.binds = true) :
    (a.placed graph noted).named (ds ++ [d]) (a.owner d) d.name
      = a.named ds (a.owner d) d.name ++ [d] := by
  rw [named, boundIn_placed_self hds hsize hbinds, List.filter_append, named]
  simp

theorem named_placed_other (hds : WellNested (ds ++ [d])) (hsize : a.ids.size = ds.length)
    (hother : d.binds = true → a.owner d = scope → d.name ≠ name) :
    (a.placed graph noted).named (ds ++ [d]) scope name = a.named ds scope name := by
  by_cases hd : d.binds = true ∧ a.owner d = scope
  · obtain ⟨hbinds, rfl⟩ := hd
    rw [named, boundIn_placed_self hds hsize hbinds, List.filter_append, named,
      List.append_right_eq_self]
    simpa using hother hbinds rfl
  · rw [named, boundIn_placed_other hds hsize fun hbinds howner => hd ⟨hbinds, howner⟩, named]

/-- A scope in which nothing has the name does not have a declaration of the name placed in it. -/
theorem name_ne_of_named_placed (hds : WellNested (ds ++ [d])) (hsize : a.ids.size = ds.length)
    (hbinds : d.binds = true)
    (hnone : (a.placed graph noted).named (ds ++ [d]) (a.owner d) name = []) : d.name ≠ name := by
  rintro rfl
  rw [named_placed_self hds hsize hbinds] at hnone
  exact List.append_ne_nil_of_right_ne_nil _ (List.cons_ne_nil d []) hnone

/-! ### The declarations of an entity -/

theorem mem_became (h : d ∈ a.became ds id) :
    ∃ i : Nat, ds[i]? = some d ∧ a.ids[i]? = some (some id) := by
  obtain ⟨⟨e, found⟩, hmade, rfl⟩ := List.mem_map.1 h
  obtain ⟨hmem, hid⟩ := List.mem_filter.1 hmade
  obtain ⟨i, hi⟩ := List.mem_iff_getElem?.1 hmem
  obtain ⟨hd, hfound⟩ := List.getElem?_zip_eq_some.1 hi
  obtain rfl : found = some id := eq_of_beq hid
  exact ⟨i, hd, Array.getElem?_toList ▸ hfound⟩

theorem became_placed (hsize : a.ids.size = ds.length) :
    (a.placed graph noted).became (ds ++ [d]) id
      = a.became ds id ++ if noted = some id then [d] else [] := by
  rw [became, placed, Array.toList_push, List.zip_append (by simpa using hsize.symm),
    List.filter_append, List.map_append, became]
  by_cases h : noted = some id <;> simp [h]

/-- An entity that is yet to come is not what a declaration has become. -/
theorem Sound.became_nextId (h : a.Sound ds) : a.became ds a.graph.nextId = [] := by
  refine List.eq_nil_iff_forall_not_mem.2 fun d hd => ?_
  obtain ⟨i, hi, hid⟩ := mem_became hd
  exact (h.inRange hi hid).ne_nextId rfl

theorem Sound.category_of_mem_became (h : a.Sound ds) (hd : d ∈ a.became ds id) :
    a.graph.category id = d.kind.category := by
  obtain ⟨i, hi, hid⟩ := mem_became hd
  exact h.category i d id hi hid

/-- An entity that is kept is still what has become of its declarations. -/
theorem Made.keep (h : a.Made e run) (howner : ∀ d ∈ run, a'.owner d = a.owner d)
    (hext : a.graph.Extends a'.graph) (hshape : e.SameShape e')
    (hkind : ∀ module isPackage run, e.kind.MadeOf module isPackage run →
      e'.kind.MadeOf module isPackage run) : a'.Made e' run where
  here d hd := by
    rw [howner d hd, hshape.parent, hshape.name]
    exact h.here d hd
  span := by rw [hshape.span]; exact h.span
  kind := by
    rw [hext.name, hext.isPackage]
    exact hkind _ _ _ h.kind

/-! ### Tables -/

/-- The table of a scope lists the names of the declarations in the scope, and each name leads to
    what the declarations of the name that count have become. -/
structure Lists (a : Assembly) (ds : List Declaration) (scope : EntityId)
    (table : NameTable EntityId) : Prop where
  names : table.names = (a.graph.ownNames scope ++ (a.boundIn ds scope).map (·.name)).eraseDups
  last : ∀ name, a.named ds scope name ≠ [] →
    ∃ id, table.get? name = some id ∧ a.became ds id = lastRun (a.named ds scope name)
  /-- A class knows itself until its body says otherwise. -/
  self : a.graph.category scope = .type → a.named ds scope "__class__" = [] →
    table.get? "__class__" = some scope

/-- The tables of a graph list what is declared, and its entities are what is declared. -/
structure Bindings (a : Assembly) (ds : List Declaration) : Prop where
  tables : ∀ scope table, a.graph.table? scope = some table → a.Lists ds scope table
  made : ∀ id, a.became ds id ≠ [] →
    ∃ e, a.graph.entity? id = some e ∧ a.Made e (a.became ds id)

section Steps

variable {table : NameTable EntityId}

theorem eraseDups_concat (names : List String) (name : String) :
    (names ++ [name]).eraseDups
      = if name ∈ names then names.eraseDups else names.eraseDups ++ [name] := by
  rw [List.eraseDups_append, List.removeAll, List.filter_singleton]
  by_cases h : name ∈ names <;> simp [h, List.eraseDups_cons]

/-- The table of another scope stays right if what it leads to is left alone. -/
theorem Lists.keep (h : a.Lists ds scope table) (hds : WellNested (ds ++ [d]))
    (hsize : a.ids.size = ds.length) (hcategory : graph.category scope = a.graph.category scope)
    (hother : d.binds = true → a.owner d ≠ scope)
    (hnoted : ∀ name id, table.get? name = some id → noted ≠ some id) :
    (a.placed graph noted).Lists (ds ++ [d]) scope table := by
  have hnamed : ∀ name, (a.placed graph noted).named (ds ++ [d]) scope name
      = a.named ds scope name := fun name =>
    named_placed_other hds hsize fun hbinds howner => absurd howner (hother hbinds)
  refine ⟨?_, fun name hne => ?_, fun htype hnone => ?_⟩
  · rw [boundIn_placed_other hds hsize hother, h.names]
    simp only [ownNames, placed, hcategory]
  · rw [hnamed] at hne ⊢
    obtain ⟨id, hget, hbecame⟩ := h.last name hne
    refine ⟨id, hget, ?_⟩
    rw [became_placed hsize, if_neg (hnoted name id hget), List.append_nil, hbecame]
  · rw [hnamed] at hnone
    exact h.self (hcategory ▸ htype) hnone

/-- A new entity is what the name of its declaration is bound to. -/
theorem Lists.insert (h : a.Lists ds (a.owner d) table) (hds : WellNested (ds ++ [d]))
    (hsize : a.ids.size = ds.length)
    (hcategory : graph.category (a.owner d) = a.graph.category (a.owner d))
    (hbinds : d.binds = true) (hnew : a.became ds id = [])
    (hothers : ∀ name other, table.get? name = some other → id ≠ other)
    (hstarts : lastRun (a.named ds (a.owner d) d.name ++ [d]) = [d]) :
    (a.placed graph (some id)).Lists (ds ++ [d]) (a.owner d) (table.insert d.name id) := by
  refine ⟨?_, fun name hne => ?_, fun htype hnone => ?_⟩
  · rw [boundIn_placed_self hds hsize hbinds, List.map_append, List.map_singleton,
      ← List.append_assoc, eraseDups_concat, NameTable.names_insert, h.names]
    simp only [ownNames, List.mem_eraseDups, placed, hcategory]
  · by_cases hname : d.name = name
    · subst hname
      refine ⟨id, by rw [NameTable.get?_insert, if_pos rfl], ?_⟩
      rw [became_placed hsize, hnew, if_pos rfl, named_placed_self hds hsize hbinds, hstarts]
      rfl
    · rw [named_placed_other hds hsize fun _ _ => hname] at hne ⊢
      obtain ⟨other, hget, hbecame⟩ := h.last name hne
      refine ⟨other, by rw [NameTable.get?_insert, if_neg (Ne.symm hname), hget], ?_⟩
      rw [became_placed hsize, if_neg fun heq => hothers name other hget (Option.some.inj heq),
        List.append_nil, hbecame]
  · have hname := name_ne_of_named_placed hds hsize hbinds hnone
    rw [named_placed_other hds hsize fun _ _ => hname] at hnone
    rw [NameTable.get?_insert, if_neg (Ne.symm hname)]
    exact h.self (hcategory ▸ htype) hnone

/-- A function that joins others of its name is what the name stays bound to. -/
theorem Lists.join (h : a.Lists ds (a.owner d) table) (hds : WellNested (ds ++ [d]))
    (hsize : a.ids.size = ds.length)
    (hcategory : graph.category (a.owner d) = a.graph.category (a.owner d))
    (hbinds : d.binds = true) (hget : table.get? d.name = some id)
    (hothers : ∀ name, table.get? name = some id → name = d.name)
    (hsome : a.named ds (a.owner d) d.name ≠ [])
    (hjoins : lastRun (a.named ds (a.owner d) d.name ++ [d])
      = lastRun (a.named ds (a.owner d) d.name) ++ [d]) :
    (a.placed graph (some id)).Lists (ds ++ [d]) (a.owner d) table := by
  refine ⟨?_, fun name hne => ?_, fun htype hnone => ?_⟩
  · have hlisted : d.name ∈ table.names := NameTable.mem_names_iff.2 (by rw [hget]; rfl)
    rw [h.names, List.mem_eraseDups] at hlisted
    rw [boundIn_placed_self hds hsize hbinds, List.map_append, List.map_singleton,
      ← List.append_assoc, eraseDups_concat, h.names]
    simp only [ownNames] at hlisted
    simp only [ownNames, placed, hcategory, if_pos hlisted]
  · by_cases hname : d.name = name
    · subst hname
      obtain ⟨found, hfound, hbecame⟩ := h.last d.name hsome
      obtain rfl : id = found := Option.some.inj (hget.symm.trans hfound)
      refine ⟨id, hget, ?_⟩
      rw [became_placed hsize, if_pos rfl, named_placed_self hds hsize hbinds, hjoins, hbecame]
    · rw [named_placed_other hds hsize fun _ _ => hname] at hne ⊢
      obtain ⟨other, hother, hbecame⟩ := h.last name hne
      have hid : some id ≠ some other := by
        rintro ⟨⟩
        exact hname (hothers name hother).symm
      refine ⟨other, hother, ?_⟩
      rw [became_placed hsize, if_neg hid, List.append_nil, hbecame]
  · have hname := name_ne_of_named_placed hds hsize hbinds hnone
    rw [named_placed_other hds hsize fun _ _ => hname] at hnone
    exact h.self (hcategory ▸ htype) hnone

/-- What declarations have become stays right if the entity is kept and nothing joins it. -/
theorem Bindings.made_keep (h : a.Bindings ds) (hds : WellNested (ds ++ [d]))
    (hsize : a.ids.size = ds.length) (hext : a.graph.Extends graph)
    (hkeeps : Keeps a.graph graph id) (hnoted : noted ≠ some id)
    (hne : (a.placed graph noted).became (ds ++ [d]) id ≠ []) :
    ∃ e, graph.entity? id = some e
      ∧ (a.placed graph noted).Made e ((a.placed graph noted).became (ds ++ [d]) id) := by
  rw [became_placed hsize, if_neg hnoted, List.append_nil] at hne ⊢
  obtain ⟨e, he, hmade⟩ := h.made id hne
  obtain ⟨e', he', hshape, hkind⟩ := hkeeps e he
  refine ⟨e', he', hmade.keep (fun d hd => ?_) hext hshape hkind⟩
  obtain ⟨i, hi, -⟩ := mem_became hd
  exact owner_placed (hds.of_append i d hi)
    (hsize ▸ Nat.le_of_lt (List.getElem?_eq_some_iff.1 hi).1) graph noted

/-- A declaration that binds nothing changes no table. -/
theorem Bindings.unbound (h : a.Bindings ds) (hsound : a.Sound ds) (hds : WellNested (ds ++ [d]))
    (hext : a.graph.Extends graph) (hkeeps : ∀ id, Keeps a.graph graph id)
    (htables : ∀ scope table, graph.table? scope = some table →
      a.graph.table? scope = some table)
    (hbinds : d.binds = false) : (a.placed graph none).Bindings (ds ++ [d]) where
  tables scope table htable := by
    have hold := htables scope table htable
    refine (h.tables scope table hold).keep hds hsound.tracks.size
      (hext.views (inRange_of_table? hold)).2.2 (fun hd => ?_) nofun
    rw [hbinds] at hd
    cases hd
  made id hne :=
    h.made_keep hds hsound.tracks.size hext (hkeeps id) nofun hne

/-- A function is made anew only where its name is not bound to one. -/
theorem Makes.category_ne {kind : EntityKind} (h : a.Makes d kind)
    (hd : d.kind.isFunction = true) (htable : a.graph.table? (a.owner d) = some table)
    (hget : table.get? d.name = some id) : a.graph.category id ≠ .function := by
  cases h with
  | function _ _ hunbound => exact hunbound id (by rw [htable, Option.bind_some, hget])
  | «class» hkind => rw [hkind] at hd; cases hd
  | «variable» hkind => rw [hkind] at hd; cases hd
  | imported hkind => rw [hkind] at hd; cases hd

theorem Makes.madeOf {kind : EntityKind} (h : a.Makes d kind) :
    kind.MadeOf a.graph.name a.graph.isPackage [d] := by
  cases h with
  | «class» hkind => exact .class hkind
  | function _ hkind => exact .function (by rw [List.map_singleton, hkind]; rfl)
  | «variable» hkind => exact .variable hkind
  | imported hkind => exact .imported hkind

/-- No declaration stands in a scope that is yet to come. -/
theorem Sound.boundIn_nextId (h : a.Sound ds) (hds : WellNested (ds ++ [d])) :
    a.boundIn (ds ++ [d]) a.graph.nextId = [] := by
  refine List.eq_nil_iff_forall_not_mem.2 fun e he => ?_
  obtain ⟨hmem, -, howner⟩ := mem_boundIn.1 he
  have hrange : a.graph.InRange (a.owner e) := by
    rcases List.mem_append.1 hmem with hbefore | hlast
    · obtain ⟨i, hi⟩ := List.mem_iff_getElem?.1 hbefore
      exact (h.owner (hds.of_append i e hi)).1
    · obtain rfl := List.mem_singleton.1 hlast
      exact (h.owner hds.stands_last).1
  exact hrange.ne_nextId howner

/-- The table of a new entity lists at most the entity itself. -/
theorem Makes.lists {kind : EntityKind} (h : a.Makes d kind)
    (hbound : (a.placed graph noted).boundIn ds a.graph.nextId = [])
    (hcategory : graph.category a.graph.nextId = kind.category) (htable : kind.table? = some table) :
    (a.placed graph noted).Lists ds a.graph.nextId table := by
  refine ⟨?_, fun name hne => ?_, fun htype _ => ?_⟩
  · rw [hbound, ownNames]
    show table.names = ((if graph.category a.graph.nextId = .type then _ else _) ++ []).eraseDups
    rw [hcategory]
    cases h with
    | «class» => obtain rfl := Option.some.inj htable; rfl
    | function => obtain rfl := Option.some.inj htable; rfl
    | «variable» => cases htable
    | imported => cases htable
  · rw [named, hbound] at hne
    exact absurd rfl hne
  · have htype' : kind.category = .type := hcategory.symm.trans htype
    cases h with
    | @«class» shape =>
      obtain rfl := Option.some.inj htable
      show (NameTable.empty.insert "__class__" a.graph.nextId).get? "__class__" = _
      rw [NameTable.get?_insert, if_pos rfl]
    | function => cases htype'
    | «variable» => cases htype'
    | imported => cases htype'

/-- What makes a new entity starts a new run: a function would join the functions of its name. -/
theorem Bindings.starts {kind : EntityKind} (h : a.Bindings ds) (hsound : a.Sound ds)
    (hmakes : a.Makes d kind) (htable : a.graph.table? (a.owner d) = some table) :
    lastRun (a.named ds (a.owner d) d.name ++ [d]) = [d] := by
  refine lastRun_concat_of_other fun hd e he hfunction => ?_
  have hne : a.named ds (a.owner d) d.name ≠ [] := List.ne_nil_of_mem (mem_of_mem_lastRun he)
  obtain ⟨id, hget, hbecame⟩ := (h.tables _ table htable).last d.name hne
  refine hmakes.category_ne hd htable hget ?_
  rw [hsound.category_of_mem_became (hbecame ▸ he)]
  exact (DeclarationKind.isFunction_iff _).1 hfunction

/-- The tables after a new entity. -/
theorem Bindings.lists_new {kind : EntityKind} (h : a.Bindings ds) (hsound : a.Sound ds)
    (hds : WellNested (ds ++ [d])) (hmakes : a.Makes d kind) (hbinds : d.binds = true)
    (htable : (a.placeNew d kind).graph.table? scope = some table) :
    (a.placeNew d kind).Lists (ds ++ [d]) scope table := by
  have hsize := hsound.tracks.size
  have hrange := (hsound.owner hds.stands_last).1
  have hext : a.graph.Extends (a.placeNew d kind).graph := .declare _ _
  -- A new id is in none of the tables so far.
  have hfresh : ∀ scope table name id, a.graph.table? scope = some table →
      table.get? name = some id → a.graph.nextId ≠ id := fun _ _ _ _ htable hget =>
    (hsound.graph.inRange_of_get? htable hget).ne_nextId.symm
  have hview := (table?_declare hrange scope).symm.trans htable
  by_cases hnew : scope = a.graph.nextId
  · subst hnew
    rw [if_pos rfl] at hview
    refine hmakes.lists ?_ (views_of_entity? (entity?_declare_nextId hrange)).2.2.1 hview
    rw [boundIn_placed hds hsize, hsound.boundIn_nextId hds]
  · rw [if_neg hnew] at hview
    by_cases hscope : scope = a.owner d
    · subst hscope
      rw [if_pos rfl] at hview
      obtain ⟨old, hold, rfl⟩ := Option.map_eq_some_iff.1 hview
      exact (h.tables _ old hold).insert hds hsize (hext.views (inRange_of_table? hold)).2.2 hbinds
        hsound.became_nextId (fun name other hget => hfresh _ old name other hold hget)
        (h.starts hsound hmakes hold)
    · rw [if_neg hscope] at hview
      refine (h.tables scope table hview).keep hds hsize
        (hext.views (inRange_of_table? hview)).2.2 (fun _ => Ne.symm hscope)
        fun name id hget heq => ?_
      exact hfresh scope table name id hview hget (Option.some.inj heq)

/-- A new entity is what its declaration says. -/
theorem Bindings.made_new {kind : EntityKind} (hsound : a.Sound ds) (hds : WellNested (ds ++ [d]))
    (hmakes : a.Makes d kind) :
    ∃ e, (a.placeNew d kind).graph.entity? a.graph.nextId = some e
      ∧ (a.placeNew d kind).Made e ((a.placeNew d kind).became (ds ++ [d]) a.graph.nextId) := by
  have hsize := hsound.tracks.size
  have hext : a.graph.Extends (a.placeNew d kind).graph := .declare _ _
  have hbecame : (a.placeNew d kind).became (ds ++ [d]) a.graph.nextId = [d] := by
    rw [placeNew, became_placed hsize, if_pos rfl, hsound.became_nextId, List.nil_append]
  rw [hbecame]
  refine ⟨⟨d.name, d.span, a.owner d, kind⟩,
    entity?_declare_nextId (hsound.owner hds.stands_last).1, fun e he => ?_, rfl, ?_⟩
  · obtain rfl := List.mem_singleton.1 he
    exact ⟨owner_placed hds.stands_last (Nat.le_of_eq hsize.symm) _ _, rfl⟩
  · rw [hext.name, hext.isPackage]
    exact hmakes.madeOf

theorem Bindings.new {kind : EntityKind} (h : a.Bindings ds) (hsound : a.Sound ds)
    (hds : WellNested (ds ++ [d])) (hmakes : a.Makes d kind) (hbinds : d.binds = true) :
    (a.placeNew d kind).Bindings (ds ++ [d]) where
  tables _ _ htable := h.lists_new hsound hds hmakes hbinds htable
  made id hne := by
    by_cases hid : some a.graph.nextId = some id
    · obtain rfl := Option.some.inj hid
      exact made_new hsound hds hmakes
    · exact h.made_keep hds hsound.tracks.size (.declare _ _)
        ((keeps_push _ _ id).trans (keeps_bind _ _ _ _ id)) hid hne

/-- A function that a table leads to is one of its scope: only classes know themselves. -/
theorem Sound.bound_of_function (h : a.Sound ds) (htable : a.graph.table? scope = some table)
    (hget : table.get? name = some id) (hcategory : a.graph.category id = .function) :
    a.graph.Bound scope name id := by
  rcases h.graph.bound_of_get? htable hget with hbound | ⟨-, rfl, htype⟩
  · exact hbound
  · rw [hcategory] at htype
    cases htype

/-- So it comes from declarations of the name. -/
theorem Bindings.named_ne_nil (h : a.Bindings ds) (htable : a.graph.table? scope = some table)
    (hget : table.get? name = some id) (hcategory : a.graph.category id = .function) :
    a.named ds scope name ≠ [] := by
  intro hnone
  have hlists := h.tables scope table htable
  have hlisted : name ∈ table.names := NameTable.mem_names_iff.2 (by rw [hget]; rfl)
  rw [hlists.names, List.mem_eraseDups] at hlisted
  rcases List.mem_append.1 hlisted with hown | hdeclared
  · rw [ownNames] at hown
    split at hown
    · rename_i htype
      obtain rfl := List.mem_singleton.1 hown
      obtain rfl := Option.some.inj ((hlists.self htype hnone).symm.trans hget)
      rw [hcategory] at htype
      cases htype
    · cases hown
  · obtain ⟨e, he, hname⟩ := List.mem_map.1 hdeclared
    exact List.ne_nil_of_mem (mem_named.2 ⟨he, hname⟩) hnone

/-- A function that joins others is one more definition of the entity. -/
theorem Bindings.made_join {signature : Signature} (h : a.Bindings ds)
    (hds : WellNested (ds ++ [d])) (hsize : a.ids.size = ds.length)
    (hkind : d.kind = .function signature) (hbound : a.graph.Bound (a.owner d) d.name id)
    (hcategory : a.graph.category id = .function) (hne : a.became ds id ≠ []) :
    let a' := a.placed (a.graph.update id (.addOverload ⟨signature, d.span⟩)) (some id)
    ∃ e, a'.graph.entity? id = some e ∧ a'.Made e (a'.became (ds ++ [d]) id) := by
  obtain ⟨e, he, hmade⟩ := h.made id hne
  obtain ⟨hname, hparent, hkindOf, -⟩ := views_of_entity? he
  have hext : a.graph.Extends (a.graph.update id (.addOverload ⟨signature, d.span⟩)) :=
    .update (EntityKind.category_addOverload _) _ _
  refine ⟨{ e with kind := e.kind.addOverload ⟨signature, d.span⟩ }, ?_, ?_⟩
  · show (a.graph.update id _).entity? id = _
    rw [entity?_update, if_pos rfl, he]
    rfl
  · rw [became_placed hsize, if_pos rfl]
    refine ⟨fun d' hd' => ?_, ?_, ?_⟩
    · rcases List.mem_append.1 hd' with hbefore | hlast
      · obtain ⟨i, hi, -⟩ := mem_became hbefore
        rw [owner_placed (hds.of_append i d' hi)
          (hsize ▸ Nat.le_of_lt (List.getElem?_eq_some_iff.1 hi).1)]
        exact hmade.here d' hbefore
      · obtain rfl := List.mem_singleton.1 hlast
        rw [owner_placed (hds.stands_last) (Nat.le_of_eq hsize.symm)]
        exact ⟨Option.some.inj (hbound.parent.symm.trans hparent), hbound.name.symm.trans hname⟩
    · rw [List.head?_append_of_ne_nil _ hne]
      exact hmade.span
    · show EntityKind.MadeOf (a.graph.update id _).name (a.graph.update id _).isPackage _ _
      rw [hext.name, hext.isPackage]
      exact hmade.kind.addOverload (hkindOf.symm.trans hcategory) hkind

/-- The entity that a function joins has become what the last declarations of the name say. -/
theorem Bindings.became_of_get? (h : a.Bindings ds) (htable : a.graph.table? scope = some table)
    (hget : table.get? name = some id) (hsome : a.named ds scope name ≠ []) :
    a.became ds id = lastRun (a.named ds scope name) := by
  obtain ⟨found, hfound, hbecame⟩ := (h.tables scope table htable).last name hsome
  obtain rfl : id = found := Option.some.inj (hget.symm.trans hfound)
  exact hbecame

/-- The tables after a function that joins the functions of its name. -/
theorem Bindings.lists_joined {other : NameTable EntityId} (h : a.Bindings ds) (hsound : a.Sound ds)
    (hds : WellNested (ds ++ [d])) (hbinds : d.binds = true)
    (hfunction : d.kind.isFunction = true) (hext : a.graph.Extends graph)
    (htable : a.graph.table? (a.owner d) = some table)
    (hget : table.get? d.name = some id) (hcategory : a.graph.category id = .function)
    (hother : a.graph.table? scope = some other) :
    (a.placed graph (some id)).Lists (ds ++ [d]) scope other := by
  have hsize := hsound.tracks.size
  have hbound := hsound.bound_of_function htable hget hcategory
  by_cases hscope : scope = a.owner d
  · subst hscope
    obtain rfl : table = other := Option.some.inj (htable.symm.trans hother)
    have hsome := h.named_ne_nil htable hget hcategory
    have hbecame := h.became_of_get? htable hget hsome
    refine (h.tables _ table htable).join hds hsize (hext.views (inRange_of_table? htable)).2.2
      hbinds hget (fun name hname => ?_) hsome
      (lastRun_concat_of_function hfunction fun e he => ?_)
    · exact (hsound.bound_of_function htable hname hcategory).name.symm.trans hbound.name
    · rw [DeclarationKind.isFunction_iff, ← hsound.category_of_mem_became (hbecame ▸ he), hcategory]
  · refine (h.tables scope other hother).keep hds hsize
      (hext.views (inRange_of_table? hother)).2.2 (fun _ => Ne.symm hscope) ?_
    rintro name id' hname ⟨⟩
    have hparent := (hsound.bound_of_function hother hname hcategory).parent
    exact hscope (Option.some.inj (hparent.symm.trans hbound.parent))

/-- A function that joins the functions of its name. -/
theorem Bindings.joined {signature : Signature} (h : a.Bindings ds) (hsound : a.Sound ds)
    (hds : WellNested (ds ++ [d])) (hkind : d.kind = .function signature)
    (hget : (a.graph.table? (a.owner d)).bind (·.get? d.name) = some id)
    (hcategory : a.graph.category id = .function) :
    (a.placed (a.graph.update id (.addOverload ⟨signature, d.span⟩)) (some id)).Bindings
      (ds ++ [d]) := by
  have hsize := hsound.tracks.size
  have hfunction : d.kind.isFunction = true := by rw [hkind]; rfl
  obtain ⟨table, htable, hget⟩ := Option.bind_eq_some_iff.1 hget
  have hext : a.graph.Extends (a.graph.update id (.addOverload ⟨signature, d.span⟩)) :=
    .update (EntityKind.category_addOverload _) _ _
  have htables : ∀ scope, (a.graph.update id (.addOverload ⟨signature, d.span⟩)).table? scope
      = a.graph.table? scope := table?_update (fun kind => by cases kind <;> rfl) _ _
  constructor
  case tables =>
    intro scope other hother
    have hbinds : d.binds = true := d.binds_of_isScope (by rw [hkind]; rfl)
    exact h.lists_joined hsound hds hbinds hfunction hext htable hget hcategory
      ((htables scope).symm.trans hother)
  case made =>
    intro id' hne
    by_cases hid : some id = some id'
    · obtain rfl := Option.some.inj hid
      have hsome := h.named_ne_nil htable hget hcategory
      refine h.made_join hds hsize hkind (hsound.bound_of_function htable hget hcategory)
        hcategory ?_
      rw [h.became_of_get? htable hget hsome]
      exact lastRun_ne_nil hsome
    · refine h.made_keep hds hsize hext (keeps_of_eq ?_) hid hne
      show (a.graph.update id _).entity? id' = _
      rw [entity?_update, if_neg fun heq => hid (congrArg some heq.symm)]

/-- Placing a declaration keeps the tables right. -/
theorem Bindings.place (h : a.Bindings ds) (hsound : a.Sound ds) (hds : WellNested (ds ++ [d])) :
    (a.place d).Bindings (ds ++ [d]) := by
  have hstep := a.step_place d
  generalize a.place d = a' at hstep
  cases hstep with
  | new hmakes hbinds => exact h.new hsound hds hmakes hbinds
  | joined hkind hget hcategory => exact h.joined hsound hds hkind hget hcategory
  | @«attribute» value hkind =>
    refine h.unbound hsound hds ?_ (fun id => ?_) (fun scope table htable => ?_) ?_
    · exact (Extends.push _ _).trans (.update (EntityKind.category_bindAttribute _ _) _ _)
    · exact (keeps_push _ _ id).trans (keeps_update (EntityKind.category_bindAttribute _ _)
        (fun _ _ _ _ h => h.bindAttribute _ _) _ _ id)
    · rw [table?_update (fun kind => by cases kind <;> rfl), table?_push] at htable
      split at htable
      · cases htable
      · exact htable
    · rw [Declaration.binds, hkind]
  | star starImports _ hbinds =>
    exact h.unbound hsound hds (.withStarImports _ _) (fun id => keeps_of_eq (by cases id <;> rfl))
      (fun scope _ htable => by cases scope <;> exact htable) hbinds

end Steps

/-- The tables are right after every declaration. -/
theorem Bindings.build (hgraph : graph.WellFormed) (hmembers : graph.members = .empty)
    (hdeclared : graph.declared = #[]) (hds : WellNested ds) : (build graph ds).Bindings ds := by
  induction ds using List.reverseRecOn with
  | nil =>
    refine ⟨fun scope table htable => ?_, fun id hne => absurd rfl hne⟩
    have hnone : ∀ id, graph.entity? id = none := by
      intro id
      cases id with
      | declared index => simp [entity?, hdeclared]
      | _ => rfl
    cases scope with
    | module =>
      obtain rfl := Option.some.inj htable
      refine ⟨?_, fun _ hne => absurd rfl hne, fun htype => by cases htype⟩
      rw [build_nil]
      simp [hmembers, ownNames, category, boundIn]
    | unknown => cases htable
    | declared index =>
      obtain ⟨e, he, -⟩ := Option.bind_eq_some_iff.1 htable
      cases (hnone (.declared index)).symm.trans he
  | append_singleton ds d ih =>
    rw [build_concat]
    exact (ih hds.of_append).place (.build hgraph hds.of_append) hds

theorem Bindings.upTo (name : String) (path : Option String) (isPackage : Bool) (tree : SyntaxTree)
    (n : Nat) :
    (upTo name path isPackage tree n).Bindings ((Outline.ofTree tree).declarations.take n) :=
  .build ⟨nofun, nofun, nofun⟩ rfl rfl ((Outline.wellNested_ofTree tree).take n)

end Assembly

/-- The tables of a module list the names that the declarations of each scope bind, in the order of
    their first declarations, behind `__class__` in a class. Each name is bound to the entity that
    the last of its declarations in the scope has become, together with the functions right before
    it if it is a function and with no other declaration. -/
theorem ModuleGraph.bindings_ofTree (name : String) (path : Option String) (isPackage : Bool)
    (tree : SyntaxTree) :
    let ds := (Outline.ofTree tree).declarations
    let a := Assembly.upTo name path isPackage tree ds.length
    a.graph = ofTree name path isPackage tree
      ∧ ∀ scope table, a.graph.table? scope = some table →
        table.names = (a.graph.ownNames scope ++ (a.boundIn ds scope).map (·.name)).eraseDups
          ∧ (∀ n, a.named ds scope n ≠ [] → ∃ id e, table.get? n = some id
            ∧ a.graph.entity? id = some e ∧ e.name = n ∧ e.parent = scope
            ∧ a.became ds id = lastRun (a.named ds scope n)
            ∧ a.Made e (lastRun (a.named ds scope n)))
          ∧ (a.graph.category scope = .type → a.named ds scope "__class__" = [] →
            table.get? "__class__" = some scope) := by
  intro ds a
  have hbindings : a.Bindings ds := by
    have := Assembly.Bindings.upTo name path isPackage tree ds.length
    rwa [List.take_length] at this
  refine ⟨Assembly.graph_upTo_length name path isPackage tree, fun scope table htable => ?_⟩
  have hlists := hbindings.tables scope table htable
  refine ⟨hlists.names, fun n hne => ?_, hlists.self⟩
  obtain ⟨id, hget, hbecame⟩ := hlists.last n hne
  have hrun := lastRun_ne_nil hne
  obtain ⟨e, he, hmade⟩ := hbindings.made id (hbecame ▸ hrun)
  rw [hbecame] at hmade
  -- Any of the declarations tells the name and the scope of the entity.
  obtain ⟨d, hd⟩ := List.exists_mem_of_ne_nil _ hrun
  obtain ⟨hhere, hname⟩ := hmade.here d hd
  obtain ⟨hmem, hn⟩ := Assembly.mem_named.1 (mem_of_mem_lastRun hd)
  exact ⟨id, e, hget, he, hname.symm.trans hn, hhere.symm.trans (Assembly.mem_boundIn.1 hmem).2.2,
    hbecame, hmade⟩

end PyAtlas
