import Mathlib.Data.List.Induction
import PyAtlas.Module.Build
import PyAtlas.Proofs.Declaration.Nesting

/-!
# Placing declarations

A graph grows by one declaration after the other. `Assembly.Step` lists all that placing one can
do: make a new entity, add a definition to a function, set an attribute of a class, or note a star
import. What holds of each of these holds of every graph.

The first such fact is about scopes. The class or function around a declaration comes before it, so
it is an entity by the time the declaration is placed.

## Key definitions
- `Assembly.build`, `Assembly.upTo`: the assembly after some declarations.
- `Assembly.Step`: what placing a declaration does.

## Key results
- `Assembly.step_place`: placing a declaration does one of these things.
- `Assembly.Tracks.build`: each class and each function becomes an entity.
- `Outline.declarations_nest`: the declarations of an outline nest, and each is placed in the entity
  of the class or function around it.
-/

namespace PyAtlas

/-- A declaration binds its name in the scope that it stands in: attributes of instances and star
    imports do not. -/
def Declaration.binds (d : Declaration) : Bool :=
  match d.kind with
  | .variable _ true | .imported (.star _ _) => false
  | _ => true

/-- Classes and functions bind their names. -/
theorem Declaration.binds_of_isScope (d : Declaration) (h : d.kind.isScope = true) :
    d.binds = true := by
  obtain ⟨kind, name, span, parent, path⟩ := d
  cases kind <;> first | rfl | cases h

namespace Assembly

variable {graph : ModuleGraph} {a : Assembly} {ds : List Declaration} {d : Declaration}

/-! ### One declaration -/

/-- The kind of the entity that is made of a declaration. A function is made anew only where its
    name is not bound to a function. -/
inductive Makes (a : Assembly) (d : Declaration) : EntityKind → Prop
  | class {shape : ClassShape} : d.kind = .class shape → Makes a d (.class (a.classInfo d shape))
  | function {signature : Signature} (scope : FunctionScope) : d.kind = .function signature →
    (∀ id, (a.graph.table? (a.owner d)).bind (·.get? d.name) = some id →
      a.graph.category id ≠ .function) →
    Makes a d (.function ⟨[⟨signature, d.span⟩], scope, .empty⟩)
  | variable {value : ValueKind} : d.kind = .variable value false → Makes a d (.variable value)
  | imported {ref : ImportRef} : d.kind = .imported ref → d.binds = true →
    Makes a d (.imported (.ofRef a.graph.name a.graph.isPackage ref))

/-- What placing a declaration does. -/
inductive Step (a : Assembly) (d : Declaration) : Assembly → Prop
  | new {kind : EntityKind} : a.Makes d kind → d.binds = true → Step a d (a.placeNew d kind)
  | joined {signature : Signature} {id : EntityId} : d.kind = .function signature →
    (a.graph.table? (a.owner d)).bind (·.get? d.name) = some id →
    a.graph.category id = .function →
    Step a d (a.placed (a.graph.update id (.addOverload ⟨signature, d.span⟩)) (some id))
  | attribute {value : ValueKind} : d.kind = .variable value true →
    a.graph.category (a.owner d) = .type →
    Step a d (a.placed ((a.graph.push ⟨d.name, d.span, a.owner d, .variable value⟩).update
      (a.owner d) (.bindAttribute d.name a.graph.nextId)) none)
  /-- Only star imports of the module itself are noted. -/
  | star (starImports : List ImportTarget) : d.kind.isScope = false → d.binds = false →
    Step a d (a.placed { a.graph with starImports := starImports } none)

theorem step_place (a : Assembly) (d : Declaration) : a.Step d (a.place d) := by
  obtain ⟨kind, name, span, parent, path⟩ := d
  cases kind with
  | «class» shape => exact .new (.class rfl) rfl
  | function signature =>
    show a.Step _ (a.placeFunction _ signature)
    unfold placeFunction
    dsimp only
    split
    · rename_i id hpresent
      obtain ⟨hbound, hfunction⟩ := Option.filter_eq_some_iff.1 hpresent
      exact .joined rfl hbound (eq_of_beq hfunction)
    · rename_i hpresent
      -- No function is bound to the name, so this is the first of its overloads.
      refine .new (.function _ rfl fun id hbound hfunction => ?_) rfl
      have := Option.filter_eq_none_iff.1 hpresent id hbound
      exact this (beq_iff_eq.2 hfunction)
  | «variable» value onInstance =>
    cases onInstance with
    | false => exact .new (.variable rfl) rfl
    | true =>
      show a.Step _ (a.placeAttribute _ value)
      unfold placeAttribute
      dsimp only
      split
      · rename_i hclass
        exact .attribute rfl hclass
      · exact .star a.graph.starImports rfl rfl
  | imported ref =>
    cases ref with
    | star module level =>
      show a.Step _ (a.placeStar _ _)
      rw [placeStar]
      split
      · exact .star _ rfl rfl
      · exact .star a.graph.starImports rfl rfl
    | module target => exact .new (.imported rfl rfl) rfl
    | member module level taken => exact .new (.imported rfl rfl) rfl

/-- Placing a declaration notes what it has become, which is a declared entity if it binds its
    name. -/
theorem exists_ids_place (a : Assembly) (d : Declaration) :
    ∃ id, (a.place d).ids = a.ids.push id
      ∧ (d.binds = true → ∃ index, id = some (.declared index)) := by
  have hstep := a.step_place d
  generalize a.place d = a' at hstep
  cases hstep with
  | new => exact ⟨_, rfl, fun _ => ⟨_, rfl⟩⟩
  | @joined _ id _ _ hfunction =>
    refine ⟨some id, rfl, fun _ => ?_⟩
    cases id with
    | module => cases hfunction
    | unknown => cases hfunction
    | declared index => exact ⟨index, rfl⟩
  | «attribute» hkind =>
    refine ⟨none, rfl, fun hbinds => ?_⟩
    rw [Declaration.binds, hkind] at hbinds
    cases hbinds
  | star _ _ hbinds => exact ⟨none, rfl, fun h => by rw [h] at hbinds; cases hbinds⟩

/-! ### All declarations -/

/-- The assembly after some declarations, on a graph that declares nothing yet. -/
def build (graph : ModuleGraph) (ds : List Declaration) : Assembly :=
  ds.foldl place ⟨graph, #[]⟩

@[simp] theorem build_nil (graph : ModuleGraph) : build graph [] = ⟨graph, #[]⟩ := rfl

@[simp] theorem build_concat (graph : ModuleGraph) (ds : List Declaration) (d : Declaration) :
    build graph (ds ++ [d]) = (build graph ds).place d := by
  rw [build, List.foldl_append]
  rfl

/-- The graph of a module in the making, when the first `n` of its declarations are placed. -/
def upTo (name : String) (path : Option String) (isPackage : Bool) (tree : SyntaxTree) (n : Nat) :
    Assembly :=
  let outline := Outline.ofTree tree
  let graph := { ModuleGraph.bare name tree.version with
    path := path
    isPackage := isPackage
    doc := outline.doc
    exports := outline.exports
    errors := outline.errors }
  build graph (outline.declarations.take n)

/-- The graph of a module is done when all declarations are placed. -/
theorem graph_upTo_length (name : String) (path : Option String) (isPackage : Bool)
    (tree : SyntaxTree) :
    (upTo name path isPackage tree (Outline.ofTree tree).declarations.length).graph
      = ModuleGraph.ofTree name path isPackage tree := by
  rw [upTo, List.take_length]
  rfl

/-- For each declaration it is noted what it has become. -/
structure Tracks (a : Assembly) (ds : List Declaration) : Prop where
  size : a.ids.size = ds.length
  entity : ∀ (i : Nat) (d : Declaration), ds[i]? = some d → d.binds = true →
    ∃ index, a.ids[i]? = some (some (.declared index))

theorem Tracks.place (h : a.Tracks ds) (d : Declaration) : (a.place d).Tracks (ds ++ [d]) := by
  obtain ⟨id, hids, hdeclared⟩ := a.exists_ids_place d
  refine ⟨by rw [hids, Array.size_push, h.size, List.length_append, List.length_singleton], ?_⟩
  intro i e he hbinds
  rw [hids, Array.getElem?_push, h.size]
  by_cases hi : i = ds.length
  · subst hi
    obtain rfl : d = e := Option.some.inj (List.getElem?_concat_length.symm.trans he)
    obtain ⟨index, rfl⟩ := hdeclared hbinds
    exact ⟨index, if_pos rfl⟩
  · have hless : i < ds.length := by
      have := (List.getElem?_eq_some_iff.1 he).1
      rw [List.length_append, List.length_singleton] at this
      omega
    rw [List.getElem?_append_left hless] at he
    rw [if_neg hi]
    exact h.entity i e he hbinds

theorem Tracks.build (graph : ModuleGraph) (ds : List Declaration) :
    (build graph ds).Tracks ds := by
  induction ds using List.reverseRecOn with
  | nil => exact ⟨rfl, nofun⟩
  | append_singleton ds d ih =>
    rw [build_concat]
    exact ih.place d

/-! ### The entity around a declaration -/

/-- What a declaration has become stays with it. -/
theorem getElem?_ids_place {i : Nat} (h : i < a.ids.size) (d : Declaration) :
    (a.place d).ids[i]? = a.ids[i]? := by
  obtain ⟨id, hids, -⟩ := a.exists_ids_place d
  rw [hids, Array.getElem?_push, if_neg (Nat.ne_of_lt h)]

/-- The scope of a declaration inside a class or function is the entity of that class or
    function. -/
theorem owner_of_parent {p : Nat} {id : EntityId} (hparent : d.parent = some p)
    (hid : a.ids[p]? = some (some id)) : a.owner d = id := by
  rw [owner, hparent]
  simp [hid]

/-- The declarations that come later do not change the scope of a declaration. -/
theorem owner_placed {i : Nat} (h : d.StandsIn ds i) (hi : i ≤ a.ids.size)
    (graph : ModuleGraph) (id : Option EntityId) : (a.placed graph id).owner d = a.owner d := by
  cases hparent : d.parent with
  | none => rw [owner, owner, hparent]; rfl
  | some p =>
    have hless : p < a.ids.size := Nat.lt_of_lt_of_le (h.inside p hparent).1 hi
    rw [owner, owner, hparent, Option.bind_some, Option.bind_some, placed, Array.getElem?_push,
      if_neg (Nat.ne_of_lt hless)]

/-- The scope of a declaration that stands inside a class or function is an entity by the time the
    declaration is placed. -/
theorem exists_owner_build (hstands : d.StandsIn ds ds.length) {p : Nat}
    (hparent : d.parent = some p) (graph : ModuleGraph) :
    ∃ index, (build graph ds).ids[p]? = some (some (.declared index))
      ∧ (build graph ds).owner d = .declared index := by
  obtain ⟨-, e, he, hscope, -⟩ := hstands.inside p hparent
  obtain ⟨index, hindex⟩ := (Tracks.build graph ds).entity p e he (e.binds_of_isScope hscope)
  exact ⟨index, hindex, owner_of_parent hparent hindex⟩

end Assembly

/-- Whatever tree the declarations of an outline come from, each stands where its parent and its
    path say, and no declaration inside a class or function is placed in the module: the class or
    function around it has become an entity by then. -/
theorem Outline.declarations_nest (tree : SyntaxTree) :
    WellNested (Outline.ofTree tree).declarations
      ∧ ∀ (graph : ModuleGraph) (i p : Nat) (d : Declaration),
        (Outline.ofTree tree).declarations[i]? = some d → d.parent = some p →
          let a := Assembly.build graph ((Outline.ofTree tree).declarations.take i)
          ∃ index, a.ids[p]? = some (some (.declared index)) ∧ a.owner d = .declared index := by
  refine ⟨Outline.wellNested_ofTree tree, fun graph i p d hd hparent => ?_⟩
  exact Assembly.exists_owner_build ((Outline.wellNested_ofTree tree).stands_take hd) hparent graph

end PyAtlas
