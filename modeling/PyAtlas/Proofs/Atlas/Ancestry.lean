import PyAtlas.Proofs.Atlas.Provenance
import PyAtlas.Proofs.Atlas.Views
import Mathlib.Logic.Relation

/-!
# The order of an ancestry

The ancestry of a class is found by walking from class to class along their bases. The bases of a
class are worked out on the way, and that may lead to other walks, some of which are cut. Still the
order is the plain one: each class that can be reached once, depth first and from left to right,
where the bases of a class are what the question for them is answered from then on. For no task is
under way around the walk itself, so whatever it asks for is remembered.

`DepthFirst` tells this order without any recursion into the classes, by a list of classes that are
still to be visited.

## Key definitions
- `DepthFirst`: the order of first visits in a graph.
- `Atlas.DerivesFrom`, `Atlas.baseClasses`: the bases of a class as the atlas answers them.

## Key results
- `DepthFirst.mem_iff`: what is visited is what can be reached.
- `Atlas.depthFirst_of_recalled`: the order of a walk that is recalled.
- `Atlas.linearize_depthFirst`: the answer to the question for the ancestry of a class.
-/

namespace PyAtlas

open Relation

/-! ### Depth-first order -/

/-- `order` lists what has been visited once everything in `pending` has been visited after
    `visited`, in the order of first visits. What comes next from something new is visited before
    the rest. -/
inductive DepthFirst {α : Type} (next : α → List α) : (visited pending order : List α) → Prop
  | done (visited : List α) : DepthFirst next visited [] visited
  | again {visited pending order : List α} {x : α} (hx : x ∈ visited)
      (h : DepthFirst next visited pending order) : DepthFirst next visited (x :: pending) order
  | new {visited pending order : List α} {x : α} (hx : x ∉ visited)
      (h : DepthFirst next (visited ++ [x]) (next x ++ pending) order) :
      DepthFirst next visited (x :: pending) order

namespace DepthFirst

variable {α : Type} {next : α → List α} {visited pending order : List α}

theorem isPrefix (h : DepthFirst next visited pending order) : visited <+: order := by
  induction h with
  | done visited => exact List.prefix_rfl
  | again _ _ ih => exact ih
  | new _ _ ih => exact (List.prefix_append _ _).trans ih

theorem eq_of_nil (h : DepthFirst next visited [] order) : order = visited := by
  cases h
  rfl

theorem nodup (h : DepthFirst next visited pending order) (hvisited : visited.Nodup) :
    order.Nodup := by
  induction h with
  | done visited => exact hvisited
  | again _ _ ih => exact ih hvisited
  | new hx _ ih =>
    refine ih (List.nodup_append.2 ⟨hvisited, List.pairwise_singleton _ _, ?_⟩)
    rintro a ha b hb rfl
    exact hx (List.mem_singleton.1 hb ▸ ha)

/-- Everything that was to be visited has been visited. -/
theorem mem_of_pending (h : DepthFirst next visited pending order) : ∀ x ∈ pending, x ∈ order := by
  induction h with
  | done visited => exact nofun
  | again hx h ih => exact List.forall_mem_cons.2 ⟨h.isPrefix.subset hx, ih⟩
  | new _ h ih =>
    refine List.forall_mem_cons.2 ⟨h.isPrefix.subset ?_, fun y hy => ih y ?_⟩
    · exact List.mem_append_right _ (List.mem_singleton_self _)
    · exact List.mem_append_right _ hy

/-- What is visited came from what was visited before or had to be visited. -/
theorem reached {P : α → Prop} (hnext : ∀ x, P x → ∀ y ∈ next x, P y)
    (h : DepthFirst next visited pending order) (hvisited : ∀ x ∈ visited, P x)
    (hpending : ∀ x ∈ pending, P x) : ∀ x ∈ order, P x := by
  induction h with
  | done visited => exact hvisited
  | again _ _ ih => exact ih hvisited (List.forall_mem_cons.1 hpending).2
  | new _ _ ih =>
    obtain ⟨hx, hpending⟩ := List.forall_mem_cons.1 hpending
    refine ih ?_ ?_
    · exact List.forall_mem_append.2 ⟨hvisited, List.forall_mem_singleton.2 hx⟩
    · exact List.forall_mem_append.2 ⟨hnext _ hx, hpending⟩

/-- What comes next from something visited is visited, if that was so before or was to be done. -/
theorem closed (h : DepthFirst next visited pending order)
    (hvisited : ∀ x ∈ visited, ∀ y ∈ next x, y ∈ visited ∨ y ∈ pending) :
    ∀ x ∈ order, ∀ y ∈ next x, y ∈ order := by
  induction h with
  | done visited =>
    intro x hx y hy
    exact (hvisited x hx y hy).resolve_right nofun
  | again hx _ ih =>
    refine ih fun y hy z hz => (hvisited y hy z hz).elim .inl fun hpending => ?_
    refine (List.mem_cons.1 hpending).imp_left ?_
    rintro rfl
    exact hx
  | @new visited pending order x _ _ ih =>
    refine ih fun y hy z hz => ?_
    rcases List.mem_append.1 hy with hy | hy
    · rcases hvisited y hy z hz with hz | hz
      · exact .inl (List.mem_append_left _ hz)
      · rcases List.mem_cons.1 hz with rfl | hz
        · exact .inl (List.mem_append_right _ (List.mem_singleton_self z))
        · exact .inr (List.mem_append_right _ hz)
    · rw [List.mem_singleton.1 hy] at hz
      exact .inr (List.mem_append_left _ hz)

/-- Starting with nothing visited, what is visited is what can be reached. -/
theorem mem_iff {x y : α} (h : DepthFirst next [] [x] order) :
    y ∈ order ↔ ReflTransGen (fun a b => b ∈ next a) x y := by
  constructor
  · refine h.reached (fun _ hreach _ hnext => hreach.tail hnext) nofun ?_ y
    exact List.forall_mem_singleton.2 .refl
  · intro hreach
    induction hreach with
    | refl => exact h.mem_of_pending x (List.mem_singleton_self x)
    | tail _ hnext ih => exact h.closed nofun _ ih _ hnext

/-- What comes first is visited first. -/
theorem head?_eq {x : α} (h : DepthFirst next [] [x] order) : order.head? = some x := by
  cases h with
  | again hx => cases hx
  | new _ h =>
    obtain ⟨rest, rfl⟩ := h.isPrefix
    rfl

end DepthFirst

/-! ### Bases as they are answered -/

/-- What is known of an entity as a class is known of a class. -/
theorem ModuleGraph.category_of_class? {g : ModuleGraph} {id : EntityId}
    (h : (g.class? id).isSome = true) : g.category id = .type := by
  cases id with
  | module => cases h
  | unknown => cases h
  | declared index =>
    rw [class?, kind?, entity?] at h
    rw [category]
    cases he : g.declared[index]? with
    | none =>
      rw [he] at h
      cases h
    | some e =>
      rw [he, Option.map_some] at h
      cases hk : e.kind with
      | «class» info => rw [Option.map_some, hk]; rfl
      | _ =>
        rw [hk] at h
        cases h

namespace Atlas

/-- The second entity is one of the bases of the first, as the atlas answers the question for
    them. -/
def DerivesFrom (a : Atlas) (cls base : EntityRef) : Prop :=
  base ∈ (ask (.bases cls) a).1

/-- The bases of a class that are classes, from left to right. -/
def baseClasses (a : Atlas) (cls : EntityRef) : List EntityRef :=
  (ask (.bases cls) a).1.filter a.isClass

theorem isClass_iff {a : Atlas} {ref : EntityRef} :
    a.isClass ref = true ↔ a.category ref = .type := by
  rw [isClass, beq_iff_eq]

/-- A base that is recalled is what the atlas answers. -/
theorem ask_bases_of_recalled {b : Atlas} {depth : Nat} {ref : EntityRef} {found : List EntityRef}
    (h : (Lookup.bases ref).interpret (recalling b depth) = some found) :
    (ask (.bases ref) b).1 = found := by
  have hrun := (recalling_corresponds b depth .empty).interpret _ found h ⟨b, 0⟩ rfl
  rw [ask_of_run (q := .bases ref) hrun]

/-- What a module was when it was asked for is what it is. -/
theorem category_of_lookup {b : Atlas} {ref : EntityRef} {slot : ModuleSlot}
    (h : b.modules.lookup ref.module = some slot) :
    slot.graph.category ref.id = b.category ref := by
  rw [← agrees_world b _ _ h]
  rfl

/-- Only classes have bases. -/
theorem category_of_derivesFrom {a : Atlas} {cls base : EntityRef} (h : a.DerivesFrom cls base) :
    a.category cls = .type := by
  obtain ⟨s, hrun, -⟩ := run_of_callDepth (.bases cls) (Nat.le_refl a.callDepth)
  obtain ⟨slot, s', hslot, hrun⟩ := Run.bind_eq_some_iff.1 hrun
  -- The module that is asked for is the one that the category is read from.
  have hgraph : slot.graph = a.graph cls.module := by
    rw [remembering_request] at hslot
    rw [(Prod.mk.inj (Run.request_eq_some_iff.1 hslot)).1, request_fst]
    rfl
  change Lookup.interpret (remembering a.callDepth .empty) (if (slot.graph.class? cls.id).isSome
    then Lookup.task (.bases cls) .done else pure []) s' = _ at hrun
  rw [hgraph] at hrun
  by_cases hclass : ((a.graph cls.module).class? cls.id).isSome = true
  · exact ModuleGraph.category_of_class? hclass
  · rw [if_neg hclass] at hrun
    rw [DerivesFrom, ← (Prod.mk.inj (Option.some_inj.1 hrun)).1] at h
    cases h

/-- What a class can reach along bases that are classes is each class that it can reach along
    bases. -/
theorem reaches_baseClasses_iff {a : Atlas} {t cls : EntityRef} (ht : a.category t = .type) :
    ReflTransGen (fun cls base => base ∈ a.baseClasses cls) t cls
      ↔ a.category cls = .type ∧ ReflTransGen a.DerivesFrom t cls := by
  constructor
  · intro h
    induction h with
    | refl => exact ⟨ht, .refl⟩
    | tail _ hbase ih =>
      obtain ⟨hderives, hclass⟩ := List.mem_filter.1 hbase
      exact ⟨isClass_iff.1 hclass, ih.2.tail hderives⟩
  · rintro ⟨hcls, h⟩
    induction h with
    | refl => exact .refl
    | tail _ hderives ih =>
      -- Whatever has a base is a class, so the way to it leads along classes.
      exact (ih (category_of_derivesFrom hderives)).tail
        (List.mem_filter.2 ⟨hderives, isClass_iff.2 hcls⟩)

/-! ### Walks that are recalled -/

/-- If each class is visited in depth-first order, so are several classes. -/
theorem depthFirst_of_foldlM {b : Atlas} {h : Handler Option}
    (hvisit : ∀ {order order' : List EntityRef} {ref : EntityRef},
      h.visit order ref = some order' → ∀ {rest final : List EntityRef},
      DepthFirst b.baseClasses order' rest final →
      DepthFirst b.baseClasses order ([ref].filter b.isClass ++ rest) final)
    {refs order order' : List EntityRef}
    (hrefs : (refs.foldlM (fun order ref => Lookup.visit order ref .done) order).interpret h
      = some order') {rest final : List EntityRef}
    (hrest : DepthFirst b.baseClasses order' rest final) :
    DepthFirst b.baseClasses order (refs.filter b.isClass ++ rest) final := by
  induction refs generalizing order with
  | nil =>
    cases hrefs
    exact hrest
  | cons ref refs ih =>
    rw [List.foldlM_cons, Lookup.interpret_bind] at hrefs
    obtain ⟨more, hmore, hrefs⟩ := Option.bind_eq_some_iff.1 hrefs
    obtain ⟨_, hfirst, ⟨⟩⟩ := Option.bind_eq_some_iff.1 hmore
    rw [← List.singleton_append, List.filter_append, List.append_assoc]
    exact hvisit hfirst (ih hrefs)

/-- A visit that is recalled goes on in depth-first order. -/
theorem depthFirst_of_recalled {b : Atlas} {depth : Nat} {order order' : List EntityRef}
    {ref : EntityRef} (h : (recalling b depth).visit order ref = some order')
    {rest final : List EntityRef} (hrest : DepthFirst b.baseClasses order' rest final) :
    DepthFirst b.baseClasses order ([ref].filter b.isClass ++ rest) final := by
  induction depth generalizing order order' ref rest final with
  | zero => cases h
  | succ depth ih =>
    obtain ⟨slot, hslot, h⟩ := Option.bind_eq_some_iff.1 h
    rw [recalling_request] at hslot
    change Lookup.interpret _ (if slot.graph.category ref.id = .type ∧ ref ∉ order then
      Lookup.bases ref >>= fun bases =>
        bases.foldlM (fun order base => Lookup.visit order base .done) (order ++ [ref])
      else pure order) = some order' at h
    rw [category_of_lookup hslot] at h
    by_cases htype : b.category ref = .type
    · rw [List.filter_cons_of_pos (isClass_iff.2 htype), List.filter_nil, List.singleton_append]
      by_cases hmem : ref ∈ order
      · rw [if_neg fun hnew => hnew.2 hmem] at h
        cases h
        exact .again hmem hrest
      · rw [if_pos ⟨htype, hmem⟩, Lookup.interpret_bind] at h
        obtain ⟨bases, hbases, h⟩ := Option.bind_eq_some_iff.1 h
        refine .new hmem ?_
        rw [baseClasses, ask_bases_of_recalled hbases]
        exact depthFirst_of_foldlM ih h hrest
    · rw [List.filter_cons_of_neg (mt isClass_iff.1 htype), List.filter_nil, List.nil_append]
      rw [if_neg fun hnew => htype hnew.1] at h
      cases h
      exact hrest

/-- An ancestry that was found can be recalled, by a walk that begins at the class. -/
theorem depthFirst_of_growsTo {a b : Atlas} {t : EntityRef}
    (h : (ask (.linearize t) a).2.GrowsTo b) :
    b.category t = a.category t
      ∧ DepthFirst b.baseClasses [] ([t].filter b.isClass) (ask (.linearize t) a).1 := by
  obtain ⟨s, hrun, hatlas⟩ := run_of_callDepth (.linearize t) (Nat.le_refl a.callDepth)
  have hrecall : ∀ {c : Atlas}, s.atlas.GrowsTo c →
      (recalling c a.callDepth).visit [] t = some (ask (.linearize t) a).1 := by
    intro c hc
    have hfound := ((corresponds_recalling c a.callDepth).interpret _ _ _ hrun).2 hc
    obtain ⟨order, hvisit, ⟨⟩⟩ := Option.bind_eq_some_iff.1 hfound
    exact hvisit
  constructor
  · -- The module of the class was there when the question was answered, and has not changed.
    obtain ⟨slot, hslot⟩ :=
      Option.isSome_iff_exists.1 (settled_of_recalled_self (hrecall (.refl s.atlas)))
    rw [← category_of_lookup (h.modules (hatlas ▸ hslot)), category_of_lookup hslot, ← hatlas]
    exact congrArg (fun w : World => (w t.module).graph.category t.id) (a.world_ask _)
  · have hwalk := depthFirst_of_recalled (hrecall (hatlas ▸ h)) (.done _)
    rwa [List.append_nil] at hwalk

/-- The ancestry of a class begins with the class and consists of the classes that it can reach
    along bases, once each, in the order of first visits of a walk depth first and from left to
    right. Bases are what the atlas answers at any time from then on. What is no class has no
    ancestry. -/
theorem linearize_depthFirst (a : Atlas) (t : EntityRef) (later : List Operation) :
    let order := (ask (.linearize t) a).1
    let b := (ask (.linearize t) a).2.after later
    order.Nodup
      ∧ (∀ cls ∈ order, b.category cls = .type)
      ∧ (a.category t = .type →
          order.head? = some t
          ∧ (∀ cls, cls ∈ order ↔ b.category cls = .type ∧ ReflTransGen b.DerivesFrom t cls)
          ∧ DepthFirst b.baseClasses [] [t] order)
      ∧ (a.category t ≠ .type → order = []) := by
  intro order b
  obtain ⟨hcategory, hwalk⟩ := depthFirst_of_growsTo (b := b) (.after _ later)
  refine ⟨hwalk.nodup List.nodup_nil, ?_, fun htype => ?_, fun htype => ?_⟩
  · refine hwalk.reached (P := fun cls => b.category cls = .type) ?_ nofun ?_
    · exact fun cls _ base hbase => isClass_iff.1 (List.mem_filter.1 hbase).2
    · exact fun cls hcls => isClass_iff.1 (List.mem_filter.1 hcls).2
  · rw [← hcategory] at htype
    rw [List.filter_cons_of_pos (isClass_iff.2 htype), List.filter_nil] at hwalk
    exact ⟨hwalk.head?_eq, fun cls => hwalk.mem_iff.trans (reaches_baseClasses_iff htype), hwalk⟩
  · rw [← hcategory] at htype
    rw [List.filter_cons_of_neg (mt isClass_iff.1 htype), List.filter_nil] at hwalk
    exact hwalk.eq_of_nil

/-- Two classes that derive from each other, the first one also from itself. -/
def baseCircle : Atlas :=
  (empty .v37 ⟨[]⟩ []).after [.addSource "m" "class A(B, A):\n pass\nclass B(A):\n pass\n"]

/-- The ancestry of the first of these classes begins with it and ends with the other. -/
theorem linearize_depthFirst_of_baseCircle :
    let t : EntityRef := ⟨⟨"m", .v37⟩, .declared 0⟩
    let order := (ask (.linearize t) baseCircle).1
    let b := (ask (.linearize t) baseCircle).2.after []
    baseCircle.category t = .type
      ∧ order = [t, ⟨⟨"m", .v37⟩, .declared 1⟩]
      ∧ (∀ cls, cls ∈ order ↔ b.category cls = .type ∧ ReflTransGen b.DerivesFrom t cls)
      ∧ DepthFirst b.baseClasses [] [t] order := by
  intro t order b
  have htype : baseCircle.category t = .type := by decide +kernel
  obtain ⟨-, -, hwalk, -⟩ := linearize_depthFirst baseCircle t []
  exact ⟨htype, ask_of_run_map 20 (by decide +kernel), (hwalk htype).2⟩

end Atlas

end PyAtlas
