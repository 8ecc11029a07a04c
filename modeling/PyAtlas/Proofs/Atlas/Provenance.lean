import PyAtlas.Proofs.Atlas.Presence
import Mathlib.Data.List.Forall2

/-!
# Where answers come from

What an atlas remembers of a task was found by performing the task: the answer of a task that is
cut is handed out, but never kept. So all that is remembered is as it has to be. Nothing that has
been followed is an import, and there is one base for each that a class declares.

Tasks are performed with others under way, which cuts some of those inside. Where an answer was
found is therefore said of some run, on an atlas from which the present one has grown.

## Key definitions
- `Lookup.Found`: what a lookup once found.
- `Atlas.Fit`: an atlas in which every answer is as it has to be, and was found by its task.

## Key results
- `Lookup.Found.of_bind`, `Lookup.Found.of_mapM`: where the parts of an answer come from.
- `resolves_remembering`: tasks keep atlases fit, wherever they are cut.
- `Atlas.answers_no_imports`: no answer is an import, and bases are resolved one by one.
-/

namespace PyAtlas

/-- The bases that a class declares; any other entity declares none. -/
def Atlas.declaredBases (a : Atlas) (ref : EntityRef) : List BaseRef :=
  (((a.graph ref.module).class? ref.id).map (·.shape.bases)).getD []

/-! ### What was found -/

/-- The lookup has found `found` at some time, with some tasks under way, on an atlas that has
    grown to `b` since. -/
def Lookup.Found (b : Atlas) {α : Type} (x : Lookup α) (found : α) : Prop :=
  ∃ depth active s s',
    x.interpret (remembering depth active) s = some (found, s') ∧ s'.atlas.GrowsTo b

/-- A request is answered by what the module is for good. -/
theorem Run.slot_of_request {b : Atlas} {key : ModuleKey} {s s' : LookupState} {slot : ModuleSlot}
    (h : Run.request key s = some (slot, s')) (hb : s'.atlas.GrowsTo b) :
    slot = b.world key ∧ key ∈ b.settledKeys := by
  cases Run.request_eq_some_iff.1 h
  have hlookup := hb.modules (s.atlas.lookup_request key)
  refine ⟨?_, mem_keys_of_lookup hlookup⟩
  rw [Atlas.world, b.slot_eq_getD_fetch, hlookup]
  rfl

theorem remembering_request (depth : Nat) (active : CallStack) (key : ModuleKey) :
    (remembering depth active).request key = Run.request key := by
  cases depth <;> rfl

namespace Lookup.Found

variable {b : Atlas} {α β γ : Type}

theorem of_pure {x found : α} (h : (pure x : Lookup α).Found b found) : found = x := by
  obtain ⟨depth, active, s, s', hrun, -⟩ := h
  cases hrun
  rfl

theorem of_bind {x : Lookup α} {f : α → Lookup β} {found : β} (h : (x >>= f).Found b found) :
    ∃ first, x.Found b first ∧ (f first).Found b found := by
  obtain ⟨depth, active, s, s', hrun, hb⟩ := h
  rw [Lookup.interpret_bind] at hrun
  obtain ⟨first, s₁, hfirst, hrest⟩ := Run.bind_eq_some_iff.1 hrun
  have hgrows := ((advances_remembering depth active).interpret (f first) hrest).grows
  exact ⟨first, ⟨depth, active, s, s₁, hfirst, hgrows.trans hb⟩, depth, active, s₁, s', hrest, hb⟩

/-- Each of several answers was found by the lookup for its item. -/
theorem of_mapM {f : γ → Lookup β} {items : List γ} {found : List β}
    (h : (items.mapM f).Found b found) :
    List.Forall₂ (fun item result => (f item).Found b result) items found := by
  induction items generalizing found with
  | nil =>
    rw [List.mapM_nil] at h
    rw [h.of_pure]
    exact .nil
  | cons item items ih =>
    rw [List.mapM_cons] at h
    obtain ⟨first, hfirst, h⟩ := h.of_bind
    obtain ⟨rest, hrest, h⟩ := h.of_bind
    rw [h.of_pure]
    exact .cons hfirst (ih hrest)

theorem of_graph {key : ModuleKey} {g : ModuleGraph} (h : (graph key).Found b g) :
    g = b.graph key := by
  obtain ⟨depth, active, s, s', hrun, hb⟩ := h
  obtain ⟨slot, s₁, hslot, hrest⟩ := Run.bind_eq_some_iff.1 hrun
  cases hrest
  rw [remembering_request] at hslot
  obtain ⟨rfl, -⟩ := Run.slot_of_request hslot hb
  rfl

/-- What a class was found to derive from: one entity for each base that it declares, in the
    order of declaration. -/
theorem of_collectBases {ref : EntityRef} {found : List EntityRef}
    (h : (collectBases ref).Found b found) :
    List.Forall₂ (fun base result => (resolveBase ref base).Found b result)
      (b.declaredBases ref) found := by
  obtain ⟨g, hg, h⟩ := h.of_bind
  rw [hg.of_graph] at h
  rw [Atlas.declaredBases]
  cases hclass : (b.graph ref.module).class? ref.id with
  | some info =>
    rw [hclass] at h
    exact h.of_mapM
  | none =>
    rw [hclass] at h
    rw [h.of_pure]
    exact .nil

end Lookup.Found

/-! ### Fit atlases -/

/-- What the atlas `a` remembers is as it has to be, and was found by its task, told about the
    later atlas `b`. -/
structure Atlas.Fit (b a : Atlas) : Prop where
  fits : ∀ {t : Task} {answer : t.Answer}, t.known a = some answer → t.Fits b answer
  found : ∀ {t : Task} {answer : t.Answer}, t.known a = some answer → t.body.Found b answer

namespace Atlas.Fit

variable {a b : Atlas}

theorem settle (h : b.Fit a) (key : ModuleKey) (answer : Unit → ModuleSlot) :
    b.Fit (a.settle key answer).2 := by
  constructor
  · intro t found hknown
    rw [t.known_settle] at hknown
    exact h.fits hknown
  · intro t found hknown
    rw [t.known_settle] at hknown
    exact h.found hknown

theorem note {t : Task} {answer : t.Answer} (h : b.Fit a) (hfits : t.Fits b answer)
    (hfound : t.body.Found b answer) : b.Fit (t.note a answer) := by
  constructor
  · intro t' answer' hknown
    rcases Task.known_note hknown with heq | hknown
    · cases heq
      exact hfits
    · exact h.fits hknown
  · intro t' answer' hknown
    rcases Task.known_note hknown with heq | hknown
    · cases heq
      exact hfound
    · exact h.found hknown

theorem conclude {active : CallStack} {t : Task} {cuts : Nat} {answer : t.Answer}
    {s : LookupState} (h : b.Fit s.atlas) (hfits : t.Fits b answer)
    (hfound : t.body.Found b answer) : b.Fit (PyAtlas.conclude active t cuts answer s).atlas := by
  rw [PyAtlas.conclude]
  split
  · exact h.note hfits hfound
  · exact h

end Atlas.Fit

/-- If what the computation leaves grows to `b`, it keeps the atlas fit, and what it yields has
    the property `Q`. -/
def Run.Yields (b : Atlas) {α : Type} (p : Run α) (Q : α → Prop) : Prop :=
  ∀ s r, p s = some r → r.2.atlas.GrowsTo b → b.Fit s.atlas → b.Fit r.2.atlas ∧ Q r.1

section Yields

variable {b : Atlas} {active : CallStack} {h : Handler Run}

theorem Run.Yields.bind {α β : Type} {p : Run α} {f : α → Run β} {Q : α → Prop} {R : β → Prop}
    (hp : p.Yields b Q) (hf : ∀ x, Q x → (f x).Yields b R)
    (hgrows : ∀ x s r, f x s = some r → s.atlas.GrowsTo r.2.atlas) : (p >>= f).Yields b R := by
  intro s r hr hb hfit
  obtain ⟨x, s', hx, hr⟩ := Run.bind_eq_some_iff.1 hr
  obtain ⟨hfit', hQ⟩ := hp s _ hx ((hgrows x s' r hr).trans hb) hfit
  exact hf x hQ s' r hr hb hfit'

theorem Run.yields_request (key : ModuleKey) :
    (Run.request key).Yields b fun slot => slot = b.world key ∧ key ∈ b.settledKeys := by
  rintro s ⟨slot, s'⟩ hr hb hfit
  refine ⟨?_, Run.slot_of_request hr hb⟩
  cases Run.request_eq_some_iff.1 hr
  exact hfit.settle key _

/-- The handler keeps the atlas fit and answers by entities that are no imports, where they are
    due. -/
structure Handler.Resolves (b : Atlas) (h : Handler Run) : Prop where
  request : ∀ key, (h.request key).Yields b fun slot => slot = b.world key ∧ key ∈ b.settledKeys
  task : ∀ t, t.subject.module ∈ b.settledKeys → (h.task t).Yields b (t.Fits b)
  visit : ∀ order ref, (∀ cls ∈ order, b.Resolved cls) →
    (h.visit order ref).Yields b fun order' => ∀ cls ∈ order', b.Resolved cls

theorem Lookup.Resolves.interpret (hh : h.Resolves b) (hadvances : h.Advances active) {α : Type}
    {x : Lookup α} {Q : α → Prop} (hx : x.Resolves b Q) : (x.interpret h).Yields b Q := by
  -- What is done with an answer only adds to the atlas, so `b` is a later one of each step.
  have hgrows : ∀ y : Lookup α, ∀ s r, y.interpret h s = some r → s.atlas.GrowsTo r.2.atlas :=
    fun y _ _ hr => (hadvances.interpret y hr).grows
  induction x with
  | done x =>
    rintro s _ ⟨⟩ - hfit
    exact ⟨hfit, hx⟩
  | request key next ih =>
    apply (hh.request key).bind _ fun slot => hgrows (next slot)
    rintro _ ⟨rfl, hkey⟩
    exact ih _ (hx.2 hkey)
  | task t next ih =>
    apply (hh.task t hx.1).bind _ fun answer => hgrows (next answer)
    exact fun answer hanswer => ih answer (hx.2 answer hanswer)
  | visit order ref next ih =>
    apply (hh.visit order ref hx.1).bind _ fun order' => hgrows (next order')
    exact fun order' horder => ih order' (hx.2 order' horder)

/-- The end of a task only adds to the atlas that its computation leaves. -/
theorem Advances.grows_conclude {t : Task} {fresh : t ∉ active.tasks} {s s' : LookupState}
    (hadvances : Advances (active.push t fresh) s s') (hnone : t.known s.atlas = none)
    (cuts : Nat) (answer : t.Answer) :
    s'.atlas.GrowsTo (PyAtlas.conclude active t cuts answer s').atlas := by
  rw [PyAtlas.conclude]
  split
  · exact .note (hadvances.underWay t List.mem_cons_self hnone) answer
  · exact .refl _

/-- A task that is attended to is answered from memory, or cut, or performed. -/
theorem yields_remembering_task {depth : Nat}
    (hresolves : ∀ active, (remembering depth active).Resolves b) {t : Task}
    (ht : t.subject.module ∈ b.settledKeys) :
    ((remembering (depth + 1) active).task t).Yields b (t.Fits b) := by
  rintro s ⟨answer, s'⟩ hr hb hfit
  rw [remembering_task] at hr
  cases hnone : t.known s.atlas with
  | some found =>
    rw [attend, hnone] at hr
    cases hr
    exact ⟨hfit, hfit.fits hnone⟩
  | none =>
    rcases attend_cases hr with ⟨hknown, -⟩ | ⟨-, rfl, rfl⟩ | ⟨fresh, s₁, hrun, rfl⟩
    · rw [hnone] at hknown
      cases hknown
    · exact ⟨hfit, Task.fits_cut ht⟩
    · have hadvances := advances_remembering depth (active.push t fresh)
      have hend := (hadvances.interpret t.body hrun).grows_conclude hnone s.cuts answer
      have hfound : t.body.Found b answer := ⟨depth, _, s, s₁, hrun, hend.trans hb⟩
      obtain ⟨hfit₁, hfits⟩ := t.resolves_body.interpret (hresolves (active.push t fresh))
        hadvances s _ hrun (hend.trans hb) hfit
      exact ⟨hfit₁.conclude hfits hfound, hfits⟩

/-- Whatever is remembered and wherever tasks are cut, the atlas stays fit. -/
theorem resolves_remembering (b : Atlas) (depth : Nat) (active : CallStack) :
    (remembering depth active).Resolves b := by
  induction depth generalizing active with
  | zero =>
    exact ⟨Run.yields_request, fun _ _ _ r hr => (Option.some_ne_none r hr.symm).elim,
      fun _ _ _ _ r hr => (Option.some_ne_none r hr.symm).elim⟩
  | succ depth ih =>
    constructor
    · exact Run.yields_request
    · intro t ht
      exact yields_remembering_task ih ht
    · intro order ref horder
      rw [remembering_visit]
      exact (Lookup.resolves_visitBody horder).interpret (ih active)
        (advances_remembering depth active)

end Yields

/-! ### No answer is an import -/

namespace Atlas

variable {a b : Atlas} {ref : EntityRef} {found : List EntityRef} {depth : Nat}

theorem Fit.ask (h : b.Fit a) (q : Question) (hb : (Atlas.ask q a).2.GrowsTo b) :
    b.Fit (Atlas.ask q a).2 ∧ ∀ ref ∈ q.refs (Atlas.ask q a).1, b.Resolved ref := by
  obtain ⟨s, hrun, hatlas⟩ := run_of_callDepth q (Nat.le_refl a.callDepth)
  rw [hatlas] at hb ⊢
  exact q.resolves_lookup.interpret (resolves_remembering b _ _) (advances_remembering _ _)
    ⟨a, 0⟩ _ hrun hb h

theorem Fit.perform (h : b.Fit a) (op : Operation) (hb : (op.perform a).GrowsTo b) :
    b.Fit (op.perform a) := by
  rcases op.asks_or_settles a with ⟨q, rfl⟩ | ⟨key, answer, -, -, heq⟩
  · exact (h.ask q hb).1
  · rw [heq]
    exact h.settle key answer

theorem Fit.after (h : b.Fit a) (ops : List Operation) (hb : (a.after ops).GrowsTo b) :
    b.Fit (a.after ops) := by
  induction ops generalizing a with
  | nil => exact h
  | cons op ops ih => exact ih (h.perform op ((GrowsTo.after _ ops).trans hb)) hb

/-- An atlas that remembers nothing is fit. -/
theorem fit_empty (version : Version) (files : FileSystem) (libraries : SearchPath) :
    b.Fit (empty version files libraries) := by
  constructor
  all_goals
    intro t answer hknown
    cases t <;> cases hknown

/-- The entities in the answer to a question are no imports, and stay so. -/
theorem resolved_of_ask (version : Version) (files : FileSystem) (libraries : SearchPath)
    (ops : List Operation) (q : Question)
    (hb : (Atlas.ask q ((empty version files libraries).after ops)).2.GrowsTo b) :
    ∀ ref ∈ q.refs (Atlas.ask q ((empty version files libraries).after ops)).1, b.Resolved ref := by
  have hfit := (fit_empty version files libraries).after ops ((GrowsTo.ask _ q).trans hb)
  exact (hfit.ask q hb).2

/-- The answer to the question for the bases of an entity is remembered, or the entity has
    none. -/
theorem recall_bases (h : (Lookup.bases ref).interpret (recalling b depth) = some found) :
    (Task.bases ref).known b = some found ∨ b.declaredBases ref = [] ∧ found = [] := by
  obtain ⟨slot, hslot, hrest⟩ := Option.bind_eq_some_iff.1 h
  rw [recalling_request] at hslot
  have hgraph : b.graph ref.module = slot.graph := by
    rw [graph, slot_eq_getD_fetch, hslot]
    rfl
  change (if _ then _ else _ : Lookup _).interpret _ = some found at hrest
  split at hrest
  · obtain ⟨answer, hanswer, hdone⟩ := Option.bind_eq_some_iff.1 hrest
    cases hdone
    rw [recalling_task] at hanswer
    exact .inl hanswer
  · rename_i hclass
    rw [Bool.not_eq_true, Option.isSome_eq_false_iff, Option.isNone_iff_eq_none] at hclass
    cases hrest
    right
    rw [declaredBases, hgraph, hclass]
    exact ⟨rfl, rfl⟩

/-- What a class derives from, once that has been asked for, is what its bases were resolved to,
    one after the other. -/
theorem Fit.forall₂_bases (h : (Atlas.ask (.bases ref) a).2.Fit a) :
    List.Forall₂
      (fun base found => (Lookup.resolveBase ref base).Found (Atlas.ask (.bases ref) a).2 found)
      ((Atlas.ask (.bases ref) a).2.declaredBases ref) (Atlas.ask (.bases ref) a).1 := by
  have hfit := (h.ask (.bases ref) (.refl _)).1
  obtain ⟨s, hrun, hatlas⟩ := run_of_callDepth (.bases ref) (Nat.le_refl a.callDepth)
  have hrecall := ((corresponds_recalling (Atlas.ask (.bases ref) a).2 a.callDepth).interpret
    (Lookup.bases ref) _ _ hrun).2
  rw [hatlas] at hrecall
  rcases recall_bases (hrecall (.refl _)) with hknown | ⟨hnone, hfound⟩
  · rw [hatlas] at hfit ⊢
    exact (hfit.found hknown).of_collectBases
  · rw [hatlas, hnone, hfound]
    exact .nil

/-- Whatever was done before, no answer to a question is an import, nor does it turn into one. The
    bases of a class are as many as it declares, each found by resolving the one declared. -/
theorem answers_no_imports (version : Version) (files : FileSystem) (libraries : SearchPath)
    (ops : List Operation) :
    let a := (empty version files libraries).after ops
    (∀ (q : Question) (later : List Operation), ∀ ref ∈ q.refs (ask q a).1,
      ((ask q a).2.after later).category ref ≠ .imported)
    ∧ ∀ ref, List.Forall₂
        (fun base found => (Lookup.resolveBase ref base).Found (ask (.bases ref) a).2 found)
        ((ask (.bases ref) a).2.declaredBases ref) (ask (.bases ref) a).1 := by
  intro a
  constructor
  · intro q later ref href
    exact (resolved_of_ask version files libraries ops q (.after _ later) ref href).noImport
  · intro ref
    have hfit := (fit_empty version files libraries).after ops (.ask a (.bases ref))
    exact hfit.forall₂_bases

end Atlas

end PyAtlas
