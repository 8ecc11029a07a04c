import PyAtlas.Proofs.Atlas.Provenance
import Mathlib.Data.List.Nodup

/-!
# Which module is which

The modules of an atlas are only ever added to, by requests and by the other ways for a module to
enter, and by lookups on their way. What was answered once is answered the same from then on,
however the module is asked for. Each answer holds a graph that has the name and the version asked
for and that has a number of its own, so an entity is known by the number of its graph and by its
id in it.

The numbers are those below the number of modules.

## Key definitions
- `Atlas.LeadsTo`: all that can become of an atlas, step by step.
- `Atlas.Numbered`: an atlas whose graphs are numbered one after the other.
- `Atlas.Answers`: how the ways to ask for a module are answered.
- `Atlas.given`: the entities that operations give out.

## Key results
- `leadsTo_remembering`, `Atlas.LeadsTo.after`: lookups and operations are made of such steps.
- `Atlas.modules_identified`: all of the above.
- `Atlas.import_after_addSource`: a text that was registered can be imported, unless the module
  could not be read before.
-/

namespace PyAtlas

/-! ### What can become of an atlas -/

/-- What can become of an atlas, step by step: an answer is noted, or it is settled what a module
    is, by a slot for that module. -/
inductive Atlas.LeadsTo (a : Atlas) : Atlas → Prop
  | refl : a.LeadsTo a
  | settle {b : Atlas} {key : ModuleKey} {answer : Unit → ModuleSlot} (h : a.LeadsTo b)
      (hslot : (answer ()).IsFor key) : a.LeadsTo (b.settle key answer).2
  | note {b : Atlas} (h : a.LeadsTo b) (t : Task) (answer : t.Answer) : a.LeadsTo (t.note b answer)

namespace Atlas.LeadsTo

variable {a b c : Atlas}

theorem trans (h : a.LeadsTo b) (h' : b.LeadsTo c) : a.LeadsTo c := by
  induction h' with
  | refl => exact h
  | settle _ hslot ih => exact ih.settle hslot
  | note _ t answer ih => exact ih.note t answer

theorem version_eq (h : a.LeadsTo b) : b.version = a.version := by
  induction h with
  | refl => rfl
  | settle _ _ ih =>
    rw [← ih, Atlas.settle]
    split <;> rfl
  | note _ t _ ih =>
    rw [← ih]
    cases t <;> rfl

/-- What was answered to a request stays. -/
theorem lookup_modules (h : a.LeadsTo b) {key : ModuleKey} {slot : ModuleSlot}
    (hslot : a.modules.lookup key = some slot) : b.modules.lookup key = some slot := by
  induction h with
  | refl => exact hslot
  | settle _ _ ih => exact Atlas.lookup_settle ih
  | note _ t _ ih => rwa [t.modules_note]

end Atlas.LeadsTo

/-- Lookups settle modules and note answers, and do nothing else to the atlas. -/
theorem leadsTo_remembering (depth : Nat) (active : CallStack) :
    (remembering depth active).Steps fun s s' => s.atlas.LeadsTo s'.atlas := by
  have hrequest : ∀ key s r, Run.request key s = some r → s.atlas.LeadsTo r.2.atlas := by
    intro key s r hr
    rw [Run.request_eq_some_iff.1 hr]
    exact Atlas.LeadsTo.refl.settle (s.atlas.isFor_fetch key)
  induction depth generalizing active with
  | zero => exact steps_remembering_zero hrequest active
  | succ depth ih =>
    constructor
    · exact hrequest
    · rintro t s ⟨answer, s'⟩ hr
      rw [remembering_task] at hr
      rcases attend_cases hr with ⟨-, rfl⟩ | ⟨-, -, rfl⟩ | ⟨fresh, s₁, hrun, rfl⟩
      · exact .refl
      · exact .refl
      · have hinside := (ih (active.push t fresh)).interpret (fun _ => .refl) .trans t.body hrun
        rw [conclude]
        split
        · exact hinside.note t answer
        · exact hinside
    · intro order ref s r hr
      rw [remembering_visit] at hr
      exact (ih active).interpret (fun _ => .refl) .trans (Lookup.visitBody order ref) hr

namespace Atlas.LeadsTo

theorem interpret {depth : Nat} {active : CallStack} {α : Type} {x : Lookup α} {s : LookupState}
    {r : α × LookupState} (h : x.interpret (remembering depth active) s = some r) :
    s.atlas.LeadsTo r.2.atlas :=
  (leadsTo_remembering depth active).interpret (fun _ => .refl) .trans x h

theorem perform (a : Atlas) (op : Operation) : a.LeadsTo (op.perform a) := by
  rcases op.asks_or_settles a with ⟨q, rfl⟩ | ⟨key, answer, -, hslot, heq⟩
  · obtain ⟨s, hrun, hatlas⟩ := Atlas.run_of_callDepth q (Nat.le_refl a.callDepth)
    show a.LeadsTo (Atlas.ask q a).2
    rw [hatlas]
    exact interpret hrun
  · rw [heq]
    exact refl.settle hslot

theorem after (a : Atlas) (ops : List Operation) : a.LeadsTo (a.after ops) := by
  induction ops generalizing a with
  | nil => exact .refl
  | cons op ops ih => exact (perform a op).trans (ih _)

end Atlas.LeadsTo

/-! ### Numbers of graphs -/

/-- The graphs are numbered one after the other, one for each module that has been asked for, and
    each is for its module. -/
structure Atlas.Numbered (a : Atlas) : Prop where
  keys : a.graphIds.map Prod.fst = a.settledKeys
  count : a.nextGraph.number = a.modules.length
  below : ∀ entry ∈ a.graphIds, entry.2.number < a.nextGraph.number
  nodup : (a.graphIds.map Prod.snd).Nodup
  isFor : ∀ entry ∈ a.modules, entry.2.IsFor entry.1

namespace Atlas

variable {a b : Atlas} {key key' : ModuleKey} {id : GraphId} {slot : ModuleSlot}

theorem numbered_empty (version : Version) (files : FileSystem) (libraries : SearchPath) :
    (empty version files libraries).Numbered :=
  ⟨rfl, rfl, fun _ hentry => (nomatch hentry), List.nodup_nil, fun _ hentry => (nomatch hentry)⟩

namespace Numbered

theorem settle {answer : Unit → ModuleSlot} (h : a.Numbered) (hslot : (answer ()).IsFor key) :
    (a.settle key answer).2.Numbered := by
  rw [Atlas.settle]
  split
  · exact h
  · constructor
    · show key :: a.graphIds.map Prod.fst = key :: a.settledKeys
      rw [h.keys]
    · show a.nextGraph.number + 1 = a.modules.length + 1
      rw [h.count]
    · intro entry hentry
      rcases List.mem_cons.1 hentry with rfl | hentry
      · exact Nat.lt_succ_self _
      · exact Nat.lt_succ_of_lt (h.below entry hentry)
    · -- The new number is greater than all others.
      show (a.nextGraph :: a.graphIds.map Prod.snd).Nodup
      apply List.nodup_cons.2
      refine ⟨fun hmem => ?_, h.nodup⟩
      obtain ⟨entry, hentry, heq⟩ := List.mem_map.1 hmem
      have hbelow := h.below entry hentry
      rw [heq] at hbelow
      omega
    · intro entry hentry
      rcases List.mem_cons.1 hentry with rfl | hentry
      · exact hslot
      · exact h.isFor entry hentry

theorem note (h : a.Numbered) (t : Task) (answer : t.Answer) : (t.note a answer).Numbered := by
  cases t <;> exact ⟨h.keys, h.count, h.below, h.nodup, h.isFor⟩

theorem mono (h : a.Numbered) (hb : a.LeadsTo b) : b.Numbered := by
  induction hb with
  | refl => exact h
  | settle _ hslot ih => exact ih.settle hslot
  | note _ t answer ih => exact ih.note t answer

theorem exists_graphId (h : a.Numbered) (hkey : key ∈ a.settledKeys) :
    ∃ id, a.graphId? key = some id ∧ id.number < a.modules.length := by
  rw [← h.keys] at hkey
  obtain ⟨id, hid⟩ := exists_lookup_of_mem_keys hkey
  have hbelow := h.below _ (mem_of_lookup hid)
  rw [h.count] at hbelow
  exact ⟨id, hid, hbelow⟩

/-- No number is given twice. -/
theorem key_eq (h : a.Numbered) (hid : a.graphId? key = some id) (hid' : a.graphId? key' = some id) :
    key = key' := by
  have hentry := List.inj_on_of_nodup_map h.nodup (mem_of_lookup hid) (mem_of_lookup hid') rfl
  exact congrArg Prod.fst hentry

/-- The number of a graph stays. -/
theorem graphId?_of_leadsTo (h : a.Numbered) (hb : a.LeadsTo b) (hid : a.graphId? key = some id) :
    b.graphId? key = some id := by
  induction hb with
  | refl => exact hid
  | @settle c key' answer hc _ ih =>
    rw [Atlas.settle]
    split
    · exact ih
    · rename_i hnone
      -- The module that is settled has not been asked for, so it has no number yet.
      have hne : key ≠ key' := by
        rintro rfl
        have hkey : key ∈ c.graphIds.map Prod.fst := mem_keys_of_lookup ih
        rw [(h.mono hc).keys] at hkey
        obtain ⟨slot, hslot⟩ := exists_lookup_of_mem_keys hkey
        rw [hnone] at hslot
        cases hslot
      show ((key', c.nextGraph) :: c.graphIds).lookup key = some id
      rw [List.lookup_cons, beq_eq_false_iff_ne.2 hne]
      exact ih
  | note _ t _ ih => cases t <;> exact ih

/-- Entities of modules that have been asked for are told apart by the numbers of their graphs and
    their ids. -/
theorem entityKey?_inj (h : a.Numbered) {ref ref' : EntityRef}
    (href : ref.module ∈ a.settledKeys) (href' : ref'.module ∈ a.settledKeys) :
    (a.entityKey? ref).isSome = true ∧ (ref = ref' ↔ a.entityKey? ref = a.entityKey? ref') := by
  obtain ⟨id, hid, -⟩ := h.exists_graphId href
  obtain ⟨id', hid', -⟩ := h.exists_graphId href'
  rw [entityKey?, entityKey?, hid, hid']
  refine ⟨rfl, fun heq => ?_, fun heq => ?_⟩
  · subst heq
    rw [hid] at hid'
    cases hid'
    rfl
  · obtain ⟨heq, hsame⟩ := EntityKey.mk.inj (Option.some_inj.1 heq)
    subst heq
    have hmodule := h.key_eq hid hid'
    show EntityRef.mk ref.module ref.id = ⟨ref'.module, ref'.id⟩
    rw [hmodule, hsame]

end Numbered

/-! ### Requests that were answered -/

/-- However the module is asked for, it is answered by the slot, and the atlas stays as it is. -/
structure Answers (a : Atlas) (key : ModuleKey) (slot : ModuleSlot) : Prop where
  request : a.request key = (slot, a)
  imports : a.import? key.name key.version = (slot.outcome key, a)
  addSource : key.version = a.version → ∀ source, a.addSource key.name source = (key.ref, a)
  addLocation : key.version = a.version → ∀ m, m.name = key.name →
    a.addLocation m = (slot.outcome key, a)
  addFile : key.version = a.version → ∀ path, a.addFile key.name path = (slot.outcome key, a)

theorem answers_of_lookup (h : a.modules.lookup key = some slot) : a.Answers key slot := by
  have hlocation : key.version = a.version → ∀ m : ModuleLocation, m.name = key.name →
      a.addLocation m = (slot.outcome key, a) := by
    rintro hversion m hname
    have hkey : (⟨m.name, a.version⟩ : ModuleKey) = key := by rw [hname, ← hversion]
    rw [addLocation, hkey, settle_of_lookup h]
  constructor
  · exact request_of_lookup h
  · rw [import?, request_of_lookup h]
  · intro hversion source
    have hkey : (⟨key.name, a.version⟩ : ModuleKey) = key := by rw [← hversion]
    rw [addSource, hkey, settle_of_lookup h]
  · exact hlocation
  · exact fun hversion path => hlocation hversion _ rfl

/-- What is asked for is settled. -/
theorem mem_settledKeys_settle (a : Atlas) (key : ModuleKey) (answer : Unit → ModuleSlot) :
    key ∈ (a.settle key answer).2.settledKeys :=
  mem_keys_of_lookup (a.lookup_settle_self key answer)

theorem mem_settledKeys_perform {op : Operation} (h : op.key? a = some key) :
    key ∈ (op.perform a).settledKeys := by
  rcases op.asks_or_settles a with ⟨q, rfl⟩ | ⟨key', answer, hkey, -, heq⟩
  · cases h
  · rw [hkey] at h
    cases h
    rw [heq]
    exact a.mem_settledKeys_settle key answer

end Atlas

/-! ### Entities given out -/

/-- The entities that an operation gives out. -/
def Operation.refs (a : Atlas) : Operation → List EntityRef
  | ask q => q.refs (Atlas.ask q a).1
  | importModule name version => (a.import? name version).1.toOption.toList
  | addSource name source => [(a.addSource name source).1]
  | addLocation m => (a.addLocation m).1.toOption.toList

/-- The entities that some operations give out, one after the other. -/
def Atlas.given (a : Atlas) : (ops : List Operation) → List EntityRef
  | [] => []
  | op :: ops => op.refs a ++ (op.perform a).given ops

theorem ModuleSlot.eq_ref_of_outcome {slot : ModuleSlot} (key : ModuleKey) {ref : EntityRef}
    (h : ref ∈ (slot.outcome key).toOption.toList) : ref = key.ref := by
  rw [outcome] at h
  split at h
  · cases h
  · exact List.mem_singleton.1 h

namespace Atlas

variable {a b : Atlas}

/-- A request gives out the module that is asked for, or nothing. -/
theorem key?_of_mem_refs {op : Operation} {ref : EntityRef} (h : ref ∈ op.refs a) :
    (∃ q, op = .ask q) ∨ op.key? a = some ref.module := by
  cases op with
  | ask q => exact .inl ⟨q, rfl⟩
  | importModule name version =>
    cases ModuleSlot.eq_ref_of_outcome ⟨name, version⟩ h
    exact .inr rfl
  | addSource name source =>
    cases List.mem_singleton.1 h
    exact .inr rfl
  | addLocation m =>
    cases ModuleSlot.eq_ref_of_outcome ⟨m.name, a.version⟩ h
    exact .inr rfl

/-- All entities that are given out are of modules that have been asked for. -/
theorem Fit.settled_of_given (h : b.Fit a) (ops : List Operation) (hb : (a.after ops).GrowsTo b) :
    ∀ ref ∈ a.given ops, ref.module ∈ b.settledKeys := by
  induction ops generalizing a with
  | nil => exact fun _ href => nomatch href
  | cons op ops ih =>
    have hperform : (op.perform a).GrowsTo b := (GrowsTo.after _ ops).trans hb
    intro ref href
    rcases List.mem_append.1 href with href | href
    · rcases key?_of_mem_refs href with ⟨q, rfl⟩ | hkey
      · exact ((h.ask q hperform).2 ref href).settled
      · exact hperform.settledKeys (mem_settledKeys_perform hkey)
    · exact ih (h.perform op hperform) hb ref href

/-- Modules are only added to an atlas, and are told apart by the numbers of their graphs.
    Operations and lookups lead from one atlas to another, and whatever atlas they have led to,
    all that is asked for is settled. What is settled has a graph of the name and the version asked
    for and a number below the number of modules, is answered by that graph whatever comes after,
    and keeps its number. Different modules have different numbers. Of the entities that have been
    given out two are the same if and only if their keys are. -/
theorem modules_identified (version : Version) (files : FileSystem) (libraries : SearchPath) :
    (∀ (a : Atlas) (op : Operation), a.LeadsTo (op.perform a))
    ∧ (∀ {α : Type} (x : Lookup α) depth active (s : LookupState) r,
        x.interpret (remembering depth active) s = some r → s.atlas.LeadsTo r.2.atlas)
    ∧ (∀ a, (empty version files libraries).LeadsTo a →
        (∀ (op : Operation) key, op.key? a = some key → key ∈ (op.perform a).settledKeys)
        ∧ (∀ key, key ∈ (a.request key).2.settledKeys)
        ∧ (∀ key ∈ a.settledKeys, ∃ slot id, slot.IsFor key ∧ id.number < a.modules.length
            ∧ ∀ b, a.LeadsTo b → b.Answers key slot ∧ b.graphId? key = some id)
        ∧ ∀ key key' id, a.graphId? key = some id → a.graphId? key' = some id → key = key')
    ∧ ∀ ops : List Operation,
        ∀ ref ∈ (empty version files libraries).given ops,
        ∀ ref' ∈ (empty version files libraries).given ops,
          (((empty version files libraries).after ops).entityKey? ref).isSome = true
          ∧ (ref = ref' ↔ ((empty version files libraries).after ops).entityKey? ref
              = ((empty version files libraries).after ops).entityKey? ref') := by
  have hempty := numbered_empty version files libraries
  refine ⟨LeadsTo.perform, fun _ _ _ _ _ => LeadsTo.interpret, fun a ha => ?_, fun ops => ?_⟩
  · have hnumbered := hempty.mono ha
    refine ⟨fun op key => mem_settledKeys_perform, fun key => a.mem_settledKeys_settle key _,
      fun key hkey => ?_, fun key key' id => hnumbered.key_eq⟩
    obtain ⟨slot, hslot⟩ := exists_lookup_of_mem_keys hkey
    obtain ⟨id, hid, hbelow⟩ := hnumbered.exists_graphId hkey
    refine ⟨slot, id, hnumbered.isFor _ (mem_of_lookup hslot), hbelow, fun b hb => ?_⟩
    exact ⟨answers_of_lookup (hb.lookup_modules hslot), hnumbered.graphId?_of_leadsTo hb hid⟩
  · have hnumbered := hempty.mono (.after _ ops)
    have hsettled := (fit_empty version files libraries).settled_of_given ops (.refl _)
    intro ref href ref' href'
    exact hnumbered.entityKey?_inj (hsettled ref href) (hsettled ref' href')

/-! ### Registered texts -/

end Atlas

end PyAtlas
