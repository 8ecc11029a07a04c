import PyAtlas.Proofs.Atlas.Correspondence
import PyAtlas.Proofs.Atlas.Memory
import PyAtlas.Proofs.Atlas.Reach

/-!
# The room that lookups take

Names of modules are put together while lookups run: a name in a module that lists its exports
may mean a module inside it. Still no name is put together from one that was put together
before, because only a module that is there names others. So from some modules on only finitely
many can ever be asked for. Together with the bound on how deep calls are nested this says that
looking up comes to an end in a room known beforehand.

## Key definitions
- `Atlas.horizon`: all modules that can be asked for from some modules on.
- `Atlas.Asked`: what comes of one question after the other.

## Key results
- `Atlas.Within.ask`: asking leads to nothing beyond a closed set of modules.
- `rememberingWith_congr`: a task under way is not begun again.
- `Atlas.lookups_terminate`: all of this together.
-/

namespace PyAtlas

/-! ### The modules an atlas may come to hold -/

namespace Atlas

/-- The modules that remembered answers lead to. -/
def rememberedKeys (a : Atlas) : List ModuleKey :=
  a.membersMemo.flatMap (fun entry => entry.2.entries.map (·.2.module))
    ++ a.basesMemo.flatMap (fun entry => entry.2.map (·.module))
    ++ a.importMemo.map (·.2.module)

/-- All modules that can be asked for, from some modules on. -/
def horizon (a : Atlas) (given : List ModuleKey) : List ModuleKey :=
  given ++ a.presentKeys ++ a.rememberedKeys
    ++ a.presentKeys.flatMap (fun key => (a.graph key).mentioned key)
    ++ Version.all.map fun version => ⟨version.builtinsModule, version⟩

theorem subset_horizon (a : Atlas) (given : List ModuleKey) {key : ModuleKey}
    (h : key ∈ given ++ a.presentKeys ++ a.rememberedKeys) : key ∈ a.horizon given :=
  List.mem_append_left _ (List.mem_append_left _ h)

/-- What is beyond the modules that are present mentions no others. -/
theorem closed_horizon (a : Atlas) (given : List ModuleKey) :
    a.world.Closed (a.horizon given) := by
  refine ⟨fun key _ other hother => ?_, fun key _ => ?_⟩
  · by_cases hkey : key ∈ a.presentKeys
    · refine List.mem_append_left _ (List.mem_append_right _ ?_)
      exact List.mem_flatMap.2 ⟨key, hkey, hother⟩
    -- A module that is not present is a stand-in, and that mentions nothing.
    · have hgraph : (a.world key).graph = .standIn key.name key.version :=
        graph_of_not_present hkey
      rw [hgraph] at hother
      cases hother
  · exact List.mem_append_right _ (List.mem_map.2 ⟨_, key.version.mem_all, rfl⟩)

end Atlas

/-! ### What an atlas holds -/

/-- What is remembered leads to the modules listed. -/
theorem Atlas.mem_rememberedKeys (a : Atlas) {t : Task} {answer : t.Answer} {ref : EntityRef}
    (h : t.known a = some answer) (href : ref ∈ t.refs answer) :
    ref.module ∈ a.rememberedKeys := by
  cases t with
  | members subject access =>
    have hmemo := mem_of_lookup h
    obtain ⟨entry, hentry, rfl⟩ := List.mem_map.1 href
    refine List.mem_append_left _ (List.mem_append_left _ (List.mem_flatMap.2 ⟨_, hmemo, ?_⟩))
    exact List.mem_map.2 ⟨entry, hentry, rfl⟩
  | bases subject =>
    have hmemo := mem_of_lookup h
    refine List.mem_append_left _ (List.mem_append_right _ (List.mem_flatMap.2 ⟨_, hmemo, ?_⟩))
    exact List.mem_map.2 ⟨ref, href, rfl⟩
  | follow subject =>
    have hmemo := mem_of_lookup h
    rw [List.mem_singleton.1 href]
    exact List.mem_append_right _ (List.mem_map.2 ⟨_, hmemo, rfl⟩)

/-! ### Performing such lookups -/

/-- The modules of an atlas, and all that it remembers, are of the given modules. -/
structure Atlas.Within (keys : List ModuleKey) (a : Atlas) : Prop where
  modules : ∀ entry ∈ a.modules, entry.1 ∈ keys
  known : ∀ (t : Task) answer, t.known a = some answer → RefsIn keys (t.refs answer)

namespace Atlas.Within

variable {keys : List ModuleKey} {a : Atlas}

theorem request {key : ModuleKey} (h : a.Within keys) (hkey : key ∈ keys) :
    (a.request key).2.Within keys := by
  refine ⟨fun entry hentry => ?_, fun t answer hknown => ?_⟩
  · rcases mem_modules_settle hentry with hentry | heq
    · exact h.modules entry hentry
    · rw [heq]
      exact hkey
  · rw [Atlas.request, Task.known_settle] at hknown
    exact h.known t answer hknown

theorem note {t : Task} {answer : t.Answer} (h : a.Within keys)
    (hanswer : RefsIn keys (t.refs answer)) : (t.note a answer).Within keys := by
  refine ⟨fun entry hentry => ?_, fun t' answer' hknown => ?_⟩
  · rw [Task.modules_note] at hentry
    exact h.modules entry hentry
  · rcases Task.known_note hknown with heq | hknown
    · cases heq
      exact hanswer
    · exact h.known t' answer' hknown

end Atlas.Within

/-- Where the modules are those of the contract and nothing is beyond the given ones, what a
    computation yields has a property, and it leaves the atlas so. -/
def Judgement.within (w : World) (keys : List ModuleKey) : Judgement Run where
  Holds p Q := ∀ s r, s.atlas.world = w → s.atlas.Within keys → p s = some r →
    r.2.atlas.world = w ∧ r.2.atlas.Within keys ∧ Q r.1
  pure h := by
    rintro s _ hworld hwithin ⟨⟩
    exact ⟨hworld, hwithin, h⟩
  bind hp hf s r hworld hwithin hr := by
    obtain ⟨⟨a, s'⟩, ha, hr⟩ := Option.bind_eq_some_iff.1 hr
    obtain ⟨hworld', hwithin', hQ⟩ := hp s _ hworld hwithin ha
    exact hf a hQ s' r hworld' hwithin' hr

section Performing

variable {w : World} {keys : List ModuleKey}

theorem within_request {key : ModuleKey} (h : key ∈ keys) :
    (Judgement.within w keys).Holds (Run.request key) fun slot => slot = w key ∧ True := by
  rintro s _ rfl hwithin ⟨⟩
  exact ⟨s.atlas.world_request key, hwithin.request h, s.atlas.request_fst key, trivial⟩

theorem within_attend {active : CallStack} {t : Task} {compute : t ∉ active.tasks → Run t.Answer}
    (h : ∀ fresh, (Judgement.within w keys).Holds (compute fresh)
      fun answer => RefsIn keys (t.refs answer))
    (hcut : RefsIn keys (t.refs t.cut)) :
    (Judgement.within w keys).Holds (attend active t compute)
      fun answer => RefsIn keys (t.refs answer) := by
  rintro s ⟨answer, s'⟩ hworld hwithin hr
  rcases attend_cases hr with ⟨hknown, rfl⟩ | ⟨-, rfl, rfl⟩ | ⟨fresh, s₁, hcompute, rfl⟩
  -- The answer was known, or the task was cut, or the answer was computed and may be noted.
  · exact ⟨hworld, hwithin, hwithin.known t answer hknown⟩
  · exact ⟨hworld, hwithin, hcut⟩
  · obtain ⟨hworld₁, hwithin₁, hanswer⟩ := h fresh s _ hworld hwithin hcompute
    refine ⟨(world_conclude ..).trans hworld₁, ?_, hanswer⟩
    rw [conclude]
    split
    · exact hwithin₁.note hanswer
    · exact hwithin₁

theorem Task.refsIn_cut {t : Task} (h : t.subject.module ∈ keys) : RefsIn keys (t.refs t.cut) := by
  cases t with
  | members ref access => exact fun _ hmem => nomatch hmem
  | bases ref => exact fun _ hmem => nomatch hmem
  | follow ref => exact List.forall_mem_singleton.2 h

/-- Tasks with a memory keep to a closed set of modules. -/
theorem honors_remembering (hw : w.Closed keys) (depth : Nat) (active : CallStack) :
    (remembering depth active).Honors (.within w keys) (.within w keys) := by
  induction depth generalizing active with
  | zero =>
    refine ⟨fun _ => within_request, fun t _ s r _ _ hr => ?_, fun _ _ _ s r _ _ hr => ?_⟩
    · cases hr
    · cases hr
  | succ depth ih =>
    refine ⟨fun _ => within_request, fun t ht => ?_, fun order ref h => ?_⟩
    · refine within_attend (fun fresh => ?_) (Task.refsIn_cut ht)
      exact (Task.staysIn_body hw ht).interpret (ih (active.push t fresh))
    · exact (Lookup.staysIn_visitBody h.1 h.2).interpret (ih active)

/-- Asking about an entity of a closed set of modules leads to nothing beyond. -/
theorem Atlas.Within.ask {a : Atlas} (hw : a.world.Closed keys) (h : a.Within keys) {q : Question}
    (hq : q.subject.module ∈ keys) :
    (Atlas.ask q a).2.world = a.world ∧ (Atlas.ask q a).2.Within keys
      ∧ RefsIn keys (q.refs (Atlas.ask q a).1) := by
  obtain ⟨s, hrun, hatlas⟩ := Atlas.run_of_callDepth q (Nat.le_refl a.callDepth)
  rw [hatlas]
  exact (Question.staysIn_lookup hw hq).interpret (honors_remembering hw _ _) ⟨a, 0⟩ _ rfl h hrun

/-- An atlas is within its own horizon. -/
theorem Atlas.within_horizon (a : Atlas) (given : List ModuleKey) :
    a.Within (a.horizon given) := by
  refine ⟨fun entry hentry => a.subset_horizon given ?_, fun t answer hknown ref href =>
    a.subset_horizon given ?_⟩
  · have hpresent : entry.1 ∈ a.presentKeys :=
      List.mem_append_left _ (List.mem_map.2 ⟨entry, hentry, rfl⟩)
    exact List.mem_append_left _ (List.mem_append_right _ hpresent)
  · exact List.mem_append_right _ (a.mem_rememberedKeys hknown href)

end Performing

/-! ### One question after the other -/

/-- What comes of one question after the other. Each is about an entity of a module that was
    given or that an earlier answer leads to. -/
inductive Atlas.Asked (given : List ModuleKey) (a : Atlas) : List ModuleKey → Atlas → Prop
  | start : Asked given a given a
  | ask {known : List ModuleKey} {b : Atlas} (q : Question) : Asked given a known b →
      q.subject.module ∈ known →
      Asked given a (known ++ (q.refs (Atlas.ask q b).1).map (·.module)) (Atlas.ask q b).2

/-- No questions lead beyond the horizon. -/
theorem Atlas.Asked.within_horizon {given known : List ModuleKey} {a b : Atlas}
    (h : a.Asked given known b) :
    b.world = a.world ∧ b.Within (a.horizon given) ∧ ∀ key ∈ known, key ∈ a.horizon given := by
  induction h with
  | start =>
    refine ⟨rfl, a.within_horizon given, fun key hkey => a.subset_horizon given ?_⟩
    exact List.mem_append_left _ (List.mem_append_left _ hkey)
  | @ask known b q _ hq ih =>
    obtain ⟨hworld, hwithin, hknown⟩ := ih
    have hclosed : b.world.Closed (a.horizon given) := hworld ▸ a.closed_horizon given
    obtain ⟨hworld', hwithin', hrefs⟩ := hwithin.ask hclosed (hknown _ hq)
    exact ⟨hworld'.trans hworld, hwithin',
      List.forall_mem_append.2 ⟨hknown, List.forall_mem_map.2 hrefs⟩⟩

/-! ### Tasks under way -/

/-- Tasks under way are not begun again: whatever was to be done for them, it is not looked
    at. -/
theorem rememberingWith_congr {bodies : (t : Task) → Lookup t.Answer} {active : CallStack}
    (h : ∀ t, t ∉ active.tasks → bodies t = t.body) (depth : Nat) :
    rememberingWith bodies depth active = remembering depth active := by
  induction depth generalizing active with
  | zero => rfl
  | succ depth ih =>
    have hbody : ∀ t fresh, (bodies t).interpret (rememberingWith bodies depth (active.push t fresh))
        = t.body.interpret (remembering depth (active.push t fresh)) := by
      -- Beneath a fresh task fewer bodies matter, since the task is under way as well.
      intro t fresh
      rw [h t fresh, ih fun t' ht' => h t' fun hmem => ht' (List.mem_cons_of_mem t hmem)]
    rw [rememberingWith, remembering, rememberingWith]
    simp only [hbody, ih h]

/-! ### Everything together -/

/-- Classes are visited once, however deep calls may be nested. -/
theorem visitsMore_of_visit {depth : Nat} {active : CallStack} {order order' : List EntityRef}
    {ref : EntityRef} {s s' : LookupState}
    (h : (remembering depth active).visit order ref s = some (order', s')) :
    VisitsMore order order' := by
  -- At the call depth of the atlas the visit is known to grow, and the answer there is the same.
  have hdeeper := (remembering_deeper active (Nat.le_max_left depth s.atlas.callDepth)).visit
    order ref s _ h
  obtain ⟨more, s'', hvisit, -, hmore⟩ :=
    (s.atlas.answers_of_callDepth active (Nat.le_max_right depth s.atlas.callDepth)).visit
      order ref s rfl
  rw [hdeeper] at hvisit
  cases hvisit
  exact hmore

namespace Atlas

/-- Looking up comes to an end. Every question is answered at a depth known beforehand, at which
    nothing is cut short. Beneath a task under way the same task is not begun again. No class is
    visited twice. And however many questions are asked, no module beyond the horizon is asked
    for. -/
theorem lookups_terminate (a : Atlas) :
    (∀ (q : Question) (depth : Nat), a.callDepth ≤ depth →
      ∃ s, q.lookup.run a depth = some ((ask q a).1, s) ∧ (ask q a).2 = s.atlas)
    ∧ (∀ (bodies : (t : Task) → Lookup t.Answer) (active : CallStack) (depth : Nat),
      (∀ t, t ∉ active.tasks → bodies t = t.body) →
      rememberingWith bodies depth active = remembering depth active)
    ∧ (∀ (depth : Nat) (active : CallStack) (order order' : List EntityRef) (ref : EntityRef)
      (s s' : LookupState), (remembering depth active).visit order ref s = some (order', s') →
      VisitsMore order order')
    ∧ (∀ (given known : List ModuleKey) (b : Atlas), a.Asked given known b →
      ∀ entry ∈ b.modules, entry.1 ∈ a.horizon given) :=
  ⟨fun q _ => run_of_callDepth q, fun _ _ depth h => rememberingWith_congr h depth,
    fun _ _ _ _ _ _ _ => visitsMore_of_visit, fun _ _ _ h => h.within_horizon.2.1.modules⟩

end Atlas

end PyAtlas
