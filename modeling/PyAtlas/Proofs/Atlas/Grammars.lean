import PyAtlas.Proofs.Atlas.Bounds
import PyAtlas.Proofs.Atlas.Identity
import PyAtlas.Proofs.Atlas.Refinement

/-!
# One version at a time

A module that was read under a version mentions modules under that version only: its imports, its
exports and the names visible everywhere are all asked for under the version of the graph that they
are in. So the modules of one version among those that lookups may ask for are closed, and a lookup
about one of them stays there. The memos are kept so as well, since what is noted of a task was
found by such a lookup. Which version modules are read under unless another is asked for does not
matter.

## Key definitions
- `ModuleKey.under`: of some modules, those of a version.
- `Atlas.Unmixed`: an atlas that remembers nothing of other versions about an entity.
- `Atlas.HoldsUnder`: an entity of a module that is there, in a graph of a version.

## Key results
- `World.Closed.under`: nothing leads from the modules of a version to others.
- `unmixed_remembering`: tasks keep to the version of their entity.
- `Atlas.answers_keep_version`: the same for all answers of an atlas.
-/

namespace PyAtlas

/-! ### Modules of a version -/

/-- Of some modules, those that are read under a version. -/
def ModuleKey.under (v : Version) (keys : List ModuleKey) : List ModuleKey :=
  keys.filter (·.version == v)

theorem ModuleKey.mem_under {v : Version} {keys : List ModuleKey} {key : ModuleKey} :
    key ∈ under v keys ↔ key ∈ keys ∧ key.version = v := by
  rw [under, List.mem_filter, beq_iff_eq]

theorem ImportTarget.version_of_mem_keys {version : Version} {target : ImportTarget}
    {key : ModuleKey} (h : key ∈ target.keys version) : key.version = version := by
  cases target with
  | unresolved => cases h
  | module name => rw [List.mem_singleton.1 h]
  | member source name =>
    rcases List.mem_cons.1 h with rfl | h
    · rfl
    · rw [List.mem_singleton.1 h]

/-- A module mentions others under its own version. -/
theorem ModuleGraph.version_of_mentioned {g : ModuleGraph} {key other : ModuleKey}
    (h : other ∈ g.mentioned key) : other.version = key.version := by
  rcases List.mem_append.1 h with h | h
  · rcases List.mem_append.1 h with h | h
    · obtain ⟨e, -, hkind⟩ := List.mem_flatMap.1 h
      split at hkind
      · exact ImportTarget.version_of_mem_keys hkind
      · cases hkind
    · obtain ⟨target, -, htarget⟩ := List.mem_flatMap.1 h
      exact ImportTarget.version_of_mem_keys htarget
  · obtain ⟨name, -, rfl⟩ := List.mem_map.1 h
    rfl

/-- Nothing leads from the modules of a version to those of another. -/
theorem World.Closed.under {w : World} {keys : List ModuleKey} (h : w.Closed keys) (v : Version) :
    w.Closed (ModuleKey.under v keys) := by
  constructor
  · intro key hkey other hother
    obtain ⟨hmem, hversion⟩ := ModuleKey.mem_under.1 hkey
    have hsame := ModuleGraph.version_of_mentioned hother
    exact ModuleKey.mem_under.2 ⟨h.mentioned key hmem other hother, hsame.trans hversion⟩
  · intro key hkey
    obtain ⟨hmem, hversion⟩ := ModuleKey.mem_under.1 hkey
    exact ModuleKey.mem_under.2 ⟨h.builtins key hmem, hversion⟩

/-! ### What is remembered of an entity -/

/-- All that is remembered of a task is about modules of the version of its entity. -/
def Atlas.Unmixed (a : Atlas) : Prop :=
  ∀ (t : Task) (answer : t.Answer), t.known a = some answer →
    ∀ ref ∈ t.refs answer, ref.module.version = t.subject.module.version

namespace Atlas.Unmixed

variable {a : Atlas}

theorem settle (h : a.Unmixed) (key : ModuleKey) (answer : Unit → ModuleSlot) :
    (a.settle key answer).2.Unmixed := by
  intro t found hknown
  rw [t.known_settle] at hknown
  exact h t found hknown

theorem note {t : Task} {answer : t.Answer} (h : a.Unmixed)
    (hanswer : ∀ ref ∈ t.refs answer, ref.module.version = t.subject.module.version) :
    (t.note a answer).Unmixed := by
  intro t' answer' hknown
  rcases Task.known_note hknown with heq | hknown
  · cases heq
    exact hanswer
  · exact h t' answer' hknown

end Atlas.Unmixed

/-- Where the modules are those of the world, nothing is beyond the given ones and nothing is mixed,
    what a computation yields has a property, and it leaves the atlas so. -/
def Judgement.unmixed (w : World) (keys : List ModuleKey) : Judgement Run where
  Holds p Q := ∀ s r, s.atlas.world = w → s.atlas.Within keys → s.atlas.Unmixed → p s = some r →
    r.2.atlas.world = w ∧ r.2.atlas.Within keys ∧ r.2.atlas.Unmixed ∧ Q r.1
  pure h := by
    rintro s _ hworld hwithin hunmixed ⟨⟩
    exact ⟨hworld, hwithin, hunmixed, h⟩
  bind hp hf s r hworld hwithin hunmixed hr := by
    obtain ⟨x, s', hx, hr⟩ := Run.bind_eq_some_iff.1 hr
    obtain ⟨hworld', hwithin', hunmixed', hQ⟩ := hp s _ hworld hwithin hunmixed hx
    exact hf x hQ s' r hworld' hwithin' hunmixed' hr

section Performing

variable {w : World} {keys : List ModuleKey} {v : Version}

theorem unmixed_request {key : ModuleKey} (h : key ∈ keys) :
    (Judgement.unmixed w keys).Holds (Run.request key) fun slot => slot = w key ∧ True := by
  rintro s _ rfl hwithin hunmixed ⟨⟩
  have hsettled := hunmixed.settle key fun _ => s.atlas.fetch key
  exact ⟨s.atlas.world_request key, hwithin.request h, hsettled, s.atlas.request_fst key, trivial⟩

/-- A task on an entity of a version is answered by entities of that version. -/
theorem unmixed_attend {active : CallStack} {t : Task}
    {compute : t ∉ active.tasks → Run t.Answer}
    (h : ∀ fresh, (Judgement.unmixed w keys).Holds (compute fresh)
      fun answer => RefsIn (ModuleKey.under v keys) (t.refs answer))
    (ht : t.subject.module ∈ ModuleKey.under v keys) :
    (Judgement.unmixed w keys).Holds (attend active t compute)
      fun answer => RefsIn (ModuleKey.under v keys) (t.refs answer) := by
  have hsubject : t.subject.module.version = v := (ModuleKey.mem_under.1 ht).2
  rintro s ⟨answer, s'⟩ hworld hwithin hunmixed hr
  rcases attend_cases hr with ⟨hknown, rfl⟩ | ⟨-, rfl, rfl⟩ | ⟨fresh, s₁, hcompute, rfl⟩
  · -- What is remembered keeps to the version of the entity, which is `v`.
    refine ⟨hworld, hwithin, hunmixed, fun ref href => ModuleKey.mem_under.2 ⟨?_, ?_⟩⟩
    · exact hwithin.known t answer hknown ref href
    · exact (hunmixed t answer hknown ref href).trans hsubject
  · exact ⟨hworld, hwithin, hunmixed, Task.refsIn_cut ht⟩
  · obtain ⟨hworld₁, hwithin₁, hunmixed₁, hanswer⟩ :=
      h fresh s _ hworld hwithin hunmixed hcompute
    have hkeys : RefsIn keys (t.refs answer) := fun ref href =>
      (ModuleKey.mem_under.1 (hanswer ref href)).1
    have hversion : ∀ ref ∈ t.refs answer, ref.module.version = t.subject.module.version :=
      fun ref href => (ModuleKey.mem_under.1 (hanswer ref href)).2.trans hsubject.symm
    refine ⟨(world_conclude ..).trans hworld₁, ?_, ?_, hanswer⟩
    · rw [conclude]
      split
      · exact hwithin₁.note hkeys
      · exact hwithin₁
    · rw [conclude]
      split
      · exact hunmixed₁.note hversion
      · exact hunmixed₁

/-- Tasks with a memory keep to the modules of one version, whichever tasks of other versions have
    been performed before. -/
theorem unmixed_remembering (hw : w.Closed keys) (v : Version) (depth : Nat)
    (active : CallStack) :
    (remembering depth active).Honors (.unmixed w keys)
      (.within w (ModuleKey.under v keys)) := by
  have hrequest : ∀ key, key ∈ ModuleKey.under v keys →
      (Judgement.unmixed w keys).Holds (Run.request key) fun slot => slot = w key ∧ True :=
    fun key hkey => unmixed_request (ModuleKey.mem_under.1 hkey).1
  induction depth generalizing active with
  | zero =>
    refine ⟨hrequest, fun t _ s r _ _ _ hr => ?_, fun _ _ _ s r _ _ _ hr => ?_⟩
    · cases hr
    · cases hr
  | succ depth ih =>
    refine ⟨hrequest, fun t ht => ?_, fun order ref h => ?_⟩
    · refine unmixed_attend (fun fresh => ?_) ht
      exact (Task.staysIn_body (hw.under v) ht).interpret (ih (active.push t fresh))
    · exact (Lookup.staysIn_visitBody h.1 h.2).interpret (ih active)

end Performing

/-! ### Questions and operations -/

namespace Atlas

variable {a b : Atlas}

/-- The answer to a question is about modules of the version of its entity. -/
theorem Unmixed.ask (h : a.Unmixed) (q : Question) :
    (Atlas.ask q a).2.Unmixed
      ∧ ∀ ref ∈ q.refs (Atlas.ask q a).1, ref.module.version = q.subject.module.version := by
  have hclosed := a.closed_horizon [q.subject.module]
  have hsubject : q.subject.module
      ∈ ModuleKey.under q.subject.module.version (a.horizon [q.subject.module]) :=
    ModuleKey.mem_under.2 ⟨a.subset_horizon _ List.mem_cons_self, rfl⟩
  obtain ⟨s, hrun, hatlas⟩ := run_of_callDepth q (Nat.le_refl a.callDepth)
  rw [hatlas]
  obtain ⟨-, -, hunmixed, hrefs⟩ := (Question.staysIn_lookup (hclosed.under _) hsubject).interpret
    (unmixed_remembering hclosed _ _ _) ⟨a, 0⟩ _ rfl (a.within_horizon _) h hrun
  exact ⟨hunmixed, fun ref href => (ModuleKey.mem_under.1 (hrefs ref href)).2⟩

theorem Unmixed.perform (h : a.Unmixed) (op : Operation) : (op.perform a).Unmixed := by
  rcases op.asks_or_settles a with ⟨q, rfl⟩ | ⟨key, answer, -, -, heq⟩
  · exact (h.ask q).1
  · rw [heq]
    exact h.settle key answer

theorem Unmixed.after (h : a.Unmixed) (ops : List Operation) : (a.after ops).Unmixed := by
  induction ops generalizing a with
  | nil => exact h
  | cons op ops ih => exact ih (h.perform op)

/-- An atlas that remembers nothing mixes nothing. -/
theorem unmixed_empty (version : Version) (files : FileSystem) (libraries : SearchPath) :
    (empty version files libraries).Unmixed := by
  intro t answer hknown
  cases t <;> cases hknown

/-- A path of names is followed by one question after the other. -/
theorem memberAlong?_cons (a : Atlas) (ref : EntityRef) (name : String) (names : List String) :
    memberAlong? ref (name :: names) a
      = match (ask (.member ref (a.pathAccess ref) name) a).1 with
        | some next =>
          memberAlong? next names (ask (.member ref (a.pathAccess ref) name) a).2
        | none => (none, (ask (.member ref (a.pathAccess ref) name) a).2) := by
  rw [memberAlong?]
  simp only [member?, bind, StateT.bind, get, getThe, MonadStateOf.get, StateT.get, pure]
  split
  rename_i found b hask
  rw [hask]
  cases found <;> rfl

/-- Following a path of names does not leave the version either. -/
theorem Unmixed.memberAlong? (h : a.Unmixed) {ref found : EntityRef} {names : List String}
    (hfound : (Atlas.memberAlong? ref names a).1 = some found) :
    found.module.version = ref.module.version := by
  induction names generalizing a ref with
  | nil =>
    cases hfound
    rfl
  | cons name names ih =>
    obtain ⟨hunmixed, hrefs⟩ := h.ask (.member ref (a.pathAccess ref) name)
    rw [memberAlong?_cons] at hfound
    split at hfound
    · rename_i next hnext
      have hmem : next ∈ (Atlas.ask (.member ref (a.pathAccess ref) name) a).1.toList :=
        Option.mem_toList.2 hnext
      exact (ih hunmixed hfound).trans (hrefs next hmem)
    · cases hfound

/-! ### Graphs of a version -/

/-- A graph has the version that its module is read under. -/
theorem Numbered.version_graph (h : a.Numbered) (key : ModuleKey) :
    (a.graph key).version = key.version := by
  rw [graph, slot_eq_getD_fetch]
  cases hslot : a.modules.lookup key with
  | none => exact (a.isFor_fetch key).version
  | some slot => exact (h.isFor _ (mem_of_lookup hslot)).version

/-- The entity is of a module that the atlas holds, and its graph is of the version. -/
def HoldsUnder (a : Atlas) (v : Version) (ref : EntityRef) : Prop :=
  ∃ slot, a.modules.lookup ref.module = some slot ∧ slot.graph.version = v

theorem Numbered.holdsUnder (h : a.Numbered) {ref : EntityRef}
    (href : ref.module ∈ a.settledKeys) : a.HoldsUnder ref.module.version ref := by
  obtain ⟨slot, hslot⟩ := exists_lookup_of_mem_keys href
  exact ⟨slot, hslot, (h.isFor _ (mem_of_lookup hslot)).version⟩

/-- What is remembered is about modules that have been asked for. -/
theorem Fit.settled_of_known (h : b.Fit a) {t : Task} {answer : t.Answer}
    (hknown : t.known a = some answer) : ∀ ref ∈ t.refs answer, ref.module ∈ b.settledKeys := by
  have hfits := h.fits hknown
  cases t with
  | members subject access => exact List.forall_mem_map.2 hfits
  | bases subject => exact fun ref href => (hfits ref href).settled
  | follow subject =>
    intro ref href
    rw [List.mem_singleton.1 href]
    exact hfits.settled

/-- Modules read under different versions do not mix. Whatever was done before, the entities in the
    answer to a question are in graphs of the version of the graph that the question is about, and
    stay there. All that is remembered of a task is about graphs of the version of its entity, and
    so is what a path of names leads to. -/
theorem answers_keep_version (version : Version) (files : FileSystem) (libraries : SearchPath)
    (ops : List Operation) :
    let a := (empty version files libraries).after ops
    (∀ (q : Question) (later : List Operation), ∀ ref ∈ q.refs (ask q a).1,
      ((ask q a).2.after later).HoldsUnder (a.graph q.subject.module).version ref)
    ∧ (∀ (t : Task) (answer : t.Answer), t.known a = some answer → ∀ ref ∈ t.refs answer,
      a.HoldsUnder (a.graph t.subject.module).version ref)
    ∧ ∀ (ref found : EntityRef) (names : List String),
      (memberAlong? ref names a).1 = some found →
        (a.graph found.module).version = (a.graph ref.module).version := by
  intro a
  have hunmixed : a.Unmixed := (unmixed_empty version files libraries).after ops
  have hnumbered : a.Numbered := (numbered_empty version files libraries).mono (.after _ ops)
  refine ⟨fun q later ref href => ?_, fun t answer hknown ref href => ?_,
    fun ref found names hfound => ?_⟩
  · have hresolved := resolved_of_ask version files libraries ops q (.after _ later) ref href
    have hleads : a.LeadsTo ((ask q a).2.after later) :=
      (LeadsTo.perform a (.ask q)).trans (.after _ later)
    rw [hnumbered.version_graph, ← (hunmixed.ask q).2 ref href]
    exact (hnumbered.mono hleads).holdsUnder hresolved.settled
  · have hfit : a.Fit a := (fit_empty version files libraries).after ops (.refl _)
    rw [hnumbered.version_graph, ← hunmixed t answer hknown ref href]
    exact hnumbered.holdsUnder (hfit.settled_of_known hknown ref href)
  · rw [hnumbered.version_graph, hnumbered.version_graph]
    exact hunmixed.memberAlong? hfound

/-- A base that is taken over from another module, after the same file was read under another
    version and the bases of the class in it were asked for. -/
theorem answers_keep_version_of_two :
    let library := FileTree.put ["m.py"] (.file "from n import *\nclass A(B): pass\n".toUTF8)
      (FileTree.put ["n.py"] (.file "class B: pass\n".toUTF8) (.directory []))
    let basesUnder (v : Version) := Question.bases ⟨⟨"m", v⟩, .declared 0⟩
    let a := (empty .v27 ⟨[("/lib", library)]⟩ ["/lib"]).after
      [.importModule "m" .v27, .importModule "m" .v37, .ask (basesUnder .v27)]
    (ask (basesUnder .v37) a).1 = [⟨⟨"n", .v37⟩, .declared 0⟩]
      ∧ (ask (basesUnder .v37) a).2.HoldsUnder (a.graph ⟨"m", .v37⟩).version
          ⟨⟨"n", .v37⟩, .declared 0⟩ := by
  intro library basesUnder a
  have hanswer : (ask (basesUnder .v37) a).1 = [⟨⟨"n", .v37⟩, .declared 0⟩] :=
    ask_after_of_run 20 (by decide +kernel)
  refine ⟨hanswer, ?_⟩
  refine (answers_keep_version .v27 ⟨[("/lib", library)]⟩ ["/lib"] _).1 (basesUnder .v37) [] _ ?_
  rw [show (basesUnder .v37).refs _ = _ from hanswer]
  exact List.mem_singleton.2 rfl

end Atlas

end PyAtlas
