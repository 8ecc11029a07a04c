import PyAtlas.Atlas.Extent

/-!
# Lookups come to an end

Calls can be nested without an end in two ways only: a task calls for tasks, and a visit to a
class calls for visits to its bases. No task is under way twice, and only finitely many have
anything to ask for. No class is visited twice, and there are only finitely many of them. So
there is a depth that is enough for everything that can be asked of the modules of an atlas.

The proof follows this measure: the busy tasks that are not yet under way, and, for a given
stack, the busy classes that have not been visited.

## Key results
- `Atlas.answers_of_callDepth`: calls nested deeply enough always return.
- `Lookup.returns`: so every lookup has an answer.
-/

namespace PyAtlas

variable {w : World}

/-! ### Computations that return -/

/-- Where the modules are `w` the computation returns, leaves them so, and yields something of
    which `Q` holds. -/
def Run.Returns (w : World) {α : Type} (p : Run α) (Q : α → Prop) : Prop :=
  ∀ s : LookupState, s.atlas.world = w →
    ∃ a s', p s = some (a, s') ∧ s'.atlas.world = w ∧ Q a

namespace Run.Returns

variable {α β : Type} {p : Run α} {f : α → Run β} {Q : α → Prop} {R : β → Prop}

theorem pure {a : α} (h : Q a) : Returns w (Pure.pure a) Q :=
  fun s hs => ⟨a, s, rfl, hs, h⟩

theorem bind (h : Returns w p Q) (hf : ∀ a, Q a → Returns w (f a) R) : Returns w (p >>= f) R := by
  intro s hs
  obtain ⟨a, s', hp, hs', ha⟩ := h s hs
  obtain ⟨b, s'', hb, hs'', hR⟩ := hf a ha s' hs'
  refine ⟨b, s'', ?_, hs'', hR⟩
  show (p s).bind (fun r => f r.1 r.2) = _
  rw [hp]
  exact hb

theorem weaken {Q' : α → Prop} (h : Returns w p Q) (hQ : ∀ a, Q a → Q' a) : Returns w p Q' := by
  intro s hs
  obtain ⟨a, s', hp, hs', ha⟩ := h s hs
  exact ⟨a, s', hp, hs', hQ a ha⟩

theorem request (key : ModuleKey) : Returns w (Run.request key) (· = w key) := by
  intro s hs
  refine ⟨(s.atlas.request key).1, ⟨(s.atlas.request key).2, s.cuts⟩, rfl, ?_, ?_⟩
  · exact (s.atlas.world_request key).trans hs
  · rw [Atlas.request_fst, ← hs]
    rfl

end Run.Returns

theorem Task.world_note (a : Atlas) (t : Task) (answer : t.Answer) :
    (t.note a answer).world = a.world := by
  cases t <;> rfl

theorem world_conclude (active : CallStack) (t : Task) (cuts : Nat) (answer : t.Answer)
    (s : LookupState) : (conclude active t cuts answer s).atlas.world = s.atlas.world := by
  rw [conclude]
  split
  · exact t.world_note _ _
  · rfl

/-- A task is attended to if a task that is not under way can be. -/
theorem returns_attend {active : CallStack} {t : Task} {compute : t ∉ active.tasks → Run t.Answer}
    (h : ∀ fresh, Run.Returns w (compute fresh) fun _ => True) :
    Run.Returns w (attend active t compute) fun _ => True := by
  intro s hs
  rw [attend]
  cases t.known s.atlas with
  | some answer => exact ⟨answer, s, rfl, hs, trivial⟩
  | none =>
    by_cases hactive : t ∈ active.tasks
    · exact ⟨t.cut, ⟨s.atlas, s.cuts + 1⟩, dif_pos hactive, hs, trivial⟩
    · obtain ⟨answer, s', hcompute, hs', -⟩ := h hactive s hs
      refine ⟨answer, conclude active t s.cuts answer s', ?_, ?_, trivial⟩
      · exact (dif_neg hactive).trans (congrArg (Option.map _) hcompute)
      · exact (world_conclude _ _ _ _ _).trans hs'

/-! ### Lookups that return -/

/-- The classes of `more` are those of `order` and then others, none of them twice. -/
structure VisitsMore (order more : List EntityRef) : Prop where
  isPrefix : order <+: more
  nodup : order.Nodup → more.Nodup

namespace VisitsMore

variable {order more most : List EntityRef} {ref : EntityRef}

theorem refl (order : List EntityRef) : VisitsMore order order := ⟨List.prefix_refl order, id⟩

theorem trans (h : VisitsMore order more) (h' : VisitsMore more most) : VisitsMore order most :=
  ⟨h.isPrefix.trans h'.isPrefix, fun hnodup => h'.nodup (h.nodup hnodup)⟩

/-- One class that was not visited before. -/
theorem new (h : ref ∉ order) : VisitsMore order (order ++ [ref]) := by
  refine ⟨List.prefix_append order [ref], fun hnodup => List.nodup_append.2 ⟨hnodup, ?_, ?_⟩⟩
  · exact List.nodup_cons.2 ⟨List.not_mem_nil, List.nodup_nil⟩
  · rintro cls hcls _ hmem rfl
    exact h (List.mem_singleton.1 hmem ▸ hcls)

end VisitsMore

/-- The handler answers all that lookups ask for. -/
structure Handler.Answers (w : World) (h : Handler Run) : Prop where
  request : ∀ key, Run.Returns w (h.request key) (· = w key)
  task : ∀ t, Run.Returns w (h.task t) fun _ => True
  visit : ∀ order ref, Run.Returns w (h.visit order ref) (VisitsMore order)

theorem Handler.Answers.interpret {h : Handler Run} (hh : h.Answers w) {α : Type} (x : Lookup α) :
    Run.Returns w (x.interpret h) fun _ => True := by
  induction x with
  | done a => exact .pure trivial
  | request key next ih => exact (hh.request key).bind fun slot _ => ih slot
  | task t next ih => exact (hh.task t).bind fun answer _ => ih answer
  | visit order ref next ih => exact (hh.visit order ref).bind fun order' _ => ih order'

theorem Lookup.Quiet.returns {h : Handler Run}
    (hrequest : ∀ key, Run.Returns w (h.request key) (· = w key)) {α : Type} {x : Lookup α}
    (hx : x.Quiet w) : Run.Returns w (x.interpret h) fun _ => True := by
  induction x with
  | done a => exact .pure trivial
  | request key next ih =>
    refine (hrequest key).bind ?_
    rintro _ rfl
    exact ih _ hx
  | task _ _ => exact hx.elim
  | visit _ _ _ => exact hx.elim

theorem returns_remembering_request (depth : Nat) (active : CallStack) (key : ModuleKey) :
    Run.Returns w ((remembering depth active).request key) (· = w key) := by
  cases depth <;> exact .request key

/-! ### Counting what is left -/

/-- The number of items of a list that are not in another one. -/
def countLeft {α : Type} [DecidableEq α] (all done : List α) : Nat :=
  all.countP (· ∉ done)

section CountLeft

variable {α : Type} [DecidableEq α] {all done more : List α} {x : α}

theorem countLeft_le_of_subset (all : List α) (h : ∀ y ∈ done, y ∈ more) :
    countLeft all more ≤ countLeft all done := by
  refine List.countP_mono_left fun y _ hy => ?_
  rw [decide_eq_true_eq] at hy ⊢
  exact fun hmem => hy (h y hmem)

theorem countLeft_lt (hx : x ∈ all) (hdone : x ∉ done) (hmore : x ∈ more)
    (h : ∀ y ∈ done, y ∈ more) : countLeft all more < countLeft all done := by
  obtain ⟨front, back, rfl⟩ := List.append_of_mem hx
  have hfront := countLeft_le_of_subset front h
  have hback := countLeft_le_of_subset back h
  simp only [countLeft] at hfront hback ⊢
  rw [List.countP_append, List.countP_append, List.countP_cons_of_neg (by simpa using hmore),
    List.countP_cons_of_pos (by simpa using hdone)]
  omega

end CountLeft

/-- All tasks on some entities. -/
def tasksOn (refs : List EntityRef) : List Task :=
  refs.flatMap fun ref => [.members ref .unqualified, .members ref .onClass,
    .members ref .onInstance, .bases ref, .follow ref]

theorem mem_tasksOn {refs : List EntityRef} {t : Task} (h : t.subject ∈ refs) :
    t ∈ tasksOn refs := by
  refine List.mem_flatMap.2 ⟨_, h, ?_⟩
  cases t with
  | members ref access => cases access <;> simp [Task.subject]
  | bases ref => simp [Task.subject]
  | follow ref => simp [Task.subject]

theorem length_tasksOn (refs : List EntityRef) : (tasksOn refs).length = 5 * refs.length := by
  simp only [tasksOn, List.length_flatMap, List.length_cons, List.length_nil, List.map_const',
    List.sum_replicate_nat]
  omega

/-! ### How deep calls go -/

section Depth

variable {busy : List EntityRef}

/-- A task that is not under way returns if it is inert, or if everything returns beneath it. -/
theorem returns_task (hbusy : ∀ ref, ref ∉ busy → w.Inert ref) {active : CallStack} {depth : Nat}
    (h : ∀ t fresh, t ∈ tasksOn busy → (remembering depth (active.push t fresh)).Answers w)
    (t : Task) : Run.Returns w ((remembering (depth + 1) active).task t) fun _ => True := by
  refine returns_attend fun fresh => ?_
  by_cases hsubject : t.subject ∈ busy
  · exact (h t fresh (mem_tasksOn hsubject)).interpret t.body
  · exact (Task.quiet_of_inert (hbusy _ hsubject)).returns (returns_remembering_request _ _)

/-- Visits to some bases one after the other. -/
theorem returns_visits {h : Handler Run} {start order : List EntityRef}
    (hstart : VisitsMore start order)
    (hvisit : ∀ order ref, VisitsMore start order →
      Run.Returns w (h.visit order ref) (VisitsMore order))
    (bases : List EntityRef) :
    Run.Returns w
      ((bases.foldlM (fun order base => Lookup.visit order base .done) order).interpret h)
      (VisitsMore order) := by
  induction bases generalizing order with
  | nil => exact .pure (.refl order)
  | cons base bases ih =>
    rw [List.foldlM_cons, Lookup.interpret_bind]
    refine Run.Returns.bind (Q := VisitsMore order) ?_ fun order' horder =>
      (ih (hstart.trans horder)).weaken fun _ hmore => horder.trans hmore
    exact (hvisit order base hstart).bind fun order' horder => .pure horder

/-- The bases of a class are found once tasks return. -/
theorem returns_bases {h : Handler Run}
    (hrequest : ∀ key, Run.Returns w (h.request key) (· = w key))
    (htask : ∀ t, Run.Returns w (h.task t) fun _ => True) (ref : EntityRef) :
    Run.Returns w ((Lookup.bases ref).interpret h) fun _ => True := by
  refine (hrequest ref.module).bind ?_
  rintro _ rfl
  show Run.Returns w ((if _ then _ else _ : Lookup _).interpret h) _
  split
  · exact (htask _).bind fun _ _ => .pure trivial
  · exact .pure trivial

/-- Visits return once tasks do: every new class is one class less. -/
theorem returns_visit (hbusy : ∀ ref, ref ∉ busy → w.Inert ref) {active : CallStack} {depth : Nat}
    (htask : ∀ depth', depth ≤ depth' → ∀ t,
      Run.Returns w ((remembering depth' active).task t) fun _ => True)
    {left : Nat} {order : List EntityRef} (hleft : countLeft busy order < left) {depth' : Nat}
    (hdepth : depth + left ≤ depth') (ref : EntityRef) :
    Run.Returns w ((remembering depth' active).visit order ref) (VisitsMore order) := by
  induction left generalizing order depth' ref with
  | zero => exact absurd hleft (Nat.not_lt_zero _)
  | succ left ih =>
    obtain ⟨depth', rfl⟩ : ∃ n, depth' = n + 1 := ⟨depth' - 1, by omega⟩
    refine (returns_remembering_request depth' active ref.module).bind ?_
    rintro _ rfl
    show Run.Returns w ((if _ then _ else _ : Lookup _).interpret _) _
    split
    · next hnew =>
      have hmem : ref ∈ busy := Classical.byContradiction fun hnot =>
        ModuleGraph.class?_isSome_of_type hnew.1 (hbusy ref hnot).notClass
      rw [Lookup.interpret_bind]
      refine (returns_bases (returns_remembering_request depth' active)
        (htask depth' (by omega)) ref).bind fun bases _ => ?_
      refine (returns_visits (.refl (order ++ [ref])) (fun order' base horder => ?_)
        bases).weaken fun _ => (VisitsMore.new hnew.2).trans
      have hfewer : countLeft busy order' < countLeft busy order :=
        countLeft_lt hmem hnew.2 (horder.isPrefix.subset (by simp))
          fun y hy => horder.isPrefix.subset (List.mem_append_left _ hy)
      exact ih (by omega) (by omega) base
    · exact .pure (.refl order)

/-- Everything returns if calls may be nested a number of times for every busy task that is
    left. -/
theorem answers_of_left (hbusy : ∀ ref, ref ∉ busy → w.Inert ref) {left : Nat}
    {active : CallStack} {depth : Nat} (hleft : countLeft (tasksOn busy) active.tasks < left)
    (hdepth : left * (busy.length + 2) ≤ depth) : (remembering depth active).Answers w := by
  induction left generalizing active depth with
  | zero => exact absurd hleft (Nat.not_lt_zero _)
  | succ left ih =>
    rw [Nat.succ_mul] at hdepth
    have htask : ∀ depth', left * (busy.length + 2) + 1 ≤ depth' → ∀ t,
        Run.Returns w ((remembering depth' active).task t) fun _ => True := by
      intro depth' hless t
      obtain ⟨depth', rfl⟩ : ∃ n, depth' = n + 1 := ⟨depth' - 1, by omega⟩
      refine returns_task hbusy (fun t' fresh hmem => ih ?_ (by omega)) t
      have hfewer : countLeft (tasksOn busy) (active.push t' fresh).tasks
          < countLeft (tasksOn busy) active.tasks :=
        countLeft_lt hmem fresh List.mem_cons_self fun _ => List.mem_cons_of_mem _
      omega
    refine ⟨returns_remembering_request _ _, htask depth (by omega), fun order ref => ?_⟩
    have hall : countLeft busy order < busy.length + 1 :=
      Nat.lt_succ_of_le List.countP_le_length
    exact returns_visit hbusy htask hall (by omega) ref

end Depth

/-- How deep calls are nested at most. -/
def Atlas.callDepth (a : Atlas) : Nat :=
  (5 * a.busyEntities.length + 1) * (a.busyEntities.length + 2)

/-- Calls nested deeply enough always return. -/
theorem Atlas.answers_of_callDepth (a : Atlas) (active : CallStack) {depth : Nat}
    (h : a.callDepth ≤ depth) : (remembering depth active).Answers a.world := by
  refine answers_of_left (fun _ => Atlas.inert_of_not_mem) ?_ h
  refine Nat.lt_succ_of_le ?_
  rw [← length_tasksOn]
  exact List.countP_le_length

/-- Every lookup has an answer in every atlas. -/
theorem Lookup.returns {α : Type} (x : Lookup α) (a : Atlas) {depth : Nat}
    (h : a.callDepth ≤ depth) :
    ((x.interpret (remembering depth .empty)) ⟨a, 0⟩).isSome = true := by
  obtain ⟨answer, s, hrun, -⟩ := (a.answers_of_callDepth .empty h).interpret x ⟨a, 0⟩ rfl
  rw [hrun]
  rfl

end PyAtlas
