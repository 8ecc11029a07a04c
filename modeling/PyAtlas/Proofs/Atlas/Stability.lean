import PyAtlas.Proofs.Atlas.Correspondence
import PyAtlas.Proofs.Atlas.Memory
import PyAtlas.Proofs.Module.Naming

/-!
# Answers that stay

An atlas only grows: what was answered to a request stays, and so does what was found out about
a task. A task at which nothing is under way around it is always kept, whether or not something
was cut inside. So all that a question asks for is remembered once the question is answered, and
asking again, whatever has been done in between, only recalls it.

## Key definitions
- `Operation`, `Atlas.after`: what can be done with an atlas, and what comes of it.
- `Atlas.GrowsTo`: atlases that keep all answers of another.
- `Handler.Steps`: handlers that only do what a relation of states allows.
- `recalling`: tasks that are answered from memory and in no other way.

## Key results
- `Operation.asks_or_settles`: all that an operation can do.
- `advances_remembering`: lookups only add to an atlas.
- `corresponds_recalling`: a question that was answered can be recalled.
- `Atlas.answers_stay`: asking again brings the same answer, and names are listed as they are
  found.
-/

namespace PyAtlas

/-! ### What can be done with an atlas -/

/-- What can be done with an atlas. -/
inductive Operation
  | ask (q : Question)
  | importModule (name : String) (version : Version)
  | addSource (name source : String)
  | addLocation (m : ModuleLocation)

/-- The atlas that an operation leaves. -/
def Operation.perform (a : Atlas) : Operation → Atlas
  | ask q => (Atlas.ask q a).2
  | importModule name version => (a.import? name version).2
  | addSource name source => (a.addSource name source).2
  | addLocation m => (a.addLocation m).2

/-- The module that an operation asks for, if it asks for one. -/
def Operation.key? (a : Atlas) : Operation → Option ModuleKey
  | ask _ => none
  | importModule name version => some ⟨name, version⟩
  | addSource name _ => some ⟨name, a.version⟩
  | addLocation m => some ⟨m.name, a.version⟩

/-- An operation asks a question, or it settles what the module is that it asks for. -/
theorem Operation.asks_or_settles (a : Atlas) (op : Operation) :
    (∃ q, op = .ask q)
      ∨ ∃ key answer, op.key? a = some key ∧ (answer ()).IsFor key
          ∧ op.perform a = (a.settle key answer).2 := by
  cases op with
  | ask q => exact .inl ⟨q, rfl⟩
  | importModule name version =>
    exact .inr ⟨⟨name, version⟩, fun _ => a.fetch _, rfl, a.isFor_fetch _, rfl⟩
  | addSource name source =>
    exact .inr ⟨⟨name, a.version⟩, fun _ => .ofSource _ none false source, rfl,
      ModuleSlot.isFor_ofSource _ _ _ _, rfl⟩
  | addLocation m =>
    exact .inr ⟨⟨m.name, a.version⟩, fun _ => .ofLocation a.files a.version m, rfl,
      ModuleSlot.isFor_ofLocation _ _ m, rfl⟩

/-- The atlas that some operations leave, one after the other. -/
def Atlas.after (a : Atlas) (ops : List Operation) : Atlas :=
  ops.foldl Operation.perform a

/-! ### Growing -/

/-- The second atlas has all answers of the first. -/
structure Atlas.GrowsTo (a b : Atlas) : Prop where
  modules : ∀ {key : ModuleKey} {slot : ModuleSlot},
    a.modules.lookup key = some slot → b.modules.lookup key = some slot
  known : ∀ {t : Task} {answer : t.Answer}, t.known a = some answer → t.known b = some answer

theorem Task.known_note_self (a : Atlas) (t : Task) (answer : t.Answer) :
    t.known (t.note a answer) = some answer := by
  cases t <;> exact List.lookup_cons_self

theorem Task.known_note_of_ne {a : Atlas} {t t' : Task} {answer : t.Answer} (h : t' ≠ t) :
    t'.known (t.note a answer) = t'.known a := by
  cases t with
  | members ref access =>
    cases t' with
    | members ref' access' =>
      have hne : ((ref', access') == (ref, access)) = false := beq_eq_false_iff_ne.2 fun heq =>
        h (by rw [(Prod.mk.inj heq).1, (Prod.mk.inj heq).2])
      show (((ref, access), answer) :: a.membersMemo).lookup (ref', access') = _
      rw [List.lookup_cons, hne]
      rfl
    | bases ref' => rfl
    | follow ref' => rfl
  | bases ref =>
    cases t' with
    | bases ref' =>
      have hne : (ref' == ref) = false := beq_eq_false_iff_ne.2 fun heq => h (congrArg _ heq)
      show ((ref, answer) :: a.basesMemo).lookup ref' = _
      rw [List.lookup_cons, hne]
      rfl
    | members ref' access' => rfl
    | follow ref' => rfl
  | follow ref =>
    cases t' with
    | follow ref' =>
      have hne : (ref' == ref) = false := beq_eq_false_iff_ne.2 fun heq => h (congrArg _ heq)
      show ((ref, answer) :: a.importMemo).lookup ref' = _
      rw [List.lookup_cons, hne]
      rfl
    | members ref' access' => rfl
    | bases ref' => rfl

namespace Atlas.GrowsTo

variable {a b c : Atlas}

theorem refl (a : Atlas) : a.GrowsTo a := ⟨id, id⟩

theorem trans (h : a.GrowsTo b) (h' : b.GrowsTo c) : a.GrowsTo c :=
  ⟨fun hslot => h'.modules (h.modules hslot), fun hknown => h'.known (h.known hknown)⟩

theorem settle (a : Atlas) (key : ModuleKey) (answer : Unit → ModuleSlot) :
    a.GrowsTo (a.settle key answer).2 :=
  ⟨Atlas.lookup_settle, fun {t} _ hknown => by rw [t.known_settle, hknown]⟩

/-- An answer that was not known is added to the others. -/
theorem note {t : Task} (h : t.known a = none) (answer : t.Answer) :
    a.GrowsTo (t.note a answer) := by
  refine ⟨fun hslot => by rw [t.modules_note, hslot], fun {t'} _ hknown => ?_⟩
  have hne : t' ≠ t := by
    rintro rfl
    rw [h] at hknown
    cases hknown
  rw [Task.known_note_of_ne hne, hknown]

end Atlas.GrowsTo

/-- What is asked for is settled. -/
theorem Atlas.lookup_request (a : Atlas) (key : ModuleKey) :
    (a.request key).2.modules.lookup key = some (a.request key).1 :=
  a.lookup_settle_self key _

/-- What is settled is not asked for anew. -/
theorem Atlas.request_of_lookup {a : Atlas} {key : ModuleKey} {slot : ModuleSlot}
    (h : a.modules.lookup key = some slot) : a.request key = (slot, a) :=
  settle_of_lookup h _

/-! ### Lookups only add to an atlas -/

theorem Run.bind_eq_some_iff {α β : Type} {p : Run α} {f : α → Run β} {s : LookupState}
    {r : β × LookupState} :
    (p >>= f) s = some r ↔ ∃ a s', p s = some (a, s') ∧ f a s' = some r := by
  show (p s).bind (fun q => f q.1 q.2) = some r ↔ _
  rw [Option.bind_eq_some_iff, Prod.exists]

theorem Run.request_eq_some_iff {key : ModuleKey} {s : LookupState} {r : ModuleSlot × LookupState} :
    Run.request key s = some r
      ↔ r = ((s.atlas.request key).1, ⟨(s.atlas.request key).2, s.cuts⟩) :=
  Option.some_inj.trans eq_comm

/-- A task is attended to with itself under way. -/
theorem remembering_task (depth : Nat) (active : CallStack) (t : Task) :
    (remembering (depth + 1) active).task t = attend active t fun fresh =>
      t.body.interpret (remembering depth (active.push t fresh)) := rfl

theorem remembering_visit (depth : Nat) (active : CallStack) (order : List EntityRef)
    (ref : EntityRef) : (remembering (depth + 1) active).visit order ref
      = (Lookup.visitBody order ref).interpret (remembering depth active) := rfl

/-- From one state of a lookup to a later one. Answers stay, and nothing is noted about the
    tasks under way. -/
structure Advances (active : CallStack) (s s' : LookupState) : Prop where
  grows : s.atlas.GrowsTo s'.atlas
  underWay : ∀ t ∈ active.tasks, t.known s.atlas = none → t.known s'.atlas = none
  cuts : s.cuts ≤ s'.cuts

namespace Advances

variable {active : CallStack} {s s' s'' : LookupState}

theorem refl (active : CallStack) (s : LookupState) : Advances active s s :=
  ⟨.refl _, fun _ _ => id, Nat.le_refl _⟩

theorem trans (h : Advances active s s') (h' : Advances active s' s'') :
    Advances active s s'' :=
  ⟨h.grows.trans h'.grows, fun t ht hnone => h'.underWay t ht (h.underWay t ht hnone),
    Nat.le_trans h.cuts h'.cuts⟩

theorem request {key : ModuleKey} {r : ModuleSlot × LookupState}
    (h : Run.request key s = some r) : Advances active s r.2 := by
  rw [Run.request_eq_some_iff.1 h]
  refine ⟨.settle s.atlas key _, fun t _ hnone => ?_, Nat.le_refl _⟩
  exact (t.known_settle).trans hnone

/-- Tasks inside a task lead on, and so does the end of the task. -/
theorem conclude {t : Task} {fresh : t ∉ active.tasks} {answer : t.Answer}
    (h : Advances (active.push t fresh) s s') (hnone : t.known s.atlas = none) :
    Advances active s (PyAtlas.conclude active t s.cuts answer s') := by
  have hinside : Advances active s s' :=
    ⟨h.grows, fun t' ht' => h.underWay t' (List.mem_cons_of_mem t ht'), h.cuts⟩
  rw [PyAtlas.conclude]
  split
  -- The task itself was under way inside, so nothing has been noted about it there.
  · refine hinside.trans ⟨.note (h.underWay t List.mem_cons_self hnone) answer,
      fun t' ht' hnone' => ?_, Nat.le_refl _⟩
    exact (Task.known_note_of_ne (ne_of_mem_of_not_mem ht' fresh)).trans hnone'
  · exact hinside

theorem attend {t : Task} {compute : t ∉ active.tasks → Run t.Answer}
    {r : t.Answer × LookupState}
    (h : ∀ fresh r, compute fresh s = some r → Advances (active.push t fresh) s r.2)
    (hr : PyAtlas.attend active t compute s = some r) : Advances active s r.2 := by
  obtain ⟨answer, s'⟩ := r
  cases hnone : t.known s.atlas with
  | some known =>
    rw [PyAtlas.attend, hnone] at hr
    cases hr
    exact .refl active s
  | none =>
    -- A cut only counts up. A computed answer leads on because its computation does.
    rcases attend_cases hr with ⟨hknown, -⟩ | ⟨-, -, rfl⟩ | ⟨fresh, s₁, hcompute, rfl⟩
    · rw [hnone] at hknown
      cases hknown
    · exact ⟨.refl _, fun _ _ => id, Nat.le_succ _⟩
    · exact (h fresh _ hcompute).conclude hnone

end Advances

/-- The states before and after anything that the handler does are related by `R`. -/
structure Handler.Steps (R : LookupState → LookupState → Prop) (h : Handler Run) : Prop where
  request : ∀ key s r, h.request key s = some r → R s r.2
  task : ∀ t s r, h.task t s = some r → R s r.2
  visit : ∀ order ref s r, h.visit order ref s = some r → R s r.2

/-- So are those before and after a lookup, if the relation is reflexive and transitive. -/
theorem Handler.Steps.interpret {R : LookupState → LookupState → Prop} {h : Handler Run}
    (hrefl : ∀ s, R s s) (htrans : ∀ {s s' s''}, R s s' → R s' s'' → R s s'') (hh : h.Steps R)
    {α : Type} (x : Lookup α) {s : LookupState} {r : α × LookupState}
    (hr : x.interpret h s = some r) : R s r.2 := by
  induction x generalizing s with
  | done a =>
    cases hr
    exact hrefl s
  | request key next ih =>
    obtain ⟨slot, s', hslot, hr⟩ := Run.bind_eq_some_iff.1 hr
    exact htrans (hh.request key s _ hslot) (ih slot hr)
  | task t next ih =>
    obtain ⟨answer, s', hanswer, hr⟩ := Run.bind_eq_some_iff.1 hr
    exact htrans (hh.task t s _ hanswer) (ih answer hr)
  | visit order ref next ih =>
    obtain ⟨order', s', horder, hr⟩ := Run.bind_eq_some_iff.1 hr
    exact htrans (hh.visit order ref s _ horder) (ih order' hr)

/-- Where calls cannot be nested only requests are answered. -/
theorem steps_remembering_zero {R : LookupState → LookupState → Prop}
    (hrequest : ∀ key s r, Run.request key s = some r → R s r.2) (active : CallStack) :
    (remembering 0 active).Steps R := by
  constructor
  · exact hrequest
  · exact fun t s r hr => (Option.some_ne_none r hr.symm).elim
  · exact fun order ref s r hr => (Option.some_ne_none r hr.symm).elim

/-- All that the handler does leads on. -/
abbrev Handler.Advances (active : CallStack) (h : Handler Run) : Prop :=
  h.Steps (PyAtlas.Advances active)

theorem Handler.Advances.interpret {active : CallStack} {h : Handler Run}
    (hh : h.Advances active) {α : Type} (x : Lookup α) {s : LookupState} {r : α × LookupState}
    (hr : x.interpret h s = some r) : PyAtlas.Advances active s r.2 :=
  Handler.Steps.interpret (.refl active) .trans hh x hr

/-- Lookups only add to an atlas. -/
theorem advances_remembering (depth : Nat) (active : CallStack) :
    (remembering depth active).Advances active := by
  induction depth generalizing active with
  | zero => exact steps_remembering_zero (fun _ _ _ => .request) active
  | succ depth ih =>
    constructor
    · exact fun _ _ _ => .request
    · intro t s r hr
      rw [remembering_task] at hr
      exact .attend (fun fresh r hr => (ih (active.push t fresh)).interpret t.body hr) hr
    · intro order ref s r hr
      rw [remembering_visit] at hr
      exact (ih active).interpret (Lookup.visitBody order ref) hr

theorem Atlas.GrowsTo.ask (a : Atlas) (q : Question) : a.GrowsTo (Atlas.ask q a).2 := by
  obtain ⟨s, hrun, hatlas⟩ := Atlas.run_of_callDepth q (Nat.le_refl a.callDepth)
  rw [hatlas]
  exact ((advances_remembering a.callDepth .empty).interpret q.lookup hrun).grows

theorem Atlas.GrowsTo.perform (a : Atlas) (op : Operation) : a.GrowsTo (op.perform a) := by
  rcases op.asks_or_settles a with ⟨q, rfl⟩ | ⟨key, answer, -, -, heq⟩
  · exact .ask a q
  · rw [heq]
    exact .settle a key answer

/-- No operation changes what was answered. -/
theorem Atlas.GrowsTo.after (a : Atlas) (ops : List Operation) : a.GrowsTo (a.after ops) := by
  induction ops generalizing a with
  | nil => exact .refl a
  | cons op ops ih => exact (Atlas.GrowsTo.perform a op).trans (ih _)

/-! ### Answers from memory -/

/-- Answers lookups by what an atlas remembers. Only visits are worked out anew. -/
def recalling (a : Atlas) : (depth : Nat) → Handler Option
  | 0 => {
      request := fun key => a.modules.lookup key
      task := fun t => t.known a
      visit := fun _ _ => none }
  | depth + 1 => {
      request := fun key => a.modules.lookup key
      task := fun t => t.known a
      visit := fun order ref => (Lookup.visitBody order ref).interpret (recalling a depth) }

theorem recalling_request (a : Atlas) (depth : Nat) (key : ModuleKey) :
    (recalling a depth).request key = a.modules.lookup key := by
  cases depth <;> rfl

theorem recalling_task (a : Atlas) (depth : Nat) (t : Task) :
    (recalling a depth).task t = t.known a := by
  cases depth <;> rfl

/-- What the first computation finds can be recalled from every later atlas. -/
def Correspondence.remembered (b : Atlas) : Correspondence Run Option where
  Rel p q := ∀ s r, p s = some r →
    s.atlas.GrowsTo r.2.atlas ∧ (r.2.atlas.GrowsTo b → q = some r.1)
  pure := by
    rintro _ _ s _ ⟨⟩
    exact ⟨.refl _, fun _ => rfl⟩
  bind hp hf s r hr := by
    obtain ⟨a, s', ha, hr⟩ := Run.bind_eq_some_iff.1 hr
    obtain ⟨hgrows, hrecall⟩ := hp s _ ha
    obtain ⟨hgrows', hrecall'⟩ := hf a s' r hr
    refine ⟨hgrows.trans hgrows', fun hb => ?_⟩
    exact Option.bind_eq_some_iff.2 ⟨a, hrecall (hgrows'.trans hb), hrecall' hb⟩

theorem remembered_request (b : Atlas) (key : ModuleKey) :
    (Correspondence.remembered b).Rel (Run.request key) (b.modules.lookup key) := by
  intro s r hr
  rw [Run.request_eq_some_iff.1 hr]
  exact ⟨.settle s.atlas key _, fun hb => hb.modules (s.atlas.lookup_request key)⟩

/-- Where no task is under way, what a task finds out is kept even if something was cut. -/
theorem remembered_attend {b : Atlas} {t : Task}
    {compute : t ∉ CallStack.empty.tasks → Run t.Answer}
    (h : ∀ fresh s r, compute fresh s = some r → Advances (CallStack.empty.push t fresh) s r.2) :
    (Correspondence.remembered b).Rel (attend .empty t compute) (t.known b) := by
  rintro s ⟨answer, s'⟩ hr
  refine ⟨(Advances.attend (fun fresh r hr => h fresh s r hr) hr).grows, fun hb => hb.known ?_⟩
  rcases attend_cases hr with ⟨hknown, rfl⟩ | ⟨hactive, -⟩ | ⟨fresh, s₁, hcompute, rfl⟩
  · exact hknown
  · cases hactive
  · rw [conclude, if_pos (.inr rfl)]
    exact t.known_note_self _ _

/-- What was asked for with no task under way can be recalled. -/
theorem corresponds_recalling (b : Atlas) (depth : Nat) :
    Handler.Corresponds (.remembered b) (remembering depth .empty) (recalling b depth) := by
  induction depth with
  | zero =>
    exact ⟨remembered_request b, fun _ _ r hr => (Option.some_ne_none r hr.symm).elim,
      fun _ _ _ r hr => (Option.some_ne_none r hr.symm).elim⟩
  | succ depth ih =>
    refine ⟨remembered_request b, fun t => ?_, fun order ref =>
      ih.interpret (Lookup.visitBody order ref)⟩
    rw [remembering_task]
    exact remembered_attend fun fresh s r hr =>
      (advances_remembering depth (CallStack.empty.push t fresh)).interpret t.body hr

/-- Whatever can be recalled from an atlas is found in it, and that changes nothing. -/
def Correspondence.recalled (a : Atlas) : Correspondence Option Run where
  Rel q p := ∀ answer, q = some answer → ∀ s, s.atlas = a → p s = some (answer, s)
  pure := by
    rintro _ _ _ ⟨⟩ s -
    rfl
  bind hq hf answer hr s hs := by
    obtain ⟨a, ha, hr⟩ := Option.bind_eq_some_iff.1 hr
    exact Run.bind_eq_some_iff.2 ⟨a, s, hq a ha s hs, hf a answer hr s hs⟩

theorem recalled_request (a : Atlas) (key : ModuleKey) :
    (Correspondence.recalled a).Rel (a.modules.lookup key) (Run.request key) := by
  rintro slot hslot s rfl
  rw [Run.request, Atlas.request_of_lookup hslot]

/-- Recalling is what a lookup does wherever it can. -/
theorem recalling_corresponds (a : Atlas) (depth : Nat) (active : CallStack) :
    Handler.Corresponds (.recalled a) (recalling a depth) (remembering (depth + 1) active) := by
  have htask : ∀ (depth' : Nat) (t : Task), (Correspondence.recalled a).Rel (t.known a)
      ((remembering (depth' + 1) active).task t) := by
    rintro depth' t answer hknown s rfl
    show attend active t _ s = _
    rw [attend, hknown]
  induction depth with
  | zero =>
    exact ⟨recalled_request a, htask 0,
      fun _ _ answer hnone => (Option.some_ne_none _ hnone.symm).elim⟩
  | succ depth ih =>
    exact ⟨recalled_request a, htask (depth + 1), fun order ref =>
      ih.interpret (Lookup.visitBody order ref)⟩

/-! ### Answers stay -/

namespace Atlas

/-- A question that was answered is answered again by what is remembered. -/
theorem ask_of_growsTo {a b : Atlas} {q : Question} (h : (ask q a).2.GrowsTo b) :
    ask q b = ((ask q a).1, b) := by
  obtain ⟨s, hrun, hatlas⟩ := run_of_callDepth q (Nat.le_refl a.callDepth)
  rw [hatlas] at h
  have hrecall := ((corresponds_recalling b a.callDepth).interpret q.lookup _ _ hrun).2 h
  exact ask_of_run
    ((recalling_corresponds b a.callDepth .empty).interpret q.lookup _ hrecall ⟨b, 0⟩ rfl)

/-- The names of an entity and its member of a name come from one table. -/
theorem ask_names_member (a : Atlas) (ref : EntityRef) (access : Access) (name : String) :
    ∃ table : NameTable EntityRef, (ask (.memberNames ref access) a).1 = table.names
      ∧ (ask (.member ref access name) a).1.isSome = (table.get? name).isSome := by
  obtain ⟨s, hnames, -⟩ := run_of_callDepth (.memberNames ref access) (Nat.le_refl a.callDepth)
  obtain ⟨s', hmember, -⟩ := run_of_callDepth (.member ref access name) (Nat.le_refl a.callDepth)
  simp only [Lookup.run, Question.lookup, Lookup.member, Lookup.interpret_bind] at hnames hmember
  obtain ⟨target, s₁, htarget, hnames⟩ := Run.bind_eq_some_iff.1 hnames
  obtain ⟨table, s₂, htable, hnames⟩ := Run.bind_eq_some_iff.1 hnames
  obtain ⟨target', s₁', htarget', hmember⟩ := Run.bind_eq_some_iff.1 hmember
  rw [htarget] at htarget'
  cases htarget'
  obtain ⟨table', s₂', htable', hmember⟩ := Run.bind_eq_some_iff.1 hmember
  rw [htable] at htable'
  cases htable'
  refine ⟨table, (Prod.mk.inj (Option.some_inj.1 hnames)).1.symm, ?_⟩
  cases hfound : table.get? name with
  | none =>
    rw [hfound] at hmember
    rw [← (Prod.mk.inj (Option.some_inj.1 hmember)).1]
  | some found =>
    simp only [hfound, map_eq_pure_bind, Lookup.interpret_bind] at hmember
    obtain ⟨target', s₃, -, hmember⟩ := Run.bind_eq_some_iff.1 hmember
    rw [← (Prod.mk.inj (Option.some_inj.1 hmember)).1]
    rfl

/-- A question that was answered gets the same answer whatever is done afterwards. Names are
    listed once each, and those are listed that have a member. -/
theorem answers_stay (a : Atlas) :
    (∀ (q : Question) (ops : List Operation),
      (ask q ((ask q a).2.after ops)).1 = (ask q a).1)
    ∧ ∀ (ref : EntityRef) (access : Access),
      (ask (.memberNames ref access) a).1.Nodup
      ∧ ∀ name, name ∈ (ask (.memberNames ref access) a).1
        ↔ (ask (.member ref access name) a).1.isSome = true := by
  refine ⟨fun q ops => ?_, fun ref access => ⟨?_, fun name => ?_⟩⟩
  · rw [ask_of_growsTo (GrowsTo.after _ ops)]
  · obtain ⟨table, hnames, -⟩ := ask_names_member a ref access ""
    rw [hnames]
    exact table.nodup
  · obtain ⟨table, hnames, hmember⟩ := ask_names_member a ref access name
    rw [hnames, hmember]
    exact NameTable.mem_names_iff

end Atlas

end PyAtlas
