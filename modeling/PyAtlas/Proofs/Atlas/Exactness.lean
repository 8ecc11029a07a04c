import PyAtlas.Proofs.Atlas.Stability

/-!
# What is remembered is exact

The memory of an atlas is compared with the plain recursion. Whatever was remembered about a task
is what the recursion finds for it, in every world that agrees with the modules read so far, if
the recursion finds anything. About tasks that go round in circles this says nothing.

The reason is that a task which the recursion can perform is not cut: it would have to be under
way, and then the recursion would have gone from the task to itself. Each task under way is
performed by the recursion at a greater depth than the tasks that it asks for, or not at all.

## Key definitions
- `World.Agrees`, `Atlas.Exact`: what exactness means.

## Key results
- `corresponds_exact`: remembering and recursion find the same answers.
- `Atlas.exact_after`: the memory of an atlas is exact, whatever was done with it.
- `Atlas.ask_of_recursive`: so a question has the answer that the recursion finds.
-/

namespace PyAtlas

/-- The world has the modules that an atlas has read. -/
def World.Agrees (w : World) (a : Atlas) : Prop :=
  ∀ key slot, a.modules.lookup key = some slot → w key = slot

/-- What is remembered of a task is what the recursion finds, if it finds anything. -/
def Atlas.Exact (a : Atlas) : Prop :=
  ∀ (t : Task) (answer : t.Answer), t.known a = some answer → ∀ w : World, w.Agrees a →
    ∀ depth found, (recursive w depth).task t = some found → found = answer

theorem World.Agrees.of_growsTo {w : World} {a b : Atlas} (hw : w.Agrees b) (h : a.GrowsTo b) :
    w.Agrees a :=
  fun key slot hslot => hw key slot (h.modules hslot)

theorem Atlas.agrees_world (a : Atlas) : a.world.Agrees a := by
  intro key slot hslot
  rw [world, Atlas.slot, hslot]
  rfl

theorem World.Agrees.note {w : World} {a : Atlas} {t : Task} {answer : t.Answer}
    (hw : w.Agrees (t.note a answer)) : w.Agrees a := by
  intro key slot hslot
  rw [← t.modules_note a answer] at hslot
  exact hw key slot hslot

/-! ### The depth at which the recursion finds an answer -/

section Recursive

variable {w : World} {t : Task} {depth depth' : Nat} {found found' : t.Answer}

theorem recursive_unique (h : (recursive w depth).task t = some found)
    (h' : (recursive w depth').task t = some found') : found = found' := by
  -- Both answers are found at the greater of the two depths.
  have hdeep := (recursive_deeper w (Nat.le_max_left depth depth')).task t _ h
  have hdeep' := (recursive_deeper w (Nat.le_max_right depth depth')).task t _ h'
  rw [hdeep] at hdeep'
  exact Option.some_inj.1 hdeep'

theorem recursive_none_of_le (hle : depth ≤ depth') (h : (recursive w depth').task t = none) :
    (recursive w depth).task t = none := by
  cases hfound : (recursive w depth).task t with
  | none => rfl
  | some found =>
    rw [(recursive_deeper w hle).task t _ hfound] at h
    cases h

/-- There is a depth at which the tasks that a task asks for are found and the task itself is
    not. -/
theorem exists_first_depth (h : (recursive w depth).task t = some found) :
    ∃ first, first ≤ depth ∧ t.body.interpret (recursive w first) = some found
      ∧ (recursive w first).task t = none := by
  induction depth with
  | zero => exact (Option.some_ne_none _ h.symm).elim
  | succ depth ih =>
    -- The first depth is this one, or the answer was found at a smaller one already.
    cases hless : (recursive w depth).task t with
    | none => exact ⟨depth, Nat.le_succ depth, h, hless⟩
    | some earlier =>
      rw [recursive_unique hless h] at hless
      obtain ⟨first, hfirst, hrest⟩ := ih hless
      exact ⟨first, Nat.le_succ_of_le hfirst, hrest⟩

end Recursive

/-! ### Remembering against recursion -/

/-- The recursion finds nothing for the tasks under way. -/
def CallStack.Lost (active : CallStack) (w : World) (depth : Nat) : Prop :=
  ∀ t ∈ active.tasks, (recursive w depth).task t = none

/-- An exact memory stays so, and what the first computation finds is what the second finds if it
    finds anything, unless something was cut that the recursion could have gone on with. -/
def Correspondence.exact (active : CallStack) (w : World) (depth : Nat) :
    Correspondence Run Option where
  Rel p q := ∀ s r, s.atlas.Exact → p s = some r →
    r.2.atlas.Exact ∧ Advances active s r.2 ∧ (w.Agrees r.2.atlas →
      r.2.cuts = s.cuts ∨ active.Lost w depth → ∀ found, q = some found → found = r.1)
  pure := by
    rintro _ _ s _ hs ⟨⟩
    exact ⟨hs, .refl _ s, fun _ _ found hfound => (Option.some_inj.1 hfound).symm⟩
  bind hp hf s r hs hr := by
    obtain ⟨a, s', ha, hr⟩ := Run.bind_eq_some_iff.1 hr
    obtain ⟨hs', hadvances, hsame⟩ := hp s _ hs ha
    obtain ⟨hs'', hadvances', hsame'⟩ := hf a s' r hs' hr
    refine ⟨hs'', hadvances.trans hadvances', fun hw hcuts found hfound => ?_⟩
    have hle : s.cuts ≤ s'.cuts := hadvances.cuts
    have hle' : s'.cuts ≤ r.2.cuts := hadvances'.cuts
    obtain ⟨first, hfirst, hfound⟩ := Option.bind_eq_some_iff.1 hfound
    -- Cuts are only counted up, so where the whole has none, neither part has any.
    have hcuts' : s'.cuts = s.cuts ∨ active.Lost w depth := hcuts.imp_left fun h => by omega
    rw [hsame (hw.of_growsTo hadvances'.grows) hcuts' first hfirst] at hfound
    exact hsame' hw (hcuts.imp_left fun h => by omega) found hfound

section Exact

variable {active : CallStack} {w : World} {depth : Nat}

theorem exact_request (key : ModuleKey) :
    (Correspondence.exact active w depth).Rel (Run.request key) (some (w key)) := by
  intro s r hs hr
  have hadvances : Advances active s r.2 := .request hr
  refine ⟨fun t answer hknown w' hw' => ?_, hadvances, fun hw _ found hfound => ?_⟩
  · rw [Run.request_eq_some_iff.1 hr, Atlas.request, t.known_settle] at hknown
    exact hs t answer hknown w' (hw'.of_growsTo hadvances.grows)
  · rw [Run.request_eq_some_iff.1 hr] at hw ⊢
    rw [← Option.some_inj.1 hfound]
    exact hw key _ (s.atlas.lookup_request key)

/-- An answer is exact if the recursion, as far as it finds anything, finds it. -/
theorem Atlas.Exact.note {a : Atlas} {t : Task} {answer : t.Answer} (ha : a.Exact)
    (h : ∀ w : World, w.Agrees a → ∀ depth found, (recursive w depth).task t = some found →
      found = answer) : (t.note a answer).Exact := by
  intro t' answer' hknown w hw
  rcases Task.known_note hknown with heq | hknown
  · cases heq
    exact h w hw.note
  · exact ha t' answer' hknown w hw.note

/-- A task that was performed has the answer that the recursion finds, because at the depth where
    the recursion finds what the task asks for it does not find the task itself. -/
theorem exact_of_compute {t : Task} {fresh : t ∉ active.tasks} {p : Run t.Answer}
    (h : ∀ w depth, (Correspondence.exact (active.push t fresh) w depth).Rel p
      (t.body.interpret (recursive w depth)))
    {s : LookupState} {r : t.Answer × LookupState} (hs : s.atlas.Exact) (hr : p s = some r)
    {w : World} (hw : w.Agrees r.2.atlas) {depth : Nat}
    (hcuts : r.2.cuts = s.cuts ∨ active.Lost w depth) {found : t.Answer}
    (hfound : (recursive w depth).task t = some found) : found = r.1 := by
  obtain ⟨first, hle, hbody, hself⟩ := exists_first_depth hfound
  -- At the depth `first` the task itself is lost, and so are the tasks around it.
  refine (h w first s r hs hr).2.2 hw (hcuts.imp_right fun hlost => ?_) found hbody
  exact List.forall_mem_cons.2 ⟨hself, fun u hu => recursive_none_of_le hle (hlost u hu)⟩

theorem exact_attend {t : Task} {compute : t ∉ active.tasks → Run t.Answer}
    (h : ∀ fresh w depth, (Correspondence.exact (active.push t fresh) w depth).Rel (compute fresh)
      (t.body.interpret (recursive w depth))) :
    (Correspondence.exact active w depth).Rel (attend active t compute)
      ((recursive w depth).task t) := by
  rintro s ⟨answer, s'⟩ hs hr
  have hadvances : Advances active s s' := .attend (r := (answer, s'))
    (fun fresh r hr => (h fresh w 0 s r hs hr).2.1) hr
  rcases attend_cases hr with ⟨hknown, rfl⟩ | ⟨hactive, rfl, rfl⟩ | ⟨fresh, s₁, hcompute, rfl⟩
  · exact ⟨hs, hadvances, fun hw _ found hfound => hs t answer hknown w hw depth found hfound⟩
  · refine ⟨hs, hadvances, fun _ hcuts found hfound => ?_⟩
    -- A task that is cut is one that the recursion does not find.
    rcases hcuts with hcuts | hlost
    · exact absurd hcuts (Nat.succ_ne_self s.cuts)
    · rw [hlost t hactive] at hfound
      cases hfound
  · have hs₁ := (h fresh w depth s _ hs hcompute).1
    refine ⟨?_, hadvances, fun hw hcuts found hfound => ?_⟩
    · rw [conclude]
      split
      · next hkeep =>
        refine hs₁.note fun w' hw' depth' found hfound => ?_
        -- It is kept because nothing was cut inside or because nothing is under way around it.
        have hcuts' : s₁.cuts = s.cuts ∨ active.Lost w' depth' := by
          refine hkeep.imp_right fun hempty u hu => ?_
          rw [hempty] at hu
          cases hu
        exact exact_of_compute (h fresh) hs hcompute hw' hcuts' hfound
      · exact hs₁
    · rw [conclude] at hw hcuts
      split at hw
      · next hkeep =>
        rw [if_pos hkeep] at hcuts
        exact exact_of_compute (h fresh) hs hcompute hw.note hcuts hfound
      · next hkeep =>
        rw [if_neg hkeep] at hcuts
        exact exact_of_compute (h fresh) hs hcompute hw hcuts hfound

end Exact

/-- Remembering and recursion find the same answers. -/
theorem corresponds_exact (limit : Nat) (active : CallStack) (w : World) (depth : Nat) :
    Handler.Corresponds (.exact active w depth) (remembering limit active) (recursive w depth) := by
  induction limit generalizing active w depth with
  | zero =>
    refine ⟨fun key => ?_, fun _ _ r _ hr => (Option.some_ne_none r hr.symm).elim,
      fun _ _ _ r _ hr => (Option.some_ne_none r hr.symm).elim⟩
    cases depth <;> exact exact_request key
  | succ limit ih =>
    refine ⟨fun key => ?_, fun t => ?_, fun order ref => ?_⟩
    · cases depth <;> exact exact_request key
    · rw [remembering_task]
      exact exact_attend fun fresh w depth => (ih (active.push t fresh) w depth).interpret t.body
    · rw [remembering_visit]
      cases depth with
      -- The recursion finds nothing here, but the memory has to stay exact all the same.
      | zero =>
        intro s r hs hr
        obtain ⟨hexact, hadvances, -⟩ :=
          (ih active w 0).interpret (Lookup.visitBody order ref) s r hs hr
        exact ⟨hexact, hadvances, fun _ _ found hfound => (Option.some_ne_none _ hfound.symm).elim⟩
      | succ depth =>
        intro s r hs hr
        obtain ⟨hexact, hadvances, hsame⟩ :=
          (ih active w depth).interpret (Lookup.visitBody order ref) s r hs hr
        refine ⟨hexact, hadvances, fun hw hcuts => hsame hw (hcuts.imp_right fun hlost u hu => ?_)⟩
        exact recursive_none_of_le (Nat.le_succ depth) (hlost u hu)

/-! ### Exact atlases -/

namespace Atlas

theorem exact_empty (version : Version) (files : FileSystem) (libraries : SearchPath) :
    (empty version files libraries).Exact := by
  rintro t answer hknown
  cases t <;> cases hknown

theorem Exact.of_known {a b : Atlas} (ha : a.Exact) (hgrows : a.GrowsTo b)
    (hknown : ∀ t : Task, t.known b = t.known a) : b.Exact := by
  intro t answer hanswer w hw
  rw [hknown] at hanswer
  exact ha t answer hanswer w (hw.of_growsTo hgrows)

theorem Exact.settle {a : Atlas} (ha : a.Exact) (key : ModuleKey) (answer : Unit → ModuleSlot) :
    (a.settle key answer).2.Exact :=
  ha.of_known (.settle a key answer) fun t => t.known_settle

theorem Exact.ask {a : Atlas} (ha : a.Exact) (q : Question) : (Atlas.ask q a).2.Exact := by
  obtain ⟨s, hrun, hatlas⟩ := run_of_callDepth q (Nat.le_refl a.callDepth)
  rw [hatlas]
  exact ((corresponds_exact a.callDepth .empty a.world 0).interpret q.lookup ⟨a, 0⟩ _ ha hrun).1

theorem Exact.perform {a : Atlas} (ha : a.Exact) (op : Operation) : (op.perform a).Exact := by
  rcases op.asks_or_settles a with ⟨q, rfl⟩ | ⟨key, answer, -, -, heq⟩
  · exact ha.ask q
  · rw [heq]
    exact ha.settle key answer

theorem Exact.after {a : Atlas} (ha : a.Exact) (ops : List Operation) : (a.after ops).Exact := by
  induction ops generalizing a with
  | nil => exact ha
  | cons op ops ih => exact ih (ha.perform op)

/-- Whatever was done with an atlas, what it remembers is exact. -/
theorem exact_after (version : Version) (files : FileSystem) (libraries : SearchPath)
    (ops : List Operation) : ((empty version files libraries).after ops).Exact :=
  (exact_empty version files libraries).after ops

/-- No question changes what the modules are. -/
theorem world_ask (a : Atlas) (q : Question) : (ask q a).2.world = a.world := by
  obtain ⟨answer, s, hrun, hworld, -⟩ :=
    (a.answers_of_callDepth .empty (Nat.le_refl _)).interpret q.lookup ⟨a, 0⟩ rfl
  rw [ask_of_run hrun]
  exact hworld

/-- A question has the answer that the recursion finds. -/
theorem ask_of_recursive {a : Atlas} (ha : a.Exact) {q : Question} {depth : Nat}
    {answer : q.Answer} (h : q.lookup.interpret (recursive a.world depth) = some answer) :
    (ask q a).1 = answer := by
  obtain ⟨s, hrun, hatlas⟩ := run_of_callDepth q (Nat.le_refl a.callDepth)
  obtain ⟨-, -, hsame⟩ :=
    (corresponds_exact a.callDepth .empty a.world depth).interpret q.lookup ⟨a, 0⟩ _ ha hrun
  have hagrees : a.world.Agrees s.atlas := by
    rw [← hatlas, ← world_ask a q]
    exact agrees_world _
  exact (hsame hagrees (.inr fun _ h => nomatch h) answer h).symm

end Atlas

end PyAtlas
