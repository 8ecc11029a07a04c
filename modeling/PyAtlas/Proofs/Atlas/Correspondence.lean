import PyAtlas.Atlas.Query

/-!
# Performing lookups in two ways

If two handlers answer alike, so do all lookups performed with them. What "alike" means is left
open: any relation that holds between pure answers and is kept by going on with an answer.

The first use of this is that the depth to which calls may be nested does not matter. An answer
found at some depth is found at every greater depth, so `ask` yields the answer that any depth
yields.

## Key definitions
- `Correspondence`, `Handler.Corresponds`: relations between computations and between handlers.

## Key results
- `Handler.Corresponds.interpret`: corresponding handlers make lookups correspond.
- `remembering_deeper`, `recursive_deeper`: greater depths only add answers.
- `ask_of_run`: a question is answered by the answer found at any depth.
-/

namespace PyAtlas

/-- A relation between computations of two kinds that pure answers are in, and that is kept by
    going on with an answer. -/
structure Correspondence (m n : Type → Type) [Monad m] [Monad n] where
  Rel : {α : Type} → m α → n α → Prop
  pure : ∀ {α : Type} (a : α), Rel (Pure.pure a) (Pure.pure a)
  bind : ∀ {α β : Type} {p : m α} {q : n α} {f : α → m β} {g : α → n β},
    Rel p q → (∀ a, Rel (f a) (g a)) → Rel (p >>= f) (q >>= g)

section Interpret

variable {m n : Type → Type} [Monad m] [Monad n]

/-- Two handlers answer everything alike. -/
structure Handler.Corresponds (c : Correspondence m n) (h : Handler m) (h' : Handler n) :
    Prop where
  request : ∀ key, c.Rel (h.request key) (h'.request key)
  task : ∀ t, c.Rel (h.task t) (h'.task t)
  visit : ∀ order ref, c.Rel (h.visit order ref) (h'.visit order ref)

/-- Corresponding handlers make lookups correspond. -/
theorem Handler.Corresponds.interpret {c : Correspondence m n} {h : Handler m} {h' : Handler n}
    (hc : Handler.Corresponds c h h') {α : Type} (x : Lookup α) :
    c.Rel (x.interpret h) (x.interpret h') := by
  induction x with
  | done a => exact c.pure a
  | request key next ih => exact c.bind (hc.request key) ih
  | task t next ih => exact c.bind (hc.task t) ih
  | visit order ref next ih => exact c.bind (hc.visit order ref) ih

end Interpret

/-! ### Greater depths -/

/-- The second computation has every answer that the first has. -/
def Correspondence.option : Correspondence Option Option where
  Rel p q := ∀ r, p = some r → q = some r
  pure _ _ h := h
  bind hp hf r h := by
    obtain ⟨a, ha, hr⟩ := Option.bind_eq_some_iff.1 h
    exact Option.bind_eq_some_iff.2 ⟨a, hp a ha, hf a r hr⟩

/-- The same for computations on an atlas, whatever state they are begun in. -/
def Correspondence.run : Correspondence Run Run where
  Rel p q := ∀ s r, p s = some r → q s = some r
  pure _ _ _ h := h
  bind hp hf s r h := by
    obtain ⟨⟨a, s'⟩, ha, hr⟩ := Option.bind_eq_some_iff.1 h
    exact Option.bind_eq_some_iff.2 ⟨(a, s'), hp s (a, s') ha, hf a s' r hr⟩

theorem recursive_succ (w : World) (depth : Nat) :
    Handler.Corresponds .option (recursive w depth) (recursive w (depth + 1)) := by
  induction depth with
  -- With no depth left only requests are answered, and these do not depend on it.
  | zero => exact ⟨fun _ _ h => h, nofun, nofun⟩
  | succ depth ih =>
    exact ⟨fun _ _ h => h, fun t => ih.interpret t.body,
      fun order ref => ih.interpret (Lookup.visitBody order ref)⟩

/-- The plain recursion finds more answers the deeper it may go. -/
theorem recursive_deeper (w : World) {depth depth' : Nat} (h : depth ≤ depth') :
    Handler.Corresponds .option (recursive w depth) (recursive w depth') := by
  induction h with
  | refl => exact ⟨fun _ _ h => h, fun _ _ h => h, fun _ _ _ h => h⟩
  | @step depth' _ ih =>
    have hsucc := recursive_succ w depth'
    exact ⟨fun key r h => hsucc.request key r (ih.request key r h),
      fun t r h => hsucc.task t r (ih.task t r h),
      fun order ref r h => hsucc.visit order ref r (ih.visit order ref r h)⟩

/-- Attending to a task has more answers the more there are to finding its answer. -/
theorem attend_mono {active : CallStack} {t : Task} {p q : t ∉ active.tasks → Run t.Answer}
    (h : ∀ fresh, Correspondence.run.Rel (p fresh) (q fresh)) :
    Correspondence.run.Rel (attend active t p) (attend active t q) := by
  -- Known answers and cuts are the same on both sides; only the computation of an answer differs.
  intro s r hr
  rw [attend] at hr ⊢
  cases hknown : t.known s.atlas with
  | some answer =>
    rw [hknown] at hr
    exact hr
  | none =>
    rw [hknown] at hr
    dsimp only at hr ⊢
    by_cases hactive : t ∈ active.tasks
    · rw [dif_pos hactive] at hr ⊢
      exact hr
    · rw [dif_neg hactive] at hr ⊢
      obtain ⟨⟨answer, s'⟩, hp, hend⟩ := Option.map_eq_some_iff.1 hr
      exact Option.map_eq_some_iff.2 ⟨_, h hactive s _ hp, hend⟩

theorem remembering_succ (depth : Nat) (active : CallStack) :
    Handler.Corresponds .run (remembering depth active) (remembering (depth + 1) active) := by
  induction depth generalizing active with
  | zero =>
    refine ⟨fun _ _ _ h => h, fun t s r h => ?_, fun order ref s r h => ?_⟩
    · exact (Option.some_ne_none r h.symm).elim
    · exact (Option.some_ne_none r h.symm).elim
  | succ depth ih =>
    refine ⟨fun _ _ _ h => h, fun t => ?_, fun order ref => ?_⟩
    · exact attend_mono (t := t) fun fresh => (ih (active.push t fresh)).interpret t.body
    · exact (ih active).interpret (Lookup.visitBody order ref)

/-- Tasks with a memory find the same answers if they may go deeper. -/
theorem remembering_deeper {depth depth' : Nat} (active : CallStack) (h : depth ≤ depth') :
    Handler.Corresponds .run (remembering depth active) (remembering depth' active) := by
  induction h with
  | refl => exact ⟨fun _ _ _ h => h, fun _ _ _ h => h, fun _ _ _ _ h => h⟩
  | @step depth' _ ih =>
    have hsucc := remembering_succ depth' active
    exact ⟨fun key s r h => hsucc.request key s r (ih.request key s r h),
      fun t s r h => hsucc.task t s r (ih.task t s r h),
      fun order ref s r h => hsucc.visit order ref s r (ih.visit order ref s r h)⟩

/-- A lookup finds the same answer if it may go deeper. -/
theorem Lookup.run_deeper {α : Type} {x : Lookup α} {a : Atlas} {depth depth' : Nat}
    {r : α × LookupState} (h : depth ≤ depth') (hr : x.run a depth = some r) :
    x.run a depth' = some r :=
  (remembering_deeper .empty h).interpret x ⟨a, 0⟩ r hr

theorem firstAnswer_eq {β : Type} {f : Nat → Option β}
    (h : ∃ enough, ∀ n, enough ≤ n → (f n).isSome = true) (n : Nat) :
    ∃ k, f k = some (firstAnswer f h n) := by
  fun_induction firstAnswer f h n with
  | case1 n answer hn => exact ⟨n, hn⟩
  | case2 n _ ih => exact ih

/-- A question is answered by the answer found at any depth. -/
theorem Atlas.ask_of_run {q : Question} {a : Atlas} {depth : Nat}
    {r : q.Answer × LookupState} (hr : q.lookup.run a depth = some r) :
    Atlas.ask q a = (r.1, r.2.atlas) := by
  obtain ⟨k, hk⟩ := firstAnswer_eq (f := q.lookup.run a)
    ⟨a.callDepth, fun _ => q.lookup.returns a⟩ 255
  -- Both answers are found at the greater of the two depths.
  have hmax := Lookup.run_deeper (Nat.le_max_left k depth) hk
  rw [Lookup.run_deeper (Nat.le_max_right k depth) hr, Option.some_inj] at hmax
  rw [Atlas.ask, ← hmax]

/-- From some depth on a question is answered without being cut short. -/
theorem Atlas.run_of_callDepth (q : Question) {a : Atlas} {depth : Nat} (h : a.callDepth ≤ depth) :
    ∃ s, q.lookup.run a depth = some ((Atlas.ask q a).1, s) ∧ (Atlas.ask q a).2 = s.atlas := by
  obtain ⟨⟨answer, s⟩, hrun⟩ := Option.isSome_iff_exists.1 (q.lookup.returns a h)
  refine ⟨s, ?_, ?_⟩
  · rw [Atlas.ask_of_run hrun]
    exact hrun
  · rw [Atlas.ask_of_run hrun]

end PyAtlas
