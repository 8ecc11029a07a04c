import PyAtlas.Atlas.Lookup

/-!
# Performing tasks

A `Handler` answers what lookups ask for. There are two. One remembers what tasks found out and
works on an atlas. The other is the plain recursion: it looks at nothing but the modules, works
out each answer anew and gets lost where tasks go round in circles.

Tasks do go round in circles: classes derive from each other, modules take over each other's
exports, an import imports itself. With a memory a task that is already under way is cut: it
yields an empty answer at once. What a task found out is kept in the atlas, unless a cut may
have taken something from it, that is unless there were cuts while it ran inside other tasks.

## Key definitions
- `Handler`, `Lookup.interpret`: what a lookup comes to when its questions are answered.
- `CallStack`: the tasks under way, each only once.
- `remembering`: tasks with a memory and with cuts.
- `recursive`: tasks without either.
-/

namespace PyAtlas

/-- A way to answer what lookups ask for. -/
structure Handler (m : Type → Type) where
  request : ModuleKey → m ModuleSlot
  task : (t : Task) → m t.Answer
  visit : (order : List EntityRef) → EntityRef → m (List EntityRef)

/-- The answer of a lookup. -/
def Lookup.interpret {m : Type → Type} [Monad m] (h : Handler m) {α : Type} : Lookup α → m α
  | done x => pure x
  | request key next => do
    let slot ← h.request key
    (next slot).interpret h
  | task t next => do
    let answer ← h.task t
    (next answer).interpret h
  | visit order ref next => do
    let order ← h.visit order ref
    (next order).interpret h

theorem Lookup.interpret_bind {m : Type → Type} [Monad m] [LawfulMonad m] (h : Handler m)
    {α β : Type} (x : Lookup α) (f : α → Lookup β) :
    (x >>= f).interpret h = x.interpret h >>= fun a => (f a).interpret h := by
  show (x.bind f).interpret h = _
  induction x with
  | done a => simp only [Lookup.bind, interpret, pure_bind]
  | request key next ih => simp only [Lookup.bind, interpret, bind_assoc, ih]
  | task t next ih => simp only [Lookup.bind, interpret, bind_assoc, ih]
  | visit order ref next ih => simp only [Lookup.bind, interpret, bind_assoc, ih]

/-! ### With a memory -/

namespace Task

/-- The answer of a task that is cut. -/
def cut : (t : Task) → t.Answer
  | members _ _ => .empty
  | bases _ => []
  | follow ref => ref.unknownBeside

/-- What an atlas remembers of a task. -/
def known (a : Atlas) : (t : Task) → Option t.Answer
  | members ref access => a.membersMemo.lookup (ref, access)
  | bases ref => a.basesMemo.lookup ref
  | follow ref => a.importMemo.lookup ref

/-- The atlas that remembers the answer of a task. -/
def note (a : Atlas) : (t : Task) → t.Answer → Atlas
  | members ref access, answer =>
    { a with membersMemo := ((ref, access), answer) :: a.membersMemo }
  | bases ref, answer => { a with basesMemo := (ref, answer) :: a.basesMemo }
  | follow ref, answer => { a with importMemo := (ref, answer) :: a.importMemo }

end Task

/-- The tasks under way, innermost first. None is under way twice. -/
structure CallStack where
  tasks : List Task
  nodup : tasks.Nodup

namespace CallStack

/-- No task is under way. -/
def empty : CallStack := ⟨[], List.nodup_nil⟩

/-- One more task is under way. -/
def push (active : CallStack) (t : Task) (fresh : t ∉ active.tasks) : CallStack :=
  ⟨t :: active.tasks, List.nodup_cons.mpr ⟨fresh, active.nodup⟩⟩

end CallStack

/-- The state of a lookup: the atlas, and the number of tasks cut so far. -/
structure LookupState where
  atlas : Atlas
  cuts : Nat

/-- A computation on an atlas. It has no answer if calls are nested too deeply. -/
abbrev Run := StateT LookupState Option

/-- Reads a module unless it is there. -/
def Run.request (key : ModuleKey) : Run ModuleSlot := fun s =>
  let (slot, atlas) := s.atlas.request key
  some (slot, { s with atlas := atlas })

/-- The end of a task that was not under way elsewhere, with the number of cuts before it. -/
def conclude (active : CallStack) (t : Task) (cuts : Nat) (answer : t.Answer)
    (s : LookupState) : LookupState :=
  -- A cut may have been about a task around this one. Where there is none, the answer is kept.
  if s.cuts = cuts ∨ active.tasks = [] then { s with atlas := t.note s.atlas answer } else s

/-- Performs a task unless its answer is known or it is under way. -/
def attend (active : CallStack) (t : Task) (compute : t ∉ active.tasks → Run t.Answer) :
    Run t.Answer := fun s =>
  match t.known s.atlas with
  | some answer => some (answer, s)
  | none =>
    if h : t ∈ active.tasks then some (t.cut, { s with cuts := s.cuts + 1 })
    else (compute h s).map fun (answer, s') => (answer, conclude active t s.cuts answer s')

/-- Answers lookups on an atlas, with the tasks under way, where `bodies` says how tasks find
    their answers. No more than `depth` further calls can be nested. -/
def rememberingWith (bodies : (t : Task) → Lookup t.Answer) :
    (depth : Nat) → (active : CallStack) → Handler Run
  | 0, _ => {
      request := Run.request
      task := fun _ _ => none
      visit := fun _ _ _ => none }
  | depth + 1, active => {
      request := Run.request
      task := fun t => attend active t fun fresh =>
        (bodies t).interpret (rememberingWith bodies depth (active.push t fresh))
      visit := fun order ref =>
        (Lookup.visitBody order ref).interpret (rememberingWith bodies depth active) }

/-- Answers lookups on an atlas, with the tasks under way. -/
abbrev remembering (depth : Nat) (active : CallStack) : Handler Run :=
  rememberingWith Task.body depth active

/-! ### Without -/

/-- Answers lookups on some modules by nothing but recursion, nested no deeper than `depth`. -/
def recursive (world : World) : (depth : Nat) → Handler Option
  | 0 => {
      request := fun key => some (world key)
      task := fun _ => none
      visit := fun _ _ => none }
  | depth + 1 => {
      request := fun key => some (world key)
      task := fun t => t.body.interpret (recursive world depth)
      visit := fun order ref => (Lookup.visitBody order ref).interpret (recursive world depth) }

end PyAtlas
