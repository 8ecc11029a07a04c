import PyAtlas.Atlas.Termination

/-!
# Queries

What can be asked of an atlas. A query may read modules and remember answers, so it yields the
atlas that has done so beside its answer. Answers are never imports: those are followed.

How deep calls have to be nested for an answer is not known beforehand, so ever greater depths
are tried. One of them is enough.

## Key definitions
- `Question`, `Atlas.ask`: the questions about entities, and their answers.
- `Atlas.member?`, `Atlas.memberNames`: the names of an entity, one or all.
- `Atlas.linearize`, `Atlas.bases`, `Atlas.metaclass?`: the ancestry of a class.
- `Atlas.memberAt?`: the member that a dotted path leads to.
-/

namespace PyAtlas

/-! ### Questions -/

/-- The questions about an entity. -/
inductive Question
  | member (ref : EntityRef) (access : Access) (name : String)
  | memberNames (ref : EntityRef) (access : Access)
  | linearize (ref : EntityRef)
  | bases (ref : EntityRef)
  | metaclass (ref : EntityRef)
deriving Repr, DecidableEq

namespace Question

/-- The entity that is asked about. -/
def subject : Question → EntityRef
  | member ref _ _ | memberNames ref _ | linearize ref | bases ref | metaclass ref => ref

/-- What the answer is. -/
abbrev Answer : Question → Type
  | member _ _ _ => Option EntityRef
  | memberNames _ _ => List String
  | linearize _ => List EntityRef
  | bases _ => List EntityRef
  | metaclass _ => Option EntityRef

/-- How the answer is found. -/
def lookup : (q : Question) → Lookup q.Answer
  | member ref access name => Lookup.member ref access name
  | memberNames ref access => do
    let target ← Lookup.dereference ref
    let table ← Lookup.members target access
    pure table.names
  | linearize ref => Lookup.linearization ref
  | bases ref => Lookup.bases ref
  | metaclass ref => do
    let g ← Lookup.graph ref.module
    match (g.class? ref.id).bind (·.shape.metaclass) with
    | some base => some <$> Lookup.resolveBase ref base
    | none => pure none

end Question

/-- The first answer found as the number grows, if from some number on there always is one. -/
def firstAnswer {β : Type} (f : Nat → Option β)
    (h : ∃ enough, ∀ n, enough ≤ n → (f n).isSome = true) (n : Nat) : β :=
  match hn : f n with
  | some answer => answer
  | none => firstAnswer f h (2 * n + 1)
termination_by h.choose - n
decreasing_by
  have hless : n < h.choose := Nat.lt_of_not_le fun hle => by
    have := h.choose_spec n hle
    rw [hn] at this
    cases this
  omega

/-- A lookup on an atlas with no task under way. -/
def Lookup.run {α : Type} (x : Lookup α) (a : Atlas) (depth : Nat) : Option (α × LookupState) :=
  x.interpret (remembering depth .empty) ⟨a, 0⟩

namespace Atlas

/-- A computation that asks an atlas. -/
abbrev Query := StateM Atlas

/-- The answer to a question. -/
def ask (q : Question) : Query q.Answer := fun a =>
  let (answer, s) := firstAnswer (q.lookup.run a) ⟨a.callDepth, fun _ => q.lookup.returns a⟩ 255
  (answer, s.atlas)

/-- The member of a name. What cannot be found out is the placeholder of some module. -/
def member? (ref : EntityRef) (access : Access) (name : String) : Query (Option EntityRef) :=
  ask (.member ref access name)

/-- The names of all members, in the order in which they are looked up. -/
def memberNames (ref : EntityRef) (access : Access) : Query (List String) :=
  ask (.memberNames ref access)

/-- A class and all that it derives from, each once; nothing for what is no class. -/
def linearize (ref : EntityRef) : Query (List EntityRef) := ask (.linearize ref)

/-- The bases of a class, one for each that is declared. -/
def bases (ref : EntityRef) : Query (List EntityRef) := ask (.bases ref)

/-- The metaclass that a class declares. -/
def metaclass? (ref : EntityRef) : Query (Option EntityRef) := ask (.metaclass ref)

/-- The member that some names lead to, one after the other. -/
def memberAlong? (ref : EntityRef) : (names : List String) → Query (Option EntityRef)
  | [] => pure (some ref)
  | name :: names => do
    let a ← get
    match ← member? ref (a.pathAccess ref) name with
    | some next => memberAlong? next names
    | none => pure none

/-- A module has no member at a path. -/
structure MemberNotFound where
  module : String
  path : String
deriving Repr, DecidableEq

/-- The report about a missing member. -/
def MemberNotFound.message (e : MemberNotFound) : String :=
  "'" ++ e.module ++ "' has no member '" ++ e.path ++ "'"

/-- The member that a dotted path leads to. Empty parts of the path count for nothing. -/
def memberAt? (ref : EntityRef) (path : String) : Query (Except MemberNotFound EntityRef) := do
  let a ← get
  let names := (DottedName.segments path).filter (· != "")
  match ← memberAlong? ref names with
  | some found => pure (.ok found)
  | none => pure (.error ⟨(a.graph ref.module).nameOf ref.id, path⟩)

end Atlas

end PyAtlas
