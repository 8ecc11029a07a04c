import PyAtlas.Syntax.ParseStmt
import PyAtlas.Proofs.Declaration.Nesting
import Mathlib.Data.List.Forall2

/-!
# What assignments bind

Tuples, lists and starred targets may be nested in a target to any depth. In a module or a class an
assignment declares each name in its targets; directly in a method it declares each attribute of
the receiver, as one of the instances of the class around the method. `SyntaxTree.bindings` lists
what all assignments of a tree bind, read off the targets with one look through them for both kinds
of scopes.

The variables of an outline are these bindings, each declared once and in order, but for the
attributes that stand under a star: a method passes over starred targets.

## Key definitions
- `Expr.targetParts`: the innermost targets in a target.
- `SyntaxTree.assignments`, `Assignment.bindings`: the assignments of a tree and what they bind.
- `Declaration.Binds`: a declaration of a bound variable.

## Key results
- `boundNames_eq`, `boundAttributes_eq`: the names and attributes that a target binds are those of
  its parts.
- `Outline.assignments_recorded`: the variables of an outline.
-/

namespace PyAtlas

/-! ### Parts of a target -/

/-- A target inside another one that is no tuple, list or starred target itself. -/
structure TargetPart where
  target : Expr
  /-- The kind of value it gets. The parts of a value that is spread are not known. -/
  value : ValueKind
  /-- Whether it stands under a star. -/
  starred : Bool

mutual

/-- The parts of a target in the order of the source. -/
def Expr.targetParts (value : ValueKind) (starred : Bool) : Expr → List TargetPart
  | .tuple items _ | .list items _ => targetPartsIn starred items
  | .starred target _ => target.targetParts .unknown true
  | target => [⟨target, value, starred⟩]

/-- The parts of some targets among which a value is spread. -/
def targetPartsIn (starred : Bool) : List Expr → List TargetPart
  | [] => []
  | e :: es => e.targetParts .unknown starred ++ targetPartsIn starred es

end

namespace TargetPart

/-- The name that the part is. -/
def name? (p : TargetPart) : Option (Identifier × ValueKind) :=
  match p.target with
  | .name ident => some (ident, p.value)
  | _ => none

/-- The attribute of the object called `receiver` that the part is. -/
def attribute? (receiver : String) (p : TargetPart) : Option (Identifier × ValueKind) :=
  match p.target with
  | .attribute object attr _ => if object.isName receiver then some (attr, p.value) else none
  | _ => none

end TargetPart

mutual

/-- Names are bound under a star or not. -/
theorem boundNames_eq (value : ValueKind) (starred : Bool) : (e : Expr) →
    boundNames value e = (e.targetParts value starred).filterMap TargetPart.name?
  | .tuple items _ | .list items _ => boundNamesIn_eq starred items
  | .starred target _ => boundNames_eq .unknown true target
  | .name _ | .attribute .. | .call .. | .subscript .. | .literal .. | .str .. | .set .. | .dict ..
  | .unary .. | .binary .. | .other _ | .error _ => rfl

theorem boundNamesIn_eq (starred : Bool) : (es : List Expr) →
    boundNamesIn es = (targetPartsIn starred es).filterMap TargetPart.name?
  | [] => rfl
  | e :: es => by
    rw [boundNamesIn, targetPartsIn, List.filterMap_append, boundNames_eq .unknown starred e,
      boundNamesIn_eq starred es]

end

mutual

/-- Under a star everything is starred. -/
theorem starred_of_mem_targetParts (value : ValueKind) : (e : Expr) →
    ∀ p ∈ e.targetParts value true, p.starred = true
  | .tuple items _ | .list items _ => starred_of_mem_targetPartsIn items
  | .starred target _ => starred_of_mem_targetParts .unknown target
  | .name _ | .attribute .. | .call .. | .subscript .. | .literal .. | .str .. | .set .. | .dict ..
  | .unary .. | .binary .. | .other _ | .error _ => List.forall_mem_singleton.2 rfl

theorem starred_of_mem_targetPartsIn : (es : List Expr) →
    ∀ p ∈ targetPartsIn true es, p.starred = true
  | [] => nofun
  | e :: es => List.forall_mem_append.2
    ⟨starred_of_mem_targetParts .unknown e, starred_of_mem_targetPartsIn es⟩

end

mutual

/-- Attributes are bound where they do not stand under a star. -/
theorem boundAttributes_eq (receiver : String) (value : ValueKind) : (e : Expr) →
    boundAttributes receiver value e = ((e.targetParts value false).filter (!·.starred)).filterMap
      (TargetPart.attribute? receiver)
  | .tuple items _ | .list items _ => boundAttributesIn_eq receiver items
  | .starred target _ => by
    have hnone : (target.targetParts .unknown true).filter (!·.starred) = [] :=
      List.filter_eq_nil_iff.2 fun p hp => by simp [starred_of_mem_targetParts .unknown target p hp]
    rw [boundAttributes, Expr.targetParts, hnone, List.filterMap_nil]
    all_goals nofun
  | .attribute object attr _ => by
    by_cases hname : object.isName receiver = true
    · simp [boundAttributes, Expr.targetParts, TargetPart.attribute?, hname]
    · simp [boundAttributes, Expr.targetParts, TargetPart.attribute?, hname]
  | .name _ | .call .. | .subscript .. | .literal .. | .str .. | .set .. | .dict ..
  | .unary .. | .binary .. | .other _ | .error _ => rfl

theorem boundAttributesIn_eq (receiver : String) : (es : List Expr) →
    boundAttributesIn receiver es = ((targetPartsIn false es).filter (!·.starred)).filterMap
      (TargetPart.attribute? receiver)
  | [] => rfl
  | e :: es => by
    rw [boundAttributesIn, targetPartsIn, List.filter_append, List.filterMap_append,
      boundAttributes_eq receiver .unknown e, boundAttributesIn_eq receiver es]

end

/-! ### Assignments and their bindings -/

/-- A class or function around a statement. -/
inductive Enclosure
  | class (header : ClassHeader) (body : List Stmt)
  | function (header : FunctionHeader) (body : List Stmt)

namespace Enclosure

def name : Enclosure → Identifier
  | .class header _ => header.name
  | .function header _ => header.name

/-- How the class or function is declared. -/
def kind : Enclosure → DeclarationKind
  | .class header body => .class (.ofHeader header body)
  | .function header body => .function (.ofHeader header body)

end Enclosure

/-- The name under which a method knows the instance, if the function is one when it stands in a
    class: its first parameter, which takes a positional argument, unless a decorator makes the
    function a static method or a class method. -/
def FunctionHeader.receiver? (header : FunctionHeader) : Option String :=
  match header.parameters with
  | [] => none
  | first :: _ =>
    let positional := first.kind == .positionalOnly || first.kind == .positionalOrKeyword
    let withheld := header.decorators.any fun e =>
      decoratorText e == "staticmethod" || decoratorText e == "classmethod"
    if positional && !withheld then some first.name.name else none

/-- An assignment, and what stands around it, innermost first. -/
structure Assignment where
  around : List Enclosure
  targets : List Expr
  value : Option Expr

mutual

/-- The assignments in a statement in the order of the source. -/
def Stmt.assignments (around : List Enclosure) : Stmt → List Assignment
  | .classDef header body _ => bodyAssignments (.class header body :: around) body
  | .functionDef header body _ => bodyAssignments (.function header body :: around) body
  | .assign targets value _ => [⟨around, targets, some value⟩]
  | .annAssign target _ value _ => [⟨around, [target], value⟩]
  | .compound _ _ clauses _ => clauseAssignments around clauses
  | _ => []

/-- The assignments in some clauses. -/
def clauseAssignments (around : List Enclosure) : List Clause → List Assignment
  | [] => []
  | .mk _ body _ :: clauses => bodyAssignments around body ++ clauseAssignments around clauses

/-- The assignments in a body. -/
def bodyAssignments (around : List Enclosure) : List Stmt → List Assignment
  | [] => []
  | stmt :: body => stmt.assignments around ++ bodyAssignments around body

end

/-- A variable that an assignment binds. -/
structure Binding where
  ident : Identifier
  value : ValueKind
  /-- Whether it is an attribute of instances, and not a variable of a module or a class. -/
  onInstance : Bool
  /-- Whether it stands under a star in the target. -/
  starred : Bool
  /-- The classes and functions around the variable, innermost first. -/
  around : List Enclosure

/-- Attributes under a star, which methods pass over. -/
def Binding.isPassedOver (b : Binding) : Bool := b.onInstance && b.starred

/-- What is bound by a part of a target: a name in a module or a class, an attribute of the receiver
    directly in a method, which belongs to the class around it, and nothing in other functions. -/
def TargetPart.binding? (around : List Enclosure) (p : TargetPart) : Option Binding :=
  match around with
  | .function header _ :: .class shape body :: outer =>
    header.receiver?.bind fun receiver => (p.attribute? receiver).map fun (ident, value) =>
      ⟨ident, value, true, p.starred, .class shape body :: outer⟩
  | .function _ _ :: _ => none
  | around => p.name?.map fun (ident, value) => ⟨ident, value, false, p.starred, around⟩

namespace Assignment

/-- What is known of the assigned value. -/
def valueKind (a : Assignment) : ValueKind :=
  (a.value.map ValueKind.ofExpr).getD .unknown

/-- What the assignment binds. All targets get the same value. -/
def bindings (a : Assignment) : List Binding :=
  a.targets.flatMap fun target =>
    (target.targetParts a.valueKind false).filterMap (TargetPart.binding? a.around)

end Assignment

namespace SyntaxTree

/-- The assignments of a module in the order of the source. -/
def assignments (tree : SyntaxTree) : List Assignment :=
  bodyAssignments [] tree.body

/-- What the assignments of a module bind, one after the other. -/
def bindings (tree : SyntaxTree) : List Binding :=
  tree.assignments.flatMap Assignment.bindings

end SyntaxTree

/-! ### Declarations of variables -/

/-- Variables of a module or a class and attributes of instances. -/
def DeclarationKind.isVariable : DeclarationKind → Bool
  | .variable .. => true
  | _ => false

/-- The declaration is that of the class or function. -/
structure Declaration.Declares (d : Declaration) (e : Enclosure) : Prop where
  ident : (⟨d.name, d.span⟩ : Identifier) = e.name
  kind : d.kind = e.kind

/-- The declaration, one of `ds`, is that of the bound variable, in the class or module that it
    belongs to. -/
structure Declaration.Binds (ds : List Declaration) (d : Declaration) (b : Binding) : Prop where
  ident : (⟨d.name, d.span⟩ : Identifier) = b.ident
  kind : d.kind = .variable b.value b.onInstance
  path : d.path = (b.around.map (·.name.name)).reverse
  outside : b.around = [] → d.parent = none
  inside : ∀ e ∈ b.around.head?, ∃ p c, d.parent = some p ∧ ds[p]? = some c ∧ c.Declares e

/-- Of some declarations among `ds` those of variables are the bound variables that are not passed
    over, each once and in order. -/
def BindAll (ds own : List Declaration) (bound : List Binding) : Prop :=
  List.Forall₂ (Declaration.Binds ds) (own.filter (·.kind.isVariable))
    (bound.filter (!·.isPassedOver))

namespace BindAll

variable {ds own own' : List Declaration} {bound bound' : List Binding}

theorem nil : BindAll ds [] [] := List.Forall₂.nil

theorem append (h : BindAll ds own bound) (h' : BindAll ds own' bound') :
    BindAll ds (own ++ own') (bound ++ bound') := by
  rw [BindAll, List.filter_append, List.filter_append]
  exact List.rel_append h h'

/-- Declarations that bind nothing come in between. -/
theorem of_not_variable (h : ∀ d ∈ own, d.kind.isVariable = false) : BindAll ds own [] := by
  rw [BindAll, List.filter_eq_nil_iff.2 fun d hd => by simp [h d hd]]
  exact .nil

theorem cons_not_variable {d : Declaration} (hd : d.kind.isVariable = false)
    (h : BindAll ds own bound) : BindAll ds (d :: own) bound :=
  (of_not_variable (List.forall_mem_singleton.2 hd)).append h

theorem flatMap {α : Type} {f : α → List Declaration} {g : α → List Binding} {xs : List α}
    (h : ∀ x ∈ xs, BindAll ds (f x) (g x)) : BindAll ds (xs.flatMap f) (xs.flatMap g) := by
  induction xs with
  | nil => exact nil
  | cons x xs ih =>
    obtain ⟨hx, hxs⟩ := List.forall_mem_cons.1 h
    exact hx.append (ih hxs)

theorem filterMap {α : Type} {f : α → Option Declaration} {g : α → Option Binding} {xs : List α}
    (h : ∀ x ∈ xs, BindAll ds (f x).toList (g x).toList) :
    BindAll ds (xs.filterMap f) (xs.filterMap g) := by
  rw [List.filterMap_eq_flatMap_toList, List.filterMap_eq_flatMap_toList]
  exact flatMap h

theorem singleton {d : Declaration} {b : Binding} (h : d.Binds ds b)
    (hb : b.isPassedOver = false) : BindAll ds [d] [b] := by
  have hd : d.kind.isVariable = true := by rw [h.kind]; rfl
  rw [BindAll, List.filter_cons_of_pos (by exact hd), List.filter_cons_of_pos (by rw [hb]; rfl)]
  exact .cons h .nil

theorem passedOver {b : Binding} (hb : b.isPassedOver = true) : BindAll ds [] [b] := by
  rw [BindAll, List.filter_cons_of_neg (by rw [hb]; nofun)]
  exact .nil

end BindAll

/-! ### The scopes around a statement -/

/-- The scopes are those of the classes and functions around a statement, which are declared among
    `ds`. -/
inductive ScopesOf (ds : List Declaration) : Scopes → List Enclosure → Prop
  | nil : ScopesOf ds [] []
  | classBody {place : Nat} {d : Declaration} {outer : Scopes} {around : List Enclosure}
    {header : ClassHeader} {body : List Stmt} :
    ds[place]? = some d → d.Declares (.class header body) → ScopesOf ds outer around →
    ScopesOf ds (⟨place, header.name.name, .classBody⟩ :: outer) (.class header body :: around)
  | functionBody {place : Nat} {d : Declaration} {outer : Scopes} {around : List Enclosure}
    {header : FunctionHeader} {body : List Stmt} :
    ds[place]? = some d → d.Declares (.function header body) → ScopesOf ds outer around →
    ScopesOf ds (⟨place, header.name.name, .functionBody (receiver? outer header)⟩ :: outer)
      (.function header body :: around)

namespace ScopesOf

variable {ds : List Declaration} {scopes : Scopes} {around : List Enclosure}

theorem path_eq (h : ScopesOf ds scopes around) :
    scopes.path = (around.map (·.name.name)).reverse := by
  induction h with
  | nil => rfl
  | classBody _ _ _ ih | functionBody _ _ _ ih =>
    rw [Scopes.path_cons, ih, List.map_cons, List.reverse_cons]
    rfl

/-- A variable in the innermost scope. -/
theorem declare_binds (h : ScopesOf ds scopes around) (ident : Identifier) (value : ValueKind)
    (onInstance starred : Bool) :
    (scopes.declare ident (.variable value onInstance)).Binds ds
      ⟨ident, value, onInstance, starred, around⟩ where
  ident := rfl
  kind := rfl
  path := h.path_eq
  outside haround := by
    cases h with
    | nil => rfl
    | classBody _ _ _ => cases haround
    | functionBody _ _ _ => cases haround
  inside e he := by
    cases h with
    | nil => cases he
    | @classBody place d _ _ _ _ hplace hd _ =>
      cases he
      exact ⟨place, d, rfl, hplace, hd⟩
    | @functionBody place d _ _ _ _ hplace hd _ =>
      cases he
      exact ⟨place, d, rfl, hplace, hd⟩

end ScopesOf

/-- A function knows the instance if it stands in a class and is a method there. -/
theorem receiver?_eq (scopes : Scopes) (header : FunctionHeader) :
    receiver? scopes header = if scopes.inClass then header.receiver? else none := by
  rw [receiver?, FunctionHeader.receiver?]
  cases header.parameters with
  | nil => exact (ite_self none).symm
  | cons first rest =>
    cases scopes.inClass with
    | false => rfl
    | true => rfl

/-! ### What a target declares -/

section Targets

variable {ds : List Declaration} {scopes : Scopes} {around : List Enclosure}

/-- In a module or a class every name is declared. -/
theorem boundNames_bindAll (h : ScopesOf ds scopes around) (value : ValueKind) (target : Expr) :
    BindAll ds
      ((boundNames value target).map fun (ident, value) =>
        scopes.declare ident (.variable value false))
      ((target.targetParts value false).filterMap fun p =>
        p.name?.map fun (ident, value) => ⟨ident, value, false, p.starred, around⟩) := by
  rw [boundNames_eq value false, List.map_filterMap]
  refine BindAll.filterMap fun p _ => ?_
  cases p.name? with
  | none => exact BindAll.nil
  | some bound => exact .singleton (h.declare_binds bound.1 bound.2 false p.starred) rfl

/-- In a method every attribute of the receiver is declared that does not stand under a star. -/
theorem boundAttributes_bindAll (h : ScopesOf ds scopes around) (receiver : String)
    (value : ValueKind) (target : Expr) :
    BindAll ds
      ((boundAttributes receiver value target).map fun (ident, value) =>
        scopes.declare ident (.variable value true))
      ((target.targetParts value false).filterMap fun p =>
        (p.attribute? receiver).map fun (ident, value) =>
          ⟨ident, value, true, p.starred, around⟩) := by
  rw [boundAttributes_eq, List.filterMap_filter, List.map_filterMap]
  refine BindAll.filterMap fun p _ => ?_
  cases hstarred : p.starred with
  | true =>
    cases p.attribute? receiver with
    | none => exact BindAll.nil
    | some bound => exact .passedOver rfl
  | false =>
    cases p.attribute? receiver with
    | none => exact BindAll.nil
    | some bound => exact .singleton (h.declare_binds bound.1 bound.2 true false) rfl

theorem targetDeclarations_bindAll (h : ScopesOf ds scopes around) (value : ValueKind)
    (target : Expr) :
    BindAll ds (targetDeclarations scopes value target)
      ((target.targetParts value false).filterMap (TargetPart.binding? around)) := by
  have hnone : BindAll ds [] ((target.targetParts value false).filterMap fun _ => none) := by
    rw [List.filterMap_none]
    exact .nil
  cases h with
  | nil => exact boundNames_bindAll .nil value target
  | classBody hplace hd houter =>
    exact boundNames_bindAll (.classBody hplace hd houter) value target
  | @functionBody _ _ _ _ header _ _ _ houter =>
    -- Only a function directly in a class can be a method.
    rw [receiver?_eq]
    cases houter with
    | nil => exact hnone
    | functionBody _ _ _ => exact hnone
    | classBody hplace hd houter =>
      show BindAll ds (targetDeclarations (⟨_, _, .functionBody header.receiver?⟩ :: _) _ _)
        (List.filterMap (fun p => header.receiver?.bind _) _)
      cases header.receiver? with
      | none => exact hnone
      | some receiver =>
        exact boundAttributes_bindAll (.classBody hplace hd houter) receiver value target

end Targets

/-! ### What a body declares -/

section Places

variable {ds first more : List Declaration} {n : Nat}

/-- Of declarations that stand at a place the others stand behind the first one. -/
theorem prefix_drop_cons {d : Declaration} (h : d :: more <+: ds.drop n) :
    ds[n]? = some d ∧ more <+: ds.drop (n + 1) := by
  obtain ⟨rest, heq⟩ := h
  constructor
  · have hhead : (ds.drop n)[0]? = ds[n]? := List.getElem?_drop
    rwa [← heq, eq_comm] at hhead
  · refine ⟨rest, ?_⟩
    rw [← List.drop_drop, ← heq]
    rfl

/-- Declarations that stand one behind the other. -/
theorem prefix_drop_append (h : first ++ more <+: ds.drop n) :
    first <+: ds.drop n ∧ more <+: ds.drop (n + first.length) := by
  obtain ⟨rest, heq⟩ := h
  rw [List.append_assoc] at heq
  refine ⟨⟨more ++ rest, heq⟩, rest, ?_⟩
  rw [← List.drop_drop, ← heq, List.drop_left]

end Places

theorem importDeclarations_not_variable (scopes : Scopes) (module : Option String) (level : Nat)
    (names : ImportNames) :
    ∀ d ∈ importDeclarations scopes module level names, d.kind.isVariable = false := by
  intro d hd
  cases names with
  | star span =>
    obtain rfl := List.mem_singleton.1 hd
    rfl
  | names aliases =>
    obtain ⟨a, -, rfl⟩ := List.mem_map.1 hd
    rfl

theorem aliasDeclaration_not_variable (scopes : Scopes) (names : Alias) :
    (aliasDeclaration scopes names).kind.isVariable = false := by
  rw [aliasDeclaration]
  split <;> rfl

mutual

/-- The variables that a statement declares, wherever the statement stands. -/
theorem stmtDeclarations_bindAll {ds : List Declaration} {scopes : Scopes}
    {around : List Enclosure} {next : Nat} (h : ScopesOf ds scopes around) : (stmt : Stmt) →
    stmtDeclarations scopes next stmt <+: ds.drop next →
    BindAll ds (stmtDeclarations scopes next stmt)
      ((stmt.assignments around).flatMap Assignment.bindings)
  | .classDef header body _, hplaced => by
    obtain ⟨hplace, hbody⟩ := prefix_drop_cons hplaced
    exact .cons_not_variable rfl
      (bodyDeclarations_bindAll (.classBody hplace ⟨rfl, rfl⟩ h) body hbody)
  | .functionDef header body _, hplaced => by
    obtain ⟨hplace, hbody⟩ := prefix_drop_cons hplaced
    exact .cons_not_variable rfl
      (bodyDeclarations_bindAll (.functionBody hplace ⟨rfl, rfl⟩ h) body hbody)
  | .assign targets value _, _ => by
    rw [stmtDeclarations, Stmt.assignments, List.flatMap_singleton]
    exact .flatMap fun target _ => targetDeclarations_bindAll h _ target
  | .annAssign target _ value _, _ => by
    rw [stmtDeclarations, Stmt.assignments, List.flatMap_singleton, Assignment.bindings,
      List.flatMap_singleton]
    exact targetDeclarations_bindAll h _ target
  | .importModules names _, _ => by
    refine .of_not_variable fun d hd => ?_
    rw [stmtDeclarations] at hd
    split at hd
    · cases hd
    · obtain ⟨a, -, rfl⟩ := List.mem_map.1 hd
      exact aliasDeclaration_not_variable scopes a
  | .importFrom module level names _, _ => by
    refine .of_not_variable fun d hd => ?_
    rw [stmtDeclarations] at hd
    split at hd
    · cases hd
    · exact importDeclarations_not_variable scopes module level names d hd
  | .compound _ _ clauses _, hplaced => clauseDeclarations_bindAll h clauses hplaced
  | .augAssign .., _ | .expr _, _ | .simple .., _ | .error _, _ => BindAll.nil

/-- The variables that some clauses declare. -/
theorem clauseDeclarations_bindAll {ds : List Declaration} {scopes : Scopes}
    {around : List Enclosure} {next : Nat} (h : ScopesOf ds scopes around) :
    (clauses : List Clause) → clauseDeclarations scopes next clauses <+: ds.drop next →
    BindAll ds (clauseDeclarations scopes next clauses)
      ((clauseAssignments around clauses).flatMap Assignment.bindings)
  | [], _ => BindAll.nil
  | .mk _ body _ :: clauses, hplaced => by
    obtain ⟨hbody, hclauses⟩ := prefix_drop_append hplaced
    rw [clauseDeclarations, clauseAssignments, List.flatMap_append]
    exact (bodyDeclarations_bindAll h body hbody).append
      (clauseDeclarations_bindAll h clauses hclauses)

/-- The variables that a body declares. -/
theorem bodyDeclarations_bindAll {ds : List Declaration} {scopes : Scopes}
    {around : List Enclosure} {next : Nat} (h : ScopesOf ds scopes around) :
    (body : List Stmt) → bodyDeclarations scopes next body <+: ds.drop next →
    BindAll ds (bodyDeclarations scopes next body)
      ((bodyAssignments around body).flatMap Assignment.bindings)
  | [], _ => BindAll.nil
  | stmt :: body, hplaced => by
    obtain ⟨hstmt, hbody⟩ := prefix_drop_append hplaced
    rw [bodyDeclarations, bodyAssignments, List.flatMap_append]
    exact (stmtDeclarations_bindAll h stmt hstmt).append (bodyDeclarations_bindAll h body hbody)

end

/-! ### Outlines -/

/-- What the assignments of a module bind is declared once and in order, but for the attributes that
    methods pass over. So nothing is missing only where no method assigns to an attribute under a
    star. -/
theorem Outline.assignments_recorded (tree : SyntaxTree) :
    let declarations := (Outline.ofTree tree).declarations
    let recorded := declarations.filter (·.kind.isVariable)
    List.Forall₂ (Declaration.Binds declarations) recorded
        (tree.bindings.filter (!·.isPassedOver)) ∧
      (List.Forall₂ (Declaration.Binds declarations) recorded tree.bindings ↔
        ∀ b ∈ tree.bindings, b.isPassedOver = false) := by
  intro declarations recorded
  have hall : List.Forall₂ (Declaration.Binds declarations) recorded
      (tree.bindings.filter (!·.isPassedOver)) :=
    bodyDeclarations_bindAll .nil tree.body List.prefix_rfl
  refine ⟨hall, fun hfull b hb => ?_, fun hnone => ?_⟩
  · -- As many bindings are left as there are.
    have hlength := hall.length_eq.symm.trans hfull.length_eq
    simpa using List.length_filter_eq_length_iff.1 hlength b hb
  · rwa [List.filter_eq_self.2 fun b hb => by simp [hnone b hb]] at hall

/-- A method that assigns to two attributes at once, to the second under a star. -/
theorem Outline.starred_attribute_missing :
    let tree := SyntaxTree.parse .v37 "class C:\n def m(self):\n  (self.a, *self.b) = 1, 2\n"
    let declarations := (Outline.ofTree tree).declarations
    (declarations.filter (·.kind.isVariable)).map (·.name) = ["a"] ∧
      tree.bindings.map (·.ident.name) = ["a", "b"] ∧
      ¬ List.Forall₂ (Declaration.Binds declarations) (declarations.filter (·.kind.isVariable))
        tree.bindings := by
  intro tree declarations
  have hvariables : (declarations.filter (·.kind.isVariable)).map (·.name) = ["a"] := by
    decide +kernel
  have hbindings : tree.bindings.map (·.ident.name) = ["a", "b"] := by decide +kernel
  refine ⟨hvariables, hbindings, fun hall => ?_⟩
  have hone := congrArg List.length hvariables
  have htwo := congrArg List.length hbindings
  rw [List.length_map] at hone htwo
  rw [hall.length_eq, htwo] at hone
  cases hone

end PyAtlas
