import PyAtlas.Declaration.Outline

/-!
# Control flow is looked through

Without its control flow a module is straight: in place of each compound statement stand the
statements of its clauses, one clause behind the other, and so at every depth, in the bodies of
classes and functions as well. A straight module declares what the module with control flow
declares, at the same places and under the same parents, and exports the same names.

Only what is read off the first statement of a body, or off the statements directly in it, may
differ: the documentation of a class or function, and the metaclass that a class names in its body.
A string or a `__metaclass__` under an `if` does not count there.

## Key definitions
- `SyntaxTree.straight`: a module without its control flow.
- `Declaration.bare`: a declaration without documentation and metaclass.

## Key results
- `SyntaxTree.leaves_straight`, `SyntaxTree.straight_isStraight`: the same statements without any
  compound one.
- `Outline.ofTree_straight`: the outline of a straight module.
-/

namespace PyAtlas

/-! ### Straight code -/

mutual

/-- What stands in place of a statement: the statements in its clauses, if it has any, and the
    statement with a straight body otherwise. -/
def Stmt.straight : Stmt → List Stmt
  | .classDef header body span => [.classDef header (straightBody body) span]
  | .functionDef header body span => [.functionDef header (straightBody body) span]
  | .compound _ _ clauses _ => straightClauses clauses
  | other => [other]

/-- The statements in some clauses, one clause behind the other. -/
def straightClauses : List Clause → List Stmt
  | [] => []
  | .mk _ body _ :: clauses => straightBody body ++ straightClauses clauses

/-- A body without control flow. -/
def straightBody : List Stmt → List Stmt
  | [] => []
  | stmt :: body => stmt.straight ++ straightBody body

end

/-- A module without its control flow. -/
def SyntaxTree.straight (tree : SyntaxTree) : SyntaxTree :=
  { tree with body := straightBody tree.body }

/-! ### The statements of a straight module -/

section Leaves

theorem bodyLeaves_singleton (stmt : Stmt) : bodyLeaves [stmt] = stmt.leaves :=
  List.append_nil _

mutual

theorem Stmt.leaves_straight : (stmt : Stmt) → bodyLeaves stmt.straight = stmt.leaves
  | .classDef _ body _ | .functionDef _ body _ =>
    (bodyLeaves_singleton _).trans (leaves_straightBody body)
  | .compound _ _ clauses _ => leaves_straightClauses clauses
  | .assign .. | .annAssign .. | .augAssign .. | .importModules .. | .importFrom .. | .expr _
  | .simple .. | .error _ => rfl

theorem leaves_straightClauses : (clauses : List Clause) →
    bodyLeaves (straightClauses clauses) = clauseLeaves clauses
  | [] => rfl
  | .mk _ body _ :: clauses => by
    rw [straightClauses, clauseLeaves, bodyLeaves_append, leaves_straightBody body,
      leaves_straightClauses clauses]

theorem leaves_straightBody : (body : List Stmt) → bodyLeaves (straightBody body) = bodyLeaves body
  | [] => rfl
  | stmt :: body => by
    rw [straightBody, bodyLeaves, bodyLeaves_append, stmt.leaves_straight, leaves_straightBody body]

end

/-- The statements without a body are the same ones in the same order. -/
theorem SyntaxTree.leaves_straight (tree : SyntaxTree) : tree.straight.leaves = tree.leaves :=
  leaves_straightBody tree.body

end Leaves

section Straight

mutual

/-- Whether there is no compound statement at any depth. -/
def Stmt.isStraight : Stmt → Bool
  | .classDef _ body _ | .functionDef _ body _ => bodyIsStraight body
  | .compound .. => false
  | _ => true

/-- Whether no compound statement stands in a body. -/
def bodyIsStraight : List Stmt → Bool
  | [] => true
  | stmt :: body => stmt.isStraight && bodyIsStraight body

end

theorem bodyIsStraight_append (first more : List Stmt) :
    bodyIsStraight (first ++ more) = (bodyIsStraight first && bodyIsStraight more) := by
  induction first with
  | nil => rfl
  | cons stmt body ih => rw [List.cons_append, bodyIsStraight, bodyIsStraight, ih, Bool.and_assoc]

theorem bodyIsStraight_singleton (stmt : Stmt) : bodyIsStraight [stmt] = stmt.isStraight :=
  Bool.and_true _

mutual

theorem Stmt.straight_isStraight : (stmt : Stmt) → bodyIsStraight stmt.straight = true
  | .classDef _ body _ | .functionDef _ body _ =>
    (bodyIsStraight_singleton _).trans (straightBody_isStraight body)
  | .compound _ _ clauses _ => straightClauses_isStraight clauses
  | .assign .. | .annAssign .. | .augAssign .. | .importModules .. | .importFrom .. | .expr _
  | .simple .. | .error _ => rfl

theorem straightClauses_isStraight : (clauses : List Clause) →
    bodyIsStraight (straightClauses clauses) = true
  | [] => rfl
  | .mk _ body _ :: clauses => by
    rw [straightClauses, bodyIsStraight_append, straightBody_isStraight body,
      straightClauses_isStraight clauses, Bool.and_self]

theorem straightBody_isStraight : (body : List Stmt) → bodyIsStraight (straightBody body) = true
  | [] => rfl
  | stmt :: body => by
    rw [straightBody, bodyIsStraight_append, stmt.straight_isStraight, straightBody_isStraight body,
      Bool.and_self]

end

theorem SyntaxTree.straight_isStraight (tree : SyntaxTree) :
    bodyIsStraight tree.straight.body = true :=
  straightBody_isStraight tree.body

end Straight

/-! ### Declarations -/

/-- The kind without what the body of a class or function says about itself: its documentation, and
    the metaclass. -/
def DeclarationKind.bare : DeclarationKind → DeclarationKind
  | .class shape => .class { shape with metaclass := none, doc := none }
  | .function signature => .function { signature with doc := none }
  | kind => kind

/-- A declaration without documentation and metaclass. Name, place, parent and path stay. -/
def Declaration.bare (d : Declaration) : Declaration :=
  { d with kind := d.kind.bare }

section Declarations

/-- Behind other statements a body takes the places behind their declarations. -/
theorem bodyDeclarations_append (scopes : Scopes) (next : Nat) (first more : List Stmt) :
    bodyDeclarations scopes next (first ++ more) = bodyDeclarations scopes next first ++
      bodyDeclarations scopes (next + (bodyDeclarations scopes next first).length) more := by
  induction first generalizing next with
  | nil => rfl
  | cons stmt body ih =>
    rw [List.cons_append, bodyDeclarations, bodyDeclarations, ih, List.length_append,
      List.append_assoc, Nat.add_assoc]

theorem bodyDeclarations_singleton (scopes : Scopes) (next : Nat) (stmt : Stmt) :
    bodyDeclarations scopes next [stmt] = stmtDeclarations scopes next stmt :=
  List.append_nil _

/-- Bodies that declare the same one behind the other. The places of the second are told by the
    number of declarations in the first. -/
theorem map_bare_append {scopes : Scopes} {next : Nat} {first more : List Stmt}
    {ds : List Declaration} {rest : Nat → List Declaration}
    (hfirst : (bodyDeclarations scopes next first).map Declaration.bare = ds.map Declaration.bare)
    (hmore : ∀ place, (bodyDeclarations scopes place more).map Declaration.bare
      = (rest place).map Declaration.bare) :
    (bodyDeclarations scopes next (first ++ more)).map Declaration.bare
      = (ds ++ rest (next + ds.length)).map Declaration.bare := by
  have hlength : (bodyDeclarations scopes next first).length = ds.length := by
    simpa using congrArg List.length hfirst
  rw [bodyDeclarations_append, List.map_append, List.map_append, hfirst, hmore, hlength]

mutual

theorem stmtDeclarations_straight (scopes : Scopes) (next : Nat) : (stmt : Stmt) →
    (bodyDeclarations scopes next stmt.straight).map Declaration.bare
      = (stmtDeclarations scopes next stmt).map Declaration.bare
  | .classDef header body _ => by
    rw [Stmt.straight, bodyDeclarations_singleton, stmtDeclarations, stmtDeclarations,
      List.map_cons, List.map_cons, bodyDeclarations_straight _ _ body]
    rfl
  | .functionDef header body _ => by
    rw [Stmt.straight, bodyDeclarations_singleton, stmtDeclarations, stmtDeclarations,
      List.map_cons, List.map_cons, bodyDeclarations_straight _ _ body]
    rfl
  | .compound _ _ clauses _ => clauseDeclarations_straight scopes next clauses
  | .assign .. | .annAssign .. | .augAssign .. | .importModules .. | .importFrom .. | .expr _
  | .simple .. | .error _ => congrArg _ (bodyDeclarations_singleton scopes next _)

theorem clauseDeclarations_straight (scopes : Scopes) (next : Nat) : (clauses : List Clause) →
    (bodyDeclarations scopes next (straightClauses clauses)).map Declaration.bare
      = (clauseDeclarations scopes next clauses).map Declaration.bare
  | [] => rfl
  | .mk _ body _ :: clauses =>
    map_bare_append (bodyDeclarations_straight scopes next body)
      fun place => clauseDeclarations_straight scopes place clauses

theorem bodyDeclarations_straight (scopes : Scopes) (next : Nat) : (body : List Stmt) →
    (bodyDeclarations scopes next (straightBody body)).map Declaration.bare
      = (bodyDeclarations scopes next body).map Declaration.bare
  | [] => rfl
  | stmt :: body =>
    map_bare_append (stmtDeclarations_straight scopes next stmt)
      fun place => bodyDeclarations_straight scopes place body

end

end Declarations

/-! ### Export lists -/

section Exports

theorem bodyExports_append (exports : Option (List String)) (first more : List Stmt) :
    bodyExports exports (first ++ more) = bodyExports (bodyExports exports first) more := by
  induction first generalizing exports with
  | nil => rfl
  | cons stmt body ih => exact ih (stmt.exportsAfter exports)

mutual

theorem exportsAfter_straight (exports : Option (List String)) : (stmt : Stmt) →
    bodyExports exports stmt.straight = stmt.exportsAfter exports
  | .compound _ _ clauses _ => clauseExports_straight exports clauses
  | .classDef .. | .functionDef .. | .assign .. | .annAssign .. | .augAssign ..
  | .importModules .. | .importFrom .. | .expr _ | .simple .. | .error _ => rfl

theorem clauseExports_straight (exports : Option (List String)) : (clauses : List Clause) →
    bodyExports exports (straightClauses clauses) = clauseExports exports clauses
  | [] => rfl
  | .mk _ body _ :: clauses => by
    rw [straightClauses, clauseExports, bodyExports_append, bodyExports_straight exports body,
      clauseExports_straight _ clauses]

theorem bodyExports_straight (exports : Option (List String)) : (body : List Stmt) →
    bodyExports exports (straightBody body) = bodyExports exports body
  | [] => rfl
  | stmt :: body => by
    rw [straightBody, bodyExports, bodyExports_append, exportsAfter_straight exports stmt,
      bodyExports_straight _ body]

end

end Exports

/-! ### Outlines -/

/-- Without its control flow a module declares and exports the same, but for documentation and
    metaclasses. -/
theorem Outline.ofTree_straight (tree : SyntaxTree) :
    (Outline.ofTree tree.straight).declarations.map Declaration.bare
        = (Outline.ofTree tree).declarations.map Declaration.bare ∧
      (Outline.ofTree tree.straight).exports = (Outline.ofTree tree).exports :=
  ⟨bodyDeclarations_straight [] 0 tree.body, bodyExports_straight none tree.body⟩

end PyAtlas
