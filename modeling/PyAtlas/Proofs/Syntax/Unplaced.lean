import PyAtlas.Syntax.Tree

/-!
# Syntax trees without places

Two texts that differ in their layout only have the same syntax tree but for the places in it.
`unplaced` leaves the places out of a tree: every span becomes `Span.nowhere`.

## Key results
- `Expr.unplaced`, `Stmt.unplaced`: trees of expressions and statements without places.
- `unplacedExprs_eq_map` and its companions: lists lose their places one by one.
-/

namespace PyAtlas

/-! ### Expressions -/

/-- The place of what has none. -/
def Span.nowhere : Span := ⟨0, 0⟩

def Identifier.unplaced (ident : Identifier) : Identifier := ⟨ident.name, .nowhere⟩

mutual

/-- A syntax tree with all places left out. -/
def Expr.unplaced : Expr → Expr
  | .name ident => .name ident.unplaced
  | .attribute value attr _ => .attribute value.unplaced attr.unplaced .nowhere
  | .call func arguments _ => .call func.unplaced (unplacedArguments arguments) .nowhere
  | .subscript value index _ => .subscript value.unplaced index.unplaced .nowhere
  | .literal kind _ => .literal kind .nowhere
  | .str value marks _ => .str value marks .nowhere
  | .list items _ => .list (unplacedExprs items) .nowhere
  | .tuple items _ => .tuple (unplacedExprs items) .nowhere
  | .set items _ => .set (unplacedExprs items) .nowhere
  | .dict items _ => .dict (unplacedEntries items) .nowhere
  | .unary op operand _ => .unary op operand.unplaced .nowhere
  | .binary op lhs rhs _ => .binary op lhs.unplaced rhs.unplaced .nowhere
  | .starred value _ => .starred value.unplaced .nowhere
  | .other _ => .other .nowhere
  | .error _ => .error .nowhere

def Argument.unplaced : Argument → Argument
  | .positional value => .positional value.unplaced
  | .keyword name value => .keyword name.unplaced value.unplaced
  | .star value => .star value.unplaced
  | .doubleStar value => .doubleStar value.unplaced

def unplacedExprs : List Expr → List Expr
  | [] => []
  | e :: es => e.unplaced :: unplacedExprs es

def unplacedArguments : List Argument → List Argument
  | [] => []
  | a :: as => a.unplaced :: unplacedArguments as

def unplacedEntries : List (Expr × Expr) → List (Expr × Expr)
  | [] => []
  | (key, value) :: entries => (key.unplaced, value.unplaced) :: unplacedEntries entries

end

theorem unplacedExprs_eq_map (es : List Expr) : unplacedExprs es = es.map Expr.unplaced := by
  induction es with
  | nil => rfl
  | cons e es ih => rw [unplacedExprs, ih, List.map_cons]

theorem unplacedExprs_append (es es' : List Expr) :
    unplacedExprs (es ++ es') = unplacedExprs es ++ unplacedExprs es' := by
  rw [unplacedExprs_eq_map, unplacedExprs_eq_map, unplacedExprs_eq_map, List.map_append]

theorem unplacedArguments_eq_map (as : List Argument) :
    unplacedArguments as = as.map Argument.unplaced := by
  induction as with
  | nil => rfl
  | cons a as ih => rw [unplacedArguments, ih, List.map_cons]

theorem unplacedArguments_append (as as' : List Argument) :
    unplacedArguments (as ++ as') = unplacedArguments as ++ unplacedArguments as' := by
  rw [unplacedArguments_eq_map, unplacedArguments_eq_map, unplacedArguments_eq_map,
    List.map_append]

theorem unplacedEntries_eq_map (entries : List (Expr × Expr)) :
    unplacedEntries entries = entries.map fun e => (e.1.unplaced, e.2.unplaced) := by
  induction entries with
  | nil => rfl
  | cons e entries ih => rw [unplacedEntries, ih, List.map_cons]

theorem unplacedEntries_append (entries entries' : List (Expr × Expr)) :
    unplacedEntries (entries ++ entries')
      = unplacedEntries entries ++ unplacedEntries entries' := by
  rw [unplacedEntries_eq_map, unplacedEntries_eq_map, unplacedEntries_eq_map, List.map_append]

/-! ### Statements -/

def Parameter.unplaced (p : Parameter) : Parameter :=
  ⟨p.name.unplaced, p.kind, p.hint.map Expr.unplaced, p.default.map Expr.unplaced, .nowhere⟩

def Alias.unplaced (a : Alias) : Alias :=
  ⟨a.name, a.asname.map Identifier.unplaced, .nowhere⟩

def ImportNames.unplaced : ImportNames → ImportNames
  | .star _ => .star .nowhere
  | .names aliases => .names (aliases.map Alias.unplaced)

def ClassHeader.unplaced (header : ClassHeader) : ClassHeader :=
  ⟨header.name.unplaced, unplacedArguments header.arguments, unplacedExprs header.decorators⟩

def FunctionHeader.unplaced (header : FunctionHeader) : FunctionHeader :=
  ⟨header.name.unplaced, header.parameters.map Parameter.unplaced,
    header.returns.map Expr.unplaced, unplacedExprs header.decorators, header.isAsync⟩

mutual

/-- A statement with all places left out. -/
def Stmt.unplaced : Stmt → Stmt
  | .classDef header body _ => .classDef header.unplaced (unplacedBody body) .nowhere
  | .functionDef header body _ => .functionDef header.unplaced (unplacedBody body) .nowhere
  | .assign targets value _ => .assign (unplacedExprs targets) value.unplaced .nowhere
  | .annAssign target hint value _ =>
    .annAssign target.unplaced hint.unplaced (value.map Expr.unplaced) .nowhere
  | .augAssign target op value _ => .augAssign target.unplaced op value.unplaced .nowhere
  | .importModules names _ => .importModules (names.map Alias.unplaced) .nowhere
  | .importFrom module level names _ => .importFrom module level names.unplaced .nowhere
  | .expr value => .expr value.unplaced
  | .compound kind isAsync clauses _ =>
    .compound kind isAsync (unplacedClauses clauses) .nowhere
  | .simple kind _ => .simple kind .nowhere
  | .error _ => .error .nowhere

def unplacedClauses : List Clause → List Clause
  | [] => []
  | .mk kind body _ :: clauses => .mk kind (unplacedBody body) .nowhere :: unplacedClauses clauses

def unplacedBody : List Stmt → List Stmt
  | [] => []
  | stmt :: body => stmt.unplaced :: unplacedBody body

end

theorem unplacedBody_append (body body' : List Stmt) :
    unplacedBody (body ++ body') = unplacedBody body ++ unplacedBody body' := by
  induction body with
  | nil => rfl
  | cons stmt body ih => rw [List.cons_append, unplacedBody, ih, unplacedBody, List.cons_append]

theorem unplacedClauses_append (clauses clauses' : List Clause) :
    unplacedClauses (clauses ++ clauses')
      = unplacedClauses clauses ++ unplacedClauses clauses' := by
  induction clauses with
  | nil => rfl
  | cons clause clauses ih =>
    obtain ⟨kind, body, span⟩ := clause
    rw [List.cons_append, unplacedClauses, ih, unplacedClauses, List.cons_append]

end PyAtlas
