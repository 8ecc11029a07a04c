import PyAtlas.Token.Basic

/-!
# Syntax trees

Statements and expressions of a module. The tree keeps what declares names: classes, functions,
assignments and imports with their nesting. Of control flow it keeps the bodies and not the
headers, and of expressions such as lambdas and comprehensions only that they are there.

## Key definitions
- `Expr`, `Argument`: expressions and the arguments of calls and class headers.
- `Stmt`, `Clause`: statements and the clauses of control flow.
- `Expr.dottedName?`: the written form of a name or a chain of attributes.
- `docstring?`: the string that documents a body.
-/

namespace PyAtlas

/-- A name with its place. -/
structure Identifier where
  name : String
  span : Span
deriving Repr, DecidableEq, Inhabited

/-! ### Expressions -/

/-- Kinds of literals other than strings. -/
inductive LiteralKind
  | int
  | float
  | complex
  | true
  | false
  | none
  | ellipsis
deriving Repr, DecidableEq, Inhabited

/-- Operators before an operand. -/
inductive UnaryOp
  | plus
  | minus
  | invert
  | not
  | await
deriving Repr, DecidableEq, Inhabited

/-- Operators between two operands. -/
inductive BinaryOp
  | operator (op : Operator)
  | and
  | or
  | in
  | notIn
  | is
  | isNot
deriving Repr, DecidableEq, Inhabited

mutual

/-- Expressions. -/
inductive Expr
  | name (ident : Identifier)
  | attribute (value : Expr) (attr : Identifier) (span : Span)
  | call (func : Expr) (arguments : List Argument) (span : Span)
  | subscript (value index : Expr) (span : Span)
  | literal (kind : LiteralKind) (span : Span)
  /-- One or more adjacent string literals; the marks are those of the first. -/
  | str (value : String) (marks : StringMarks) (span : Span)
  | list (items : List Expr) (span : Span)
  | tuple (items : List Expr) (span : Span)
  | set (items : List Expr) (span : Span)
  | dict (items : List (Expr × Expr)) (span : Span)
  | unary (op : UnaryOp) (operand : Expr) (span : Span)
  | binary (op : BinaryOp) (lhs rhs : Expr) (span : Span)
  | starred (value : Expr) (span : Span)
  /-- Lambdas, comprehensions, conditionals and other forms that declare nothing. -/
  | other (span : Span)
  /-- A place where an expression was expected and none was found. -/
  | error (span : Span)

/-- Arguments of a call or a class header. -/
inductive Argument
  | positional (value : Expr)
  | keyword (name : Identifier) (value : Expr)
  | star (value : Expr)
  | doubleStar (value : Expr)

end

deriving instance Repr for Expr, Argument

instance : Inhabited Expr := ⟨.error ⟨0, 0⟩⟩

namespace Expr

/-- Where the expression stands. -/
def span : Expr → Span
  | .name ident => ident.span
  | .attribute _ _ span => span
  | .call _ _ span => span
  | .subscript _ _ span => span
  | .literal _ span => span
  | .str _ _ span => span
  | .list _ span => span
  | .tuple _ span => span
  | .set _ span => span
  | .dict _ span => span
  | .unary _ _ span => span
  | .binary _ _ _ span => span
  | .starred _ span => span
  | .other span => span
  | .error span => span

/-- The names of a chain of attributes, outermost object first; `none` for anything else. -/
def path? : Expr → Option (List String)
  | .name ident => some [ident.name]
  | .attribute value attr _ => value.path?.map (· ++ [attr.name])
  | _ => none

/-- The written form of a name or a chain of attributes, with points between the names. -/
def dottedName? (e : Expr) : Option String :=
  e.path?.map (".".intercalate ·)

end Expr

/-! ### Statements -/

/-- The ways in which a parameter takes an argument. -/
inductive ParameterKind
  | positionalOnly
  | positionalOrKeyword
  | varPositional
  | keywordOnly
  | varKeyword
deriving Repr, DecidableEq, Inhabited

/-- A parameter of a function. -/
structure Parameter where
  name : Identifier
  kind : ParameterKind
  hint : Option Expr
  default : Option Expr
  span : Span
deriving Repr

/-- A name in an import statement, with the name it is bound to if that differs. -/
structure Alias where
  /-- The dotted name as written. -/
  name : String
  asname : Option Identifier
  span : Span
deriving Repr, DecidableEq, Inhabited

/-- What a from-import takes out of a module. -/
inductive ImportNames
  | star (span : Span)
  | names (aliases : List Alias)
deriving Repr, DecidableEq

/-- Control-flow statements. -/
inductive CompoundKind
  | if
  | while
  | for
  | try
  | with
  | match
deriving Repr, DecidableEq, Inhabited

/-- Clauses of control-flow statements. -/
inductive ClauseKind
  | if
  | elif
  | else
  | while
  | for
  | try
  | except
  | finally
  | with
  | match
  | case
deriving Repr, DecidableEq, Inhabited

/-- Statements whose operands are not kept. -/
inductive SimpleKind
  | pass
  | break
  | continue
  | return
  | raise
  | del
  | assert
  | global
  | nonlocal
  | print
  | exec
deriving Repr, DecidableEq, Inhabited

/-- What stands before the body of a class. -/
structure ClassHeader where
  name : Identifier
  arguments : List Argument
  decorators : List Expr
deriving Repr

namespace ClassHeader

/-- The expressions that name the base classes: the positional arguments. -/
def bases (header : ClassHeader) : List Expr :=
  header.arguments.filterMap fun
    | .positional value => some value
    | _ => none

/-- The value of the keyword argument `metaclass`. -/
def metaclass? (header : ClassHeader) : Option Expr :=
  header.arguments.findSome? fun
    | .keyword name value => if name.name == "metaclass" then some value else none
    | _ => none

end ClassHeader

/-- What stands before the body of a function. -/
structure FunctionHeader where
  name : Identifier
  parameters : List Parameter
  returns : Option Expr
  decorators : List Expr
  isAsync : Bool
deriving Repr

mutual

/-- Statements. -/
inductive Stmt
  | classDef (header : ClassHeader) (body : List Stmt) (span : Span)
  | functionDef (header : FunctionHeader) (body : List Stmt) (span : Span)
  | assign (targets : List Expr) (value : Expr) (span : Span)
  | annAssign (target hint : Expr) (value : Option Expr) (span : Span)
  | augAssign (target : Expr) (op : Operator) (value : Expr) (span : Span)
  | importModules (names : List Alias) (span : Span)
  /-- `level` is the number of points before the module. -/
  | importFrom (module : Option String) (level : Nat) (names : ImportNames) (span : Span)
  | expr (value : Expr)
  | compound (kind : CompoundKind) (isAsync : Bool) (clauses : List Clause) (span : Span)
  | simple (kind : SimpleKind) (span : Span)
  | error (span : Span)

/-- A clause of a control-flow statement. -/
inductive Clause
  | mk (kind : ClauseKind) (body : List Stmt) (span : Span)

end

deriving instance Repr for Stmt, Clause

instance : Inhabited Stmt := ⟨.error ⟨0, 0⟩⟩

/-- Where the statement stands. -/
def Stmt.span : Stmt → Span
  | .classDef _ _ span => span
  | .functionDef _ _ span => span
  | .assign _ _ span => span
  | .annAssign _ _ _ span => span
  | .augAssign _ _ _ span => span
  | .importModules _ span => span
  | .importFrom _ _ _ span => span
  | .expr value => value.span
  | .compound _ _ _ span => span
  | .simple _ span => span
  | .error span => span

/-- The string that documents a body: its first statement, when that is a string literal. -/
def docstring? (body : List Stmt) : Option String :=
  match body with
  | .expr (.str value _ _) :: _ => some value
  | _ => none

/-! ### Leaves -/

mutual

/-- The statements without a body that stand in a statement at any depth, in order. -/
def Stmt.leaves : Stmt → List Stmt
  | .classDef _ body _ => bodyLeaves body
  | .functionDef _ body _ => bodyLeaves body
  | .compound _ _ clauses _ => clauseLeaves clauses
  | other => [other]

/-- The statements without a body in some clauses. -/
def clauseLeaves : List Clause → List Stmt
  | [] => []
  | .mk _ body _ :: clauses => bodyLeaves body ++ clauseLeaves clauses

/-- The statements without a body in a body. -/
def bodyLeaves : List Stmt → List Stmt
  | [] => []
  | stmt :: body => stmt.leaves ++ bodyLeaves body

end

theorem bodyLeaves_append (body more : List Stmt) :
    bodyLeaves (body ++ more) = bodyLeaves body ++ bodyLeaves more := by
  induction body with
  | nil => simp [bodyLeaves]
  | cons stmt body ih => simp [bodyLeaves, ih]

theorem clauseLeaves_append (clauses more : List Clause) :
    clauseLeaves (clauses ++ more) = clauseLeaves clauses ++ clauseLeaves more := by
  induction clauses with
  | nil => simp [clauseLeaves]
  | cons clause clauses ih =>
    cases clause
    simp [clauseLeaves, ih]

end PyAtlas
