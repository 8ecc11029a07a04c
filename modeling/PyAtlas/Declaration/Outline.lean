import PyAtlas.Declaration.Hint
import PyAtlas.Declaration.Exports
import PyAtlas.Syntax.Tree
import PyAtlas.Token.Docstring

/-!
# Outlines

The outline of a module lists its declarations in the order of the source. Control flow is
looked through: what stands under an `if` is declared like what stands beside it. Inside a
function only classes and functions are declared, and, in a method, the attributes that it
sets on its receiver, which belong to the class around it.

## Key definitions
- `stmtDeclarations`: the declarations of one statement, given the scopes around it and the
  place that the first of them takes.
- `Outline.ofTree`: the outline of a syntax tree.
-/

namespace PyAtlas

/-! ### Scopes -/

/-- The kinds of scopes inside a module. -/
inductive ScopeKind
  | classBody
  /-- A method has a receiver: the name of its first parameter. -/
  | functionBody (receiver : Option String)
deriving Repr, DecidableEq

/-- A class or function that declarations stand in. -/
structure Scope where
  /-- The place of its own declaration. -/
  declaration : Nat
  name : String
  kind : ScopeKind
deriving Repr, DecidableEq

/-- The scopes around a statement, innermost first. -/
abbrev Scopes := List Scope

namespace Scopes

/-- The names of the scopes, outermost first. -/
def path (scopes : Scopes) : List String :=
  (scopes.map (·.name)).reverse

/-- Whether the innermost scope is a class. -/
def inClass : Scopes → Bool
  | ⟨_, _, .classBody⟩ :: _ => true
  | _ => false

/-- Whether the innermost scope is a function. -/
def inFunction : Scopes → Bool
  | ⟨_, _, .functionBody _⟩ :: _ => true
  | _ => false

/-- A declaration directly in the innermost scope. -/
def declare (scopes : Scopes) (ident : Identifier) (kind : DeclarationKind) : Declaration :=
  ⟨kind, ident.name, ident.span, scopes.head?.map (·.declaration), scopes.path⟩

end Scopes

/-! ### Classes and functions -/

/-- The metaclass that an assignment to `__metaclass__` directly in the body of a class names.
    The last such assignment counts. -/
def bodyMetaclass? (body : List Stmt) : Option BaseRef :=
  body.reverse.findSome? fun
    | .assign targets value _ =>
      if targets.any (·.isName "__metaclass__") then some (BaseRef.ofExpr value) else none
    | _ => none

/-- The shape of a class. -/
def ClassShape.ofHeader (header : ClassHeader) (body : List Stmt) : ClassShape where
  bases := header.bases.map BaseRef.ofExpr
  metaclass := (header.metaclass?.map BaseRef.ofExpr).or (bodyMetaclass? body)
  doc := (docstring? body).map Docstring.clean

/-- The written form of a decorator, without the arguments of a call. -/
def decoratorText (e : Expr) : String :=
  let target := match e with
    | .call func _ _ => func
    | _ => e
  target.dottedName?.getD "..."

/-- A parameter as its signature shows it. -/
def ParameterShape.ofParameter (p : Parameter) : ParameterShape where
  name := p.name.name
  kind := p.kind
  hasDefault := p.default.isSome
  hint := p.hint.map Expr.hintText

/-- The signature of a function. -/
def Signature.ofHeader (header : FunctionHeader) (body : List Stmt) : Signature where
  parameters := header.parameters.map ParameterShape.ofParameter
  decorators := header.decorators.map decoratorText
  isAsync := header.isAsync
  returns := header.returns.map Expr.hintText
  doc := (docstring? body).map Docstring.clean

/-- The name under which a function directly in a class knows the instance: its first
    parameter, when that takes a positional argument and no decorator withholds the
    instance. -/
def receiver? (scopes : Scopes) (header : FunctionHeader) : Option String :=
  match header.parameters with
  | [] => none
  | first :: _ =>
    let positional := first.kind == .positionalOnly || first.kind == .positionalOrKeyword
    let withheld := header.decorators.any fun e =>
      decoratorText e == "staticmethod" || decoratorText e == "classmethod"
    if scopes.inClass && positional && !withheld then some first.name.name else none

/-! ### Bindings -/

/-- The declarations that assigning a value to a target makes. -/
def targetDeclarations (scopes : Scopes) (value : ValueKind) (target : Expr) :
    List Declaration :=
  match scopes with
  | ⟨_, _, .functionBody (some receiver)⟩ :: ⟨owner, name, .classBody⟩ :: outer =>
    (boundAttributes receiver value target).map fun (ident, value) =>
      Scopes.declare (⟨owner, name, .classBody⟩ :: outer) ident (.variable value true)
  | ⟨_, _, .functionBody _⟩ :: _ => []
  | _ => (boundNames value target).map fun (ident, value) =>
      scopes.declare ident (.variable value false)

/-- The declaration that importing a module makes. Without a name of its own the import binds
    the first part of the dotted name, to the module called by that part. -/
def aliasDeclaration (scopes : Scopes) (names : Alias) : Declaration :=
  match names.asname with
  | some asname => scopes.declare asname (.imported (.module names.name))
  | none =>
    let first := DottedName.head names.name
    scopes.declare ⟨first, names.span⟩ (.imported (.module first))

/-- The declaration that importing a member of a module makes. -/
def memberDeclaration (scopes : Scopes) (module : Option String) (level : Nat)
    (names : Alias) : Declaration :=
  scopes.declare (names.asname.getD ⟨names.name, names.span⟩)
    (.imported (.member module level names.name))

/-- The declarations of an import statement of members. -/
def importDeclarations (scopes : Scopes) (module : Option String) (level : Nat) :
    ImportNames → List Declaration
  | .star span => [scopes.declare ⟨"*", span⟩ (.imported (.star module level))]
  | .names aliases => aliases.map (memberDeclaration scopes module level)

/-! ### Statements -/

mutual

/-- The declarations of a statement; the first takes the place `next`. -/
def stmtDeclarations (scopes : Scopes) (next : Nat) : Stmt → List Declaration
  | .classDef header body _ =>
    scopes.declare header.name (.class (.ofHeader header body))
      :: bodyDeclarations (⟨next, header.name.name, .classBody⟩ :: scopes) (next + 1) body
  | .functionDef header body _ =>
    scopes.declare header.name (.function (.ofHeader header body))
      :: bodyDeclarations
        (⟨next, header.name.name, .functionBody (receiver? scopes header)⟩ :: scopes)
        (next + 1) body
  | .assign targets value _ =>
    targets.flatMap (targetDeclarations scopes (.ofExpr value))
  | .annAssign target _ value _ =>
    targetDeclarations scopes ((value.map ValueKind.ofExpr).getD .unknown) target
  | .importModules names _ =>
    if scopes.inFunction then [] else names.map (aliasDeclaration scopes)
  | .importFrom module level names _ =>
    if scopes.inFunction then [] else importDeclarations scopes module level names
  | .compound _ _ clauses _ => clauseDeclarations scopes next clauses
  | .augAssign .. | .expr _ | .simple .. | .error _ => []

/-- The declarations of the bodies of some clauses. -/
def clauseDeclarations (scopes : Scopes) (next : Nat) : List Clause → List Declaration
  | [] => []
  | .mk _ body _ :: clauses =>
    let first := bodyDeclarations scopes next body
    first ++ clauseDeclarations scopes (next + first.length) clauses

/-- The declarations of a body. -/
def bodyDeclarations (scopes : Scopes) (next : Nat) : List Stmt → List Declaration
  | [] => []
  | stmt :: body =>
    let first := stmtDeclarations scopes next stmt
    first ++ bodyDeclarations scopes (next + first.length) body

end

/-! ### Outlines -/

/-- What a module declares. -/
structure Outline where
  declarations : List Declaration
  doc : Option String
  /-- The names that a star import takes, where the module lists them. -/
  exports : Option (List String)
  errors : List SyntaxError
deriving Repr

/-- The outline of a syntax tree. -/
def Outline.ofTree (tree : SyntaxTree) : Outline where
  declarations := bodyDeclarations [] 0 tree.body
  doc := tree.doc?.map Docstring.clean
  exports := bodyExports none tree.body
  errors := tree.errors

end PyAtlas
