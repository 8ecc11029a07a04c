import PyAtlas.Syntax.Basic
import PyAtlas.Text.DottedName

/-!
# Declarations

What a module declares: its classes, functions, variables and imports, each with the scope it
stands in. Declarations are what is left of a syntax tree once everything that binds no name
is forgotten; they are listed in the order of the source.

## Key definitions
- `Declaration`: one declared name.
- `Signature.render`, `ParameterShape.render`: how functions are shown.
-/

namespace PyAtlas

/-! ### Values -/

/-- What a variable is bound to, as far as the form of the value tells. -/
inductive ValueKind
  | unknown
  | int
  | float
  | complex
  | str
  | bytes
  | bool
  | none
  | ellipsis
  | list
  | tuple
  | dict
  | set
deriving Repr, DecidableEq, Inhabited

/-- The name of a kind of value. -/
def ValueKind.text : ValueKind → String
  | .unknown => "unknown"
  | .int => "int"
  | .float => "float"
  | .complex => "complex"
  | .str => "str"
  | .bytes => "bytes"
  | .bool => "bool"
  | .none => "None"
  | .ellipsis => "ellipsis"
  | .list => "list"
  | .tuple => "tuple"
  | .dict => "dict"
  | .set => "set"

/-- How a class names a base or its metaclass: by a path of names, or by an expression that
    has to be run. -/
inductive BaseRef
  | dotted (path : List String)
  | computed
deriving Repr, DecidableEq, Inhabited

namespace BaseRef

/-- The written form; a question mark for what has to be run. -/
def text : BaseRef → String
  | .dotted path => DottedName.join path
  | .computed => "?"

/-- The name with which the path begins. -/
def head? : BaseRef → Option String
  | .dotted path => path.head?
  | .computed => none

/-- The base that an expression names. Subscripts are looked through. -/
def ofExpr : Expr → BaseRef
  | .subscript value _ _ => ofExpr value
  | e =>
    match e.path? with
    | some path => .dotted path
    | none => .computed

end BaseRef

/-! ### Signatures -/

/-- A parameter as a signature shows it. -/
structure ParameterShape where
  name : String
  kind : ParameterKind
  hasDefault : Bool
  hint : Option String
deriving Repr, DecidableEq

/-- The written form of a parameter. Defaults are shown by an ellipsis. -/
def ParameterShape.render (p : ParameterShape) : String :=
  let stars := match p.kind with
    | .varPositional => "*"
    | .varKeyword => "**"
    | _ => ""
  let hint := match p.hint with
    | some hint => ": " ++ hint
    | none => ""
  let default := match p.hasDefault, p.hint with
    | false, _ => ""
    | true, some _ => " = ..."
    | true, none => "=..."
  stars ++ p.name ++ hint ++ default

/-- How a function is called. -/
structure Signature where
  parameters : List ParameterShape
  decorators : List String
  isAsync : Bool
  returns : Option String
  doc : Option String
deriving Repr, DecidableEq

namespace Signature

/-- The written parameters with the marks between their kinds, given the kind before them.
    A slash follows the last of the parameters that take positional arguments only. A star
    precedes the first of those that take keyword arguments only, unless another parameter
    has the star. -/
def marked (starred : Bool) : (previous : Option ParameterKind) → List ParameterShape →
    List String
  | _, [] => []
  | previous, p :: rest =>
    let star := p.kind == .keywordOnly && !starred && previous != some .keywordOnly
    let slash := p.kind == .positionalOnly && (rest.head?.map (·.kind)) != some .positionalOnly
    (if star then ["*"] else []) ++ [p.render] ++ (if slash then ["/"] else [])
      ++ marked starred (some p.kind) rest

/-- The parameters in parentheses and what is returned. -/
def render (s : Signature) : String :=
  let starred := s.parameters.any (·.kind == .varPositional)
  let returns := match s.returns with
    | some returns => " -> " ++ returns
    | none => ""
  "(" ++ ", ".intercalate (marked starred none s.parameters) ++ ")" ++ returns

end Signature

/-! ### Declarations -/

/-- What an import statement binds a name to. Modules are named as written: `level` is the
    number of points before the name. -/
inductive ImportRef
  | module (name : String)
  | member (module : Option String) (level : Nat) (name : String)
  /-- All the names that a module exports. -/
  | star (module : Option String) (level : Nat)
deriving Repr, DecidableEq

/-- What stands before the body of a class, and its documentation. -/
structure ClassShape where
  bases : List BaseRef
  metaclass : Option BaseRef
  doc : Option String
deriving Repr, DecidableEq

/-- The kinds of declarations. -/
inductive DeclarationKind
  | class (shape : ClassShape)
  | function (signature : Signature)
  /-- A variable of a module or a class, or, when a method assigns to it, an attribute of the
      instances of the class around that method. -/
  | variable (value : ValueKind) (onInstance : Bool)
  | imported (ref : ImportRef)
deriving Repr, DecidableEq

/-- One declared name. Declarations refer to each other by their places in the list of all
    declarations of a module. -/
structure Declaration where
  kind : DeclarationKind
  name : String
  /-- Where the name stands. -/
  span : Span
  /-- The class or function around it. -/
  parent : Option Nat
  /-- The names of the classes and functions around it, outermost first. -/
  path : List String
deriving Repr, DecidableEq

end PyAtlas
