import PyAtlas.Declaration.Basic

/-!
# Assignment targets

What an assignment binds. A target is a name, an attribute or something else, and tuples,
lists and starred targets spread a value over the targets in them.

## Key definitions
- `boundNames`: the names that a target binds.
- `boundAttributes`: the attributes of a given object that it binds.
- `ValueKind.ofExpr`: what the form of a value tells about it.
-/

namespace PyAtlas

/-- The kind of value that an expression writes out. -/
def ValueKind.ofExpr : Expr → ValueKind
  | .literal .int _ => .int
  | .literal .float _ => .float
  | .literal .complex _ => .complex
  | .literal .true _ | .literal .false _ => .bool
  | .literal .none _ => .none
  | .literal .ellipsis _ => .ellipsis
  | .str _ marks _ => if marks.bytes then .bytes else .str
  | .list _ _ => .list
  | .tuple _ _ => .tuple
  | .dict _ _ => .dict
  | .set _ _ => .set
  | .unary .not _ _ => .bool
  | .unary .minus operand _ | .unary .plus operand _ =>
    match ValueKind.ofExpr operand with
    | .int => .int
    | .float => .float
    | .complex => .complex
    | _ => .unknown
  | _ => .unknown

mutual

/-- The names that a target binds, each with the kind of value it gets. The parts of a value
    that is spread over several targets are not known. -/
def boundNames (value : ValueKind) : Expr → List (Identifier × ValueKind)
  | .name ident => [(ident, value)]
  | .tuple items _ | .list items _ => boundNamesIn items
  | .starred target _ => boundNames .unknown target
  | _ => []

/-- The names that the parts of a target bind. -/
def boundNamesIn : List Expr → List (Identifier × ValueKind)
  | [] => []
  | e :: es => boundNames .unknown e ++ boundNamesIn es

end

/-- Whether an expression is the given name. -/
def Expr.isName (name : String) : Expr → Bool
  | .name ident => ident.name == name
  | _ => false

mutual

/-- The attributes of the object called `receiver` that a target binds. Starred targets are
    not looked into. -/
def boundAttributes (receiver : String) (value : ValueKind) : Expr → List (Identifier × ValueKind)
  | .attribute object attr _ => if object.isName receiver then [(attr, value)] else []
  | .tuple items _ | .list items _ => boundAttributesIn receiver items
  | _ => []

/-- The attributes of the receiver that the parts of a target bind. -/
def boundAttributesIn (receiver : String) : List Expr → List (Identifier × ValueKind)
  | [] => []
  | e :: es => boundAttributes receiver .unknown e ++ boundAttributesIn receiver es

end

end PyAtlas
