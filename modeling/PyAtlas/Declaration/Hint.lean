import PyAtlas.Syntax.Basic

/-!
# Type hints in writing

The text of a type hint, in one spelling whatever the source looks like. What is not used
in hints is shown by an ellipsis.
-/

namespace PyAtlas

mutual

/-- The written form of a type hint. A string stands for the hint that it holds. -/
def Expr.hintText : Expr → String
  | .name ident => ident.name
  | .attribute value attr span =>
    ((Expr.attribute value attr span).dottedName?).getD "..."
  | .subscript value index _ => value.hintText ++ "[" ++ index.hintText ++ "]"
  | .str value _ _ => value
  | .literal .none _ => "None"
  | .list items _ => "[" ++ ", ".intercalate (hintTexts items) ++ "]"
  | .tuple items _ => ", ".intercalate (hintTexts items)
  | .binary _ lhs rhs _ => lhs.hintText ++ " | " ++ rhs.hintText
  | .call func arguments _ =>
    func.hintText ++ "(" ++ ", ".intercalate (argumentHints arguments) ++ ")"
  | _ => "..."

/-- The written forms of some type hints. -/
def hintTexts : List Expr → List String
  | [] => []
  | e :: es => e.hintText :: hintTexts es

/-- The written forms of the arguments of a call in a type hint. -/
def argumentHints : List Argument → List String
  | [] => []
  | .positional value :: rest => value.hintText :: argumentHints rest
  | _ :: rest => "..." :: argumentHints rest

end

end PyAtlas
