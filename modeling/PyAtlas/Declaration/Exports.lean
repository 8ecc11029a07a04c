import PyAtlas.Declaration.Target

/-!
# Export lists

A module may say in its variable `__all__` which of its names a star import takes. Only lists
that are written out count: a list or tuple of strings, perhaps extended by others.
-/

namespace PyAtlas

/-- The variable that holds the export list. -/
def exportVariable : String := "__all__"

/-- The strings of a list or tuple that holds nothing else. -/
def stringItems? : Expr → Option (List String)
  | .list items _ | .tuple items _ => items.mapM fun
    | .str value _ _ => some value
    | _ => none
  | _ => none

mutual

/-- The export list after a statement, given the one before. -/
def Stmt.exportsAfter (exports : Option (List String)) : Stmt → Option (List String)
  | .assign targets value _ =>
    if targets.any (·.isName exportVariable) then stringItems? value else exports
  | .annAssign target _ (some value) _ =>
    if target.isName exportVariable then stringItems? value else exports
  | .augAssign target op value _ =>
    if op == .plusEqual && target.isName exportVariable then
      (· ++ ·) <$> exports <*> stringItems? value
    else exports
  | .compound _ _ clauses _ => clauseExports exports clauses
  | _ => exports

/-- The export list after the bodies of some clauses. -/
def clauseExports (exports : Option (List String)) : List Clause → Option (List String)
  | [] => exports
  | .mk _ body _ :: clauses => clauseExports (bodyExports exports body) clauses

/-- The export list after a body. -/
def bodyExports (exports : Option (List String)) : List Stmt → Option (List String)
  | [] => exports
  | stmt :: body => bodyExports (stmt.exportsAfter exports) body

end

end PyAtlas
