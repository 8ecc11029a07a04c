import PyAtlas.Syntax.Basic
import PyAtlas.Syntax.Error

/-!
# Syntax trees of modules

A module read under a version: its statements and what was wrong with its text. A text always
has a tree; errors stand beside it.
-/

namespace PyAtlas

/-- The tree of a module, with the errors found on the way in the order of their reports. -/
structure SyntaxTree where
  version : Version
  body : List Stmt
  errors : List SyntaxError
deriving Repr

namespace SyntaxTree

/-- The string that documents the module, as written. -/
def doc? (tree : SyntaxTree) : Option String :=
  docstring? tree.body

/-- The statements without a body, at any depth, in the order of the source. -/
def leaves (tree : SyntaxTree) : List Stmt :=
  bodyLeaves tree.body

end SyntaxTree

end PyAtlas
