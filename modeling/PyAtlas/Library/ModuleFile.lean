import PyAtlas.Files.Path
import PyAtlas.Text.CharClass
import PyAtlas.Text.DottedName

/-!
# Module files

Which files are modules, told by their names. The extension says in what form a module is
kept, and what stands before it is the name of the module.
-/

namespace PyAtlas

/-- The forms in which modules are kept. -/
inductive ModuleKind
  | source
  | compiled
  | native
deriving Repr, DecidableEq, Inhabited

namespace ModuleKind

/-- The name of a form. -/
def text : ModuleKind → String
  | .source => "source"
  | .compiled => "compiled"
  | .native => "native extension"

/-- Only source text can be analyzed. -/
def analyzable (kind : ModuleKind) : Bool :=
  kind == .source

/-- The form that an extension stands for. -/
def ofExtension? (extension : String) : Option ModuleKind :=
  if ["py", "pyw"].contains extension then some .source
  else if ["pyc", "pyo"].contains extension then some .compiled
  else if ["pyd", "so", "dylib"].contains extension then some .native
  else none

end ModuleKind

/-- The file that makes a directory a package, without its extension. -/
def packageStem : String := "__init__"

/-- The name and the form of the module in a file; `none` for files that are not modules. The
    name of a native module ends at the first point: a tag of the machine may follow. -/
def classifyFile? (fileName : String) : Option (String × ModuleKind) := do
  let (front, back) ← Path.cutLast? (· == '.') fileName.toList
  let kind ← ModuleKind.ofExtension? (String.ofList back)
  let stem := String.ofList front
  let name := if kind = .native then DottedName.head stem else stem
  if Text.isIdentifier name then some (name, kind) else none

end PyAtlas
