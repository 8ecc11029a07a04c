import PyAtlas.Source.Span

/-!
# Diagnostics

What a reader of source text reports about it: a message with a place, a severity and,
for some, a code that names the kind of problem.
-/

namespace PyAtlas

/-- How serious a diagnostic is. -/
inductive Severity
  | error
  | warning
  | info
deriving Repr, DecidableEq, Inhabited

/-- The name of a severity in printed diagnostics. -/
def Severity.label : Severity → String
  | .error => "error"
  | .warning => "warning"
  | .info => "info"

/-- One remark about a piece of source text. -/
structure Diagnostic where
  span : Span
  severity : Severity
  message : String
  code : Option String
deriving Repr, DecidableEq, Inhabited

/-- The printed form: severity, the code in brackets when there is one, and the message. -/
def Diagnostic.render (d : Diagnostic) : String :=
  match d.code with
  | some code => d.severity.label ++ "[" ++ code ++ "]: " ++ d.message
  | none => d.severity.label ++ ": " ++ d.message

end PyAtlas
