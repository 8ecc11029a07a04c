import PyAtlas.Source.Diagnostic
import PyAtlas.Token.Basic

/-!
# Syntax errors

What can be wrong with the tokens of a module. A syntax error is a cause with a place; the
wording of a cause is in `SyntaxFault.message` and nowhere else.
-/

namespace PyAtlas

/-- What the grammar allows at a place where something else was found. -/
inductive Expectation
  | expression
  | identifier
  | elseWord
  | backquote
  | closing (bracket : Operator)
  | colon
  | commaOrClosing
  | openParen
  | newline
  | definition
  | asyncStatement
  | parameter
  | caseWord
  | endOfStatement
  | importWord
deriving Repr, DecidableEq

/-- How an expectation is written in messages. -/
def Expectation.text : Expectation → String
  | .expression => "expression"
  | .identifier => "identifier"
  | .elseWord => "else"
  | .backquote => "'\x60'"
  | .closing .rParen => "')'"
  | .closing .rBracket => "']'"
  | .closing _ => "'\x7d'"
  | .colon => "':'"
  | .commaOrClosing => "',' or ')'"
  | .openParen => "'('"
  | .newline => "newline"
  | .definition => "def or class"
  | .asyncStatement => "def, for or with"
  | .parameter => "parameter"
  | .caseWord => "case"
  | .endOfStatement => "end of statement"
  | .importWord => "import"

/-- Parts of the grammar that some versions lack. -/
inductive Feature
  | positionalOnlyParameters
  | parameterAnnotations
  | variableAnnotations
deriving Repr, DecidableEq

namespace Feature

/-- The name of a feature in messages. -/
def text : Feature → String
  | .positionalOnlyParameters => "positional-only parameters"
  | .parameterAnnotations => "parameter annotations"
  | .variableAnnotations => "variable annotations"

/-- The first release that has the feature, as its two numbers. -/
def since : Feature → Nat × Nat
  | .positionalOnlyParameters => (3, 8)
  | .parameterAnnotations => (3, 0)
  | .variableAnnotations => (3, 6)

/-- Whether a version has the feature. -/
def supportedBy (f : Feature) (v : Version) : Bool :=
  v.atLeast f.since.1 f.since.2

end Feature

/-- The causes of syntax errors. -/
inductive SyntaxFault
  | expected (expectation : Expectation) (found : String)
  | unexpectedIndent
  | expectedIndentedBlock
  | unsupported (feature : Feature) (version : Version)
  | lexical (cause : LexError)
deriving Repr, DecidableEq

/-- The wording of a cause. -/
def SyntaxFault.message : SyntaxFault → String
  | .expected expectation found => "expected " ++ expectation.text ++ ", found " ++ found
  | .unexpectedIndent => "unexpected indent"
  | .expectedIndentedBlock => "expected an indented block"
  | .unsupported feature version =>
    feature.text ++ " requires Python " ++ toString feature.since.1 ++ "."
      ++ toString feature.since.2 ++ " or newer, module targets " ++ version.render
  | .lexical cause => cause.message

/-- A cause with its place. -/
structure SyntaxError where
  fault : SyntaxFault
  span : Span
deriving Repr, DecidableEq

/-- The error as a diagnostic. -/
def SyntaxError.toDiagnostic (e : SyntaxError) : Diagnostic :=
  ⟨e.span, .error, e.fault.message, some "syntax-error"⟩

/-- How a token is named in a message about what was found. -/
def Token.describe (t : Token) : String :=
  match t.kind with
  | .newline => "newline"
  | .indent => "indent"
  | .dedent => "dedent"
  | .eof => "end of file"
  | _ => "'" ++ t.text ++ "'"

end PyAtlas
