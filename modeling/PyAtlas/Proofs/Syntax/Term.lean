import PyAtlas.Proofs.Syntax.Unplaced
import PyAtlas.Proofs.Token.Words

/-!
# Expressions and how they are written

A `Term` is an expression without places: names, integers, operators, attributes, subscripts,
calls and displays. `Term.words` writes it down, with parentheses around an operand only where
the operand would fall apart without them. How tightly each operator holds its operands is said
here by a table of its own; that the parser has the same order is `BinaryOp.precedence_eq`.

`Term.expr` is the syntax tree that the words stand for, with all places left out.

## Key results
- `Term.words`, `Term.text`: how a term is written.
- `Term.expr`: the syntax tree of a term.
- `Term.Valid`: what may be written: names that are no reserved words, integers of digits.
-/

namespace PyAtlas

/-! ### Terms -/

/-- How an argument is given in a call. -/
inductive CallForm
  | positional
  | keyword (name : String)
  | star
  | doubleStar
deriving Repr, DecidableEq

/-- Expressions without places. -/
inductive Term
  | name (text : String)
  | int (digits : String)
  | none
  | unary (op : UnaryOp) (operand : Term)
  | binary (op : BinaryOp) (lhs rhs : Term)
  | member (value : Term) (attr : String)
  | subscript (value index : Term)
  | call (func : Term) (arguments : List (CallForm × Term))
  | list (items : List Term)
  | tuple (items : List Term)
  | set (first : Term) (more : List Term)
  | dict (entries : List (Term × Term))

/-! ### How tightly operators hold -/

/-- How tightly an operator between two operands holds them, from the loosest to the tightest.
    Zero for what never stands there. -/
def BinaryOp.strength : BinaryOp → Nat
  | .or => 1
  | .and => 2
  | .in | .notIn | .is | .isNot => 4
  | .operator .equalEqual | .operator .notEqual | .operator .lessThan
  | .operator .lessThanOrEqual | .operator .greaterThan | .operator .greaterThanOrEqual => 4
  | .operator .pipe => 5
  | .operator .caret => 6
  | .operator .ampersand => 7
  | .operator .leftShift | .operator .rightShift => 8
  | .operator .plus | .operator .minus => 9
  | .operator .star | .operator .slash | .operator .doubleSlash | .operator .percent
  | .operator .at => 10
  | .operator .doubleStar => 12
  | .operator _ => 0

/-- How tightly an operator before its operand holds it. -/
def UnaryOp.strength : UnaryOp → Nat
  | .not => 3
  | .plus | .minus | .invert => 11
  | .await => 13

/-- How tightly an attribute, a subscript or a call holds the value before it. -/
def trailerStrength : Nat := 14

/-- How tightly the parts of a term hold together. Nothing pulls a name, a literal or a display
    apart. -/
def Term.strength : Term → Nat
  | .unary op _ => op.strength
  | .binary op _ _ => op.strength
  | .member _ _ | .subscript _ _ | .call _ _ => trailerStrength
  | _ => trailerStrength + 1

/-- Whether an operand needs parentheses next to an operator. One that holds together as
    tightly as the operator does may do without them where `equal` says so: on the left of an
    operator that nests to the left, and on the right of a power. -/
def Term.needsParens (operand : Term) (strength : Nat) (equal : Bool) : Bool :=
  if equal then operand.strength < strength else operand.strength ≤ strength

/-! ### Words -/

/-- How an operator between two operands is spelled. -/
def Operator.sign : Operator → String
  | .plus => "+"
  | .minus => "-"
  | .star => "*"
  | .slash => "/"
  | .doubleSlash => "//"
  | .percent => "%"
  | .at => "@"
  | .doubleStar => "**"
  | .leftShift => "<<"
  | .rightShift => ">>"
  | .ampersand => "&"
  | .pipe => "|"
  | .caret => "^"
  | .equalEqual => "=="
  | .notEqual => "!="
  | .lessThan => "<"
  | .lessThanOrEqual => "<="
  | .greaterThan => ">"
  | .greaterThanOrEqual => ">="
  | _ => ""

/-- The words of an operator between two operands. -/
def BinaryOp.words : BinaryOp → List Word
  | .or => [⟨.keyword .or, "or"⟩]
  | .and => [⟨.keyword .and, "and"⟩]
  | .in => [⟨.keyword .in, "in"⟩]
  | .notIn => [⟨.keyword .not, "not"⟩, ⟨.keyword .in, "in"⟩]
  | .is => [⟨.keyword .is, "is"⟩]
  | .isNot => [⟨.keyword .is, "is"⟩, ⟨.keyword .not, "not"⟩]
  | .operator op => [⟨.operator op, op.sign⟩]

/-- The word of an operator before its operand. -/
def UnaryOp.word : UnaryOp → Word
  | .plus => ⟨.operator .plus, "+"⟩
  | .minus => ⟨.operator .minus, "-"⟩
  | .invert => ⟨.operator .tilde, "~"⟩
  | .not => ⟨.keyword .not, "not"⟩
  | .await => ⟨.keyword .await, "await"⟩

namespace Word

def name (text : String) : Word := ⟨.identifier, text⟩
def equals : Word := ⟨.equal, "="⟩
def comma : Word := ⟨.operator .comma, ","⟩
def colon : Word := ⟨.operator .colon, ":"⟩
def dot : Word := ⟨.operator .dot, "."⟩
def star : Word := ⟨.operator .star, "*"⟩
def doubleStar : Word := ⟨.operator .doubleStar, "**"⟩
def lParen : Word := ⟨.operator .lParen, "("⟩
def rParen : Word := ⟨.operator .rParen, ")"⟩
def lBracket : Word := ⟨.operator .lBracket, "["⟩
def rBracket : Word := ⟨.operator .rBracket, "]"⟩
def lCurly : Word := ⟨.operator .lCurly, "\x7b"⟩
def rCurly : Word := ⟨.operator .rCurly, "\x7d"⟩

end Word

/-- What stands before the value of an argument. -/
def CallForm.words : CallForm → List Word
  | .positional => []
  | .keyword name => [.name name, .equals]
  | .star => [.star]
  | .doubleStar => [.doubleStar]

/-- Words in parentheses, if they need them. -/
def parenthesize (needed : Bool) (words : List Word) : List Word :=
  if needed then .lParen :: words ++ [.rParen] else words

/-- Groups of words, each behind a comma. -/
def behindCommas : List (List Word) → List Word
  | [] => []
  | words :: groups => .comma :: words ++ behindCommas groups

mutual

/-- The words of a term. -/
def Term.words : Term → List Word
  | .name text => [.name text]
  | .int digits => [⟨.number .int, digits⟩]
  | .none => [⟨.keyword .none, "None"⟩]
  | .unary op operand =>
    op.word :: parenthesize (operand.needsParens op.strength false) operand.words
  | .binary op lhs rhs =>
    -- Powers nest to the right, all other operators to the left.
    let power := op == .operator .doubleStar
    parenthesize (lhs.needsParens op.strength !power) lhs.words ++ op.words
      ++ parenthesize (rhs.needsParens op.strength power) rhs.words
  | .member value attr =>
    parenthesize (value.needsParens trailerStrength true) value.words ++ [.dot, .name attr]
  | .subscript value index =>
    parenthesize (value.needsParens trailerStrength true) value.words
      ++ .lBracket :: index.words ++ [.rBracket]
  | .call func arguments =>
    parenthesize (func.needsParens trailerStrength true) func.words
      ++ .lParen :: (argumentWords arguments).tail ++ [.rParen]
  | .list items => .lBracket :: (itemWords items).tail ++ [.rBracket]
  | .tuple items =>
    .lParen :: (itemWords items).tail ++ (if items.length = 1 then [.comma] else []) ++ [.rParen]
  | .set first more => .lCurly :: first.words ++ itemWords more ++ [.rCurly]
  | .dict entries => .lCurly :: (entryWords entries).tail ++ [.rCurly]

/-- The words of some terms, each behind a comma. -/
def itemWords : List Term → List Word
  | [] => []
  | item :: items => .comma :: item.words ++ itemWords items

/-- The words of some arguments, each behind a comma. -/
def argumentWords : List (CallForm × Term) → List Word
  | [] => []
  | (form, value) :: arguments =>
    .comma :: form.words ++ value.words ++ argumentWords arguments

/-- The words of the entries of a dictionary, each behind a comma. -/
def entryWords : List (Term × Term) → List Word
  | [] => []
  | (key, value) :: entries =>
    .comma :: key.words ++ .colon :: value.words ++ entryWords entries

end

/-- A term as it is written: its words with single spaces between them. -/
def Term.text (t : Term) : String :=
  " ".intercalate (t.words.map Word.text)

/-! ### Syntax trees -/

/-- An argument of the given form. -/
def CallForm.argument (form : CallForm) (value : Expr) : Argument :=
  match form with
  | .positional => .positional value
  | .keyword name => .keyword ⟨name, .nowhere⟩ value
  | .star => .star value
  | .doubleStar => .doubleStar value

mutual

/-- The syntax tree of a term, without places. -/
def Term.expr : Term → Expr
  | .name text => .name ⟨text, .nowhere⟩
  | .int _ => .literal .int .nowhere
  | .none => .literal .none .nowhere
  | .unary op operand => .unary op operand.expr .nowhere
  | .binary op lhs rhs => .binary op lhs.expr rhs.expr .nowhere
  | .member value attr => .attribute value.expr ⟨attr, .nowhere⟩ .nowhere
  | .subscript value index => .subscript value.expr index.expr .nowhere
  | .call func arguments => .call func.expr (argumentExprs arguments) .nowhere
  | .list items => .list (itemExprs items) .nowhere
  | .tuple items => .tuple (itemExprs items) .nowhere
  | .set first more => .set (first.expr :: itemExprs more) .nowhere
  | .dict entries => .dict (entryExprs entries) .nowhere

def itemExprs : List Term → List Expr
  | [] => []
  | item :: items => item.expr :: itemExprs items

def argumentExprs : List (CallForm × Term) → List Argument
  | [] => []
  | (form, value) :: arguments => form.argument value.expr :: argumentExprs arguments

def entryExprs : List (Term × Term) → List (Expr × Expr)
  | [] => []
  | (key, value) :: entries => (key.expr, value.expr) :: entryExprs entries

end

/-! ### What may be written -/

/-- A name that the version reserves in no place. -/
structure FreeName (v : Version) (text : String) : Prop where
  identifier : Text.isIdentifier text = true
  notReserved : Keyword.ofText? v text = none
  notAsync : text ≠ "async"
  notAwait : text ≠ "await"

instance (v : Version) (text : String) : Decidable (FreeName v text) :=
  decidable_of_iff (Text.isIdentifier text = true ∧ Keyword.ofText? v text = none
      ∧ text ≠ "async" ∧ text ≠ "await")
    ⟨fun ⟨hidentifier, hfree, hasync, hawait⟩ => ⟨hidentifier, hfree, hasync, hawait⟩,
      fun h => ⟨h.identifier, h.notReserved, h.notAsync, h.notAwait⟩⟩

/-- Decimal digits, one at least. -/
structure Digits (text : String) : Prop where
  nonempty : text.toList ≠ []
  digits : ∀ c ∈ text.toList, c.isDigit = true

/-- The name of a keyword argument may be written. -/
def CallForm.Valid (v : Version) : CallForm → Prop
  | .keyword name => FreeName v name
  | _ => True

/-- Terms that may be written: their names are free and their operators stand where they are. -/
inductive Term.Valid (v : Version) : Term → Prop
  | name {text : String} : FreeName v text → Valid v (.name text)
  | int {digits : String} : Digits digits → Valid v (.int digits)
  | none : Valid v .none
  | unary {op : UnaryOp} {operand : Term} :
    op ≠ .await → Valid v operand → Valid v (.unary op operand)
  | binary {op : BinaryOp} {lhs rhs : Term} :
    op.strength ≠ 0 → Valid v lhs → Valid v rhs → Valid v (.binary op lhs rhs)
  | member {value : Term} {attr : String} :
    Valid v value → FreeName v attr → Valid v (.member value attr)
  | subscript {value index : Term} :
    Valid v value → Valid v index → Valid v (.subscript value index)
  | call {func : Term} {arguments : List (CallForm × Term)} :
    Valid v func → (∀ a ∈ arguments, a.1.Valid v) → (∀ a ∈ arguments, Valid v a.2) →
    Valid v (.call func arguments)
  | list {items : List Term} : (∀ item ∈ items, Valid v item) → Valid v (.list items)
  | tuple {items : List Term} : (∀ item ∈ items, Valid v item) → Valid v (.tuple items)
  | set {first : Term} {more : List Term} :
    Valid v first → (∀ item ∈ more, Valid v item) → Valid v (.set first more)
  | dict {entries : List (Term × Term)} :
    (∀ e ∈ entries, Valid v e.1) → (∀ e ∈ entries, Valid v e.2) → Valid v (.dict entries)

end PyAtlas
