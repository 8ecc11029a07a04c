import PyAtlas.Syntax.Basic
import PyAtlas.Token.Cursor

/-!
# What the next tokens are

Questions about the tokens ahead of a cursor. None of them reads a token: they decide which
production of the grammar applies. Some words are special in some places only, and the tokens
around them tell; others join two expressions, and `continuation?` says how tightly.
-/

namespace PyAtlas

/-! ### Strength of binding -/

/-- How tightly the parts of an expression hold together, from the loosest to the tightest. -/
abbrev Precedence := Nat

namespace Precedence

abbrev initial : Precedence := 0
abbrev named : Precedence := 1
abbrev conditional : Precedence := 2
abbrev or : Precedence := 3
abbrev and : Precedence := 4
abbrev not : Precedence := 5
abbrev comparison : Precedence := 6
abbrev bitOr : Precedence := 7
abbrev bitXor : Precedence := 8
abbrev bitAnd : Precedence := 9
abbrev shift : Precedence := 10
abbrev sum : Precedence := 11
abbrev product : Precedence := 12
abbrev sign : Precedence := 13
abbrev power : Precedence := 14
abbrev await : Precedence := 15
abbrev trailer : Precedence := 16

end Precedence

/-- The precedence of an operator between two operands; `none` for operators that never stand
    there. -/
def Operator.precedence? : Operator → Option Precedence
  | .doubleStar => some .power
  | .star | .slash | .doubleSlash | .percent | .at => some .product
  | .plus | .minus => some .sum
  | .leftShift | .rightShift => some .shift
  | .ampersand => some .bitAnd
  | .caret => some .bitXor
  | .pipe => some .bitOr
  | .equalEqual | .notEqual | .lessThan | .lessThanOrEqual | .greaterThan
  | .greaterThanOrEqual => some .comparison
  | _ => none

/-- How an expression may go on after an operand. -/
inductive Continuation
  | binary (op : BinaryOp)
  | conditional
  | walrus
  | call
  | subscript
  | attribute
deriving Repr, DecidableEq

namespace Continuation

/-- The number of tokens that announce the continuation. -/
def width : Continuation → Nat
  | .binary .notIn | .binary .isNot => 2
  | _ => 1

/-- How tightly the operand before the continuation is held. -/
def precedence : Continuation → Precedence
  | .binary (.operator op) => op.precedence?.getD .initial
  | .binary .or => .or
  | .binary .and => .and
  | .binary _ => .comparison
  | .conditional => .conditional
  | .walrus => .named
  | .call | .subscript | .attribute => .trailer

/-- The continuation that two tokens in a row announce. -/
def ofKinds? (first second : TokenKind) : Option Continuation :=
  match first with
  | .keyword .if => some .conditional
  | .keyword .or => some (.binary .or)
  | .keyword .and => some (.binary .and)
  | .keyword .in => some (.binary .in)
  | .keyword .not => if second = .keyword .in then some (.binary .notIn) else none
  | .keyword .is =>
    if second = .keyword .not then some (.binary .isNot) else some (.binary .is)
  | .operator .walrus => some .walrus
  | .operator .lParen => some .call
  | .operator .lBracket => some .subscript
  | .operator .dot => some .attribute
  | .operator op => op.precedence?.map fun _ => .binary (.operator op)
  | _ => none

end Continuation

namespace TokenKind

/-- Kinds of tokens that may begin an expression. -/
def startsExpression : TokenKind → Bool
  | .identifier | .number _ | .string _ => true
  | .keyword .none | .keyword .true | .keyword .false | .keyword .not | .keyword .lambda
  | .keyword .await | .keyword .yield | .keyword .print | .keyword .exec => true
  | .operator .lParen | .operator .lBracket | .operator .lCurly | .operator .minus
  | .operator .plus | .operator .tilde | .operator .star | .operator .ellipsis
  | .operator .backquote => true
  | _ => false

/-- Kinds of tokens that may begin the subject of a match statement. -/
def startsSubject : TokenKind → Bool
  | .identifier | .number _ | .string _ => true
  | .keyword .none | .keyword .true | .keyword .false | .keyword .not => true
  | .operator .lParen | .operator .lBracket | .operator .lCurly | .operator .minus
  | .operator .star => true
  | _ => false

/-- Kinds of tokens that are left alone where an operand is missing: layout and closing
    brackets. -/
def endsOperand : TokenKind → Bool
  | .operator op => op.isClosing
  | kind => kind.isLayout

end TokenKind

/-- Whether the token is the given word and the word is not reserved. -/
def Token.isWord (t : Token) (word : String) : Bool :=
  t.kind == .identifier && t.text == word

/-- Versions in which `async` and `await` are special in some places without being reserved. -/
def Version.hasSoftAsync (v : Version) : Bool :=
  v.atLeast 3 5 && !v.atLeast 3 7

/-- Whether the last token of the line before its end is a colon. -/
def lineEndsWithColon (tokens : List Token) : Bool :=
  ((tokens.takeWhile fun t => !t.kind.isLineEnd).getLast?).any (·.kind == .operator .colon)

/-- Whether a colon follows outside of brackets before the first comma. Colons of lambdas do
    not count, and neither does anything after a `for`. -/
def colonFollows : (depth lambdas : Nat) → List Token → Bool
  | _, _, [] => false
  | depth, lambdas, t :: tokens =>
    match t.kind with
    | .newline | .eof => false
    | .keyword .lambda =>
      colonFollows depth (if depth = 0 then lambdas + 1 else lambdas) tokens
    | .keyword .for => if depth = 0 then false else colonFollows depth lambdas tokens
    | .operator .colon =>
      if depth = 0 then
        match lambdas with
        | 0 => true
        | lambdas + 1 => colonFollows depth lambdas tokens
      else colonFollows depth lambdas tokens
    | .operator .comma => if depth = 0 then false else colonFollows depth lambdas tokens
    | .operator op =>
      if op.isOpening then colonFollows (depth + 1) lambdas tokens
      else if op.isClosing then
        match depth with
        | 0 => false
        | depth + 1 => colonFollows depth lambdas tokens
      else colonFollows depth lambdas tokens
    | _ => colonFollows depth lambdas tokens

namespace Cursor

/-- How the expression goes on, if it does. -/
def continuation? (c : Cursor) : Option Continuation :=
  Continuation.ofKinds? c.kind (c.kindAt 1)

/-- Whether the token `n` places ahead is `async` before a definition, a loop or a with
    statement. -/
def atAsync (v : Version) (c : Cursor) (n : Nat) : Bool :=
  ((c.kindAt n == .keyword .async) || (v.hasSoftAsync && (c.peekNth n).isWord "async"))
    && match c.kindAt (n + 1) with
      | .keyword .define | .keyword .for | .keyword .with => true
      | _ => false

/-- Whether the next token is `await` used as an operator without being reserved. -/
def atSoftAwait (v : Version) (c : Cursor) : Bool :=
  v.hasSoftAsync && c.peek.isWord "await" && (c.kindAt 1).startsExpression

/-- Whether a comprehension begins. -/
def atComprehension (v : Version) (c : Cursor) : Bool :=
  c.kind == .keyword .for || (c.atAsync v 0 && c.kindAt 1 == .keyword .for)

/-- Whether a match statement begins. -/
def atMatch (v : Version) (c : Cursor) : Bool :=
  v.atLeast 3 10 && c.peek.isWord "match" && (c.kindAt 1).startsSubject
    && lineEndsWithColon c.after

/-- Whether the display at the cursor begins with an entry of a dictionary. -/
def atDictEntry (c : Cursor) : Bool :=
  c.kind == .operator .doubleStar || colonFollows 0 0 c.after

end Cursor

end PyAtlas
