import PyAtlas.Syntax.Lookahead
import PyAtlas.Syntax.Parser
import PyAtlas.Token.StringLiteral

/-!
# Parsing expressions

An expression is an operand followed by continuations, each of which holds its left side more
tightly than the precedence that is asked for. Every production here takes the parser of whole
expressions as an argument, `expr`; `parseExpr` closes the circle. Productions call `expr` only
after reading a token, so what is left for it is shorter than what they began with.
-/

namespace PyAtlas.Parser

/-- A parser of expressions that hold together more tightly than a precedence. -/
abbrev ExprParser := Precedence → Parser Expr

/-- Two operands with an operator between them. -/
def binary (op : BinaryOp) (lhs rhs : Expr) : Expr :=
  .binary op lhs rhs (lhs.span.merge rhs.span)

/-! ### Lists of expressions -/

/-- A star and the value that it spreads. -/
def starred (expr : ExprParser) (star : Token) : Parser Expr := do
  let value ← expr (Precedence.bitOr - 1)
  pure (.starred value (star.span.merge value.span))

/-- An expression, or a star and the value that it spreads. -/
def starOrExpr (expr : ExprParser) : Parser Expr := do
  let token ← peek
  if token.kind == .operator .star then
    advance
    starred expr token
  else expr .initial

/-- One more expression after a comma. A comma after which none begins ends the list. -/
def starExprStep (expr : ExprParser) (items : List Expr) :
    Parser (LoopStep (List Expr) (List Expr)) := do
  if ← eats (.operator .comma) then
    if (← kind).startsExpression then
      let item ← starOrExpr expr
      pure (.again (items ++ [item]))
    else pure (.finished items)
  else pure (.finished items)

/-- Further expressions after commas. -/
def moreStarExprs (expr : ExprParser) (items : List Expr) : Parser (List Expr) :=
  loop id (starExprStep expr) items

/-- Expressions separated by commas. They make a tuple as soon as there is a comma. -/
def starExprs (expr : ExprParser) : Parser Expr := do
  let first ← starOrExpr expr
  if ← at? (.operator .comma) then
    let items ← moreStarExprs expr [first]
    pure (.tuple items (← spanFrom first.span))
  else pure first

/-! ### Brackets -/

/-- The bracket that closes what was opened. Where it is missing, the rest up to it or up to
    the end of the line is passed over. -/
def expectClosing (closing : Operator) : Parser Unit := do
  let token ← peek
  if ← eats (.operator closing) then pure ()
  else
    expected (.closing closing) token
    skipToClosing
    discard (eat (.operator closing))

/-- The rest of a comprehension and the bracket that closes it. -/
def comprehension (start : Span) (closing : Operator) : Parser Expr := do
  skipToClosing
  expectClosing closing
  pure (.other (← spanFrom start))

/-- One more item of a display after a comma. A comma may come last. -/
def itemStep (expr : ExprParser) (closing : Operator) (items : List Expr) :
    Parser (LoopStep (List Expr) (List Expr)) := do
  if ← eats (.operator .comma) then
    if ← at? (.operator closing) then pure (.finished items)
    else
      let item ← starOrExpr expr
      pure (.again (items ++ [item]))
  else pure (.finished items)

/-- The items of a display after the first one, up to the closing bracket. -/
def moreItems (expr : ExprParser) (closing : Operator) (items : List Expr) :
    Parser (List Expr) :=
  loop id (itemStep expr closing) items

/-- The operand of a yield. -/
def yieldExpr (expr : ExprParser) (start : Span) : Parser Expr := do
  if ← eats (.keyword .from) then discard (expr .initial)
  else if (← kind).startsExpression then discard (starExprs expr)
  pure (.other (← spanFrom start))

/-- What follows an opening parenthesis: a tuple, a generator, or an expression that stands for
    itself. -/
def parenthesized (v : Version) (expr : ExprParser) (start : Span) : Parser Expr := do
  if ← eats (.operator .rParen) then return .tuple [] (← spanFrom start)
  match ← eat (.keyword .yield) with
  | some word =>
    discard (yieldExpr expr word.span)
    expectClosing .rParen
    pure (.other (← spanFrom start))
  | none =>
    let first ← starOrExpr expr
    if ← look (Cursor.atComprehension v) then comprehension start .rParen
    else if ← at? (.operator .comma) then
      let items ← moreItems expr .rParen [first]
      expectClosing .rParen
      pure (.tuple items (← spanFrom start))
    else
      expectClosing .rParen
      pure first

/-- What follows an opening square bracket. -/
def listDisplay (v : Version) (expr : ExprParser) (start : Span) : Parser Expr := do
  if ← eats (.operator .rBracket) then return .list [] (← spanFrom start)
  let first ← starOrExpr expr
  if ← look (Cursor.atComprehension v) then comprehension start .rBracket
  else
    let items ← moreItems expr .rBracket [first]
    expectClosing .rBracket
    pure (.list items (← spanFrom start))

/-- One entry of a dictionary; `none` when the colon is missing. -/
def dictEntry (expr : ExprParser) : Parser (Option (Expr × Expr)) := do
  let start ← peek
  if ← eats (.operator .doubleStar) then
    let value ← expr (Precedence.bitOr - 1)
    pure (some (.other start.span, value))
  else
    let key ← expr .initial
    let token ← peek
    if ← eats (.operator .colon) then
      let value ← expr .initial
      pure (some (key, value))
    else
      expected .colon token
      skipToClosing
      discard (eat (.operator .rCurly))
      pure none

/-- One more entry of a dictionary, and what follows it. -/
def entryStep (v : Version) (expr : ExprParser) (items : List (Expr × Expr)) :
    Parser (LoopStep (List (Expr × Expr)) (Option (List (Expr × Expr)))) := do
  match ← dictEntry expr with
  | none => pure (.finished (some items))
  | some entry =>
    let items := items ++ [entry]
    if items.length == 1 && (← look (Cursor.atComprehension v)) then pure (.finished none)
    else if ← eats (.operator .comma) then
      if ← at? (.operator .rCurly) then
        expectClosing .rCurly
        pure (.finished (some items))
      else pure (.again items)
    else
      expectClosing .rCurly
      pure (.finished (some items))

/-- Further entries of a dictionary up to its closing bracket; `none` when they turn out to be
    a comprehension. -/
def moreEntries (v : Version) (expr : ExprParser) (items : List (Expr × Expr)) :
    Parser (Option (List (Expr × Expr))) :=
  loop some (entryStep v expr) items

/-- The entries of a dictionary. -/
def dictEntries (v : Version) (expr : ExprParser) : Parser (Option (List (Expr × Expr))) :=
  moreEntries v expr []

/-- What follows an opening curly bracket: a dictionary or a set. -/
def curlyDisplay (v : Version) (expr : ExprParser) (start : Span) : Parser Expr := do
  if ← eats (.operator .rCurly) then return .dict [] (← spanFrom start)
  if ← look Cursor.atDictEntry then
    match ← dictEntries v expr with
    | some items => pure (.dict items (← spanFrom start))
    | none => comprehension start .rCurly
  else
    let first ← starOrExpr expr
    if ← look (Cursor.atComprehension v) then comprehension start .rCurly
    else
      let items ← moreItems expr .rCurly [first]
      expectClosing .rCurly
      pure (.set items (← spanFrom start))

/-! ### Subscripts -/

/-- One more colon of a slice, and the bound after it, if there is one. -/
def boundStep (expr : ExprParser) (_ : Unit) : Parser (LoopStep Unit Unit) := do
  if ← eats (.operator .colon) then
    match ← kind with
    | .operator .colon | .operator .comma | .operator .rBracket => pure (.again ())
    | _ =>
      discard (expr .initial)
      pure (.again ())
  else pure (.finished ())

/-- The colons of a slice with the bounds between them. -/
def sliceBounds (expr : ExprParser) : Parser Unit :=
  loop id (boundStep expr) ()

/-- A slice from its first colon on. -/
def slice (expr : ExprParser) (start : Span) : Parser Expr := do
  sliceBounds expr
  pure (.other (← spanFrom start))

/-- One item of a subscript: an expression or a slice. -/
def subscriptItem (expr : ExprParser) : Parser Expr := do
  let start ← peek
  if start.kind == .operator .colon then slice expr start.span
  else
    let lower ← starOrExpr expr
    if ← at? (.operator .colon) then slice expr start.span else pure lower

/-- One more item of a subscript, and whether a comma follows it or one before it. -/
def subscriptStep (expr : ExprParser) :
    List Expr × Bool → Parser (LoopStep (List Expr × Bool) (List Expr × Bool))
  | (items, separated) => do
    let k ← kind
    if k == .operator .rBracket || k.isLineEnd then pure (.finished (items, separated))
    else
      let item ← subscriptItem expr
      if ← eats (.operator .comma) then pure (.again (items ++ [item], true))
      else pure (.finished (items ++ [item], separated))

/-- The items of a subscript, and whether a comma stands among them. -/
def subscriptItems (expr : ExprParser) : Parser (List Expr × Bool) :=
  loop id (subscriptStep expr) ([], false)

/-- What stands between square brackets after a value, and the closing bracket. -/
def subscript (expr : ExprParser) : Parser Expr := do
  let start ← peek
  let (items, separated) ← subscriptItems expr
  expectClosing .rBracket
  match items, separated with
  | [item], false => pure item
  | items, _ => pure (.tuple items (← spanFrom start.span))

/-! ### Calls -/

/-- An argument without a name. -/
def positionalArgument (v : Version) (expr : ExprParser) : Parser Argument := do
  let value ← expr .initial
  if ← look (Cursor.atComprehension v) then
    skipToClosing
    pure (.positional (.other (← spanFrom value.span)))
  else pure (.positional value)

/-- One argument of a call. -/
def argument (v : Version) (expr : ExprParser) : Parser Argument := do
  let token ← peek
  match token.kind with
  | .operator .star =>
    advance
    .star <$> expr .initial
  | .operator .doubleStar =>
    advance
    .doubleStar <$> expr .initial
  | _ =>
    -- A name before an equals sign is a keyword; any other name begins an expression.
    match identifier? token with
    | some name =>
      if ← look (Cursor.kindAt · 1 == .equal) then
        advance
        advance
        .keyword name <$> expr .initial
      else positionalArgument v expr
    | none => positionalArgument v expr

/-- What follows an argument: a comma or the closing parenthesis, which are left to be read. -/
def argumentEnd (arguments : List Argument) : Parser (LoopStep (List Argument) (List Argument)) := do
  let token ← peek
  match token.kind with
  | .operator .comma | .operator .rParen => pure (.again arguments)
  | _ =>
    expected .commaOrClosing token
    skipToClosing
    discard (eat (.operator .rParen))
    pure (.finished arguments)

/-- The closing parenthesis, a comma, or one more argument. -/
def argumentStep (v : Version) (expr : ExprParser) (arguments : List Argument) :
    Parser (LoopStep (List Argument) (List Argument)) := do
  let k ← kind
  if k == .operator .rParen then
    advance
    pure (.finished arguments)
  else if k == .operator .comma && !arguments.isEmpty then
    advance
    pure (.again arguments)
  else
    let item ← argument v expr
    argumentEnd (arguments ++ [item])

/-- Further arguments up to the closing parenthesis and that parenthesis. -/
def moreArguments (v : Version) (expr : ExprParser) (arguments : List Argument) :
    Parser (List Argument) :=
  loop id (argumentStep v expr) arguments

/-- The arguments of a call or a class header whose parenthesis has been read, and the closing
    parenthesis. -/
def callArguments (v : Version) (expr : ExprParser) : Parser (List Argument) :=
  moreArguments v expr []

/-! ### Operands -/

/-- An operator and its operand. -/
def unary (expr : ExprParser) (op : UnaryOp) (precedence : Precedence) (start : Span) :
    Parser Expr := do
  let operand ← expr precedence
  pure (.unary op operand (start.merge operand.span))

/-- One more token of the parameters of a lambda, with some brackets open. -/
def lambdaParameterStep (depth : Nat) : Parser (LoopStep Nat Bool) := do
  let token ← peek
  match token.kind with
  | .newline | .eof =>
    expected .colon token
    pure (.finished false)
  | .operator op =>
    if op == .colon && depth == 0 then
      advance
      pure (.finished true)
    else if op.isOpening then
      advance
      pure (.again (depth + 1))
    else if op.isClosing then
      if depth == 0 then
        expected .colon token
        pure (.finished false)
      else
        advance
        pure (.again (depth - 1))
    else
      advance
      pure (.again depth)
  | _ =>
    advance
    pure (.again depth)

/-- The parameters of a lambda and its colon. Says whether the colon was found. -/
def lambdaParameters : Parser Bool :=
  loop (fun _ => false) lambdaParameterStep 0

/-- What follows the word `lambda`. -/
def lambda (expr : ExprParser) (start : Span) : Parser Expr := do
  if ← lambdaParameters then
    let body ← expr .named
    pure (.other (start.merge body.span))
  else pure (.error (← spanFrom start))

/-- What follows an opening backquote. -/
def backquoted (expr : ExprParser) (start : Span) : Parser Expr := do
  discard (starExprs expr)
  let token ← peek
  if !(← eats (.operator .backquote)) then expected .backquote token
  pure (.other (← spanFrom start))

/-- The value of a string literal. -/
def stringValue (t : Token) : String := ((StringLiteral.decode? t.text).map (·.value)).getD ""

/-- One more string literal after others. -/
def stringStep : String × Span → Parser (LoopStep (String × Span) (String × Span))
  | (value, span) => do
    let token ← peek
    match token.kind with
    | .string _ =>
      advance
      pure (.again (value ++ stringValue token, span.merge token.span))
    | _ => pure (.finished (value, span))

/-- Adjacent string literals in a row: their values joined and the span of all. -/
def moreStrings (first : Token) : Parser (String × Span) :=
  loop id stringStep (stringValue first, first.span)

/-- What a token begins, once it has been read. -/
def operandAfter (v : Version) (expr : ExprParser) (token : Token) : Parser Expr := do
  let start := token.span
  match token.kind with
  | .string marks =>
    let (value, span) ← moreStrings token
    pure (.str value marks span)
  | .number .int => pure (.literal .int start)
  | .number .float => pure (.literal .float start)
  | .number .imaginary => pure (.literal .complex start)
  | .keyword .none => pure (.literal .none start)
  | .keyword .true => pure (.literal .true start)
  | .keyword .false => pure (.literal .false start)
  | .operator .ellipsis => pure (.literal .ellipsis start)
  | .operator .lParen => parenthesized v expr start
  | .operator .lBracket => listDisplay v expr start
  | .operator .lCurly => curlyDisplay v expr start
  | .operator .minus => unary expr .minus .sign start
  | .operator .plus => unary expr .plus .sign start
  | .operator .tilde => unary expr .invert .sign start
  | .keyword .not => unary expr .not .not start
  | .keyword .await => unary expr .await .await start
  | .operator .star => starred expr token
  | .keyword .lambda => lambda expr start
  | .keyword .yield => yieldExpr expr start
  | .operator .backquote => backquoted expr start
  | .error cause =>
    report (.lexical cause) start
    pure (.error start)
  | _ =>
    expected .expression token
    pure (.error start)

/-- An operand. Layout and closing brackets are not read: they end what lacks an operand. -/
def operand (v : Version) (expr : ExprParser) : Parser Expr := do
  let token ← peek
  match identifier? token with
  | some ident =>
    if ← look (Cursor.atSoftAwait v) then
      advance
      unary expr .await .await token.span
    else
      advance
      pure (.name ident)
  | none =>
    if token.kind.endsOperand then
      expected .expression token
      pure (.error token.span)
    else
      advance
      operandAfter v expr token

/-! ### Continuations -/

/-- What follows the word `if` after a value. -/
def conditional (expr : ExprParser) (start : Span) : Parser Expr := do
  discard (expr (Precedence.or - 1))
  let token ← peek
  if ← eats (.keyword .else) then discard (expr .named)
  else expected .elseWord token
  pure (.other (← spanFrom start))

/-- The expression that a continuation makes of the operand before it. `token` is the first
    token of the continuation, which has been read. -/
def continued (v : Version) (expr : ExprParser) (lhs : Expr) (token : Token) :
    Continuation → Parser Expr
  | .call => do
    let arguments ← callArguments v expr
    pure (.call lhs arguments (← spanFrom lhs.span))
  | .subscript => do
    let index ← subscript expr
    pure (.subscript lhs index (← spanFrom lhs.span))
  | .attribute => do
    match ← expectIdentifier with
    | some attr => pure (.attribute lhs attr (lhs.span.merge attr.span))
    | none => pure (.error (lhs.span.merge token.span))
  | .conditional => conditional expr lhs.span
  | .walrus => do
    let value ← expr .initial
    pure (.other (lhs.span.merge value.span))
  | .binary op => do
    if (Continuation.binary op).width == 2 then advance
    let precedence := (Continuation.binary op).precedence
    -- Powers nest to the right, all other operators to the left.
    let rhs ← expr (if op == .operator .doubleStar then precedence - 1 else precedence)
    pure (binary op lhs rhs)

/-- One more continuation of an operand, if it holds the operand more tightly than a
    precedence. -/
def continuationStep (v : Version) (expr : ExprParser) (precedence : Precedence) (lhs : Expr) :
    Parser (LoopStep Expr Expr) := do
  match ← look Cursor.continuation? with
  | none => pure (.finished lhs)
  | some continuation =>
    if continuation.precedence ≤ precedence then pure (.finished lhs)
    else
      let token ← next
      .again <$> continued v expr lhs token continuation

/-- The continuations of an operand that hold it more tightly than a precedence. -/
def continuations (v : Version) (expr : ExprParser) (precedence : Precedence) (lhs : Expr) :
    Parser Expr :=
  loop id (continuationStep v expr precedence) lhs

/-- One expression, given a parser of the expressions in it. -/
def exprWith (v : Version) (expr : ExprParser) (precedence : Precedence) : Parser Expr := do
  let lhs ← operand v expr
  continuations v expr precedence lhs

/-- An expression that holds together more tightly than a precedence. -/
def parseExpr (v : Version) (precedence : Precedence) : Parser Expr := fun s =>
  exprWith v (fun inner => nested s.remaining (.error s.cursor.peek.span)
    fun t _ => parseExpr v inner t) precedence s
termination_by s => s.remaining

/-- An expression. -/
def expression (v : Version) : Parser Expr := parseExpr v .initial

/-- Expressions separated by commas. -/
def starExpressions (v : Version) : Parser Expr := starExprs (parseExpr v)

end PyAtlas.Parser
