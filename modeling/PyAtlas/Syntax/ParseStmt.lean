import PyAtlas.Syntax.ParseExpr
import PyAtlas.Syntax.Tree
import PyAtlas.Token.Lexer

/-!
# Parsing statements

Statements are read completely enough to find classes, functions, assignments and imports with
their nesting. Headers of control flow are passed over, and so are the operands of statements
that declare nothing. A line that cannot be read is reported and left behind.

Productions that have a body take a parser of indented bodies as an argument, `body`;
`indentedBody` closes the circle. The `indent` that opens a body has been read before `body`
is called.
-/

namespace PyAtlas

namespace Parser

/-! ### Passing over what is not kept -/

/-- A closing bracket where none is open leaves the depth alone. -/
def bracketDepth (op : Operator) (depth : Nat) : Nat :=
  if op.isOpening then depth + 1 else if op.isClosing then depth - 1 else depth

/-- Passes over one more token of a header, with some brackets open and some lambdas that lack
    their colon. -/
def headerStep : Nat × Nat → Parser (LoopStep (Nat × Nat) Unit)
  | (depth, lambdas) => do
    let token ← peek
    match token.kind with
    | .newline | .eof =>
      expected .colon token
      pure (.finished ())
    | .operator op =>
      advance
      -- Outside of brackets a colon ends the header, unless a lambda still lacks its own.
      if op == .colon && depth == 0 then
        if lambdas == 0 then pure (.finished ()) else pure (.again (depth, lambdas - 1))
      else pure (.again (bracketDepth op depth, lambdas))
    | .keyword .lambda =>
      advance
      pure (.again (depth, if depth == 0 then lambdas + 1 else lambdas))
    | .error cause =>
      report (.lexical cause) token.span
      advance
      pure (.again (depth, lambdas))
    | _ =>
      advance
      pure (.again (depth, lambdas))

/-- Passes over the rest of a header and its colon, with some brackets open and some lambdas
    that lack their colon. -/
def restOfHeader (before : Nat × Nat) : Parser Unit :=
  loop (fun _ => ()) headerStep before

/-- Passes over a header and its colon. Colons in brackets and colons of lambdas belong to the
    header. -/
def skipHeader : Parser Unit := restOfHeader (0, 0)

/-- The colon after a header. Where something else stands, the header is passed over. -/
def expectColon : Parser Unit := do
  let token ← peek
  if ← eats (.operator .colon) then pure ()
  else
    expected .colon token
    if !token.kind.isLineEnd then skipHeader

/-- Passes over one more token of the operands of a small statement, with some brackets
    open. -/
def operandStep (depth : Nat) : Parser (LoopStep Nat Unit) := do
  let token ← peek
  match token.kind with
  | .newline | .eof => pure (.finished ())
  | .operator op =>
    if op == .semicolon && depth == 0 then pure (.finished ())
    else
      advance
      pure (.again (bracketDepth op depth))
  | .error cause =>
    report (.lexical cause) token.span
    advance
    pure (.again depth)
  | _ =>
    advance
    pure (.again depth)

/-- Passes over the operands of a small statement. -/
def skipOperands : Parser Unit :=
  loop (fun _ => ()) operandStep 0

/-! ### Imports -/

/-- One more point of a dotted name and the name after it. -/
def segmentStep : String × Span → Parser (LoopStep (String × Span) (String × Span))
  | (name, span) => do
    if ← at? (.operator .dot) then
      match identifier? (← look (Cursor.peekNth · 1)) with
      | some segment =>
        advance
        advance
        pure (.again (name ++ "." ++ segment.name, span.merge segment.span))
      | none => pure (.finished (name, span))
    else pure (.finished (name, span))

/-- The names after the points of a dotted name. -/
def moreSegments (name : String) (span : Span) : Parser (String × Span) :=
  loop id segmentStep (name, span)

/-- A dotted name as written, with its span. -/
def dottedName : Parser (Option (String × Span)) := do
  match ← expectIdentifier with
  | some first => some <$> moreSegments first.name first.span
  | none => pure none

/-- The name after `as`, if there is one, for a name that has been read. -/
def aliasFor (name : String) (span : Span) : Parser (Option Alias) := do
  if ← eats (.keyword .as) then
    match ← expectIdentifier with
    | some ident => pure (some ⟨name, some ident, span.merge ident.span⟩)
    | none => pure none
  else pure (some ⟨name, none, span⟩)

/-- A module in an import statement. -/
def moduleAlias : Parser (Option Alias) := do
  match ← dottedName with
  | some (name, span) => aliasFor name span
  | none => pure none

/-- A member in a from-import. -/
def memberAlias : Parser (Option Alias) := do
  match ← expectIdentifier with
  | some ident => aliasFor ident.name ident.span
  | none => pure none

/-- One more module of an import statement. -/
def moduleAliasStep (names : List Alias) : Parser (LoopStep (List Alias) (List Alias)) := do
  match ← moduleAlias with
  | none => pure (.finished names)
  | some name =>
    let names := names ++ [name]
    if ← eats (.operator .comma) then pure (.again names) else pure (.finished names)

/-- Further modules of an import statement. -/
def moreModuleAliases (names : List Alias) : Parser (List Alias) :=
  loop id moduleAliasStep names

/-- The modules of an import statement. -/
def moduleAliases : Parser (List Alias) := moreModuleAliases []

/-- One more member of a from-import. In parentheses a comma may come last. -/
def memberAliasStep (parenthesized : Bool) (names : List Alias) :
    Parser (LoopStep (List Alias) (List Alias)) := do
  if parenthesized && (← at? (.operator .rParen)) then pure (.finished names)
  else
    match ← memberAlias with
    | none => pure (.finished names)
    | some name =>
      let names := names ++ [name]
      if ← eats (.operator .comma) then pure (.again names) else pure (.finished names)

/-- Further members of a from-import. -/
def moreMemberAliases (parenthesized : Bool) (names : List Alias) : Parser (List Alias) :=
  loop id (memberAliasStep parenthesized) names

/-- The members of a from-import. -/
def memberAliases (parenthesized : Bool) : Parser (List Alias) :=
  moreMemberAliases parenthesized []

/-- An import statement. -/
def importStatement : Parser Stmt := do
  let word ← next
  let names ← moduleAliases
  pure (.importModules names (← spanFrom word.span))

/-- One more point before the module of a from-import, or three points that are one token. -/
def pointStep (level : Nat) : Parser (LoopStep Nat Nat) := do
  match ← kind with
  | .operator .dot =>
    advance
    pure (.again (level + 1))
  | .operator .ellipsis =>
    advance
    pure (.again (level + 3))
  | _ => pure (.finished level)

/-- The number of points before the module of a from-import, some of which have been read. -/
def morePoints (level : Nat) : Parser Nat :=
  loop id pointStep level

/-- The number of points before the module of a from-import. -/
def importLevel : Parser Nat := morePoints 0

/-- What a from-import takes. -/
def importNames : Parser ImportNames := do
  match ← eat (.operator .star) with
  | some star => pure (.star star.span)
  | none =>
    let parenthesized ← eats (.operator .lParen)
    let names ← memberAliases parenthesized
    -- Without an opening parenthesis a closing one belongs to nothing and is left alone.
    if parenthesized then
      let token ← peek
      if !(← eats (.operator .rParen)) then expected (.closing .rParen) token
    pure (.names names)

/-- A statement that cannot be read from here on. -/
def abandonOperands (start : Span) : Parser Stmt := do
  skipOperands
  pure (.error (← spanFrom start))

/-- The second half of a from-import. -/
def importFromModule (start : Span) (module : Option String) (level : Nat) : Parser Stmt := do
  let token ← peek
  if ← eats (.keyword .import) then
    let names ← importNames
    pure (.importFrom module level names (← spanFrom start))
  else
    expected .importWord token
    abandonOperands start

/-- A from-import. The module may be left out after points. -/
def importFromStatement : Parser Stmt := do
  let word ← next
  let level ← importLevel
  -- The points alone name a package.
  if (← at? (.keyword .import)) && level > 0 then importFromModule word.span none level
  else
    match ← dottedName with
    | some (name, _) => importFromModule word.span (some name) level
    | none => abandonOperands word.span

/-! ### Small statements -/

/-- Reports a part of the grammar that the version lacks. -/
def requireFeature (v : Version) (feature : Feature) (span : Span) : Parser Unit := do
  if !feature.supportedBy v then report (.unsupported feature v) span

/-- One more equals sign of an assignment. What stands before it is a target. -/
def targetStep (v : Version) :
    List Expr × Expr → Parser (LoopStep (List Expr × Expr) (List Expr × Expr))
  | (targets, value) => do
    if ← eats .equal then
      let next ← starExpressions v
      pure (.again (targets ++ [value], next))
    else pure (.finished (targets, value))

/-- The targets of an assignment whose first equals sign has been read, and its value. Whatever
    stands before another equals sign is one more target. -/
def assignedValues (v : Version) (first : Expr) : Parser (List Expr × Expr) := do
  let value ← starExpressions v
  loop id (targetStep v) ([first], value)

/-- An expression, an assignment, or an annotated or augmented assignment. -/
def expressionStatement (v : Version) : Parser Stmt := do
  let start ← peek
  let first ← starExpressions v
  let token ← peek
  match token.kind with
  | .equal =>
    advance
    let (targets, value) ← assignedValues v first
    pure (.assign targets value (← spanFrom start.span))
  | .operator op =>
    if op == .colon then
      advance
      requireFeature v .variableAnnotations token.span
      let hint ← expression v
      let value ← if ← eats .equal then some <$> starExpressions v else pure none
      pure (.annAssign first hint value (← spanFrom start.span))
    else if op.isAugmented then
      advance
      let value ← starExpressions v
      pure (.augAssign first op value (← spanFrom start.span))
    else pure (.expr first)
  | _ => pure (.expr first)

/-- The statements whose operands are not kept, by the word that begins them. -/
def simpleKind? : Keyword → Option SimpleKind
  | .pass => some .pass
  | .break => some .break
  | .continue => some .continue
  | .return => some .return
  | .raise => some .raise
  | .del => some .del
  | .assert => some .assert
  | .global => some .global
  | .nonlocal => some .nonlocal
  | .print => some .print
  | .exec => some .exec
  | _ => none

/-- A statement without a body. -/
def smallStatement (v : Version) : Parser Stmt := do
  let token ← peek
  match token.kind with
  | .keyword .import => importStatement
  | .keyword .from => importFromStatement
  | .keyword word =>
    match simpleKind? word with
    | some simple =>
      advance
      skipOperands
      pure (.simple simple (← spanFrom token.span))
    | none => expressionStatement v
  | _ => expressionStatement v

/-- What follows a small statement: a semicolon, the end of the line, or a fault. -/
def smallStatementEnd (stmts : List Stmt) : Parser (LoopStep (List Stmt) (List Stmt)) := do
  let token ← peek
  match token.kind with
  | .operator .semicolon =>
    advance
    if (← kind).isLineEnd then
      skipNewlines
      pure (.finished stmts)
    else pure (.again stmts)
  | .newline =>
    advance
    pure (.finished stmts)
  | .eof | .dedent => pure (.finished stmts)
  | _ =>
    expected .endOfStatement token
    skipLine
    pure (.finished stmts)

/-- One more small statement of a line, and the semicolon or the line end after it. -/
def smallStatementStep (v : Version) (stmts : List Stmt) :
    Parser (LoopStep (List Stmt) (List Stmt)) := do
  let stmt ← smallStatement v
  smallStatementEnd (stmts ++ [stmt])

/-- Small statements separated by semicolons, up to the end of their line. -/
def smallStatements (v : Version) : Parser (List Stmt) :=
  loop id (smallStatementStep v) []

/-! ### Bodies -/

/-- The body after a header: an indented block, or small statements on the same line. -/
def block (v : Version) (body : Parser (List Stmt)) : Parser (List Stmt) := do
  if (← kind).isLineEnd then
    skipNewlines
    let token ← peek
    if token.kind == .indent then
      advance
      body
    else
      report .expectedIndentedBlock token.span
      pure []
  else smallStatements v

/-! ### Definitions -/

/-- The expression after a token that announces one, if that token comes next. -/
def expressionAfter (v : Version) (mark : TokenKind) : Parser (Option Expr) := do
  if ← eats mark then some <$> expression v else pure none

/-- The annotation of a parameter, if it has one. -/
def parameterHint (v : Version) : Parser (Option Expr) := do
  match ← eat (.operator .colon) with
  | some colon =>
    requireFeature v .parameterAnnotations colon.span
    some <$> expression v
  | none => pure none

/-- One parameter of a function. -/
def parameter (v : Version) (kind : ParameterKind) : Parser (Option Parameter) := do
  match ← expectIdentifier with
  | none => pure none
  | some name =>
    let hint ← parameterHint v
    let default ← expressionAfter v .equal
    let span := name.span
    let span := (hint.map fun e => span.merge e.span).getD span
    let span := (default.map fun e => span.merge e.span).getD span
    pure (some ⟨name, kind, hint, default, span⟩)

/-- Parameters before a slash can be given by position only. -/
def Parameter.beforeSlash (p : Parameter) : Parameter :=
  if p.kind = .positionalOrKeyword then { p with kind := .positionalOnly } else p

/-- A nested list of parameters, which binds no name of its own, and its default. -/
def sublistParameter (v : Version) : Parser Unit := do
  advance
  skipToClosing
  discard (eat (.operator .rParen))
  if ← eats .equal then discard (expression v)

/-- The closing parenthesis, a mark among the parameters of a function, or one more parameter.
    Every parameter after a star can be given by keyword only. -/
def parameterStep (v : Version) :
    List Parameter × Bool → Parser (LoopStep (List Parameter × Bool) (List Parameter))
  | (params, keywordOnly) => do
    let token ← peek
    match token.kind with
    | .operator .rParen =>
      advance
      pure (.finished params)
    | .operator .comma =>
      advance
      pure (.again (params, keywordOnly))
    | .operator .slash =>
      advance
      requireFeature v .positionalOnlyParameters token.span
      pure (.again (params.map Parameter.beforeSlash, keywordOnly))
    | .operator .star =>
      advance
      if (identifier? (← peek)).isSome then
        let param ← parameter v .varPositional
        pure (.again (params ++ param.toList, true))
      else pure (.again (params, true))
    | .operator .doubleStar =>
      advance
      let param ← parameter v .varKeyword
      pure (.again (params ++ param.toList, keywordOnly))
    | .operator .lParen =>
      sublistParameter v
      pure (.again (params, keywordOnly))
    | _ =>
      if (identifier? token).isSome then
        let param ← parameter v (if keywordOnly then .keywordOnly else .positionalOrKeyword)
        pure (.again (params ++ param.toList, keywordOnly))
      else
        expected .parameter token
        skipToClosing
        discard (eat (.operator .rParen))
        pure (.finished params)

/-- Further parameters of a function and the closing parenthesis. -/
def moreParameters (v : Version) (before : List Parameter × Bool) : Parser (List Parameter) :=
  loop (fun (params, _) => params) (parameterStep v) before

/-- The parameters of a function whose parenthesis has been read, and the closing
    parenthesis. -/
def parameters (v : Version) : Parser (List Parameter) := moreParameters v ([], false)

/-- The parenthesis of a function and its parameters. -/
def parameterList (v : Version) : Parser (List Parameter) := do
  let token ← peek
  if ← eats (.operator .lParen) then parameters v
  else
    expected .openParen token
    pure []

/-- The arguments of a class, if it has a parenthesis. -/
def classArguments (v : Version) : Parser (List Argument) := do
  if ← eats (.operator .lParen) then callArguments v (parseExpr v) else pure []

/-- A definition whose name is missing. -/
def abandonLine (start : Span) : Parser Stmt := do
  skipLine
  pure (.error (← spanFrom start))

/-- A class. `start` is where its decorators begin, if it has any. -/
def classStatement (v : Version) (body : Parser (List Stmt)) (decorators : List Expr)
    (start : Option Span) : Parser Stmt := do
  let word ← next
  let start := start.getD word.span
  match ← expectIdentifier with
  | none => abandonLine start
  | some name =>
    let arguments ← classArguments v
    expectColon
    let stmts ← block v body
    pure (.classDef ⟨name, arguments, decorators⟩ stmts (← spanFrom start))

/-- A function. `start` is where its decorators or the word `async` begin, if it has any. -/
def functionStatement (v : Version) (body : Parser (List Stmt)) (decorators : List Expr)
    (start : Option Span) (isAsync : Bool) : Parser Stmt := do
  let word ← next
  let start := start.getD word.span
  match ← expectIdentifier with
  | none => abandonLine start
  | some name =>
    let params ← parameterList v
    let returns ← expressionAfter v (.operator .arrow)
    expectColon
    let stmts ← block v body
    pure (.functionDef ⟨name, params, returns, decorators, isAsync⟩ stmts (← spanFrom start))

/-! ### Control flow -/

/-- A clause: a word, a header and a body. -/
def clause (v : Version) (body : Parser (List Stmt)) (kind : ClauseKind) : Parser Clause := do
  let word ← next
  skipHeader
  let stmts ← block v body
  pure (.mk kind stmts (← spanFrom word.span))

/-- The first clause of a control-flow statement. -/
def CompoundKind.firstClause : CompoundKind → ClauseKind
  | .if => .if
  | .while => .while
  | .for => .for
  | .try => .try
  | .with => .with
  | .match => .match

/-- The clause that a token begins after the first clause of a statement. -/
def CompoundKind.furtherClause? : CompoundKind → TokenKind → Option ClauseKind
  | .if, .keyword .elif => some .elif
  | .if, .keyword .else => some .else
  | .while, .keyword .else => some .else
  | .for, .keyword .else => some .else
  | .try, .keyword .else => some .else
  | .try, .keyword .except => some .except
  | .try, .keyword .finally => some .finally
  | _, _ => none

/-- One more clause of a control-flow statement. -/
def clauseStep (v : Version) (body : Parser (List Stmt)) (compound : CompoundKind)
    (clauses : List Clause) : Parser (LoopStep (List Clause) (List Clause)) := do
  match ← look fun c => CompoundKind.furtherClause? compound c.kind with
  | some further =>
    let next ← clause v body further
    pure (.again (clauses ++ [next]))
  | none => pure (.finished clauses)

/-- Further clauses of a control-flow statement. -/
def moreClauses (v : Version) (body : Parser (List Stmt)) (compound : CompoundKind)
    (clauses : List Clause) : Parser (List Clause) :=
  loop id (clauseStep v body compound) clauses

/-- The clauses after the first one. -/
def furtherClauses (v : Version) (body : Parser (List Stmt)) (compound : CompoundKind)
    (first : Clause) : Parser (List Clause) :=
  moreClauses v body compound [first]

/-- A control-flow statement with its clauses. -/
def compoundStatement (v : Version) (body : Parser (List Stmt)) (compound : CompoundKind)
    (isAsync : Bool) (start : Span) : Parser Stmt := do
  let first ← clause v body (CompoundKind.firstClause compound)
  let clauses ← furtherClauses v body compound first
  pure (.compound compound isAsync clauses (← spanFrom start))

/-- One more case of a match statement, or the dedent that ends them. -/
def caseStep (v : Version) (body : Parser (List Stmt)) (clauses : List Clause) :
    Parser (LoopStep (List Clause) (List Clause)) := do
  skipNewlines
  let token ← peek
  match token.kind with
  | .eof => pure (.finished clauses)
  | .dedent =>
    advance
    pure (.finished clauses)
  | _ =>
    if token.isWord "case" then
      let next ← clause v body .case
      pure (.again (clauses ++ [next]))
    else
      expected .caseWord token
      skipLine
      pure (.again clauses)

/-- The cases of a match statement, up to the dedent that ends them. -/
def matchCases (v : Version) (body : Parser (List Stmt)) : Parser (List Clause) :=
  loop id (caseStep v body) []

/-- The block of a match statement. -/
def matchBlock (v : Version) (body : Parser (List Stmt)) : Parser (List Clause) := do
  skipNewlines
  let token ← peek
  if token.kind == .indent then
    advance
    matchCases v body
  else
    report .expectedIndentedBlock token.span
    pure []

/-- A match statement. -/
def matchStatement (v : Version) (body : Parser (List Stmt)) : Parser Stmt := do
  let word ← next
  skipHeader
  let clauses ← matchBlock v body
  pure (.compound .match false clauses (← spanFrom word.span))

/-- What follows the word `async`. -/
def asyncStatement (v : Version) (body : Parser (List Stmt)) (decorators : List Expr)
    (start : Option Span) : Parser Stmt := do
  let word ← next
  let start := start.getD word.span
  let token ← peek
  match token.kind with
  | .keyword .define => functionStatement v body decorators (some start) true
  | .keyword .for => compoundStatement v body .for true start
  | .keyword .with => compoundStatement v body .with true start
  | _ =>
    expected .asyncStatement token
    abandonLine start

/-- The end of the line of a decorator. -/
def endDecorator : Parser Unit := do
  let token ← peek
  match token.kind with
  | .newline => advance
  | .eof => pure ()
  | _ =>
    expected .newline token
    skipLine

/-- A decorator whose sign has been read, and the line ends after it. -/
def decorator (v : Version) : Parser Expr := do
  let value ← expression v
  endDecorator
  skipNewlines
  pure value

/-- One more decorator before a definition. -/
def decoratorStep (v : Version) (decorators : List Expr) :
    Parser (LoopStep (List Expr) (List Expr)) := do
  if ← eats (.operator .at) then
    let next ← decorator v
    pure (.again (decorators ++ [next]))
  else pure (.finished decorators)

/-- The decorators before a definition, each on a line of its own. -/
def decoratorList (v : Version) : Parser (List Expr) :=
  loop id (decoratorStep v) []

/-- A definition with decorators. -/
def decoratedStatement (v : Version) (body : Parser (List Stmt)) : Parser Stmt := do
  let start ← peek
  let decorators ← decoratorList v
  let token ← peek
  match token.kind with
  | .keyword .define => functionStatement v body decorators (some start.span) false
  | .keyword .classWord => classStatement v body decorators (some start.span)
  | _ =>
    if ← look (Cursor.atAsync v · 0) then asyncStatement v body decorators (some start.span)
    else
      expected .definition token
      pure (.error (← spanFrom start.span))

/-! ### Statements -/

/-- One statement with a body, or the small statements of one line. -/
def statement (v : Version) (body : Parser (List Stmt)) : Parser (List Stmt) := do
  let token ← peek
  match token.kind with
  | .error cause =>
    report (.lexical cause) token.span
    advance
    pure []
  | .operator .at => List.singleton <$> decoratedStatement v body
  | .keyword .define => List.singleton <$> functionStatement v body [] none false
  | .keyword .classWord => List.singleton <$> classStatement v body [] none
  | .keyword .if => List.singleton <$> compoundStatement v body .if false token.span
  | .keyword .while => List.singleton <$> compoundStatement v body .while false token.span
  | .keyword .for => List.singleton <$> compoundStatement v body .for false token.span
  | .keyword .try => List.singleton <$> compoundStatement v body .try false token.span
  | .keyword .with => List.singleton <$> compoundStatement v body .with false token.span
  | _ =>
    if ← look (Cursor.atAsync v · 0) then List.singleton <$> asyncStatement v body [] none
    else if ← look (Cursor.atMatch v) then List.singleton <$> matchStatement v body
    else smallStatements v

/-- A block where none is allowed: it is reported, and its statements are kept. -/
def strayBlock (body : Parser (List Stmt)) (indent : Token) : Parser (List Stmt) := do
  report .unexpectedIndent indent.span
  advance
  body

/-- One more statement of an indented body, or the dedent that ends it. -/
def statementStep (v : Version) (body : Parser (List Stmt)) (stmts : List Stmt) :
    Parser (LoopStep (List Stmt) (List Stmt)) := do
  skipNewlines
  let token ← peek
  match token.kind with
  | .eof => pure (.finished stmts)
  | .dedent =>
    advance
    pure (.finished stmts)
  | .indent =>
    let inner ← strayBlock body token
    pure (.again (stmts ++ inner))
  | _ =>
    let more ← statement v body
    pure (.again (stmts ++ more))

/-- Further statements of an indented body up to the dedent that ends it. -/
def moreStatements (v : Version) (body : Parser (List Stmt)) (stmts : List Stmt) :
    Parser (List Stmt) :=
  loop id (statementStep v body) stmts

/-- The statements of an indented body up to the dedent that ends it, given a parser of the
    bodies in it. -/
def bodyWith (v : Version) (body : Parser (List Stmt)) : Parser (List Stmt) :=
  moreStatements v body []

/-- The statements of an indented body whose indent has been read. -/
def indentedBody (v : Version) : Parser (List Stmt) := fun s =>
  bodyWith v (nested s.remaining [] fun t _ => indentedBody v t) s
termination_by s => s.remaining

/-- What comes next in a module. A dedent that closes no block is passed over. -/
def moduleItem (v : Version) : Parser (List Stmt) := do
  let token ← peek
  match token.kind with
  | .dedent =>
    advance
    pure []
  | .indent => strayBlock (indentedBody v) token
  | _ => statement v (indentedBody v)

/-- One more item of a module, after the statements read so far. -/
def moduleStep (v : Version) (stmts : List Stmt) :
    Parser (LoopStep (List Stmt) (List Stmt)) := do
  skipNewlines
  if ← at? .eof then pure (.finished stmts)
  else
    let more ← moduleItem v
    pure (.again (stmts ++ more))

/-- The statements of a module. -/
def moduleBody (v : Version) : Parser (List Stmt) :=
  loop id (moduleStep v) []

/-- The state before the first token of a source text. -/
def start (v : Version) (source : String) : ParserState :=
  ⟨.ofTokens (tokenize v source) source.utf8ByteSize, []⟩

end Parser

/-- The syntax tree of a source text. -/
def SyntaxTree.parse (v : Version) (source : String) : SyntaxTree :=
  let (body, s) := Parser.moduleBody v (Parser.start v source)
  ⟨v, body, s.errors⟩

end PyAtlas
