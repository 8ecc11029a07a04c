import PyAtlas.Proofs.Syntax.ExprNames
import PyAtlas.Proofs.Syntax.StmtPlacing

/-!
# The names in statements

Statements draw their names from the tokens like expressions do. A dotted name begins with the name
of a token and grows only where a point and another name are next. An import without a name where
one is expected is left as it is, so that no name is empty.

## Key results
- `Draws.dottedName`, `Draws.aliasFor`: where the names of imports are read.
- `Draws.moduleBody`: the names in a module come from the tokens.
- `SyntaxTree.parse_names_drawn`: so all names in a syntax tree come from the tokens of its text.
-/

namespace PyAtlas

/-! ### Imports -/

/-- The names of an import and the name that it may be given come from the tokens. -/
structure AliasDrawn (ts : List Token) (a : Alias) : Prop where
  name : DottedFrom ts a.name
  asname : ∀ ident ∈ a.asname, Drawn ts ident

/-- The names in some imports come from the tokens. -/
def AliasesDrawn (ts : List Token) (aliases : List Alias) : Prop :=
  ∀ a ∈ aliases, AliasDrawn ts a

namespace AliasesDrawn

variable {ts : List Token} {aliases : List Alias} {a : Alias}

theorem concat (h : AliasesDrawn ts aliases) (ha : AliasDrawn ts a) :
    AliasesDrawn ts (aliases ++ [a]) :=
  List.forall_mem_append.2 ⟨h, List.forall_mem_singleton.2 ha⟩

theorem asnames (h : AliasesDrawn ts aliases) : AllDrawn ts (aliases.filterMap Alias.asname) := by
  intro ident hident
  obtain ⟨a, ha, hasname⟩ := List.mem_filterMap.1 hident
  exact (h a ha).asname ident hasname

theorem names (h : AliasesDrawn ts aliases) :
    ∀ dotted ∈ aliases.map Alias.name, DottedFrom ts dotted :=
  List.forall_mem_map.2 fun a ha => (h a ha).name

/-- An import statement. -/
theorem importModules (h : AliasesDrawn ts aliases) (span : Span) :
    StmtDrawn ts (.importModules aliases span) :=
  ⟨h.asnames, List.forall_mem_singleton.2 h.names⟩

end AliasesDrawn

/-- A from-import. -/
theorem StmtDrawn.importFrom {ts : List Token} {module : Option String} {names : ImportNames}
    (hmodule : ∀ dotted ∈ module, DottedFrom ts dotted) (hnames : AliasesDrawn ts names.aliases)
    (level : Nat) (span : Span) : StmtDrawn ts (.importFrom module level names span) := by
  refine ⟨hnames.asnames, List.forall_mem_singleton.2 (List.forall_mem_append.2 ⟨?_, hnames.names⟩)⟩
  exact fun dotted hdotted => hmodule dotted (Option.mem_toList.1 hdotted)

namespace Draws

open PyAtlas.Parser

variable {ts : List Token}

/-- A point is read only where a name stands behind it. -/
theorem moreSegments {name : String} (hname : DottedFrom ts name) (span : Span) :
    Draws ts (Parser.moreSegments name span) fun path => DottedFrom ts path.1 := by
  unfold Parser.moreSegments
  refine loop_id (S := fun path : String × Span => DottedFrom ts path.1)
    (fun (name, span) hname => ?_) hname
  refine look_bind fun _ => ite (peekNth_bind fun token hdrawn => ?_) (pure hname)
  split
  · rename_i segment hsegment
    refine advance.bind fun _ _ => advance.bind fun _ _ => pure ?_
    exact DottedFrom.point hname (hdrawn segment hsegment)
  · exact pure hname

theorem dottedName : Draws ts Parser.dottedName fun r => ∀ path ∈ r, DottedFrom ts path.1 := by
  unfold Parser.dottedName
  refine expectIdentifier_bind (fun first hfirst => ?_) (pure nofun)
  refine map ((moreSegments (.name hfirst) first.span).mono fun path hpath => ?_)
  rintro _ ⟨⟩
  exact hpath

theorem aliasFor {name : String} (hname : DottedFrom ts name) (span : Span) :
    Draws ts (Parser.aliasFor name span) fun r => ∀ a ∈ r, AliasDrawn ts a := by
  unfold Parser.aliasFor
  refine eats_bind (expectIdentifier_bind (fun ident hident => pure ?_) (pure nofun)) (pure ?_)
  · rintro _ ⟨⟩
    exact ⟨hname, by rintro _ ⟨⟩; exact hident⟩
  · rintro _ ⟨⟩
    exact ⟨hname, nofun⟩

theorem moduleAlias : Draws ts Parser.moduleAlias fun r => ∀ a ∈ r, AliasDrawn ts a := by
  unfold Parser.moduleAlias
  refine dottedName.bind fun path hpath => ?_
  cases path with
  | none => exact pure nofun
  | some path => exact aliasFor (hpath path rfl) path.2

theorem memberAlias : Draws ts Parser.memberAlias fun r => ∀ a ∈ r, AliasDrawn ts a := by
  unfold Parser.memberAlias
  exact expectIdentifier_bind (fun ident hident => aliasFor (.name hident) _) (pure nofun)

/-- One more import behind others, and what follows it. -/
theorem moreAliases {names : List Alias} (hnames : AliasesDrawn ts names)
    {item : Parser (Option Alias)} (hitem : Draws ts item fun r => ∀ a ∈ r, AliasDrawn ts a) :
    Draws ts (do
      match ← item with
      | none => Pure.pure (LoopStep.finished names)
      | some name =>
        let names := names ++ [name]
        if ← eats (.operator .comma) then Pure.pure (.again names)
        else Pure.pure (.finished names)) fun r => r.Holds (AliasesDrawn ts) (AliasesDrawn ts) := by
  refine hitem.bind fun found hfound => ?_
  cases found with
  | none => exact pure hnames
  | some name =>
    have hadded := hnames.concat (hfound name rfl)
    exact eats_bind (pure hadded) (pure hadded)

theorem importStatement : Draws ts Parser.importStatement (StmtDrawn ts) := by
  have haliases : Draws ts Parser.moduleAliases (AliasesDrawn ts) :=
    loop_id (fun names hnames => moreAliases hnames moduleAlias) (List.forall_mem_nil _)
  unfold Parser.importStatement
  refine next_bind fun word => haliases.bind fun names hnames => ?_
  exact spanFrom_pure hnames.importModules

theorem memberAliases (parenthesized : Bool) :
    Draws ts (Parser.memberAliases parenthesized) (AliasesDrawn ts) := by
  unfold Parser.memberAliases Parser.moreMemberAliases
  refine loop_id (fun names hnames => ?_) (List.forall_mem_nil _)
  exact look_bind fun _ => ite (pure hnames) (moreAliases hnames memberAlias)

theorem importLevel : Draws ts Parser.importLevel fun _ => True := by
  unfold Parser.importLevel Parser.morePoints
  refine loop_any fun level => look_bind fun k => ?_
  split
  · exact advance.bind fun _ _ => pure trivial
  · exact advance.bind fun _ _ => pure trivial
  · exact pure trivial

theorem importNames : Draws ts Parser.importNames fun names => AliasesDrawn ts names.aliases := by
  unfold Parser.importNames
  refine eat_bind fun star => ?_
  cases star with
  | some star => exact pure (List.forall_mem_nil _)
  | none =>
    have hnames (parenthesized : Bool) : Draws ts (do
        let names ← Parser.memberAliases parenthesized
        if parenthesized then
          let token ← peek
          if !(← eats (.operator .rParen)) then Parser.expected (.closing .rParen) token
        Pure.pure (ImportNames.names names)) fun names => AliasesDrawn ts names.aliases := by
      refine (memberAliases parenthesized).bind fun names hnames => ite ?_ (pure hnames)
      refine look_bind fun token => eats_bind (pure hnames) ?_
      exact expected.bind fun _ _ => pure hnames
    exact eats_bind (hnames true) (hnames false)

/-! ### Passing over what is not kept -/

theorem skipHeader : Draws ts Parser.skipHeader fun _ => True := by
  refine loop_any fun (depth, lambdas) => look_bind fun token => ?_
  split
  · exact expected.bind fun _ _ => pure trivial
  · exact expected.bind fun _ _ => pure trivial
  · refine advance.bind fun _ _ => ite ?_ (pure trivial)
    exact ite (pure trivial) (pure trivial)
  · exact advance.bind fun _ _ => pure trivial
  · exact report.bind fun _ _ => advance.bind fun _ _ => pure trivial
  · exact advance.bind fun _ _ => pure trivial

theorem expectColon : Draws ts Parser.expectColon fun _ => True := by
  unfold Parser.expectColon
  refine look_bind fun token => eats_bind (pure trivial) (expected.bind fun _ _ => ?_)
  exact ite skipHeader (pure trivial)

theorem skipOperands : Draws ts Parser.skipOperands fun _ => True := by
  unfold Parser.skipOperands
  refine loop_any fun depth => look_bind fun token => ?_
  split
  · exact pure trivial
  · exact pure trivial
  · exact ite (pure trivial) (advance.bind fun _ _ => pure trivial)
  · exact report.bind fun _ _ => advance.bind fun _ _ => pure trivial
  · exact advance.bind fun _ _ => pure trivial

theorem requireFeature {v : Version} {feature : Feature} {span : Span} :
    Draws ts (Parser.requireFeature v feature span) fun _ => True := by
  unfold Parser.requireFeature
  exact ite report (pure trivial)

/-! ### Small statements -/

theorem abandonOperands (start : Span) :
    Draws ts (Parser.abandonOperands start) (StmtDrawn ts) := by
  unfold Parser.abandonOperands
  exact skipOperands.bind fun _ _ => spanFrom_pure fun _ => .of_identifiers .nil rfl

theorem importFromModule (start : Span) {module : Option String}
    (hmodule : ∀ dotted ∈ module, DottedFrom ts dotted) (level : Nat) :
    Draws ts (Parser.importFromModule start module level) (StmtDrawn ts) := by
  unfold Parser.importFromModule
  refine look_bind fun token => eats_bind ?_ (expected.bind fun _ _ => abandonOperands start)
  exact importNames.bind fun names hnames =>
    spanFrom_pure fun span => .importFrom hmodule hnames level span

theorem importFromStatement : Draws ts Parser.importFromStatement (StmtDrawn ts) := by
  unfold Parser.importFromStatement
  refine next_bind fun word => importLevel.bind fun level _ => look_bind fun _ => ?_
  refine ite (importFromModule _ (fun _ hnone => by cases hnone) level) ?_
  refine dottedName.bind fun path hpath => ?_
  cases path with
  | none => exact abandonOperands _
  | some path =>
    refine importFromModule _ (fun dotted hdotted => ?_) level
    rw [← Option.some.inj hdotted]
    exact hpath path rfl

/-- The targets of an assignment and its value. -/
theorem assignedValues (v : Version) {first : Expr} (hfirst : AllDrawn ts first.identifiers) :
    Draws ts (Parser.assignedValues v first) fun r =>
      AllDrawn ts (exprIdentifiers (r.1 ++ [r.2])) := by
  unfold Parser.assignedValues
  refine (starExpressions v).bind fun value hvalue => ?_
  refine loop_id (S := fun r : List Expr × Expr => AllDrawn ts (exprIdentifiers (r.1 ++ [r.2])))
    (fun (targets, value) hvalues => ?_) (AllDrawn.exprs_concat (.exprs_singleton hfirst) hvalue)
  refine eats_bind ((starExpressions v).bind fun next hnext => pure ?_) (pure hvalues)
  exact AllDrawn.exprs_concat hvalues hnext

theorem expressionStatement (v : Version) :
    Draws ts (Parser.expressionStatement v) (StmtDrawn ts) := by
  unfold Parser.expressionStatement
  refine look_bind fun start => (starExpressions v).bind fun first hfirst => ?_
  have hexpr : StmtDrawn ts (.expr first) := .of_identifiers hfirst rfl
  refine look_bind fun token => ?_
  split
  · refine advance.bind fun _ _ => (assignedValues v hfirst).bind fun r hvalues => ?_
    exact spanFrom_pure fun _ => .of_identifiers hvalues rfl
  · refine ite ?_ (ite ?_ (pure hexpr))
    · refine advance.bind fun _ _ => requireFeature.bind fun _ _ => ?_
      refine (expression v).bind fun hint hhint => ?_
      have hannotated {value : Option Expr} (hvalue : AllDrawn ts (exprIdentifiers value.toList)) :
          Draws ts (spanFrom start.span >>= fun span =>
            Pure.pure (Stmt.annAssign first hint value span)) (StmtDrawn ts) :=
        spanFrom_pure fun _ => .of_identifiers
          (AllDrawn.append_iff.2 ⟨hfirst, AllDrawn.append_iff.2 ⟨hhint, hvalue⟩⟩) rfl
      have hsome : Draws ts (some <$> Parser.starExpressions v) fun r =>
          AllDrawn ts (exprIdentifiers r.toList) :=
        map ((starExpressions v).mono fun _ => .exprs_singleton)
      have hnone : Draws ts (Pure.pure none) fun r : Option Expr =>
          AllDrawn ts (exprIdentifiers r.toList) := pure .nil
      exact eats_bind (hsome.bind fun _ => hannotated) (hnone.bind fun _ => hannotated)
    · refine advance.bind fun _ _ => (starExpressions v).bind fun value hvalue => ?_
      refine spanFrom_pure fun _ => .of_identifiers ?_ rfl
      exact AllDrawn.exprs_concat (.exprs_singleton hfirst) hvalue
  · exact pure hexpr

theorem smallStatement (v : Version) : Draws ts (Parser.smallStatement v) (StmtDrawn ts) := by
  unfold Parser.smallStatement
  refine look_bind fun token => ?_
  split
  · exact importStatement
  · exact importFromStatement
  · split
    · refine advance.bind fun _ _ => skipOperands.bind fun _ _ => ?_
      exact spanFrom_pure fun _ => .of_identifiers .nil rfl
    · exact expressionStatement v
  · exact expressionStatement v

theorem smallStatementEnd {stmts : List Stmt} (hstmts : BodyDrawn ts stmts) :
    Draws ts (Parser.smallStatementEnd stmts) fun r => r.Holds (BodyDrawn ts) (BodyDrawn ts) := by
  unfold Parser.smallStatementEnd
  refine look_bind fun token => ?_
  split
  · refine advance.bind fun _ _ => look_bind fun _ => ite ?_ (pure hstmts)
    exact skipNewlines.bind fun _ _ => pure hstmts
  · exact advance.bind fun _ _ => pure hstmts
  · exact pure hstmts
  · exact pure hstmts
  · exact expected.bind fun _ _ => skipLine.bind fun _ _ => pure hstmts

theorem smallStatements (v : Version) : Draws ts (Parser.smallStatements v) (BodyDrawn ts) := by
  unfold Parser.smallStatements
  refine loop_id (fun stmts hstmts => ?_) .nil
  unfold Parser.smallStatementStep
  exact (smallStatement v).bind fun stmt hstmt =>
    smallStatementEnd (BodyDrawn.append hstmts (StmtDrawn.body hstmt))

/-! ### Definitions -/

section Bodies

variable {body : Parser (List Stmt)}

theorem block (v : Version) (hbody : Draws ts body (BodyDrawn ts)) :
    Draws ts (Parser.block v body) (BodyDrawn ts) := by
  unfold Parser.block
  refine look_bind fun _ => ite (skipNewlines.bind fun _ _ => ?_) (smallStatements v)
  refine look_bind fun token => ite (advance.bind fun _ _ => hbody) ?_
  exact report.bind fun _ _ => pure .nil

theorem expressionAfter (v : Version) (mark : TokenKind) :
    Draws ts (Parser.expressionAfter v mark) fun r => AllDrawn ts (exprIdentifiers r.toList) := by
  unfold Parser.expressionAfter
  exact eats_bind (map ((expression v).mono fun _ => .exprs_singleton)) (pure .nil)

theorem parameterHint (v : Version) :
    Draws ts (Parser.parameterHint v) fun r => AllDrawn ts (exprIdentifiers r.toList) := by
  unfold Parser.parameterHint
  refine eat_bind fun colon => ?_
  cases colon with
  | none => exact pure .nil
  | some colon =>
    exact requireFeature.bind fun _ _ => map ((expression v).mono fun _ => .exprs_singleton)

theorem parameter (v : Version) (kind : ParameterKind) :
    Draws ts (Parser.parameter v kind) fun r =>
      AllDrawn ts (r.toList.flatMap Parameter.identifiers) := by
  unfold Parser.parameter
  refine expectIdentifier_bind (fun name hname => ?_) (pure .nil)
  refine (parameterHint v).bind fun hint hhint => ?_
  refine (expressionAfter v _).bind fun default hdefault => ?_
  refine pure (AllDrawn.append_iff.2 ⟨AllDrawn.cons_iff.2 ⟨hname, ?_⟩, .nil⟩)
  rw [exprIdentifiers_append]
  exact AllDrawn.append_iff.2 ⟨hhint, hdefault⟩

theorem sublistParameter (v : Version) :
    Draws ts (Parser.sublistParameter v) fun _ => True := by
  unfold Parser.sublistParameter
  refine advance.bind fun _ _ => skipToClosing.bind fun _ _ => eat.discard.bind fun _ _ => ?_
  exact eats_bind (expression v).discard (pure trivial)

/-- What a slash says of the parameters before it is not about their names. -/
theorem flatMap_beforeSlash (params : List Parameter) :
    (params.map Parameter.beforeSlash).flatMap Parameter.identifiers
      = params.flatMap Parameter.identifiers := by
  rw [List.flatMap_map]
  refine congrArg (List.flatMap · params) (funext fun p => ?_)
  rw [Parameter.beforeSlash]
  split <;> rfl

theorem parameters (v : Version) : Draws ts (Parser.parameters v) fun params =>
    AllDrawn ts (params.flatMap Parameter.identifiers) := by
  unfold Parser.parameters Parser.moreParameters
  refine loop
    (S := fun r : List Parameter × Bool => AllDrawn ts (r.1.flatMap Parameter.identifiers))
    (T := fun r : List Parameter => AllDrawn ts (r.flatMap Parameter.identifiers))
    (fun (params, keywordOnly) hparams => ?_) (fun _ hparams => hparams) .nil
  have hadded {param : Option Parameter}
      (hparam : AllDrawn ts (param.toList.flatMap Parameter.identifiers)) :
      AllDrawn ts ((params ++ param.toList).flatMap Parameter.identifiers) := by
    rw [List.flatMap_append]
    exact AllDrawn.append_iff.2 ⟨hparams, hparam⟩
  refine look_bind fun token => ?_
  split
  · exact advance.bind fun _ _ => pure hparams
  · exact advance.bind fun _ _ => pure hparams
  · refine advance.bind fun _ _ => requireFeature.bind fun _ _ => pure ?_
    show AllDrawn ts ((params.map Parameter.beforeSlash).flatMap Parameter.identifiers)
    rw [flatMap_beforeSlash]
    exact hparams
  · refine advance.bind fun _ _ => look_bind fun _ => ite ?_ (pure hparams)
    exact (parameter v _).bind fun param hparam => pure (hadded hparam)
  · exact advance.bind fun _ _ => (parameter v _).bind fun param hparam => pure (hadded hparam)
  · exact (sublistParameter v).bind fun _ _ => pure hparams
  · refine ite ((parameter v _).bind fun param hparam => pure (hadded hparam)) ?_
    refine expected.bind fun _ _ => skipToClosing.bind fun _ _ => ?_
    exact eat.discard.bind fun _ _ => pure hparams

theorem parameterList (v : Version) : Draws ts (Parser.parameterList v) fun params =>
    AllDrawn ts (params.flatMap Parameter.identifiers) := by
  unfold Parser.parameterList
  exact look_bind fun token => eats_bind (parameters v) (expected.bind fun _ _ => pure .nil)

theorem classArguments (v : Version) :
    Draws ts (Parser.classArguments v) fun as => AllDrawn ts (argumentIdentifiers as) := by
  unfold Parser.classArguments
  exact eats_bind (callArguments v (DrawsExprs.parseExpr v)) (pure .nil)

theorem abandonLine (start : Span) : Draws ts (Parser.abandonLine start) (StmtDrawn ts) := by
  unfold Parser.abandonLine
  exact skipLine.bind fun _ _ => spanFrom_pure fun _ => .of_identifiers .nil rfl

variable {decorators : List Expr}

theorem classStatement (v : Version) (hbody : Draws ts body (BodyDrawn ts))
    (hdecorators : AllDrawn ts (exprIdentifiers decorators)) (start : Option Span) :
    Draws ts (Parser.classStatement v body decorators start) (StmtDrawn ts) := by
  unfold Parser.classStatement
  refine next_bind fun word => expectIdentifier_bind (fun name hname => ?_) (abandonLine _)
  refine (classArguments v).bind fun arguments harguments => expectColon.bind fun _ _ => ?_
  refine (block v hbody).bind fun stmts hstmts => spanFrom_pure fun _ => ?_
  refine NamesDrawn.of_header (AllDrawn.append_iff.2 ⟨hdecorators, ?_⟩) hstmts
  exact AllDrawn.cons_iff.2 ⟨hname, harguments⟩

theorem functionStatement (v : Version) (hbody : Draws ts body (BodyDrawn ts))
    (hdecorators : AllDrawn ts (exprIdentifiers decorators)) (start : Option Span)
    (isAsync : Bool) :
    Draws ts (Parser.functionStatement v body decorators start isAsync) (StmtDrawn ts) := by
  unfold Parser.functionStatement
  refine next_bind fun word => expectIdentifier_bind (fun name hname => ?_) (abandonLine _)
  refine (parameterList v).bind fun params hparams => ?_
  refine (expressionAfter v _).bind fun returns hreturns => expectColon.bind fun _ _ => ?_
  refine (block v hbody).bind fun stmts hstmts => spanFrom_pure fun _ => ?_
  refine NamesDrawn.of_header (AllDrawn.append_iff.2 ⟨AllDrawn.append_iff.2 ⟨hdecorators, ?_⟩,
    hreturns⟩) hstmts
  exact AllDrawn.cons_iff.2 ⟨hname, hparams⟩

/-! ### Control flow -/

theorem clause (v : Version) (hbody : Draws ts body (BodyDrawn ts)) (kind : ClauseKind) :
    Draws ts (Parser.clause v body kind) fun clause => ClausesDrawn ts [clause] := by
  unfold Parser.clause
  refine next_bind fun word => skipHeader.bind fun _ _ => ?_
  exact (block v hbody).bind fun stmts hstmts =>
    spanFrom_pure fun _ => NamesDrawn.append hstmts .nil

theorem compoundStatement (v : Version) (hbody : Draws ts body (BodyDrawn ts))
    (compound : CompoundKind) (isAsync : Bool) (start : Span) :
    Draws ts (Parser.compoundStatement v body compound isAsync start) (StmtDrawn ts) := by
  unfold Parser.compoundStatement
  refine (clause v hbody _).bind fun first hfirst => ?_
  have hclauses : Draws ts (Parser.furtherClauses v body compound first) (ClausesDrawn ts) := by
    refine loop_id (fun clauses hclauses => look_bind fun further => ?_) hfirst
    cases further with
    | none => exact pure hclauses
    | some further =>
      exact (clause v hbody further).bind fun next hnext =>
        pure (ClausesDrawn.append hclauses hnext)
  exact hclauses.bind fun clauses hclauses => spanFrom_pure fun _ => hclauses

theorem matchBlock (v : Version) (hbody : Draws ts body (BodyDrawn ts)) :
    Draws ts (Parser.matchBlock v body) (ClausesDrawn ts) := by
  have hcases : Draws ts (Parser.matchCases v body) (ClausesDrawn ts) := by
    refine loop_id (fun clauses hclauses => skipNewlines.bind fun _ _ => ?_) .nil
    refine look_bind fun token => ?_
    split
    · exact pure hclauses
    · exact advance.bind fun _ _ => pure hclauses
    · refine ite ((clause v hbody .case).bind fun next hnext => ?_) ?_
      · exact pure (ClausesDrawn.append hclauses hnext)
      · exact expected.bind fun _ _ => skipLine.bind fun _ _ => pure hclauses
  unfold Parser.matchBlock
  refine skipNewlines.bind fun _ _ => look_bind fun token => ?_
  exact ite (advance.bind fun _ _ => hcases) (report.bind fun _ _ => pure .nil)

theorem matchStatement (v : Version) (hbody : Draws ts body (BodyDrawn ts)) :
    Draws ts (Parser.matchStatement v body) (StmtDrawn ts) := by
  unfold Parser.matchStatement
  refine next_bind fun word => skipHeader.bind fun _ _ => ?_
  exact (matchBlock v hbody).bind fun clauses hclauses => spanFrom_pure fun _ => hclauses

/-! ### Decorated and asynchronous definitions -/

theorem asyncStatement (v : Version) (hbody : Draws ts body (BodyDrawn ts))
    (hdecorators : AllDrawn ts (exprIdentifiers decorators)) (start : Option Span) :
    Draws ts (Parser.asyncStatement v body decorators start) (StmtDrawn ts) := by
  unfold Parser.asyncStatement
  refine next_bind fun word => look_bind fun token => ?_
  split
  · exact functionStatement v hbody hdecorators _ true
  · exact compoundStatement v hbody .for true _
  · exact compoundStatement v hbody .with true _
  · exact expected.bind fun _ _ => abandonLine _

theorem decorator (v : Version) : DrawsExpr ts (Parser.decorator v) := by
  have hend : Draws ts Parser.endDecorator fun _ => True := by
    refine look_bind fun token => ?_
    split
    · exact advance
    · exact pure trivial
    · exact expected.bind fun _ _ => skipLine
  unfold Parser.decorator
  refine (expression v).bind fun value hvalue => hend.bind fun _ _ => ?_
  exact skipNewlines.bind fun _ _ => pure hvalue

theorem decoratorList (v : Version) :
    Draws ts (Parser.decoratorList v) fun r => AllDrawn ts (exprIdentifiers r) := by
  unfold Parser.decoratorList
  refine loop_id (S := fun r => AllDrawn ts (exprIdentifiers r)) (fun decorators hbefore => ?_) .nil
  refine eats_bind ((decorator v).bind fun next hnext => ?_) (pure hbefore)
  exact pure (hbefore.exprs_concat hnext)

theorem decoratedStatement (v : Version) (hbody : Draws ts body (BodyDrawn ts)) :
    Draws ts (Parser.decoratedStatement v body) (StmtDrawn ts) := by
  unfold Parser.decoratedStatement
  refine look_bind fun start => (decoratorList v).bind fun decorators hdecorators => ?_
  refine look_bind fun token => ?_
  split
  · exact functionStatement v hbody hdecorators _ false
  · exact classStatement v hbody hdecorators _
  · refine look_bind fun _ => ite (asyncStatement v hbody hdecorators _) ?_
    exact expected.bind fun _ _ => spanFrom_pure fun _ => .of_identifiers .nil rfl

/-! ### Statements -/

theorem statement (v : Version) (hbody : Draws ts body (BodyDrawn ts)) :
    Draws ts (Parser.statement v body) (BodyDrawn ts) := by
  have hone {p : Parser Stmt} (h : Draws ts p (StmtDrawn ts)) :
      Draws ts (List.singleton <$> p) (BodyDrawn ts) :=
    map (h.mono fun _ => StmtDrawn.body)
  unfold Parser.statement
  refine look_bind fun token => ?_
  split
  · exact report.bind fun _ _ => advance.bind fun _ _ => pure .nil
  · exact hone (decoratedStatement v hbody)
  · exact hone (functionStatement v hbody .nil _ _)
  · exact hone (classStatement v hbody .nil _)
  · exact hone (compoundStatement v hbody _ _ _)
  · exact hone (compoundStatement v hbody _ _ _)
  · exact hone (compoundStatement v hbody _ _ _)
  · exact hone (compoundStatement v hbody _ _ _)
  · exact hone (compoundStatement v hbody _ _ _)
  · refine look_bind fun _ => ite (hone (asyncStatement v hbody .nil _)) (look_bind fun _ => ?_)
    exact ite (hone (matchStatement v hbody)) (smallStatements v)

theorem strayBlock (hbody : Draws ts body (BodyDrawn ts)) (indent : Token) :
    Draws ts (Parser.strayBlock body indent) (BodyDrawn ts) := by
  unfold Parser.strayBlock
  exact report.bind fun _ _ => advance.bind fun _ _ => hbody

theorem bodyWith (v : Version) (hbody : Draws ts body (BodyDrawn ts)) :
    Draws ts (Parser.bodyWith v body) (BodyDrawn ts) := by
  unfold Parser.bodyWith Parser.moreStatements
  refine loop_id (fun stmts hstmts => skipNewlines.bind fun _ _ => look_bind fun token => ?_) .nil
  split
  · exact pure hstmts
  · exact advance.bind fun _ _ => pure hstmts
  · exact (strayBlock hbody token).bind fun inner hinner => pure (BodyDrawn.append hstmts hinner)
  · exact (statement v hbody).bind fun more hmore => pure (BodyDrawn.append hstmts hmore)

end Bodies

/-! ### Bodies in bodies -/

theorem indentedBody (v : Version) : Draws ts (Parser.indentedBody v) (BodyDrawn ts) :=
  indentedBody_closed (C := fun body => Draws ts body (BodyDrawn ts)) (p := Pure.pure [])
    (pure .nil) (fun _ => bodyWith v) fun _ => of_pointwise

theorem moduleItem (v : Version) : Draws ts (Parser.moduleItem v) (BodyDrawn ts) := by
  unfold Parser.moduleItem
  refine look_bind fun token => ?_
  split
  · exact advance.bind fun _ _ => pure .nil
  · exact strayBlock (indentedBody v) token
  · exact statement v (indentedBody v)

/-- The names in a module come from the tokens. -/
theorem moduleBody (v : Version) : Draws ts (Parser.moduleBody v) (BodyDrawn ts) := by
  unfold Parser.moduleBody
  refine loop_id (fun stmts hstmts => skipNewlines.bind fun _ _ => look_bind fun _ => ?_) .nil
  refine ite (pure hstmts) ((moduleItem v).bind fun more hmore => ?_)
  exact pure (BodyDrawn.append hstmts hmore)

end Draws

/-- The names in a syntax tree come from the tokens of its text, with or without errors in it. -/
theorem SyntaxTree.parse_names_drawn (v : Version) (source : String) :
    BodyDrawn (tokenize v source) (parse v source).body :=
  (Draws.moduleBody v (Parser.start v source) rfl).2

end PyAtlas
