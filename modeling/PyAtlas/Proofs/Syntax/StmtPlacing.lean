import PyAtlas.Proofs.Syntax.ExprPlacing
import PyAtlas.Proofs.Syntax.StmtProgress

/-!
# Where statements stand

Statements yield the trees of their results like expressions do. A definition begins with its
decorators or with the word `async` if it has them, and otherwise with its own word, which is read
before anything else of it.

## Key results
- `Yields.moduleBody`: a module yields its trees.
- `SyntaxTree.parse_spans`: the spans in a syntax tree are ranges of the text, and without errors
  those of each node stand under its own in the order of the text.
-/

namespace PyAtlas

/-- The token that has been looked at is none of the layout. -/
theorem Cursor.plain_of_peek {token : Token} {k : TokenKind} (hkind : token.kind = k)
    (hk : k.isLayout = false) (c : Cursor) (hc : True ∧ c.peek = token) :
    c.peek.kind.isLayout = false := by
  rw [hc.2, hkind, hk]

namespace Turns

open PyAtlas.Parser

variable {w : Survey} {K : Cursor → Prop} {start : Option Span} {B : List SpanTree}

/-! ### Passing over what is not kept -/

theorem headerStep (before : Nat × Nat) :
    Turns w K start B (Parser.headerStep before) fun _ => B := by
  obtain ⟨depth, lambdas⟩ := before
  unfold Parser.headerStep
  refine peek_bind fun token hsound => ?_
  split
  · exact (expected hsound).bind fun _ => done rfl
  · exact (expected hsound).bind fun _ => done rfl
  · refine advance.bind fun _ => .ite (fun _ => ?_) fun _ => done rfl
    exact .ite (fun _ => done rfl) fun _ => done rfl
  · exact advance.bind fun _ => done rfl
  · exact (report hsound.inText).bind fun _ => advance.bind fun _ => done rfl
  · exact advance.bind fun _ => done rfl

theorem skipHeader : Turns w K start B Parser.skipHeader fun _ => B :=
  loop_passes headerStep (0, 0)

theorem expectColon : Turns w K start B Parser.expectColon fun _ => B := by
  unfold Parser.expectColon
  refine peek_bind fun token hsound => eats_bind (done rfl) (expected_bind hsound ?_)
  exact .ite (fun _ => skipHeader) fun _ => done rfl

theorem skipOperands : Turns w K start B Parser.skipOperands fun _ => B := by
  unfold Parser.skipOperands
  refine loop_passes (fun depth => peek_bind fun token hsound => ?_) 0
  split
  · exact done rfl
  · exact done rfl
  · exact .ite (fun _ => done rfl) fun _ => advance.bind fun _ => done rfl
  · exact (report hsound.inText).bind fun _ => advance.bind fun _ => done rfl
  · exact advance.bind fun _ => done rfl

/-! ### Imports -/

/-- A dotted name that has been read. -/
def pathTree (path : String × Span) : SpanTree := .mention (.path path.1 path.2)

theorem segmentStep (path : String × Span) :
    Turns w K start [pathTree path] (Parser.segmentStep path)
      fun r => r.trees (fun path => [pathTree path]) fun path => [pathTree path] := by
  obtain ⟨name, span⟩ := path
  unfold Parser.segmentStep
  refine look_bind fun point => .ite (fun hpoint => ?_) fun _ => done rfl
  refine peekNth_bind fun token hsound => ?_
  split
  · rename_i segment hsegment
    refine advance_to (fun c => c.peek = token) (fun c hc => ?_) ?_
    · rw [Cursor.peek_advance, hc.2]
    · refine (advance_adds (fun c hc => ⟨hc, ?_⟩) (hsound.mention hsegment)).bind fun _ => ?_
      · rw [hc, isLayout_of_identifier? hsegment]
      · exact pure_of fun _ _ _ hsince => hsince.row.segment
  · exact done rfl

theorem dottedName : Yields w Parser.dottedName fun r => r.toList.map pathTree := by
  unfold Parser.dottedName
  refine expectIdentifier_bind (fun first => ?_) (done rfl)
  refine map (recount (loop_id (S := fun path => [pathTree path]) segmentStep
    (first.name, first.span)) fun _ _ hrow => hrow.path)

theorem aliasFor (tree : Alias → SpanTree) {name : String} {span : Span}
    (hspan : (tree ⟨name, none, span⟩).span = span)
    (hnamed : ∀ ident whole, tree ⟨name, some ident, whole⟩ = .node whole [ident.spanTree]) :
    Turns w K none [tree ⟨name, none, span⟩] (Parser.aliasFor name span)
      fun r => r.toList.map tree := by
  refine first_begins hspan ?_
  unfold Parser.aliasFor
  refine eats_bind (expectIdentifier_bind (fun ident => ?_) (pure (List.nil_sublist _))) (done rfl)
  refine merge_done [ident.spanTree] ?_ (List.sublist_append_right _ _) (by simp) (by simp)
  exact congrArg (fun t => [t]) (hnamed ident _)

theorem moduleAlias : Yields w Parser.moduleAlias fun r => r.toList.map Alias.moduleTree := by
  unfold Parser.moduleAlias
  refine dottedName.bind fun path => ?_
  cases path with
  | none => exact done rfl
  | some path => exact aliasFor Alias.moduleTree rfl fun _ _ => rfl

theorem memberAlias : Yields w Parser.memberAlias fun r => r.toList.map Alias.memberTree := by
  unfold Parser.memberAlias
  refine expectIdentifier_bind (fun ident => ?_) (done rfl)
  exact aliasFor Alias.memberTree rfl fun _ _ => rfl

theorem moduleAliases :
    Yields w Parser.moduleAliases fun names => names.map Alias.moduleTree := by
  unfold Parser.moduleAliases Parser.moreModuleAliases
  refine loop_id (S := fun names : List Alias => names.map Alias.moduleTree) (fun names => ?_) []
  unfold Parser.moduleAliasStep
  refine moduleAlias.after.bind fun found => ?_
  cases found with
  | none => exact pure (List.sublist_append_left _ _)
  | some name => exact eats_bind (done (by simp [LoopStep.trees])) (done (by simp [LoopStep.trees]))

theorem memberAliases (parenthesized : Bool) :
    Yields w (Parser.memberAliases parenthesized) fun names => names.map Alias.memberTree := by
  unfold Parser.memberAliases Parser.moreMemberAliases
  refine loop_id (S := fun names : List Alias => names.map Alias.memberTree) (fun names => ?_) []
  unfold Parser.memberAliasStep
  refine look_bind_any fun _ => .ite (fun _ => done rfl) fun _ => ?_
  refine memberAlias.after.bind fun found => ?_
  cases found with
  | none => exact pure (List.sublist_append_left _ _)
  | some name => exact eats_bind (done (by simp [LoopStep.trees])) (done (by simp [LoopStep.trees]))

theorem importStatement (hplain : ∀ c, K c → c.peek.kind.isLayout = false) :
    Turns w K none [] Parser.importStatement fun r => [r.spanTree] := by
  unfold Parser.importStatement
  refine next_opens (B := []) hplain fun word hsound => ?_
  exact moduleAliases.after.bind fun names => spanFrom_done (fun _ => rfl) (.refl _)

theorem importLevel : Turns w K start B Parser.importLevel fun _ => B := by
  unfold Parser.importLevel Parser.morePoints
  refine loop_passes (fun level => look_bind_any fun k => ?_) 0
  split
  · exact advance.bind fun _ => done rfl
  · exact advance.bind fun _ => done rfl
  · exact done rfl

theorem importNames : Yields w Parser.importNames ImportNames.spanTrees := by
  unfold Parser.importNames
  refine eat_adds rfl (fun token hsound hstar => hsound.starMention hstar)
    (fun token => done rfl) ?_
  have hnames (parenthesized : Bool) : Yields w (do
      let names ← Parser.memberAliases parenthesized
      if parenthesized then
        let token ← peek
        if !(← eats (.operator .rParen)) then Parser.expected (.closing .rParen) token
      Pure.pure (ImportNames.names names)) ImportNames.spanTrees := by
    refine (memberAliases parenthesized).bind fun names => .ite (fun _ => ?_) fun _ => done rfl
    refine peek_bind fun token hsound => eats_bind (done rfl) (expected_bind hsound (done rfl))
  exact eats_bind (hnames true) (hnames false).anywhere

theorem abandonOperands (s : Span) :
    Turns w K (some s) B (Parser.abandonOperands s) fun r => [r.spanTree] := by
  unfold Parser.abandonOperands
  refine skipOperands.bind fun _ => ?_
  exact spanFrom_bare fun _ => rfl

theorem importFromModule (s : Span) (module : Option String) (level : Nat) :
    Turns w K (some s) [] (Parser.importFromModule s module level) fun r => [r.spanTree] := by
  unfold Parser.importFromModule
  refine peek_bind fun token hsound => eats_bind ?_ (expected_bind hsound (abandonOperands s))
  exact importNames.after.bind fun names => spanFrom_done (fun _ => rfl) (.refl _)

theorem importFromStatement (hplain : ∀ c, K c → c.peek.kind.isLayout = false) :
    Turns w K none [] Parser.importFromStatement fun r => [r.spanTree] := by
  unfold Parser.importFromStatement
  refine next_opens (B := []) hplain fun word hsound => importLevel.bind fun level => ?_
  refine look_bind_any fun _ => .ite (fun _ => importFromModule _ _ _) fun _ => ?_
  refine dottedName.after.passes.bind fun path => ?_
  cases path with
  | none => exact abandonOperands _
  | some path => exact importFromModule _ _ _

/-! ### Small statements -/

theorem requireFeature {v : Version} {feature : Feature} {span : Span}
    (hin : span.InText w.source) :
    Turns w K start B (Parser.requireFeature v feature span) fun _ => B := by
  unfold Parser.requireFeature
  exact .ite (fun _ => report hin) fun _ => done rfl

theorem targetStep (v : Version) (before : List Expr × Expr) :
    Turns w K start (exprTrees (before.1 ++ [before.2])) (Parser.targetStep v before)
      fun r => r.trees (fun r => exprTrees (r.1 ++ [r.2])) fun r => exprTrees (r.1 ++ [r.2]) := by
  obtain ⟨targets, value⟩ := before
  unfold Parser.targetStep
  refine eats_bind (Yields.starExpressions.after.bind fun next => done ?_) (done rfl)
  exact exprTrees_append (targets ++ [value]) [next]

/-- The targets of an assignment and its value. -/
theorem assignedValues (v : Version) (first : Expr) :
    Turns w K start [first.spanTree] (Parser.assignedValues v first)
      fun r => exprTrees (r.1 ++ [r.2]) := by
  unfold Parser.assignedValues
  refine Yields.starExpressions.after.bind fun value => ?_
  exact loop_id (S := fun r => exprTrees (r.1 ++ [r.2])) (targetStep v) ([first], value)

theorem expressionStatement (v : Version) :
    Yields w (Parser.expressionStatement v) fun r => [r.spanTree] := by
  unfold Parser.expressionStatement
  refine peek_bind fun begin hbegin => ?_
  refine opens_bind (B := []) Yields.starExpressions Consumes.starExpressions hbegin fun first => ?_
  refine peek_bind fun token hsound => ?_
  split
  · refine advance.bind fun _ => (assignedValues v first).bind fun r => ?_
    exact spanFrom_done (fun _ => rfl) (.refl _)
  · refine .ite (fun _ => ?_) fun _ => .ite (fun _ => ?_) fun _ => done rfl
    · refine advance.bind fun _ => (requireFeature hsound.inText).bind fun _ => ?_
      refine Yields.expression.after.bind fun hint => ?_
      have hvalue : Yields w (some <$> Parser.starExpressions v) fun r => exprTrees r.toList :=
        map Yields.starExpressions
      have hnone : Yields w (Pure.pure none) fun r : Option Expr => exprTrees r.toList := done rfl
      refine eats_bind (hvalue.after.bind fun value => ?_) (hnone.after.bind fun value => ?_)
      · exact spanFrom_done (fun _ => rfl) (.refl _)
      · exact spanFrom_done (fun _ => rfl) (.refl _)
    · refine advance.bind fun _ => Yields.starExpressions.after.bind fun value => ?_
      exact spanFrom_done (fun _ => rfl) (.refl _)
  · exact done rfl

theorem smallStatement (v : Version) :
    Yields w (Parser.smallStatement v) fun r => [r.spanTree] := by
  unfold Parser.smallStatement
  refine peek_bind fun token hsound => ?_
  split
  · rename_i hkind
    exact importStatement (Cursor.plain_of_peek hkind rfl)
  · rename_i hkind
    exact importFromStatement (Cursor.plain_of_peek hkind rfl)
  · rename_i word _ _ hkind
    split
    · refine advance_opens (B := []) (fun c hc => ⟨hc.2, by rw [hc.2, hkind]; rfl⟩) ?_
      refine skipOperands.bind fun _ => ?_
      exact spanFrom_bare fun _ => rfl
    · exact (expressionStatement v).anywhere
  · exact (expressionStatement v).anywhere

theorem smallStatementEnd (stmts : List Stmt) :
    Turns w K start (bodyTrees stmts) (Parser.smallStatementEnd stmts)
      fun r => r.trees bodyTrees bodyTrees := by
  unfold Parser.smallStatementEnd
  refine peek_bind fun token hsound => ?_
  split
  · refine advance.bind fun _ => look_bind_any fun _ => .ite (fun _ => ?_) fun _ => done rfl
    exact skipNewlines.bind fun _ => done rfl
  · exact advance.bind fun _ => done rfl
  · exact done rfl
  · exact done rfl
  · exact expected_bind hsound (skipLine.bind fun _ => done rfl)

theorem smallStatements (v : Version) : Yields w (Parser.smallStatements v) bodyTrees := by
  unfold Parser.smallStatements
  refine loop_id (S := bodyTrees) (fun stmts => ?_) []
  unfold Parser.smallStatementStep
  refine (smallStatement v).after.bind fun stmt => ?_
  have hadded : bodyTrees stmts ++ [stmt.spanTree] = bodyTrees (stmts ++ [stmt]) :=
    (bodyTrees_append stmts [stmt]).symm
  rw [hadded]
  exact smallStatementEnd _

/-! ### Bodies -/

section Bodies

variable {body : Parser (List Stmt)}

theorem block (v : Version) (hbody : Yields w body bodyTrees) :
    Yields w (Parser.block v body) bodyTrees := by
  unfold Parser.block
  refine look_bind_any fun _ => .ite (fun _ => ?_) fun _ => (smallStatements v).anywhere
  refine skipNewlines.bind fun _ => peek_bind fun token hsound => .ite (fun _ => ?_) fun _ => ?_
  · exact advance.bind fun _ => hbody
  · exact report_bind hsound.inText (done rfl)

/-! ### Definitions -/

theorem expressionAfter (v : Version) (mark : TokenKind) :
    Yields w (Parser.expressionAfter v mark) fun r => exprTrees r.toList := by
  unfold Parser.expressionAfter
  exact eats_bind (map Yields.expression) (done rfl)

theorem parameterHint (v : Version) :
    Yields w (Parser.parameterHint v) fun r => exprTrees r.toList := by
  unfold Parser.parameterHint
  refine eat_bind (fun colon hsound _ => ?_) (done rfl)
  exact (requireFeature hsound.inText).bind fun _ => map Yields.expression

theorem parameter (v : Version) (kind : ParameterKind) :
    Yields w (Parser.parameter v kind) fun r => r.toList.map Parameter.spanTree := by
  unfold Parser.parameter
  refine expectIdentifier_bind (fun name => ?_) (done rfl)
  refine first_begins (x := name.spanTree) (s := name.span) rfl ?_
  refine (parameterHint v).after.bind fun hint => (expressionAfter v _).after.bind fun default => ?_
  refine merge_done (exprTrees (hint.toList ++ default.toList)) ?_ (.refl _) ?_ ?_
  · cases hint <;> cases default <;> simp [Parameter.spanTree, exprTrees, Span.mergeAll]
  · rw [exprTrees_append, List.append_assoc]
    exact List.subset_append_right _ _
  · intro t ht
    rw [exprTrees_append]
    rw [List.append_assoc] at ht
    rcases List.mem_append.1 ht with hname | hothers
    · rw [List.mem_singleton.1 hname]
      exact .inr rfl
    · exact .inl hothers

theorem sublistParameter (v : Version) :
    Turns w K start B (Parser.sublistParameter v) fun _ => B := by
  unfold Parser.sublistParameter
  refine advance.bind fun _ => skipToClosing.bind fun _ => eat.discard.bind fun _ => ?_
  exact eats_bind Yields.expression.after.passes.discard (done rfl)

/-- What a slash says of the parameters before it is not about where they stand. -/
theorem map_beforeSlash (params : List Parameter) :
    (params.map Parameter.beforeSlash).map Parameter.spanTree = params.map Parameter.spanTree := by
  rw [List.map_map]
  refine List.map_congr_left fun p _ => ?_
  rw [Function.comp_apply, Parameter.beforeSlash]
  split <;> rfl

theorem parameterStep (v : Version) (before : List Parameter × Bool) :
    Turns w K start (before.1.map Parameter.spanTree) (Parser.parameterStep v before)
      fun r => r.trees (fun r => r.1.map Parameter.spanTree) fun r => r.map Parameter.spanTree := by
  obtain ⟨params, keywordOnly⟩ := before
  have hadded (param : Option Parameter) : (params ++ param.toList).map Parameter.spanTree
      = params.map Parameter.spanTree ++ param.toList.map Parameter.spanTree := List.map_append
  unfold Parser.parameterStep
  refine peek_bind fun token hsound => ?_
  split
  · exact advance.bind fun _ => done rfl
  · exact advance.bind fun _ => done rfl
  · refine advance.bind fun _ => (requireFeature hsound.inText).bind fun _ => ?_
    exact done (map_beforeSlash params)
  · refine advance.bind fun _ => look_bind_any fun _ => .ite (fun _ => ?_) fun _ => done rfl
    exact (parameter v _).after.bind fun param => done (hadded param)
  · exact advance.bind fun _ => (parameter v _).after.bind fun param => done (hadded param)
  · exact (sublistParameter v).bind fun _ => done rfl
  · refine .ite (fun _ => ?_) fun _ => ?_
    · exact (parameter v _).after.bind fun param => done (hadded param)
    · refine expected_bind hsound (skipToClosing.bind fun _ => ?_)
      exact eat.discard.bind fun _ => done rfl

theorem parameters (v : Version) :
    Yields w (Parser.parameters v) fun params => params.map Parameter.spanTree := by
  unfold Parser.parameters Parser.moreParameters
  exact loop (S := fun r : List Parameter × Bool => r.1.map Parameter.spanTree)
    (T := fun params : List Parameter => params.map Parameter.spanTree) (parameterStep v)
    (fun _ => rfl) ([], false)

theorem parameterList (v : Version) :
    Yields w (Parser.parameterList v) fun params => params.map Parameter.spanTree := by
  unfold Parser.parameterList
  refine peek_bind fun token hsound => eats_bind (parameters v) ?_
  exact expected_bind hsound (done rfl)

theorem classArguments (v : Version) : Yields w (Parser.classArguments v) argumentTrees := by
  unfold Parser.classArguments
  exact eats_bind (callArguments v (PlacedExprs.parseExpr v)) (done rfl)

theorem abandonLine (s : Span) :
    Turns w K (some s) B (Parser.abandonLine s) fun r => [r.spanTree] := by
  unfold Parser.abandonLine
  exact skipLine.bind fun _ => spanFrom_bare fun _ => rfl

theorem classStatement (v : Version) (hbody : Yields w body bodyTrees) (decorators : List Expr)
    (hplain : ∀ c, K c → c.peek.kind.isLayout = false) (hstart : start = none → decorators = []) :
    Turns w K start (exprTrees decorators) (Parser.classStatement v body decorators start)
      fun r => [r.spanTree] := by
  unfold Parser.classStatement
  refine next_begins hplain (fun h => by rw [hstart h]; rfl) fun word hsound => ?_
  refine expectIdentifier_bind (fun name => ?_) (abandonLine _)
  refine (classArguments v).after.bind fun arguments => expectColon.bind fun _ => ?_
  refine (block v hbody).after.bind fun stmts => spanFrom_done (fun _ => by rw [Stmt.spanTree]) ?_
  simp

theorem functionStatement (v : Version) (hbody : Yields w body bodyTrees)
    (decorators : List Expr) (isAsync : Bool) (hplain : ∀ c, K c → c.peek.kind.isLayout = false)
    (hstart : start = none → decorators = []) :
    Turns w K start (exprTrees decorators)
      (Parser.functionStatement v body decorators start isAsync) fun r => [r.spanTree] := by
  unfold Parser.functionStatement
  refine next_begins hplain (fun h => by rw [hstart h]; rfl) fun word hsound => ?_
  refine expectIdentifier_bind (fun name => ?_) (abandonLine _)
  refine (parameterList v).after.bind fun params => ?_
  refine (expressionAfter v _).after.bind fun returns => ?_
  refine expectColon.bind fun _ => (block v hbody).after.bind fun stmts => ?_
  refine spanFrom_done (fun _ => by rw [Stmt.spanTree]) ?_
  simp

/-! ### Control flow -/

theorem clause (v : Version) (hbody : Yields w body bodyTrees) (kind : ClauseKind)
    (hplain : ∀ c, K c → c.peek.kind.isLayout = false) :
    Turns w K start B (Parser.clause v body kind) fun r => B ++ clauseNodes [r] := by
  unfold Parser.clause
  refine next_opens hplain fun word hsound => skipHeader.bind fun _ => ?_
  exact (block v hbody).after.bind fun stmts => spanFrom_done (fun _ => rfl) (.refl _)

theorem clauseStep (v : Version) (hbody : Yields w body bodyTrees) (compound : CompoundKind)
    (clauses : List Clause) :
    Turns w K start (clauseNodes clauses) (Parser.clauseStep v body compound clauses)
      fun r => r.trees clauseNodes clauseNodes := by
  unfold Parser.clauseStep
  refine look_bind fun further => ?_
  cases further with
  | some further =>
    refine (clause v hbody further fun c hc => ?_).bind fun next => done ?_
    · have hfurther := hc.2
      rw [← Cursor.kind_eq]
      unfold CompoundKind.furtherClause? at hfurther
      split at hfurther
      all_goals first
        | (rename_i hkind; rw [hkind]; rfl)
        | cases hfurther
    · exact clauseNodes_append clauses [next]
  | none => exact done rfl

theorem furtherClauses (v : Version) (hbody : Yields w body bodyTrees) (compound : CompoundKind)
    (first : Clause) :
    Turns w K start (clauseNodes [first]) (Parser.furtherClauses v body compound first)
      clauseNodes :=
  loop_id (S := clauseNodes) (clauseStep v hbody compound) [first]

/-- A control-flow statement that has begun before its first clause. -/
theorem begunCompound (v : Version) (hbody : Yields w body bodyTrees) (compound : CompoundKind)
    (isAsync : Bool) (s : Span) (hplain : ∀ c, K c → c.peek.kind.isLayout = false) :
    Turns w K (some s) [] (Parser.compoundStatement v body compound isAsync s)
      fun r => [r.spanTree] := by
  unfold Parser.compoundStatement
  refine (clause v hbody _ hplain).bind fun first => ?_
  exact (furtherClauses v hbody compound first).bind fun clauses =>
    spanFrom_done (fun _ => rfl) (.refl _)

end Bodies

end Turns

/-! ### Statements that begin with a token that has been looked at -/

namespace Consumes

open PyAtlas.Parser

variable {w : Survey} {K : Cursor → Prop} {body : Parser (List Stmt)}

theorem clause (v : Version) (hbody : Yields w body bodyTrees) (kind : ClauseKind)
    (hplain : ∀ c, K c → c.peek.kind.isLayout = false) :
    Consumes w K (Parser.clause v body kind) := by
  unfold Parser.clause
  refine next_bind hplain fun word => ?_
  refine (Turns.skipHeader (B := []) : Yields w _ _).onward.bind fun _ => ?_
  exact (Turns.block v hbody).onward.bind fun stmts => .look_bind fun _ => .pure

end Consumes

namespace Turns

open PyAtlas.Parser

variable {w : Survey} {K : Cursor → Prop} {start : Option Span} {B : List SpanTree}
  {body : Parser (List Stmt)}

/-- A control-flow statement that begins with its first clause. -/
theorem compoundStatement (v : Version) (hbody : Yields w body bodyTrees)
    (compound : CompoundKind) (isAsync : Bool) {token : Token} (hsound : token.Sound w.source)
    (hplain : token.kind.isLayout = false) :
    Turns w (fun c => True ∧ c.peek = token) none []
      (Parser.compoundStatement v body compound isAsync token.span) fun r => [r.spanTree] := by
  have hword : ∀ c : Cursor, c.peek = token → c.peek.kind.isLayout = false := by
    rintro c rfl
    exact hplain
  unfold Parser.compoundStatement
  refine (opens_bind (K := fun c => c.peek = token) (B := []) (clause (B := []) v hbody _ hword)
    (Consumes.clause v hbody _ hword) hsound fun first => ?_).of fun c hc => ⟨hc.2, hc.2⟩
  exact (furtherClauses v hbody compound first).bind fun clauses =>
    spanFrom_done (fun _ => rfl) (.refl _)

theorem caseStep (v : Version) (hbody : Yields w body bodyTrees) (clauses : List Clause) :
    Turns w K start (clauseNodes clauses) (Parser.caseStep v body clauses)
      fun r => r.trees clauseNodes clauseNodes := by
  unfold Parser.caseStep
  refine skipNewlines.bind fun _ => peek_bind fun token hsound => ?_
  split
  · exact done rfl
  · exact advance.bind fun _ => done rfl
  · refine .ite (fun hword => ?_) fun _ => expected_bind hsound (skipLine.bind fun _ => done rfl)
    refine (clause v hbody .case fun c hc => ?_).bind fun next =>
      done (clauseNodes_append clauses [next])
    rw [hc.2]
    exact Token.isLayout_of_isWord hword

theorem matchBlock (v : Version) (hbody : Yields w body bodyTrees) :
    Yields w (Parser.matchBlock v body) clauseNodes := by
  unfold Parser.matchBlock
  refine skipNewlines.bind fun _ => peek_bind fun token hsound => .ite (fun _ => ?_) fun _ => ?_
  · exact advance.bind fun _ => loop_id (S := clauseNodes) (caseStep v hbody) []
  · exact report_bind hsound.inText (done rfl)

theorem matchStatement (v : Version) (hbody : Yields w body bodyTrees)
    (hplain : ∀ c, K c → c.peek.kind.isLayout = false) :
    Turns w K none [] (Parser.matchStatement v body) fun r => [r.spanTree] := by
  unfold Parser.matchStatement
  refine next_opens (B := []) hplain fun word hsound => skipHeader.bind fun _ => ?_
  exact (matchBlock v hbody).after.bind fun clauses => spanFrom_done (fun _ => rfl) (.refl _)

/-! ### Decorated and asynchronous definitions -/

theorem asyncStatement (v : Version) (hbody : Yields w body bodyTrees) (decorators : List Expr)
    (hplain : ∀ c, K c → c.peek.kind.isLayout = false) (hstart : start = none → decorators = []) :
    Turns w K start (exprTrees decorators) (Parser.asyncStatement v body decorators start)
      fun r => [r.spanTree] := by
  unfold Parser.asyncStatement
  refine next_begins hplain (fun h => by rw [hstart h]; rfl) fun word _ => ?_
  refine peek_bind fun token hsound => ?_
  split
  · rename_i hkind
    exact functionStatement v hbody decorators true (Cursor.plain_of_peek hkind rfl) nofun
  -- Decorators before a control-flow statement are not kept.
  · rename_i hkind
    exact (begunCompound v hbody .for true _ (Cursor.plain_of_peek hkind rfl)).forget
  · rename_i hkind
    exact (begunCompound v hbody .with true _ (Cursor.plain_of_peek hkind rfl)).forget
  · exact expected_bind hsound (abandonLine _)

theorem endDecorator : Turns w K start B Parser.endDecorator fun _ => B := by
  unfold Parser.endDecorator
  refine peek_bind fun token hsound => ?_
  split
  · exact advance
  · exact done rfl
  · exact expected_bind hsound skipLine

theorem decorator (v : Version) : Yields w (Parser.decorator v) fun r => [r.spanTree] := by
  unfold Parser.decorator
  refine Yields.expression.bind fun value => endDecorator.bind fun _ => ?_
  exact skipNewlines.bind fun _ => done rfl

theorem decoratorStep (v : Version) (decorators : List Expr) :
    Turns w K start (exprTrees decorators) (Parser.decoratorStep v decorators)
      fun r => r.trees exprTrees exprTrees := by
  unfold Parser.decoratorStep
  refine eats_bind ((decorator v).after.bind fun next => done ?_) (done rfl)
  exact exprTrees_append decorators [next]

theorem decoratorList (v : Version) : Yields w (Parser.decoratorList v) exprTrees :=
  loop_id (S := exprTrees) (decoratorStep v) []

end Turns

/-- Decorators begin with the sign of the first of them. -/
theorem Consumes.decoratorList {w : Survey} (v : Version) :
    Consumes w (fun c => c.kind = .operator .at) (Parser.decoratorList v) := by
  have hstep (decorators : List Expr) : GoesOn w (Parser.decoratorStep v decorators) :=
    (Turns.decoratorStep v decorators : Turns w (fun _ => True) none _ _ _).onward
  refine loop ?_ (hstep []) fun decorators => ?_
  · unfold Parser.decoratorStep
    refine eats_bind rfl ?_ fun s _ hk => absurd hk.1 hk.2
    exact (Turns.decorator v).onward.bind fun _ => .pure
  · have hloop : Turns w (fun _ => True) none _ _ exprTrees :=
      .loop_id (Turns.decoratorStep v) decorators
    exact hloop.onward

namespace Turns

open PyAtlas.Parser

variable {w : Survey} {K : Cursor → Prop} {start : Option Span} {B : List SpanTree}
  {body : Parser (List Stmt)}

theorem decoratedStatement (v : Version) (hbody : Yields w body bodyTrees) :
    Turns w (fun c => c.kind = .operator .at) none [] (Parser.decoratedStatement v body)
      fun r => [r.spanTree] := by
  unfold Parser.decoratedStatement
  refine peek_bind fun begin hbegin => ?_
  refine opens_bind (B := []) (decoratorList v).anywhere (Consumes.decoratorList v) hbegin
    fun decorators => peek_bind fun token hsound => ?_
  split
  · rename_i hkind
    exact functionStatement v hbody decorators false (Cursor.plain_of_peek hkind rfl) nofun
  · rename_i hkind
    exact classStatement v hbody decorators (Cursor.plain_of_peek hkind rfl) nofun
  · refine look_bind fun async => .ite (fun hasync => ?_) fun _ => expected_bind hsound ?_
    · refine asyncStatement v hbody decorators (fun c hc => ?_) nofun
      exact Cursor.isLayout_of_atAsync (hc.2.trans hasync)
    · exact spanFrom_bare fun _ => rfl

/-! ### Statements -/

theorem statement (v : Version) (hbody : Yields w body bodyTrees) :
    Yields w (Parser.statement v body) bodyTrees := by
  unfold Parser.statement
  refine peek_bind fun token hsound => ?_
  have hcompound {k : TokenKind} (compound : CompoundKind) (hkind : token.kind = k)
      (hk : k.isLayout = false) : Turns w (fun c => True ∧ c.peek = token) none []
        (List.singleton <$> Parser.compoundStatement v body compound false token.span) bodyTrees :=
    map (T := bodyTrees) (compoundStatement v hbody compound false hsound (hkind ▸ hk))
  split
  · exact (report hsound.inText).bind fun _ => advance.bind fun _ => done rfl
  · rename_i hkind
    refine map (T := bodyTrees) ((decoratedStatement v hbody).of fun c hc => ?_)
    rw [Cursor.kind_eq, hc.2, hkind]
  · rename_i hkind
    refine map (T := bodyTrees) (functionStatement v hbody [] false ?_ fun _ => rfl)
    exact Cursor.plain_of_peek hkind rfl
  · rename_i hkind
    refine map (T := bodyTrees) (classStatement v hbody [] ?_ fun _ => rfl)
    exact Cursor.plain_of_peek hkind rfl
  · rename_i hkind
    exact hcompound .if hkind rfl
  · rename_i hkind
    exact hcompound .while hkind rfl
  · rename_i hkind
    exact hcompound .for hkind rfl
  · rename_i hkind
    exact hcompound .try hkind rfl
  · rename_i hkind
    exact hcompound .with hkind rfl
  · refine look_bind fun async => .ite (fun hasync => ?_) fun _ => look_bind fun isMatch => ?_
    · refine map (T := bodyTrees) (asyncStatement v hbody [] (fun c hc => ?_) fun _ => rfl)
      exact Cursor.isLayout_of_atAsync (hc.2.trans hasync)
    · refine .ite (fun hmatch => ?_) fun _ => (smallStatements v).anywhere
      refine map (T := bodyTrees) (matchStatement v hbody fun c hc => ?_)
      have hword := hc.2.trans hmatch
      simp only [Cursor.atMatch, Bool.and_eq_true] at hword
      exact Token.isLayout_of_isWord hword.1.1.2

theorem strayBlock (hbody : Yields w body bodyTrees) {indent : Token}
    (hsound : indent.Sound w.source) : Yields w (Parser.strayBlock body indent) bodyTrees := by
  unfold Parser.strayBlock
  exact (report hsound.inText).bind fun _ => advance.bind fun _ => hbody

theorem statementStep (v : Version) (hbody : Yields w body bodyTrees) (stmts : List Stmt) :
    Turns w K start (bodyTrees stmts) (Parser.statementStep v body stmts)
      fun r => r.trees bodyTrees bodyTrees := by
  unfold Parser.statementStep
  refine skipNewlines.bind fun _ => peek_bind fun token hsound => ?_
  split
  · exact done rfl
  · exact advance.bind fun _ => done rfl
  · exact (strayBlock hbody hsound).after.bind fun inner => done (bodyTrees_append stmts inner)
  · exact (statement v hbody).after.bind fun more => done (bodyTrees_append stmts more)

theorem bodyWith (v : Version) (hbody : Yields w body bodyTrees) :
    Yields w (Parser.bodyWith v body) bodyTrees :=
  loop_id (S := bodyTrees) (statementStep v hbody) []

end Turns

/-! ### Bodies in bodies -/

/-- Bodies where fewer than `m` tokens are left. Elsewhere `p` is run. -/
def Parser.bodyBelow (v : Version) (p : Parser (List Stmt)) (m : Nat) : Parser (List Stmt) :=
  fun s => if s.remaining < m then indentedBody v s else p s

/-- What holds of some parser of bodies, goes over from the parser of the bodies in a body to that
    of the whole, and is told by what is done in every state, holds of the parser of bodies. -/
theorem Parser.indentedBody_closed {v : Version} {C : Parser (List Stmt) → Prop}
    {p : Parser (List Stmt)} (hp : C p) (hwith : ∀ body, C body → C (bodyWith v body))
    (hpointwise : ∀ body, (∀ s, ∃ body', C body' ∧ body s = body' s) → C body) :
    C (indentedBody v) := by
  have hbelow : ∀ m, C (bodyBelow v p m) := by
    intro m
    induction m with
    | zero => exact hpointwise _ fun s => ⟨p, hp, if_neg (Nat.not_lt_zero _)⟩
    | succ m ih =>
      refine hpointwise _ fun s => ?_
      rcases Nat.lt_trichotomy s.remaining m with hlt | heq | hgt
      · refine ⟨_, ih, ?_⟩
        rw [bodyBelow, bodyBelow, if_pos hlt, if_pos (Nat.lt_succ_of_lt hlt)]
      -- What is in the body has fewer tokens than the body.
      · refine ⟨_, hwith _ ih, ?_⟩
        rw [bodyBelow, if_pos (by omega)]
        exact (bodyWith_eq_indentedBody fun t ht => if_pos (heq ▸ ht)).symm
      · exact ⟨p, hp, if_neg (by omega)⟩
  exact hpointwise _ fun s => ⟨_, hbelow (s.remaining + 1), (if_pos (Nat.lt_succ_self _)).symm⟩

namespace Yields

open PyAtlas.Parser

variable {w : Survey}

theorem indentedBody (v : Version) : Yields w (Parser.indentedBody v) bodyTrees :=
  indentedBody_closed (C := fun body => Yields w body bodyTrees) (p := pure []) (.done rfl)
    (fun _ => Turns.bodyWith v) fun _ => Turns.of_pointwise

theorem moduleItem (v : Version) : Yields w (Parser.moduleItem v) bodyTrees := by
  unfold Parser.moduleItem
  refine Turns.peek_bind fun token hsound => ?_
  split
  · exact Turns.advance.bind fun _ => .done rfl
  · exact (Turns.strayBlock (indentedBody v) hsound).anywhere
  · exact (Turns.statement v (indentedBody v)).anywhere

/-- A module yields its trees. -/
theorem moduleBody (v : Version) : Yields w (Parser.moduleBody v) bodyTrees := by
  unfold Parser.moduleBody
  refine Turns.loop_id (S := bodyTrees) (fun stmts => ?_) []
  unfold Parser.moduleStep
  refine Turns.skipNewlines.bind fun _ => Turns.look_bind_any fun _ => ?_
  refine .ite (fun _ => .done rfl) fun _ => ?_
  exact (moduleItem v).after.bind fun more => .done (bodyTrees_append stmts more)

end Yields

/-! ### Syntax trees -/

/-- A parser begins on the tokens of its text. -/
theorem Parser.start_inText (v : Version) (source : String) :
    (Parser.start v source).InText source where
  cursor := ⟨rfl, arranged_tokenize v source, fun _ ht => sound_of_mem_tokenize ht⟩
  errors := nofun

namespace SyntaxTree

/-- The trees of a module are a row of its text. -/
theorem row_parse (w : Survey) (v : Version) (hquiet : w.quiet → (parse v w.source).errors = []) :
    (∀ e ∈ (parse v w.source).errors, e.span.InText w.source)
      ∧ Row w 0 w.source.utf8ByteSize (bodyTrees (parse v w.source).body) := by
  -- The module is one run from the first token on, before which nothing was read or reported.
  have hstart := Parser.start_inText v w.source
  obtain ⟨n, hread⟩ := (Yields.moduleBody v).onward (w := w) _ hstart.cursor
  obtain ⟨herrors, hsince⟩ := (Yields.moduleBody v 0).places (w := w) (Parser.start v w.source)
    hstart ⟨trivial, ⟨Nat.zero_le _, fun _ _ _ => Nat.zero_le _⟩, .nil, nofun⟩ hquiet
  have hend := hread.cursor_inText hstart.cursor
  refine ⟨herrors, hsince.row.mono (Nat.le_refl 0) ?_⟩
  rw [← hend.size]
  exact hend.isPast_reached.1

/-- The spans in a syntax tree and in its errors are ranges of the text that cut no character.
    Without errors what is in a node stands under its span, one after the other in the order of the
    text, and so do the statements of the module in the text. -/
theorem parse_spans (v : Version) (source : String) :
    let tree := parse v source
    let trees := bodyTrees tree.body
    (∀ s ∈ SpanTree.spansIn trees ++ tree.errors.map SyntaxError.span,
      s.start ≤ s.stop ∧ s.stop ≤ source.utf8ByteSize
        ∧ Text.IsBoundary source.toList s.start ∧ Text.IsBoundary source.toList s.stop)
    ∧ (tree.errors = [] →
      InOrder 0 source.utf8ByteSize (trees.map SpanTree.span) ∧ SpanTree.NestedIn trees) := by
  refine ⟨fun s hs => ?_, fun hnone => ?_⟩
  -- Whether there are errors does not matter here.
  · obtain ⟨herrors, hrow⟩ := row_parse ⟨source, False⟩ v False.elim
    have hin : s.InText source := by
      rcases List.mem_append.1 hs with hs | hs
      · rw [SpanTree.spansIn_eq_flatMap] at hs
        obtain ⟨t, ht, hs⟩ := List.mem_flatMap.1 hs
        exact hrow.inText t ht s hs
      · obtain ⟨e, he, rfl⟩ := List.mem_map.1 hs
        exact herrors e he
    exact ⟨hin.ordered, hin.stop_le, hin.start, hin.stop⟩
  · obtain ⟨-, hrow⟩ := row_parse ⟨source, True⟩ v fun _ => hnone
    exact ⟨hrow.trees trivial, SpanTree.nestedIn_iff.2 (hrow.nested trivial)⟩

/-- A decorated class with a base and a list under a name: its tree has no errors. -/
theorem parse_spans_of_decorated_class :
    let source := "@d.e\nclass A(b):\n  x = [1, (y)]\n"
    let tree := parse .v37 source
    let trees := bodyTrees tree.body
    let list : Span := ⟨23, 31⟩
    tree.errors = [] ∧ list ∈ SpanTree.spansIn trees
      ∧ Text.IsBoundary source.toList list.start ∧ Text.IsBoundary source.toList list.stop
      ∧ InOrder 0 source.utf8ByteSize (trees.map SpanTree.span) ∧ SpanTree.NestedIn trees := by
  intro source tree trees list
  have hnone : tree.errors = [] := by decide +kernel
  have hlist : list ∈ SpanTree.spansIn trees := by decide +kernel
  obtain ⟨hspans, hnested⟩ := parse_spans .v37 source
  obtain ⟨-, -, hstart, hstop⟩ := hspans list (List.mem_append_left _ hlist)
  exact ⟨hnone, hlist, hstart, hstop, hnested hnone⟩

end SyntaxTree

end PyAtlas
