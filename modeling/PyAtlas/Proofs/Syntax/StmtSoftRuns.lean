import PyAtlas.Proofs.Syntax.SmallSoftRuns
import PyAtlas.Proofs.Syntax.StmtProgress

/-!
# Sources with two words reserved and without

A source that is read under 3.7 without a report is read in the same way under the versions that do
not reserve `async` and `await` but know them in some places. Those places are where the words may
stand under 3.7. Everywhere else they would be reported.

## Key results
- `Together.statement`, `Together.moduleBody`: statements are the same, unless one is lacked.
- `SyntaxTree.parse_before_reservation`: a source without errors has the same body and no errors.
-/

namespace PyAtlas

open PyAtlas.Parser

variable {source : String} {m : Nat} {v : Version} {s u : ParserState}

/-! ### Parameters -/

theorem Version.supportedBy_parameterAnnotations (hv : v.hasSoftAsync = true) :
    Feature.parameterAnnotations.supportedBy v = true := by
  rcases Version.hasSoftAsync_iff.1 hv with rfl | rfl <;> rfl

theorem Version.atLeast_310_of_hasSoftAsync (hv : v.hasSoftAsync = true) :
    v.atLeast 3 10 = false := by
  rcases Version.hasSoftAsync_iff.1 hv with rfl | rfl <;> rfl

namespace InStep

theorem expressionAfter (hv : v.hasSoftAsync = true) {mark : TokenKind}
    (hmark : mark.isSteady = true) :
    InStep source m AtAsync (Parser.expressionAfter .v37 mark) (Parser.expressionAfter v mark) := by
  unfold Parser.expressionAfter
  exact .eats_bind hmark ((expression hv).map some) .done

theorem parameterHint (hv : v.hasSoftAsync = true) :
    InStep source m AtAsync (Parser.parameterHint .v37) (Parser.parameterHint v) := by
  unfold Parser.parameterHint
  refine .eat_bind rfl (fun colon => ?_) .done
  dsimp only
  rw [requireFeature_of_supportedBy rfl,
    requireFeature_of_supportedBy (Version.supportedBy_parameterAnnotations hv)]
  exact (expression hv).map some

end InStep

/-- What an announced expression would need does not come next. -/
theorem Leads.expressionAfter {D : ParserState → Prop} {mark : TokenKind}
    (hD : ∀ s, D s → s.cursor.kind ≠ mark) :
    Leads D (fun _ => D) (Parser.expressionAfter v mark) := by
  unfold Parser.expressionAfter
  exact .eats_bind hD (.pure fun _ hs => hs)

namespace InStep

theorem parameter (hv : v.hasSoftAsync = true) (kind : ParameterKind) :
    InStep source m AtAsync (Parser.parameter .v37 kind) (Parser.parameter v kind) := by
  unfold Parser.parameter
  refine .expectIdentifier_bind (fun name => ?_) fun s => .refl s
  refine (parameterHint hv).bind (fun hint => ?_) fun hint => ?_
  · exact (expressionAfter hv rfl).bind (fun default => .done) fun default => .pure fun _ hs => hs
  · exact (Leads.expressionAfter fun s hs => hs.ne rfl).bind (fun _ s => .refl s)
      fun _ => .pure fun _ hs => hs

theorem sublistParameter (hv : v.hasSoftAsync = true) :
    InStep source m AtAsync (Parser.sublistParameter .v37) (Parser.sublistParameter v) := by
  unfold Parser.sublistParameter
  refine .advance_bind (.skipToClosing_bind ((InStep.eat rfl).discard.bind_all fun _ => ?_))
  exact .eats_bind rfl (expression hv).discard .done

end InStep

/-- No parameter begins with a reserved word. -/
theorem Leads.parameterStep (before : List Parameter × Bool) :
    Leads Halted (fun _ => Nowhere) (Parser.parameterStep .v37 before) := by
  unfold Parser.parameterStep
  refine .peek_bind (P := (·.isHalt = true)) (fun _ hs => hs) fun token hhalt => ?_
  split
  all_goals first
    | (rename_i hk; rw [hk] at hhalt; cases hhalt)
    | skip
  -- What is left is the case of a name.
  have hnone : identifier? token = none := by
    cases hident : identifier? token with
    | none => rfl
    | some ident =>
      rcases kind_of_identifier? (Option.isSome_of_eq_some hident) with hk | hk | hk
      all_goals
        rw [hk] at hhalt
        cases hhalt
  rw [hnone]
  exact .expected_bind (onward_passOver .rParen _)

namespace InStep

theorem parameters (hv : v.hasSoftAsync = true) :
    InStep source m Halted (Parser.parameters .v37) (Parser.parameters v) := by
  unfold Parser.parameters Parser.moreParameters
  refine InStep.loop (fun (params, keywordOnly) => ?_) (fun before =>
    (Leads.parameterStep before).anyway) _
  have hagain : ∀ (kind : ParameterKind) (keywordOnly : Bool), InStep source m Halted
      (Parser.parameter .v37 kind >>= fun param =>
        pure (.again (params ++ param.toList, keywordOnly)) :
          Parser (LoopStep (List Parameter × Bool) (List Parameter)))
      (Parser.parameter v kind >>= fun param =>
        pure (.again (params ++ param.toList, keywordOnly))) := fun kind _ =>
    (parameter hv kind).halts.bind (fun _ => .done) fun _ => .pure fun _ hs => hs
  unfold Parser.parameterStep
  refine .peek_cases (fun token _ => ?_) fun token hword => ?_
  · split
    · exact .advance_bind .done
    · exact .advance_bind .done
    · exact .advance_bind (.report_bind fun s => .refl s)
    -- Behind a star a reserved word is no name, and no parameter either.
    · refine .advance_bind (.peek_bind (fun next _ => ?_) fun next hword => ?_)
      · refine Mirrors.pre (I := Softer source m) ?_ fun _ _ hs => hs.1
        exact .ite (fun _ => hagain _ _) fun _ => .done
      · rw [identifier?_of_word hword]
        refine .of_leads (D := Halted) (fun s => .refl s) (.pure fun _ hs => hs) fun s u hs => ?_
        rw [Halted, Cursor.kind_eq, hs.2]
        rcases hword with hk | hk <;> rw [hk] <;> rfl
    · exact .advance_bind (hagain _ _)
    · exact (sublistParameter hv).halts.bind (fun _ => .done) fun _ => .pure fun _ hs => hs
    · exact .ite (fun _ => hagain _ _) fun _ => .expected_bind (onward_passOver .rParen _)
  · have hnone := identifier?_of_word hword
    rcases hword with hk | hk
    all_goals
      simp only [hk, hnone]
      exact .expected_bind (onward_passOver .rParen _)

theorem parameterList (hv : v.hasSoftAsync = true) :
    InStep source m Halted (Parser.parameterList .v37) (Parser.parameterList v) := by
  unfold Parser.parameterList
  refine .peek_any fun token => .eats_bind rfl (parameters hv) ?_
  exact .expected_bind fun s => .refl s

theorem classArguments (hv : v.hasSoftAsync = true) :
    InStep source m Nowhere (Parser.classArguments .v37) (Parser.classArguments v) := by
  unfold Parser.classArguments
  exact .eats_bind rfl (callArguments hv (Ends.parseExpr hv m)) .done

end InStep

/-! ### Decorators -/

/-- The end of a decorator is missed where a word stops it. -/
theorem Leads.endDecorator : Leads AtAsync (fun _ => Nowhere) Parser.endDecorator := by
  unfold Parser.endDecorator
  refine .peek_bind (P := (· = .keyword .async)) (fun _ hs => hs) fun token hk => ?_
  simp only [hk]
  exact .expected_bind Onward.skipLine

namespace InStep

theorem endDecorator : InStep source m Nowhere Parser.endDecorator Parser.endDecorator := by
  unfold Parser.endDecorator
  refine .peek_cases (fun token _ => ?_) fun token hword => ?_
  · split
    · exact .advance_bind .done
    · exact .done
    · exact .expected_bind Onward.skipLine
  · rcases hword with hk | hk
    all_goals
      simp only [hk]
      exact .expected_bind Onward.skipLine

theorem decoratorList (hv : v.hasSoftAsync = true) :
    InStep source m Nowhere (Parser.decoratorList .v37) (Parser.decoratorList v) := by
  unfold Parser.decoratorList
  refine InStep.loop_all (fun decorators => .eats_bind rfl ?_ .done) []
  have hdecorator : InStep source m Nowhere (Parser.decorator .v37) (Parser.decorator v) := by
    unfold Parser.decorator
    refine (expression hv).bind (fun value => ?_) fun value => ?_
    · exact endDecorator.bind_all fun _ => .skipNewlines_bind .done
    · exact Leads.endDecorator.bind_nowhere fun _ => Onward.skipNewlines
  exact hdecorator.bind_all fun next => .done

end InStep

/-! ### Statements with bodies -/

section Bodies

variable {body body' : Parser (List Stmt)}

namespace Together

/-- What has been read is put under one node. -/
theorem spanned {α β : Type} {leaves : α → List Stmt} {leaves' : β → List Stmt} {q p : Parser α}
    (h : Together source m v leaves q p) (start : Span) {φ : α → Span → β}
    (hφ : ∀ a span, leaves a ⊆ leaves' (φ a span)) :
    Together source m v leaves' (q >>= fun a => spanFrom start >>= fun span => pure (φ a span))
      (p >>= fun a => spanFrom start >>= fun span => pure (φ a span)) := by
  refine h.bind_agree (fun a => .spanFrom_bind start fun _ => .done) fun a => ?_
  exact .spanFrom_bind fun span => .pure fun _ hbeyond => hbeyond.mono (hφ a span)

theorem singleton {q p : Parser Stmt} (h : Together source m v Stmt.leaves q p) :
    Together source m v bodyLeaves (List.singleton <$> q) (List.singleton <$> p) := by
  refine .map (h.weaken (fun _ _ hs => hs) (fun stmt _ hbeyond => ?_) fun _ _ _ _ hs => .inr hs)
  exact hbeyond.mono (by simp [List.singleton, bodyLeaves])

theorem block (hv : v.hasSoftAsync = true) (hbody : Together source m v bodyLeaves body body') :
    Together source (m + 1) v bodyLeaves (Parser.block .v37 body) (Parser.block v body') := by
  unfold Parser.block
  have hinner : Mirrors (fun stmts _ => Beyond v (bodyLeaves stmts)) (Softer source m)
      (Agree source (m + 1)) body body' :=
    hbody.post fun _ _ _ _ hs => ⟨hs.1, hs.2.mono (Nat.le_succ m)⟩
  have hstatements : Together source (m + 1) v bodyLeaves _ _ := smallStatements hv
  refine .kind_cases (fun kind _ => .ite (fun _ => ?_) fun _ => ?_) fun kind hword => ?_
  · refine .skipNewlines_bind (.peek_bind (fun token _ => ?_) fun token hword => ?_)
    · refine .ite (fun hindent => ?_) fun _ => .report_bind fun s => .refl s
      -- The indent is read, so fewer tokens are left for the body.
      refine .move_bind Onward.advance (fun s u hs => hs.1.advance_below ?_) hinner
      rw [Cursor.kind_eq, hs.2, eq_of_beq hindent]
      exact TokenKind.noConfusion
    · have hindent : (token.kind == .indent) = false := by
        rcases hword with hk | hk <;> rw [hk] <;> rfl
      rw [hindent]
      exact .report_bind fun s => .refl s
  · exact hstatements
  · rcases hword with rfl | rfl
    · exact hstatements
    · exact hstatements

theorem classStatement (hv : v.hasSoftAsync = true)
    (hbody : Together source m v bodyLeaves body body') (decorators : List Expr)
    (start : Option Span) :
    Together source (m + 1) v Stmt.leaves (Parser.classStatement .v37 body decorators start)
      (Parser.classStatement v body' decorators start) := by
  unfold Parser.classStatement
  refine .next_bind fun word => .expectIdentifier_bind (fun name => ?_) fun s => ?_
  · refine (InStep.classArguments hv).bind_all fun arguments => ?_
    refine InStep.expectColon.bind_all fun _ => ?_
    exact (block hv hbody).spanned _ fun stmts span => by simp [Stmt.leaves]
  · exact Heeds.onward_abandonLine _ s

theorem functionStatement (hv : v.hasSoftAsync = true)
    (hbody : Together source m v bodyLeaves body body') (decorators : List Expr)
    (start : Option Span) (isAsync : Bool) :
    Together source (m + 1) v Stmt.leaves
      (Parser.functionStatement .v37 body decorators start isAsync)
      (Parser.functionStatement v body' decorators start isAsync) := by
  unfold Parser.functionStatement
  refine .next_bind fun word => .expectIdentifier_bind (fun name => ?_) fun s => ?_
  · have hblock : ∀ params returns, Together source (m + 1) v Stmt.leaves _ _ :=
      fun params returns => (block hv hbody).spanned (start.getD word.span)
        (φ := fun stmts => .functionDef ⟨name, params, returns, decorators, isAsync⟩ stmts)
        fun stmts span => by simp [Stmt.leaves]
    -- Where the parameters or the annotation stop, the colon of the header is missed.
    have hcolon := fun params returns => Leads.expectColon.bind_nowhere
      (Y := fun stmt _ => Beyond v stmt.leaves) fun _ => (hblock params returns).onward
    refine (InStep.parameterList hv).bind (fun params => ?_) fun params => ?_
    · refine (InStep.expressionAfter hv rfl).bind (fun returns => ?_) fun returns => ?_
      · exact InStep.expectColon.bind_all fun _ => hblock params returns
      · exact (hcolon params returns).weaken (fun s hs => hs.halted) fun _ _ hs => hs
    · refine (Leads.expressionAfter fun s hs => hs.ne rfl).bind (fun returns s => ?_)
        (hcolon params)
      exact (Heeds.expectColon.onward s).trans ((hblock params returns).onward _)
  · exact Heeds.onward_abandonLine _ s

theorem clause (hv : v.hasSoftAsync = true) (hbody : Together source m v bodyLeaves body body')
    (kind : ClauseKind) :
    Together source (m + 1) v (fun clause => clauseLeaves [clause]) (Parser.clause .v37 body kind)
      (Parser.clause v body' kind) := by
  unfold Parser.clause
  refine .next_bind fun word => InStep.skipHeader.bind_all fun _ => ?_
  exact (block hv hbody).spanned _ fun stmts span => by simp [clauseLeaves]

end Together

/-- A reserved word is no word of a clause. -/
theorem Parser.furtherClause?_soften (compound : CompoundKind) (k : TokenKind) :
    CompoundKind.furtherClause? compound k.soften = CompoundKind.furtherClause? compound k := by
  rcases k.soften_cases with hsame | hword | hword
  · rw [hsame]
  all_goals
    rw [hword]
    cases compound <;> rfl

theorem Gives.clauseStep (compound : CompoundKind) (clauses : List Clause) :
    Gives (LoopStep.Extends clauses) (Parser.clauseStep v body compound clauses) := by
  unfold Parser.clauseStep
  refine .bind fun further => ?_
  cases further with
  | none => exact .pure ⟨[], .inr (by rw [List.append_nil])⟩
  | some further => exact .bind fun next => .pure ⟨[next], .inl rfl⟩

namespace Together

theorem clauseStep (hv : v.hasSoftAsync = true)
    (hbody : Together source m v bodyLeaves body body') (compound : CompoundKind)
    (clauses : List Clause) :
    Together source (m + 1) v (LoopStep.leaves clauseLeaves)
      (Parser.clauseStep .v37 body compound clauses)
      (Parser.clauseStep v body' compound clauses) := by
  unfold Parser.clauseStep
  refine .look_any (fun s u hs => ?_) fun further => ?_
  · rw [hs.cursor_eq, Cursor.kind_soften, furtherClause?_soften]
  · cases further with
    | none => exact .done
    | some further =>
      refine (clause hv hbody further).bind_agree (fun next => .done) fun next => ?_
      refine .pure fun _ hbeyond => hbeyond.mono ?_
      rw [LoopStep.leaves, clauseLeaves_append]
      exact List.subset_append_right _ _

theorem compoundStatement (hv : v.hasSoftAsync = true)
    (hbody : Together source m v bodyLeaves body body') (compound : CompoundKind) (isAsync : Bool)
    (start : Span) :
    Together source (m + 1) v Stmt.leaves
      (Parser.compoundStatement .v37 body compound isAsync start)
      (Parser.compoundStatement v body' compound isAsync start) := by
  unfold Parser.compoundStatement Parser.furtherClauses Parser.moreClauses
  have hstep := clauseStep hv hbody compound
  have hcompound : ∀ (clauses : List Clause) (span : Span),
      clauseLeaves clauses ⊆ (Stmt.compound compound isAsync clauses span).leaves :=
    fun _ _ => by simp [Stmt.leaves]
  refine (clause hv hbody _).bind_agree (fun first => ?_) fun first => ?_
  · exact (collect clauseLeaves_append hstep (Gives.clauseStep compound) [first]).spanned start
      hcompound
  -- What the version lacks in the first clause it lacks in the statement, whatever comes next.
  · refine (Leads.collect clauseLeaves_append (fun clauses => (hstep clauses).onward)
      (Gives.clauseStep compound) [first]).bind (fun _ s => .refl s) fun clauses => ?_
    exact .spanFrom_bind fun span => .pure fun _ hbeyond => hbeyond.mono (hcompound clauses span)

theorem asyncStatement (hv : v.hasSoftAsync = true)
    (hbody : Together source m v bodyLeaves body body') (decorators : List Expr)
    (start : Option Span) :
    Together source (m + 1) v Stmt.leaves (Parser.asyncStatement .v37 body decorators start)
      (Parser.asyncStatement v body' decorators start) := by
  unfold Parser.asyncStatement
  refine .next_bind fun word => .peek_cases (fun token _ => ?_) fun token hword => ?_
  · split
    · exact functionStatement hv hbody _ _ _
    · exact compoundStatement hv hbody _ _ _
    · exact compoundStatement hv hbody _ _ _
    · exact .expected_bind (Heeds.onward_abandonLine _)
  · rcases hword with hk | hk
    all_goals
      simp only [hk]
      exact .expected_bind (Heeds.onward_abandonLine _)

/-- Where a definition may stand, `async` begins one for both grammars. -/
theorem asyncOr (hv : v.hasSoftAsync = true) {α : Type} {Y : α → ParserState → Prop}
    {K : α → α → Rel} {q p q' p' : Parser α} (hasync : Mirrors Y (Softer source m) K q p)
    (hother : Mirrors Y (Softer source m) K q' p') :
    Mirrors Y (Softer source m) K
      (do if ← look (Cursor.atAsync .v37 · 0) then q else q')
      (do if ← look (Cursor.atAsync v · 0) then p else p') := by
  refine .look_any (fun s u hs => ?_) fun found => .ite (fun _ => hasync) fun _ => hother
  rw [hs.cursor_eq, Cursor.atAsync_soften hv hs.reserving]

theorem decoratedStatement (hv : v.hasSoftAsync = true)
    (hbody : Together source m v bodyLeaves body body') :
    Together source (m + 1) v Stmt.leaves (Parser.decoratedStatement .v37 body)
      (Parser.decoratedStatement v body') := by
  unfold Parser.decoratedStatement
  refine .peek_any fun start => (InStep.decoratorList hv).bind_all fun decorators => ?_
  have hasync : ∀ token token', Together source (m + 1) v Stmt.leaves
      (do
        if ← look (Cursor.atAsync .v37 · 0) then
          Parser.asyncStatement .v37 body decorators (some start.span)
        else
          expected .definition token
          pure (.error (← spanFrom start.span)))
      (do
        if ← look (Cursor.atAsync v · 0) then
          Parser.asyncStatement v body' decorators (some start.span)
        else
          expected .definition token'
          pure (.error (← spanFrom start.span))) := fun _ _ =>
    asyncOr hv (asyncStatement hv hbody decorators _) (.expected_bind fun s => .refl s)
  refine .peek_cases (fun token _ => ?_) fun token hword => ?_
  · split
    · exact functionStatement hv hbody _ _ _
    · exact classStatement hv hbody _ _
    · exact hasync token token
  · have hother := hasync token token.soften
    rcases hword with hk | hk
    all_goals
      simp only [Token.soften_kind, hk, TokenKind.soften]
      exact hother

/-- One statement with a body, or the small statements of one line. -/
theorem statement (hv : v.hasSoftAsync = true)
    (hbody : Together source m v bodyLeaves body body') (hheeds : Heeds body) :
    Together source (m + 1) v bodyLeaves (Parser.statement .v37 body)
      (Parser.statement v body') := by
  unfold Parser.statement
  have hcompound := fun compound start =>
    (compoundStatement hv hbody compound false start).singleton
  -- Neither version knows match statements.
  have hlines : Together source (m + 1) v bodyLeaves
      (do
        if ← look (Cursor.atMatch .v37) then
          List.singleton <$> Parser.matchStatement .v37 body
        else Parser.smallStatements .v37)
      (do
        if ← look (Cursor.atMatch v) then List.singleton <$> Parser.matchStatement v body'
        else Parser.smallStatements v) := by
    refine .look_bind (fun s u _ => ?_) fun found => .ite (fun hfound => ?_) fun _ => ?_
    · rw [Cursor.atMatch_eq_false rfl,
        Cursor.atMatch_eq_false (Version.atLeast_310_of_hasSoftAsync hv)]
    · refine .of_leads (Heeds.matchStatement .v37 hheeds).onward .nowhere fun s u hs => ?_
      have hmatch := hs.2.trans hfound
      rw [Cursor.atMatch_eq_false rfl] at hmatch
      cases hmatch
    · exact (smallStatements hv).pre fun _ _ hs => hs.1
  have hother := asyncOr hv (asyncStatement hv hbody [] none).singleton hlines
  refine .peek_cases (fun token _ => ?_) fun token hword => ?_
  · split
    · exact .report_bind Onward.advance
    · exact (decoratedStatement hv hbody).singleton
    · exact (functionStatement hv hbody _ _ _).singleton
    · exact (classStatement hv hbody _ _).singleton
    · exact hcompound _ _
    · exact hcompound _ _
    · exact hcompound _ _
    · exact hcompound _ _
    · exact hcompound _ _
    · exact hother
  · rcases hword with hk | hk
    all_goals
      simp only [Token.soften_kind, hk, TokenKind.soften]
      exact hother

/-- A block where none is allowed is reported. -/
theorem strayBlock (hheeds : Heeds body) (indent indent' : Token) :
    InStep source m Nowhere (Parser.strayBlock body indent) (Parser.strayBlock body' indent') :=
  .report_bind fun s => (Onward.advance s).trans (hheeds.onward _)

end Together

/-- One more statement leaves those before it as they are. -/
theorem Gives.statementStep (stmts : List Stmt) :
    Gives (LoopStep.Extends stmts) (Parser.statementStep v body stmts) := by
  unfold Parser.statementStep
  have hdone : LoopStep.Extends stmts (.finished stmts) := ⟨[], .inr (by rw [List.append_nil])⟩
  refine .bind fun _ => .bind fun token => ?_
  split
  · exact .pure hdone
  · exact .bind fun _ => .pure hdone
  · exact .bind fun inner => .pure ⟨inner, .inl rfl⟩
  · exact .bind fun more => .pure ⟨more, .inl rfl⟩

namespace Together

/-- What has been read is added to the statements before. -/
theorem again {q p : Parser (List Stmt)} (h : Together source m v bodyLeaves q p)
    (stmts : List Stmt) :
    Together source m v (LoopStep.leaves bodyLeaves)
      (q >>= fun more => pure (.again (stmts ++ more)))
      (p >>= fun more => pure (.again (stmts ++ more))) :=
  h.bind_agree (fun _ => .done) fun _ => .pure fun _ hbeyond =>
    hbeyond.append (List.Subset.refl _)

theorem bodyWith (hv : v.hasSoftAsync = true) (hbody : Together source m v bodyLeaves body body')
    (hheeds : Heeds body) :
    Together source (m + 1) v bodyLeaves (Parser.bodyWith .v37 body) (Parser.bodyWith v body') := by
  unfold Parser.bodyWith Parser.moreStatements
  refine collect bodyLeaves_append (fun stmts => ?_) Gives.statementStep []
  have hstatement := (statement hv hbody hheeds).again stmts
  unfold Parser.statementStep
  refine .skipNewlines_bind (.peek_cases (fun token _ => ?_) fun token hword => ?_)
  · split
    · exact .done
    · exact .advance_bind .done
    · exact (strayBlock hheeds token token).bind_all fun inner => .done
    · exact hstatement
  · rcases hword with hk | hk
    all_goals
      simp only [Token.soften_kind, hk, TokenKind.soften]
      exact hstatement

end Together

end Bodies

namespace Together

/-- Bodies of fewer than `m` tokens are the same. -/
theorem indentedBody (hv : v.hasSoftAsync = true) (m : Nat) :
    Together source m v bodyLeaves (Parser.indentedBody .v37) (Parser.indentedBody v) := by
  have hbody : ∀ w : Version, Parser.indentedBody w = Parser.bodyWith w (Parser.indentedBody w) :=
    fun w => funext fun s => (bodyWith_eq_indentedBody fun _ _ => rfl).symm
  -- Induction on a bound for the tokens left: a body is read by statements whose own bodies begin
  -- behind a token more.
  induction m with
  | zero =>
    exact ⟨(Heeds.indentedBody .v37).onward, fun s u hs => absurd hs.below (Nat.not_lt_zero _)⟩
  | succ m ih =>
    rw [hbody .v37, hbody v]
    exact bodyWith hv ih (Heeds.indentedBody .v37)

theorem moduleItem (hv : v.hasSoftAsync = true) :
    Together source (m + 1) v bodyLeaves (Parser.moduleItem .v37) (Parser.moduleItem v) := by
  have hheeds := Heeds.indentedBody .v37
  have hstatement : Together source (m + 1) v bodyLeaves _ _ :=
    statement hv (indentedBody hv m) hheeds
  unfold Parser.moduleItem
  refine .peek_cases (fun token _ => ?_) fun token hword => ?_
  · split
    · exact .advance_bind .done
    · exact (strayBlock hheeds token token).anyway
    · exact hstatement
  · rcases hword with hk | hk
    all_goals
      simp only [Token.soften_kind, hk, TokenKind.soften]
      exact hstatement

theorem moduleBody (hv : v.hasSoftAsync = true) :
    Together source (m + 1) v bodyLeaves (Parser.moduleBody .v37) (Parser.moduleBody v) := by
  unfold Parser.moduleBody
  refine collect bodyLeaves_append (fun stmts => ?_) (fun stmts => ?_) []
  · exact .skipNewlines_bind (.at?_bind rfl .done ((moduleItem hv).again stmts))
  · refine .bind fun _ => .bind fun found => .ite ?_ (.bind fun more => ?_)
    · exact .pure ⟨[], .inr (by rw [List.append_nil])⟩
    · exact .pure ⟨more, .inl rfl⟩

end Together

/-- Before the first token both runs are at the same place. -/
theorem Softer.start (hv : v.hasSoftAsync = true) (source : String) :
    Softer source ((tokenize .v37 source).length + 1) (Parser.start .v37 source)
      (Parser.start v source) where
  soften := by
    rw [Parser.start, tokenize_soften hv]
    rfl
  tokens := rfl
  size := rfl
  below := Nat.lt_succ_self _

namespace SyntaxTree

/-- A source that is read without a report where two words are reserved is read in the same way
    where they are not, unless it has an annotated assignment and the version lacks them. -/
theorem parse_eq_or_beyond (hv : v.hasSoftAsync = true)
    (hclean : (parse .v37 source).errors = []) :
    Beyond v (parse .v37 source).leaves
      ∨ (parse v source).body = (parse .v37 source).body ∧ (parse v source).errors = [] := by
  rcases (Together.moduleBody hv).run _ _ (.start hv source) hclean with hbeyond | ⟨hbody, hs⟩
  · exact .inl hbeyond
  · exact .inr ⟨hbody.symm, (congrArg ParserState.errors hs.soften).trans hclean⟩

/-- Reserving `async` and `await` changes nothing for a source without errors: the version before
    reads the same statements and reports nothing, and so does the one before that if no annotated
    assignment is among them, which it lacks. -/
theorem parse_before_reservation (source : String) (hclean : (parse .v37 source).errors = []) :
    ((parse .v36 source).body = (parse .v37 source).body ∧ (parse .v36 source).errors = [])
      ∧ ((∀ target hint value span,
            Stmt.annAssign target hint value span ∉ (parse .v37 source).leaves) →
        (parse .v35 source).body = (parse .v37 source).body ∧ (parse .v35 source).errors = []) := by
  constructor
  · refine (parse_eq_or_beyond rfl hclean).resolve_left fun hbeyond => ?_
    exact absurd hbeyond.1 (by decide)
  · intro hnone
    refine (parse_eq_or_beyond rfl hclean).resolve_left fun hbeyond => ?_
    obtain ⟨-, target, hint, value, span, hmem⟩ := hbeyond
    exact hnone target hint value span hmem

/-- Definitions, loops, operands and a comprehension where the two words are special. -/
theorem parse_before_reservation_coroutine :
    let source :=
      "async def f(xs):\n  async for x in xs: y = -await x\n  z = g(await a async for a in y)\n"
    (parse .v37 source).errors = []
      ∧ ((parse .v36 source).body = (parse .v37 source).body ∧ (parse .v36 source).errors = [])
      ∧ (parse .v35 source).body = (parse .v37 source).body ∧ (parse .v35 source).errors = [] := by
  intro source
  have hclean : (parse .v37 source).errors = [] := by decide +kernel
  have hnone : (parse .v37 source).leaves.all
      (fun | .annAssign .. => false | _ => true) = true := by decide +kernel
  obtain ⟨hlast, hfirst⟩ := parse_before_reservation source hclean
  refine ⟨hclean, hlast, hfirst fun target hint value span hmem => ?_⟩
  have hother := List.all_eq_true.1 hnone _ hmem
  cases hother

end SyntaxTree

end PyAtlas
