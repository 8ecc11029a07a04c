import PyAtlas.Proofs.Syntax.ExprProgress
import PyAtlas.Proofs.Syntax.Nesting

/-!
# Statements make progress

A statement reads a token wherever none of the layout comes next, whatever is wrong with it: where
no production reads one, the rest of the line is passed over, and that is a token at least. So the
loops over statements, which call the parser of statements behind newlines and dedents only, read
a token before they go round, and come to an end at the end of input.

Bodies are to statements what expressions are to operands: the productions are given a parser of
bodies, which they call behind an indent, so what they do where `m` tokens remain depends on what
it does where fewer do.

## Key results
- `Alike.smallStatements`, `Alike.statement`: a statement reads a token.
- `Alike.indentedBody`: a body reads on.
- `Parser.bodyWith_eq_indentedBody`: a body depends on the bodies behind its first token.
- `Parser.makes_progress`: the parser, its statements and all its loops.
-/

namespace PyAtlas

namespace Alike

open PyAtlas.Parser

variable {m : Nat} {I : Cursor → Prop}

/-! ### Passing over what is not kept -/

theorem headerStep : AlikeSteps m Parser.headerStep Parser.headerStep := by
  rintro ⟨depth, lambdas⟩
  unfold Parser.headerStep
  apply peek_bind
  intro token
  split
  · exact expected_bind finished
  · exact expected_bind finished
  · rename_i op hop
    have hne : token.kind ≠ .eof := by simp [hop]
    apply bind_read (advance_peeked hne)
    intro _
    apply ite
    · intro _
      exact ite (fun _ => done) fun _ => done
    · intro _
      exact done
  · rename_i hlambda
    have hne : token.kind ≠ .eof := by simp [hlambda]
    exact bind_read (advance_peeked hne) fun _ => done
  · rename_i cause herror
    have hne : token.kind ≠ .eof := by simp [herror]
    exact report_bind (bind_read (advance_peeked hne) fun _ => done)
  · rename_i heof _ _ _
    exact bind_read (advance_peeked heof) fun _ => done

theorem skipHeader : AlikeAnywhere m Parser.skipHeader Parser.skipHeader :=
  loop headerStep (0, 0)

theorem expectColon : AlikeAnywhere m Parser.expectColon Parser.expectColon := by
  unfold Parser.expectColon
  apply peek_bind
  intro token
  apply eats_bind (by simp)
  · exact done
  · apply expected_bind
    apply ite
    · intro _
      exact skipHeader.anywhere
    · intro _
      exact done

theorem operandStep : AlikeSteps m Parser.operandStep Parser.operandStep := by
  intro depth
  unfold Parser.operandStep
  apply peek_bind
  intro token
  split
  · exact finished
  · exact finished
  · rename_i op hop
    have hne : token.kind ≠ .eof := by simp [hop]
    apply ite
    · intro _
      exact finished
    · intro _
      exact bind_read (advance_peeked hne) fun _ => done
  · rename_i cause herror
    have hne : token.kind ≠ .eof := by simp [herror]
    exact report_bind (bind_read (advance_peeked hne) fun _ => done)
  · rename_i heof _ _
    exact bind_read (advance_peeked heof) fun _ => done

theorem skipOperands : AlikeAnywhere m Parser.skipOperands Parser.skipOperands :=
  loop operandStep 0

/-! ### Imports -/

theorem segmentStep : AlikeSteps m Parser.segmentStep Parser.segmentStep := by
  rintro ⟨name, span⟩
  unfold Parser.segmentStep
  apply look_bind
  intro dotted
  apply ite
  · intro hdotted
    apply look_bind
    intro second
    split
    · rename_i segment hsegment
      -- The name behind the point has been seen as well, so it may be read too.
      refine (bind_to (J := fun c => c.kind ≠ .eof) (fun _ => rfl) ?_ ?_ fun _ => ?_).mono
        (Nat.le_succ m)
      · rintro c ⟨⟨-, hdot⟩, -⟩
        have hkind : c.kind = .operator .dot := eq_of_beq (hdot.trans hdotted)
        simp [hkind]
      · rintro c ⟨-, rfl⟩
        rw [Cursor.kind_eq, Cursor.peek_advance]
        exact ne_eof_of_identifier? hsegment
      · exact bind_read (advance fun _ => id) fun _ => done
    · exact finished
  · intro _
    exact finished

theorem dottedName : AlikeAnywhere m Parser.dottedName Parser.dottedName := by
  unfold Parser.dottedName
  apply bind expectIdentifier.anywhere
  intro first
  cases first with
  | none => exact done
  | some first => exact mapped (loop segmentStep _)

theorem aliasFor (name : String) (span : Span) :
    AlikeAnywhere m (Parser.aliasFor name span) (Parser.aliasFor name span) := by
  unfold Parser.aliasFor
  apply eats_bind (by simp)
  · apply bind expectIdentifier.anywhere
    intro ident
    cases ident with
    | none => exact done
    | some ident => exact done
  · exact done

theorem moduleAlias : AlikeAnywhere m Parser.moduleAlias Parser.moduleAlias := by
  unfold Parser.moduleAlias
  apply bind dottedName
  intro name
  cases name with
  | none => exact done
  | some name => exact aliasFor name.1 name.2

theorem memberAlias : AlikeAnywhere m Parser.memberAlias Parser.memberAlias := by
  unfold Parser.memberAlias
  apply bind expectIdentifier.anywhere
  intro ident
  cases ident with
  | none => exact done
  | some ident => exact aliasFor ident.name ident.span

theorem moduleAliasStep : AlikeSteps m Parser.moduleAliasStep Parser.moduleAliasStep := by
  intro names
  unfold Parser.moduleAliasStep
  apply bind moduleAlias
  intro name
  cases name with
  | none => exact finished
  | some name => exact eats_bind (by simp) done finished

theorem memberAliasStep (parenthesized : Bool) :
    AlikeSteps m (Parser.memberAliasStep parenthesized) (Parser.memberAliasStep parenthesized) := by
  intro names
  unfold Parser.memberAliasStep
  apply look_bind_any
  intro closed
  apply ite
  · intro _
    exact finished
  · intro _
    apply bind memberAlias
    intro name
    cases name with
    | none => exact finished
    | some name => exact eats_bind (by simp) done finished

theorem importStatement (hI : ∀ c, I c → c.kind ≠ .eof) :
    AlikeReading m I Parser.importStatement Parser.importStatement := by
  unfold Parser.importStatement
  apply bind_read (next hI)
  intro word
  exact bind (loop moduleAliasStep []) fun _ => spanFrom_done

theorem pointStep : AlikeSteps m Parser.pointStep Parser.pointStep := by
  intro level
  unfold Parser.pointStep
  apply look_bind
  intro k
  split
  · apply bind_read (advance _) fun _ => done
    rintro c ⟨-, hk⟩
    simp [hk]
  · apply bind_read (advance _) fun _ => done
    rintro c ⟨-, hk⟩
    simp [hk]
  · exact finished

theorem importNames : AlikeAnywhere m Parser.importNames Parser.importNames := by
  unfold Parser.importNames
  apply bind (eat_anywhere (by simp))
  intro star
  cases star with
  | some star => exact done
  | none =>
    apply bind (eats_anywhere (by simp))
    intro parenthesized
    apply bind (loop (memberAliasStep parenthesized) [])
    intro names
    apply ite
    · intro _
      apply peek_bind
      intro token
      apply eats_bind (by simp)
      · exact done
      · exact expected_bind done
    · intro _
      exact done

theorem abandonOperands (start : Span) :
    AlikeAnywhere m (Parser.abandonOperands start) (Parser.abandonOperands start) := by
  unfold Parser.abandonOperands
  exact bind skipOperands fun _ => spanFrom_done

theorem importFromModule (start : Span) (module : Option String) (level : Nat) :
    AlikeAnywhere m (Parser.importFromModule start module level)
      (Parser.importFromModule start module level) := by
  unfold Parser.importFromModule
  apply peek_bind
  intro token
  apply eats_bind (by simp)
  · exact bind importNames fun _ => spanFrom_done
  · exact expected_bind (abandonOperands start).anywhere

theorem importFromStatement (hI : ∀ c, I c → c.kind ≠ .eof) :
    AlikeReading m I Parser.importFromStatement Parser.importFromStatement := by
  unfold Parser.importFromStatement
  apply bind_read (next hI)
  intro word
  apply bind (loop pointStep 0)
  intro level
  apply look_bind_any
  intro atImport
  apply ite
  · intro _
    exact importFromModule _ _ _
  · intro _
    apply bind dottedName
    intro name
    cases name with
    | some name => exact importFromModule _ _ _
    | none => exact abandonOperands _

/-! ### Small statements -/

theorem requireFeature (v : Version) (feature : Feature) (span : Span) :
    AlikeAnywhere m (Parser.requireFeature v feature span)
      (Parser.requireFeature v feature span) := by
  unfold Parser.requireFeature
  exact ite (fun _ => report) fun _ => done

theorem targetStep (v : Version) : AlikeSteps m (Parser.targetStep v) (Parser.targetStep v) := by
  rintro ⟨targets, value⟩
  unfold Parser.targetStep
  apply eats_bind (by simp)
  · exact bind (starExpressions v) fun _ => done
  · exact finished

theorem assignedValues (v : Version) (first : Expr) :
    AlikeAnywhere m (Parser.assignedValues v first) (Parser.assignedValues v first) := by
  unfold Parser.assignedValues
  exact bind (starExpressions v) fun value => loop (targetStep v) ([first], value)

theorem expressionStatement (v : Version) :
    AlikeAnywhere m (Parser.expressionStatement v) (Parser.expressionStatement v) := by
  unfold Parser.expressionStatement
  apply peek_bind
  intro start
  apply bind (starExpressions v)
  intro first
  apply peek_bind
  intro token
  split
  · rename_i hequal
    have hne : token.kind ≠ .eof := by simp [hequal]
    apply bind_read (advance_peeked hne)
    intro _
    exact bind (assignedValues v first) fun _ => spanFrom_done
  · rename_i op hop
    have hne : token.kind ≠ .eof := by simp [hop]
    apply ite
    · intro _
      apply bind_read (advance_peeked hne)
      intro _
      apply bind (requireFeature v _ _)
      intro _
      apply bind (expression v)
      intro hint
      apply eats_bind (by simp)
      · exact bind (mapped (starExpressions v)) fun _ => spanFrom_done
      · exact bind done fun _ => spanFrom_done
    · intro _
      apply ite
      · intro _
        apply bind_read (advance_peeked hne)
        intro _
        exact bind (starExpressions v) fun _ => spanFrom_done
      · intro _
        exact done
  · exact done

theorem smallStatement (v : Version) :
    AlikeAnywhere m (Parser.smallStatement v) (Parser.smallStatement v) := by
  unfold Parser.smallStatement
  apply peek_bind
  intro token
  split
  · rename_i hword
    exact (importStatement (ne_eof_of_peek hword (by simp))).weaken (fun _ => id) fun _ _ _ => False.elim
  · rename_i hword
    exact (importFromStatement (ne_eof_of_peek hword (by simp))).weaken (fun _ => id)
      fun _ _ _ => False.elim
  · rename_i word _ _ hword
    have hne : token.kind ≠ .eof := by simp [hword]
    split
    · apply bind_read (advance_peeked hne)
      intro _
      exact bind skipOperands fun _ => spanFrom_done
    · exact (expressionStatement v).anywhere
  · exact (expressionStatement v).anywhere

/-- Behind a small statement a token is read, unless the line has ended before it. -/
theorem smallStatementEnd (stmts : List Stmt) :
    Alike m (fun _ => True) (fun c r => r.GoesRound ∨ c.kind.isLayout = false)
      (Parser.smallStatementEnd stmts) (Parser.smallStatementEnd stmts) := by
  unfold Parser.smallStatementEnd
  apply peek_bind
  intro token
  -- Nothing is read where the line has ended, and there is no other round.
  have hends : token.kind.isLayout = true → Alike m (fun c => True ∧ c.peek = token)
      (fun c r => r.GoesRound ∨ c.kind.isLayout = false)
      (Pure.pure (LoopStep.finished stmts : LoopStep (List Stmt) (List Stmt)))
      (Pure.pure (.finished stmts)) := by
    intro hlayout
    apply pure
    rintro c ⟨-, rfl⟩ (hround | hplain)
    · exact hround
    · rw [Cursor.kind_eq, hlayout] at hplain
      cases hplain
  split
  · rename_i hsemicolon
    have hne : token.kind ≠ .eof := by simp [hsemicolon]
    apply bind_read (advance_peeked hne)
    intro _
    apply look_bind_any
    intro k
    apply ite
    · intro _
      exact bind skipNewlines fun _ => done
    · intro _
      exact done
  · rename_i hnewline
    have hne : token.kind ≠ .eof := by simp [hnewline]
    exact bind_read (advance_peeked hne) fun _ => done
  · rename_i heof
    exact hends (by simp [heof, TokenKind.isLayout])
  · rename_i hdedent
    exact hends (by simp [hdedent, TokenKind.isLayout])
  · rename_i heof _
    apply expected_bind
    apply bind_read (skipLine _) fun _ => done
    rintro c ⟨-, rfl⟩
    exact heof

theorem smallStatementStep (v : Version) :
    AlikeSteps m (Parser.smallStatementStep v) (Parser.smallStatementStep v) := by
  intro stmts
  unfold Parser.smallStatementStep
  apply bind (smallStatement v)
  intro stmt
  exact (smallStatementEnd _).weaken (fun _ _ => trivial) fun _ _ _ => Or.inl

/-- Small statements read a token, whether the first of them does or not. -/
theorem smallStatements (v : Version) :
    AlikeReading m (fun c => c.kind.isLayout = false) (Parser.smallStatements v)
      (Parser.smallStatements v) := by
  apply loop_read (smallStatementStep v)
  apply bind_stay (smallStatement v) fun stmt => (smallStatementEnd _).anywhere
  intro stmt
  exact (smallStatementEnd _).weaken (fun _ _ => trivial) fun _ _ hplain _ => .inr hplain

theorem smallStatements_anywhere (v : Version) :
    AlikeAnywhere m (Parser.smallStatements v) (Parser.smallStatements v) :=
  loop (smallStatementStep v) []

/-! ### Bodies -/

section Bodies

variable {body body' : Parser (List Stmt)}

/-- A body is entered behind an indent. -/
theorem block (v : Version) (hbody : AlikeAnywhere m body body') :
    AlikeAnywhere (m + 1) (Parser.block v body) (Parser.block v body') := by
  unfold Parser.block
  apply look_bind_any
  intro k
  apply ite
  · intro _
    apply bind skipNewlines
    intro _
    apply peek_bind
    intro token
    apply ite
    · intro hindent
      have hne : token.kind ≠ .eof := by simp [eq_of_beq hindent]
      exact bind_read_succ (advance_peeked hne) fun _ => hbody
    · intro _
      exact report_bind done
  · intro _
    exact smallStatements_anywhere v

/-! ### Definitions -/

theorem expressionAfter (v : Version) {mark : TokenKind} (hmark : mark ≠ .eof) :
    AlikeAnywhere m (Parser.expressionAfter v mark) (Parser.expressionAfter v mark) := by
  unfold Parser.expressionAfter
  exact eats_bind hmark (mapped (expression v)) done

theorem parameterHint (v : Version) :
    AlikeAnywhere m (Parser.parameterHint v) (Parser.parameterHint v) := by
  unfold Parser.parameterHint
  apply bind (eat_anywhere (by simp))
  intro colon
  cases colon with
  | some colon => exact bind (requireFeature v _ _) fun _ => mapped (expression v)
  | none => exact done

/-- Where a name comes next, a parameter reads it. -/
theorem parameter (v : Version) (kind : ParameterKind) :
    Alike m (fun _ => True) (fun c _ => (identifier? c.peek).isSome = true)
      (Parser.parameter v kind) (Parser.parameter v kind) := by
  unfold Parser.parameter
  apply bind_first expectIdentifier
  intro name
  cases name with
  | none => exact done
  | some name =>
    apply bind (parameterHint v)
    intro hint
    exact bind (expressionAfter v (by simp)) fun _ => done

theorem sublistParameter (v : Version) (hI : ∀ c, I c → c.kind ≠ .eof) :
    AlikeReading m I (Parser.sublistParameter v) (Parser.sublistParameter v) := by
  unfold Parser.sublistParameter
  apply bind_read (advance hI)
  intro _
  apply bind skipToClosing
  intro _
  apply bind (discard (eat_anywhere (by simp)))
  intro _
  exact eats_bind (by simp) (discard (expression v)) done

theorem parameterStep (v : Version) :
    AlikeSteps m (Parser.parameterStep v) (Parser.parameterStep v) := by
  rintro ⟨params, keywordOnly⟩
  unfold Parser.parameterStep
  -- Whatever goes around reads a mark, a sublist or the name of a parameter first.
  apply peek_bind
  intro token
  split
  · rename_i hclosing
    have hne : token.kind ≠ .eof := by simp [hclosing]
    exact bind_read (advance_peeked hne) fun _ => done
  · rename_i hcomma
    have hne : token.kind ≠ .eof := by simp [hcomma]
    exact bind_read (advance_peeked hne) fun _ => done
  · rename_i hslash
    have hne : token.kind ≠ .eof := by simp [hslash]
    apply bind_read (advance_peeked hne)
    intro _
    exact bind (requireFeature v _ _) fun _ => done
  · rename_i hstar
    have hne : token.kind ≠ .eof := by simp [hstar]
    apply bind_read (advance_peeked hne)
    intro _
    apply peek_bind
    intro name
    apply ite
    · intro _
      exact bind (parameter v _).anywhere fun _ => done
    · intro _
      exact done
  · rename_i hstars
    have hne : token.kind ≠ .eof := by simp [hstars]
    apply bind_read (advance_peeked hne)
    intro _
    exact bind (parameter v _).anywhere fun _ => done
  · rename_i hopening
    apply bind_read (sublistParameter v _) fun _ => done
    rintro c ⟨-, rfl⟩
    simp [Cursor.kind_eq, hopening]
  · apply ite
    · intro hname
      apply bind_read ((parameter v _).reading_of _) fun _ => done
      rintro c ⟨-, rfl⟩
      exact hname
    · intro _
      apply expected_bind
      apply bind skipToClosing
      intro _
      exact bind (discard (eat_anywhere (by simp))) fun _ => finished

theorem parameterList (v : Version) :
    AlikeAnywhere m (Parser.parameterList v) (Parser.parameterList v) := by
  unfold Parser.parameterList
  apply peek_bind
  intro token
  apply eats_bind (by simp)
  · exact loop (parameterStep v) ([], false)
  · exact expected_bind done

theorem classArguments (v : Version) :
    AlikeAnywhere m (Parser.classArguments v) (Parser.classArguments v) := by
  unfold Parser.classArguments
  apply eats_bind (by simp)
  · exact loop (argumentStep v (AlikeExprs.parseExpr v m)) []
  · exact done

theorem abandonLine (start : Span) :
    AlikeAnywhere m (Parser.abandonLine start) (Parser.abandonLine start) := by
  unfold Parser.abandonLine
  exact bind skipLine_anywhere fun _ => spanFrom_done

/-- A class begins with a word, whatever follows it. -/
theorem classStatement (v : Version) (hbody : AlikeAnywhere m body body')
    (decorators : List Expr) (start : Option Span) (hI : ∀ c, I c → c.kind ≠ .eof) :
    AlikeReading (m + 1) I (Parser.classStatement v body decorators start)
      (Parser.classStatement v body' decorators start) := by
  unfold Parser.classStatement
  apply bind_read (next hI)
  intro word
  apply bind expectIdentifier.anywhere
  intro name
  cases name with
  | none => exact abandonLine _
  | some name =>
    apply bind (classArguments v)
    intro arguments
    apply bind expectColon
    intro _
    exact bind (block v hbody) fun _ => spanFrom_done

theorem functionStatement (v : Version) (hbody : AlikeAnywhere m body body')
    (decorators : List Expr) (start : Option Span) (isAsync : Bool)
    (hI : ∀ c, I c → c.kind ≠ .eof) :
    AlikeReading (m + 1) I (Parser.functionStatement v body decorators start isAsync)
      (Parser.functionStatement v body' decorators start isAsync) := by
  unfold Parser.functionStatement
  apply bind_read (next hI)
  intro word
  apply bind expectIdentifier.anywhere
  intro name
  cases name with
  | none => exact abandonLine _
  | some name =>
    apply bind (parameterList v)
    intro params
    apply bind (expressionAfter v (by simp))
    intro returns
    apply bind expectColon
    intro _
    exact bind (block v hbody) fun _ => spanFrom_done

/-! ### Control flow -/

theorem clause (v : Version) (hbody : AlikeAnywhere m body body') (kind : ClauseKind)
    (hI : ∀ c, I c → c.kind ≠ .eof) :
    AlikeReading (m + 1) I (Parser.clause v body kind) (Parser.clause v body' kind) := by
  unfold Parser.clause
  apply bind_read (next hI)
  intro word
  apply bind skipHeader
  intro _
  exact bind (block v hbody) fun _ => spanFrom_done

theorem clauseStep (v : Version) (hbody : AlikeAnywhere m body body') (compound : CompoundKind) :
    AlikeSteps (m + 1) (Parser.clauseStep v body compound)
      (Parser.clauseStep v body' compound) := by
  intro clauses
  unfold Parser.clauseStep
  apply look_bind
  intro further
  cases further with
  | some further =>
    apply bind_read (clause v hbody further _) fun _ => done
    rintro c ⟨-, hfurther⟩ heof
    rw [heof] at hfurther
    cases compound <;> cases hfurther
  | none => exact finished

theorem compoundStatement (v : Version) (hbody : AlikeAnywhere m body body')
    (compound : CompoundKind) (isAsync : Bool) (start : Span) (hI : ∀ c, I c → c.kind ≠ .eof) :
    AlikeReading (m + 1) I (Parser.compoundStatement v body compound isAsync start)
      (Parser.compoundStatement v body' compound isAsync start) := by
  unfold Parser.compoundStatement
  apply bind_read (clause v hbody _ hI)
  intro first
  exact bind (loop (clauseStep v hbody compound) [first]) fun _ => spanFrom_done

theorem caseStep (v : Version) (hbody : AlikeAnywhere m body body') :
    AlikeSteps (m + 1) (Parser.caseStep v body) (Parser.caseStep v body') := by
  intro clauses
  unfold Parser.caseStep
  apply bind skipNewlines
  intro _
  apply peek_bind
  intro token
  split
  · exact finished
  · rename_i hdedent
    have hne : token.kind ≠ .eof := by simp [hdedent]
    exact bind_read (advance_peeked hne) fun _ => done
  · rename_i heof _
    apply ite
    · intro _
      exact bind_read (clause v hbody .case (ne_eof_of_peek rfl heof)) fun _ => done
    · intro _
      apply expected_bind
      exact bind_read (skipLine (ne_eof_of_peek rfl heof)) fun _ => done

theorem matchBlock (v : Version) (hbody : AlikeAnywhere m body body') :
    AlikeAnywhere (m + 1) (Parser.matchBlock v body) (Parser.matchBlock v body') := by
  unfold Parser.matchBlock
  apply bind skipNewlines
  intro _
  apply peek_bind
  intro token
  apply ite
  · intro hindent
    have hne : token.kind ≠ .eof := by simp [eq_of_beq hindent]
    exact bind_read (advance_peeked hne) fun _ => loop (caseStep v hbody) []
  · intro _
    exact report_bind done

theorem matchStatement (v : Version) (hbody : AlikeAnywhere m body body')
    (hI : ∀ c, I c → c.kind ≠ .eof) :
    AlikeReading (m + 1) I (Parser.matchStatement v body) (Parser.matchStatement v body') := by
  unfold Parser.matchStatement
  apply bind_read (next hI)
  intro word
  apply bind skipHeader
  intro _
  exact bind (matchBlock v hbody) fun _ => spanFrom_done

/-! ### Decorated and asynchronous definitions -/

theorem asyncStatement (v : Version) (hbody : AlikeAnywhere m body body')
    (decorators : List Expr) (start : Option Span) (hI : ∀ c, I c → c.kind ≠ .eof) :
    AlikeReading (m + 1) I (Parser.asyncStatement v body decorators start)
      (Parser.asyncStatement v body' decorators start) := by
  unfold Parser.asyncStatement
  apply bind_read (next hI)
  intro word
  apply peek_bind
  intro token
  split
  · rename_i hword
    exact (functionStatement v hbody decorators _ true (ne_eof_of_peek hword (by simp))).quiet
  · rename_i hword
    exact (compoundStatement v hbody .for true _ (ne_eof_of_peek hword (by simp))).quiet
  · rename_i hword
    exact (compoundStatement v hbody .with true _ (ne_eof_of_peek hword (by simp))).quiet
  · exact expected_bind (abandonLine _).anywhere

theorem endDecorator : AlikeAnywhere m Parser.endDecorator Parser.endDecorator := by
  unfold Parser.endDecorator
  apply peek_bind
  intro token
  split
  · rename_i hnewline
    have hne : token.kind ≠ .eof := by simp [hnewline]
    exact (advance_peeked hne).quiet
  · exact done
  · exact expected_bind skipLine_anywhere.anywhere

theorem decorator (v : Version) : AlikeAnywhere m (Parser.decorator v) (Parser.decorator v) := by
  unfold Parser.decorator
  apply bind (expression v)
  intro value
  apply bind endDecorator
  intro _
  exact bind skipNewlines fun _ => done

theorem decoratorStep (v : Version) :
    AlikeSteps m (Parser.decoratorStep v) (Parser.decoratorStep v) := by
  intro decorators
  unfold Parser.decoratorStep
  apply eats_bind (by simp)
  · exact bind (decorator v) fun _ => done
  · exact finished

/-- Where a decorator begins, its sign is read at least. -/
theorem decoratorList (v : Version) :
    AlikeReading m (fun c => c.kind = .operator .at) (Parser.decoratorList v)
      (Parser.decoratorList v) := by
  apply loop_read (decoratorStep v)
  unfold Parser.decoratorStep
  apply eats_bind_ne (by simp)
  · exact bind (decorator v) fun _ => done
  · exact pure fun c hc => absurd hc.1 hc.2

theorem decoratedStatement (v : Version) (hbody : AlikeAnywhere m body body') :
    AlikeReading (m + 1) (fun c => c.kind = .operator .at) (Parser.decoratedStatement v body)
      (Parser.decoratedStatement v body') := by
  unfold Parser.decoratedStatement
  apply peek_bind
  intro start
  apply bind_read ((decoratorList v).of fun _ => And.left)
  intro decorators
  apply peek_bind
  intro token
  split
  · rename_i hword
    exact (functionStatement v hbody decorators _ false (ne_eof_of_peek hword (by simp))).quiet
  · rename_i hword
    exact (classStatement v hbody decorators _ (ne_eof_of_peek hword (by simp))).quiet
  · apply look_bind
    intro isAsync
    apply ite
    · intro hasync
      apply quiet
      apply asyncStatement v hbody decorators _
      rintro c ⟨-, hat⟩
      exact TokenKind.ne_eof_of_plain (Cursor.isLayout_of_atAsync (hat.trans hasync))
    · intro _
      exact expected_bind spanFrom_done.anywhere

/-! ### Statements -/

/-- A statement reads a token wherever none of the layout comes next. -/
theorem statement (v : Version) (hbody : AlikeAnywhere m body body') :
    AlikeReading (m + 1) (fun c => c.kind.isLayout = false) (Parser.statement v body)
      (Parser.statement v body') := by
  unfold Parser.statement
  apply peek_bind
  intro token
  have hopening : ∀ c : Cursor, c.kind.isLayout = false ∧ c.peek = token → c.kind ≠ .eof :=
    fun _ hc => TokenKind.ne_eof_of_plain hc.1
  have hlist : ∀ {J : Cursor → Prop} {p q : Parser Stmt}, AlikeReading (m + 1) J p q →
      AlikeReading (m + 1) J (List.singleton <$> p) (List.singleton <$> q) :=
    fun h => h.map fun _ _ => id
  have hcompound : ∀ compound start, AlikeReading (m + 1)
      (fun c => c.kind.isLayout = false ∧ c.peek = token)
      (List.singleton <$> Parser.compoundStatement v body compound false start)
      (List.singleton <$> Parser.compoundStatement v body' compound false start) :=
    fun compound start => hlist (compoundStatement v hbody compound false start hopening)
  split
  · apply report_bind
    exact bind_read (advance hopening) fun _ => done
  · rename_i hat
    apply hlist ((decoratedStatement v hbody).of _)
    rintro c ⟨-, rfl⟩
    exact hat
  · exact hlist (functionStatement v hbody [] none false hopening)
  · exact hlist (classStatement v hbody [] none hopening)
  · exact hcompound .if _
  · exact hcompound .while _
  · exact hcompound .for _
  · exact hcompound .try _
  · exact hcompound .with _
  · apply look_bind_any
    intro isAsync
    apply ite
    · intro _
      exact hlist (asyncStatement v hbody [] none hopening)
    intro _
    apply look_bind_any
    intro isMatch
    apply ite
    · intro _
      exact hlist (matchStatement v hbody hopening)
    · intro _
      exact (smallStatements v).of fun _ => And.left

theorem strayBlock (hbody : AlikeAnywhere m body body') (indent : Token)
    (hI : ∀ c, I c → c.kind ≠ .eof) :
    AlikeReading (m + 1) I (Parser.strayBlock body indent) (Parser.strayBlock body' indent) := by
  unfold Parser.strayBlock
  apply report_bind
  exact bind_read_succ (advance hI) fun _ => hbody

theorem statementStep (v : Version) (hbody : AlikeAnywhere m body body') :
    AlikeSteps (m + 1) (Parser.statementStep v body) (Parser.statementStep v body') := by
  intro stmts
  unfold Parser.statementStep
  apply skipNewlines_bind
  apply peek_bind
  intro token
  split
  · exact finished
  · rename_i hdedent
    have hne : token.kind ≠ .eof := by simp [hdedent]
    exact bind_read (advance_peeked hne) fun _ => done
  · rename_i hindent
    apply bind_read (strayBlock hbody token _) fun _ => done
    rintro c ⟨-, rfl⟩
    simp [Cursor.kind_eq, hindent]
  · rename_i heof hdedent hindent
    apply bind_read ((statement v hbody).of _) fun _ => done
    rintro c ⟨hnewline, rfl⟩
    exact TokenKind.isLayout_of_ne heof hdedent hindent hnewline

theorem bodyWith (v : Version) (hbody : AlikeAnywhere m body body') :
    AlikeAnywhere (m + 1) (Parser.bodyWith v body) (Parser.bodyWith v body') :=
  loop (statementStep v hbody) []

end Bodies

/-! ### Bodies in bodies -/

/-- A parser of bodies that does what `indentedBody` does on fewer tokens makes the same
    productions of them. -/
theorem body_of_agrees {v : Version} {body : Parser (List Stmt)}
    (h : AlikeAnywhere m (Parser.indentedBody v) (Parser.indentedBody v))
    (hagrees : ∀ t, t.remaining < m → body t = Parser.indentedBody v t) :
    AlikeAnywhere m body (Parser.indentedBody v) := by
  intro t ht _
  obtain ⟨-, hforward, -⟩ := h t ht trivial
  exact ⟨hagrees t ht, hforward, False.elim⟩

/-- The bodies inside a body are parsed without giving up. -/
theorem indentedBody_eq_of {v : Version} {s : ParserState}
    (h : AlikeAnywhere s.remaining (Parser.indentedBody v) (Parser.indentedBody v)) :
    Parser.indentedBody v s = Parser.bodyWith v (Parser.indentedBody v) s := by
  rw [Parser.indentedBody]
  have hinner : AlikeAnywhere s.remaining
      (nested s.remaining [] fun t _ => Parser.indentedBody v t) (Parser.indentedBody v) :=
    body_of_agrees h fun t ht => nested_of_lt ht
  exact (bodyWith v hinner s (Nat.lt_succ_self _) trivial).1

/-- A body reads on. -/
theorem indentedBody (v : Version) (m : Nat) :
    AlikeAnywhere m (Parser.indentedBody v) (Parser.indentedBody v) := by
  induction m with
  | zero => exact fun s hs => absurd hs (Nat.not_lt_zero _)
  | succ m ih =>
    intro s hs _
    have hinner : AlikeAnywhere s.remaining (Parser.indentedBody v) (Parser.indentedBody v) :=
      ih.mono (Nat.le_of_lt_succ hs)
    obtain ⟨-, hforward, -⟩ := bodyWith v hinner s (Nat.lt_succ_self _) trivial
    rw [indentedBody_eq_of hinner]
    exact ⟨rfl, hforward, False.elim⟩

/-! ### Modules -/

theorem moduleItem (v : Version) :
    AlikeReading m (fun c => c.kind ≠ .newline ∧ c.kind ≠ .eof) (Parser.moduleItem v)
      (Parser.moduleItem v) := by
  have hbody := indentedBody v m
  unfold Parser.moduleItem
  apply peek_bind
  intro token
  split
  · rename_i hdedent
    have hne : token.kind ≠ .eof := by simp [hdedent]
    exact bind_read (advance_peeked hne) fun _ => done
  · exact (strayBlock hbody token fun _ hc => hc.1.2).mono (Nat.le_succ m)
  · rename_i hdedent hindent
    apply ((statement v hbody).mono (Nat.le_succ m)).of
    rintro c ⟨⟨hnewline, heof⟩, rfl⟩
    exact TokenKind.isLayout_of_ne heof hdedent hindent hnewline

theorem moduleStep (v : Version) : AlikeSteps m (Parser.moduleStep v) (Parser.moduleStep v) := by
  intro stmts
  unfold Parser.moduleStep
  apply skipNewlines_bind
  apply look_bind
  intro atEnd
  apply ite
  · intro _
    exact finished
  · intro hmore
    apply bind_read ((moduleItem v).of _) fun _ => done
    rintro c ⟨hnewline, rfl⟩
    exact ⟨hnewline, by simpa using hmore⟩

theorem moduleBody (v : Version) :
    AlikeAnywhere m (Parser.moduleBody v) (Parser.moduleBody v) :=
  loop (moduleStep v) []

end Alike

namespace Parser

/-- A body is what its production makes of any parser of bodies that is right about fewer
    tokens. -/
theorem bodyWith_eq_indentedBody {v : Version} {body : Parser (List Stmt)} {s : ParserState}
    (h : ∀ t, t.remaining < s.remaining → body t = indentedBody v t) :
    bodyWith v body s = indentedBody v s := by
  have hbody := Alike.indentedBody v s.remaining
  rw [Alike.indentedBody_eq_of hbody]
  exact (Alike.bodyWith v (Alike.body_of_agrees hbody h) s (Nat.lt_succ_self _) trivial).1

/-- A module is read up to the end of input. -/
theorem kind_moduleBody (v : Version) (s : ParserState) :
    (moduleBody v s).2.cursor.kind = .eof := by
  apply Alike.loop_finishes (K := fun t => t.cursor.kind = .eof) (Alike.moduleStep v) _ []
    (Nat.lt_succ_self s.remaining)
  intro stmts s stmts' t hstep
  have hrun : moduleStep v stmts s =
      (if s.cursor.skipNewlines.kind == .eof then (.finished stmts, s.move Cursor.skipNewlines)
       else (.again (stmts ++ (moduleItem v (s.move Cursor.skipNewlines)).1),
        (moduleItem v (s.move Cursor.skipNewlines)).2)) := by
    show (if _ then _ else _ : Parser _) (s.move Cursor.skipNewlines) = _
    split <;> simp_all <;> rfl
  rw [hrun] at hstep
  split at hstep
  · rename_i heof
    obtain ⟨-, rfl⟩ := Prod.mk.inj hstep
    exact eq_of_beq heof
  · cases hstep

/-! ### All loops of the parser -/

/-- The loops of the parser for a version, each by its step. -/
inductive LoopOf (v : Version) : {α β : Type} → (α → Parser (LoopStep α β)) → Prop
  | starExprs : LoopOf v (starExprStep (parseExpr v))
  | items (closing : Operator) : LoopOf v (itemStep (parseExpr v) closing)
  | entries : LoopOf v (entryStep v (parseExpr v))
  | bounds : LoopOf v (boundStep (parseExpr v))
  | subscripts : LoopOf v (subscriptStep (parseExpr v))
  | arguments : LoopOf v (argumentStep v (parseExpr v))
  | lambdaParameters : LoopOf v lambdaParameterStep
  | strings : LoopOf v stringStep
  | continuations (precedence : Precedence) :
    LoopOf v (continuationStep v (parseExpr v) precedence)
  | header : LoopOf v headerStep
  | operands : LoopOf v operandStep
  | segments : LoopOf v segmentStep
  | moduleAliases : LoopOf v moduleAliasStep
  | memberAliases (parenthesized : Bool) : LoopOf v (memberAliasStep parenthesized)
  | points : LoopOf v pointStep
  | targets : LoopOf v (targetStep v)
  | smallStatements : LoopOf v (smallStatementStep v)
  | parameters : LoopOf v (parameterStep v)
  | clauses (compound : CompoundKind) : LoopOf v (clauseStep v (indentedBody v) compound)
  | cases : LoopOf v (caseStep v (indentedBody v))
  | decorators : LoopOf v (decoratorStep v)
  | statements : LoopOf v (statementStep v (indentedBody v))
  | modules : LoopOf v (moduleStep v)

theorem LoopOf.alike {v : Version} {α β : Type} {step : α → Parser (LoopStep α β)}
    (h : LoopOf v step) (m : Nat) : AlikeSteps (m + 1) step step := by
  have hexpr := AlikeExprs.parseExpr v (m + 1)
  have hbody := Alike.indentedBody v m
  cases h with
  | starExprs => exact Alike.starExprStep hexpr
  | items closing => exact Alike.itemStep hexpr closing
  | entries => exact Alike.entryStep v hexpr
  | bounds => exact Alike.boundStep hexpr
  | subscripts => exact Alike.subscriptStep hexpr
  | arguments => exact Alike.argumentStep v hexpr
  | lambdaParameters => exact Alike.lambdaParameterStep
  | strings => exact Alike.stringStep
  | continuations precedence =>
    exact Alike.continuationStep v (AlikeExprs.parseExpr v m) precedence
  | header => exact Alike.headerStep
  | operands => exact Alike.operandStep
  | segments => exact Alike.segmentStep
  | moduleAliases => exact Alike.moduleAliasStep
  | memberAliases parenthesized => exact Alike.memberAliasStep parenthesized
  | points => exact Alike.pointStep
  | targets => exact Alike.targetStep v
  | smallStatements => exact Alike.smallStatementStep v
  | parameters => exact Alike.parameterStep v
  | clauses compound => exact Alike.clauseStep v hbody compound
  | cases => exact Alike.caseStep v hbody
  | decorators => exact Alike.decoratorStep v
  | statements => exact Alike.statementStep v hbody
  | modules => exact Alike.moduleStep v

/-- A step reads a token before its loop goes round. -/
def Advances {α β : Type} (step : α → Parser (LoopStep α β)) : Prop :=
  ∀ a s a' t, step a s = (.again a', t) → s.cursor.index < t.cursor.index

theorem LoopOf.advances {v : Version} {α β : Type} {step : α → Parser (LoopStep α β)}
    (h : LoopOf v step) : Advances step := by
  intro a s a' t hstep
  obtain ⟨-, hforward, hlt⟩ := h.alike s.remaining a s (Nat.lt_succ_self _) trivial
  rw [hstep] at hforward hlt
  exact hforward.index_lt (hlt trivial)

/-- What a loop of the parser would yield if it gave up does not matter. -/
theorem LoopOf.loop_eq_loop {v : Version} {α β : Type} {step : α → Parser (LoopStep α β)}
    (h : LoopOf v step) (giveUp giveUp' : α → β) : loop giveUp step = loop giveUp' step := by
  funext a s
  exact (Alike.loop (h.alike s.remaining) a s (Nat.lt_succ_self _) trivial).1

/-! ### Progress -/

theorem index_lt_statement {v : Version} {s : ParserState} (h : s.cursor.kind.isLayout = false) :
    s.cursor.index < (statement v (indentedBody v) s).2.cursor.index := by
  have hbody := Alike.indentedBody v s.remaining
  obtain ⟨-, hforward, hlt⟩ := Alike.statement v hbody s (Nat.lt_succ_self _) h
  exact hforward.index_lt (hlt trivial)

/-- The parser leaves the token for the end of input to be read, and nothing else. Its statements
    read a token wherever none of the layout comes next, and so does every loop that goes round,
    which is why no loop ever gives up. Expressions and bodies are parsed recursively on fewer
    tokens only, whatever the tokens are. -/
theorem makes_progress (v : Version) :
    (∀ source, (moduleBody v (start v source)).2.cursor.tokens = tokenize v source
      ∧ (moduleBody v (start v source)).2.cursor.after
        = [Token.endOfInput source.utf8ByteSize])
    ∧ (∀ s, s.cursor.kind ∉ [.newline, .indent, .dedent, .eof] →
      s.cursor.index < (statement v (indentedBody v) s).2.cursor.index)
    ∧ (∀ (α β : Type) (step : α → Parser (LoopStep α β)), LoopOf v step →
      Advances step ∧ ∀ giveUp giveUp' : α → β, loop giveUp step = loop giveUp' step)
    ∧ (∀ (e : ExprParser) (s : ParserState),
      (∀ inner t, t.remaining < s.remaining → e inner t = parseExpr v inner t) →
      ∀ precedence, exprWith v e precedence s = parseExpr v precedence s)
    ∧ (∀ (body : Parser (List Stmt)) (s : ParserState),
      (∀ t, t.remaining < s.remaining → body t = indentedBody v t) →
      bodyWith v body s = indentedBody v s) := by
  refine ⟨fun source => ?_, fun s hs => ?_, fun α β step h => ?_, fun e s h => ?_,
    fun body s h => ?_⟩
  · obtain ⟨ts, hts, hlaid⟩ := tokenize_laid v source
    have hstart : (start v source).cursor.after = ts ++ [Token.endOfInput source.utf8ByteSize] :=
      hts
    have hforward : Forward (start v source) (moduleBody v (start v source)).2 :=
      (Alike.moduleBody v (start v source) (Nat.lt_succ_self _) trivial).2.1
    have hend := hforward.after_eq_endOfInput hstart hlaid.forall_kind_ne_eof
      (kind_moduleBody v _)
    exact ⟨hforward.tokens, hend⟩
  · simp only [List.mem_cons, List.not_mem_nil, or_false, not_or] at hs
    obtain ⟨hnewline, hindent, hdedent, heof⟩ := hs
    exact index_lt_statement (TokenKind.isLayout_of_ne heof hdedent hindent hnewline)
  · exact ⟨h.advances, h.loop_eq_loop⟩
  · exact exprWith_eq_parseExpr h
  · exact bodyWith_eq_indentedBody h

/-- A closing bracket, which no operand reads, is passed over with its line. -/
theorem makes_progress_stray_bracket :
    let s := start .v310 ") x\n"
    s.cursor.kind ∉ [.newline, .indent, .dedent, .eof]
      ∧ s.cursor.index < (statement .v310 (indentedBody .v310) s).2.cursor.index := by
  intro s
  have hkind : s.cursor.kind ∉ [.newline, .indent, .dedent, .eof] := by decide +kernel
  exact ⟨hkind, (makes_progress .v310).2.1 s hkind⟩

end Parser

end PyAtlas
