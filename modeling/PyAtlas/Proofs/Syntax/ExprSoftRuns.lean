import PyAtlas.Proofs.Syntax.BracketSoftRuns

/-!
# Expressions with two words reserved and without

An expression that is read under 3.7 without a report is read in the same way where `async` and
`await` are not reserved. Before an operand `await` is an operator for both grammars, since no
operand is missing behind it. Before `async` an expression ends under 3.7, also behind a comma and
behind `yield`, where the other grammar goes on with a name. If the words of a comprehension come
next, that name belongs to what is passed over; if not, the enclosing production makes a report.

## Key results
- `Ends.parseExpr`: expressions end at the same place, or before an asynchronous comprehension.
- `InStep.expression`, `InStep.starExpressions`: in statements they are the same, unless the
  reserved word comes next.
-/

namespace PyAtlas

open PyAtlas.Parser

variable {source : String} {m : Nat} {v : Version} {s u : ParserState}

/-- A name begins an expression as well as the operator does. -/
theorem TokenKind.startsExpression_soften {k : TokenKind} (h : k.startsExpression = true) :
    k.soften.startsExpression = true := by
  rcases k.soften_cases with hsame | hword | hword
  · rw [hsame, h]
  all_goals
    rw [hword]
    rfl

/-- Both grammars see an operator in `await`, since under 3.7 no operand is missing behind it. -/
theorem Softer.atSoftAwait (hv : v.hasSoftAsync = true) (h : Softer source m s u)
    (hk : s.cursor.kind = .keyword .await) {start : Span}
    (hclean : (Parser.unary (Parser.parseExpr .v37) .await .await start
      (s.move Cursor.advance)).2.errors = []) :
    u.cursor.atSoftAwait v = true := by
  have hstarts : (s.cursor.kindAt 1).startsExpression = true := by
    refine (Bool.eq_false_or_eq_true _).resolve_right fun hmissing => ?_
    rw [← Cursor.kind_advance] at hmissing
    exact Leads.unary_missing .v37 .await .await start (s.move Cursor.advance) hmissing hclean
  rw [h.cursor_eq, Cursor.atSoftAwait_soften hv h.reserving, hk,
    TokenKind.startsExpression_soften hstarts]
  rfl

/-- A production without a way out may stand where an expression ends. -/
theorem InStep.ends {α : Type} {R : α → α → Prop} {q p : Parser α}
    (h : InStep source m Nowhere q p) : Ends source m R q p :=
  h.anyway.post fun _ _ _ _ hs => .inl hs

/-! ### Operands -/

namespace InStep

theorem lambdaParameters :
    InStep source m Nowhere Parser.lambdaParameters Parser.lambdaParameters := by
  unfold Parser.lambdaParameters
  refine InStep.loop_all (fun depth => .peek_cases (fun token _ => ?_) fun token hword => ?_) 0
  · split
    · exact .expected_bind fun s => .refl s
    · exact .expected_bind fun s => .refl s
    · refine .ite (fun _ => .advance_bind .done) fun _ => ?_
      refine .ite (fun _ => .advance_bind .done) fun _ => .ite (fun _ => ?_) fun _ => ?_
      · exact .ite (fun _ => .expected_bind fun s => .refl s) fun _ => .advance_bind .done
      · exact .advance_bind .done
    · exact .advance_bind .done
  · have hstep : InStep source m Nowhere
        (advance >>= fun _ => pure (.again depth) : Parser (LoopStep Nat Bool))
        (advance >>= fun _ => pure (.again depth)) := .advance_bind .done
    rcases hword with hk | hk
    all_goals
      simp only [Token.soften_kind, hk, TokenKind.soften]
      exact hstep

theorem moreStrings (first : Token) :
    InStep source m Nowhere (Parser.moreStrings first) (Parser.moreStrings first) := by
  unfold Parser.moreStrings
  refine InStep.loop_all (fun (value, span) => ?_) _
  refine .peek_cases (fun token _ => ?_) fun token hword => ?_
  · split
    · exact .advance_bind .done
    · exact .done
  · rcases hword with hk | hk
    all_goals
      simp only [Token.soften_kind, hk, TokenKind.soften]
      exact .done

theorem backquoted (he : ExprsEnd source m v) (start : Span) :
    InStep source m Nowhere (Parser.backquoted (Parser.parseExpr .v37) start)
      (Parser.backquoted (Parser.parseExpr v) start) := by
  unfold Parser.backquoted
  refine (Ends.starExprs he).settle.discard.bind (fun _ => ?_) fun _ => ?_
  · refine .peek_any fun token => .eats_bind rfl (.spanFrom_bind start fun _ => .done) ?_
    exact .expected_bind fun s => .refl s
  · refine .look_any fun token => .eats_bind (fun s hs => hs.ne rfl) ?_
    exact .expected_bind fun s => .refl s

end InStep

namespace Ends

theorem unary (he : ExprsEnd source m v) (op : UnaryOp) (precedence : Precedence) (start : Span) :
    Ends source m SameStart (Parser.unary (Parser.parseExpr .v37) op precedence start)
      (Parser.unary (Parser.parseExpr v) op precedence start) := by
  unfold Parser.unary
  exact bind_pure (he _) fun _ _ _ => rfl

theorem lambda (he : ExprsEnd source m v) (start : Span) :
    Ends source m SameStart (Parser.lambda (Parser.parseExpr .v37) start)
      (Parser.lambda (Parser.parseExpr v) start) := by
  unfold Parser.lambda
  refine InStep.lambdaParameters.bind_all fun found => .ite (fun _ => ?_) fun _ => ?_
  · exact bind_pure (he _) fun _ _ _ => rfl
  · exact .spanFrom_bind start fun _ => .pure fun _ _ hs => .inl ⟨rfl, hs⟩

theorem operandAfter (hv : v.hasSoftAsync = true) (he : ExprsEnd source m v) (token : Token) :
    Ends source m SameStart (Parser.operandAfter .v37 (Parser.parseExpr .v37) token)
      (Parser.operandAfter v (Parser.parseExpr v) token) := by
  unfold Parser.operandAfter
  have hliteral : ∀ {a : Expr}, Ends source m SameStart (pure a) (pure a) :=
    .pure fun _ _ hs => .inl ⟨rfl, hs⟩
  split
  · exact (InStep.moreStrings token).bind_all fun (value, span) => hliteral
  · exact hliteral
  · exact hliteral
  · exact hliteral
  · exact hliteral
  · exact hliteral
  · exact hliteral
  · exact hliteral
  · exact (InStep.parenthesized hv he _).ends
  · exact (InStep.listDisplay hv he _).ends
  · exact (InStep.curlyDisplay hv he _).ends
  · exact unary he _ _ _
  · exact unary he _ _ _
  · exact unary he _ _ _
  · exact unary he _ _ _
  · exact unary he _ _ _
  · exact starred he token
  · exact lambda he _
  · exact yieldExpr he _
  · exact (InStep.backquoted he _).ends
  · exact .report_bind fun s => .refl s
  · exact .expected_bind fun s => .refl s

/-- An operand reads a token at least. -/
theorem operand (hv : v.hasSoftAsync = true) (he : ExprsEnd source m v) :
    Mirrors (fun _ => Lost) (Softer source (m + 1)) (End source m SameStart)
      (Parser.operand .v37 (Parser.parseExpr .v37)) (Parser.operand v (Parser.parseExpr v)) := by
  have hread : ∀ {token : Token} {q p : Parser Expr}, token.kind ≠ .eof →
      Ends source m SameStart q p →
      Mirrors (fun _ => Lost) (fun s u => Softer source (m + 1) s u ∧ s.cursor.peek = token)
        (End source m SameStart) (advance >>= fun _ => q) (advance >>= fun _ => p) :=
    fun {token} q p hne h => .move_bind Onward.advance (fun s u hs => hs.1.advance_below
      (by rw [Cursor.kind_eq, hs.2]; exact hne)) h
  unfold Parser.operand
  refine .peek_bind (fun token _ => ?_) fun token hword => ?_
  · cases hident : identifier? token with
    | some ident =>
      have hne : token.kind ≠ .eof := TokenKind.ne_eof_of_keepsBrackets
        (keepsBrackets_of_identifier? (Option.isSome_of_eq_some hident))
      refine .look_bind (fun s u hs => ?_) fun await => .ite (fun _ => ?_) fun _ => ?_
      · have hword : token.kind ≠ .keyword .await := by
          intro hk
          rw [identifier?_of_word (.inr hk)] at hident
          cases hident
        rw [hs.1.cursor_eq, Cursor.atSoftAwait_soften hv hs.1.reserving, Cursor.kind_eq, hs.2,
          beq_eq_false_iff_ne.2 hword]
        rfl
      · exact (hread hne (unary he _ _ _)).pre fun _ _ hs => hs.1
      · exact (hread hne (.pure fun _ _ hs => .inl ⟨rfl, hs⟩)).pre fun _ _ hs => hs.1
    | none =>
      refine .ite (fun _ => .expected_bind fun s => .refl s) fun hends => ?_
      refine hread (fun heof => ?_) (operandAfter hv he token)
      rw [heof] at hends
      exact hends rfl
  · have hnone := identifier?_of_word hword
    have hsome := identifier?_soften_of_word hword
    have honward : ∀ s, Onward s ((advance >>= fun _ =>
        Parser.operandAfter .v37 (Parser.parseExpr .v37) token) s).2 :=
      fun s => (Onward.advance s).trans ((operandAfter hv he token).onward _)
    rcases hword with hk | hk
    · simp only [hnone, hk]
      -- Under 3.7 no operand begins with `async`, whatever the other grammar makes of the name.
      have hmissing : Leads (fun _ => True) (fun _ => Nowhere)
          (Parser.operandAfter .v37 (Parser.parseExpr .v37) token) :=
        Leads.operandAfter_missing .v37 _ (by rw [hk]; rfl)
      refine .of_leads (D := fun _ => True) honward (fun s _ hclean => ?_) fun _ _ _ => trivial
      exact (hmissing _ trivial hclean).elim
    · simp only [hnone, hsome, hk]
      refine ⟨honward, fun s u ⟨hs, htoken⟩ hclean => ?_⟩
      have hkind : s.cursor.kind = .keyword .await := by rw [Cursor.kind_eq, htoken, hk]
      have hafter : Parser.operandAfter .v37 (Parser.parseExpr .v37) token
          = Parser.unary (Parser.parseExpr .v37) .await .await token.span := by
        rw [Parser.operandAfter, hk]
      rw [hafter] at hclean ⊢
      rw [Sim.look_bind, hs.atSoftAwait hv hkind hclean]
      refine (unary he .await .await token.span).run _ _ (hs.advance_below ?_) hclean
      rw [hkind]
      exact TokenKind.noConfusion

end Ends

/-! ### Continuations -/

/-- No continuation is a reserved word. -/
theorem AtAsync.continuation? (h : AtAsync s) : s.cursor.continuation? = none := by
  have hk : s.cursor.kind = .keyword .async := h
  rw [Cursor.continuation?, hk]
  rfl

theorem Waiting.continuation? (h : Waiting source m s u) : u.cursor.continuation? = none := by
  rw [Cursor.continuation?, h.kind_eq_for]
  rfl

theorem Parser.continuations_none (v : Version) {e : ExprParser} (precedence : Precedence)
    (lhs : Expr) (h : s.cursor.continuation? = none) :
    Parser.continuations v e precedence lhs s = (lhs, s) := by
  rw [Parser.continuations, loop_eq, continuationStep_none v precedence lhs h]

namespace Ends

theorem conditional (he : ExprsEnd source m v) (start : Span) :
    Ends source m SameStart (Parser.conditional (Parser.parseExpr .v37) start)
      (Parser.conditional (Parser.parseExpr v) start) := by
  unfold Parser.conditional
  refine (he _).settle.discard.bind (fun _ => ?_) fun _ => ?_
  · refine .peek_any fun token => .eats_bind rfl ?_ (.expected_bind fun s => .refl s)
    exact bind_spanFrom (he _).discard start fun _ _ => rfl
  · refine .look_any fun token => .eats_bind (fun s hs => hs.ne rfl) ?_
    exact .expected_bind fun s => .refl s

theorem continued (hv : v.hasSoftAsync = true) (he : ExprsEnd source m v) (lhs : Expr)
    (token : Token) (continuation : Continuation) :
    Ends source m SameStart (Parser.continued .v37 (Parser.parseExpr .v37) lhs token continuation)
      (Parser.continued v (Parser.parseExpr v) lhs token.soften continuation) := by
  have hend : ∀ φ : Span → Expr, Ends source m SameStart
      (spanFrom lhs.span >>= fun span => pure (φ span))
      (spanFrom lhs.span >>= fun span => pure (φ span)) :=
    fun φ => .spanFrom_bind lhs.span fun _ => .pure fun _ _ hs => .inl ⟨rfl, hs⟩
  unfold Parser.continued
  split
  · exact (InStep.callArguments hv he).bind_all fun arguments => hend _
  · exact (InStep.subscript he).bind_all fun index => hend _
  · refine .expectIdentifier_bind (fun attr => ?_) fun s => .refl s
    exact .pure fun _ _ hs => .inl ⟨rfl, hs⟩
  · exact conditional he lhs.span
  · exact bind_pure (he _) fun _ _ _ => rfl
  · rename_i op
    have hrhs : ∀ precedence, Ends source m SameStart
        (Parser.parseExpr .v37 precedence >>= fun rhs => pure (binary op lhs rhs))
        (Parser.parseExpr v precedence >>= fun rhs => pure (binary op lhs rhs)) :=
      fun precedence => bind_pure (he precedence) fun _ _ _ => rfl
    exact .ite (fun _ => .advance_bind (hrhs _)) fun _ => hrhs _

theorem continuations (hv : v.hasSoftAsync = true) (he : ExprsEnd source m v)
    (precedence : Precedence) (lhs : Expr) :
    Ends source m SameStart
      (Parser.continuations .v37 (Parser.parseExpr .v37) precedence lhs)
      (Parser.continuations v (Parser.parseExpr v) precedence lhs) := by
  unfold Parser.continuations
  refine Mirrors.loop_ends (X := fun _ => Lost) (fun lhs => ?_) (fun lhs s hs _ => ?_)
    (fun _ _ hs => hs) lhs
  · refine .look_any (fun s u hs => ?_) fun continuation => ?_
    · rw [hs.cursor_eq, Cursor.continuation?_soften]
    · cases continuation with
      | none => exact .pure fun _ _ hs => .inl ⟨rfl, hs⟩
      | some continuation =>
        refine .ite (fun _ => .pure fun _ _ hs => .inl ⟨rfl, hs⟩) fun _ => ?_
        refine .next_bind fun token => ?_
        -- A continuation that ends before the words of a comprehension is the last one.
        show Mirrors _ _ _
          (Parser.continued .v37 (Parser.parseExpr .v37) lhs token continuation >>= fun lhs =>
            pure (LoopStep.again lhs))
          (Parser.continued v (Parser.parseExpr v) lhs token.soften continuation >>= fun lhs =>
            pure (LoopStep.again lhs))
        refine Ends.bind (continued hv he lhs token continuation) (fun a => ?_)
          (fun a b s u hstart hs _ => .inr (.inr ⟨hs, a, b, hstart, ⟨rfl, ?_⟩, rfl, ?_⟩))
          fun a => ?_
        · exact .pure fun _ _ hs => .inl ⟨rfl, hs⟩
        · exact continuationStep_none .v37 precedence a hs.atAsync.continuation?
        · exact continuationStep_none v precedence b hs.continuation?
        · exact .pure fun _ hs => hs
  · rw [continuationStep_none .v37 precedence lhs hs.1.continuation?]
    exact hs

theorem exprWith (hv : v.hasSoftAsync = true) (he : ExprsEnd source m v)
    (precedence : Precedence) :
    Mirrors (fun _ => Lost) (Softer source (m + 1)) (End source m SameStart)
      (Parser.exprWith .v37 (Parser.parseExpr .v37) precedence)
      (Parser.exprWith v (Parser.parseExpr v) precedence) := by
  unfold Parser.exprWith
  refine Ends.bind (operand hv he) (continuations hv he precedence)
    (fun lhs lhs' s u hstart hs _ => ?_) fun lhs s hs _ => ?_
  · rw [continuations_none .v37 precedence lhs hs.atAsync.continuation?,
      continuations_none v precedence lhs' hs.continuation?]
    exact .inr (.inr ⟨hstart, hs⟩)
  -- Behind a way out 3.7 finds no continuation, so the way out is still there.
  · rw [continuations_none .v37 precedence lhs hs.1.continuation?]
    exact hs

/-- Expressions end at the same place, or before an asynchronous comprehension. -/
theorem parseExpr (hv : v.hasSoftAsync = true) (m : Nat) : ExprsEnd source m v := by
  -- Induction on a bound for the tokens left, since an operand reads one before any inner
  -- expression.
  induction m with
  | zero =>
    intro precedence
    exact ⟨.parseExpr .v37 precedence, fun s u hs => absurd hs.below (Nat.not_lt_zero _)⟩
  | succ m ih =>
    intro precedence
    rw [parseExpr_eq .v37, parseExpr_eq v]
    exact (exprWith hv ih precedence).post fun a b s u hend => hend.mono (Nat.le_succ m)

end Ends

namespace InStep

theorem expression (hv : v.hasSoftAsync = true) :
    InStep source m AtAsync (Parser.expression .v37) (Parser.expression v) :=
  (Ends.parseExpr hv m _).settle

theorem starExpressions (hv : v.hasSoftAsync = true) :
    InStep source m AtAsync (Parser.starExpressions .v37) (Parser.starExpressions v) :=
  (Ends.starExprs (Ends.parseExpr hv m)).settle

end InStep

end PyAtlas
