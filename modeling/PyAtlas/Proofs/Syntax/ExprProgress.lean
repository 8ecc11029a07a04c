import PyAtlas.Proofs.Syntax.ExprLine
import PyAtlas.Proofs.Syntax.Progress

/-!
# Expressions make progress

An operand is missing where layout or a closing bracket stands, and then no token is read. Any
other token begins an operand, and is read before a parser of expressions is called again. The
loops over items, arguments and continuations read a token before they go round, though not all
of them in the same place: most read a comma, some an operator, and the loop over arguments
relies on an argument that cannot be read at all being followed by neither a comma nor a closing
parenthesis.

Two parsers of expressions that agree where fewer than `m` tokens remain make the productions that
are given them agree there, and whole expressions where `m` remain as well.

## Key results
- `Alike.argumentStep`: the loop over arguments reads a token before it goes round.
- `Alike.exprWith`: what an expression does depends on the expressions behind its first token.
- `AlikeExprs.parseExpr`: an expression reads a token unless its operand is missing.
-/

namespace PyAtlas

/-- The next token begins an operand, and if it should not, it is read all the same. -/
def Cursor.AtOperand (c : Cursor) : Prop :=
  c.kind.endsOperand = false

/-- Where fewer than `m` tokens remain two parsers of expressions do the same, and they read a
    token unless the operand is missing. -/
def AlikeExprs (m : Nat) (e e' : Parser.ExprParser) : Prop :=
  ∀ precedence, Alike m (fun _ => True) (fun c _ => c.AtOperand) (e precedence) (e' precedence)

theorem AlikeExprs.anywhere {m : Nat} {e e' : Parser.ExprParser} (he : AlikeExprs m e e')
    (precedence : Precedence) : AlikeAnywhere m (e precedence) (e' precedence) :=
  Alike.anywhere (he precedence)

namespace Alike

open PyAtlas.Parser

variable {m : Nat} {e e' : ExprParser}

/-! ### Lists of expressions -/

theorem starred (he : AlikeExprs m e e') (star : Token) :
    AlikeAnywhere m (Parser.starred e star) (Parser.starred e' star) := by
  unfold Parser.starred
  exact bind (he.anywhere _) fun _ => done

theorem starOrExpr (he : AlikeExprs m e e') :
    AlikeAnywhere m (Parser.starOrExpr e) (Parser.starOrExpr e') := by
  unfold Parser.starOrExpr
  apply peek_bind
  intro token
  apply ite
  · intro hstar
    have hne : token.kind ≠ .eof := by simp [eq_of_beq hstar]
    exact bind_read (advance_peeked hne) fun _ => starred he token
  · intro _
    exact (he.anywhere _).anywhere

theorem starExprStep (he : AlikeExprs m e e') :
    AlikeSteps m (Parser.starExprStep e) (Parser.starExprStep e') := by
  intro items
  unfold Parser.starExprStep
  apply eats_bind (by simp)
  · apply look_bind_any
    intro k
    apply ite
    · intro _
      exact bind (starOrExpr he) fun _ => done
    · intro _
      exact done
  · exact finished

theorem starExprs (he : AlikeExprs m e e') :
    AlikeAnywhere m (Parser.starExprs e) (Parser.starExprs e') := by
  unfold Parser.starExprs
  apply bind (starOrExpr he)
  intro first
  apply look_bind_any
  intro comma
  apply ite
  · intro _
    exact bind (loop (starExprStep he) [first]) fun _ => spanFrom_done
  · intro _
    exact done

/-! ### Brackets -/

theorem expectClosing (closing : Operator) :
    AlikeAnywhere m (Parser.expectClosing closing) (Parser.expectClosing closing) := by
  unfold Parser.expectClosing
  apply peek_bind
  intro token
  apply eats_bind (by simp)
  · exact done
  · apply expected_bind
    apply bind skipToClosing.anywhere
    intro _
    exact discard (eat_anywhere (by simp))

theorem comprehension (start : Span) (closing : Operator) :
    AlikeAnywhere m (Parser.comprehension start closing) (Parser.comprehension start closing) := by
  unfold Parser.comprehension
  apply bind skipToClosing
  intro _
  exact bind (expectClosing closing) fun _ => spanFrom_done

theorem itemStep (he : AlikeExprs m e e') (closing : Operator) :
    AlikeSteps m (Parser.itemStep e closing) (Parser.itemStep e' closing) := by
  intro items
  unfold Parser.itemStep
  apply eats_bind (by simp)
  · apply look_bind_any
    intro closed
    apply ite
    · intro _
      exact done
    · intro _
      exact bind (starOrExpr he) fun _ => done
  · exact finished

theorem moreItems (he : AlikeExprs m e e') (closing : Operator) (items : List Expr) :
    AlikeAnywhere m (Parser.moreItems e closing items) (Parser.moreItems e' closing items) :=
  loop (itemStep he closing) items

/-- The items of a display, its closing bracket, and what they make. -/
theorem closedItems (he : AlikeExprs m e e') (closing : Operator) (items : List Expr)
    (start : Span) (display : List Expr → Span → Expr) :
    AlikeAnywhere m
      (do
        let items ← Parser.moreItems e closing items
        Parser.expectClosing closing
        Pure.pure (display items (← spanFrom start)))
      (do
        let items ← Parser.moreItems e' closing items
        Parser.expectClosing closing
        Pure.pure (display items (← spanFrom start))) := by
  apply bind (moreItems he closing items)
  intro items
  exact bind (expectClosing closing) fun _ => spanFrom_done

theorem yieldExpr (he : AlikeExprs m e e') (start : Span) :
    AlikeAnywhere m (Parser.yieldExpr e start) (Parser.yieldExpr e' start) := by
  unfold Parser.yieldExpr
  apply eats_bind (by simp)
  · exact bind (discard (he.anywhere _)) fun _ => spanFrom_done
  · apply look_bind_any
    intro k
    apply ite
    · intro _
      exact bind (discard (starExprs he)) fun _ => spanFrom_done
    · intro _
      exact spanFrom_done

theorem parenthesized (v : Version) (he : AlikeExprs m e e') (start : Span) :
    AlikeAnywhere m (Parser.parenthesized v e start) (Parser.parenthesized v e' start) := by
  unfold Parser.parenthesized
  apply eats_bind (by simp)
  · exact spanFrom_done
  apply bind (eat_anywhere (by simp))
  intro word
  cases word with
  | some word =>
    apply bind (discard (yieldExpr he word.span))
    intro _
    exact bind (expectClosing _) fun _ => spanFrom_done
  | none =>
    apply bind (starOrExpr he)
    intro first
    apply look_bind_any
    intro generator
    apply ite
    · intro _
      exact comprehension start _
    · intro _
      apply look_bind_any
      intro comma
      apply ite
      · intro _
        exact closedItems he _ [first] start _
      · intro _
        exact bind (expectClosing _) fun _ => done

/-- The items of a display behind the first one, or a comprehension in their place. -/
theorem displayItems (v : Version) (he : AlikeExprs m e e') (closing : Operator) (first : Expr)
    (start : Span) (display : List Expr → Span → Expr) :
    AlikeAnywhere m
      (do
        if ← look (Cursor.atComprehension v) then Parser.comprehension start closing
        else
          let items ← Parser.moreItems e closing [first]
          Parser.expectClosing closing
          Pure.pure (display items (← spanFrom start)))
      (do
        if ← look (Cursor.atComprehension v) then Parser.comprehension start closing
        else
          let items ← Parser.moreItems e' closing [first]
          Parser.expectClosing closing
          Pure.pure (display items (← spanFrom start))) := by
  apply look_bind_any
  intro generator
  apply ite
  · intro _
    exact comprehension start closing
  · intro _
    exact closedItems he closing [first] start display

theorem listDisplay (v : Version) (he : AlikeExprs m e e') (start : Span) :
    AlikeAnywhere m (Parser.listDisplay v e start) (Parser.listDisplay v e' start) := by
  unfold Parser.listDisplay
  apply eats_bind (by simp)
  · exact spanFrom_done
  · exact bind (starOrExpr he) fun first => displayItems v he .rBracket first start .list

theorem dictEntry (he : AlikeExprs m e e') :
    AlikeAnywhere m (Parser.dictEntry e) (Parser.dictEntry e') := by
  unfold Parser.dictEntry
  apply peek_bind
  intro start
  apply eats_bind (by simp)
  · exact bind (he.anywhere _) fun _ => done
  · apply bind (he.anywhere _)
    intro key
    apply peek_bind
    intro token
    apply eats_bind (by simp)
    · exact bind (he.anywhere _) fun _ => done
    · apply expected_bind
      apply bind skipToClosing
      intro _
      exact bind (discard (eat_anywhere (by simp))) fun _ => done

theorem entryStep (v : Version) (he : AlikeExprs m e e') :
    AlikeSteps m (Parser.entryStep v e) (Parser.entryStep v e') := by
  intro items
  unfold Parser.entryStep
  apply bind (dictEntry he)
  intro entry
  cases entry with
  | none => exact finished
  | some entry =>
    apply look_bind_any
    intro generator
    apply ite
    · intro _
      exact finished
    · intro _
      apply eats_bind (by simp)
      · apply look_bind_any
        intro closed
        apply ite
        · intro _
          exact bind (expectClosing _) fun _ => done
        · intro _
          exact done
      · exact bind (expectClosing _) fun _ => finished

theorem curlyDisplay (v : Version) (he : AlikeExprs m e e') (start : Span) :
    AlikeAnywhere m (Parser.curlyDisplay v e start) (Parser.curlyDisplay v e' start) := by
  unfold Parser.curlyDisplay
  apply eats_bind (by simp)
  · exact spanFrom_done
  apply look_bind_any
  intro dict
  apply ite
  · intro _
    apply bind (loop (entryStep v he) [])
    intro items
    cases items with
    | some items => exact spanFrom_done
    | none => exact comprehension start _
  · intro _
    exact bind (starOrExpr he) fun first => displayItems v he .rCurly first start .set

/-! ### Subscripts -/

theorem boundStep (he : AlikeExprs m e e') :
    AlikeSteps m (Parser.boundStep e) (Parser.boundStep e') := by
  intro _
  unfold Parser.boundStep
  apply eats_bind (by simp)
  · apply look_bind_any
    intro k
    split
    · exact done
    · exact done
    · exact done
    · exact bind (discard (he.anywhere _)) fun _ => done
  · exact finished

theorem slice (he : AlikeExprs m e e') (start : Span) :
    AlikeAnywhere m (Parser.slice e start) (Parser.slice e' start) := by
  unfold Parser.slice
  exact bind (loop (boundStep he) ()) fun _ => spanFrom_done

theorem subscriptItem (he : AlikeExprs m e e') :
    AlikeAnywhere m (Parser.subscriptItem e) (Parser.subscriptItem e') := by
  unfold Parser.subscriptItem
  apply peek_bind
  intro start
  apply ite
  · intro _
    exact (slice he _).anywhere
  · intro _
    apply bind (starOrExpr he)
    intro lower
    apply look_bind_any
    intro colon
    exact ite (fun _ => slice he _) fun _ => done

/-- An item may be empty, but then the comma behind it is read. -/
theorem subscriptStep (he : AlikeExprs m e e') :
    AlikeSteps m (Parser.subscriptStep e) (Parser.subscriptStep e') := by
  rintro ⟨items, separated⟩
  unfold Parser.subscriptStep
  apply look_bind_any
  intro k
  apply ite
  · intro _
    exact finished
  · intro _
    apply bind (subscriptItem he)
    intro item
    apply eats_bind (by simp)
    · exact done
    · exact finished

theorem subscript (he : AlikeExprs m e e') :
    AlikeAnywhere m (Parser.subscript e) (Parser.subscript e') := by
  unfold Parser.subscript
  apply peek_bind
  intro start
  apply bind (loop (subscriptStep he) ([], false)).anywhere
  rintro ⟨items, separated⟩
  apply bind (expectClosing _)
  intro _
  split
  · exact done
  · exact spanFrom_done

/-! ### Calls -/

theorem positionalArgument (v : Version) (he : AlikeExprs m e e') :
    Alike m (fun _ => True) (fun c _ => c.AtOperand) (Parser.positionalArgument v e)
      (Parser.positionalArgument v e') := by
  unfold Parser.positionalArgument
  apply bind_first (he _)
  intro value
  apply look_bind_any
  intro generator
  apply ite
  · intro _
    exact bind skipToClosing fun _ => spanFrom_done
  · intro _
    exact done

theorem argument (v : Version) (he : AlikeExprs m e e') :
    Alike m (fun _ => True) (fun c _ => c.AtOperand) (Parser.argument v e)
      (Parser.argument v e') := by
  unfold Parser.argument
  apply peek_bind
  intro token
  split
  · rename_i hstar
    have hne : token.kind ≠ .eof := by simp [hstar]
    exact bind_read (advance_peeked hne) fun _ => mapped (he.anywhere _)
  · rename_i hstars
    have hne : token.kind ≠ .eof := by simp [hstars]
    exact bind_read (advance_peeked hne) fun _ => mapped (he.anywhere _)
  · split
    · rename_i name hname
      apply look_bind
      intro keyword
      apply ite
      · intro hkeyword
        have hfirst : token.kind ≠ .eof := ne_eof_of_identifier? hname
        -- The equals sign behind the name has been seen as well, so it may be read too.
        refine (bind_to (J := fun c => c.kind = .equal) (fun _ => rfl) ?_ ?_ fun _ => ?_).mono
          (Nat.le_succ m)
        · rintro c ⟨⟨-, rfl⟩, -⟩
          exact hfirst
        · rintro c ⟨-, hequal⟩
          rw [Cursor.kind_advance]
          exact eq_of_beq (hequal.trans hkeyword)
        · have hsecond : ∀ c : Cursor, c.kind = .equal → c.kind ≠ .eof := by simp_all
          exact bind_read (advance hsecond) fun _ => mapped (he.anywhere _)
      · intro _
        exact (positionalArgument v he).of fun _ _ => trivial
    · exact (positionalArgument v he).of fun _ _ => trivial

/-- Behind what cannot be read as an argument the loop ends. -/
theorem argumentEnd (arguments : List Argument) :
    Alike m (fun _ => True)
      (fun c r => r.GoesRound ∧ c.kind ≠ .operator .comma ∧ c.kind ≠ .operator .rParen)
      (Parser.argumentEnd arguments) (Parser.argumentEnd arguments) := by
  unfold Parser.argumentEnd
  apply peek_bind
  intro token
  split
  · rename_i hcomma
    apply pure
    rintro c ⟨-, rfl⟩ ⟨-, hne, -⟩
    exact hne hcomma
  · rename_i hclosing
    apply pure
    rintro c ⟨-, rfl⟩ ⟨-, -, hne⟩
    exact hne hclosing
  · apply weaken _ (fun _ _ => trivial) fun _ _ _ => And.left
    apply expected_bind
    apply bind skipToClosing
    intro _
    exact bind (discard (eat_anywhere (by simp))) fun _ => finished

theorem argumentStep (v : Version) (he : AlikeExprs m e e') :
    AlikeSteps m (Parser.argumentStep v e) (Parser.argumentStep v e') := by
  intro arguments
  unfold Parser.argumentStep
  apply look_bind
  intro k
  apply ite
  · intro hclosing
    apply bind_read (advance _) fun _ => done
    rintro c ⟨-, hk⟩
    simp [hk, eq_of_beq hclosing]
  intro hclosing
  apply ite
  · intro hcomma
    simp only [Bool.and_eq_true, beq_iff_eq] at hcomma
    apply bind_read (advance _) fun _ => done
    rintro c ⟨-, hk⟩
    simp [hk, hcomma.1]
  intro _
  -- A comma where an argument should begin is read as one.
  by_cases hcomma : k = .operator .comma
  · apply bind_read ((argument v he).reading_of _) fun item => (argumentEnd _).anywhere
    rintro c ⟨-, hk⟩
    rw [Cursor.AtOperand, hk, hcomma]
    rfl
  · apply bind_stay (argument v he).anywhere fun item => (argumentEnd _).anywhere
    intro item
    apply (argumentEnd _).weaken (fun _ _ => trivial)
    rintro c r ⟨-, hk⟩ hround
    rw [hk]
    exact ⟨hround, hcomma, fun h => hclosing (by simp [h])⟩

/-! ### Operands -/

theorem unary (he : AlikeExprs m e e') (op : UnaryOp) (precedence : Precedence) (start : Span) :
    AlikeAnywhere m (Parser.unary e op precedence start)
      (Parser.unary e' op precedence start) := by
  unfold Parser.unary
  exact bind (he.anywhere _) fun _ => done

theorem lambdaParameterStep :
    AlikeSteps m Parser.lambdaParameterStep Parser.lambdaParameterStep := by
  intro depth
  unfold Parser.lambdaParameterStep
  apply peek_bind
  intro token
  split
  · exact expected_bind finished
  · exact expected_bind finished
  · rename_i op hop
    have hne : token.kind ≠ .eof := by simp [hop]
    have hread : ∀ r : LoopStep Nat Bool,
        Alike m (fun c => True ∧ c.peek = token) (fun _ => LoopStep.GoesRound)
          (Parser.advance >>= fun _ => Pure.pure r) (Parser.advance >>= fun _ => Pure.pure r) :=
      fun r => bind_read (advance_peeked hne) fun _ => done
    apply ite (fun _ => hread _)
    intro _
    apply ite (fun _ => hread _)
    intro _
    apply ite _ fun _ => hread _
    intro _
    exact ite (fun _ => expected_bind finished) fun _ => hread _
  · rename_i heof _
    exact bind_read (advance_peeked heof) fun _ => done

theorem lambda (he : AlikeExprs m e e') (start : Span) :
    AlikeAnywhere m (Parser.lambda e start) (Parser.lambda e' start) := by
  unfold Parser.lambda
  apply bind (loop lambdaParameterStep 0)
  intro found
  apply ite
  · intro _
    exact bind (he.anywhere _) fun _ => done
  · intro _
    exact spanFrom_done

theorem backquoted (he : AlikeExprs m e e') (start : Span) :
    AlikeAnywhere m (Parser.backquoted e start) (Parser.backquoted e' start) := by
  unfold Parser.backquoted
  apply bind (discard (starExprs he))
  intro _
  apply peek_bind
  intro token
  apply eats_bind (by simp)
  · exact spanFrom_done
  · exact expected_bind spanFrom_done.anywhere

theorem stringStep : AlikeSteps m Parser.stringStep Parser.stringStep := by
  rintro ⟨value, span⟩
  unfold Parser.stringStep
  apply peek_bind
  intro token
  split
  · rename_i hstring
    have hne : token.kind ≠ .eof := by simp [hstring]
    exact bind_read (advance_peeked hne) fun _ => done
  · exact finished

theorem operandAfter (v : Version) (he : AlikeExprs m e e') (token : Token) :
    AlikeAnywhere m (Parser.operandAfter v e token) (Parser.operandAfter v e' token) := by
  unfold Parser.operandAfter
  split
  · exact bind (loop stringStep _) fun _ => done
  · exact done
  · exact done
  · exact done
  · exact done
  · exact done
  · exact done
  · exact done
  · exact parenthesized v he _
  · exact listDisplay v he _
  · exact curlyDisplay v he _
  · exact unary he _ _ _
  · exact unary he _ _ _
  · exact unary he _ _ _
  · exact unary he _ _ _
  · exact unary he _ _ _
  · exact starred he token
  · exact lambda he _
  · exact yieldExpr he _
  · exact backquoted he _
  · exact report_bind done
  · exact expected_bind done

/-- An operand begins with a token that is read, or is missing. What it does depends on the
    expressions behind that token. -/
theorem operand (v : Version) (he : AlikeExprs m e e') :
    Alike (m + 1) (fun _ => True) (fun c _ => c.AtOperand) (Parser.operand v e)
      (Parser.operand v e') := by
  unfold Parser.operand
  apply peek_bind
  intro token
  split
  · rename_i ident hident
    have hne : token.kind ≠ .eof := ne_eof_of_identifier? hident
    apply look_bind_any
    intro await
    apply ite
    · intro _
      exact bind_read_succ (advance_peeked hne) fun _ => unary he _ _ _
    · intro _
      exact bind_read_succ (advance_peeked hne) fun _ => done
  · apply ite
    · intro hends
      apply expected_bind
      apply pure
      rintro c ⟨-, rfl⟩ hoperand
      rw [Cursor.AtOperand, Cursor.kind_eq, hends] at hoperand
      cases hoperand
    · intro hends
      have hne : token.kind ≠ .eof := by
        intro heof
        simp [heof, TokenKind.endsOperand, TokenKind.isLayout] at hends
      exact bind_read_succ (advance_peeked hne) fun _ => operandAfter v he token

/-! ### Continuations -/

theorem conditional (he : AlikeExprs m e e') (start : Span) :
    AlikeAnywhere m (Parser.conditional e start) (Parser.conditional e' start) := by
  unfold Parser.conditional
  apply bind (discard (he.anywhere _))
  intro _
  apply peek_bind
  intro token
  apply eats_bind (by simp)
  · exact bind (discard (he.anywhere _)) fun _ => spanFrom_done
  · exact expected_bind spanFrom_done.anywhere

/-- What follows the first token of a continuation. The second one, if there is one, has been seen
    as well. -/
theorem continued (v : Version) (he : AlikeExprs m e e') (lhs : Expr) (token : Token)
    (continuation : Continuation) :
    Alike m (fun c => continuation.width = 2 → c.kind ≠ .eof) (fun _ _ => False)
      (Parser.continued v e lhs token continuation)
      (Parser.continued v e' lhs token continuation) := by
  unfold Parser.continued
  split
  · exact bind (loop (argumentStep v he) []) fun _ => spanFrom_done
  · exact bind (subscript he) fun _ => spanFrom_done
  · apply bind expectIdentifier.anywhere
    intro attr
    cases attr with
    | some attr => exact done
    | none => exact done
  · exact (conditional he _).anywhere
  · exact bind (he.anywhere _) fun _ => done
  · rename_i op
    apply ite
    · intro hwidth
      apply bind_read (advance fun c hc => hc (eq_of_beq hwidth))
      intro _
      exact bind (he.anywhere _) fun _ => done
    · intro _
      exact bind (he.anywhere _) fun _ => done

theorem continuationStep (v : Version) (he : AlikeExprs m e e') (precedence : Precedence) :
    AlikeSteps (m + 1) (Parser.continuationStep v e precedence)
      (Parser.continuationStep v e' precedence) := by
  intro lhs
  unfold Parser.continuationStep
  apply look_bind
  intro continuation
  cases continuation with
  | none => exact finished
  | some continuation =>
    apply ite
    · intro _
      exact finished
    · intro _
      apply bind_to (fun _ => rfl) _ _ fun token => mapped (continued v he lhs token continuation)
      · rintro c ⟨-, hcontinuation⟩
        exact TokenKind.ne_eof_of_plain (Stays.isLayout_of_ofKinds? hcontinuation).1
      · rintro c ⟨-, hcontinuation⟩ hwidth
        rw [Cursor.kind_advance]
        exact TokenKind.ne_eof_of_plain ((Stays.isLayout_of_ofKinds? hcontinuation).2 hwidth)

/-- What an expression does depends on the expressions behind its first token. -/
theorem exprWith (v : Version) (he : AlikeExprs m e e') :
    AlikeExprs (m + 1) (Parser.exprWith v e) (Parser.exprWith v e') := by
  intro precedence
  unfold Parser.exprWith
  apply bind_first (operand v he)
  intro lhs
  exact loop (continuationStep v he precedence) lhs

end Alike

namespace AlikeExprs

open PyAtlas.Parser

/-- A parser of expressions that does what `parseExpr` does on fewer tokens makes the same
    productions of them. -/
theorem of_agrees {v : Version} {m : Nat} {e : ExprParser}
    (h : AlikeExprs m (Parser.parseExpr v) (Parser.parseExpr v))
    (hagrees : ∀ precedence t, t.remaining < m → e precedence t = Parser.parseExpr v precedence t) :
    AlikeExprs m e (Parser.parseExpr v) := by
  intro precedence t ht _
  obtain ⟨-, hforward, hlt⟩ := h precedence t ht trivial
  exact ⟨hagrees precedence t ht, hforward, hlt⟩

/-- The expressions inside an expression are parsed without giving up. -/
theorem parseExpr_eq_of {v : Version} {s : ParserState}
    (h : AlikeExprs s.remaining (Parser.parseExpr v) (Parser.parseExpr v))
    (precedence : Precedence) :
    Parser.parseExpr v precedence s = Parser.exprWith v (Parser.parseExpr v) precedence s := by
  rw [Parser.parseExpr]
  have hinner : AlikeExprs s.remaining
      (fun inner => nested s.remaining (.error s.cursor.peek.span) fun t _ =>
        Parser.parseExpr v inner t) (Parser.parseExpr v) :=
    h.of_agrees fun inner t ht => nested_of_lt ht
  exact (Alike.exprWith v hinner precedence s (Nat.lt_succ_self _) trivial).1

/-- An expression reads on, and it reads a token unless its operand is missing. -/
theorem parseExpr (v : Version) (m : Nat) :
    AlikeExprs m (Parser.parseExpr v) (Parser.parseExpr v) := by
  induction m with
  | zero => exact fun _ s hs => absurd hs (Nat.not_lt_zero _)
  | succ m ih =>
    intro precedence s hs _
    -- What is in the expression has fewer tokens than the expression, and there it is known.
    have hinner : AlikeExprs s.remaining (Parser.parseExpr v) (Parser.parseExpr v) :=
      fun inner => (ih inner).mono (Nat.le_of_lt_succ hs)
    obtain ⟨-, hforward, hlt⟩ :=
      Alike.exprWith v hinner precedence s (Nat.lt_succ_self _) trivial
    rw [parseExpr_eq_of hinner]
    exact ⟨rfl, hforward, hlt⟩

end AlikeExprs

/-- An expression is what its production makes of any parser of expressions that is right about
    fewer tokens. -/
theorem Parser.exprWith_eq_parseExpr {v : Version} {e : ExprParser} {s : ParserState}
    (h : ∀ inner t, t.remaining < s.remaining → e inner t = parseExpr v inner t)
    (precedence : Precedence) : exprWith v e precedence s = parseExpr v precedence s := by
  have hexprs := AlikeExprs.parseExpr v s.remaining
  rw [AlikeExprs.parseExpr_eq_of hexprs]
  exact (Alike.exprWith v (hexprs.of_agrees h) precedence s (Nat.lt_succ_self _) trivial).1

namespace Alike

variable {m : Nat}

theorem expression (v : Version) : AlikeAnywhere m (Parser.expression v) (Parser.expression v) :=
  (AlikeExprs.parseExpr v m).anywhere _

theorem starExpressions (v : Version) :
    AlikeAnywhere m (Parser.starExpressions v) (Parser.starExpressions v) :=
  starExprs (AlikeExprs.parseExpr v m)

end Alike

end PyAtlas
