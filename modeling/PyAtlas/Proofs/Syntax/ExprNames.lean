import PyAtlas.Proofs.Syntax.DrawnNames
import PyAtlas.Proofs.Syntax.ExprPlacing

/-!
# The names in expressions

Every production for expressions draws the identifiers of its result from the tokens, given a parser
of the expressions in it that does. Only operands, attributes and the keywords of arguments bring
names with them; all other productions pass on what the expressions in them have.

## Key results
- `Draws.operand`, `Draws.argument`, `Draws.continued`: where identifiers are read.
- `Draws.exprWith`: the production for whole expressions, given the one for the expressions in it.
- `DrawsExprs.parseExpr`: the identifiers in an expression are names of the tokens.
-/

namespace PyAtlas

/-- The parser draws the identifiers in the expression that it yields from the tokens. -/
abbrev DrawsExpr (ts : List Token) (p : Parser Expr) : Prop :=
  Draws ts p fun e => AllDrawn ts e.identifiers

/-- So does a parser of expressions of any precedence. -/
abbrev DrawsExprs (ts : List Token) (e : Parser.ExprParser) : Prop :=
  ∀ precedence, DrawsExpr ts (e precedence)

namespace AllDrawn

variable {ts : List Token}

theorem exprs_singleton {e : Expr} (h : AllDrawn ts e.identifiers) :
    AllDrawn ts (exprIdentifiers [e]) :=
  append_iff.2 ⟨h, .nil⟩

/-- One more expression behind others. -/
theorem exprs_concat {es : List Expr} {e : Expr} (h : AllDrawn ts (exprIdentifiers es))
    (he : AllDrawn ts e.identifiers) : AllDrawn ts (exprIdentifiers (es ++ [e])) := by
  rw [exprIdentifiers_append, append_iff]
  exact ⟨h, exprs_singleton he⟩

theorem arguments_concat {as : List Argument} {a : Argument}
    (h : AllDrawn ts (argumentIdentifiers as)) (ha : AllDrawn ts a.identifiers) :
    AllDrawn ts (argumentIdentifiers (as ++ [a])) := by
  rw [argumentIdentifiers_append, append_iff]
  exact ⟨h, append_iff.2 ⟨ha, .nil⟩⟩

theorem entries_append {entries entries' : List (Expr × Expr)}
    (h : AllDrawn ts (entryIdentifiers entries)) (h' : AllDrawn ts (entryIdentifiers entries')) :
    AllDrawn ts (entryIdentifiers (entries ++ entries')) := by
  rw [entryIdentifiers_append, append_iff]
  exact ⟨h, h'⟩

end AllDrawn

namespace Draws

open PyAtlas.Parser

variable {ts : List Token} {e : ExprParser}

/-! ### Lists of expressions -/

theorem starred (he : DrawsExprs ts e) (star : Token) : DrawsExpr ts (Parser.starred e star) := by
  unfold Parser.starred
  exact (he _).bind fun value hvalue => pure hvalue

theorem starOrExpr (he : DrawsExprs ts e) : DrawsExpr ts (Parser.starOrExpr e) := by
  unfold Parser.starOrExpr
  exact look_bind fun token => ite (advance.bind fun _ _ => starred he token) (he _)

theorem moreStarExprs (he : DrawsExprs ts e) {items : List Expr}
    (hitems : AllDrawn ts (exprIdentifiers items)) :
    Draws ts (Parser.moreStarExprs e items) fun r => AllDrawn ts (exprIdentifiers r) := by
  unfold Parser.moreStarExprs
  refine loop_id (S := fun items => AllDrawn ts (exprIdentifiers items)) (fun items hitems => ?_)
    hitems
  refine eats_bind (look_bind fun _ => ite ?_ (pure hitems)) (pure hitems)
  exact (starOrExpr he).bind fun item hitem => pure (hitems.exprs_concat hitem)

theorem starExprs (he : DrawsExprs ts e) : DrawsExpr ts (Parser.starExprs e) := by
  unfold Parser.starExprs
  refine (starOrExpr he).bind fun first hfirst => look_bind fun _ => ite ?_ (pure hfirst)
  exact (moreStarExprs he (.exprs_singleton hfirst)).bind fun items hitems =>
    spanFrom_pure fun _ => hitems

/-! ### Brackets -/

theorem expectClosing (closing : Operator) :
    Draws ts (Parser.expectClosing closing) fun _ => True := by
  unfold Parser.expectClosing
  refine look_bind fun token => eats_bind (pure trivial) (expected.bind fun _ _ => ?_)
  exact skipToClosing.bind fun _ _ => eat.discard

theorem comprehension (start : Span) (closing : Operator) :
    DrawsExpr ts (Parser.comprehension start closing) := by
  unfold Parser.comprehension
  refine skipToClosing.bind fun _ _ => (expectClosing closing).bind fun _ _ => ?_
  exact spanFrom_pure fun _ => .nil

theorem moreItems (he : DrawsExprs ts e) (closing : Operator) {items : List Expr}
    (hitems : AllDrawn ts (exprIdentifiers items)) :
    Draws ts (Parser.moreItems e closing items) fun r => AllDrawn ts (exprIdentifiers r) := by
  unfold Parser.moreItems
  refine loop_id (S := fun items => AllDrawn ts (exprIdentifiers items)) (fun items hitems => ?_)
    hitems
  refine eats_bind (look_bind fun _ => ite (pure hitems) ?_) (pure hitems)
  exact (starOrExpr he).bind fun item hitem => pure (hitems.exprs_concat hitem)

/-- The items of a display, behind the first of them, and the bracket that closes it. -/
theorem closedItems (he : DrawsExprs ts e) (closing : Operator) {first : Expr} {start : Span}
    {node : List Expr → Span → Expr} (hnode : ∀ items span,
      (node items span).identifiers = exprIdentifiers items)
    (hfirst : AllDrawn ts first.identifiers) : DrawsExpr ts (do
      let items ← Parser.moreItems e closing [first]
      Parser.expectClosing closing
      Pure.pure (node items (← spanFrom start))) := by
  refine (moreItems he closing (.exprs_singleton hfirst)).bind fun items hitems => ?_
  refine (expectClosing closing).bind fun _ _ => spanFrom_pure fun span => ?_
  rw [hnode]
  exact hitems

theorem yieldExpr (he : DrawsExprs ts e) (start : Span) :
    DrawsExpr ts (Parser.yieldExpr e start) := by
  have hdone : DrawsExpr ts (spanFrom start >>= fun span => Pure.pure (.other span)) :=
    spanFrom_pure fun _ => .nil
  unfold Parser.yieldExpr
  refine eats_bind ((he _).discard.bind fun _ _ => hdone) (look_bind fun _ => ite ?_ hdone)
  exact (starExprs he).discard.bind fun _ _ => hdone

theorem parenthesized (v : Version) (he : DrawsExprs ts e) (start : Span) :
    DrawsExpr ts (Parser.parenthesized v e start) := by
  unfold Parser.parenthesized
  refine eats_bind (spanFrom_pure fun _ => .nil) (eat_bind fun word => ?_)
  cases word with
  | some word =>
    refine (yieldExpr he word.span).discard.bind fun _ _ => (expectClosing _).bind fun _ _ => ?_
    exact spanFrom_pure fun _ => .nil
  | none =>
    refine (starOrExpr he).bind fun first hfirst => look_bind fun _ => ?_
    refine ite (comprehension start _) (look_bind fun _ => ite ?_ ?_)
    · exact closedItems he _ (fun _ _ => rfl) hfirst
    · exact (expectClosing _).bind fun _ _ => pure hfirst

theorem listDisplay (v : Version) (he : DrawsExprs ts e) (start : Span) :
    DrawsExpr ts (Parser.listDisplay v e start) := by
  unfold Parser.listDisplay
  refine eats_bind (spanFrom_pure fun _ => .nil) ?_
  refine (starOrExpr he).bind fun first hfirst => look_bind fun _ => ?_
  exact ite (comprehension start _) (closedItems he _ (fun _ _ => rfl) hfirst)

theorem dictEntry (he : DrawsExprs ts e) :
    Draws ts (Parser.dictEntry e) fun r => AllDrawn ts (entryIdentifiers r.toList) := by
  unfold Parser.dictEntry
  refine look_bind fun start => eats_bind ?_ ?_
  · refine (he _).bind fun value hvalue => pure ?_
    simpa [entryIdentifiers, Expr.identifiers] using hvalue
  · refine (he _).bind fun key hkey => look_bind fun token => eats_bind ?_ ?_
    · refine (he _).bind fun value hvalue => pure ?_
      simpa [entryIdentifiers] using ⟨hkey, hvalue⟩
    · refine expected.bind fun _ _ => skipToClosing.bind fun _ _ => ?_
      exact eat.discard.bind fun _ _ => pure .nil

/-- The entries of a dictionary. A comprehension has none. -/
theorem dictEntries (v : Version) (he : DrawsExprs ts e) :
    Draws ts (Parser.dictEntries v e) fun r => AllDrawn ts (entryIdentifiers (r.getD [])) := by
  unfold Parser.dictEntries Parser.moreEntries
  refine loop (S := fun items => AllDrawn ts (entryIdentifiers items))
    (T := fun r => AllDrawn ts (entryIdentifiers (Option.getD r [])))
    (fun items hitems => ?_) ?_ .nil
  · refine (dictEntry he).bind fun entry hentry => ?_
    cases entry with
    | none => exact pure hitems
    | some entry =>
      have hadded : AllDrawn ts (entryIdentifiers (items ++ [entry])) :=
        hitems.entries_append hentry
      refine look_bind fun _ => ite (pure .nil) (eats_bind (look_bind fun _ => ite ?_ ?_) ?_)
      · exact (expectClosing _).bind fun _ _ => pure hadded
      · exact pure hadded
      · exact (expectClosing _).bind fun _ _ => pure hadded
  · exact fun _ hitems => hitems

theorem curlyDisplay (v : Version) (he : DrawsExprs ts e) (start : Span) :
    DrawsExpr ts (Parser.curlyDisplay v e start) := by
  unfold Parser.curlyDisplay
  refine eats_bind (spanFrom_pure fun _ => .nil) (look_bind fun _ => ite ?_ ?_)
  · refine (dictEntries v he).bind fun items hitems => ?_
    cases items with
    | some items => exact spanFrom_pure fun _ => hitems
    | none => exact comprehension start _
  · refine (starOrExpr he).bind fun first hfirst => look_bind fun _ => ?_
    exact ite (comprehension start _) (closedItems he _ (fun _ _ => rfl) hfirst)

/-! ### Subscripts -/

theorem slice (he : DrawsExprs ts e) (start : Span) : DrawsExpr ts (Parser.slice e start) := by
  have hbounds : Draws ts (Parser.sliceBounds e) fun _ => True := by
    refine loop_any fun _ => eats_bind (look_bind fun _ => ?_) (pure trivial)
    split
    · exact pure trivial
    · exact pure trivial
    · exact pure trivial
    · exact (he _).discard.bind fun _ _ => pure trivial
  unfold Parser.slice
  exact hbounds.bind fun _ _ => spanFrom_pure fun _ => .nil

theorem subscriptItem (he : DrawsExprs ts e) : DrawsExpr ts (Parser.subscriptItem e) := by
  unfold Parser.subscriptItem
  refine look_bind fun start => ite (slice he _) ?_
  exact (starOrExpr he).bind fun lower hlower => look_bind fun _ => ite (slice he _) (pure hlower)

theorem subscriptItems (he : DrawsExprs ts e) :
    Draws ts (Parser.subscriptItems e) fun r => AllDrawn ts (exprIdentifiers r.1) := by
  unfold Parser.subscriptItems
  refine loop_id (S := fun r : List Expr × Bool => AllDrawn ts (exprIdentifiers r.1))
    (fun (items, separated) hitems => ?_) .nil
  refine look_bind fun _ => ite (pure hitems) ?_
  refine (subscriptItem he).bind fun item hitem => ?_
  have hadded := AllDrawn.exprs_concat hitems hitem
  exact eats_bind (pure hadded) (pure hadded)

theorem subscript (he : DrawsExprs ts e) : DrawsExpr ts (Parser.subscript e) := by
  unfold Parser.subscript
  refine look_bind fun start => (subscriptItems he).bind fun r hitems => ?_
  obtain ⟨items, separated⟩ := r
  refine (expectClosing _).bind fun _ _ => ?_
  split
  · rename_i item _
    exact pure (AllDrawn.append_iff.1 hitems).1
  · exact spanFrom_pure fun _ => hitems

/-! ### Calls -/

theorem positionalArgument (v : Version) (he : DrawsExprs ts e) :
    Draws ts (Parser.positionalArgument v e) fun a => AllDrawn ts a.identifiers := by
  unfold Parser.positionalArgument
  refine (he _).bind fun value hvalue => look_bind fun _ => ite ?_ (pure hvalue)
  exact skipToClosing.bind fun _ _ => spanFrom_pure fun _ => .nil

theorem argument (v : Version) (he : DrawsExprs ts e) :
    Draws ts (Parser.argument v e) fun a => AllDrawn ts a.identifiers := by
  unfold Parser.argument
  refine peek_bind fun token hdrawn => ?_
  split
  · exact advance.bind fun _ _ => map (he _)
  · exact advance.bind fun _ _ => map (he _)
  · split
    · rename_i name hname
      refine look_bind fun _ => ite ?_ (positionalArgument v he)
      refine advance.bind fun _ _ => advance.bind fun _ _ => ?_
      refine map ((he _).mono fun value hvalue => ?_)
      exact AllDrawn.cons_iff.2 ⟨hdrawn name hname, hvalue⟩
    · exact positionalArgument v he

theorem argumentEnd {arguments : List Argument}
    (harguments : AllDrawn ts (argumentIdentifiers arguments)) :
    Draws ts (Parser.argumentEnd arguments) fun r =>
      r.Holds (fun as => AllDrawn ts (argumentIdentifiers as))
        fun as => AllDrawn ts (argumentIdentifiers as) := by
  unfold Parser.argumentEnd
  refine look_bind fun token => ?_
  split
  · exact pure harguments
  · exact pure harguments
  · refine expected.bind fun _ _ => skipToClosing.bind fun _ _ => ?_
    exact eat.discard.bind fun _ _ => pure harguments

theorem callArguments (v : Version) (he : DrawsExprs ts e) :
    Draws ts (Parser.callArguments v e) fun as => AllDrawn ts (argumentIdentifiers as) := by
  unfold Parser.callArguments Parser.moreArguments
  refine loop_id (S := fun as => AllDrawn ts (argumentIdentifiers as)) (fun arguments hargs => ?_)
    .nil
  refine look_bind fun _ => ite (advance.bind fun _ _ => pure hargs) ?_
  refine ite (advance.bind fun _ _ => pure hargs) ?_
  exact (argument v he).bind fun item hitem => argumentEnd (hargs.arguments_concat hitem)

/-! ### Operands -/

theorem unary (he : DrawsExprs ts e) (op : UnaryOp) (precedence : Precedence) (start : Span) :
    DrawsExpr ts (Parser.unary e op precedence start) := by
  unfold Parser.unary
  exact (he _).bind fun operand hoperand => pure hoperand

theorem lambdaParameters : Draws ts Parser.lambdaParameters fun _ => True := by
  unfold Parser.lambdaParameters
  refine loop_any fun depth => look_bind fun token => ?_
  split
  · exact expected.bind fun _ _ => pure trivial
  · exact expected.bind fun _ _ => pure trivial
  · refine ite (advance.bind fun _ _ => pure trivial) ?_
    refine ite (advance.bind fun _ _ => pure trivial) ?_
    refine ite (ite ?_ ?_) (advance.bind fun _ _ => pure trivial)
    · exact expected.bind fun _ _ => pure trivial
    · exact advance.bind fun _ _ => pure trivial
  · exact advance.bind fun _ _ => pure trivial

theorem lambda (he : DrawsExprs ts e) (start : Span) : DrawsExpr ts (Parser.lambda e start) := by
  unfold Parser.lambda
  refine lambdaParameters.bind fun _ _ => ite ?_ (spanFrom_pure fun _ => .nil)
  exact (he _).bind fun body _ => pure .nil

theorem backquoted (he : DrawsExprs ts e) (start : Span) :
    DrawsExpr ts (Parser.backquoted e start) := by
  unfold Parser.backquoted
  refine (starExprs he).discard.bind fun _ _ => look_bind fun token => eats_bind ?_ ?_
  · exact spanFrom_pure fun _ => .nil
  · exact expected.bind fun _ _ => spanFrom_pure fun _ => .nil

theorem moreStrings (first : Token) : Draws ts (Parser.moreStrings first) fun _ => True := by
  unfold Parser.moreStrings
  refine loop_any fun (value, span) => look_bind fun token => ?_
  split
  · exact advance.bind fun _ _ => pure trivial
  · exact pure trivial

theorem operandAfter (v : Version) (he : DrawsExprs ts e) (token : Token) :
    DrawsExpr ts (Parser.operandAfter v e token) := by
  unfold Parser.operandAfter
  split
  · exact (moreStrings token).bind fun _ _ => pure .nil
  · exact pure .nil
  · exact pure .nil
  · exact pure .nil
  · exact pure .nil
  · exact pure .nil
  · exact pure .nil
  · exact pure .nil
  · exact parenthesized v he _
  · exact listDisplay v he _
  · exact curlyDisplay v he _
  · exact unary he _ _ _
  · exact unary he _ _ _
  · exact unary he _ _ _
  · exact unary he _ _ _
  · exact unary he _ _ _
  · exact starred he token
  · exact lambda he _
  · exact yieldExpr he _
  · exact backquoted he _
  · exact report.bind fun _ _ => pure .nil
  · exact expected.bind fun _ _ => pure .nil

theorem operand (v : Version) (he : DrawsExprs ts e) : DrawsExpr ts (Parser.operand v e) := by
  unfold Parser.operand
  refine peek_bind fun token hdrawn => ?_
  split
  · rename_i ident hident
    refine look_bind fun _ => ite (advance.bind fun _ _ => unary he _ _ _) ?_
    exact advance.bind fun _ _ => pure (List.forall_mem_singleton.2 (hdrawn ident hident))
  · refine ite (expected.bind fun _ _ => pure .nil) ?_
    exact advance.bind fun _ _ => operandAfter v he token

/-! ### Continuations -/

theorem conditional (he : DrawsExprs ts e) (start : Span) :
    DrawsExpr ts (Parser.conditional e start) := by
  unfold Parser.conditional
  refine (he _).discard.bind fun _ _ => look_bind fun token => eats_bind ?_ ?_
  · exact (he _).discard.bind fun _ _ => spanFrom_pure fun _ => .nil
  · exact expected.bind fun _ _ => spanFrom_pure fun _ => .nil

theorem continued (v : Version) (he : DrawsExprs ts e) {lhs : Expr}
    (hlhs : AllDrawn ts lhs.identifiers) (token : Token) (continuation : Continuation) :
    DrawsExpr ts (Parser.continued v e lhs token continuation) := by
  unfold Parser.continued
  split
  · refine (callArguments v he).bind fun arguments harguments => spanFrom_pure fun _ => ?_
    exact AllDrawn.append_iff.2 ⟨hlhs, harguments⟩
  · refine (subscript he).bind fun index hindex => spanFrom_pure fun _ => ?_
    exact AllDrawn.append_iff.2 ⟨hlhs, hindex⟩
  · refine expectIdentifier_bind (fun attr hattr => pure ?_) (pure .nil)
    exact AllDrawn.append_iff.2 ⟨hlhs, List.forall_mem_singleton.2 hattr⟩
  · exact conditional he _
  · exact (he _).bind fun _ _ => pure .nil
  · have hrhs (op : BinaryOp) (precedence : Precedence) :
        DrawsExpr ts (e precedence >>= fun rhs => Pure.pure (binary op lhs rhs)) :=
      (he _).bind fun rhs hrhs => pure (AllDrawn.append_iff.2 ⟨hlhs, hrhs⟩)
    exact ite (advance.bind fun _ _ => hrhs _ _) (hrhs _ _)

theorem continuations (v : Version) (he : DrawsExprs ts e) (precedence : Precedence) {lhs : Expr}
    (hlhs : AllDrawn ts lhs.identifiers) :
    DrawsExpr ts (Parser.continuations v e precedence lhs) := by
  unfold Parser.continuations
  refine loop_id (S := fun e : Expr => AllDrawn ts e.identifiers) (fun lhs hlhs => ?_) hlhs
  refine look_bind fun found => ?_
  cases found with
  | none => exact pure hlhs
  | some continuation =>
    exact ite (pure hlhs) (next_bind fun token => map (continued v he hlhs token continuation))

theorem exprWith (v : Version) (he : DrawsExprs ts e) :
    DrawsExprs ts (Parser.exprWith v e) := by
  intro precedence
  unfold Parser.exprWith
  exact (operand v he).bind fun lhs hlhs => continuations v he precedence hlhs

end Draws

/-! ### Expressions in expressions -/

namespace DrawsExprs

open PyAtlas.Parser

variable {ts : List Token}

/-- A parser of expressions that does in every state what some other one does. -/
theorem of_pointwise {e : ExprParser}
    (h : ∀ s, ∃ e', DrawsExprs ts e' ∧ ∀ precedence, e precedence s = e' precedence s) :
    DrawsExprs ts e := fun precedence =>
  .of_pointwise fun s => by
    obtain ⟨e', he', heq⟩ := h s
    exact ⟨e' precedence, he' precedence, heq precedence⟩

/-- The identifiers in an expression are names of the tokens. -/
theorem parseExpr (v : Version) : DrawsExprs ts (Parser.parseExpr v) := by
  have hnone : DrawsExprs ts fun _ => pure (.error ⟨0, 0⟩) := fun _ => .pure .nil
  exact parseExpr_closed (C := DrawsExprs ts) hnone (fun _ => Draws.exprWith v) fun _ =>
    of_pointwise

end DrawsExprs

namespace Draws

variable {ts : List Token}

theorem expression (v : Version) : DrawsExpr ts (Parser.expression v) :=
  DrawsExprs.parseExpr v _

theorem starExpressions (v : Version) : DrawsExpr ts (Parser.starExpressions v) :=
  starExprs (DrawsExprs.parseExpr v)

end Draws

end PyAtlas
